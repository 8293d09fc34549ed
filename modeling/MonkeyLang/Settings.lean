/-!
# Settings

What a caller may set about parsing: how deeply the operands of an expression may be nested.  The
limit keeps a hostile text from exhausting the parser; it is generous for any other.
-/

namespace MonkeyLang

/-- The limits within which a text is parsed. -/
structure Settings where
  /-- How many levels of operands an expression may have. -/
  maxDepth : Nat := 256
deriving DecidableEq, Repr

/-- The same settings with another limit on the levels of operands. -/
def Settings.withMaxDepth (s : Settings) (n : Nat) : Settings := { s with maxDepth := n }

end MonkeyLang
