/-!
# Columns

The columns that a text takes on a line of a terminal.  A control character takes none, a tab reaches
to the next multiple of four, ideographs and the pictures of faces take two, and every other character
takes one.
-/

namespace MonkeyLang.Column

/-- The distance between tab stops. -/
def tabStop : Nat := 4

/-- Whether a character takes no column. -/
def isControl (c : Char) : Bool := c.toNat < 0x20 || (0x7F ≤ c.toNat && c.toNat < 0xA0)

/-- Whether a character takes two columns: the unified ideographs, and the emoticons. -/
def isWide (c : Char) : Bool :=
  (0x4E00 ≤ c.toNat && c.toNat ≤ 0x9FFF) || (0x1F600 ≤ c.toNat && c.toNat ≤ 0x1F64F)

/-- How many columns a character takes that is put at column `n`. -/
def width (n : Nat) (c : Char) : Nat :=
  if c = '\t' then tabStop - n % tabStop
  else if isControl c then 0
  else if isWide c then 2
  else 1

/-- The column behind a text that is put at column `n`. -/
def after (n : Nat) (cs : List Char) : Nat := cs.foldl (fun n c => n + width n c) n

/-- A text that is put at column `n`, with each tab replaced by the blanks that it stands for. -/
def expandTabs (n : Nat) : List Char → List Char
  | [] => []
  | c :: cs =>
    (if c = '\t' then List.replicate (width n c) ' ' else [c]) ++ expandTabs (n + width n c) cs

end MonkeyLang.Column
