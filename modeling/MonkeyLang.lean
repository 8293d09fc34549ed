import MonkeyLang.Check
import MonkeyLang.Proofs.Blame
import MonkeyLang.Proofs.Bookkeeping
import MonkeyLang.Proofs.Concatenation
import MonkeyLang.Proofs.Correspondence
import MonkeyLang.Proofs.Coverage
import MonkeyLang.Proofs.Excerpt
import MonkeyLang.Proofs.Extent
import MonkeyLang.Proofs.Handover
import MonkeyLang.Proofs.Integers
import MonkeyLang.Proofs.Interleaving
import MonkeyLang.Proofs.Lexicon
import MonkeyLang.Proofs.Lookahead
import MonkeyLang.Proofs.Nesting
import MonkeyLang.Proofs.Parentheses
import MonkeyLang.Proofs.Placement
import MonkeyLang.Proofs.Progress
import MonkeyLang.Proofs.Readability
import MonkeyLang.Proofs.ReadingHead
import MonkeyLang.Proofs.Reflow
import MonkeyLang.Proofs.Remainder
import MonkeyLang.Proofs.Rendering
import MonkeyLang.Proofs.Reports
import MonkeyLang.Proofs.Resumption
import MonkeyLang.Proofs.Veracity
import MonkeyLang.Report
