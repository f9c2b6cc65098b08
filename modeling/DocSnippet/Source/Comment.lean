import DocSnippet.Text.Space
import DocSnippet.Text.Nesting

/-! Comments. A scan of a line knows whether it is inside a string literal, where a backslash takes
the next character with it; a `#` outside starts a comment. -/

namespace DocSnippet.Source

open Text

/-- Where a scan of a line stands: in code, in a literal opened by `quote`, or in such a literal
right after a backslash. -/
inductive Quoting
  | code
  | literal (quote : Char)
  | escaped (quote : Char)
  deriving DecidableEq

def Quoting.step : Quoting → Char → Quoting
  | .code, c => if isQuote c then .literal c else .code
  | .literal q, c => if c = '\\' then .escaped q else if c = q then .code else .literal q
  | .escaped q, _ => .literal q

/-- The text before the first `#` that stands in code. -/
def stripCommentFrom : Quoting → Text → Text
  | _, [] => []
  | s, c :: t => if s = .code ∧ c = '#' then [] else c :: stripCommentFrom (s.step c) t

def stripComment (line : Text) : Text := stripCommentFrom .code line

def isCommentLine (line : Text) : Bool := (trim line).head? == some '#'

/-- Lines trimmed and freed of comments. A line that is all comment is dropped. -/
def cleanLines (ls : List Text) : List Text :=
  (ls.filter fun l => !isCommentLine l).map fun l => trimEnd (stripComment (trim l))

end DocSnippet.Source
