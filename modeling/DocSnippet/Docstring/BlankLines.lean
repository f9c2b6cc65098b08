import DocSnippet.Text.Space

/-! Blank lines and indentation of a docstring. -/

namespace DocSnippet.Docstring

open Text

/-- Whether the white space at the head of a text holds a line feed. -/
def breaksAhead (t : Text) : Bool := (t.takeWhile isSpace).contains '\n'

/-- Replaces runs of blank lines by one empty line. While `skipping`, the rest of such a run is left
out, up to its last line feed. -/
def condenseFrom : Bool → Text → Text
  | _, [] => []
  | true, c :: t =>
    if breaksAhead (c :: t) then condenseFrom true t else c :: condenseFrom false t
  | false, c :: t =>
    if c = '\n' ∧ breaksAhead t then '\n' :: '\n' :: condenseFrom true t
    else c :: condenseFrom false t

/-- A text in which no two blank lines follow each other, and every blank line is empty. -/
def condense (t : Text) : Text := condenseFrom false t

def condenseEnd (t : Text) : Text :=
  let body := dropWhileEnd (· == '\n') t
  if body.length < t.length then body ++ ['\n'] else body

/-- Puts an indentation in front of every line that is not empty. -/
def indent (indentation : Text) (t : Text) : Text :=
  unlines ((lines t).map fun l => if l.isEmpty then l else indentation ++ l)

end DocSnippet.Docstring
