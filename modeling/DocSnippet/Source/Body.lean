import DocSnippet.Source.Comment
import DocSnippet.Source.Keyword
import DocSnippet.Source.Line

/-! The body below a cursor: the lines from the cursor on, as long as they are indented as far as
the first of them. -/

namespace DocSnippet.Source

open Text

namespace Body

/-- The floor where no statement follows the cursor: no line is indented this far. -/
def unreachable : Nat := 10000

/-- The indentation of the first statement, which every line of the body has to reach. A line that
opens another definition means that there is no body. -/
def floor : List Text → Nat
  | [] => unreachable
  | l :: ls =>
    if isBlank l then floor ls
    else if isHeaderLike l then unreachable
    else indentWidth l

/-- Whether the next visible line opens a definition left of the floor. -/
def endsBefore (floor : Nat) (ls : List Text) : Bool :=
  match ls.find? fun l => !isBlank l with
  | some next => indentWidth next < floor && startsDefinition next
  | none => false

/-- The visible lines up to the first one left of the floor. -/
def block (floor : Nat) : List Text → List Text
  | [] => []
  | l :: ls =>
    if isBlank l then (if endsBefore floor ls then [] else block floor ls)
    else if indentWidth l < floor then []
    else l :: block floor ls

/-- The cleaned body lines of the definition whose body holds the cursor line. -/
def below (document : Text) (line : Nat) : List Text :=
  let ls := (lines document).drop line
  cleanLines (block (floor ls) ls)

end Body

end DocSnippet.Source
