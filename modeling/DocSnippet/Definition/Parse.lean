import DocSnippet.Definition.Dataclass
import DocSnippet.Signature.Basic
import DocSnippet.Source.Body
import DocSnippet.Source.Header

/-! The definition around a cursor line, the indentation of a docstring there, and its insertion. -/

namespace DocSnippet

open Text Source

namespace Definition

def ofHeader (header : Header) (body : List Text) : Definition :=
  let isClass := isClassHeader header.text
  let name := (Signature.name? header.text).getD []
  let d := classify (Signature.tokensOf header.text) body name isClass
  if isClass then
    let names := header.decorators.filterMap decoratorName?
    let d := { d with decorators := d.decorators ++ names }
    if names.any isDataclassName then d.withAttributes body else d
  else d

/-- The definition whose body holds the cursor line. It is empty if no header is found. -/
def parse (document : Text) (line : Nat) : Definition :=
  match Header.above? document line with
  | some header => ofHeader header (Body.below document line)
  | none => empty

end Definition

namespace Source

/-- The indentation below the first visible line of a list: below a header or a colon it is deeper
by `step`, and in a body it is the same. -/
def indentationUp (step : Text) : List Text → Text
  | [] => step
  | l :: ls =>
    if isBlank l then indentationUp step ls
    else if isDefinitionLine l || endsWith [':'] (trimEnd l) then indentation l ++ step
    else indentation l

/-- The indentation of a docstring at the cursor line. -/
def docstringIndentation (document : Text) (line : Nat) (step : Text) : Text :=
  indentationUp step ((lines document).take line).reverse

/-- The document with the lines of `docstring` in front of the cursor line, or at the end. -/
def insertLines (document : Text) (line : Nat) (docstring : Text) : Text :=
  let ls := lines document
  unlines (ls.take line ++ lines docstring ++ ls.drop line)

end Source

end DocSnippet
