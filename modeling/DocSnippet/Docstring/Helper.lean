import DocSnippet.Docstring.Placeholder
import DocSnippet.Template.Engine

/-! The helpers of docstring templates: placeholders, and a line below a title. -/

namespace DocSnippet.Docstring

open Text Template

/-- A placeholder around the block inside the call, or else around the first operand. `display` is
the text of a value. -/
def wrap (display : Value → Text) (values : List Value) (body? : Option (Except Text Text)) :
    Except Text Text :=
  match body? with
  | some body => body.map placeholder
  | none => .ok (placeholder ((values.head?.map display).getD []))

/-- A helper that writes the same text wherever it is called. -/
def constantly (t : Text) : Helper := .free fun _ _ => .ok t

def helpers (display : Value → Text) : Helpers :=
  [("placeholder".toList, .free (wrap display)),
    ("description_placeholder".toList, constantly (placeholder "_description_".toList)),
    ("extended_summary_placeholder".toList,
      constantly (placeholder "_extended_summary_".toList)),
    ("underline".toList, .ofText "title".toList fun t => List.replicate t.length '-')]

end DocSnippet.Docstring
