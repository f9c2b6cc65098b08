import DocSnippet.Text.Basic

/-! What a settings file holds: keys with values. Numbers, dates, arrays and tables below the top
are read but not kept, as no setting is one. -/

namespace DocSnippet.Toml

inductive Value
  | text (t : Text)
  | bool (b : Bool)
  | other
  deriving DecidableEq

abbrev Table := List (Text × Value)

/-- A reader of settings files. It gives the table at the top, if the text is well formed. -/
abbrev Reader := Text → Option Table

end DocSnippet.Toml
