import DocSnippet.Template.Value

/-! Template engines. An engine reads a template and fills it in for a value, with the helpers that
a program gives to it. Where it cannot, it tells the cause in its own words. -/

namespace DocSnippet.Template

/-- A helper that a program gives to an engine: a function of the values of its operands and of what
the block inside its call writes, if there is one; or a function of one operand, which has a name
and must be a text. -/
inductive Helper
  | free (write : List Value → Option (Except Text Text) → Except Text Text)
  | ofText (operand : Text) (write : Text → Text)

abbrev Helpers := List (Text × Helper)

structure Engine where
  Program : Type
  /-- A template that can be filled in, from its text. -/
  read : Text → Except Text Program
  write : Helpers → Program → Value → Except Text Text
  /-- The text that is written for a value. -/
  display : Value → Text

/-! ### Tags -/

def tag (inside : Text) : Text := ['{', '{'] ++ inside ++ ['}', '}']

def opening (helper : Text) : Text := tag ('#' :: helper)

def closing (helper : Text) : Text := tag ('/' :: helper)

end DocSnippet.Template
