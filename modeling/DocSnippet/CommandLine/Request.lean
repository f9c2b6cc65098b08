import DocSnippet.Text.Basic

/-! What the program can be asked to do, and what a run leaves behind. -/

namespace DocSnippet.CommandLine

open Text

structure GenerateRequest where
  file : Text
  line : Nat
  root? : Option Text
  style? : Option Text
  template? : Option Text
  quote? : Option Text
  startOnNewLine : Bool
  includeName : Bool
  noGuessTypes : Bool
  plain : Bool
  insert : Bool
  deriving DecidableEq

inductive Request
  | generate (g : GenerateRequest) (json : Bool)
  | parse (file : Text) (line : Nat)
  | templates (json : Bool)
  deriving DecidableEq

structure Outcome where
  code : Nat
  stdout : Text
  stderr : Text
  deriving DecidableEq

namespace Outcome

def success (t : Text) : Outcome := ⟨0, t, []⟩

def failure (message : Text) : Outcome := ⟨1, [], message ++ ['\n']⟩

def ofExcept : Except Text Text → Outcome
  | .ok t => .success t
  | .error message => .failure message

def after (t : Text) (o : Outcome) : Outcome := { o with stdout := t ++ o.stdout }

end Outcome

end DocSnippet.CommandLine
