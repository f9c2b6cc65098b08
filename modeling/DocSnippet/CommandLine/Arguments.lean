import DocSnippet.CommandLine.Request
import DocSnippet.Text.Number

/-! The arguments of the command line. An option takes its value behind an equals sign or as the
next argument, which then must not look like an option; nothing is given twice, and behind `--`
there are no options. -/

namespace DocSnippet.CommandLine

open Text

structure Sorted where
  flags : List Text
  values : List (Text × Text)
  others : List Text

namespace Sorted

def empty : Sorted := ⟨[], [], []⟩

def hasFlag (s : Sorted) (name : Text) : Bool := s.flags.contains name

def value? (s : Sorted) (name : Text) : Option Text := s.values.lookup name

def addFlag (s : Sorted) (name : Text) : Option Sorted :=
  if s.hasFlag name then none else some { s with flags := name :: s.flags }

def addValue (s : Sorted) (name value : Text) : Option Sorted :=
  if (s.value? name).isSome then none else some { s with values := (name, value) :: s.values }

end Sorted

/-- Whether an argument looks like an option. A hyphen alone does not. -/
def isOptionLike : Text → Bool
  | '-' :: _ :: _ => true
  | _ => false

structure Rules where
  flags : List Text
  options : List Text

/-- An option as one argument: its name, and its value if it has one. -/
def splitOption (body : Text) : Text × Option Text :=
  match body.dropWhile (· != '=') with
  | [] => (body, none)
  | _ :: value => (body.takeWhile (· != '='), some value)

def sort (rules : Rules) : Sorted → List Text → Option Sorted
  | s, [] => some s
  | s, a :: as =>
    if a = ['-', '-'] then some { s with others := s.others ++ as }
    else
      match after? ['-', '-'] a with
      | none =>
        if isOptionLike a then none else sort rules { s with others := s.others ++ [a] } as
      | some body =>
        match splitOption body with
        | (name, some value) =>
          if rules.options.contains name then (s.addValue name value).bind fun s => sort rules s as
          else none
        | (name, none) =>
          if rules.flags.contains name then (s.addFlag name).bind fun s => sort rules s as
          else if rules.options.contains name then
            match as with
            | value :: rest =>
              if isOptionLike value then none
              else (s.addValue name value).bind fun s => sort rules s rest
            | [] => none
          else none

/-- A path on the command line must not be empty. -/
def isPath (t : Text) : Bool := !t.isEmpty

def onlyFile? (s : Sorted) : Option Text :=
  match s.others with
  | [file] => if isPath file then some file else none
  | _ => none

def jsonFlag : Text := "json".toList

def generateRules : Rules :=
  { flags := [jsonFlag, "start-on-new-line".toList, "include-name".toList, "no-guess-types".toList,
      "plain".toList, "insert".toList]
    options := ["line".toList, "root".toList, "style".toList, "template".toList, "quote".toList] }

def parseRules : Rules := { flags := [jsonFlag], options := ["line".toList] }

def templatesRules : Rules := { flags := [jsonFlag], options := [] }

def generate? (json : Bool) (args : List Text) : Option Request := do
  let s ← sort generateRules .empty args
  let file ← onlyFile? s
  let line ← (s.value? "line".toList).bind unsigned?
  let root? := s.value? "root".toList
  let template? := s.value? "template".toList
  if root?.all isPath && template?.all isPath then
    some (.generate
      { file, line, root?, template?
        style? := s.value? "style".toList
        quote? := s.value? "quote".toList
        startOnNewLine := s.hasFlag "start-on-new-line".toList
        includeName := s.hasFlag "include-name".toList
        noGuessTypes := s.hasFlag "no-guess-types".toList
        plain := s.hasFlag "plain".toList
        insert := s.hasFlag "insert".toList }
      (json || s.hasFlag jsonFlag))
  else none

def parse? (args : List Text) : Option Request := do
  let s ← sort parseRules .empty args
  let file ← onlyFile? s
  let line ← (s.value? "line".toList).bind unsigned?
  some (.parse file line)

def templates? (json : Bool) (args : List Text) : Option Request := do
  let s ← sort templatesRules .empty args
  if s.others.isEmpty then some (.templates (json || s.hasFlag jsonFlag)) else none

def refusal : Outcome := ⟨2, [], []⟩

/-- A request that is made, or else the refusal. -/
def orRefuse (request? : Option Request) : Except Outcome Request :=
  match request? with
  | some r => .ok r
  | none => .error refusal

/-- The request that arguments make. Before the command only `--json` and a question for the version
may stand, which is answered at once. -/
def request : Bool → List Text → Except Outcome Request
  | _, [] => .error refusal
  | json, a :: as =>
    if a = "--json".toList then (if json then .error refusal else request true as)
    else if a = "--version".toList ∨ a = "-V".toList then
      .error (.success "numpydoc 0.1.0\n".toList)
    else if a = "generate".toList then orRefuse (generate? json as)
    else if a = "parse".toList then orRefuse (parse? as)
    else if a = "templates".toList then orRefuse (templates? json as)
    else .error refusal

end DocSnippet.CommandLine
