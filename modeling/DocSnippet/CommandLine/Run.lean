import DocSnippet.CommandLine.Arguments
import DocSnippet.CommandLine.Json
import DocSnippet.Settings.Basic
import DocSnippet.Settings.Toml.Document
import DocSnippet.Template.Render

/-! What the command line does: the settings are those of the project, changed by the options, and
the first check that fails is told about. Warnings about the settings file go to the log, which
writes on the standard output, in front of all that the program prints itself. -/

namespace DocSnippet.CommandLine

open Text Docstring Files

/-! ### Libraries -/

/-- The libraries that the program is built on: an engine for templates, a reader of settings files,
a reader of arguments, a printer of JSON, and a log. Arguments that make no request have an outcome
of their own. -/
structure Libraries where
  engine : Template.Engine
  toml : Toml.Reader
  arguments : List Text → Except Outcome Request
  json : Json → Text
  /-- What the log writes for the warning with a number; nothing, where it is switched off. -/
  log : Nat → Warning → Text

namespace Libraries

def logged (L : Libraries) (warnings : List Warning) : Text := (warnings.mapIdx L.log).flatten

/-- The libraries at hand, without a log. -/
def standard : Libraries where
  engine := .standard
  toml := Toml.table?
  arguments := request false
  json := Json.pretty
  log _ _ := []

/-- The libraries at hand, with a log of plain lines. -/
def verbose : Libraries :=
  { standard with log := fun _ w => "WARN ".toList ++ w.message ++ ['\n'] }

end Libraries

/-! ### Settings -/

/-- The root of the project, which is the working directory if none is given. -/
def rootOf (disk : Disk) (root? : Option Text) : Except Text Path := do
  let root ←
    match root? with
    | some t => .ok (Path.ofText t)
    | none => disk.cwd.mapError ("Could not determine current directory: ".toList ++ ·)
  match disk.canonical? root with
  | some p => .ok p
  | none => .error ("Path not found: ".toList ++ root.text)

/-- The settings of a project changed by the options. A template on the command line lies below the
working directory, and a style there leaves no template of the project. -/
def overridden (disk : Disk) (s : Settings) (g : GenerateRequest) : Settings :=
  let styled : Settings :=
    match g.style? with
    | some style => { s with style, template? := none }
    | none => s
  { styled with
    template? :=
      match g.template? with
      | some t => some (((Path.ofText t).absolute? disk.cwd).getD (Path.ofText t))
      | none => styled.template?
    quote := g.quote?.getD s.quote
    startOnNewLine := s.startOnNewLine || g.startOnNewLine
    includeName := s.includeName || g.includeName
    guessTypes := s.guessTypes && !g.noGuessTypes }

/-! ### Source files -/

def readSource (disk : Disk) (file : Text) : Except Text Text :=
  (disk.read (Path.ofText file)).mapError fun cause =>
    "Could not read ".toList ++ file ++ ": ".toList ++ cause

/-- The index of a line that is counted from one. -/
def lineIndex (line : Nat) : Except Text Nat :=
  if line = 0 then .error "Lines are 1-indexed".toList else .ok (line - 1)

/-! ### Commands -/

def printed (t : Text) : Text := t ++ ['\n']

section Commands

variable (L : Libraries) (disk : Disk)

def generateOutput (g : GenerateRequest) (json : Bool) (document : Text) (index : Nat)
    (name docstring : Text) : Text :=
  if json then
    printed (L.json (.object
      [("docstring".toList, .text docstring), ("file".toList, .text g.file),
        ("line".toList, .number g.line), ("name".toList, .text name)]))
  else if g.insert then Source.insertLines document index docstring
  else printed docstring

/-- What `generate` prints in a project with the given settings. -/
def generateWith (project : Settings) (g : GenerateRequest) (json : Bool) : Except Text Text := do
  let options ← ((overridden disk project g).resolve disk).mapError Failure.message
  let generator ← (Generator.ofOptions L.engine options).mapError Failure.message
  let document ← readSource disk g.file
  let index ← lineIndex g.line
  let d := Definition.parse document index
  if d.isEmpty then
    .error ("No definition found above line ".toList ++ decimal g.line ++ " in ".toList ++ g.file)
  else
    let indentation := Source.docstringIndentation document index standardIndent
    let docstring ← (generator.docstring d indentation).mapError Failure.message
    .ok (generateOutput L g json document index d.name
      (if g.plain then dropPlaceholders docstring else docstring))

/-- Runs `generate`. The settings are read, and warned about, as soon as the root is known. -/
def runGenerate (g : GenerateRequest) (json : Bool) : Outcome :=
  match rootOf disk g.root? with
  | .error message => .failure message
  | .ok root =>
    let (project, warnings) := Settings.load L.toml disk root
    (Outcome.ofExcept (generateWith L disk project g json)).after (L.logged warnings)

def runParse (file : Text) (line : Nat) : Except Text Text := do
  let document ← readSource disk file
  let index ← lineIndex line
  .ok (printed (L.json (Json.ofDefinition (Definition.parse document index))))

def templatesOutput (json : Bool) : Text :=
  if json then
    printed (L.json (.list (Style.all.map fun s =>
      .object [("default".toList, .bool (s == Style.standard)), ("name".toList, .text s.name)])))
  else
    Style.all.flatMap fun s =>
      printed (s.name ++ if s = Style.standard then " (default)".toList else [])

def run : Request → Outcome
  | .generate g json => runGenerate L disk g json
  | .parse file line => .ofExcept (runParse L disk file line)
  | .templates json => .success (templatesOutput L json)

def execute (args : List Text) : Outcome :=
  match L.arguments args with
  | .ok r => run L disk r
  | .error o => o

end Commands

end DocSnippet.CommandLine
