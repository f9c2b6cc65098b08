import DocSnippet.Docstring.Generator
import DocSnippet.Settings.EditDistance
import DocSnippet.Settings.Toml.Table

/-! Project settings. They come from a file in the root of the project; a key that is not known is
told about, with the nearest known key if one is near. -/

namespace DocSnippet

open Text Docstring Files

structure Settings where
  root : Path
  style : Text
  template? : Option Path
  quote : Text
  startOnNewLine : Bool
  includeName : Bool
  guessTypes : Bool
  deriving DecidableEq

inductive Warning
  | unreadable (path : Path)
  | malformed
  | misspelt (key suggestion : Text)
  | unknownKey (key : Text)
  deriving DecidableEq

namespace Settings

def fileName : Text := ".numpydoc.toml".toList

def knownKeys : List Text :=
  ["style".toList, "template".toList, "quote_style".toList, "start_on_new_line".toList,
    "include_name".toList, "guess_types".toList]

def standard (root : Path) : Settings :=
  { root
    style := Style.standard.name
    template? := none
    quote := Options.standard.quote
    startOnNewLine := Options.standard.startOnNewLine
    includeName := Options.standard.includeName
    guessTypes := Options.standard.guessTypes }

/-! ### Unknown keys -/

/-- Of two keys the one nearer to `key`, the first if both are as near. -/
def nearer (key a b : Text) : Text :=
  if EditDistance.distance key b < EditDistance.distance key a then b else a

/-- The first of the nearest texts of a list. -/
def nearest? (key : Text) : List Text → Option Text
  | [] => none
  | a :: as => some (as.foldl (nearer key) a)

/-- The largest distance at which a known key is suggested. -/
def reach : Nat := 3

/-- What is told about a key. -/
def warning? (key : Text) : Option Warning :=
  if knownKeys.contains key then none
  else
    match nearest? key knownKeys with
    | some s =>
      some (if EditDistance.distance key s ≤ reach then .misspelt key s else .unknownKey key)
    | none => some (.unknownKey key)

end Settings

def Warning.message : Warning → Text
  | .unreadable _ => "Failed to read ".toList ++ Settings.fileName
  | .malformed => "Failed to parse ".toList ++ Settings.fileName
  | .misspelt _ s =>
    "Unknown key in ".toList ++ Settings.fileName ++ ", did you mean '".toList ++ s ++ "'?".toList
  | .unknownKey _ =>
    "Unknown key in ".toList ++ Settings.fileName ++ " (known keys: ".toList ++
      join ", ".toList Settings.knownKeys ++ ")".toList

namespace Settings

/-! ### Reading -/

def text? (table : Toml.Table) (key : Text) : Option Text :=
  match table.lookup key with
  | some (.text t) => some t
  | _ => none

def bool? (table : Toml.Table) (key : Text) : Option Bool :=
  match table.lookup key with
  | some (.bool b) => some b
  | _ => none

/-- The settings that a table gives. A key that is absent or of the wrong type counts as not
given. -/
def ofTable (root : Path) (table : Toml.Table) : Settings :=
  let s := standard root
  { root
    style := (text? table "style".toList).getD s.style
    template? := (text? table "template".toList).map Path.ofText
    quote := (text? table "quote_style".toList).getD s.quote
    startOnNewLine := (bool? table "start_on_new_line".toList).getD s.startOnNewLine
    includeName := (bool? table "include_name".toList).getD s.includeName
    guessTypes := (bool? table "guess_types".toList).getD s.guessTypes }

/-- The warnings about the keys of a table, in its order. -/
def warnings (table : Toml.Table) : List Warning := table.filterMap fun p => warning? p.1

def filePath (root : Path) : Path := root.join (.relative fileName)

/-- The settings of the project at a root, and what is wrong with its settings file. -/
def load (reader : Toml.Reader) (disk : Disk) (root : Path) : Settings × List Warning :=
  if disk.has (filePath root) then
    match disk.read (filePath root) with
    | .error _ => (standard root, [.unreadable (filePath root)])
    | .ok content =>
      match reader content with
      | none => (standard root, [.malformed])
      | some table => (ofTable root table, warnings table)
  else (standard root, [])

/-! ### Options -/

def builtinTemplate (style : Text) : Except Failure Text :=
  match Style.ofName? style with
  | some s => .ok s.template
  | none => .error (.unknownStyle style)

/-- The template that settings ask for: a file below the root, or else a built-in one. -/
def template (disk : Disk) (s : Settings) : Except Failure Text :=
  match s.template? with
  | some p => (disk.read (s.root.join p)).mapError (.templateRead (s.root.join p))
  | none => builtinTemplate s.style

def resolve (disk : Disk) (s : Settings) : Except Failure Options :=
  (s.template disk).map fun template =>
    { template
      quote := s.quote
      startOnNewLine := s.startOnNewLine
      includeName := s.includeName
      guessTypes := s.guessTypes }

end Settings

end DocSnippet
