import DocSnippet.Definition.Parse
import DocSnippet.Docstring.BlankLines
import DocSnippet.Docstring.Failure
import DocSnippet.Docstring.Fields
import DocSnippet.Docstring.Helper

/-! The generator of docstrings: a template, filled in for a definition, numbered, freed of blank
lines, quoted and indented. -/

namespace DocSnippet

open Text Template Docstring

structure Options where
  template : Text
  quote : Text
  startOnNewLine : Bool
  includeName : Bool
  guessTypes : Bool
  deriving DecidableEq

/-- The options that count where none are given. -/
def Options.standard : Options :=
  { template := Style.standard.template
    quote := ['"', '"', '"']
    startOnNewLine := false
    includeName := false
    guessTypes := true }

structure Generator (E : Engine) where
  options : Options
  program : E.Program
  compiled : E.read options.template = .ok program

namespace Generator

variable {E : Engine}

/-- The generator with the given options. It fails only if the template cannot be read. -/
def ofOptions (E : Engine) (options : Options) : Except Failure (Generator E) :=
  match h : E.read options.template with
  | .ok program => .ok ⟨options, program, h⟩
  | .error cause => .error (.templateSyntax cause)

/-- The text that the template writes for a definition, with markers in place of numbers. -/
def fill (g : Generator E) (d : Definition) : Except Failure Text :=
  let fields := Fields.ofDefinition d g.options.guessTypes g.options.includeName
  (E.write (helpers E.display) g.program fields.toValue).mapError .render

/-- A filled-in template with its placeholders numbered and its blank lines condensed. -/
def tidy (t : Text) : Text := condenseEnd (condense (numberMarkers t))

def enquote (o : Options) (t : Text) : Text :=
  o.quote ++ (if o.startOnNewLine then ['\n'] else []) ++ t ++ o.quote

def docstring (g : Generator E) (d : Definition) (indentation : Text) : Except Failure Text :=
  (g.fill d).map fun t => indent indentation (enquote g.options (tidy t))

def boolText (b : Bool) : Text := if b then "true".toList else "false".toList

def describe (g : Generator E) : Text :=
  let o := g.options
  let entry (key value : Text) : Text := key ++ ":\n    ".toList ++ value ++ ['\n']
  "DocstringFactory Configuration\n".toList ++
    entry "quoteStyle".toList o.quote ++
    entry "startOnNewLine".toList (boolText o.startOnNewLine) ++
    entry "guessTypes".toList (boolText o.guessTypes) ++
    entry "includeName".toList (boolText o.includeName) ++
    "template:\n".toList ++ o.template

end Generator

/-- The docstring of the definition whose body holds the cursor line. -/
def generate (E : Engine) (document : Text) (line : Nat) (options : Options) (indentation : Text) :
    Except Failure Text :=
  match Generator.ofOptions E options with
  | .ok g => g.docstring (Definition.parse document line) indentation
  | .error e => .error e

def standardIndent : Text := [' ', ' ', ' ', ' ']

end DocSnippet
