import DocSnippet.Template.Engine

/-! The built-in styles and their templates. -/

namespace DocSnippet.Docstring

open Text Template

inductive Style
  | numpy
  | google
  | sphinx
  | pep257
  | oneLineSphinx
  deriving DecidableEq

namespace Style

/-! ### Template lines -/

def var : Text := tag "var".toList

def type : Text := tag "type".toList

def description : Text := tag "description_placeholder".toList

def slot (name : Text) : Text :=
  opening "placeholder".toList ++ tag name ++ closing "placeholder".toList

def typeSlot : Text := slot "type".toList

def defaultSlot : Text := slot "default".toList

def whenHolds (condition : Text) (body : List Text) : List Text :=
  [opening ("if ".toList ++ condition)] ++ body ++ [closing "if".toList]

def forEach (items : Text) (body : List Text) : List Text :=
  [opening ("each ".toList ++ items)] ++ body ++ [closing "each".toList]

def preamble : List Text :=
  [tag "summary_placeholder".toList, [], tag "extended_summary_placeholder".toList]

def templateLines : Style → List Text
  | .numpy =>
    preamble ++
    whenHolds "parameters_exist".toList
      ([[], "Parameters".toList, "----------".toList] ++
        forEach "args".toList
          [var ++ " : ".toList ++ typeSlot, "    ".toList ++ description] ++
        forEach "kwargs".toList
          [var ++ " : ".toList ++ typeSlot ++ ", optional".toList,
            "    ".toList ++ description ++ ", by default ".toList ++ defaultSlot]) ++
    whenHolds "output_exist".toList
      ([[], tag "output_title".toList, tag "underline output_title".toList] ++
        forEach "output".toList [typeSlot, "    ".toList ++ description]) ++
    whenHolds "exceptions_exist".toList
      ([[], "Raises".toList, "------".toList] ++
        forEach "exceptions".toList [type, "    ".toList ++ description])
  | .google =>
    preamble ++
    whenHolds "parameters_exist".toList
      ([[], "Args:".toList] ++
        forEach "args".toList
          ["    ".toList ++ var ++ " (".toList ++ typeSlot ++ "): ".toList ++ description] ++
        forEach "kwargs".toList
          ["    ".toList ++ var ++ " (".toList ++ typeSlot ++ ", optional): ".toList ++
            description ++ ". Defaults to ".toList ++ defaultSlot ++ ".".toList]) ++
    whenHolds "exceptions_exist".toList
      ([[], "Raises:".toList] ++
        forEach "exceptions".toList ["    ".toList ++ type ++ ": ".toList ++ description]) ++
    whenHolds "output_exist".toList
      ([[], tag "output_title".toList ++ ":".toList] ++
        forEach "output".toList ["    ".toList ++ typeSlot ++ ": ".toList ++ description])
  | .sphinx =>
    preamble ++ [[]] ++
    forEach "args".toList
      [":param ".toList ++ var ++ ": ".toList ++ description,
        ":type ".toList ++ var ++ ": ".toList ++ typeSlot] ++
    forEach "kwargs".toList
      [":param ".toList ++ var ++ ": ".toList ++ description ++ ", defaults to ".toList ++
          defaultSlot,
        ":type ".toList ++ var ++ ": ".toList ++ typeSlot ++ ", optional".toList] ++
    forEach "exceptions".toList [":raises ".toList ++ type ++ ": ".toList ++ description] ++
    whenHolds "yields_exist".toList
      (forEach "yields".toList
        [":yield: ".toList ++ description, ":ytype: ".toList ++ typeSlot] ++
      [tag "else".toList] ++
      forEach "returns".toList
        [":return: ".toList ++ description, ":rtype: ".toList ++ typeSlot])
  | .pep257 =>
    preamble ++
    whenHolds "args_exist".toList
      ([[], "Arguments:".toList] ++
        forEach "args".toList [var ++ " -- ".toList ++ description]) ++
    whenHolds "kwargs_exist".toList
      ([[], "Keyword Arguments:".toList] ++
        forEach "kwargs".toList
          [var ++ " -- ".toList ++ description ++ " (default: ".toList ++ defaultSlot ++
            ")".toList]) ++
    whenHolds "exceptions_exist".toList
      ([[], "Raises:".toList] ++
        forEach "exceptions".toList [type ++ " -- ".toList ++ description]) ++
    whenHolds "output_exist".toList
      ([[], tag "output_title".toList ++ ":".toList] ++
        forEach "output".toList [typeSlot ++ " -- ".toList ++ description])
  | .oneLineSphinx =>
    [tag "summary_placeholder".toList, []] ++
    forEach "args".toList
      [":param ".toList ++ typeSlot ++ " ".toList ++ var ++ ": ".toList ++ description] ++
    forEach "kwargs".toList
      [":param ".toList ++ typeSlot ++ " ".toList ++ var ++ ": ".toList ++ description ++
        ", defaults to ".toList ++ defaultSlot] ++
    forEach "exceptions".toList [":raises ".toList ++ type ++ ": ".toList ++ description] ++
    forEach "output".toList
      [":return: ".toList ++ description, ":rtype: ".toList ++ typeSlot]

/-- The template of a style: its lines, each ended by a line feed. -/
def template (s : Style) : Text := s.templateLines.flatMap (· ++ ['\n'])

/-! ### Names -/

def name : Style → Text
  | .numpy => "numpy".toList
  | .google => "google".toList
  | .sphinx => "sphinx".toList
  | .pep257 => "pep257".toList
  | .oneLineSphinx => "one-line-sphinx".toList

/-- All styles, the default first. -/
def all : List Style := [.numpy, .google, .sphinx, .pep257, .oneLineSphinx]

/-- The style of a definition that asks for none. -/
def standard : Style := .numpy

/-- The style with a name. The standard style has a second name. -/
def ofName? (name : Text) : Option Style :=
  if name = "numpydoc".toList then some .numpy else all.find? fun s => s.name == name

end Style

end DocSnippet.Docstring
