import DocSnippet.Definition.Classify
import DocSnippet.Source.Keyword

/-! The attributes of a dataclass. An annotated line of the class body is a parameter of its
constructor, with a default if it assigns one. -/

namespace DocSnippet.Definition

open Text Source Signature

inductive Attribute
  | required (arg : Argument)
  | optional (kwarg : KeywordArgument)
  deriving DecidableEq

namespace Attribute

def classVarWord : Text := "ClassVar".toList

/-- Whether a trimmed line opens a method, a decorator, a nested class or a comment. -/
def isForeign (line : Text) : Bool :=
  startsWith (defWord ++ [' ']) line || startsWith (asyncWord ++ [' '] ++ defWord ++ [' ']) line ||
    startsWith ['@'] line || startsWith (classWord ++ [' ']) line || startsWith ['#'] line

/-- Whether an attribute is left out: a private name or a class variable. -/
def isHidden (name type : Text) : Bool := name.head? == some '_' || startsWith classVarWord type

/-- The attribute `name` with the text `u` behind its colon: a type, or a type and a default. -/
def ofAnnotation? (name u : Text) : Option Attribute :=
  let type := trim (u.takeWhile (· != '='))
  if (u.takeWhile (· != '=')).isEmpty || isHidden name type then none
  else
    match u.dropWhile (· != '=') with
    | [] => some (.required ⟨name, some type⟩)
    | _ :: r =>
      let default := trimStart r
      if default.isEmpty || default.contains '\n' then none
      else some (.optional ⟨name, some type, trim default⟩)

def ofLine? (line : Text) : Option Attribute :=
  let line := trim line
  if isForeign line then none
  else
    match word? line with
    | some (name, _) => (afterColon? line).bind (ofAnnotation? name)
    | none => none

def argument? : Attribute → Option Argument
  | .required arg => some arg
  | .optional _ => none

def keywordArgument? : Attribute → Option KeywordArgument
  | .required _ => none
  | .optional kwarg => some kwarg

end Attribute

def attributes (body : List Text) : List Attribute := body.filterMap Attribute.ofLine?

def withAttributes (d : Definition) (body : List Text) : Definition :=
  { d with
    args := (attributes body).filterMap Attribute.argument?
    kwargs := (attributes body).filterMap Attribute.keywordArgument? }

def decoratorName? (line : Text) : Option Text :=
  match after? ['@'] (trim line) with
  | some t =>
    match t.takeWhile fun c => isWord c || c == '.' with
    | [] => none
    | name => some name
  | none => none

/-- Whether a decorator makes a dataclass. -/
def isDataclassName (name : Text) : Bool :=
  hasInfix "dataclass".toList name

end DocSnippet.Definition
