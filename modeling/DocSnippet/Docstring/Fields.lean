import DocSnippet.Docstring.Placeholder
import DocSnippet.Docstring.TypeShape
import DocSnippet.Template.Value

/-! What a template can say about a definition. Every type that is not known, or not wanted, is
filled with a word to be replaced. -/

namespace DocSnippet.Docstring

open Text Template

def unknownType : Text := "_type_".toList

structure Fields where
  name : Text
  decorators : List Text
  args : List Argument
  kwargs : List KeywordArgument
  raises : List Text
  returns : List Product
  yields : List Product
  output : List Product
  outputTitle : Text
  summary : Text
  argsExist : Bool
  kwargsExist : Bool
  parametersExist : Bool
  raisesExist : Bool
  returnsExist : Bool
  yieldsExist : Bool
  outputExist : Bool
  deriving DecidableEq

/-- The type that is written: the known one if types are wanted. -/
def shownType (guess : Bool) (type? : Option Text) : Option Text :=
  some (if guess then type?.getD unknownType else unknownType)

def showArgument (guess : Bool) (a : Argument) : Argument :=
  { a with type? := shownType guess a.type? }

def showKeywordArgument (guess : Bool) (k : KeywordArgument) : KeywordArgument :=
  { k with type? := shownType guess k.type? }

def showProduct (guess : Bool) (p : Product) : Product :=
  { p with type? := shownType guess p.type? }

/-- The placeholder of the summary, behind the name of the definition if that is wanted. -/
def summaryText (name : Text) (includeName : Bool) : Text :=
  let slot := placeholder "_summary_".toList
  if includeName then name ++ [' '] ++ slot else slot

namespace Fields

/-- The fields of a definition. The output is what it yields, or else what it returns. -/
def ofDefinition (d : Definition) (guess includeName : Bool) : Fields :=
  let args := d.args.map (showArgument guess)
  let kwargs := (d.kwargs.map cleanKeywordArgument).map (showKeywordArgument guess)
  let returns := (expandReturns d.returns).map (showProduct guess)
  let yields := ((d.yields?.map expandYields).getD []).map (showProduct guess)
  let output := if d.yields?.isSome then yields else returns
  { name := d.name
    decorators := d.decorators
    args
    kwargs
    raises := d.raises
    returns
    yields
    output
    outputTitle := if d.yields?.isSome then "Yields".toList else "Returns".toList
    summary := summaryText d.name includeName
    argsExist := !args.isEmpty
    kwargsExist := !kwargs.isEmpty
    parametersExist := !args.isEmpty || !kwargs.isEmpty
    raisesExist := !d.raises.isEmpty
    returnsExist := !returns.isEmpty
    yieldsExist := d.yields?.isSome
    outputExist := !output.isEmpty }

/-! ### Values -/

/-- The value of a type; it is absent in a record if there is none. -/
def typeField (type? : Option Text) : List (Text × Value) :=
  (type?.map fun t => ("type".toList, Value.text t)).toList

def argumentValue (a : Argument) : Value :=
  .record (typeField a.type? ++ [("var".toList, .text a.name)])

def keywordArgumentValue (k : KeywordArgument) : Value :=
  .record ([("default".toList, .text k.default)] ++ typeField k.type? ++
    [("var".toList, .text k.name)])

def productValue (p : Product) : Value := .record (typeField p.type?)

def decoratorValue (name : Text) : Value := .record [("name".toList, .text name)]

def raiseValue (type : Text) : Value := .record [("type".toList, .text type)]

def toValue (f : Fields) : Value :=
  .record
    [("args".toList, .list (f.args.map argumentValue)),
      ("args_exist".toList, .bool f.argsExist),
      ("decorators".toList, .list (f.decorators.map decoratorValue)),
      ("exceptions".toList, .list (f.raises.map raiseValue)),
      ("exceptions_exist".toList, .bool f.raisesExist),
      ("kwargs".toList, .list (f.kwargs.map keywordArgumentValue)),
      ("kwargs_exist".toList, .bool f.kwargsExist),
      ("name".toList, .text f.name),
      ("output".toList, .list (f.output.map productValue)),
      ("output_exist".toList, .bool f.outputExist),
      ("output_title".toList, .text f.outputTitle),
      ("parameters_exist".toList, .bool f.parametersExist),
      ("returns".toList, .list (f.returns.map productValue)),
      ("returns_exist".toList, .bool f.returnsExist),
      ("summary_placeholder".toList, .text f.summary),
      ("yields".toList, .list (f.yields.map productValue)),
      ("yields_exist".toList, .bool f.yieldsExist)]

end Fields

end DocSnippet.Docstring
