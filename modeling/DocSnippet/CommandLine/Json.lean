import DocSnippet.Definition.Basic
import DocSnippet.Text.Number

/-! JSON as the command line prints it: fields on lines of their own, indented by two blanks. -/

namespace DocSnippet.CommandLine

open Text

inductive Json
  | text (t : Text)
  | number (n : Nat)
  | bool (b : Bool)
  | list (items : List Json)
  | object (fields : List (Text × Json))

namespace Json

def hexDigit (n : Nat) : Char := Nat.digitChar n

/-- A character inside a string. Quotes, backslashes and controls are escaped. -/
def escape (c : Char) : Text :=
  if c = '"' then ['\\', '"']
  else if c = '\\' then ['\\', '\\']
  else if c = '\x08' then ['\\', 'b']
  else if c = '\x0c' then ['\\', 'f']
  else if c = '\n' then ['\\', 'n']
  else if c = '\r' then ['\\', 'r']
  else if c = '\t' then ['\\', 't']
  else if c.toNat < 32 then ['\\', 'u', '0', '0', hexDigit (c.toNat / 16), hexDigit (c.toNat % 16)]
  else [c]

def quoted (t : Text) : Text := ['"'] ++ t.flatMap escape ++ ['"']

def newLine (level : Nat) : Text := '\n' :: List.replicate (2 * level) ' '

/-- Entries between brackets, each on a line of its own. -/
def enclose (left right : Char) (level : Nat) (entries : List Text) : Text :=
  match entries with
  | [] => [left, right]
  | es =>
    [left] ++ newLine (level + 1) ++ join (',' :: newLine (level + 1)) es ++ newLine level ++
      [right]

mutual

def prettyAt : Nat → Json → Text
  | _, .text t => quoted t
  | _, .number n => decimal n
  | _, .bool b => if b then "true".toList else "false".toList
  | level, .list items => enclose '[' ']' level (prettyItems (level + 1) items)
  | level, .object fields => enclose '{' '}' level (prettyFields (level + 1) fields)

def prettyItems : Nat → List Json → List Text
  | _, [] => []
  | level, j :: js => prettyAt level j :: prettyItems level js

def prettyFields : Nat → List (Text × Json) → List Text
  | _, [] => []
  | level, f :: fs => prettyField level f :: prettyFields level fs

def prettyField : Nat → Text × Json → Text
  | level, (k, v) => quoted k ++ [':', ' '] ++ prettyAt level v

end

def pretty (j : Json) : Text := prettyAt 0 j

/-! ### Definitions -/

def typeField (type? : Option Text) : List (Text × Json) :=
  (type?.map fun t => ("type".toList, Json.text t)).toList

def ofArgument (a : Argument) : Json := .object (("var".toList, .text a.name) :: typeField a.type?)

def ofKeywordArgument (k : KeywordArgument) : Json :=
  .object
    (("var".toList, .text k.name) :: typeField k.type? ++ [("default".toList, .text k.default)])

def ofProduct (p : Product) : Json := .object (typeField p.type?)

/-- A definition. What it yields is left out if it does not yield. -/
def ofDefinition (d : Definition) : Json :=
  .object
    ([("name".toList, .text d.name),
      ("decorators".toList, .list (d.decorators.map fun n => .object [("name".toList, .text n)])),
      ("args".toList, .list (d.args.map ofArgument)),
      ("kwargs".toList, .list (d.kwargs.map ofKeywordArgument)),
      ("returns".toList, .list (d.returns.map ofProduct))] ++
    (d.yields?.map fun y => ("yields".toList, ofProduct y)).toList ++
    [("exceptions".toList, .list (d.raises.map fun t => .object [("type".toList, .text t)]))])

end Json

end DocSnippet.CommandLine
