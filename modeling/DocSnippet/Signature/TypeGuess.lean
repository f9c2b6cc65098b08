import DocSnippet.Signature.Literal
import DocSnippet.Text.Space

/-! The guessed type of a parameter. An annotation counts first; without one the default value is
looked at, and without a default the name. -/

namespace DocSnippet.Signature

open Text

/-- What follows the colon of an annotated name at the head of a text. -/
def afterColon? (t : Text) : Option Text :=
  match word? t with
  | some (_, r) =>
    match trimStart r with
    | c :: u => if c = ':' then some u else none
    | [] => none
  | none => none

def isHintChar (c : Char) : Bool :=
  isWord c || c == '[' || c == ']' || c == ',' || c == ' ' || c == '.' || c == '|'

def leadingQuote (t : Text) : Text := (t.take 1).filter isQuote

/-- The plain part of an annotation: a word character and what hint characters follow it, with a
quote on either side if there is one. -/
def hintHead? (t : Text) : Option Text :=
  let quote := leadingQuote t
  match t.drop quote.length with
  | c :: r =>
    if isWord c then
      some (quote ++ c :: r.takeWhile isHintChar ++ leadingQuote (r.dropWhile isHintChar))
    else none
  | [] => none

def hint? : Text → Option Text
  | [] => none
  | c :: t =>
    match (afterColon? (c :: t)).bind fun u => hintHead? (trimStart u) with
    | some h => some h
    | none => hint? t

/-- The type that an annotation `u` names. Where the plain part falls short of the annotation, as in
`Literal["a"]`, the annotation counts as it stands; otherwise its quotes are dropped. -/
def annotatedType? (t u : Text) : Option Text :=
  match hint? t with
  | none => none
  | some h =>
    let hint := trim h
    let annotation := trim (u.takeWhile (· != '='))
    if byteSize hint < byteSize annotation then some annotation
    else
      match trim (hint.filter fun c => !isQuote c) with
      | [] => none
      | plain => some plain

/-- What follows the equals sign of a default, up to the end of the line. -/
def defaultText? (t : Text) : Option Text :=
  match (trimStart t).takeWhile (· != '\n') with
  | [] => none
  | value => some value

/-- What follows the equals sign behind a name, or behind a name and an annotation that is not
empty. -/
def afterEquals? (t : Text) : Option Text :=
  match trimStart t with
  | [] => none
  | c :: r =>
    if c = '=' then some r
    else if c = ':' then
      match r.takeWhile (· != '='), r.dropWhile (· != '=') with
      | _ :: _, _ :: value => some value
      | _, _ => none
    else none

def firstDefault? : Text → Option Text
  | [] => none
  | c :: t =>
    match (word? (c :: t)).bind fun w => (afterEquals? w.2).bind defaultText? with
    | some value => some value
    | none => firstDefault? t

/-- Names that are taken for functions. -/
def callableNames : List Text :=
  ["cb".toList, "callback".toList, "done".toList, "next".toList, "fn".toList]

def nameType? (t : Text) : Option Text :=
  if startsWith "is".toList t || startsWith "has".toList t then some Literal.boolean.typeName
  else if callableNames.contains t then some "function".toList
  else none

/-- The guessed type of a parameter as it is written in a signature. -/
def guessType? (parameter : Text) : Option Text :=
  let t := trim parameter
  match afterColon? t with
  | some u => annotatedType? t u
  | none =>
    if t.contains '=' then (firstDefault? t).bind fun value => literalType? (trim value)
    else nameType? t

end DocSnippet.Signature
