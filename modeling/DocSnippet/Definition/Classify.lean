import DocSnippet.Definition.Basic
import DocSnippet.Signature.TypeGuess
import DocSnippet.Source.Comment

/-! The sorting of signature tokens and body lines. A token is a decorator, an argument, a keyword
argument or the result annotation; body lines tell what is returned, yielded and raised. -/

namespace DocSnippet.Definition

open Text Source Signature

/-! ### Tokens -/

def receivers : List Text := ["self".toList, "cls".toList]

def decorator? (token : Text) : Option Text :=
  ((after? ['@'] (trim token)).bind word?).map Prod.fst

/-- The argument that a token declares: a word at its head, no equals sign, no receiver. -/
def argument? (token : Text) : Option Argument :=
  match word? (trim token) with
  | some (name, _) =>
    if token.contains '=' || receivers.contains name then none else some ⟨name, guessType? token⟩
  | none => none

/-- The keyword argument that a token declares: a word, an optional annotation and a default. -/
def keywordArgument? (token : Text) : Option KeywordArgument :=
  match word? (trim token) with
  | some (name, t) =>
    ((afterEquals? t).bind defaultText?).map fun default => ⟨name, guessType? token, default⟩
  | none => none

/-- A text without a quote `q` at both ends. -/
def unquote? (q : Char) (t : Text) : Option Text := (after? [q] t).bind (before? [q])

def unquoted (t : Text) : Text :=
  match unquote? '"' t with
  | some inner => inner
  | none => (unquote? '\'' t).getD t

def arrowType? (token : Text) : Option Text :=
  match after? ['-', '>'] (trim token) with
  | some t =>
    let annotation := trimStart t
    if annotation.all (· != '\n') then some (unquoted (trim annotation)) else none
  | none => none

/-- The type that a token declares as the result. `None` and the empty annotation declare
nothing. -/
def resultType? (token : Text) : Option Text :=
  match arrowType? token with
  | some t => if t = [] ∨ t = "None".toList then none else some t
  | none => none

/-! ### Results -/

def generatorWord : Text := "Generator".toList

def iteratorWord : Text := "Iterator".toList

/-- Whether a type is taken for that of a generator or an iterator. -/
def isIteratorType (type : Text) : Bool :=
  startsWith generatorWord type || startsWith iteratorWord type

/-- Whether a line of the body holds the text `keyword`. -/
def hasStatement (keyword : Text) (body : List Text) : Bool := body.any (hasInfix keyword)

def returnsOf (result? : Option Text) (body : List Text) : List Product :=
  match result?.filter fun t => !isIteratorType t with
  | some t => [⟨some t⟩]
  | none => if hasStatement "return ".toList body then [⟨none⟩] else []

/-- What a definition with the given result annotation yields. A body that yields under a plain
annotation yields values of that type. -/
def yieldsOf (result? : Option Text) (body : List Text) : Option Product :=
  let yields := hasStatement "yield ".toList body
  match result? with
  | some t =>
    if isIteratorType t then some ⟨some t⟩
    else if yields then some ⟨some (iteratorWord ++ ['['] ++ t ++ [']'])⟩
    else none
  | none => if yields then some ⟨none⟩ else none

/-! ### Exceptions -/

/-- The dotted name behind `raise` and white space at the head of a text. -/
def raisedHere? (t : Text) : Option Text :=
  match (after? "raise".toList t).bind afterSpaces? with
  | some r =>
    match r.takeWhile fun c => isWord c || c == '.' with
    | [] => none
    | name => some name
  | none => none

/-- The first dotted name behind a `raise`. -/
def firstRaised? : Text → Option Text
  | [] => none
  | c :: t =>
    match raisedHere? (c :: t) with
    | some name => some name
    | none => firstRaised? t

def raised? (line : Text) : Option Text := firstRaised? (stripComment line)

/-! ### Definitions -/

/-- The definition with the given tokens and body. A class returns, yields and raises nothing. -/
def classify (tokens body : List Text) (name : Text) (isClass : Bool) : Definition :=
  let result? := tokens.findSome? resultType?
  { name
    decorators := tokens.filterMap decorator?
    args := tokens.filterMap argument?
    kwargs := tokens.filterMap keywordArgument?
    returns := if isClass then [] else returnsOf result? body
    yields? := if isClass then none else yieldsOf result? body
    raises := if isClass then [] else body.filterMap raised? }

end DocSnippet.Definition
