import DocSnippet.Text.Nesting
import DocSnippet.Source.Keyword

/-! The signature of a header: its name, the text between its brackets and its result annotation.
The parameter text reaches as far as a closing bracket allows that is followed by an optional
annotation, a colon and at most a comment. -/

namespace DocSnippet

open Text Source

structure Signature where
  parameters : Text
  -- with its arrow
  result? : Option Text
  deriving DecidableEq

namespace Signature

def afterKeyword? (t : Text) : Option Text :=
  match after? defWord t with
  | some r => some r
  | none => after? classWord t

def isTrailer (t : Text) : Bool :=
  match trimStart t with
  | [] => true
  | c :: _ => c == '#'

/-- The result annotation between a closing bracket and the end of a header: an arrow and all up to
the next colon. `none` if the text is not the end of a header. -/
def ending? (t : Text) : Option (Option Text) :=
  let t := trimStart t
  match after? ['-', '>'] t with
  | some r =>
    match r.dropWhile (· != ':') with
    | _ :: rest =>
      if isTrailer rest then some (some (['-', '>'] ++ r.takeWhile (· != ':'))) else none
    | [] => none
  | none =>
    match t with
    | c :: rest => if c = ':' ∧ isTrailer rest then some none else none
    | [] => none

/-- The longest parameter text in front of a closing bracket that ends the header. -/
def closing? : Text → Option Signature
  | [] => none
  | c :: t =>
    match closing? t with
    | some s => some { s with parameters := c :: s.parameters }
    | none => if c = ')' then (ending? t).map fun result? => ⟨[], result?⟩ else none

/-- A signature at the head of a text: keyword, name, bracket, parameters, end of the header. -/
def here? (t : Text) : Option Signature := do
  let t ← afterKeyword? t
  let t ← afterSpaces? t
  let (_, t) ← word? t
  match trimStart t with
  | c :: r => if c = '(' then closing? r else none
  | [] => none

/-- The first signature in the text that follows `before`. -/
def first? : Text → Text → Option Signature
  | _, [] => none
  | before, c :: t =>
    match if atWordEnd before then here? (c :: t) else none with
    | some s => some s
    | none => first? [c] t

def ofHeader? (header : Text) : Option Signature := first? [] header

/-- The parameters of a signature, trimmed, and then its result annotation. -/
def tokens (s : Signature) : List Text :=
  (topParts ',' s.parameters).map trim ++ (s.result?.map trim).toList

/-- The parameter tokens of a header. A header without brackets has none. -/
def tokensOf (header : Text) : List Text := ((ofHeader? header).map tokens).getD []

/-- A name at the head of a text: keyword, name, and a colon or an opening bracket. -/
def nameHere? (t : Text) : Option Text := do
  let t ← afterKeyword? t
  let t ← afterSpaces? t
  let (name, t) ← word? t
  match trimStart t with
  | c :: _ => if c = ':' ∨ c = '(' then some name else none
  | [] => none

/-- The name that a header declares. -/
def name? : Text → Option Text
  | [] => none
  | c :: t =>
    match nameHere? (c :: t) with
    | some name => some name
    | none => name? t

end Signature

end DocSnippet
