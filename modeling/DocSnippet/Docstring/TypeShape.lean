import DocSnippet.Definition.Classify
import DocSnippet.Text.Nesting
import DocSnippet.Text.Space

/-! The shapes of types that a docstring takes apart: optional types of keyword arguments, tuples
and iterators. -/

namespace DocSnippet.Docstring

open Text Definition

def noneWord : Text := "None".toList

def dropNone (type : Text) : Text :=
  match ((before? noneWord (trimEnd type)).map trimEnd).bind (before? ['|']) with
  | some rest => trimEnd rest
  | none => type

/-- A keyword argument whose default is `None` need not say so in its type. -/
def cleanKeywordArgument (k : KeywordArgument) : KeywordArgument :=
  if k.default = noneWord then { k with type? := k.type?.map dropNone } else k

/-- The text in the brackets of a type with one of the given heads. -/
def bracketed? (heads : List Text) (type : Text) : Option Text := do
  let t ← heads.findSome? fun h => after? h (trimStart type)
  let t ← after? ['['] (trimStart t)
  let inner ← before? [']'] (trimEnd t)
  if inner.contains '\n' then none else some inner

def dropEmptyLast (parts : List Text) : List Text :=
  if parts.getLast? = some [] then parts.dropLast else parts

/-- The type of a member of a tuple. A blank member has none. -/
def memberType? (part : Text) : Option Text :=
  match trim part with
  | [] => none
  | t => some t

def tupleMembers? (type : Text) : Option (List Product) := do
  let inner ← bracketed? ["Tuple".toList, "tuple".toList] type
  let parts ← balancedParts? ',' inner
  some ((dropEmptyLast parts).map fun p => ⟨memberType? p⟩)

/-- A tuple that is returned alone is documented member by member. -/
def expandReturns (returns : List Product) : List Product :=
  match returns with
  | [p] => (p.type?.bind tupleMembers?).getD returns
  | _ => returns

def itemType? (type : Text) : Option Text := do
  let inner ← bracketed? [generatorWord, iteratorWord] type
  let parts ← balancedParts? ',' inner
  parts.head?.bind memberType?

/-- The values that are yielded: the items of an iterator, and the members of a tuple. -/
def expandYields (yields : Product) : List Product :=
  match yields.type? with
  | none => [yields]
  | some t =>
    let item := (itemType? t).getD t
    (tupleMembers? item).getD [⟨some item⟩]

end DocSnippet.Docstring
