import DocSnippet.Text.Space
import DocSnippet.Text.Word

/-! The keywords of definitions. A keyword counts as a whole word only: no word character stands
right before or right after it. A place in a text is written as the text before it, last character
first, and the text from it on. -/

namespace DocSnippet.Source

open Text

def defWord : Text := "def".toList

def classWord : Text := "class".toList

def asyncWord : Text := "async".toList

/-- A place in a text: what precedes it, last character first, and what follows it. -/
structure Place where
  before : Text
  rest : Text
  deriving DecidableEq

namespace Place

/-- Whether the whole word `w` stands at a place. -/
def hasWord (p : Place) (w : Text) : Bool :=
  match after? w p.rest with
  | some r => atWordEnd p.before && atWordEnd r
  | none => false

def hasKeyword (p : Place) : Bool := p.hasWord defWord || p.hasWord classWord

/-- Whether a word starts or ends at a place. -/
def atBoundary (p : Place) : Bool := atWordEnd p.before != atWordEnd p.rest

def overSpaces (p : Place) : Place :=
  ⟨(p.rest.takeWhile isSpace).reverse ++ p.before, trimStart p.rest⟩

end Place

/-- The last place with a keyword in the text `t` that follows `before`. -/
def lastKeyword? : Text → Text → Option Place
  | _, [] => none
  | before, c :: t =>
    match lastKeyword? (c :: before) t with
    | some p => some p
    | none => if Place.hasKeyword ⟨before, c :: t⟩ then some ⟨before, c :: t⟩ else none

/-- What follows the literal `w` at the head of a text, if no word goes on there. -/
def afterWord? (w t : Text) : Option Text := (after? w t).filter atWordEnd

/-- What follows the opening of a definition at the head of a text: `async`, white space and `def`,
or a keyword that white space may precede. -/
def afterOpening? (t : Text) : Option Text :=
  (((after? asyncWord t).bind afterSpaces?).bind (afterWord? defWord)).or
    ((afterWord? defWord (trimStart t)).or (afterWord? classWord (trimStart t)))

/-- What follows the opening of a definition at a place. An opening starts where a word starts or
ends. -/
def Place.afterOpening? (p : Place) : Option Text :=
  if p.atBoundary then Source.afterOpening? p.rest else none

/-- The places at which a search from left to right finds the opening of a definition in the text
`t` that follows `before`. It goes on behind each opening; `skip` characters belong to the last one.
-/
def openingsFrom : Nat → Text → Text → List Place
  | _, _, [] => []
  | skip + 1, before, c :: t => openingsFrom skip (c :: before) t
  | 0, before, c :: t =>
    match Place.afterOpening? ⟨before, c :: t⟩ with
    | some r => ⟨before, c :: t⟩ :: openingsFrom (t.length - r.length) (c :: before) t
    | none => openingsFrom 0 (c :: before) t

def openings (t : Text) : List Place := openingsFrom 0 [] t

/-- Where the last definition of a text starts: at its `async` if it has one. -/
def lastDefinition? (t : Text) : Option Place := (openings t).getLast?.map Place.overSpaces

def isDefinitionLine (t : Text) : Bool := (lastKeyword? [] t).isSome

/-- Whether a text is the header of a class: `class` and white space, after any indentation. -/
def isClassHeader (t : Text) : Bool :=
  ((after? classWord (trimStart t)).bind afterSpaces?).isSome

/-- Whether a line opens a definition: after its indentation `def`, `async def` or `class` with a
single blank and a word, or `@` and a word. -/
def isHeaderLike (line : Text) : Bool :=
  let t := trimStart line
  let opens (p : Text) : Bool := ((after? p t).bind word?).isSome
  opens (defWord ++ [' ']) || opens (asyncWord ++ [' '] ++ defWord ++ [' ']) ||
    opens (classWord ++ [' ']) || opens ['@']

/-- Whether a line starts like a definition or a decorator. -/
def startsDefinition (line : Text) : Bool :=
  let t := trim line
  startsWith (classWord ++ [' ']) t || startsWith (defWord ++ [' ']) t ||
    startsWith (asyncWord ++ [' '] ++ defWord ++ [' ']) t || startsWith ['@'] t

end DocSnippet.Source
