import DocSnippet.Template.Tag
import DocSnippet.Text.Space

/-! A template as a row of text runs and tags, and the white space around its tags. A tag that
divides blocks or is a comment, and stands alone on its line, takes the line away with it. -/

namespace DocSnippet.Template

open Text

inductive Piece
  | run (t : Text)
  | tag (mark : Mark) (alone : Bool)

/-! ### Runs -/

def isLineBreak (c : Char) : Bool := c == '\n' || c == '\r'

/-- Whether only blanks stand between the end of a text and a line break before it. At the start of
a template, where `start` holds, no line break is needed. -/
def endsWithEmptyLine (start : Bool) (t : Text) : Bool :=
  match t.reverse.dropWhile isBlankChar with
  | [] => start
  | c :: _ => isLineBreak c

/-- Whether only blanks stand between the head of a text and a line break in it. -/
def startsWithEmptyLine (t : Text) : Bool :=
  match t.dropWhile isBlankChar with
  | [] => false
  | c :: _ => isLineBreak c

/-- The text up to the next tag, and the rest. A single backslash keeps the braces behind it in the
text; of several backslashes before a tag one is dropped. -/
def runUpToTag : Text → Text × Text
  | [] => ([], [])
  | '\\' :: '{' :: '{' :: '{' :: '{' :: t =>
    let (u, r) := runUpToTag t
    ('{' :: '{' :: '{' :: '{' :: u, r)
  | '\\' :: '{' :: '{' :: t =>
    let (u, r) := runUpToTag t
    ('{' :: '{' :: u, r)
  | '{' :: '{' :: t => ([], '{' :: '{' :: t)
  | '\\' :: '\\' :: t =>
    let slashes := t.takeWhile (· == '\\')
    let rest := t.dropWhile (· == '\\')
    if startsWith ['{', '{'] rest then ('\\' :: slashes, rest)
    else
      let (u, r) := runUpToTag t
      ('\\' :: '\\' :: u, r)
  | c :: t =>
    let (u, r) := runUpToTag t
    (c :: u, r)

/-- Whether a tag can take its line away. Values and calls never do. -/
def Tag.ownsLine : Tag → Bool
  | .value _ _ => false
  | .call _ _ => false
  | _ => true

/-- The pieces of a template, or `none` if a tag cannot be read. `lead` tells whether the text so
far ends with an empty line, and `start` whether there was none. -/
def piecesFrom : Nat → Bool → Bool → Text → Option (List Piece)
  | 0, _, _, _ => none
  | _ + 1, _, _, [] => some []
  | fuel + 1, start, lead, t =>
    match after? ['{', '{'] t with
    | none =>
      let (u, r) := runUpToTag t
      (piecesFrom fuel false (endsWithEmptyLine start u) r).map (.run u :: ·)
    | some _ =>
      match rawBlock? t with
      | some (b, r) =>
        let opensAlone := lead && startsWithEmptyLine b.inside
        let closesAlone := endsWithEmptyLine false b.inside && startsWithEmptyLine r
        (piecesFrom fuel false false r).map fun ps =>
          .tag b.opening opensAlone :: .run (skipGap b.inside) :: .tag b.closing closesAlone :: ps
      | none => do
        let (m, r) ← tag? t
        let ps ← piecesFrom fuel false false r
        some (.tag m (m.tag.ownsLine && lead && startsWithEmptyLine r) :: ps)

/-- The pieces of a template. -/
def pieces? (t : Text) : Option (List Piece) := piecesFrom (t.length + 1) true true t

/-! ### White space around tags -/

/-- What the last tag leaves to do in the text behind it: drop all white space, or drop the rest of
the line. -/
structure Margin where
  trims : Bool
  dropsLine : Bool

/-- The margin behind a tag. Only `~` of the last tag that is no comment counts, and a line is
dropped behind a tag that stands alone. -/
def Margin.after (m : Margin) (mark : Mark) (alone : Bool) : Margin :=
  match mark.tag with
  | .comment => ⟨m.trims, alone⟩
  | tag => ⟨mark.trimsAfter, if tag.ownsLine then alone else m.dropsLine⟩

/-- A text without the blanks and the line break at its head. -/
def dropLine (t : Text) : Text :=
  let u := t.dropWhile isBlankChar
  match after? ['\r', '\n'] u with
  | some r => r
  | none => (after? ['\n'] u).getD u

/-- A run behind a margin. -/
def Margin.apply (m : Margin) (t : Text) : Text :=
  if m.trims then trimStart t else if m.dropsLine then dropLine t else t

/-- A run in front of the next piece. -/
def closeRun (t : Text) : List Piece → Text
  | .tag mark alone :: _ =>
    let t := if mark.trimsBefore then trimEnd t else t
    if alone then dropWhileEnd isBlankChar t else t
  | _ => t

/-- The pieces with the white space that their tags take away gone. -/
def layout : Margin → List Piece → List Piece
  | _, [] => []
  | m, .run t :: ps =>
    let next : Margin := if m.trims && t.all isGap then m else ⟨m.trims, false⟩
    .run (closeRun (m.apply t) ps) :: layout next ps
  | m, .tag mark alone :: ps => .tag mark alone :: layout (m.after mark alone) ps

end DocSnippet.Template
