import DocSnippet.Source.Comment
import DocSnippet.Source.Keyword

/-! The header above a cursor. The lines above the cursor are cleaned and joined by blanks; the
header is what follows the start of the last definition in that text, so a header may span several
lines. A class header also has the decorator lines above it. -/

namespace DocSnippet.Source

open Text

structure Header where
  text : Text
  -- in the order of the lines
  decorators : List Text
  deriving DecidableEq

namespace Header

/-- The index of the first line that ends behind the byte `offset` of the lines joined by blanks.
The blank behind a line counts to it. -/
def lineAt? : List Text → Nat → Option Nat
  | [], _ => none
  | l :: ls, offset =>
    if offset < byteSize l + 1 then some 0
    else (lineAt? ls (offset - (byteSize l + 1))).map (· + 1)

/-- The index of the line that holds the byte `offset`, or of the last line if none does. -/
def lineAt (ls : List Text) (offset : Nat) : Nat := (lineAt? ls offset).getD (ls.length - 1)

/-- The decorator lines met when walking up a list of lines, nearest first. Empty lines are passed
over, and any other line ends the walk. -/
def decoratorsUp : List Text → List Text
  | [] => []
  | l :: ls =>
    if startsWith ['@'] (trim l) then trim l :: decoratorsUp ls
    else if (trim l).isEmpty then decoratorsUp ls
    else []

/-- The header in a list of cleaned lines. There is none if the last line is blank. -/
def ofLines? (ls : List Text) : Option Header :=
  match ls.getLast? with
  | none => none
  | some last =>
    if isBlank last then none
    else
      (lastDefinition? (join [' '] ls)).map fun p =>
        let text := trim p.rest
        { text
          decorators :=
            if isClassHeader text then
              (decoratorsUp (ls.take (lineAt ls (byteSize p.before))).reverse).reverse
            else [] }

def linesAbove (document : Text) (line : Nat) : List Text := cleanLines ((lines document).take line)

def above? (document : Text) (line : Nat) : Option Header := ofLines? (linesAbove document line)

/-- The header above a cursor line. It is empty if there is none. -/
def above (document : Text) (line : Nat) : Header := (above? document line).getD ⟨[], []⟩

end Header

end DocSnippet.Source
