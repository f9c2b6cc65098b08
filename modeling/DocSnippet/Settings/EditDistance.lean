import DocSnippet.Text.Basic

/-! The edit distance of two texts, row by row: the row of a text `a` against `b` holds the distance
of `a` to every beginning of `b`, the shortest first. -/

namespace DocSnippet.EditDistance

/-- The rest of the next row behind the entry `left`. The old row starts at the entry above `left`,
and `a` is the character that the next row adds. -/
def nextRow (a : Char) : Text → List Nat → Nat → List Nat
  | b :: bs, diagonal :: above :: row, left =>
    let here := min (min (diagonal + if a = b then 0 else 1) (left + 1)) (above + 1)
    here :: nextRow a bs (above :: row) here
  | _, _, _ => []

def extendRow (b : Text) (row : List Nat) (a : Char) : List Nat :=
  let left := row.headD 0 + 1
  left :: nextRow a b row left

def lastRow (a b : Text) : List Nat := a.foldl (extendRow b) (List.range (b.length + 1))

/-- The least number of characters to insert, delete or replace to turn `a` into `b`. -/
def distance (a b : Text) : Nat := (lastRow a b).getLastD 0

end DocSnippet.EditDistance
