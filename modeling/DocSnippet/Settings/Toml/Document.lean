import DocSnippet.Settings.Toml.Declared
import DocSnippet.Settings.Toml.Scalar

/-! Settings files as a whole: values, lines, headers, and the table at the top. -/

namespace DocSnippet.Toml

open Text

mutual

def value? : Nat → Nat → Text → Option (Value × Text)
  | 0, _, _ => none
  | fuel + 1, depth, t =>
    match t with
    | [] => none
    | c :: r =>
      if c = '"' ∨ c = '\'' then (string? t).map fun (s, rest) => (.text s, rest)
      else if c = '[' ∨ c = '{' then
        if depth + 1 < nestingLimit then
          (if c = '[' then items? fuel (depth + 1) r
            else pairs? fuel (depth + 1) .empty true r).map fun rest => (.other, rest)
        else none
      else scalarValue? t

def items? : Nat → Nat → Text → Option Text
  | 0, _, _ => none
  | fuel + 1, depth, t => do
    let t ← skipFiller false t
    match after? [']'] t with
    | some rest => some rest
    | none => do
      let (_, r) ← value? fuel depth t
      let r ← skipFiller false r
      match after? [','] r with
      | some u => items? fuel depth u
      | none => after? [']'] r

/-- The text behind an inline table from a pair on, or from its end on if it is still empty. -/
def pairs? : Nat → Nat → Declared → Bool → Text → Option Text
  | 0, _, _, _, _ => none
  | fuel + 1, depth, d, isEmpty, t => do
    match if isEmpty then after? ['}'] (skipBlanks t) else none with
    | some rest => some rest
    | none => do
      let (k, r) ← key? t
      let r ← after? ['='] r
      let (v, r) ← value? fuel depth (skipBlanks r)
      let d ← d.assign [] k v
      match after? [','] (skipBlanks r) with
      | some u => pairs? fuel depth d false u
      | none => after? ['}'] (skipBlanks r)

end

def header? (left right : Text) (t : Text) : Option (List Text × Text) := do
  let r ← after? left t
  let (k, r) ← key? r
  let r ← after? right r
  some (k, r)

structure State where
  declared : Declared
  table : List Text

/-- A header or a pair at the head of a line, and the text behind it. -/
def entry? (s : State) (t : Text) : Option (State × Text) :=
  if startsWith ['[', '['] t then do
    let (path, r) ← header? ['[', '['] [']', ']'] t
    let d ← s.declared.defineTables path
    some (⟨d, path⟩, r)
  else if startsWith ['['] t then do
    let (path, r) ← header? ['['] [']'] t
    let d ← s.declared.defineTable path
    some (⟨d, path⟩, r)
  else do
    let (k, r) ← key? t
    let r ← after? ['='] r
    let u := skipBlanks r
    let (v, r) ← value? (u.length + 1) 0 u
    let d ← s.declared.assign s.table k v
    some (⟨d, s.table⟩, r)

/-- Reads lines one after another, for at most `fuel` lines. -/
def entries? : Nat → State → Text → Option State
  | 0, _, _ => none
  | fuel + 1, s, t =>
    match skipBlanks t with
    | [] => some s
    | c :: r =>
      match if c = '#' ∨ c = '\n' ∨ c = '\r' then some (s, c :: r) else entry? s (c :: r) with
      | none => none
      | some (s, u) =>
        match lineEnd? u with
        | some rest => entries? fuel s rest
        | none => none

/-- The order of keys: by the numbers of their characters. -/
def keyLe : Text → Text → Bool
  | [], _ => true
  | _ :: _, [] => false
  | a :: s, b :: t => if a.toNat = b.toNat then keyLe s t else Nat.blt a.toNat b.toNat

def insertPair (p : Text × Value) : Table → Table
  | [] => [p]
  | q :: qs => if keyLe p.1 q.1 then p :: q :: qs else q :: insertPair p qs

def sortPairs (ps : List (Text × Value)) : Table := ps.foldr insertPair []

/-- The table at the top of a settings file, with its keys in ascending order. A byte order mark
before the text is passed over. -/
def table? : Reader := fun t =>
  let t := (after? ['\uFEFF'] t).getD t
  (entries? (t.length + 1) ⟨.empty, []⟩ t).map fun s => sortPairs s.declared.top

end DocSnippet.Toml
