import DocSnippet.Settings.Toml.Basic

/-! Numbers, dates and times of a settings file. They are only checked. -/

namespace DocSnippet.Toml

open Text

/-! ### Numbers -/

/-- Whether a text is digits of a class with single underscores between them. -/
def isDigits (p : Char → Bool) (t : Text) : Bool :=
  (splitOn '_' t).all fun part => !part.isEmpty && part.all p

def digitsOf (t : Text) : Text := t.filter (· != '_')

def isWhole (t : Text) : Bool :=
  isDigits isAsciiDigit t && (t.length == 1 || t.head? != some '0')

/-- A text without a sign, and whether the sign is minus. -/
def unsigned (t : Text) : Bool × Text :=
  match t with
  | c :: r => if c = '-' then (true, r) else if c = '+' then (false, r) else (false, t)
  | [] => (false, [])

def isInteger (t : Text) : Bool :=
  let based (p : Char → Bool) (base : Nat) (r : Text) : Bool :=
    isDigits p r && Nat.blt (valueIn base (digitsOf r)) (Nat.pow 2 63)
  match t with
  | '0' :: 'x' :: r => based isHexDigit 16 r
  | '0' :: 'o' :: r => based (inRanges [(0x30, 0x37)]) 8 r
  | '0' :: 'b' :: r => based (inRanges [(0x30, 0x31)]) 2 r
  | _ =>
    let (negative, u) := unsigned t
    let largest := if negative then Nat.pow 2 63 else Nat.pow 2 63 - 1
    isWhole u && Nat.ble (valueIn 10 (digitsOf u)) largest

structure Scientific where
  digits : Text
  places : Nat
  exponent : Int

/-- An exponent, which is zero if nothing is written. -/
def exponent? : Text → Option Int
  | [] => some 0
  | c :: t =>
    let (negative, ds) := unsigned t
    if (c == 'e' || c == 'E') && isDigits isAsciiDigit ds then
      some (if negative then -(valueIn 10 (digitsOf ds) : Int) else valueIn 10 (digitsOf ds))
    else none

def scientific? (t : Text) : Option Scientific :=
  let isPart (c : Char) : Bool := isAsciiDigit c || c == '_'
  let whole := t.takeWhile isPart
  if !isWhole whole then none
  else
    match t.dropWhile isPart with
    | [] => none
    | c :: r =>
      if c = '.' then
        let fraction := r.takeWhile isPart
        if isDigits isAsciiDigit fraction then
          (exponent? (r.dropWhile isPart)).map fun e =>
            ⟨digitsOf (whole ++ fraction), (digitsOf fraction).length, e⟩
        else none
      else (exponent? (c :: r)).map fun e => ⟨digitsOf whole, 0, e⟩

/-- Whether a number is too large for 64 bits: it rounds to more than the largest finite one. -/
def Scientific.isInfinite (s : Scientific) : Bool :=
  let m := valueIn 10 s.digits
  let e := s.exponent - s.places
  let size : Int := (decimal m).length + e
  let bound := Nat.pow 2 1024 - Nat.pow 2 970
  if m = 0 then false
  else if 400 < size then true
  else if size < 300 then false
  else if 0 ≤ e then Nat.ble bound (m * Nat.pow 10 e.toNat)
  else Nat.ble (bound * Nat.pow 10 (-e).toNat) m

/-- Whether a text is a number with a fraction or an exponent, or an infinity, or no number. -/
def isFloat (t : Text) : Bool :=
  let (negative, u) := unsigned t
  if u = "inf".toList ∨ u = "nan".toList then true
  else
    match scientific? u with
    | some s => negative || !s.isInfinite
    | none => false

/-! ### Dates and times -/

/-- A number of exactly `n` digits at the head of a text. -/
def fixed? (n : Nat) (t : Text) : Option (Nat × Text) :=
  let ds := t.take n
  if ds.length = n ∧ ds.all isAsciiDigit then some (valueIn 10 ds, t.drop n) else none

def daysIn (year month : Nat) : Nat :=
  if month = 2 then
    (if year % 4 = 0 ∧ (year % 100 ≠ 0 ∨ year % 400 = 0) then 29 else 28)
  else if month = 4 ∨ month = 6 ∨ month = 9 ∨ month = 11 then 30
  else 31

def date? (t : Text) : Option Text := do
  let (y, t) ← fixed? 4 t
  let t ← after? ['-'] t
  let (m, t) ← fixed? 2 t
  let t ← after? ['-'] t
  let (d, t) ← fixed? 2 t
  if 1 ≤ m ∧ m ≤ 12 ∧ 1 ≤ d ∧ d ≤ daysIn y m then some t else none

def time? (t : Text) : Option Text := do
  let (h, t) ← fixed? 2 t
  let t ← after? [':'] t
  let (m, t) ← fixed? 2 t
  let t ← after? [':'] t
  let (s, t) ← fixed? 2 t
  if h ≤ 23 ∧ m ≤ 59 ∧ s ≤ 60 then
    match after? ['.'] t with
    | some r => if (r.takeWhile isAsciiDigit).isEmpty then none else some (r.dropWhile isAsciiDigit)
    | none => some t
  else none

/-- Whether a text is empty or an offset from universal time. -/
def isOffset (t : Text) : Bool :=
  match t with
  | [] => true
  | c :: r =>
    if c = 'Z' ∨ c = 'z' then r.isEmpty
    else if c = '+' ∨ c = '-' then
      match fixed? 2 r with
      | some (h, ':' :: u) =>
        match fixed? 2 u with
        | some (m, []) => h ≤ 23 && m ≤ 59
        | _ => false
      | _ => false
    else false

/-- Whether a text is a time, or a date, or a date and a time with an offset or without. -/
def isDateTime (t : Text) : Bool :=
  match date? t with
  | some [] => true
  | some (c :: r) =>
    (c == 'T' || c == 't' || c == ' ') &&
    match time? r with
    | some rest => isOffset rest
    | none => false
  | none => time? t == some []

/-! ### Scalars -/

/-- The characters of numbers, dates and words. -/
def isScalarChar (c : Char) : Bool :=
  inRanges [(0x2B, 0x2B), (0x2D, 0x2E), (0x30, 0x3A), (0x41, 0x5A), (0x5F, 0x5F), (0x61, 0x7A)] c

/-- The text of a scalar at the head of a text. A date takes a time behind a single blank with
it. -/
def scalarText (t : Text) : Text :=
  let s := t.takeWhile isScalarChar
  match date? s, t.drop s.length with
  | some [], ' ' :: r =>
    match fixed? 2 r with
    | some (_, ':' :: _) => s ++ ' ' :: r.takeWhile isScalarChar
    | _ => s
  | _, _ => s

def scalarValue? (t : Text) : Option (Value × Text) :=
  let s := scalarText t
  let rest := t.drop s.length
  if s = "true".toList then some (.bool true, rest)
  else if s = "false".toList then some (.bool false, rest)
  else if isInteger s || isFloat s || isDateTime s then some (.other, rest)
  else none

end DocSnippet.Toml
