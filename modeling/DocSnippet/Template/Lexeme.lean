import DocSnippet.Template.Tree
import DocSnippet.Text.Number

/-! The smallest parts of a tag: names, paths and literals. Each reader gives what it read and the
text behind it. -/

namespace DocSnippet.Template

open Text

def isGap (c : Char) : Bool := c == ' ' || c == '\t' || c == '\n' || c == '\r'

def skipGap (t : Text) : Text := t.dropWhile isGap

/-- The characters of names: ASCII letters and digits, `_`, `-`, `$`, and all beyond ASCII. -/
def isSymbol (c : Char) : Bool :=
  inRanges [(0x24, 0x24), (0x2D, 0x2D), (0x30, 0x39), (0x41, 0x5A), (0x5F, 0x5F), (0x61, 0x7A),
    (0x80, 0x10FFFF)] c

def name? (t : Text) : Option (Text × Text) :=
  match t.takeWhile isSymbol with
  | [] => none
  | w => some (w, t.dropWhile isSymbol)

/-- The literal `p` at the head of a text, where no name goes on behind it. -/
def whole? (p t : Text) : Option Text :=
  match after? p t with
  | some r => if (name? r).isSome then none else some r
  | none => none

/-! ### Paths -/

inductive Step
  | up
  | key (k : Text)

def isSeparator (c : Char) : Bool := c == '.' || c == '/'

/-- A step at the head of a text: two points, a name, or any key in square brackets. -/
def step? (t : Text) : Option (Step × Text) :=
  match after? ['.', '.'] t with
  | some r => some (.up, r)
  | none =>
    match after? ['['] t with
    | some r =>
      match r.dropWhile (· != ']') with
      | _ :: rest => some (.key (r.takeWhile (· != ']')), rest)
      | [] => none
    | none => (name? t).map fun (w, r) => (.key w, r)

/-- The steps behind separators at the head of a text, for at most `fuel` steps. -/
def furtherSteps : Nat → Text → List Step × Text
  | fuel + 1, c :: t =>
    match if isSeparator c then step? t else none with
    | some (s, r) =>
      let (ss, rest) := furtherSteps fuel r
      (s :: ss, rest)
    | none => ([], c :: t)
  | _, t => ([], t)

/-- The number of steps to enclosing blocks at the head of a path. -/
def upCount : List Step → Nat
  | .up :: ss => upCount ss + 1
  | _ => 0

/-- The keys of a path. The name `this` is no key. -/
def keysOf (ss : List Step) : List Text :=
  ss.filterMap fun
    | .up => none
    | .key k => if k = "this".toList then none else some k

/-- The text behind one of some prefixes and a separator, or the text itself. -/
def afterOptional (ps : List Text) (t : Text) : Bool × Text :=
  match ps.findSome? fun p => after? p t with
  | some r => (true, r)
  | none => (false, t)

def path? (t : Text) : Option (Path × Text) :=
  let (_, t) := afterOptional ["this.".toList, "this/".toList, ['.', '/']] t
  let (fromRoot, t) :=
    afterOptional ["@root.".toList, "@root/".toList] t
  let (fromLoop, t) := afterOptional [['@']] t
  match step? t with
  | none => none
  | some (s, r) =>
    let (ss, rest) := furtherSteps r.length r
    let up := upCount (s :: ss)
    let keys := keysOf (s :: ss)
    let origin : Origin :=
      if fromRoot then .root else if fromLoop && !keys.isEmpty then .loop up else .here up
    some (⟨origin, keys⟩, rest)

/-! ### Literals -/

/-- The character that a letter behind a backslash stands for. -/
def escapeOf? (c : Char) : Option Char := if c = '\\' ∨ c = '/' then some c else controlOf? c

/-- The inside of a string literal up to the quote `q`, as code units: an escape of four digits may
be one half of a character. -/
def stringUnits? (q : Char) : Text → Option (List Nat × Text)
  | [] => none
  | '\\' :: 'u' :: a :: b :: c :: d :: t =>
    match hexValue? [a, b, c, d] with
    | some u => (stringUnits? q t).map fun (us, r) => (u :: us, r)
    | none => none
  | '\\' :: e :: t =>
    match if e = q then some q else escapeOf? e with
    | some c => (stringUnits? q t).map fun (us, r) => (c.toNat :: us, r)
    | none => none
  | c :: t =>
    if c = q then some ([], t)
    else if c.toNat < 32 ∨ c = '\\' then none
    else (stringUnits? q t).map fun (us, r) => (c.toNat :: us, r)

/-- Code units as text. Two halves make a character, and a half alone is refused. -/
def ofUnits? : List Nat → Option Text
  | [] => some []
  | u :: us =>
    if 0xD800 ≤ u ∧ u < 0xDC00 then
      match us with
      | v :: vs =>
        if 0xDC00 ≤ v ∧ v < 0xE000 then
          (ofUnits? vs).map (Char.ofNat (0x10000 + (u - 0xD800) * 0x400 + (v - 0xDC00)) :: ·)
        else none
      | [] => none
    else if 0xDC00 ≤ u ∧ u < 0xE000 then none
    else (ofUnits? us).map (Char.ofNat u :: ·)

/-- A number from its parts. A leading zero and a point without digits are refused. -/
def numberOf? (negative : Bool) (whole : Text) (fraction? exponent? : Option (Bool × Text)) :
    Option Value :=
  let sign : Int := if negative then -1 else 1
  if 1 < whole.length ∧ whole.head? = some '0' then none
  else
    match fraction?, exponent? with
    | none, none => some (.int (sign * valueIn 10 whole))
    | f?, e? =>
      let digits := (f?.map Prod.snd).getD []
      let e : Int :=
        (e?.map fun (neg, ds) => (if neg then -1 else 1) * (valueIn 10 ds : Int)).getD 0
      if f?.isSome ∧ digits = [] then none
      else some (.fraction (sign * valueIn 10 (whole ++ digits)) (e - digits.length))

/-- A number at the head of a text. The outer result tells whether one stands there, the inner one
whether it is well formed. -/
def number? (t : Text) : Option (Option (Value × Text)) :=
  let (negative, t) := afterOptional [['-']] t
  let whole := t.takeWhile isAsciiDigit
  let t := t.dropWhile isAsciiDigit
  if whole.isEmpty then none
  else
    let (point, t) := afterOptional [['.']] t
    let digits := if point then t.takeWhile isAsciiDigit else []
    let t := t.drop digits.length
    let (power, e) := afterOptional [['E']] t
    let (negativeE, e) := afterOptional [['-']] e
    let digitsE := e.takeWhile isAsciiDigit
    let hasE := power && !digitsE.isEmpty
    let rest := if hasE then e.drop digitsE.length else t
    if (name? rest).isSome then none
    else
      some ((numberOf? negative whole (if point then some (false, digits) else none)
        (if hasE then some (negativeE, digitsE) else none)).map fun v => (v, rest))

/-- A literal at the head of a text. The outer result tells whether one stands there, the inner one
whether it is well formed. -/
def literal? (t : Text) : Option (Option (Value × Text)) :=
  match t with
  | [] => none
  | q :: r =>
    if q = '"' ∨ q = '\'' then
      some ((stringUnits? q r).bind fun (us, rest) => (ofUnits? us).map fun s => (.text s, rest))
    else
      match number? t with
      | some n => some n
      | none =>
        match whole? "null".toList t with
        | some rest => some (some (.null, rest))
        | none =>
          match whole? "true".toList t with
          | some rest => some (some (.bool true, rest))
          | none => (whole? "false".toList t).map fun rest => some (.bool false, rest)

end DocSnippet.Template
