import DocSnippet.Settings.Toml.Table
import DocSnippet.Text.Number
import DocSnippet.Text.Space

/-! The characters, strings and keys of a settings file. The file is TOML: keys are bare or quoted
and may be dotted, strings are basic or literal and may span lines. -/

namespace DocSnippet.Toml

open Text

/-! ### White space and comments -/

def skipBlanks (t : Text) : Text := t.dropWhile isBlankChar

/-- Characters that may stand in comments and strings: a tab, and all that are no controls. -/
def isPlain (c : Char) : Bool := c == '\t' || (Nat.ble 32 c.toNat && c.toNat != 127)

/-- The text behind a line break: a line feed, or a carriage return and a line feed. -/
def afterBreak? (t : Text) : Option Text :=
  match after? ['\n'] t with
  | some r => some r
  | none => after? ['\r', '\n'] t

/-- Skips blanks, line breaks and, where `comment` holds or a `#` starts one, comments. -/
def skipFiller : Bool → Text → Option Text
  | _, [] => some []
  | _, '\r' :: '\n' :: t => skipFiller false t
  | true, c :: t =>
    if c = '\n' then skipFiller false t else if isPlain c then skipFiller true t else none
  | false, c :: t =>
    if c = '\n' ∨ isBlankChar c then skipFiller false t
    else if c = '#' then skipFiller true t
    else some (c :: t)

/-- The text behind the end of a line, with blanks and a comment before it. -/
def lineEnd? (t : Text) : Option Text :=
  let t := skipBlanks t
  let t := if t.head? = some '#' then t.dropWhile isPlain else t
  match t with
  | [] => some []
  | t => afterBreak? t

/-! ### Strings -/

/-- The character with a number, which must not be one half of a pair. -/
def scalar? (n : Nat) : Option Char :=
  if n < 0xD800 ∨ (0xE000 ≤ n ∧ n < 0x110000) then some (Char.ofNat n) else none

def hexScalar? (digits : Text) : Option Char := (hexValue? digits).bind scalar?

/-- The character that a letter behind a backslash stands for. -/
def escapeOf? (c : Char) : Option Char :=
  if c = '"' ∨ c = '\\' then some c else controlOf? c

def cons (c : Char) (read : Option (Text × Text)) : Option (Text × Text) :=
  read.map fun (s, r) => (c :: s, r)

def basic? : Text → Option (Text × Text)
  | [] => none
  | '"' :: t => some ([], t)
  | '\\' :: 'u' :: a :: b :: c :: d :: t =>
    (hexScalar? [a, b, c, d]).bind fun x => cons x (basic? t)
  | '\\' :: 'U' :: a :: b :: c :: d :: e :: f :: g :: h :: t =>
    (hexScalar? [a, b, c, d, e, f, g, h]).bind fun x => cons x (basic? t)
  | '\\' :: e :: t => (escapeOf? e).bind fun x => cons x (basic? t)
  | c :: t => if isPlain c ∧ c ≠ '\\' then cons c (basic? t) else none

def literal? : Text → Option (Text × Text)
  | [] => none
  | c :: t => if c = '\'' then some ([], t) else if isPlain c then cons c (literal? t) else none

/-- The end of a string with three quotes: up to two more quotes belong to the string. -/
def tripleEnd (q : Char) (t : Text) : Text × Text :=
  let quotes := (t.take 2).takeWhile (· == q)
  (quotes, t.drop quotes.length)

/-- Whether a line ends behind blanks. -/
def endsLine (t : Text) : Bool := (afterBreak? (skipBlanks t)).isSome

/-- The inside of a basic string of several lines, and the text behind its quotes. A backslash at
the end of a line joins it to the next text: while `joining`, white space is skipped. -/
def multiBasic? : Bool → Text → Option (Text × Text)
  | _, [] => none
  | _, '"' :: '"' :: '"' :: t => some (tripleEnd '"' t)
  | joining, '\r' :: '\n' :: t =>
    if joining then multiBasic? true t else cons '\n' (multiBasic? false t)
  | _, '\\' :: 'u' :: a :: b :: c :: d :: t =>
    (hexScalar? [a, b, c, d]).bind fun x => cons x (multiBasic? false t)
  | _, '\\' :: 'U' :: a :: b :: c :: d :: e :: f :: g :: h :: t =>
    (hexScalar? [a, b, c, d, e, f, g, h]).bind fun x => cons x (multiBasic? false t)
  | _, '\\' :: e :: t =>
    if endsLine (e :: t) then multiBasic? true t
    else (escapeOf? e).bind fun x => cons x (multiBasic? false t)
  | joining, c :: t =>
    if joining ∧ (c = '\n' ∨ isBlankChar c) then multiBasic? true t
    else if c = '\n' ∨ (isPlain c ∧ c ≠ '\\') then cons c (multiBasic? false t)
    else none

/-- The inside of a literal string of several lines, and the text behind its quotes. -/
def multiLiteral? : Text → Option (Text × Text)
  | [] => none
  | '\'' :: '\'' :: '\'' :: t => some (tripleEnd '\'' t)
  | '\r' :: '\n' :: t => cons '\n' (multiLiteral? t)
  | c :: t => if c = '\n' ∨ isPlain c then cons c (multiLiteral? t) else none

/-- A text without a line break at its head. -/
def dropBreak (t : Text) : Text := (afterBreak? t).getD t

def string? (t : Text) : Option (Text × Text) :=
  match after? ['"', '"', '"'] t with
  | some r => multiBasic? false (dropBreak r)
  | none =>
    match after? ['"'] t with
    | some r => basic? r
    | none =>
      match after? ['\'', '\'', '\''] t with
      | some r => multiLiteral? (dropBreak r)
      | none => (after? ['\''] t).bind literal?

/-! ### Keys -/

def isBareChar (c : Char) : Bool :=
  inRanges [(0x2D, 0x2D), (0x30, 0x39), (0x41, 0x5A), (0x5F, 0x5F), (0x61, 0x7A)] c

def simpleKey? (t : Text) : Option (Text × Text) :=
  match after? ['"'] t with
  | some r => basic? r
  | none =>
    match after? ['\''] t with
    | some r => literal? r
    | none =>
      match t.takeWhile isBareChar with
      | [] => none
      | k => some (k, t.dropWhile isBareChar)

/-- Keys, arrays and inline tables are refused at this depth. -/
def nestingLimit : Nat := 80

/-- The keys of a dotted key, with blanks around the dots, for at most `fuel` keys. -/
def keys? : Nat → Text → Option (List Text × Text)
  | 0, _ => none
  | fuel + 1, t => do
    let (k, r) ← simpleKey? (skipBlanks t)
    match after? ['.'] (skipBlanks r) with
    | some u => do
      let (ks, rest) ← keys? fuel u
      some (k :: ks, rest)
    | none => some ([k], skipBlanks r)

def key? (t : Text) : Option (List Text × Text) :=
  (keys? (t.length + 1) t).filter fun p => p.1.length < nestingLimit

end DocSnippet.Toml
