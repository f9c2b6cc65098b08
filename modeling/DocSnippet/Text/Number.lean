import DocSnippet.Text.Word

/-! Numbers as text: decimal digits, hexadecimal digits and unsigned numbers of 64 bits. -/

namespace DocSnippet.Text

def decimal (n : Nat) : Text := Nat.toDigits 10 n

/-- The value of a digit. The letters `a` to `f`, small or capital, count from ten on. -/
def digit? (c : Char) : Option Nat :=
  let n := c.toNat
  if isAsciiDigit c then some (n - 48)
  else if isHexDigit c then some (if Nat.blt n 97 then n - 55 else n - 87)
  else none

/-- The value of a row of digits in a base. -/
def valueIn (base : Nat) (digits : Text) : Nat :=
  digits.foldl (fun n c => base * n + (digit? c).getD 0) 0

def hexValue? (digits : Text) : Option Nat :=
  if digits.all isHexDigit then some (valueIn 16 digits) else none

/-- The least number that does not fit in 64 bits. -/
def wordBound : Nat := Nat.pow 2 64

/-- An unsigned number of 64 bits: digits, with a plus sign before them or without. -/
def unsigned? (t : Text) : Option Nat :=
  let digits := (after? ['+'] t).getD t
  let n := valueIn 10 digits
  if !digits.isEmpty && digits.all isAsciiDigit && Nat.blt n wordBound then some n else none

/-- The control character that a letter behind a backslash stands for. -/
def controlOf? (c : Char) : Option Char :=
  if c = 'b' then some '\x08'
  else if c = 'f' then some '\x0c'
  else if c = 'n' then some '\n'
  else if c = 'r' then some '\r'
  else if c = 't' then some '\t'
  else none

end DocSnippet.Text
