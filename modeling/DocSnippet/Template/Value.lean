import DocSnippet.Text.Number

/-! The values that a template is filled with, their text and their truth. -/

namespace DocSnippet.Template

open Text

inductive Value
  | null
  | bool (b : Bool)
  | int (n : Int)
  | fraction (mantissa exponent : Int)
  | text (t : Text)
  | list (items : List Value)
  | record (fields : List (Text × Value))

namespace Value

def ofNat (n : Nat) : Value := .int n

def signText (n : Int) : Text := if n < 0 then ['-'] else []

/-- A mantissa without trailing zeros and its exponent, for at most `fuel` zeros. -/
def shorten : Nat → Nat → Int → Nat × Int
  | 0, m, e => (m, e)
  | fuel + 1, m, e => if m ≠ 0 ∧ m % 10 = 0 then shorten fuel (m / 10) (e + 1) else (m, e)

/-- A decimal fraction: positional while the point is near the digits, else with an exponent. -/
def fractionText (mantissa exponent : Int) : Text :=
  if mantissa = 0 then ['0', '.', '0']
  else
    let (m, e) := shorten mantissa.natAbs mantissa.natAbs exponent
    let digits := decimal m
    let point : Int := digits.length + e
    signText mantissa ++
      if 0 ≤ e ∧ point ≤ 16 then digits ++ List.replicate e.toNat '0' ++ ['.', '0']
      else if 0 < point ∧ point ≤ 16 then
        digits.take point.toNat ++ ['.'] ++ digits.drop point.toNat
      else if -5 < point ∧ point ≤ 0 then
        ['0', '.'] ++ List.replicate point.natAbs '0' ++ digits
      else
        let tail := if digits.length = 1 then [] else '.' :: digits.drop 1
        digits.take 1 ++ tail ++ ['e'] ++ signText (point - 1) ++ decimal (point - 1).natAbs

mutual

/-- The text that a template writes for a value. -/
def display : Value → Text
  | .null => []
  | .bool b => if b then "true".toList else "false".toList
  | .int n => signText n ++ decimal n.natAbs
  | .fraction m e => fractionText m e
  | .text t => t
  | .list items => ['['] ++ join [',', ' '] (displayAll items) ++ [']']
  | .record _ => "[object]".toList

def displayAll : List Value → List Text
  | [] => []
  | v :: vs => display v :: displayAll vs

end

/-- Whether a condition holds for a value. Zero counts as true only if `zero` says so. -/
def isTrue (zero : Bool) : Value → Bool
  | .null => false
  | .bool b => b
  | .int n => zero || n != 0
  | .fraction m _ => zero || m != 0
  | .text t => !t.isEmpty
  | .list items => !items.isEmpty
  | .record fields => !fields.isEmpty

end Value

end DocSnippet.Template
