import DocSnippet.Text.Nesting
import DocSnippet.Text.Word

/-! The kinds of literals that tell the type of a default value. -/

namespace DocSnippet.Signature

open Text

inductive Literal
  | integer
  | float
  | hexadecimal
  | string
  | boolean
  | list
  | tuple
  | dict
  | pattern
  deriving DecidableEq

namespace Literal

def typeName : Literal → Text
  | .integer => "int".toList
  | .float => "float".toList
  | .hexadecimal => "hexadecimal".toList
  | .string => "str".toList
  | .boolean => "bool".toList
  | .list => "list".toList
  | .tuple => "tuple".toList
  | .dict => "dict".toList
  | .pattern => "re.Pattern".toList

def unsigned : Text → Text
  | [] => []
  | c :: t => if c = '-' ∨ c = '+' then t else c :: t

def isDigits (p : Char → Bool) (t : Text) : Bool := !t.isEmpty && t.all p

def isInteger (t : Text) : Bool := isDigits isAsciiDigit (unsigned t)

/-- Whether a text is empty or an exponent: `e`, an optional sign and digits. -/
def isExponent : Text → Bool
  | [] => true
  | c :: t => (c == 'e' || c == 'E') && isDigits isAsciiDigit (unsigned t)

/-- Whether a text is digits with at most one point, a digit last, and an optional exponent. -/
def isFloat (t : Text) : Bool :=
  let t := unsigned t
  let whole := t.takeWhile isAsciiDigit
  match t.dropWhile isAsciiDigit with
  | [] => !whole.isEmpty
  | c :: r =>
    if c = '.' then !(r.takeWhile isAsciiDigit).isEmpty && isExponent (r.dropWhile isAsciiDigit)
    else !whole.isEmpty && isExponent (c :: r)

def isHexadecimal (t : Text) : Bool :=
  match unsigned t with
  | z :: x :: r => z == '0' && (x == 'x' || x == 'X') && isDigits isHexDigit r
  | _ => false

/-- Whether a text without line breaks starts and ends with the same quote. -/
def isString (t : Text) : Bool :=
  match t with
  | q :: c :: r => isQuote q && (c :: r).getLast? == some q && t.all (· != '\n')
  | _ => false

/-- Whether a text has the two brackets at its ends. -/
def isBracketed (left right : Char) (t : Text) : Bool :=
  t.head? == some left && t.getLast? == some right

/-- Whether a text is a string literal behind the letter `r`. -/
def isRawString : Text → Bool
  | [] => false
  | c :: t => (c == 'r' || c == 'R') && isString t

/-- The kind of a text that looks like a literal; the first kind that fits counts. -/
def of? (t : Text) : Option Literal :=
  if isInteger t then some .integer
  else if isFloat t then some .float
  else if isHexadecimal t then some .hexadecimal
  else if isString t then some .string
  else if t = "True".toList ∨ t = "False".toList then some .boolean
  else if isBracketed '[' ']' t then some .list
  else if isBracketed '(' ')' t then some .tuple
  else if isBracketed '{' '}' t then some .dict
  else if isRawString t then some .pattern
  else none

end Literal

def literalType? (t : Text) : Option Text := (Literal.of? t).map Literal.typeName

end DocSnippet.Signature
