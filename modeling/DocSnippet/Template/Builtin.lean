import DocSnippet.Template.Engine
import DocSnippet.Template.Scope

/-! The helpers that the engine knows by itself: conditions, loops, look-ups and comparisons. A
helper is applied to the values of its operands and to the body and inverse of its block. -/

namespace DocSnippet.Template

open Text

structure Operands where
  values : List Value
  options : List (Text × Value)

/-- What the body of a block writes in a scope. -/
abbrev Body := Scope → Except Text Text

def Body.empty : Body := fun _ => .ok []

/-! ### Loops -/

/-- The frame of a loop at the item `v` with number `i` of `n` items. The item has a key, which the
loop calls `label`: its number in a list, its name in a record. -/
def loopFrame (params : List Text) (n i : Nat) (label : Text) (key v : Value) : Frame :=
  { base := v
    loop :=
      [("first".toList, .bool (i == 0)), ("last".toList, .bool (i + 1 == n)), (label, key)]
    params :=
      match params with
      | [a] => [(a, v)]
      | [a, b] => [(a, v), (b, key)]
      | _ => [] }

/-- The frames of a loop over a list, from the item number `i` on. -/
def listFrames (params : List Text) (n : Nat) : Nat → List Value → List Frame
  | _, [] => []
  | i, v :: vs => loopFrame params n i "index".toList (.ofNat i) v :: listFrames params n (i + 1) vs

/-- The frames of a loop over a record, from the field number `i` on. -/
def recordFrames (params : List Text) (n : Nat) : Nat → List (Text × Value) → List Frame
  | _, [] => []
  | i, (k, v) :: fs =>
    loopFrame params n i "key".toList (.text k) v :: recordFrames params n (i + 1) fs

/-- What a body writes in one frame after another. -/
def repeatBody (body : Body) (s : Scope) : List Frame → Except Text Text
  | [] => .ok []
  | f :: fs =>
    match body (s.push f) with
    | .error e => .error e
    | .ok t =>
      match repeatBody body s fs with
      | .error e => .error e
      | .ok u => .ok (t ++ u)

/-! ### Functions of values -/

namespace Value

def lookup : Value → Value → Value
  | .list items, .int i => if i < 0 then .null else items.getD i.toNat .null
  | .record fields, .text k => (fields.lookup k).getD .null
  | _, _ => .null

/-- The number of items, fields or bytes. -/
def size : Value → Nat
  | .text t => t.foldl (fun n c => n + c.utf8Size) 0
  | .list items => items.length
  | .record fields => fields.length
  | _ => 0

/-- A number as an integer over a power of ten, if the value is one. -/
def decimal? : Value → Option (Int × Int)
  | .int n => some (n, 0)
  | .fraction m e => some (m, e)
  | _ => none

/-- The order of two texts by the numbers of their characters. -/
def orderOfTexts : Text → Text → Ordering
  | [], [] => .eq
  | [], _ :: _ => .lt
  | _ :: _, [] => .gt
  | a :: s, b :: t =>
    if Nat.blt a.toNat b.toNat then .lt
    else if Nat.blt b.toNat a.toNat then .gt
    else orderOfTexts s t

def sign : Int → Ordering
  | .ofNat 0 => .eq
  | .ofNat _ => .gt
  | .negSucc _ => .lt

/-- The order of two numbers, texts or truth values. -/
def order? (v w : Value) : Option Ordering :=
  match v, w with
  | .text s, .text t => some (orderOfTexts s t)
  | .bool a, .bool b => some (if a == b then .eq else if a then .gt else .lt)
  | v, w =>
    match v.decimal?, w.decimal? with
    | some (m, e), some (n, f) =>
      some (sign (m * Int.pow 10 (e - f).toNat - n * Int.pow 10 (f - e).toNat))
    | _, _ => none

mutual

def same : Value → Value → Bool
  | .null, .null => true
  | .bool a, .bool b => a == b
  | .int m, .int n => m == n
  | .fraction m e, .fraction n f => (fraction m e).order? (.fraction n f) == some .eq
  | .text s, .text t => s == t
  | .list vs, .list ws => sameAll vs ws
  | .record fs, .record gs => sameFields fs gs
  | _, _ => false

def sameAll : List Value → List Value → Bool
  | [], [] => true
  | v :: vs, w :: ws => same v w && sameAll vs ws
  | _, _ => false

def sameFields : List (Text × Value) → List (Text × Value) → Bool
  | [], [] => true
  | (k, v) :: fs, (l, w) :: gs => k == l && same v w && sameFields fs gs
  | _, _ => false

end

end Value

/-! ### Helpers -/

inductive Builtin
  | when
  | unless
  | each
  | within
  | raw
  | log
  | unary (f : Value → Value)
  | binary (f : Value → Value → Value)

namespace Builtin

/-- A comparison that holds for some orders. -/
def ordered (holds : Ordering → Bool) : Builtin :=
  .binary fun v w => .bool ((v.order? w).any holds)

def table : List (Text × Builtin) :=
  [("if".toList, .when), ("unless".toList, .unless), ("each".toList, .each),
    ("with".toList, .within), ("lookup".toList, .binary Value.lookup), ("raw".toList, .raw),
    ("log".toList, .log), ("eq".toList, .binary fun v w => .bool (v.same w)),
    ("ne".toList, .binary fun v w => .bool !(v.same w)), ("gt".toList, ordered (·.isGT)),
    ("gte".toList, ordered (·.isGE)), ("lt".toList, ordered (·.isLT)),
    ("lte".toList, ordered (·.isLE)),
    ("and".toList, .binary fun v w => .bool (v.isTrue false && w.isTrue false)),
    ("or".toList, .binary fun v w => .bool (v.isTrue false || w.isTrue false)),
    ("not".toList, .unary fun v => .bool !(v.isTrue false)),
    ("len".toList, .unary fun v => .ofNat v.size)]

def ofName? (name : Text) : Option Builtin := table.lookup name

/-- The cause of a call without an operand that the helper needs. -/
def missingOperand {α : Type} (name : Text) : Except Text α :=
  .error ("operand missing for ".toList ++ name)

/-- Whether zero counts as true. -/
def includeZero (ops : Operands) : Bool :=
  match ops.options.lookup "includeZero".toList with
  | some (.bool b) => b
  | _ => false

/-- What a helper writes. `body?` is absent outside a block. -/
def write (name : Text) (h : Builtin) (ops : Operands) (params : List Text)
    (body? : Option Body) (inverse : Body) (s : Scope) : Except Text Text :=
  let body := body?.getD .empty
  let choose (c : Bool) := if c then body s else inverse s
  match h, ops.values with
  | .when, v :: _ => choose (v.isTrue (includeZero ops))
  | .unless, v :: _ => choose !(v.isTrue (includeZero ops))
  | .each, v :: _ =>
    match v with
    | .list (i :: is) => repeatBody body s (listFrames params (is.length + 1) 0 (i :: is))
    | .record (f :: fs) => repeatBody body s (recordFrames params (fs.length + 1) 0 (f :: fs))
    | _ => inverse s
  | .within, v :: _ =>
    if v.isTrue false then
      body (s.push ⟨v, [], match params with | [a] => [(a, v)] | _ => []⟩)
    else inverse s
  | .raw, _ => body s
  | .log, _ => .ok []
  | .unary f, v :: _ => .ok (f v).display
  | .binary f, v :: w :: _ => .ok (f v w).display
  | _, _ => missingOperand name

/-- The value of a helper inside an operand: a function's value, or the text that is written. -/
def value (name : Text) (h : Builtin) (ops : Operands) (s : Scope) : Except Text Value :=
  match h, ops.values with
  | .unary f, v :: _ => .ok (f v)
  | .binary f, v :: w :: _ => .ok (f v w)
  | h, _ => (h.write name ops [] none .empty s).map .text

end Builtin

/-- What a helper of the program writes. -/
def Helper.call (h : Helper) (values : List Value) (body? : Option (Except Text Text)) :
    Except Text Text :=
  match h, values with
  | .free write, vs => write vs body?
  | .ofText _ write, .text t :: _ => .ok (write t)
  | .ofText operand _, _ :: _ => .error ("not a text: ".toList ++ operand)
  | .ofText operand _, [] => .error ("operand missing: ".toList ++ operand)

end DocSnippet.Template
