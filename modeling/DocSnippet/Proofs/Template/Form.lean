import DocSnippet.Template.Engine
import Mathlib.Data.List.Forall2

/-! Forms: templates of lines, and of blocks whose tags stand alone on their lines. A line is a row
of texts, of values and of calls of helpers. Names and texts are plain, so that a form has no other
reading as a template than its own, and what it writes for a value can be told without an engine. -/

namespace DocSnippet.Template

open Text

/-! ### Names -/

def isLetter (c : Char) : Bool := c == '_' || Nat.ble 97 c.toNat && Nat.ble c.toNat 122

def reserved : List Text :=
  ["as".toList, "else".toList, "false".toList, "null".toList, "this".toList, "true".toList]

structure IsWord (t : Text) : Prop where
  ne_nil : t ≠ []
  letters : ∀ c ∈ t, isLetter c
  free : ∀ w ∈ reserved, ¬w <+: t

instance (t : Text) : Decidable (IsWord t) :=
  decidable_of_iff (t ≠ [] ∧ t.all isLetter ∧ ∀ w ∈ reserved, ¬w <+: t)
    ⟨fun h => ⟨h.1, List.all_eq_true.1 h.2.1, h.2.2⟩,
      fun h => ⟨h.ne_nil, List.all_eq_true.2 h.letters, h.free⟩⟩

/-- The helpers that engines know by themselves. -/
def known : List Text :=
  ["if".toList, "unless".toList, "each".toList, "with".toList, "lookup".toList, "raw".toList,
    "log".toList, "eq".toList, "ne".toList, "gt".toList, "gte".toList, "lt".toList, "lte".toList,
    "and".toList, "or".toList, "not".toList, "len".toList]

structure IsName (t : Text) : Prop extends IsWord t where
  notMem_known : t ∉ known

instance (t : Text) : Decidable (IsName t) :=
  decidable_of_iff (IsWord t ∧ known.contains t = false)
    ⟨fun h => ⟨h.1, by simpa using h.2⟩, fun h => ⟨h.toIsWord, by simpa using h.notMem_known⟩⟩

structure Name where
  word : Text
  isName : IsName word

/-! ### Forms -/

/-- The visible characters and the blank of ASCII, less braces and backslashes. -/
def isLiteral (c : Char) : Bool :=
  Nat.ble 32 c.toNat && Nat.ble c.toNat 126 && c != '{' && c != '}' && c != '\\'

inductive Inline
  | text (t : Text) (h : t.all isLiteral := by decide +kernel)
  | value (n : Name)
  | call (helper n : Name)
  | wrap (helper n : Name)

/-- A template, from its first line or block on. A condition chooses between two forms, and a loop
repeats one for every item of a list. -/
inductive Form
  | empty
  | line (pieces : List Inline) (rest : Form)
  | choose (condition : Name) (body inverse rest : Form)
  | forEach (items : Name) (body rest : Form)

def Inline.source : Inline → Text
  | .text t _ => t
  | .value n => tag n.word
  | .call helper n => tag (helper.word ++ ' ' :: n.word)
  | .wrap helper n => opening helper.word ++ tag n.word ++ closing helper.word

def Form.isEmpty : Form → Bool
  | .empty => true
  | _ => false

/-- The text of a form. A line feed stands behind every line and every tag of a block. -/
def Form.source : Form → Text
  | .empty => []
  | .line pieces rest => pieces.flatMap Inline.source ++ '\n' :: rest.source
  | .choose condition body inverse rest =>
    opening ("if".toList ++ ' ' :: condition.word) ++ '\n' :: body.source ++
      (if inverse.isEmpty then [] else tag "else".toList ++ '\n' :: inverse.source) ++
      closing "if".toList ++ '\n' :: rest.source
  | .forEach items body rest =>
    opening ("each".toList ++ ' ' :: items.word) ++ '\n' :: body.source ++ closing "each".toList ++
      '\n' :: rest.source

/-! ### What a form writes -/

namespace Value

def field? (v : Value) (name : Text) : Option Value :=
  match v with
  | .record fields => fields.lookup name
  | _ => none

/-- The text that a name stands for in a record: its own text, or none if there is no such field. -/
def shown? (v : Value) (name : Text) : Option Text :=
  match v with
  | .record fields =>
    match fields.lookup name with
    | some (.text t) => some t
    | some _ => none
    | none => some []
  | _ => none

end Value

def concat? : List (Option Text) → Option Text
  | [] => some []
  | none :: _ => none
  | some t :: ts => (concat? ts).map (t ++ ·)

theorem exists_of_concat? {α : Type} {f : α → Option Text} {xs : List α} {t : Text}
    (h : concat? (xs.map f) = some t) :
    ∃ ts, List.Forall₂ (fun x u => f x = some u) xs ts ∧ t = ts.flatten := by
  induction xs generalizing t with
  | nil => exact ⟨[], .nil, (Option.some.inj h).symm⟩
  | cons x xs ih =>
    rw [List.map_cons] at h
    cases hx : f x with
    | none => simp [hx, concat?] at h
    | some u =>
      rw [hx, concat?, Option.map_eq_some_iff] at h
      obtain ⟨r, hr, rfl⟩ := h
      obtain ⟨ts, hts, rfl⟩ := ih hr
      exact ⟨u :: ts, .cons hx hts, rfl⟩

theorem concat?_map {α : Type} {f : α → Option Text} {g : α → Text} {xs : List α}
    (h : ∀ x ∈ xs, f x = some (g x)) : concat? (xs.map f) = some (xs.flatMap g) := by
  induction xs with
  | nil => rfl
  | cons x xs ih =>
    rw [List.map_cons, h x (by simp), concat?, ih fun y hy => h y (by simp [hy])]
    rfl

theorem exists_isInfix_of_concat? {os : List (Option Text)} {o : Option Text} {t : Text}
    (h : concat? os = some t) (ho : o ∈ os) : ∃ u, o = some u ∧ u <:+: t := by
  induction os generalizing t with
  | nil => simp at ho
  | cons p os ih =>
    cases p with
    | none => simp [concat?] at h
    | some s =>
      rw [concat?, Option.map_eq_some_iff] at h
      obtain ⟨r, hr, rfl⟩ := h
      rcases List.mem_cons.1 ho with rfl | ho
      · exact ⟨s, rfl, (List.prefix_append s r).isInfix⟩
      · obtain ⟨u, hu, hinfix⟩ := ih hr ho
        exact ⟨u, hu, hinfix.trans (List.suffix_append s r).isInfix⟩

section Write

variable (H : Helpers)

/-- The text that stands for a name. A helper counts before a field of the same name. -/
def Name.write? (n : Name) (v : Value) : Option Text :=
  match H.lookup n.word with
  | some (.free f) => (f [] none).toOption
  | some (.ofText _ _) => none
  | none => v.shown? n.word

def Inline.write? : Inline → Value → Option Text
  | .text t _, _ => some t
  | .value n, v => n.write? H v
  | .call helper n, v =>
    match H.lookup helper.word, v.field? n.word with
    | some (.ofText _ f), some (.text t) => some (f t)
    | _, _ => none
  | .wrap helper n, v =>
    match H.lookup helper.word, n.write? H v with
    | some (.free f), some t => (f [] (some (.ok t))).toOption
    | _, _ => none

def Form.write? : Form → Value → Option Text
  | .empty, _ => some []
  | .line pieces rest, v =>
    match concat? (pieces.map fun i => i.write? H v), rest.write? v with
    | some t, some u => some (t ++ '\n' :: u)
    | _, _ => none
  | .choose condition body inverse rest, v =>
    match v.field? condition.word, rest.write? v with
    | some (.bool b), some u => (if b then body.write? v else inverse.write? v).map (· ++ u)
    | _, _ => none
  | .forEach items body rest, v =>
    match v.field? items.word, rest.write? v with
    | some (.list vs), some u => (concat? (vs.map body.write?)).map (· ++ u)
    | _, _ => none

namespace Form

variable {H} {condition items : Name} {pieces : List Inline} {body inverse rest : Form} {v : Value}
  {t : Text}

theorem exists_of_write?_line (h : (Form.line pieces rest).write? H v = some t) :
    ∃ s u, concat? (pieces.map fun i => i.write? H v) = some s ∧ rest.write? H v = some u ∧
      t = s ++ '\n' :: u := by
  rw [write?] at h
  split at h
  next s u hs hu => exact ⟨s, u, hs, hu, (Option.some.inj h).symm⟩
  · simp at h

theorem exists_of_write?_choose
    (h : (Form.choose condition body inverse rest).write? H v = some t) :
    ∃ b s u, v.field? condition.word = some (.bool b) ∧
      (if b then body.write? H v else inverse.write? H v) = some s ∧ rest.write? H v = some u ∧
      t = s ++ u := by
  rw [write?] at h
  split at h
  next b u hb hu =>
    obtain ⟨s, hs, rfl⟩ := Option.map_eq_some_iff.1 h
    exact ⟨b, s, u, hb, hs, hu, rfl⟩
  · simp at h

theorem exists_of_write?_forEach (h : (Form.forEach items body rest).write? H v = some t) :
    ∃ vs s u, v.field? items.word = some (.list vs) ∧
      concat? (vs.map (body.write? H)) = some s ∧ rest.write? H v = some u ∧ t = s ++ u := by
  rw [write?] at h
  split at h
  next vs u hvs hu =>
    obtain ⟨s, hs, rfl⟩ := Option.map_eq_some_iff.1 h
    exact ⟨vs, s, u, hvs, hs, hu, rfl⟩
  · simp at h

end Form

end Write

end DocSnippet.Template
