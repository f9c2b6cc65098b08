import DocSnippet.Proofs.Template.Form

/-! What is documented of engines, told for templates that are forms. A helper or a field stands for
its name, a helper around a value is given what the value writes, a condition chooses between two
forms, a loop puts one item after another in the place of the value, and the line of a tag that
stands alone is left out. An engine that keeps to this fills in every form. -/

namespace DocSnippet.Template

open Text

/-! ### The laws -/

namespace Engine

section Laws

variable (E : Engine) (H : Helpers)

/-- The engine reads the template of a form, and what it writes for `v` is `t`. -/
def Fills (F : Form) (v : Value) (t : Text) : Prop :=
  ∃ p, E.read F.source = .ok p ∧ E.write H p v = .ok t

/-- A piece writes `t` where it is alone on a line. -/
def Shows (v : Value) (i : Inline) (t : Text) : Prop := E.Fills H (.line [i] .empty) v (t ++ ['\n'])

structure Documented : Prop where
  text : ∀ (v : Value) (t : Text) (h : t.all isLiteral), E.Shows H v (.text t h) t
  value : ∀ (v : Value) (n : Name) (t : Text), H.lookup n.word = none → v.shown? n.word = some t →
    E.Shows H v (.value n) t
  /-- A name alone calls the helper of that name. -/
  helper : ∀ (v : Value) (n : Name) f t, H.lookup n.word = some (.free f) → f [] none = .ok t →
    E.Shows H v (.value n) t
  call : ∀ (v : Value) (helper n : Name) operand f t,
    H.lookup helper.word = some (.ofText operand f) → v.field? n.word = some (.text t) →
    E.Shows H v (.call helper n) (f t)
  wrap : ∀ (v : Value) (helper n : Name) f t u, H.lookup helper.word = some (.free f) →
    E.Shows H v (.value n) t → f [] (some (.ok t)) = .ok u → E.Shows H v (.wrap helper n) u
  empty : ∀ v : Value, E.Fills H .empty v []
  emptyLine : ∀ (v : Value) rest t, E.Fills H rest v t → E.Fills H (.line [] rest) v ('\n' :: t)
  piece : ∀ (v : Value) i pieces rest t u, E.Shows H v i t → E.Fills H (.line pieces rest) v u →
    E.Fills H (.line (i :: pieces) rest) v (t ++ u)
  choose : ∀ (v : Value) (condition : Name) body inverse rest b t u,
    v.field? condition.word = some (.bool b) → E.Fills H (if b then body else inverse) v t →
    E.Fills H rest v u → E.Fills H (.choose condition body inverse rest) v (t ++ u)
  forEach : ∀ (v : Value) (items : Name) body rest vs ts u,
    v.field? items.word = some (.list vs) → List.Forall₂ (E.Fills H body) vs ts →
    E.Fills H rest v u → E.Fills H (.forEach items body rest) v (ts.flatten ++ u)

end Laws

/-! ### Forms -/

theorem ok_of_toOption {e : Except Text Text} {t : Text} (h : e.toOption = some t) : e = .ok t := by
  cases e with
  | error _ => simp [Except.toOption] at h
  | ok u => simpa [Except.toOption] using h

variable {E : Engine} {H : Helpers} {F : Form} {v : Value} {t u : Text}

namespace Documented

variable (hE : E.Documented H)

include hE

theorem shows_name {n : Name} (h : n.write? H v = some t) : E.Shows H v (.value n) t := by
  rw [Name.write?] at h
  split at h
  next f hf => exact hE.helper v n f t hf (ok_of_toOption h)
  · simp at h
  next hnone => exact hE.value v n t hnone h

theorem shows {i : Inline} (h : i.write? H v = some t) : E.Shows H v i t := by
  cases i with
  | text s hs =>
    obtain rfl := Option.some.inj h
    exact hE.text v s hs
  | value n => exact hE.shows_name h
  | call helper n =>
    rw [Inline.write?] at h
    split at h
    next operand f s hf hs => exact Option.some.inj h ▸ hE.call v helper n operand f s hf hs
    · simp at h
  | wrap helper n =>
    rw [Inline.write?] at h
    split at h
    next f s hf hs => exact hE.wrap v helper n f s t hf (hE.shows_name hs) (ok_of_toOption h)
    · simp at h

theorem fills_line {pieces : List Inline} {rest : Form} {v : Value} {t u : Text}
    (hpieces : concat? (pieces.map fun i => i.write? H v) = some t) (hrest : E.Fills H rest v u) :
    E.Fills H (.line pieces rest) v (t ++ '\n' :: u) := by
  obtain ⟨ts, hts, rfl⟩ := exists_of_concat? hpieces
  clear hpieces
  induction hts with
  | nil => exact hE.emptyLine v rest u hrest
  | cons hi _ ih =>
    rw [List.flatten_cons, List.append_assoc]
    exact hE.piece v _ _ rest _ _ (hE.shows hi) ih

/-- What a form writes is what an engine writes that keeps to the laws. -/
theorem fills (h : F.write? H v = some t) : E.Fills H F v t := by
  induction F generalizing v t with
  | empty =>
    obtain rfl := Option.some.inj h
    exact hE.empty v
  | line pieces rest ih =>
    obtain ⟨s, u, hs, hu, rfl⟩ := Form.exists_of_write?_line h
    exact hE.fills_line hs (ih hu)
  | choose condition body inverse rest ihbody ihinverse ih =>
    obtain ⟨b, s, u, hb, hs, hu, rfl⟩ := Form.exists_of_write?_choose h
    refine hE.choose v condition body inverse rest b s u hb ?_ (ih hu)
    cases b with
    | true => exact ihbody hs
    | false => exact ihinverse hs
  | forEach items body rest ihbody ih =>
    obtain ⟨vs, s, u, hvs, hs, hu, rfl⟩ := Form.exists_of_write?_forEach h
    obtain ⟨ts, hts, rfl⟩ := exists_of_concat? hs
    exact hE.forEach v items body rest vs ts u hvs (hts.imp fun _ _ => ihbody) (ih hu)

end Documented

end Engine

end DocSnippet.Template
