import DocSnippet.Proofs.Docstring.Marker
import DocSnippet.Proofs.Docstring.Numpy

/-! How many placeholders a form writes. There is one rule for each kind of line and block: text and
names add no marker, a placeholder adds one, a loop adds those of its body for each item, and a
condition that fails only where its body has nothing to number changes nothing. A name must be
followed by text or by the end of the line, so that what it stands for cannot complete a marker with
the next piece. -/

namespace DocSnippet

open Text Template

namespace Docstring

/-! ### Rules -/

structure IsSpan (n : Nat) (t : Text) : Prop where
  marked : IsMarked n t
  endsPlain : EndsPlain t

namespace IsSpan

variable {m n : Nat} {s t : Text}

theorem append (hs : IsSpan m s) (ht : IsSpan n t) : IsSpan (m + n) (s ++ t) :=
  ⟨hs.marked.append ht.marked hs.endsPlain, hs.endsPlain.append ht.endsPlain⟩

theorem of_notMem (h : '@' ∉ t) : IsSpan 0 t :=
  ⟨.plain fun ht => h (ht.subset (by simp [marker])), .of_notMem h⟩

theorem flatMap {α : Type} {f : α → Text} {xs : List α} (h : ∀ x ∈ xs, IsSpan n (f x)) :
    IsSpan (xs.length * n) (xs.flatMap f) := by
  induction xs with
  | nil => simpa using of_notMem (by simp)
  | cons x xs ih =>
    rw [List.length_cons, Nat.succ_mul, Nat.add_comm]
    exact (h x (by simp)).append (ih fun y hy => h y (by simp [hy]))

theorem placeholder {content : Text} (h : IsUnmarked content) :
    IsSpan 1 (Docstring.placeholder content) := by
  refine ⟨.placeholder h, ?_⟩
  rw [EndsPlain, Docstring.placeholder, List.getLast?_concat]
  decide

/-- The text of a name cannot complete a marker with a text behind it. -/
theorem of_isUnmarked {t u : Text} (ht : IsUnmarked t) (hu : '@' ∉ u) (hne : u ≠ []) :
    IsSpan 0 (t ++ u) := by
  have hhead : u.head? ≠ some '@' := fun hc => hu (List.mem_of_mem_head? hc)
  have hplain := IsSpan.of_notMem hu
  refine ⟨.plain (ht.append ?_ hhead), ?_⟩
  · cases hplain.marked with
    | plain hu => exact hu
  · rw [EndsPlain, List.getLast?_append_of_ne_nil _ hne]
    exact hplain.endsPlain

end IsSpan

section Rules

variable (display : Value → Text) (clean : Prop) (v : Value)

/-- For `v` a form writes a text. It has `n` markers if the texts that it is made from are `clean`.
-/
def Writes (F : Form) (n : Nat) : Prop :=
  ∃ t, F.write? (helpers display) v = some t ∧ (clean → IsSpan n t)

/-- For `v` the pieces of a line write a text. With the line feed behind it, it has `n` markers if
the texts that it is made from are `clean`. -/
def WritesLine (pieces : List Inline) (n : Nat) : Prop :=
  ∃ t, concat? (pieces.map fun i => i.write? (helpers display) v) = some t ∧
    (clean → IsSpan n (t ++ ['\n']))

/-- A name stands for a text, and for one without a marker if the texts are `clean`. -/
def Shows (name : Name) : Prop :=
  ∃ t, name.write? (helpers display) v = some t ∧ (clean → IsUnmarked t)

end Rules

variable {display : Value → Text} {clean : Prop} {v : Value} {name : Name} {m n : Nat}

namespace WritesLine

variable {pieces : List Inline}

theorem nil : WritesLine display clean v [] 0 := ⟨[], rfl, fun _ => .of_notMem (by simp)⟩

theorem cons {i : Inline}
    (hi : ∃ t, i.write? (helpers display) v = some t ∧ (clean → IsSpan m t))
    (h : WritesLine display clean v pieces n) :
    WritesLine display clean v (i :: pieces) (n + m) := by
  obtain ⟨t, ht, htspan⟩ := hi
  obtain ⟨u, hu, huspan⟩ := h
  refine ⟨t ++ u, by simp only [List.map_cons, ht, concat?, hu, Option.map_some], fun hclean => ?_⟩
  rw [Nat.add_comm, List.append_assoc]
  exact (htspan hclean).append (huspan hclean)

theorem text {t : Text} {h : t.all isLiteral} (ht : t.contains '@' = false)
    (hpieces : WritesLine display clean v pieces n) :
    WritesLine display clean v (.text t h :: pieces) n :=
  cons (m := 0) ⟨t, rfl, fun _ => .of_notMem (by simpa using ht)⟩ hpieces

theorem slot (hname : Shows display clean v name) (h : WritesLine display clean v pieces n) :
    WritesLine display clean v (Cell.slot name :: pieces) (n + 1) := by
  obtain ⟨t, ht, hclean⟩ := hname
  exact cons ⟨placeholder t, Cell.write?_slot ht, fun h => .placeholder (hclean h)⟩ h

theorem description (h : WritesLine display clean v pieces n) :
    WritesLine display clean v (Cell.description :: pieces) (n + 1) :=
  cons ⟨_, Cell.write?_description, fun _ => .placeholder (by decide)⟩ h

theorem value {t : Text} {h : t.all isLiteral} (hname : Shows display clean v name)
    (ht : (t.isEmpty || t.contains '@') = false) (hpieces : WritesLine display clean v pieces n) :
    WritesLine display clean v (.value name :: .text t h :: pieces) n := by
  obtain ⟨hne, hat⟩ : t ≠ [] ∧ '@' ∉ t := by simpa using ht
  obtain ⟨w, hw, hclean⟩ := hname
  obtain ⟨u, hu, huspan⟩ := hpieces
  have hvalue : (Inline.value name).write? (helpers display) v = some w := hw
  refine ⟨w ++ (t ++ u), ?_, fun h => ?_⟩
  · simp only [List.map_cons, hvalue, Cell.write?_text, concat?, hu, Option.map_some]
  · have hall := (IsSpan.of_isUnmarked (hclean h) hat hne).append (huspan h)
    rwa [Nat.zero_add, List.append_assoc, ← List.append_assoc t, ← List.append_assoc] at hall

theorem last (hname : Shows display clean v name) :
    WritesLine display clean v [.value name] 0 := by
  obtain ⟨w, hw, hclean⟩ := hname
  have hvalue : (Inline.value name).write? (helpers display) v = some w := hw
  refine ⟨w ++ [], by simp only [List.map_cons, List.map_nil, hvalue, concat?, Option.map_some], ?_⟩
  rw [List.append_nil]
  exact fun h => IsSpan.of_isUnmarked (hclean h) (by decide) (by decide)

theorem summary {t : Text} (ht : Names.summary.write? (helpers display) v = some t)
    (hspan : clean → IsSpan 1 t) : WritesLine display clean v [.value Names.summary] 1 := by
  have hsummary : (Inline.value Names.summary).write? (helpers display) v = some t := ht
  exact cons ⟨t, hsummary, hspan⟩ nil

theorem extendedSummary : WritesLine display clean v [.value Names.extendedSummary] 1 :=
  cons ⟨placeholder "_extended_summary_".toList, rfl, fun _ => .placeholder (by decide)⟩ nil

theorem underline {t : Text} (ht : v.field? Names.title.word = some (.text t)) :
    WritesLine display clean v [.call Names.underline Names.title] 0 := by
  refine cons (m := 0) ⟨List.replicate t.length '-', ?_, fun _ => .of_notMem ?_⟩ nil
  · rw [Inline.write?, ht]
    rfl
  · simp [List.mem_replicate]

end WritesLine

namespace Writes

variable {rest : Form}

theorem empty : Writes display clean v .empty 0 := ⟨[], rfl, fun _ => .of_notMem (by simp)⟩

theorem line {pieces : List Inline} (hpieces : WritesLine display clean v pieces m)
    (hrest : Writes display clean v rest n) :
    Writes display clean v (.line pieces rest) (n + m) := by
  obtain ⟨t, ht, htspan⟩ := hpieces
  obtain ⟨u, hu, huspan⟩ := hrest
  refine ⟨t ++ '\n' :: u, write?_line ht hu, fun hclean => ?_⟩
  have hall := (htspan hclean).append (huspan hclean)
  rwa [Nat.add_comm, List.append_assoc] at hall

/-- Both ways of a condition may write the same number of markers. -/
theorem choose {b : Bool} {body inverse : Form} (hb : v.field? name.word = some (.bool b))
    (hbody : b = true → Writes display clean v body m)
    (hinverse : b = false → Writes display clean v inverse m)
    (hrest : Writes display clean v rest n) :
    Writes display clean v (.choose name body inverse rest) (n + m) := by
  obtain ⟨u, hu, huspan⟩ := hrest
  obtain ⟨t, ht, htspan⟩ : ∃ t, (if b then body.write? (helpers display) v
      else inverse.write? (helpers display) v) = some t ∧ (clean → IsSpan m t) := by
    cases b with
    | true => exact hbody rfl
    | false => exact hinverse rfl
  refine ⟨t ++ u, by simp only [Form.write?, hb, hu, ht, Option.map_some], fun hclean => ?_⟩
  rw [Nat.add_comm]
  exact (htspan hclean).append (huspan hclean)

/-- A condition that fails only if its body has no markers to write does not change their number. -/
theorem guarded {b : Bool} {heading : List (List Inline)} {body : Form}
    (hb : v.field? name.word = some (.bool b)) (hzero : b = false → m = 0)
    (hbody : Writes display clean v (rows ([] :: heading) body) m)
    (hrest : Writes display clean v rest n) :
    Writes display clean v (guarded name heading body rest) (n + m) :=
  choose hb (fun _ => hbody) (fun h => hzero h ▸ empty) hrest

/-- A loop writes the markers of its body once for each item. -/
theorem entries {α : Type} {item : α → Value} {xs : List α} {entry : List (List Inline)}
    (hitems : v.field? name.word = some (.list (xs.map item)))
    (hentry : ∀ x ∈ xs, Writes display clean (item x) (rows entry .empty) m)
    (hrest : Writes display clean v rest n) :
    Writes display clean v (entries name entry rest) (n + xs.length * m) := by
  obtain ⟨u, hu, huspan⟩ := hrest
  let f : α → Text := fun x => ((rows entry .empty).write? (helpers display) (item x)).getD []
  have hf : ∀ x ∈ xs, (rows entry .empty).write? (helpers display) (item x) = some (f x) ∧
      (clean → IsSpan m (f x)) := by
    intro x hx
    obtain ⟨t, ht, htspan⟩ := hentry x hx
    simpa only [f, ht, Option.getD_some, true_and] using htspan
  refine ⟨xs.flatMap f ++ u, write?_entries hitems (fun x hx => (hf x hx).1) hu, fun hclean => ?_⟩
  rw [Nat.add_comm]
  exact (IsSpan.flatMap fun x hx => (hf x hx).2 hclean).append (huspan hclean)

theorem congr {F : Form} (h : Writes display clean v F m) (e : m = n) :
    Writes display clean v F n := e ▸ h

theorem preamble {t : Text} (ht : Names.summary.write? (helpers display) v = some t)
    (hspan : clean → IsSpan 1 t) (hrest : Writes display clean v rest n) :
    Writes display clean v (preamble rest) (n + 2) :=
  .congr (.line (.summary ht hspan) <| .line .nil <| .line .extendedSummary hrest) rfl

end Writes

/-! ### Fields -/

namespace Shows

variable {a : Argument} {k : KeywordArgument}

theorem argument_var (h : clean → ∀ t ∈ a.texts, IsUnmarked t) :
    Shows display clean (Fields.argumentValue a) Names.var :=
  ⟨a.name, Fields.argumentValue_shown?_var a,
    fun hclean => h hclean a.name (by simp [Argument.texts])⟩

theorem argument_type (h : clean → ∀ t ∈ a.texts, IsUnmarked t) :
    Shows display clean (Fields.argumentValue a) Names.type :=
  ⟨_, Fields.argumentValue_shown?_type a, fun hclean => getD_of_forall (by decide) fun t ht =>
    h hclean t (by simp [Argument.texts, Option.mem_def.1 ht])⟩

theorem keywordArgument_var (h : clean → ∀ t ∈ k.texts, IsUnmarked t) :
    Shows display clean (Fields.keywordArgumentValue k) Names.var :=
  ⟨k.name, Fields.keywordArgumentValue_shown?_var k,
    fun hclean => h hclean k.name (by simp [KeywordArgument.texts])⟩

theorem keywordArgument_default (h : clean → ∀ t ∈ k.texts, IsUnmarked t) :
    Shows display clean (Fields.keywordArgumentValue k) Names.default :=
  ⟨k.default, Fields.keywordArgumentValue_shown?_default k,
    fun hclean => h hclean k.default (by simp [KeywordArgument.texts])⟩

theorem keywordArgument_type (h : clean → ∀ t ∈ k.texts, IsUnmarked t) :
    Shows display clean (Fields.keywordArgumentValue k) Names.type :=
  ⟨_, Fields.keywordArgumentValue_shown?_type k, fun hclean =>
    getD_of_forall (by decide) fun t ht =>
      h hclean t (by simp [KeywordArgument.texts, Option.mem_def.1 ht])⟩

theorem product_type {p : Product} (h : clean → ∀ t ∈ p.texts, IsUnmarked t) :
    Shows display clean (Fields.productValue p) Names.type :=
  ⟨_, Fields.productValue_shown?_type p, fun hclean => getD_of_forall (by decide) fun t ht =>
    h hclean t (by simpa [Product.texts] using ht)⟩

theorem raise_type {type : Text} (h : clean → IsUnmarked type) :
    Shows display clean (Fields.raiseValue type) Names.type :=
  ⟨type, Fields.raiseValue_shown?_type type, h⟩

end Shows

namespace Fields

/-- Every list that a condition guards is empty where the condition fails, and the output is what
is yielded or else what is returned. -/
structure Consistent (f : Fields) : Prop where
  parameters : f.parametersExist = false → f.args = [] ∧ f.kwargs = []
  args : f.argsExist = false → f.args = []
  kwargs : f.kwargsExist = false → f.kwargs = []
  raises : f.raisesExist = false → f.raises = []
  output : f.outputExist = false → f.output = []
  yields : f.yieldsExist = true → f.yields = f.output
  returns : f.yieldsExist = false → f.returns = f.output

theorem consistent_ofDefinition (d : Definition) (guess includeName : Bool) :
    (ofDefinition d guess includeName).Consistent := by
  constructor <;> simp only [ofDefinition, Bool.or_eq_false_iff, Bool.not_eq_false',
    List.isEmpty_iff, imp_self]
  · intro h
    rw [if_pos h]
  · intro h
    rw [h]
    rfl

structure Unmarked (clean : Prop) (f : Fields) : Prop where
  texts : clean → ∀ t ∈ f.texts, IsUnmarked t
  title : IsUnmarked f.outputTitle
  summary : clean → IsSpan 1 f.summary

namespace Unmarked

variable {clean : Prop} {f : Fields} (hf : f.Unmarked clean)

include hf

theorem args : ∀ a ∈ f.args, clean → ∀ t ∈ a.texts, IsUnmarked t :=
  fun _ ha hclean t ht => hf.texts hclean t (mem_texts_of_mem_args ha ht)

theorem kwargs : ∀ k ∈ f.kwargs, clean → ∀ t ∈ k.texts, IsUnmarked t :=
  fun _ hk hclean t ht => hf.texts hclean t (mem_texts_of_mem_kwargs hk ht)

theorem output : ∀ p ∈ f.output, clean → ∀ t ∈ p.texts, IsUnmarked t :=
  fun _ hp hclean t ht => hf.texts hclean t (mem_texts_of_mem_output hp ht)

theorem raises : ∀ t ∈ f.raises, clean → IsUnmarked t :=
  fun t ht hclean => hf.texts hclean t (mem_texts_of_mem_raises ht)

theorem shows_title : Shows display clean f.toValue Names.title := ⟨_, rfl, fun _ => hf.title⟩

end Unmarked

end Fields

end Docstring

end DocSnippet
