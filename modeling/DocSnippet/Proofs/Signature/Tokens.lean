import DocSnippet.Definition.Classify
import DocSnippet.Proofs.Source.Layout
import DocSnippet.Proofs.Text.Parts

/-! Parameters between commas. Texts with a comma between any two of them are found again between
the commas, up to the white space around them; a comma behind the last one leaves a blank text more.
A blank text declares nothing, so what the tokens of a signature say depends on the visible texts
only. -/

namespace DocSnippet.Signature

open Text Source Definition

/-! ### Visible texts -/

/-- The texts of a list trimmed, without those that are blank. -/
def visibleTexts (ts : List Text) : List Text := (ts.map trim).filter fun t => !t.isEmpty

section Visible

variable {ts us : List Text}

theorem visibleTexts_append (ts us : List Text) :
    visibleTexts (ts ++ us) = visibleTexts ts ++ visibleTexts us := by
  simp [visibleTexts]

/-- What finds nothing in an empty text does not see the blank texts of a list. -/
theorem filterMap_visibleTexts {β : Type} {f : Text → Option β} (hnil : f [] = none)
    (ts : List Text) : (visibleTexts ts).filterMap f = (ts.map trim).filterMap f := by
  induction ts with
  | nil => rfl
  | cons t ts ih =>
    rw [visibleTexts] at ih ⊢
    cases h : trim t with
    | nil => simpa [h, hnil] using ih
    | cons c r => simp [h, List.filterMap_cons, ih]

theorem filterMap_map_trim {β : Type} {f : Text → Option β} (hnil : f [] = none)
    (h : visibleTexts ts = visibleTexts us) :
    (ts.map trim).filterMap f = (us.map trim).filterMap f := by
  rw [← filterMap_visibleTexts hnil, h, filterMap_visibleTexts hnil]

/-- A property of empty texts that trimming keeps passes between lists with the same visible texts.
-/
theorem forall_of_visibleTexts_eq {P : Text → Prop} (hnil : P []) (htrim : ∀ t, P (trim t) ↔ P t)
    (h : visibleTexts ts = visibleTexts us) (hus : ∀ u ∈ us, P u) : ∀ t ∈ ts, P t := by
  intro t ht
  rw [← htrim]
  by_cases hblank : trim t = []
  · rw [hblank]
    exact hnil
  · have hmem : trim t ∈ visibleTexts ts := by
      simp only [visibleTexts, List.mem_filter, List.mem_map]
      exact ⟨⟨t, ht, rfl⟩, by simpa using hblank⟩
    rw [h] at hmem
    simp only [visibleTexts, List.mem_filter, List.mem_map] at hmem
    obtain ⟨⟨u, hu, hut⟩, -⟩ := hmem
    rw [← hut, htrim]
    exact hus u hu

theorem classify_eq_of_visibleTexts_eq (h : visibleTexts ts = visibleTexts us) (as body : List Text)
    (name : Text) (isClass : Bool) :
    classify (ts.map trim ++ as) body name isClass =
      classify (us.map trim ++ as) body name isClass := by
  have hdecorators := filterMap_map_trim (f := decorator?) rfl h
  have hargs := filterMap_map_trim (f := argument?) rfl h
  have hkwargs := filterMap_map_trim (f := keywordArgument?) rfl h
  have hresult := filterMap_map_trim (f := resultType?) rfl h
  simp only [classify, ← List.head?_filterMap, List.filterMap_append, hdecorators, hargs, hkwargs,
    hresult]

end Visible

/-! ### Parameters between commas -/

theorem visibleTexts_cons {t u : Text} {ts us : List Text} (ht : trim t = trim u)
    (h : visibleTexts ts = visibleTexts us) : visibleTexts (t :: ts) = visibleTexts (u :: us) := by
  rw [visibleTexts, visibleTexts] at h
  simp [visibleTexts, List.filter_cons, ht, h]

/-- Texts with a comma between any two of them are found between the commas. -/
theorem exists_join_of_spells {ps : List Text} {x : Text} (h : Spells (ps.intersperse [',']) x) :
    ∃ ts, ts ≠ [] ∧ x = join [','] ts ∧ visibleTexts ts = visibleTexts ps := by
  induction ps generalizing x with
  | nil =>
    cases h with
    | nil hx =>
      refine ⟨[x], by simp, rfl, ?_⟩
      simp [visibleTexts, trim_eq_nil_iff.2 hx]
  | cons p ps ih =>
    cases ps with
    | nil =>
      cases h with
      | @cons _ a t _ ha ht =>
        cases ht with
        | nil ht =>
          exact ⟨[a ++ t], by simp, rfl,
            visibleTexts_cons ((trim_append_of_space a ht).trans ha) rfl⟩
    | cons q ps =>
      rw [List.intersperse_cons_cons] at h
      cases h with
      | @cons _ a _ _ ha ht =>
        -- the white space before the comma goes to the text in front of it
        obtain ⟨s, u, hs, rfl, hu⟩ := ht.exists_head rfl
        obtain ⟨ts, hne, rfl, hts⟩ := ih hu
        refine ⟨(a ++ s) :: ts, by simp, ?_,
          visibleTexts_cons ((trim_append_of_space a hs).trans ha) hts⟩
        rw [join_cons _ _ hne]
        simp

/-- A comma behind the last text leaves one more text that is blank. -/
theorem exists_join_of_spells_comma {ps : List Text} {x : Text}
    (h : Spells (ps.intersperse [','] ++ [[',']]) x) :
    ∃ ts, ts ≠ [] ∧ x = join [','] ts ∧ visibleTexts ts = visibleTexts ps := by
  obtain ⟨u, s, hs, rfl, hu⟩ := h.exists_last rfl
  obtain ⟨ts, hne, rfl, hts⟩ := exists_join_of_spells hu
  refine ⟨ts ++ [s], by simp, (join_concat _ hne s).symm, ?_⟩
  have hnil : visibleTexts [s] = [] := by simp [visibleTexts, trim_eq_nil_iff.2 hs]
  rw [visibleTexts_append, hnil, List.append_nil, hts]

theorem forall_mem_intersperse {P : Text → Prop} {ps : List Text} {sep : Text}
    (hps : ∀ p ∈ ps, P p) (hsep : P sep) : ∀ p ∈ ps.intersperse sep, P p := by
  induction ps with
  | nil => simp
  | cons p ps ih =>
    cases ps with
    | nil => exact hps
    | cons q ps =>
      intro t ht
      rw [List.intersperse_cons_cons] at ht
      rcases List.mem_cons.1 ht with rfl | ht
      · exact hps t (by simp)
      · rcases List.mem_cons.1 ht with rfl | ht
        · exact hsep
        · exact ih (fun u hu => hps u (by simp [hu])) t ht

theorem spells_join (ps : List Text) : Spells (ps.intersperse [',']) (join [',', ' '] ps) := by
  have hnil : Spells [] [] := .nil (by simp)
  induction ps with
  | nil => exact hnil
  | cons p ps ih =>
    cases ps with
    | nil =>
      have hp : Spells [p] (p ++ []) := .cons rfl hnil
      rwa [List.append_nil] at hp
    | cons q ps =>
      rw [List.intersperse_cons_cons, join_cons _ _ (by simp), List.append_assoc]
      exact .cons rfl (.cons rfl ih)

/-- The parts of joined texts are these texts, so they have the same visible texts. -/
theorem visibleTexts_topParts {ts ps : List Text} (hne : ts ≠ [])
    (h : visibleTexts ts = visibleTexts ps) (hps : ∀ p ∈ ps, IsPart ',' p) :
    visibleTexts (topParts ',' (join [','] ts)) = visibleTexts ps := by
  have hts : ∀ t ∈ ts, IsPart ',' t :=
    forall_of_visibleTexts_eq (by decide) (IsPart.trim_iff (by decide)) h hps
  rw [topParts_join (by decide) (by decide) hne hts, h]

end DocSnippet.Signature
