import DocSnippet.Proofs.Text.Parts

/-! Splitting at a separator. The parts of a text, balanced or not, give it back when they are
joined, none of them can be split again, and the text is balanced exactly if each of its parts is.
Conversely, balanced parts that cannot be split are found again in the text they are joined to,
unless the separator is itself a bracket or a quote, which never cuts. -/

namespace DocSnippet.Text

variable {sep : Char}

/-! ### Unsound scans

A closing bracket that does not fit marks a scan for good and changes nothing else. -/

namespace Nesting

theorem step_mk (opened : List Char) (sound : Bool) (c : Char) :
    step ⟨opened, sound⟩ c =
      ⟨(step ⟨opened, true⟩ c).opened, sound && (step ⟨opened, true⟩ c).sound⟩ := by
  cases opened with
  | nil =>
    simp only [step, bracket]
    split_ifs <;> simp
  | cons o rest =>
    simp only [step, bracket]
    split_ifs <;> simp

theorem run_mk (opened : List Char) (sound : Bool) (t : Text) :
    run ⟨opened, sound⟩ t =
      ⟨(run ⟨opened, true⟩ t).opened, sound && (run ⟨opened, true⟩ t).sound⟩ := by
  induction t generalizing opened sound with
  | nil => simp [run]
  | cons c t ih =>
    rw [run_cons, run_cons, step_mk, ih, ih _ (step ⟨opened, true⟩ c).sound, Bool.and_assoc]

theorem isClosed_run (n : Nesting) (t : Text) :
    (n.run t).isClosed = (n.sound && (run ⟨n.opened, true⟩ t).isClosed) := by
  rw [show n = ⟨n.opened, n.sound⟩ from rfl, run_mk]
  simp only [isClosed]
  exact Bool.and_left_comm _ _ _

end Nesting

theorem topPartsFrom_mk (sep : Char) (opened : List Char) (sound : Bool) (t : Text) :
    topPartsFrom sep ⟨opened, sound⟩ t = topPartsFrom sep ⟨opened, true⟩ t := by
  induction t generalizing opened sound with
  | nil => rfl
  | cons c t ih =>
    have hcuts : Nesting.cuts ⟨opened, sound⟩ sep c = Nesting.cuts ⟨opened, true⟩ sep c := rfl
    have hstep : topPartsFrom sep (Nesting.step ⟨opened, sound⟩ c) t =
        topPartsFrom sep (Nesting.step ⟨opened, true⟩ c) t := by
      rw [Nesting.step_mk, ih, ← ih _ (Nesting.step ⟨opened, true⟩ c).sound]
    rw [topPartsFrom, topPartsFrom, hcuts, hstep, ih opened sound]

/-- Where nothing is open, the parts are those of the text alone. -/
theorem topPartsFrom_of_opened_eq_nil {n : Nesting} (hn : n.opened = []) (t : Text) :
    topPartsFrom sep n t = topParts sep t := by
  obtain ⟨opened, sound⟩ := n
  subst hn
  exact topPartsFrom_mk sep [] sound t

theorem isClosed_run_of_opened_eq_nil {n : Nesting} (hn : n.opened = []) (t : Text) :
    (n.run t).isClosed = (n.isClosed && isBalanced t) := by
  have hclosed : n.isClosed = n.sound := by simp [Nesting.isClosed, hn]
  rw [Nesting.isClosed_run, hn, hclosed]
  rfl

/-! ### Parts cannot be split again -/

/-- The first part is one part in the state in which the scan starts, and every other part is one
from the start; the scan ends closed exactly if it does so at the end of each part. -/
theorem exists_topPartsFrom_eq_cons (sep : Char) (n : Nesting) (t : Text) :
    ∃ p ps, topPartsFrom sep n t = p :: ps ∧ topPartsFrom sep n p = [p] ∧
      (∀ q ∈ ps, topParts sep q = [q]) ∧
      (n.run t).isClosed = ((n.run p).isClosed && ps.all isBalanced) := by
  induction t generalizing n with
  | nil => exact ⟨[], [], rfl, rfl, by simp, by simp⟩
  | cons c t ih =>
    by_cases hc : n.cuts sep c
    · obtain ⟨p, ps, hparts, hp, hps, hclosed⟩ := ih n
      have hn : n.opened = [] := by
        simp only [Nesting.cuts, Bool.and_eq_true, List.isEmpty_iff] at hc
        exact hc.1.1.1
      refine ⟨[], p :: ps, by rw [topPartsFrom, if_pos hc, hparts], rfl, ?_, ?_⟩
      · rw [topPartsFrom_of_opened_eq_nil hn] at hp
        exact List.forall_mem_cons.2 ⟨hp, hps⟩
      · rw [Nesting.run_cons, Nesting.step_of_cuts hc, hclosed, isClosed_run_of_opened_eq_nil hn,
          List.all_cons, Bool.and_assoc]
        rfl
    · obtain ⟨p, ps, hparts, hp, hps, hclosed⟩ := ih (n.step c)
      refine ⟨c :: p, ps, ?_, ?_, hps, by rw [Nesting.run_cons, Nesting.run_cons, hclosed]⟩
      · rw [topPartsFrom, if_neg hc, hparts]
        rfl
      · rw [topPartsFrom, if_neg hc, hp]
        rfl

theorem topParts_of_mem_topParts {t p : Text} (hp : p ∈ topParts sep t) : topParts sep p = [p] := by
  obtain ⟨q, qs, hparts, hq, hqs, -⟩ := exists_topPartsFrom_eq_cons sep .start t
  rw [topParts, hparts] at hp
  rcases List.mem_cons.1 hp with rfl | hp
  · exact hq
  · exact hqs p hp

theorem isBalanced_iff_forall_mem_topParts (sep : Char) (t : Text) :
    isBalanced t ↔ ∀ p ∈ topParts sep t, isBalanced p := by
  obtain ⟨q, qs, hparts, -, -, hclosed⟩ := exists_topPartsFrom_eq_cons sep .start t
  rw [topParts, hparts, isBalanced, hclosed, Bool.and_eq_true, List.all_eq_true,
    List.forall_mem_cons]
  rfl

theorem isPart_iff_split_eq {p : Text} : IsPart sep p ↔ split sep p = ⟨[p], true⟩ := by
  rw [split_eq, Split.mk.injEq]
  exact ⟨fun h => ⟨h.whole, h.balanced⟩, fun h => ⟨h.1, h.2⟩⟩

/-- Splitting cuts every text into parts that cannot be split again, and it is the only way to cut a
text into balanced ones. -/
theorem split_decomposes (sep : Char) :
    (∀ t, (split sep t).parts ≠ [] ∧ join [sep] (split sep t).parts = t ∧
      (∀ p ∈ (split sep t).parts, (split sep p).parts = [p]) ∧
      ((split sep t).balanced ↔ ∀ p ∈ (split sep t).parts, (split sep p).balanced)) ∧
    (¬isOpening sep → ¬isClosing sep → ∀ ps, ps ≠ [] → (∀ p ∈ ps, split sep p = ⟨[p], true⟩) →
      split sep (join [sep] ps) = ⟨ps, true⟩) := by
  refine ⟨fun t => ?_, fun hopen hclose ps hne hps => ?_⟩
  · simp only [split_eq]
    exact ⟨topPartsFrom_ne_nil sep .start t, join_topPartsFrom sep .start t,
      fun p hp => topParts_of_mem_topParts hp, isBalanced_iff_forall_mem_topParts sep t⟩
  · have hpart : ∀ p ∈ ps, IsPart sep p := fun p hp => isPart_iff_split_eq.2 (hps p hp)
    have hjoin := topParts_join hopen hclose hne hpart
    have hbalanced : isBalanced (join [sep] ps) := by
      rw [isBalanced_iff_forall_mem_topParts sep, hjoin]
      exact fun p hp => (hpart p hp).balanced
    rw [split_eq, hjoin, hbalanced]

/-- Separators inside brackets and quotes, a bracket inside a quoted string, and an empty part. -/
theorem split_decomposes_nested :
    let ps := ["a=f(\"x,(\", [1, 2])".toList, [], " b='],'".toList]
    (¬isOpening ',' ∧ ¬isClosing ',' ∧ ps ≠ [] ∧ ∀ p ∈ ps, split ',' p = ⟨[p], true⟩) ∧
      split ',' (join [','] ps) = ⟨ps, true⟩ := by
  intro ps
  have hps : ∀ p ∈ ps, split ',' p = ⟨[p], true⟩ := by decide
  exact ⟨⟨by decide, by decide, by decide, hps⟩,
    (split_decomposes ',').2 (by decide) (by decide) ps (by decide) hps⟩

end DocSnippet.Text
