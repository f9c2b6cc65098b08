import DocSnippet.Proofs.Source.Layout
import DocSnippet.Proofs.Text.Parts

/-! String literals in the two scans. The scan for comments and the scan for separators delimit
literals on their own: one knows backslashes and no brackets, the other brackets and no backslashes.
They are in step, both outside literals or both in a literal of the same quote, up to the first
quote that a backslash escapes inside its own literal. So a separator cuts outside the literals of a
text that has no such quote; behind an escaped quote it can cut inside one. -/

namespace DocSnippet.Source

open Text

/-- Whether a literal holds its own quote behind a backslash. -/
def escapesQuote : Quoting → Text → Bool
  | _, [] => false
  | s, c :: t => s == .escaped c || escapesQuote (s.step c) t

theorem escapesQuote_append (s : Quoting) (t u : Text) :
    escapesQuote s (t ++ u) = (escapesQuote s t || escapesQuote (t.foldl Quoting.step s) u) := by
  induction t generalizing s with
  | nil => simp [escapesQuote]
  | cons c t ih => simp [escapesQuote, ih, Bool.or_assoc]

/-- Both scans stand outside literals, or both in a literal of the same quote. Under the quote of a
literal only brackets are open. -/
inductive InStep : Nesting → Quoting → Prop
  | code {opened : List Char} {sound : Bool} (h : ∀ o ∈ opened, ¬isQuote o) :
      InStep ⟨opened, sound⟩ .code
  | literal {q : Char} {rest : List Char} {sound : Bool} (hq : isQuote q)
      (h : ∀ o ∈ rest, ¬isQuote o) : InStep ⟨q :: rest, sound⟩ (.literal q)
  | escaped {q : Char} {rest : List Char} {sound : Bool} (hq : isQuote q)
      (h : ∀ o ∈ rest, ¬isQuote o) : InStep ⟨q :: rest, sound⟩ (.escaped q)

namespace InStep

variable {n : Nesting} {s : Quoting}

theorem step_of_not_quoted {opened : List Char} {sound : Bool} (h : ∀ o ∈ opened, ¬isQuote o)
    (c : Char) : Nesting.step ⟨opened, sound⟩ c = Nesting.bracket ⟨opened, sound⟩ c := by
  cases opened with
  | nil => rfl
  | cons o rest => simp [Nesting.step, h o]

theorem bracket {opened : List Char} {sound : Bool} (h : ∀ o ∈ opened, ¬isQuote o) (c : Char) :
    InStep (Nesting.bracket ⟨opened, sound⟩ c) (Quoting.step .code c) := by
  by_cases hq : isQuote c
  · have hopen : isOpening c := by simp [isOpening, hq]
    rw [Nesting.bracket, if_pos hopen, Quoting.step, if_pos hq]
    exact .literal hq h
  · rw [Quoting.step, if_neg hq, Nesting.bracket]
    split
    · refine .code fun o ho => ?_
      rcases List.mem_cons.1 ho with rfl | ho
      · exact hq
      · exact h o ho
    · split
      · cases opened with
        | nil => exact .code h
        | cons o rest =>
          dsimp only
          split
          · exact .code fun p hp => h p (List.mem_cons_of_mem o hp)
          · exact .code h
      · exact .code h

/-- One character keeps the scans in step, unless it is a quote escaped in its own literal. -/
theorem step (h : InStep n s) {c : Char} (hc : s ≠ .escaped c) : InStep (n.step c) (s.step c) := by
  cases h with
  | code h =>
    rw [step_of_not_quoted h]
    exact bracket h c
  | @literal q rest sound hq h =>
    by_cases hcq : c = q
    · have hback : c ≠ '\\' := ne_of_isQuote (hcq ▸ hq) rfl
      subst hcq
      simp only [Nesting.step, hq, if_true, Quoting.step, hback, if_false]
      exact .code h
    · simp only [Nesting.step, hq, if_true, hcq, if_false, Quoting.step]
      split
      · exact .escaped hq h
      · exact .literal hq h
  | @escaped q rest sound hq h =>
    have hcq : c ≠ q := by
      rintro rfl
      exact hc rfl
    simp only [Nesting.step, hq, if_true, hcq, if_false, Quoting.step]
    exact .literal hq h

/-- A quote escaped in its own literal gets the scans out of step. -/
theorem not_step {q : Char} (h : InStep n (.escaped q)) :
    ¬InStep (n.step q) (Quoting.step (.escaped q) q) := by
  cases h with
  | @escaped _ rest sound hq h =>
    simp only [Nesting.step, hq, if_true, Quoting.step]
    intro hstep
    cases hstep with
    | literal _ _ => exact h q (by simp) hq

theorem run (h : InStep n s) {t : Text} (ht : escapesQuote s t = false) :
    InStep (n.run t) (t.foldl Quoting.step s) := by
  induction t generalizing n s with
  | nil => exact h
  | cons c t ih =>
    simp only [escapesQuote, Bool.or_eq_false_iff, beq_eq_false_iff_ne] at ht
    exact ih (h.step ht.1) ht.2

/-- The scans are in step behind every beginning of a text exactly if no literal of it escapes its
own quote. -/
theorem forall_run_iff (h : InStep n s) {t : Text} :
    (∀ a b, t = a ++ b → InStep (n.run a) (a.foldl Quoting.step s)) ↔
      escapesQuote s t = false := by
  constructor
  · intro hall
    induction t generalizing n s with
    | nil => rfl
    | cons c t ih =>
      have hc : s ≠ .escaped c := by
        rintro rfl
        exact h.not_step (hall [c] t rfl)
      have ht := ih (h.step hc) fun a b hab => hall (c :: a) b (by rw [hab]; rfl)
      simp [escapesQuote, hc, ht]
  · rintro ht a b rfl
    rw [escapesQuote_append, Bool.or_eq_false_iff] at ht
    exact h.run ht.1

theorem eq_code (h : InStep n s) (hn : n.opened = []) : s = .code := by
  cases h with
  | code => rfl
  | literal => simp at hn
  | escaped => simp at hn

end InStep

/-- A separator cuts outside the literals of a text in which none escapes its own quote: a comment
could start at every cut. -/
theorem cuts_outside_literals (sep : Char) {t : Text} (hsign : '#' ∉ t)
    (hescape : escapesQuote .code t = false) :
    ∀ j < (topParts sep t).length,
      let u := join [sep] ((topParts sep t).take j)
      stripComment (u ++ ['#']) = u := by
  intro j hj
  cases j with
  | zero => rfl
  | succ j =>
    obtain ⟨u, r, hu, ht, hcut⟩ := exists_cut hj
    have hstart : InStep .start .code := .code (by simp)
    have hstep := hstart.forall_run_iff.2 hescape u (sep :: r) ht
    have hclosed : (Nesting.start.run u).opened = [] := by
      simp only [Nesting.cuts, Bool.and_eq_true, List.isEmpty_iff] at hcut
      exact hcut.1.1.1
    have hu' : stripCommentFrom .code u = u :=
      stripCommentFrom_of_notMem (fun hmem => hsign (by simp [ht, hmem])) .code
    dsimp only
    rw [topParts, hu, stripComment, stripCommentFrom_append hu', hstep.eq_code hclosed]
    simp [stripCommentFrom]

/-- Escapes alone do no harm: the other quote and the backslash itself may be escaped. -/
theorem cuts_outside_literals_escapes :
    let t := "a=f(\"\\'\", [1, 'x, y']), b='\\\\', c".toList
    '#' ∉ t ∧ escapesQuote .code t = false ∧
      topParts ',' t =
        ["a=f(\"\\'\", [1, 'x, y'])".toList, " b='\\\\'".toList, " c".toList] ∧
      ∀ j < (topParts ',' t).length,
        let u := join [','] ((topParts ',' t).take j)
        stripComment (u ++ ['#']) = u :=
  ⟨by decide, by decide, by decide, cuts_outside_literals ',' (by decide) (by decide)⟩

/-- Behind a quote that is escaped in its own literal a separator cuts inside a literal. -/
theorem cuts_inside_literal :
    let t := "sep='\\',', b=1".toList
    '#' ∉ t ∧ 1 < (topParts ',' t).length ∧
      let u := join [','] ((topParts ',' t).take 1)
      u = "sep='\\'".toList ∧ stripComment (u ++ ['#']) ≠ u := by
  decide

end DocSnippet.Source
