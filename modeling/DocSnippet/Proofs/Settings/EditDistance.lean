import DocSnippet.Settings.EditDistance
import Mathlib.Order.Bounds.Defs

/-! The edit distance is the length of a shortest edit script. The rows of the program follow the
recurrence of `cost`, read from the ends of the two texts. A script of `cost` edits is built along
this recurrence, and no script is shorter, since a single edit anywhere in a text changes the cost
by at most one. -/

namespace DocSnippet.EditDistance

open Text

/-! ### Edit scripts -/

inductive Edit : Text → Text → Prop
  | insert (s t : Text) (c : Char) : Edit (s ++ t) (s ++ c :: t)
  | delete (s t : Text) (c : Char) : Edit (s ++ c :: t) (s ++ t)
  | replace (s t : Text) (c d : Char) : Edit (s ++ c :: t) (s ++ d :: t)

/-- A script of `n` edits, one after another, that turns the first text into the second. -/
inductive Script : Nat → Text → Text → Prop
  | nil (a : Text) : Script 0 a a
  | cons {n : Nat} {a b c : Text} (h : Edit a b) (hs : Script n b c) : Script (n + 1) a c

namespace Edit

variable {a b : Text}

theorem insertHead (c : Char) (t : Text) : Edit t (c :: t) := .insert [] t c

theorem deleteHead (c : Char) (t : Text) : Edit (c :: t) t := .delete [] t c

theorem replaceHead (c d : Char) (t : Text) : Edit (c :: t) (d :: t) := .replace [] t c d

theorem symm (h : Edit a b) : Edit b a := by
  cases h with
  | insert s t c => exact .delete s t c
  | delete s t c => exact .insert s t c
  | replace s t c d => exact .replace s t d c

theorem behind (x : Char) (h : Edit a b) : Edit (x :: a) (x :: b) := by
  cases h with
  | insert s t c => exact .insert (x :: s) t c
  | delete s t c => exact .delete (x :: s) t c
  | replace s t c d => exact .replace (x :: s) t c d

theorem reverse (h : Edit a b) : Edit a.reverse b.reverse := by
  cases h with
  | insert s t c => simpa using .insert t.reverse s.reverse c
  | delete s t c => simpa using .delete t.reverse s.reverse c
  | replace s t c d => simpa using .replace t.reverse s.reverse c d

end Edit

namespace Script

variable {m n : Nat} {a b c : Text}

theorem single (h : Edit a b) : Script 1 a b := .cons h (.nil b)

theorem append (hab : Script m a b) (hbc : Script n b c) : Script (m + n) a c := by
  induction hab with
  | nil a => rwa [Nat.zero_add]
  | cons h _ ih =>
    rw [Nat.add_right_comm]
    exact .cons h (ih hbc)

theorem symm (h : Script n a b) : Script n b a := by
  induction h with
  | nil a => exact .nil a
  | cons h _ ih => exact ih.append (.single h.symm)

theorem map {f : Text → Text} (hf : ∀ {s t}, Edit s t → Edit (f s) (f t)) (h : Script n a b) :
    Script n (f a) (f b) := by
  induction h with
  | nil a => exact .nil (f a)
  | cons h _ ih => exact .cons (hf h) ih

theorem min (hm : Script m a b) (hn : Script n a b) : Script (min m n) a b := by
  rcases Nat.le_total m n with h | h
  · rwa [Nat.min_eq_left h]
  · rwa [Nat.min_eq_right h]

theorem eq_of_zero (h : Script 0 a b) : a = b := by
  cases h
  rfl

end Script

/-! ### The recurrence -/

/-- The costs of a text with `x` in front, from the costs of the text. -/
def extendCost (x : Char) (cost : Text → Nat) : Text → Nat
  | [] => cost [] + 1
  | y :: b =>
    min (min (cost b + if x = y then 0 else 1) (extendCost x cost b + 1)) (cost (y :: b) + 1)

def cost : Text → Text → Nat
  | [] => List.length
  | x :: a => extendCost x (cost a)

theorem cost_cons_nil (x : Char) (a : Text) : cost (x :: a) [] = cost a [] + 1 := rfl

theorem cost_cons_cons (x y : Char) (a b : Text) :
    cost (x :: a) (y :: b) =
      min (min (cost a b + if x = y then 0 else 1) (cost (x :: a) b + 1)) (cost a (y :: b) + 1) :=
  rfl

theorem script_cost (a b : Text) : Script (cost a b) a b := by
  induction a generalizing b with
  | nil =>
    induction b with
    | nil => exact .nil []
    | cons y b ih => exact .cons (.insertHead y []) (ih.map (.behind y))
  | cons x a iha =>
    have hdelete (b : Text) : Script (cost a b + 1) (x :: a) b := .cons (.deleteHead x a) (iha b)
    induction b with
    | nil => exact hdelete []
    | cons y b ihb =>
      have hreplace : Script (cost a b + if x = y then 0 else 1) (x :: a) (y :: b) := by
        split
        next h => exact h ▸ (iha b).map (.behind x)
        next => exact .cons (.replaceHead x y a) ((iha b).map (.behind y))
      have hinsert : Script (cost (x :: a) b + 1) (x :: a) (y :: b) :=
        ihb.append (.single (.insertHead y b))
      exact .min (.min hreplace hinsert) (hdelete (y :: b))

/-! ### One edit -/

theorem cost_cons_right_le (a : Text) (y : Char) (b : Text) : cost a (y :: b) ≤ cost a b + 1 := by
  cases a with
  | nil => exact Nat.le_refl _
  | cons x a =>
    rw [cost_cons_cons]
    omega

theorem cost_delete_le (x : Char) (a b : Text) : cost (x :: a) b ≤ cost a b + 1 := by
  cases b with
  | nil => exact Nat.le_refl _
  | cons y b => exact Nat.min_le_right _ _

theorem cost_insert_le (x : Char) (a b : Text) : cost a b ≤ cost (x :: a) b + 1 := by
  induction b with
  | nil =>
    rw [cost_cons_nil]
    omega
  | cons y b ih =>
    have hright := cost_cons_right_le a y b
    rw [cost_cons_cons]
    omega

theorem cost_replace_le (x z : Char) (a b : Text) : cost (x :: a) b ≤ cost (z :: a) b + 1 := by
  induction b with
  | nil => exact Nat.le_succ _
  | cons y b ih =>
    rw [cost_cons_cons, cost_cons_cons]
    split <;> split <;> omega

/-- What an edit changes behind a text it changes behind a longer one. -/
theorem cost_append_le {t u : Text} (h : ∀ b, cost t b ≤ cost u b + 1) (s b : Text) :
    cost (s ++ t) b ≤ cost (s ++ u) b + 1 := by
  induction s generalizing b with
  | nil => exact h b
  | cons x s ih =>
    rw [List.cons_append, List.cons_append]
    induction b with
    | nil => exact Nat.succ_le_succ (ih [])
    | cons y b ihb =>
      have hb := ih b
      have hyb := ih (y :: b)
      rw [cost_cons_cons, cost_cons_cons]
      omega

theorem cost_le_of_edit {a b : Text} (h : Edit a b) (c : Text) : cost a c ≤ cost b c + 1 := by
  cases h with
  | insert s t x => exact cost_append_le (cost_insert_le x t) s c
  | delete s t x => exact cost_append_le (cost_delete_le x t) s c
  | replace s t x y => exact cost_append_le (cost_replace_le x y t) s c

theorem cost_self (a : Text) : cost a a = 0 := by
  induction a with
  | nil => rfl
  | cons x a ih => simp [cost_cons_cons, ih]

/-- No script has fewer edits than the cost says. -/
theorem cost_le_of_script {n : Nat} {a b : Text} (h : Script n a b) : cost a b ≤ n := by
  induction h with
  | nil a => exact Nat.le_of_eq (cost_self a)
  | @cons n a b c h _ ih =>
    calc cost a c
        ≤ cost b c + 1 := cost_le_of_edit h c
      _ ≤ n + 1 := Nat.succ_le_succ ih

/-! ### Rows -/

/-- The costs of turning `a` into `p`, into `p` with the first character of a text before it, and so
on up to the whole of the text, in reverse, before `p`. -/
def row (a p : Text) : Text → List Nat
  | [] => [cost a p]
  | c :: b => cost a p :: row a (c :: p) b

theorem row_eq_cons (a p b : Text) : row a p b = cost a p :: (row a p b).tail := by
  cases b <;> rfl

theorem nextRow_row (x : Char) (a p b : Text) :
    nextRow x b (row a p b) (cost (x :: a) p) = (row (x :: a) p b).tail := by
  induction b generalizing p with
  | nil => rfl
  | cons y b ih =>
    have hcell : min (min (cost a p + if x = y then 0 else 1) (cost (x :: a) p + 1))
        (cost a (y :: p) + 1) = cost (x :: a) (y :: p) := rfl
    rw [row, row_eq_cons a (y :: p) b, nextRow, ← row_eq_cons, hcell, ih, ← row_eq_cons, row,
      List.tail_cons]

theorem extendRow_row (x : Char) (a b : Text) : extendRow b (row a [] b) x = row (x :: a) [] b := by
  have hleft : (row a [] b).headD 0 + 1 = cost (x :: a) [] := by
    rw [row_eq_cons, List.headD_cons, cost_cons_nil]
  rw [extendRow, hleft, nextRow_row, ← row_eq_cons]

theorem foldl_extendRow (a s b : Text) :
    a.foldl (extendRow b) (row s [] b) = row (a.reverse ++ s) [] b := by
  induction a generalizing s with
  | nil => rfl
  | cons x a ih =>
    rw [List.foldl_cons, extendRow_row, ih, List.reverse_cons, List.append_assoc,
      List.singleton_append]

theorem row_nil (p b : Text) : row [] p b = List.range' p.length (b.length + 1) := by
  induction b generalizing p with
  | nil => rfl
  | cons c b ih =>
    rw [row, ih, List.length_cons, List.length_cons, List.range'_succ]
    rfl

theorem getLastD_row (a p b : Text) : (row a p b).getLastD 0 = cost a (b.reverse ++ p) := by
  induction b generalizing p with
  | nil => rfl
  | cons c b ih =>
    rw [List.reverse_cons, List.append_assoc, List.singleton_append, ← ih, row, row_eq_cons]
    simp

/-- The rows read both texts from their first character on, so the recurrence is read from their
last one. -/
theorem distance_eq_cost (a b : Text) : distance a b = cost a.reverse b.reverse := by
  have hfirst : List.range (b.length + 1) = row [] [] b := by
    rw [row_nil, List.length_nil, List.range_eq_range']
  rw [distance, lastRow, hfirst, foldl_extendRow, List.append_nil, getLastD_row, List.append_nil]

/-! ### The distance -/

variable {n : Nat} {a b : Text}

theorem script_distance (a b : Text) : Script (distance a b) a b := by
  have h := (script_cost a.reverse b.reverse).map .reverse
  rwa [List.reverse_reverse, List.reverse_reverse, ← distance_eq_cost] at h

theorem distance_le_of_script (h : Script n a b) : distance a b ≤ n := by
  rw [distance_eq_cost]
  exact cost_le_of_script (h.map .reverse)

/-- The distance of two texts is the least number of edits in a script that turns one into the
other. So only equal texts have no distance, it is the same both ways, and no detour is shorter. -/
theorem distance_isLeast (a b : Text) :
    IsLeast {n | Script n a b} (distance a b) ∧ (distance a b = 0 ↔ a = b) ∧
      distance b a = distance a b ∧ ∀ c, distance a c ≤ distance a b + distance b c := by
  refine ⟨⟨script_distance a b, fun n hn => distance_le_of_script hn⟩, ⟨fun h => ?_, ?_⟩, ?_, ?_⟩
  · exact (h ▸ script_distance a b).eq_of_zero
  · rintro rfl
    exact Nat.le_zero.1 (distance_le_of_script (.nil a))
  · have hle (s t : Text) : distance t s ≤ distance s t :=
      distance_le_of_script (script_distance s t).symm
    exact Nat.le_antisymm (hle a b) (hle b a)
  · exact fun c => distance_le_of_script ((script_distance a b).append (script_distance b c))

/-- Two characters that change places are two edits away. -/
example : distance "styel".toList "style".toList = 2 := by decide

end DocSnippet.EditDistance
