import DocSnippet.Settings.Toml.Document
import Mathlib.Data.List.Nodup
import Mathlib.Data.List.Sort

/-! The keys of a table that was read from a settings file. No path is declared twice while the file
is read, so every key at the top has one value, and sorting the pairs puts the keys in strictly
ascending order. -/

namespace DocSnippet.Toml

open Text

/-- The keys of a table are in ascending order, and each of them has one value. -/
def IsAscending (table : Table) : Prop := (table.map Prod.fst).Pairwise (· < ·)

/-! ### The order of keys -/

theorem keyLe_iff {s t : Text} : keyLe s t ↔ ¬t < s := by
  fun_induction keyLe s t with
  | case1 t => simp
  | case2 => simp
  | case3 a s b t hab ih =>
    rw [ih, List.cons_lt_cons_iff, Char.toNat_inj.1 hab]
    simp
  | case4 a s b t hab =>
    have hne : b ≠ a := fun h => hab (congrArg Char.toNat h.symm)
    have hlt : b < a ↔ b.toNat < a.toNat := by
      rw [Char.lt_def, UInt32.lt_iff_toNat_lt]
      rfl
    rw [List.cons_lt_cons_iff, Nat.blt_eq, hlt]
    simp only [hne, false_and, or_false]
    omega

def PairLe (p q : Text × Value) : Prop := keyLe p.1 q.1

instance : DecidableRel PairLe := fun p q => inferInstanceAs (Decidable (keyLe p.1 q.1))

instance : Std.Total PairLe where
  total p q := by
    simp only [PairLe, keyLe_iff]
    exact (List.le_total p.1 q.1).imp List.not_lt.2 List.not_lt.2

instance : IsTrans (Text × Value) PairLe where
  trans p q r := by
    simp only [PairLe, keyLe_iff]
    exact fun hpq hqr => List.not_lt.2 (List.le_trans (List.not_lt.1 hpq) (List.not_lt.1 hqr))

theorem insertPair_eq (p : Text × Value) (ps : Table) :
    insertPair p ps = ps.orderedInsert PairLe p := by
  induction ps with
  | nil => rfl
  | cons q ps ih =>
    rw [insertPair, List.orderedInsert_cons, ih]
    rfl

theorem sortPairs_eq (ps : List (Text × Value)) : sortPairs ps = ps.insertionSort PairLe := by
  induction ps with
  | nil => rfl
  | cons p ps ih =>
    rw [List.insertionSort_cons, ← ih, ← insertPair_eq]
    rfl

theorem isAscending_sortPairs {ps : List (Text × Value)} (hps : (ps.map Prod.fst).Nodup) :
    IsAscending (sortPairs ps) := by
  rw [IsAscending, sortPairs_eq, List.pairwise_map]
  have hnodup : ((ps.insertionSort PairLe).map Prod.fst).Nodup :=
    ((ps.perm_insertionSort PairLe).map Prod.fst).nodup_iff.2 hps
  have hle := ps.pairwise_insertionSort PairLe
  refine (hle.and (List.pairwise_map.1 hnodup)).imp ?_
  rintro p q ⟨hpq, hne⟩
  exact (List.le_iff_lt_or_eq.1 (List.not_lt.1 (keyLe_iff.1 hpq))).resolve_right hne

/-! ### Declarations -/

namespace Declared

def topKey? : List Text → Option Text
  | [k] => some k
  | _ => none

theorem eq_singleton_of_topKey? {path : List Text} {k : Text} (h : topKey? path = some k) :
    path = [k] := by
  match path, h with
  | [_], h => rw [Option.some.inj h]

/-- No path is declared twice. -/
def Distinct (d : Declared) : Prop := (d.items.map Prod.fst).Nodup

namespace Distinct

variable {d e : Declared}

theorem empty : Declared.empty.Distinct := List.nodup_nil

theorem set (hd : d.Distinct) (path : List Text) (item : Item) : (d.set path item).Distinct := by
  rw [Distinct, Declared.set, List.map_cons, List.nodup_cons]
  refine ⟨?_, hd.sublist (List.filter_sublist.map _)⟩
  intro h
  obtain ⟨i, hi, rfl⟩ := List.mem_map.1 h
  simp at hi

theorem clearBelow (hd : d.Distinct) (path : List Text) : (d.clearBelow path).Distinct :=
  hd.sublist (List.filter_sublist.map _)

theorem descend (hd : d.Distinct) {dotted : Bool} {base ks : List Text}
    (h : Declared.descend dotted base ks d = some e) : e.Distinct := by
  induction ks generalizing base d with
  | nil => exact Option.some.inj h ▸ hd
  | cons k ks ih =>
    rw [Declared.descend] at h
    split at h
    · exact ih (hd.set _ _) h
    · simp at h
    · exact ih hd h
    · split at h
      · simp at h
      · exact ih hd h

theorem assign (hd : d.Distinct) {table key : List Text} {v : Value}
    (h : d.assign table key v = some e) : e.Distinct := by
  simp only [Declared.assign, Option.bind_eq_bind, Option.bind_eq_some_iff] at h
  obtain ⟨c, hc, he⟩ := h
  split at he
  · exact Option.some.inj he ▸ (hd.descend hc).set _ _
  · simp at he

theorem defineTable (hd : d.Distinct) {path : List Text} (h : d.defineTable path = some e) :
    e.Distinct := by
  simp only [Declared.defineTable, Option.bind_eq_bind, Option.bind_eq_some_iff] at h
  obtain ⟨c, hc, he⟩ := h
  split at he
  · exact Option.some.inj he ▸ (hd.descend hc).set _ _
  · exact Option.some.inj he ▸ (hd.descend hc).set _ _
  · simp at he

theorem defineTables (hd : d.Distinct) {path : List Text} (h : d.defineTables path = some e) :
    e.Distinct := by
  simp only [Declared.defineTables, Option.bind_eq_bind, Option.bind_eq_some_iff] at h
  obtain ⟨c, hc, he⟩ := h
  split at he
  · exact Option.some.inj he ▸ (hd.descend hc).set _ _
  · exact Option.some.inj he ▸ (hd.descend hc).clearBelow _
  · simp at he

theorem top (hd : d.Distinct) : (d.top.map Prod.fst).Nodup := by
  have hkeys : d.top.map Prod.fst = (d.items.map Prod.fst).filterMap topKey? := by
    rw [Declared.top, List.map_filterMap, List.filterMap_map]
    refine List.filterMap_congr fun i _ => ?_
    match i with
    | ([], _) => rfl
    | ([k], item) => cases item <;> rfl
    | (_ :: _ :: _, _) => rfl
  rw [hkeys]
  refine hd.filterMap fun p q k hp hq => ?_
  rw [eq_singleton_of_topKey? hp, eq_singleton_of_topKey? hq]

end Distinct

end Declared

theorem distinct_entry? {s s' : State} (hs : s.declared.Distinct) {t rest : Text}
    (h : entry? s t = some (s', rest)) : s'.declared.Distinct := by
  unfold entry? at h
  split at h
  · simp only [Option.bind_eq_bind, Option.bind_eq_some_iff, Option.some.injEq, Prod.mk.injEq] at h
    obtain ⟨⟨path, r⟩, -, d, hd, rfl, -⟩ := h
    exact hs.defineTables hd
  · split at h
    · simp only [Option.bind_eq_bind, Option.bind_eq_some_iff, Option.some.injEq,
        Prod.mk.injEq] at h
      obtain ⟨⟨path, r⟩, -, d, hd, rfl, -⟩ := h
      exact hs.defineTable hd
    · simp only [Option.bind_eq_bind, Option.bind_eq_some_iff, Option.some.injEq,
        Prod.mk.injEq] at h
      obtain ⟨⟨key, r⟩, -, r', -, ⟨v, u⟩, -, d, hd, rfl, -⟩ := h
      exact hs.assign hd

theorem distinct_entries? {fuel : Nat} {s s' : State} (hs : s.declared.Distinct) {t : Text}
    (h : entries? fuel s t = some s') : s'.declared.Distinct := by
  induction fuel generalizing s t with
  | zero => simp [entries?] at h
  | succ fuel ih =>
    rw [entries?] at h
    split at h
    · exact Option.some.inj h ▸ hs
    next c r hr =>
      split at h
      · simp at h
      next s'' u hu =>
        have hdistinct : s''.declared.Distinct := by
          split at hu
          · obtain ⟨rfl, -⟩ := Prod.mk.inj (Option.some.inj hu)
            exact hs
          · exact distinct_entry? hs hu
        split at h
        · exact ih hdistinct h
        · simp at h

theorem isAscending_table? {t : Text} {table : Table} (h : table? t = some table) :
    IsAscending table := by
  obtain ⟨s, hs, rfl⟩ := Option.map_eq_some_iff.1 h
  exact isAscending_sortPairs (distinct_entries? .empty hs).top

end DocSnippet.Toml
