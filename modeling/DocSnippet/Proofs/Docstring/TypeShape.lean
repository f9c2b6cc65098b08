import DocSnippet.Docstring.TypeShape
import DocSnippet.Proofs.Text.Parts
import DocSnippet.Proofs.Text.Trim

/-! Taking types apart. The types of the members of a tuple, of the items of an iterator and of a
keyword argument without `None` are pieces of the type that they come from. -/

namespace DocSnippet.Docstring

open Text Definition

theorem before?_isPrefix {p t r : Text} (h : before? p t = some r) : r <+: t :=
  ⟨p, (before?_eq_some_iff.1 h).symm⟩

theorem after?_isSuffix {p t r : Text} (h : after? p t = some r) : r <:+ t :=
  ⟨p, (after?_eq_some_iff.1 h).symm⟩

theorem dropNone_isInfix (t : Text) : dropNone t <:+: t := by
  rw [dropNone]
  split
  next rest h =>
    obtain ⟨u, hu, hrest⟩ := Option.bind_eq_some_iff.1 h
    obtain ⟨v, hv, rfl⟩ := Option.map_eq_some_iff.1 hu
    have hpre : trimEnd rest <+: t :=
      calc trimEnd rest
          <+: rest := trimEnd_isPrefix rest
        _ <+: trimEnd v := before?_isPrefix hrest
        _ <+: v := trimEnd_isPrefix v
        _ <+: trimEnd t := before?_isPrefix hv
        _ <+: t := trimEnd_isPrefix t
    exact hpre.isInfix
  next => exact List.infix_refl t

theorem bracketed?_isInfix {heads : List Text} {t inner : Text}
    (h : bracketed? heads t = some inner) : inner <:+: t := by
  simp only [bracketed?, Option.bind_eq_bind, Option.bind_eq_some_iff] at h
  obtain ⟨u, hu, v, hv, w, hw, hinner⟩ := h
  obtain ⟨head, -, hhead⟩ := List.exists_of_findSome?_eq_some hu
  obtain rfl : w = inner := by
    split at hinner
    · simp at hinner
    · simpa using hinner
  have hwv : w <+: v := (before?_isPrefix hw).trans (trimEnd_isPrefix v)
  have hvt : v <:+ t :=
    calc v
        <:+ trimStart u := after?_isSuffix hv
      _ <:+ u := List.dropWhile_suffix isSpace
      _ <:+ trimStart t := after?_isSuffix hhead
      _ <:+ t := List.dropWhile_suffix isSpace
  exact hwv.isInfix.trans hvt.isInfix

theorem memberType?_isInfix {part t : Text} (h : memberType? part = some t) : t <:+: part := by
  rw [memberType?] at h
  split at h
  · simp at h
  · rw [← Option.some.inj h]
    exact trim_isInfix part

theorem part_isInfix {heads : List Text} {t inner : Text} {parts : List Text}
    (hinner : bracketed? heads t = some inner) (hparts : balancedParts? ',' inner = some parts)
    {p : Text} (hp : p ∈ parts) : p <:+: t := by
  rw [balancedParts?_eq] at hparts
  split at hparts
  · rw [← Option.some.inj hparts] at hp
    exact (isInfix_of_mem_topParts hp).trans (bracketed?_isInfix hinner)
  · simp at hparts

theorem tupleMembers?_isInfix {t : Text} {ps : List Product} (h : tupleMembers? t = some ps)
    {p : Product} (hp : p ∈ ps) : ∀ u ∈ p.type?, u <:+: t := by
  simp only [tupleMembers?, Option.bind_eq_bind, Option.bind_eq_some_iff, Option.some.injEq] at h
  obtain ⟨inner, hinner, parts, hparts, rfl⟩ := h
  obtain ⟨part, hpart, rfl⟩ := List.mem_map.1 hp
  have hmem : part ∈ parts := by
    rw [dropEmptyLast] at hpart
    split at hpart
    · exact List.mem_of_mem_dropLast hpart
    · exact hpart
  intro u hu
  exact (memberType?_isInfix hu).trans (part_isInfix hinner hparts hmem)

theorem itemType?_isInfix {t u : Text} (h : itemType? t = some u) : u <:+: t := by
  simp only [itemType?, Option.bind_eq_bind, Option.bind_eq_some_iff] at h
  obtain ⟨inner, hinner, parts, hparts, part, hpart, hu⟩ := h
  exact (memberType?_isInfix hu).trans (part_isInfix hinner hparts (List.mem_of_mem_head? hpart))

theorem expandReturns_isInfix {returns : List Product} {p : Product}
    (hp : p ∈ expandReturns returns) {u : Text} (hu : u ∈ p.type?) :
    ∃ r ∈ returns, ∃ t ∈ r.type?, u <:+: t := by
  have hself : p ∈ returns → ∃ r ∈ returns, ∃ t ∈ r.type?, u <:+: t :=
    fun h => ⟨p, h, u, hu, List.infix_refl u⟩
  unfold expandReturns at hp
  split at hp
  next r =>
    cases hm : r.type?.bind tupleMembers? with
    | none =>
      rw [hm] at hp
      exact hself hp
    | some ps =>
      rw [hm] at hp
      obtain ⟨t, ht, hps⟩ := Option.bind_eq_some_iff.1 hm
      exact ⟨r, by simp, t, ht, tupleMembers?_isInfix hps hp u hu⟩
  next => exact hself hp

theorem expandYields_isInfix {yields p : Product} (hp : p ∈ expandYields yields) {u : Text}
    (hu : u ∈ p.type?) : ∃ t ∈ yields.type?, u <:+: t := by
  rw [expandYields] at hp
  split at hp
  next =>
    rw [List.mem_singleton.1 hp] at hu
    exact ⟨u, hu, List.infix_refl u⟩
  next t ht =>
    have hitem : (itemType? t).getD t <:+: t := by
      cases hi : itemType? t with
      | none => exact List.infix_refl t
      | some item => exact itemType?_isInfix hi
    refine ⟨t, ht, List.IsInfix.trans ?_ hitem⟩
    cases hm : tupleMembers? ((itemType? t).getD t) with
    | none =>
      simp only [hm, Option.getD_none, List.mem_singleton] at hp
      rw [hp] at hu
      rw [← Option.some.inj hu]
    | some ps =>
      simp only [hm, Option.getD_some] at hp
      exact tupleMembers?_isInfix hm hp u hu

end DocSnippet.Docstring
