import DocSnippet.Proofs.Source.Keyword

/-! The search for openings of definitions. It runs from left to right and goes on behind each
opening it finds, and an opening may start at white space or at the word `async` before its keyword.
Still the last opening belongs to the last keyword of the text: no opening that starts before a
place at which the search stands ends behind it, so neither a keyword nor its `async` is ever passed
over. -/

namespace DocSnippet.Source

open Text

/-! ### The text of an opening -/

/-- The texts of openings: `async`, white space and `def`, or a keyword that white space may
precede. -/
inductive OpeningText : Text → Prop
  | asyncDef {gap : Text} (hne : gap ≠ []) (hspace : ∀ c ∈ gap, isSpace c) :
      OpeningText (asyncWord ++ gap ++ defWord)
  | keyword {gap w : Text} (hspace : ∀ c ∈ gap, isSpace c) (hw : IsKeyword w) :
      OpeningText (gap ++ w)

theorem IsKeyword.exists_cons {w : Text} (hw : IsKeyword w) :
    ∃ c s, w = c :: s ∧ Text.isWord c ∧ c ≠ 'a' := by
  rcases hw with rfl | rfl
  · exact ⟨'d', "ef".toList, rfl, by decide, by decide⟩
  · exact ⟨'c', "lass".toList, rfl, by decide, by decide⟩

theorem IsKeyword.not_isSpace_head? {w : Text} (hw : IsKeyword w) (r : Text) :
    ∀ c ∈ (w ++ r).head?, ¬isSpace c := by
  obtain ⟨c, s, rfl, hc, -⟩ := hw.exists_cons
  simpa using not_isSpace_of_isWord hc

theorem afterWord?_eq_some_iff {w t r : Text} :
    afterWord? w t = some r ↔ t = w ++ r ∧ atWordEnd r := by
  rw [afterWord?, Option.filter_eq_some_iff, after?_eq_some_iff]

/-- An opening is found at the head of a text exactly if one stands there and no word goes on. -/
theorem afterOpening?_eq_some_iff {t r : Text} :
    afterOpening? t = some r ↔ ∃ m, OpeningText m ∧ t = m ++ r ∧ atWordEnd r := by
  constructor
  · intro h
    have hkeyword : ∀ {w}, IsKeyword w → afterWord? w (trimStart t) = some r →
        ∃ m, OpeningText m ∧ t = m ++ r ∧ atWordEnd r := by
      intro w hw hr
      obtain ⟨ht, hend⟩ := afterWord?_eq_some_iff.1 hr
      refine ⟨t.takeWhile isSpace ++ w,
        .keyword (fun c hc => List.mem_takeWhile_imp hc) hw, ?_, hend⟩
      rw [List.append_assoc, ← ht, trimStart, List.takeWhile_append_dropWhile]
    rw [afterOpening?, Option.or_eq_some_iff, Option.or_eq_some_iff] at h
    rcases h with h | ⟨-, h | ⟨-, h⟩⟩
    · obtain ⟨v, hv, hr⟩ := Option.bind_eq_some_iff.1 h
      obtain ⟨u, hu, hv⟩ := Option.bind_eq_some_iff.1 hv
      obtain ⟨gap, hne, hspace, rfl⟩ := exists_of_afterSpaces?_eq_some hv
      obtain ⟨rfl, hend⟩ := afterWord?_eq_some_iff.1 hr
      refine ⟨_, .asyncDef hne hspace, ?_, hend⟩
      rw [after?_eq_some_iff.1 hu]
      simp
    · exact hkeyword (.inl rfl) h
    · exact hkeyword (.inr rfl) h
  · rintro ⟨m, hm, rfl, hend⟩
    cases hm with
    | @asyncDef gap hne hspace =>
      have hdef := IsKeyword.not_isSpace_head? (.inl rfl) r
      have hasync : after? asyncWord (asyncWord ++ gap ++ defWord ++ r) =
          some (gap ++ (defWord ++ r)) :=
        after?_eq_some_iff.2 (by simp)
      rw [afterOpening?, hasync, Option.bind_some, afterSpaces?_append hne hspace hdef,
        Option.bind_some, afterWord?_eq_some_iff.2 ⟨rfl, hend⟩, Option.some_or]
    | @keyword gap w hspace hw =>
      have hasync : after? asyncWord (gap ++ w ++ r) = none := by
        obtain ⟨c, s, rfl, -, hc⟩ := hw.exists_cons
        cases gap with
        | nil => simp [asyncWord, after?, Ne.symm hc]
        | cons d gap =>
          have hd : d ≠ 'a' := ne_of_isSpace (hspace d (by simp)) rfl
          simp [asyncWord, after?, Ne.symm hd]
      have htrim : trimStart (gap ++ w ++ r) = w ++ r := by
        rw [List.append_assoc, trimStart_space_append hspace (hw.not_isSpace_head? r)]
      rw [afterOpening?, hasync, htrim]
      rcases hw with rfl | rfl
      · simp [afterWord?_eq_some_iff.2 ⟨rfl, hend⟩]
      · have hdef : afterWord? defWord (classWord ++ r) = none := rfl
        simp [hdef, afterWord?_eq_some_iff.2 ⟨rfl, hend⟩]

namespace OpeningText

variable {m : Text}

theorem ne_nil (hm : OpeningText m) : m ≠ [] := by
  cases hm with
  | asyncDef => simp [asyncWord]
  | keyword hspace hw =>
    obtain ⟨c, s, rfl, -⟩ := hw.exists_cons
    simp

theorem exists_reverse_eq_cons (hm : OpeningText m) :
    ∃ c s, m.reverse = c :: s ∧ isWord c ∧ c ≠ 'c' := by
  have hkeyword : ∀ {w}, IsKeyword w → ∀ s : Text,
      ∃ c u, (s ++ w).reverse = c :: u ∧ isWord c ∧ c ≠ 'c' := by
    rintro w (rfl | rfl) s
    · exact ⟨'f', 'e' :: 'd' :: s.reverse, by simp [defWord], by decide, by decide⟩
    · exact ⟨'s', 's' :: 'a' :: 'l' :: 'c' :: s.reverse, by simp [classWord], by decide, by decide⟩
  cases hm with
  | asyncDef => exact hkeyword (.inl rfl) _
  | keyword hspace hw => exact hkeyword hw _

end OpeningText

/-! ### Word ends inside an opening -/

theorem exists_of_append_word {s w x y : Text} (h : s ++ w = x ++ y) (hw : ∀ c ∈ w, isWord c)
    (hy : atWordEnd y) (hne : y ≠ []) : ∃ z, s = x ++ z ∧ y = z ++ w := by
  rcases List.append_eq_append_iff.1 h with ⟨z, hx, hwy⟩ | ⟨z, hs, hy'⟩
  · refine absurd hy (not_atWordEnd hne fun c hc => hw c ?_)
    rw [hwy]
    exact List.mem_append_right z hc
  · exact ⟨z, hs, hy'⟩

theorem atWordEnd_space_append {gap : Text} (hne : gap ≠ []) (hspace : ∀ c ∈ gap, isSpace c)
    (t : Text) : atWordEnd (gap.reverse ++ t) := by
  obtain ⟨c, g, hg⟩ := List.exists_cons_of_ne_nil (List.reverse_ne_nil_iff.2 hne)
  have hc : isSpace c := hspace c (List.mem_reverse.1 (by simp [hg]))
  simpa [hg, atWordEnd] using not_isWord_of_isSpace hc

theorem exists_of_append_space {s gap x z : Text} (h : s ++ gap = x ++ z)
    (hgap : ∀ c ∈ gap, isSpace c) (hx : ¬atWordEnd x.reverse) :
    ∃ u, s = x ++ u ∧ z = u ++ gap := by
  rcases List.append_eq_append_iff.1 h with ⟨u, rfl, rfl⟩ | ⟨u, hs, hz⟩
  · by_cases hu : u = []
    · exact ⟨[], by simp [hu], by simp [hu]⟩
    · rw [List.reverse_append] at hx
      refine absurd (atWordEnd_space_append hu (fun c hc => hgap c ?_) s.reverse) hx
      exact List.mem_append_left z hc
  · exact ⟨u, hs, hz⟩

/-- The only word that ends inside an opening is `async`. -/
theorem OpeningText.eq_asyncWord {x y : Text} (hm : OpeningText (x ++ y))
    (hx : ¬atWordEnd x.reverse) (hy : atWordEnd y) (hne : y ≠ []) : x = asyncWord := by
  generalize hxy : x ++ y = m at hm
  cases hm with
  | @asyncDef gap _ hspace =>
    obtain ⟨z, hz, hyz⟩ := exists_of_append_word hxy.symm (IsKeyword.isWord (.inl rfl)) hy hne
    -- what `x` leaves of `async` stands at the head of `y`
    obtain ⟨u, hu, hzu⟩ := exists_of_append_space hz hspace hx
    by_cases hnil : u = []
    · rw [hnil, List.append_nil] at hu
      exact hu.symm
    · have hword : ∀ c ∈ asyncWord, isWord c := List.all_eq_true.1 rfl
      rw [hyz, hzu, List.append_assoc] at hy
      refine absurd (atWordEnd_of_append hy) (not_atWordEnd hnil fun c hc => hword c ?_)
      rw [hu]
      exact List.mem_append_right x hc
  | @keyword gap w hspace hw =>
    obtain ⟨z, hz, -⟩ := exists_of_append_word hxy.symm hw.isWord hy hne
    obtain ⟨u, hu, -⟩ := exists_of_append_space (s := []) hz hspace hx
    obtain rfl : x = [] := (List.append_eq_nil_iff.1 hu.symm).1
    exact absurd rfl hx

/-! ### Places that no opening reaches over -/

theorem Place.afterOpening?_eq_some_iff {p : Place} {r : Text} :
    p.afterOpening? = some r ↔
      p.atBoundary ∧ ∃ m, OpeningText m ∧ p.rest = m ++ r ∧ atWordEnd r := by
  rw [Place.afterOpening?, ← Source.afterOpening?_eq_some_iff]
  by_cases h : p.atBoundary <;> simp [h]

theorem Place.atBoundary_of_isWord {c : Char} (hc : isWord c) (before t : Text) :
    atBoundary ⟨before, c :: t⟩ = atWordEnd before := by
  have hend : atWordEnd (c :: t) = false := by simp [atWordEnd, hc]
  rw [atBoundary, hend, Bool.bne_false]

/-- No opening that starts before the text `t` ends inside it. -/
def Clear (before t : Text) : Prop :=
  ∀ x left r, before = x.reverse ++ left → x ≠ [] →
    Place.afterOpening? ⟨left, x ++ t⟩ = some r → t.length ≤ r.length

theorem Clear.start (t : Text) : Clear [] t := by
  intro x left r h hx
  have hnil := List.append_eq_nil_iff.1 h.symm
  exact absurd (by simpa using hnil.1) hx

theorem Clear.step {before t : Text} {c : Char} (h : Clear before (c :: t))
    (hnone : Place.afterOpening? ⟨before, c :: t⟩ = none) : Clear (c :: before) t := by
  intro x left r hbefore hx hr
  obtain ⟨y, d, rfl⟩ := (List.eq_nil_or_concat' x).resolve_left hx
  simp only [List.reverse_append, List.reverse_singleton, List.cons_append,
    List.cons.injEq] at hbefore
  obtain ⟨rfl, hbefore⟩ := hbefore
  rw [List.append_assoc, List.singleton_append] at hr
  by_cases hy : y = []
  · subst hy
    simp only [List.reverse_nil, List.nil_append] at hbefore hr
    rw [← hbefore, hnone] at hr
    simp at hr
  · have := h y left r hbefore hy hr
    simp only [List.length_cons] at this
    omega

theorem Clear.jump {m r : Text} (hm : OpeningText m) (hr : atWordEnd r) (before : Text) :
    Clear (m.reverse ++ before) r := by
  intro x left u hbefore hx hu
  obtain ⟨-, n, hn, hxr, -⟩ := Place.afterOpening?_eq_some_iff.1 hu
  dsimp only at hxr
  obtain ⟨c, s, hc, hword, hne⟩ := hm.exists_reverse_eq_cons
  obtain ⟨d, v, hd⟩ := List.exists_cons_of_ne_nil (List.reverse_ne_nil_iff.2 hx)
  obtain rfl : c = d := by
    rw [hc, hd, List.cons_append, List.cons_append, List.cons.injEq] at hbefore
    exact hbefore.1
  rcases List.append_eq_append_iff.1 hxr with ⟨y, rfl, rfl⟩ | ⟨y, -, rfl⟩
  · by_contra hlt
    have hy : y ≠ [] := by
      rintro rfl
      simp at hlt
    have hasync : x = asyncWord := by
      refine hn.eq_asyncWord ?_ (atWordEnd_of_append hr) hy
      simp [hd, atWordEnd, hword]
    rw [hasync, asyncWord] at hd
    exact hne (by simpa using (congrArg List.head? hd).symm)
  · simp

/-! ### The last opening -/

theorem openingsFrom_skip (s before r : Text) :
    openingsFrom s.length before (s ++ r) = openingsFrom 0 (s.reverse ++ before) r := by
  induction s generalizing before with
  | nil => rfl
  | cons c s ih =>
    rw [List.length_cons, List.cons_append, openingsFrom, ih]
    simp

theorem openingsFrom_of_opening {before m r : Text} (hm : m ≠ [])
    (h : Place.afterOpening? ⟨before, m ++ r⟩ = some r) :
    openingsFrom 0 before (m ++ r) =
      ⟨before, m ++ r⟩ :: openingsFrom 0 (m.reverse ++ before) r := by
  obtain ⟨c, s, rfl⟩ := List.exists_cons_of_ne_nil hm
  have hskip : (s ++ r).length - r.length = s.length := by simp
  rw [List.cons_append] at h ⊢
  rw [openingsFrom, h]
  dsimp only
  rw [hskip, openingsFrom_skip]
  simp

theorem lastKeyword?_append_of_some {before s t : Text} {p : Place}
    (h : lastKeyword? (s.reverse ++ before) t = some p) :
    lastKeyword? before (s ++ t) = some p := by
  induction s generalizing before with
  | nil => exact h
  | cons c s ih =>
    have hs : lastKeyword? (c :: before) (s ++ t) = some p := ih (by simpa using h)
    simp [lastKeyword?, hs]

theorem lastKeyword?_keyword {before w r : Text} (hw : IsKeyword w) (hbefore : atWordEnd before)
    (hr : atWordEnd r) (hnone : lastKeyword? (w.reverse ++ before) r = none) :
    lastKeyword? before (w ++ r) = some ⟨before, w ++ r⟩ := by
  rcases hw with rfl | rfl
  · have hnone' : lastKeyword? ('f' :: 'e' :: 'd' :: before) r = none := hnone
    simp [defWord, classWord, lastKeyword?, Place.hasKeyword, Place.hasWord, after?, hnone',
      hbefore, hr]
  · have hnone' : lastKeyword? ('s' :: 's' :: 'a' :: 'l' :: 'c' :: before) r = none := hnone
    simp [defWord, classWord, lastKeyword?, Place.hasKeyword, Place.hasWord, after?, hnone',
      hbefore, hr]

namespace Place

/-- A place moved back over white space and a whole word `async` before it. -/
def overAsync (p : Place) : Place :=
  let gap := p.before.takeWhile isSpace
  match after? asyncWord.reverse (p.before.dropWhile isSpace) with
  | some left =>
    if gap ≠ [] ∧ atWordEnd left then ⟨left, asyncWord ++ gap.reverse ++ p.rest⟩ else p
  | none => p

/-- Where the definition with the keyword at a place starts. -/
def definitionStart (p : Place) : Place := if p.hasWord defWord then p.overAsync else p

end Place

structure EndsAsync (a left gap : Text) : Prop where
  eq : a = left ++ asyncWord ++ gap
  gap_ne_nil : gap ≠ []
  space : ∀ c ∈ gap, isSpace c
  left_end : atWordEnd left.reverse

theorem Place.overAsync_of_endsAsync {a left gap : Text} (h : EndsAsync a left gap) (t : Text) :
    overAsync ⟨a.reverse, t⟩ = ⟨left.reverse, asyncWord ++ gap ++ t⟩ := by
  have hbefore : a.reverse = gap.reverse ++ (asyncWord.reverse ++ left.reverse) := by
    simp [h.eq]
  have hspace : ∀ c ∈ gap.reverse, isSpace c := fun c hc => h.space c (List.mem_reverse.1 hc)
  have hhead : ∀ c ∈ (asyncWord.reverse ++ left.reverse).head?, ¬isSpace c := by
    simp [asyncWord, show isSpace 'c' = false from rfl]
  have hdrop := trimStart_space_append hspace hhead
  rw [trimStart] at hdrop
  have hgap : gap.reverse ≠ [] ∧ atWordEnd left.reverse := ⟨by simpa using h.gap_ne_nil, h.left_end⟩
  rw [overAsync, hbefore, takeWhile_space_append hspace hhead, hdrop, after?_eq_some_iff.2 rfl]
  dsimp only
  rw [if_pos hgap, List.reverse_reverse]

theorem Place.overAsync_eq_self {a : Text} (h : ∀ left gap, ¬EndsAsync a left gap) (t : Text) :
    overAsync ⟨a.reverse, t⟩ = ⟨a.reverse, t⟩ := by
  rw [overAsync]
  split
  next left hleft =>
    refine if_neg fun hgap => h left.reverse (a.reverse.takeWhile isSpace).reverse ?_
    dsimp only at hgap hleft
    have ha := List.takeWhile_append_dropWhile (p := isSpace) (l := a.reverse)
    rw [after?_eq_some_iff.1 hleft] at ha
    refine ⟨?_, by simpa using hgap.1, ?_, by simpa using hgap.2⟩
    · simpa using (congrArg List.reverse ha).symm
    · exact fun c hc => List.mem_takeWhile_imp (List.mem_reverse.1 hc)
  next => rfl

/-- An opening that a clear place shows with a bare `def` has no `async` before it. -/
theorem Clear.not_endsAsync {before gap r : Text} (h : Clear before (gap ++ defWord ++ r))
    (hgap : ∀ c ∈ gap, isSpace c) (hr : atWordEnd r) (left g : Text) :
    ¬EndsAsync (before.reverse ++ gap) left g := by
  intro ha
  -- `gap` is the end of `g`, so the opening with `async` starts before this place
  have hword : ¬atWordEnd (left ++ asyncWord).reverse := by
    simp [asyncWord, atWordEnd, show isWord 'c' from rfl]
  obtain ⟨u, hbefore, hg⟩ := exists_of_append_space ha.eq hgap hword
  have hopening : OpeningText (asyncWord ++ g ++ defWord) := .asyncDef ha.gap_ne_nil ha.space
  have hplace : Place.afterOpening? ⟨left.reverse, asyncWord ++ u ++ (gap ++ defWord ++ r)⟩ =
      some r := by
    refine Place.afterOpening?_eq_some_iff.2 ⟨?_, _, hopening, by simp [hg], hr⟩
    exact (Place.atBoundary_of_isWord rfl _ _).trans ha.left_end
  have hlen := h (asyncWord ++ u) left.reverse r ?_ (by simp [asyncWord]) hplace
  · simp [defWord] at hlen
    omega
  · rw [← List.reverse_reverse before, hbefore]
    simp

theorem Place.hasKeyword_eq_false {p : Place} (h : p.afterOpening? = none) :
    p.hasKeyword = false := by
  by_contra hk
  obtain ⟨w, r, hrest, hw⟩ := Place.hasKeyword_iff.1 (by simpa using hk)
  have hopening : p.afterOpening? = some r := by
    refine Place.afterOpening?_eq_some_iff.2 ⟨?_, [] ++ w, .keyword (by simp) hw.keyword, hrest,
      hw.right⟩
    obtain ⟨c, s, rfl, hc, -⟩ := hw.keyword.exists_cons
    obtain ⟨before, rest⟩ := p
    obtain rfl : rest = c :: (s ++ r) := hrest
    rw [atBoundary_of_isWord hc]
    simpa using hw.left
  rw [h] at hopening
  simp at hopening

/-- The opening found at a clear place is that of its keyword. -/
theorem Clear.definitionStart_eq {before m r : Text} (h : Clear before (m ++ r))
    (hm : OpeningText m) (hboundary : Place.atBoundary ⟨before, m ++ r⟩) (hr : atWordEnd r) :
    ∃ s w, m = s ++ w ∧ IsKeyword w ∧ atWordEnd (s.reverse ++ before) ∧
      Place.definitionStart ⟨s.reverse ++ before, w ++ r⟩ = Place.overSpaces ⟨before, m ++ r⟩ := by
  cases hm with
  | @asyncDef gap hne hspace =>
    have hleft : atWordEnd before := (Place.atBoundary_of_isWord rfl _ _).symm.trans hboundary
    have hend : EndsAsync (before.reverse ++ asyncWord ++ gap) before.reverse gap :=
      ⟨rfl, hne, hspace, by simpa using hleft⟩
    have hbefore : (before.reverse ++ asyncWord ++ gap).reverse =
        (asyncWord ++ gap).reverse ++ before := by simp
    have hword : atWordEnd ((asyncWord ++ gap).reverse ++ before) := by
      rw [List.reverse_append, List.append_assoc]
      exact atWordEnd_space_append hne hspace _
    refine ⟨asyncWord ++ gap, defWord, rfl, .inl rfl, hword, ?_⟩
    rw [Place.definitionStart, if_pos (Place.hasWord_iff.2 ⟨r, rfl, hword, hr⟩), ← hbefore,
      Place.overAsync_of_endsAsync hend, List.reverse_reverse, List.append_assoc _ defWord]
    rfl
  | @keyword gap w hspace hw =>
    have hword : atWordEnd (gap.reverse ++ before) := by
      by_cases hne : gap = []
      · subst hne
        obtain ⟨c, u, rfl, hc, -⟩ := hw.exists_cons
        exact (Place.atBoundary_of_isWord hc _ _).symm.trans hboundary
      · exact atWordEnd_space_append hne hspace before
    have hover : Place.overSpaces ⟨before, gap ++ w ++ r⟩ = ⟨gap.reverse ++ before, w ++ r⟩ := by
      have hhead := hw.not_isSpace_head? r
      rw [Place.overSpaces, List.append_assoc, takeWhile_space_append hspace hhead,
        trimStart_space_append hspace hhead]
    refine ⟨gap, w, rfl, hw, hword, ?_⟩
    rw [hover, Place.definitionStart]
    rcases hw with rfl | rfl
    · have hbefore : gap.reverse ++ before = (before.reverse ++ gap).reverse := by simp
      rw [if_pos (Place.hasWord_iff.2 ⟨r, rfl, hword, hr⟩), hbefore]
      exact Place.overAsync_eq_self (h.not_endsAsync hspace hr) _
    · rfl

theorem getLast?_openingsFrom {before t : Text} (h : Clear before t) :
    (openingsFrom 0 before t).getLast?.map Place.overSpaces =
      (lastKeyword? before t).map Place.definitionStart := by
  -- the search goes on behind the next character or behind an opening, where it is clear again
  induction hn : t.length using Nat.strong_induction_on generalizing before t with
  | _ n ih =>
  subst hn
  cases t with
  | nil => rfl
  | cons c t =>
    cases hopen : Place.afterOpening? ⟨before, c :: t⟩ with
    | none =>
      have hlast : lastKeyword? before (c :: t) = lastKeyword? (c :: before) t := by
        rw [lastKeyword?, Place.hasKeyword_eq_false hopen]
        cases lastKeyword? (c :: before) t <;> rfl
      rw [openingsFrom, hopen, hlast]
      exact ih t.length (by simp) (h.step hopen) rfl
    | some r =>
      obtain ⟨hboundary, m, hm, hrest, hr⟩ := Place.afterOpening?_eq_some_iff.1 hopen
      dsimp only at hrest
      rw [hrest] at h hopen hboundary ⊢
      have hshort : r.length < (c :: t).length := by
        have := List.length_pos_of_ne_nil hm.ne_nil
        rw [hrest, List.length_append]
        omega
      have ih := ih r.length hshort (Clear.jump hm hr before) rfl
      rw [openingsFrom_of_opening hm.ne_nil hopen]
      cases hk : lastKeyword? (m.reverse ++ before) r with
      | some q =>
        rw [hk, Option.map_some] at ih
        obtain ⟨p, hp, hpq⟩ := Option.map_eq_some_iff.1 ih
        rw [lastKeyword?_append_of_some hk, List.getLast?_cons, hp]
        simp [hpq]
      | none =>
        rw [hk, Option.map_none, Option.map_eq_none_iff, List.getLast?_eq_none_iff] at ih
        obtain ⟨s, w, rfl, hw, hbefore, hstart⟩ := h.definitionStart_eq hm hboundary hr
        rw [List.reverse_append, List.append_assoc] at hk
        have hlast : lastKeyword? before (s ++ w ++ r) = some ⟨s.reverse ++ before, w ++ r⟩ := by
          rw [List.append_assoc]
          exact lastKeyword?_append_of_some (lastKeyword?_keyword hw hbefore hr hk)
        rw [ih, hlast, List.getLast?_singleton, Option.map_some, Option.map_some, hstart]

/-- The last opening that is found starts the definition with the last keyword. -/
theorem lastDefinition?_eq (t : Text) :
    lastDefinition? t = (lastKeyword? [] t).map Place.definitionStart :=
  getLast?_openingsFrom (Clear.start t)

end DocSnippet.Source
