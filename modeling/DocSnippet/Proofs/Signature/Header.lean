import DocSnippet.Proofs.Signature.Parameter
import DocSnippet.Proofs.Source.HeaderLine
import DocSnippet.Signature.Basic

/-! Headers of functions as the scans for the signature and for the name see them. Both pass over an
`async` and find a header `def name(...)` at its keyword: the name is the word behind it, the last
closing bracket ends the parameters, and the result annotation is what stands between the arrow and
the colon. If a keyword stands in the place of the name, there is no signature, and the name is
looked for between the separators of the parameters. -/

namespace DocSnippet.Signature

open Text Source

/-! ### The end of a header -/

def arrowOf? (result? : Option Text) : Option Text := result?.map fun t => '-' :: '>' :: ' ' :: t

def endingOf (result? : Option Text) : Text :=
  ((arrowOf? result?).map fun a => ' ' :: a).getD [] ++ [':']

theorem notMem_endingOf {result? : Option Text} (h : ∀ t ∈ result?, ')' ∉ t) :
    ')' ∉ endingOf result? := by
  cases result? with
  | none => simp [endingOf, arrowOf?]
  | some t => simp [endingOf, arrowOf?, h t rfl]

theorem ending?_endingOf {result? : Option Text} (h : ∀ t ∈ result?, ':' ∉ t) :
    ending? (endingOf result?) = some (arrowOf? result?) := by
  cases result? with
  | none => rfl
  | some t =>
    have hcolon : ∀ c ∈ ' ' :: t, (c != ':') = true := by
      intro c hc
      rcases List.mem_cons.1 hc with rfl | hc
      · rfl
      · simpa using fun hceq : c = ':' => h t rfl (hceq ▸ hc)
    have hstart : trimStart (' ' :: '-' :: '>' :: ' ' :: (t ++ [':'])) =
        '-' :: '>' :: ' ' :: (t ++ [':']) := rfl
    have hafter : after? ['-', '>'] ('-' :: '>' :: ' ' :: (t ++ [':'])) =
        some (' ' :: (t ++ [':'])) := rfl
    have htake : (' ' :: (t ++ [':'])).takeWhile (· != ':') = ' ' :: t := by
      rw [← List.cons_append, List.takeWhile_append_of_pos hcolon]
      simp
    have hdrop : (' ' :: (t ++ [':'])).dropWhile (· != ':') = [':'] := by
      rw [← List.cons_append, List.dropWhile_append_of_pos hcolon]
      rfl
    have htrailer : isTrailer [] = true := rfl
    simp [endingOf, arrowOf?, ending?, hstart, hafter, htake, hdrop, htrailer]

/-- The last closing bracket that ends a header closes its parameters. -/
theorem closing?_append {e : Text} {result? : Option Text} (hmem : ')' ∉ e)
    (hend : ending? e = some result?) (p : Text) :
    closing? (p ++ ')' :: e) = some ⟨p, result?⟩ := by
  have hnone : closing? e = none := by
    clear hend
    induction e with
    | nil => rfl
    | cons c e ih =>
      simp only [List.mem_cons, not_or] at hmem
      simp [closing?, ih hmem.2, Ne.symm hmem.1]
  induction p with
  | nil => simp [closing?, hnone, hend]
  | cons c p ih => simp [closing?, ih]

/-! ### In front of a header -/

theorem first?_cons_of_here? {c : Char} {t : Text} (h : here? (c :: t) = none) (before : Text) :
    first? before (c :: t) = first? [c] t := by
  simp [first?, h]

theorem first?_cons {c : Char} {t : Text} (h : afterKeyword? (c :: t) = none) (before : Text) :
    first? before (c :: t) = first? [c] t :=
  first?_cons_of_here? (by simp [here?, h]) before

theorem name?_cons {c : Char} {t : Text} (h : afterKeyword? (c :: t) = none) :
    name? (c :: t) = name? t := by
  simp [name?, nameHere?, h]

theorem afterKeyword?_space {c : Char} (hc : isSpace c) (t : Text) :
    afterKeyword? (c :: t) = none := by
  have hne : ∀ e, isSpace e = false → e ≠ c := fun _ he => (ne_of_isSpace hc he).symm
  simp [afterKeyword?, after?, defWord, classWord, hne 'd' rfl, hne 'c' rfl]

/-- The search for a signature passes over white space and leaves it behind. -/
theorem first?_spaces {gap : Text} (hne : gap ≠ []) (hgap : ∀ c ∈ gap, isSpace c)
    (before t : Text) : ∃ c, isSpace c ∧ first? before (gap ++ t) = first? [c] t := by
  induction gap generalizing before with
  | nil => exact absurd rfl hne
  | cons c gap ih =>
    have hc : isSpace c := hgap c (by simp)
    rw [List.cons_append, first?_cons (afterKeyword?_space hc _)]
    by_cases hg : gap = []
    · subst hg
      exact ⟨c, hc, rfl⟩
    · exact ih hg (fun e he => hgap e (by simp [he])) [c]

theorem name?_spaces {gap : Text} (hgap : ∀ c ∈ gap, isSpace c) (t : Text) :
    name? (gap ++ t) = name? t := by
  induction gap with
  | nil => rfl
  | cons c gap ih =>
    rw [List.cons_append, name?_cons (afterKeyword?_space (hgap c (by simp)) _),
      ih fun e he => hgap e (by simp [he])]

/-- The `c` of `async` before white space starts no keyword. -/
theorem afterKeyword?_c {gap : Text} (hne : gap ≠ []) (hgap : ∀ c ∈ gap, isSpace c) (t : Text) :
    afterKeyword? ('c' :: (gap ++ t)) = none := by
  obtain ⟨c, r, rfl⟩ := List.exists_cons_of_ne_nil hne
  have hl : 'l' ≠ c := (ne_of_isSpace (hgap c (by simp)) rfl).symm
  simp [afterKeyword?, after?, defWord, classWord, hl]

/-- The search for a signature starts at the end of a word also behind an `async`. -/
theorem ofHeader?_maybeAsync {t u : Text} (h : MaybeAsync t u) :
    ∃ before, atWordEnd before ∧ ofHeader? u = first? before t := by
  rcases h with rfl | ⟨gap, hne, hgap, rfl⟩
  · exact ⟨[], rfl, rfl⟩
  · obtain ⟨c, hc, hfirst⟩ := first?_spaces hne hgap ['c'] t
    refine ⟨[c], atWordEnd_of_isSpace (by simpa using hc), ?_⟩
    rw [ofHeader?, asyncWord, List.append_assoc]
    simp only [String.reduceToList, List.cons_append, List.nil_append]
    rw [first?_cons rfl, first?_cons rfl, first?_cons rfl, first?_cons rfl,
      first?_cons (afterKeyword?_c hne hgap _), hfirst]

theorem name?_maybeAsync {t u : Text} (h : MaybeAsync t u) : name? u = name? t := by
  rcases h with rfl | ⟨gap, hne, hgap, rfl⟩
  · rfl
  · rw [asyncWord, List.append_assoc]
    simp only [String.reduceToList, List.cons_append, List.nil_append]
    rw [name?_cons rfl, name?_cons rfl, name?_cons rfl, name?_cons rfl,
      name?_cons (afterKeyword?_c hne hgap _), name?_spaces hgap]

/-! ### A header with a name -/

/-- A function header behind its keyword: the name, the text between the brackets and the text
behind them. -/
def afterDefOf (name p e : Text) : Text := ' ' :: (name ++ '(' :: (p ++ ')' :: e))

section Function

variable {name : Text} (hname : IsName name) (p e : Text)

include hname

theorem afterSpaces?_afterDefOf :
    afterSpaces? (afterDefOf name p e) = some (name ++ '(' :: (p ++ ')' :: e)) := by
  obtain ⟨c, r, rfl, hc⟩ := hname.exists_cons
  simp [afterDefOf, afterSpaces?, trimStart, not_isSpace_of_isWord hc,
    show isSpace ' ' = true from rfl]

theorem here?_def {result? : Option Text} (hmem : ')' ∉ e) (hend : ending? e = some result?) :
    here? (defWord ++ afterDefOf name p e) = some ⟨p, result?⟩ := by
  have hkeyword : afterKeyword? (defWord ++ afterDefOf name p e) = some (afterDefOf name p e) := rfl
  have hword := hname.word?_append (r := '(' :: (p ++ ')' :: e)) rfl
  have hstart : trimStart ('(' :: (p ++ ')' :: e)) = '(' :: (p ++ ')' :: e) := rfl
  simp [here?, hkeyword, afterSpaces?_afterDefOf hname, hword, hstart, closing?_append hmem hend p]

theorem nameHere?_def : nameHere? (defWord ++ afterDefOf name p e) = some name := by
  have hkeyword : afterKeyword? (defWord ++ afterDefOf name p e) = some (afterDefOf name p e) := rfl
  have hword := hname.word?_append (r := '(' :: (p ++ ')' :: e)) rfl
  have hstart : trimStart ('(' :: (p ++ ')' :: e)) = '(' :: (p ++ ')' :: e) := rfl
  simp [nameHere?, hkeyword, afterSpaces?_afterDefOf hname, hword, hstart]

theorem ofHeader?_def {result? : Option Text} (hmem : ')' ∉ e) (hend : ending? e = some result?)
    {t : Text} (ht : MaybeAsync (defWord ++ afterDefOf name p e) t) :
    ofHeader? t = some ⟨p, result?⟩ := by
  obtain ⟨before, hb, hfirst⟩ := ofHeader?_maybeAsync ht
  have hhere := here?_def hname p e hmem hend
  simp only [defWord, String.reduceToList, List.cons_append] at hhere hfirst
  rw [hfirst, first?, if_pos hb, hhere]

theorem name?_def {t : Text} (ht : MaybeAsync (defWord ++ afterDefOf name p e) t) :
    name? t = some name := by
  have hhere := nameHere?_def hname p e
  rw [name?_maybeAsync ht]
  simp only [defWord, String.reduceToList, List.cons_append] at hhere ⊢
  rw [name?, hhere]

end Function

/-! ### Names between separators -/

structure EndsName (u : Text) : Prop where
  word : atWordEnd u
  visible : ∀ c ∈ (trimStart u).head?, ¬isWord c ∧ c ≠ ':' ∧ c ≠ '('

theorem afterKeyword?_append {u : Text} (hu : atWordEnd u) (s : Text) :
    afterKeyword? (s ++ u) = (afterKeyword? s).map (· ++ u) := by
  have hhead : ∀ {w : Text}, IsKeyword w → ∀ c ∈ u.head?, c ∉ w := by
    intro w hw c hc hcw
    cases u with
    | nil => simp at hc
    | cons d u =>
      simp only [List.head?_cons, Option.mem_def, Option.some.injEq] at hc
      subst hc
      simp [atWordEnd, hw.isWord d hcw] at hu
  rw [afterKeyword?, afterKeyword?, after?_append (hhead (.inl rfl)),
    after?_append (hhead (.inr rfl))]
  cases after? defWord s <;> rfl

theorem EndsName.spacedWord?_append {u : Text} (hu : EndsName u) (r : Text) :
    (afterSpaces? (r ++ u)).bind word? =
      ((afterSpaces? r).bind word?).map fun p => (p.1, p.2 ++ u) := by
  have hnone : word? (trimStart u) = none := by
    rw [← Option.not_isSome_iff_eq_none, word?_isSome_iff]
    rintro ⟨c, r, hcr, hc⟩
    exact (hu.visible c (by simp [hcr])).1 hc
  cases r with
  | nil =>
    cases u with
    | nil => rfl
    | cons c u =>
      by_cases hc : isSpace c
      · have hstart : trimStart (c :: u) = trimStart u := by simp [trimStart, hc]
        rw [hstart] at hnone
        simp [afterSpaces?, hc, hnone]
      · simp [afterSpaces?, hc]
  | cons c r =>
    by_cases hc : isSpace c
    · simp only [List.cons_append, afterSpaces?, hc, if_true, Option.bind_some, trimStart_append]
      split
      · next hr =>
        rw [hnone, hr]
        rfl
      · exact word?_append_of_atWordEnd _ hu.word
    · simp [afterSpaces?, hc]

/-- The scan for a name as a chain: keyword, white space and word, then a colon or a bracket. -/
theorem nameHere?_eq (t : Text) :
    nameHere? t = ((afterKeyword? t).bind fun r => (afterSpaces? r).bind word?).bind fun p =>
      if (trimStart p.2).head? = some ':' ∨ (trimStart p.2).head? = some '(' then some p.1
      else none := by
  cases hk : afterKeyword? t with
  | none => simp [nameHere?, hk]
  | some r =>
    cases hs : afterSpaces? r with
    | none => simp [nameHere?, hk, hs]
    | some u =>
      cases hw : word? u with
      | none => simp [nameHere?, hk, hs, hw]
      | some p =>
        cases h : trimStart p.2 <;> simp [nameHere?, hk, hs, hw, h]

theorem EndsName.nameHere?_append {u : Text} (hu : EndsName u) (s : Text) :
    nameHere? (s ++ u) = nameHere? s := by
  have hhead : ∀ r : Text, ∀ c, c = ':' ∨ c = '(' →
      ((trimStart (r ++ u)).head? = some c ↔ (trimStart r).head? = some c) := by
    intro r c hc
    rw [trimStart_append]
    split
    · next hr =>
      have hne : (trimStart u).head? ≠ some c := fun h => by
        have hstop := (hu.visible c h).2
        rcases hc with rfl | rfl <;> simp at hstop
      simp [hr, hne]
    · next hr =>
      obtain ⟨d, t, hd⟩ := List.exists_cons_of_ne_nil hr
      simp [hd]
  rw [nameHere?_eq, nameHere?_eq, afterKeyword?_append hu.word]
  cases afterKeyword? s with
  | none => rfl
  | some r =>
    simp only [Option.map_some, Option.bind_some, hu.spacedWord?_append]
    cases (afterSpaces? r).bind word? with
    | none => rfl
    | some p => simp [hhead p.2 ':' (.inl rfl), hhead p.2 '(' (.inr rfl)]

theorem EndsName.name?_append {u : Text} (hu : EndsName u) (s : Text) :
    name? (s ++ u) = (name? s).or (name? u) := by
  induction s with
  | nil => rfl
  | cons c s ih =>
    have hhere := hu.nameHere?_append (c :: s)
    rw [List.cons_append] at hhere ⊢
    rw [name?, hhere, name?, ih]
    cases nameHere? (c :: s) <;> rfl

theorem name?_append_space (s : Text) {u : Text} (hu : ∀ c ∈ u, isSpace c) :
    name? (s ++ u) = name? s := by
  have hstart : trimStart u = [] := List.dropWhile_eq_nil_iff.2 hu
  have hends : EndsName u := ⟨atWordEnd_of_isSpace hu, by simp [hstart]⟩
  have hnone : name? u = none := by
    rw [← List.append_nil u, name?_spaces hu, name?]
  rw [hends.name?_append, hnone, Option.or_none]

theorem name?_trim (t : Text) : name? (trim t) = name? t :=
  apply_trim (fun _ t hs => name?_spaces hs t) (fun t _ hs => name?_append_space t hs) t

/-- No name reaches over a comma or a closing bracket. -/
theorem name?_append_cons (s : Text) {c : Char} (hc : c = ',' ∨ c = ')') (t : Text) :
    name? (s ++ c :: t) = (name? s).or (name? t) := by
  have hends : EndsName (c :: t) := by
    rcases hc with rfl | rfl <;> exact ⟨rfl, by simp +decide [trimStart]⟩
  have hskip : afterKeyword? (c :: t) = none := by
    rcases hc with rfl | rfl <;> rfl
  rw [hends.name?_append, name?_cons hskip]

/-- The name in texts between commas is the name in the first of them that has one. -/
theorem name?_join (ts : List Text) : name? (join [','] ts) = ts.findSome? name? := by
  induction ts with
  | nil => rfl
  | cons t ts ih =>
    by_cases hts : ts = []
    · subst hts
      simp [join]
    · rw [join_cons _ _ hts, List.append_assoc, List.singleton_append,
        name?_append_cons t (.inl rfl), ih, List.findSome?_cons]
      cases name? t <;> rfl

/-! ### A keyword in the place of the name -/

theorem exists_keyword_of_here? {t : Text} (h : here? t ≠ none) :
    ∃ w c r, IsKeyword w ∧ t = w ++ c :: r ∧ isSpace c := by
  have hkeyword : ∃ w r, IsKeyword w ∧ afterKeyword? t = some r ∧ t = w ++ r := by
    cases hd : after? defWord t with
    | some r =>
      exact ⟨defWord, r, .inl rfl, by rw [afterKeyword?, hd], after?_eq_some_iff.1 hd⟩
    | none =>
      cases hc : after? classWord t with
      | some r =>
        exact ⟨classWord, r, .inr rfl, by rw [afterKeyword?, hd, hc], after?_eq_some_iff.1 hc⟩
      | none => simp [here?, afterKeyword?, hd, hc] at h
  obtain ⟨w, r, hw, hr, rfl⟩ := hkeyword
  rw [here?, hr] at h
  cases r with
  | nil => simp [afterSpaces?] at h
  | cons c r =>
    refine ⟨w, c, r, hw, rfl, ?_⟩
    by_contra hc
    simp [afterSpaces?, hc] at h

theorem first?_eq_none {before t : Text} (h : lastKeyword? before t = none) :
    first? before t = none := by
  rw [lastKeyword?_eq_none_iff] at h
  induction t generalizing before with
  | nil => rfl
  | cons c t ih =>
    have hhere : (if atWordEnd before then here? (c :: t) else none) = none := by
      split
      · next hb =>
        by_contra hne
        obtain ⟨w, d, r, hw, hr, hd⟩ := exists_keyword_of_here? hne
        refine h [] (c :: t) rfl (Place.hasKeyword_iff.2 ⟨w, d :: r, hr, hw, by simpa using hb, ?_⟩)
        simpa [atWordEnd] using not_isWord_of_isSpace hd
      · rfl
    have htail : first? [c] t = none := by
      refine ih fun a b hab hk => h (c :: a) b (by rw [hab]; rfl) ?_
      rwa [Place.hasKeyword_append (by simp), List.reverse_cons]
    rw [first?, hhere]
    exact htail

section Keyword

variable {w r t : Text} (hw : IsKeyword w)

include hw

theorem ofHeader?_keyword (hnone : ¬isDefinitionLine ('(' :: r))
    (ht : MaybeAsync (w ++ '(' :: r) t) : ofHeader? t = none := by
  obtain ⟨before, -, hfirst⟩ := ofHeader?_maybeAsync ht
  have hrest : first? ['('] r = none := by
    rw [← first?_cons (t := r) rfl []]
    refine first?_eq_none ?_
    simpa [isDefinitionLine] using hnone
  rw [hfirst]
  rcases hw with rfl | rfl
  · simp only [defWord, String.reduceToList, List.cons_append, List.nil_append]
    rw [first?_cons_of_here? rfl, first?_cons rfl, first?_cons rfl, first?_cons rfl, hrest]
  · simp only [classWord, String.reduceToList, List.cons_append, List.nil_append]
    rw [first?_cons_of_here? rfl, first?_cons rfl, first?_cons rfl, first?_cons rfl,
      first?_cons rfl, first?_cons rfl, hrest]

theorem name?_keyword (ht : MaybeAsync (w ++ '(' :: r) t) : name? t = name? r := by
  rw [name?_maybeAsync ht]
  rcases hw with rfl | rfl <;> rfl

end Keyword

end DocSnippet.Signature
