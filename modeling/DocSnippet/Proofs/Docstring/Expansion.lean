import DocSnippet.Proofs.Docstring.TypeShape
import DocSnippet.Proofs.Text.WellNested

/-! Tuples and iterators, member by member. A type is taken apart exactly if it is one of a few
words with a balanced text in brackets behind it, and only white space around these breaks the line.
The members are what stands between the commas at the top level of that text, so a tuple written out
of its members gives them back in order: alone, in an iterator and as the first part of a
generator. -/

namespace DocSnippet.Docstring

open Text Definition

/-! ### Words with brackets -/

/-- One of the words `heads` with the text `inner` in brackets behind it. Only the white space
around these may break the line. -/
inductive IsBracketed (heads : List Text) : (type inner : Text) → Prop
  | intro {before head gap inner behind : Text} (hbefore : isBlank before) (hhead : head ∈ heads)
      (hgap : isBlank gap) (hline : '\n' ∉ inner) (hbehind : isBlank behind) :
      IsBracketed heads (before ++ (head ++ (gap ++ '[' :: (inner ++ ']' :: behind)))) inner

theorem IsBracketed.of_word {heads : List Text} {before word inner behind : Text}
    (hbefore : isBlank before) (hword : word ∈ heads) (hline : '\n' ∉ inner)
    (hbehind : isBlank behind) :
    IsBracketed heads (before ++ (word ++ '[' :: (inner ++ ']' :: behind))) inner := by
  have hgap : isBlank [] := rfl
  exact .intro hbefore hword hgap hline hbehind

structure AreHeads (heads : List Text) : Prop where
  visible : ∀ h ∈ heads, h ≠ [] ∧ ∀ c ∈ h.head?, ¬isSpace c
  apart : ∀ h ∈ heads, ∀ k ∈ heads, h <+: k → h = k

namespace AreHeads

variable {heads : List Text} {head : Text}

theorem of_words (hwords : ∀ h ∈ heads, h ≠ [] ∧ h.all isWord)
    (happart : ∀ h ∈ heads, ∀ k ∈ heads, h <+: k → h = k) : AreHeads heads where
  visible h hh := by
    obtain ⟨hne, hword⟩ := hwords h hh
    exact ⟨hne, fun c hc => by
      simp [not_isSpace_of_isWord (List.all_eq_true.1 hword c (List.mem_of_mem_head? hc))]⟩
  apart := happart

theorem findSome?_after? (h : AreHeads heads) (hhead : head ∈ heads) (rest : Text) :
    (heads.findSome? fun k => after? k (head ++ rest)) = some rest := by
  have hself : after? head (head ++ rest) = some rest := after?_eq_some_iff.2 rfl
  cases hfind : heads.findSome? fun k => after? k (head ++ rest) with
  | none =>
    rw [List.findSome?_eq_none_iff] at hfind
    simp [hfind head hhead] at hself
  | some r =>
    obtain ⟨k, hk, hkr⟩ := List.exists_of_findSome?_eq_some hfind
    have hr := after?_eq_some_iff.1 hkr
    have heq : k = head := by
      rcases List.prefix_or_prefix_of_prefix ⟨r, hr.symm⟩ (List.prefix_append head rest)
        with hp | hp
      · exact h.apart k hk head hhead hp
      · exact (h.apart head hhead k hk hp).symm
    rw [heq, List.append_cancel_left_eq] at hr
    rw [hr]

theorem trimStart_append (h : AreHeads heads) (hhead : head ∈ heads) {before : Text}
    (hbefore : isBlank before) (rest : Text) :
    trimStart (before ++ (head ++ rest)) = head ++ rest := by
  obtain ⟨hne, hvisible⟩ := h.visible head hhead
  refine trimStart_space_append (isBlank_iff.1 hbefore) ?_
  rwa [List.head?_append_of_ne_nil _ hne]

end AreHeads

/-- The brackets of a type are found exactly if they stand behind one of the words. -/
theorem bracketed?_eq_some_iff {heads : List Text} (hheads : AreHeads heads) {type inner : Text} :
    bracketed? heads type = some inner ↔ IsBracketed heads type inner := by
  constructor
  · intro h
    simp only [bracketed?, Option.bind_eq_bind, Option.bind_eq_some_iff] at h
    obtain ⟨u, hu, v, hv, w, hw, hinner⟩ := h
    obtain ⟨hline, rfl⟩ : '\n' ∉ w ∧ w = inner := by simpa using hinner
    obtain ⟨head, hhead, hafter⟩ := List.exists_of_findSome?_eq_some hu
    obtain ⟨before, hbefore, htype⟩ := exists_eq_append_trimStart type
    obtain ⟨gap, hgap, hgapped⟩ := exists_eq_append_trimStart u
    obtain ⟨behind, hbehind, hended⟩ := exists_eq_trimEnd_append v
    rw [before?_eq_some_iff.1 hw] at hended
    rw [after?_eq_some_iff.1 hv, hended] at hgapped
    rw [after?_eq_some_iff.1 hafter, hgapped] at htype
    rw [htype]
    simpa using IsBracketed.intro hbefore hhead hgap hline (isBlank_iff.2 hbehind)
  · rintro @⟨before, head, gap, _, behind, hbefore, hhead, hgap, hline, hbehind⟩
    have hopen : trimStart (gap ++ '[' :: (inner ++ ']' :: behind)) =
        '[' :: (inner ++ ']' :: behind) :=
      trimStart_space_append (isBlank_iff.1 hgap) (by simpa using show ¬isSpace '[' by decide)
    have hclose : trimEnd (inner ++ ']' :: behind) = inner ++ [']'] := by
      rw [show inner ++ ']' :: behind = inner ++ [']'] ++ behind by simp,
        trimEnd_append_of_space _ (isBlank_iff.1 hbehind), trimEnd_eq_self_iff]
      simpa using show ¬isSpace ']' by decide
    have hbracket : after? ['['] ('[' :: (inner ++ ']' :: behind)) =
        some (inner ++ ']' :: behind) := after?_eq_some_iff.2 rfl
    have hinner : before? [']'] (inner ++ [']']) = some inner := before?_eq_some_iff.2 rfl
    simp [bracketed?, hheads.trimStart_append hhead hbefore, hheads.findSome?_after? hhead, hopen,
      hclose, hbracket, hinner, hline]

def tupleWords : List Text := ["Tuple".toList, "tuple".toList]

def iteratorWords : List Text := [generatorWord, iteratorWord]

theorem areHeads_tupleWords : AreHeads tupleWords :=
  .of_words (by decide +kernel) (by decide +kernel)

theorem areHeads_iteratorWords : AreHeads iteratorWords :=
  .of_words (by decide +kernel) (by decide +kernel)

/-- A tuple is taken apart exactly if its brackets hold a balanced text. -/
theorem tupleMembers?_eq_some_iff {type : Text} {ps : List Product} :
    tupleMembers? type = some ps ↔ ∃ inner, IsBracketed tupleWords type inner ∧ isBalanced inner ∧
      (dropEmptyLast (topParts ',' inner)).map (fun p => ⟨memberType? p⟩) = ps := by
  simp only [← bracketed?_eq_some_iff areHeads_tupleWords]
  simp [tupleMembers?, tupleWords, balancedParts?_eq, Option.bind_eq_some_iff, and_assoc]

/-! ### Members -/

structure IsMember (m : Text) : Prop where
  ne_nil : m ≠ []
  trimmed : trim m = m
  line : '\n' ∉ m
  part : IsPart ',' m

instance (m : Text) : Decidable (IsMember m) :=
  decidable_of_iff (m ≠ [] ∧ trim m = m ∧ '\n' ∉ m ∧ IsPart ',' m)
    ⟨fun h => ⟨h.1, h.2.1, h.2.2.1, h.2.2.2⟩, fun h => ⟨h.ne_nil, h.trimmed, h.line, h.part⟩⟩

theorem memberType?_of_trim {p m : Text} (hne : m ≠ []) (hp : trim p = m) :
    memberType? p = some m := by
  obtain ⟨c, r, rfl⟩ := List.exists_cons_of_ne_nil hne
  rw [memberType?, hp]

/-- The parts of a row of members that are written with a comma and a blank between them, and
perhaps a comma behind the last one. -/
def memberParts (m : Text) (ms : List Text) (comma : Bool) : List Text :=
  m :: ms.map (' ' :: ·) ++ if comma then [[]] else []

theorem join_blank_cons (m : Text) (ms : List Text) :
    join [','] (m :: ms.map (' ' :: ·)) = join [',', ' '] (m :: ms) := by
  induction ms generalizing m with
  | nil => rfl
  | cons k ms ih =>
    have hblank : join [','] ((' ' :: k) :: ms.map (' ' :: ·)) =
        ' ' :: join [',', ' '] (k :: ms) := by
      rw [← ih k, ← join_consHead _ _ (by simp)]
      rfl
    rw [List.map_cons, join_cons [','] m (by simp), hblank, join_cons [',', ' '] m (by simp)]
    simp

theorem join_memberParts (m : Text) (ms : List Text) (comma : Bool) :
    join [','] (memberParts m ms comma) =
      join [',', ' '] (m :: ms) ++ if comma then [','] else [] := by
  cases comma with
  | false => simpa [memberParts] using join_blank_cons m ms
  | true =>
    rw [memberParts, if_pos rfl, join_concat _ (by simp), join_blank_cons, if_pos rfl]
    simp

theorem isPart_blank_cons {p : Text} (hp : IsPart ',' p) : IsPart ',' (' ' :: p) :=
  (IsPart.space_append_iff (s := [' ']) (by decide) (List.all_eq_true.1 (by decide))).2 hp

section

variable {m : Text} {ms : List Text} (hms : ∀ k ∈ m :: ms, IsMember k)

include hms

/-- A member is all that can be seen of its part, and the part behind a last comma is empty. -/
theorem mem_memberParts {comma : Bool} {p : Text} (hp : p ∈ memberParts m ms comma) :
    p = [] ∨ ∃ k, IsMember k ∧ (p = k ∨ p = ' ' :: k) := by
  simp only [memberParts, List.cons_append, List.mem_cons, List.mem_append, List.mem_map] at hp
  rcases hp with rfl | ⟨k, hk, rfl⟩ | hp
  · exact .inr ⟨p, hms p (by simp), .inl rfl⟩
  · exact .inr ⟨k, hms k (by simp [hk]), .inr rfl⟩
  · split at hp
    · exact .inl (by simpa using hp)
    · simp at hp

theorem isPart_of_mem_memberParts {comma : Bool} {p : Text} (hp : p ∈ memberParts m ms comma) :
    IsPart ',' p := by
  rcases mem_memberParts hms hp with rfl | ⟨k, hk, rfl | rfl⟩
  · exact ⟨rfl, rfl⟩
  · exact hk.part
  · exact isPart_blank_cons hk.part

theorem newline_notMem_of_mem_memberParts {comma : Bool} {p : Text}
    (hp : p ∈ memberParts m ms comma) : '\n' ∉ p := by
  rcases mem_memberParts hms hp with rfl | ⟨k, hk, rfl | rfl⟩
  · simp
  · exact hk.line
  · simp [hk.line]

theorem dropEmptyLast_memberParts (comma : Bool) :
    dropEmptyLast (memberParts m ms comma) = m :: ms.map (' ' :: ·) := by
  cases comma with
  | true => rw [memberParts, if_pos rfl, dropEmptyLast, List.getLast?_concat, if_pos rfl,
      List.dropLast_concat]
  | false =>
    have hlast : (m :: ms.map (' ' :: ·)).getLast? ≠ some [] := by
      intro h
      have hmem := List.mem_of_mem_getLast? h
      simp only [List.mem_cons, List.mem_map, reduceCtorEq, and_false, exists_false, or_false]
        at hmem
      exact (hms m (by simp)).ne_nil hmem.symm
    simp [dropEmptyLast, memberParts, hlast]

theorem map_memberType? :
    (m :: ms.map (' ' :: ·)).map (fun p => (⟨memberType? p⟩ : Product)) =
      (m :: ms).map fun k => ⟨some k⟩ := by
  have hmember : ∀ k ∈ m :: ms, memberType? k = some k := fun k hk =>
    memberType?_of_trim (hms k hk).ne_nil (hms k hk).trimmed
  have hblank : ∀ k ∈ m :: ms, memberType? (' ' :: k) = some k := fun k hk =>
    memberType?_of_trim (hms k hk).ne_nil
      (by rw [trim_cons_of_space (by decide), (hms k hk).trimmed])
  rw [List.map_cons, List.map_cons, List.map_map, hmember m (by simp)]
  refine congrArg _ (List.map_congr_left fun k hk => ?_)
  rw [Function.comp_apply, hblank k (by simp [hk])]

end

/-! ### Tuples -/

theorem notMem_join {c : Char} {sep : Text} (hsep : c ∉ sep) {ps : List Text}
    (h : ∀ p ∈ ps, c ∉ p) : c ∉ join sep ps := by
  induction ps with
  | nil => simp [join]
  | cons p ps ih =>
    rw [List.forall_mem_cons] at h
    by_cases hps : ps = []
    · subst hps
      exact h.1
    · rw [join_cons _ _ hps]
      simp [hsep, h.1, ih h.2]

theorem isBalanced_join {ps : List Text} (hne : ps ≠ []) (h : ∀ p ∈ ps, IsPart ',' p) :
    topParts ',' (join [','] ps) = ps ∧ isBalanced (join [','] ps) := by
  have hparts := topParts_join (by decide) (by decide) hne h
  refine ⟨hparts, ?_⟩
  rw [isBalanced_iff_forall_mem_topParts ',', hparts]
  exact fun p hp => (h p hp).balanced

/-- A tuple type that is written out of its members, with white space around it and perhaps with a
comma behind the last member. -/
inductive IsTuple : (type : Text) → (members : List Text) → Prop
  | intro {before head behind m : Text} {ms : List Text} {comma : Bool}
      (hbefore : ∀ c ∈ before, isSpace c ∧ c ≠ '\n') (hhead : head ∈ tupleWords)
      (hms : ∀ k ∈ m :: ms, IsMember k) (hbehind : ∀ c ∈ behind, isSpace c ∧ c ≠ '\n') :
      IsTuple (before ++ head ++ ['['] ++ join [',', ' '] (m :: ms) ++
        (if comma then [','] else []) ++ [']'] ++ behind) (m :: ms)

namespace IsTuple

variable {type : Text} {members : List Text}

theorem exists_parts (h : IsTuple type members) :
    ∃ before head parts behind,
      type = before ++ (head ++ '[' :: (join [','] parts ++ ']' :: behind)) ∧
      ((∀ c ∈ before, isSpace c ∧ c ≠ '\n') ∧ head ∈ tupleWords ∧
        ∀ c ∈ behind, isSpace c ∧ c ≠ '\n') ∧
      parts ≠ [] ∧ (∀ p ∈ parts, IsPart ',' p ∧ '\n' ∉ p) ∧
      (dropEmptyLast parts).map (fun p => (⟨memberType? p⟩ : Product)) =
        members.map fun k => ⟨some k⟩ := by
  obtain @⟨before, head, behind, m, ms, comma, hbefore, hhead, hms, hbehind⟩ := h
  refine ⟨before, head, memberParts m ms comma, behind, ?_, ⟨hbefore, hhead, hbehind⟩,
    by simp [memberParts], fun p hp => ?_, ?_⟩
  · simp [join_memberParts]
  · exact ⟨isPart_of_mem_memberParts hms hp, newline_notMem_of_mem_memberParts hms hp⟩
  · rw [dropEmptyLast_memberParts hms, map_memberType? hms]

theorem tupleMembers?_eq (h : IsTuple type members) :
    tupleMembers? type = some (members.map fun k => ⟨some k⟩) := by
  obtain ⟨before, head, parts, behind, rfl, ⟨hbefore, hhead, hbehind⟩, hne, hparts, hmembers⟩ :=
    h.exists_parts
  obtain ⟨htop, hbalanced⟩ := isBalanced_join hne fun p hp => (hparts p hp).1
  have hline : '\n' ∉ join [','] parts := notMem_join (by decide) fun p hp => (hparts p hp).2
  rw [tupleMembers?_eq_some_iff]
  refine ⟨join [','] parts, ?_, hbalanced, by rw [htop, hmembers]⟩
  exact .of_word (isBlank_iff.2 fun c hc => (hbefore c hc).1) hhead hline
    (isBlank_iff.2 fun c hc => (hbehind c hc).1)

theorem itemType?_eq_none (h : IsTuple type members) : itemType? type = none := by
  obtain ⟨before, head, parts, behind, htype, ⟨hbefore, hhead, -⟩, -⟩ := h.exists_parts
  have hnone : bracketed? iteratorWords type = none := by
    by_contra hsome
    obtain ⟨inner, hinner⟩ := Option.ne_none_iff_exists'.1 hsome
    obtain @⟨lead, word, gap, inner, tail, hlead, hword, -, -, -⟩ :=
      (bracketed?_eq_some_iff areHeads_iteratorWords).1 hinner
    -- both words stand at the head of the type without the white space in front of it
    have hstart := congrArg trimStart htype
    rw [areHeads_iteratorWords.trimStart_append hword hlead, areHeads_tupleWords.trimStart_append
      hhead (isBlank_iff.2 fun c hc => (hbefore c hc).1)] at hstart
    have hapart : ∀ k ∈ tupleWords, ∀ w ∈ iteratorWords, ¬k <+: w ∧ ¬w <+: k := by
      decide +kernel
    rcases List.prefix_or_prefix_of_prefix (List.prefix_append head _)
      (hstart ▸ List.prefix_append word _) with hp | hp
    · exact (hapart head hhead word hword).1 hp
    · exact (hapart head hhead word hword).2 hp
  rw [itemType?, show [generatorWord, iteratorWord] = iteratorWords from rfl, hnone]
  rfl

theorem isPart (h : IsTuple type members) : IsPart ',' type := by
  obtain ⟨before, head, parts, behind, rfl, ⟨hbefore, hhead, hbehind⟩, hne, hparts, -⟩ :=
    h.exists_parts
  have hbrackets : IsPart ',' ('[' :: (join [','] parts ++ [']'])) :=
    .bracketed (by decide) (isBalanced_join hne fun p hp => (hparts p hp).1).2
  have hword : ∀ k ∈ tupleWords, IsPart ',' k := by decide
  have hspaced := (IsPart.space_append_iff (by decide) fun c hc => (hbefore c hc).1).2
    ((hword head hhead).append
      ((IsPart.append_space_iff (by decide) fun c hc => (hbehind c hc).1).2 hbrackets))
  simpa using hspaced

theorem line (h : IsTuple type members) : '\n' ∉ type := by
  obtain ⟨before, head, parts, behind, rfl, ⟨hbefore, hhead, hbehind⟩, hne, hparts, -⟩ :=
    h.exists_parts
  have hword : ∀ k ∈ tupleWords, '\n' ∉ k := by decide
  have hinner : '\n' ∉ join [','] parts := notMem_join (by decide) fun p hp => (hparts p hp).2
  have hlead : '\n' ∉ before := fun hc => (hbefore _ hc).2 rfl
  have htail : '\n' ∉ behind := fun hc => (hbehind _ hc).2 rfl
  simp [hword head hhead, hinner, hlead, htail]

theorem trim (h : IsTuple type members) : IsTuple (Text.trim type) members := by
  obtain @⟨before, head, behind, m, ms, comma, hbefore, hhead, hms, hbehind⟩ := h
  have hword : ∀ k ∈ tupleWords, Text.trim k = k ∧ k ≠ [] := by decide
  have hbare := trim_append_append (hword head hhead).1 (show Text.trim [']'] = [']'] by decide)
    (hword head hhead).2 (by simp)
    (['['] ++ join [',', ' '] (m :: ms) ++ if comma then [','] else [])
  have htrim : Text.trim (before ++ head ++ ['['] ++ join [',', ' '] (m :: ms) ++
      (if comma then [','] else []) ++ [']'] ++ behind) =
        [] ++ head ++ ['['] ++ join [',', ' '] (m :: ms) ++ (if comma then [','] else []) ++
          [']'] ++ [] := by
    rw [trim_append_of_space _ fun c hc => (hbehind c hc).1]
    simp only [List.append_assoc, List.nil_append, List.append_nil] at hbare ⊢
    rw [trim_space_append fun c hc => (hbefore c hc).1, hbare]
  rw [htrim]
  exact .intro (by simp) hhead hms (by simp)

theorem ne_nil (h : IsTuple type members) : type ≠ [] := by
  obtain ⟨_, _, _, _, rfl, _⟩ := h.exists_parts
  simp

end IsTuple

/-! ### Iterators -/

/-- Of the parts in the brackets of an iterator the first one counts. -/
theorem itemType?_join {word : Text} (hword : word ∈ iteratorWords) {first : Text}
    {rest : List Text} (h : ∀ p ∈ first :: rest, IsPart ',' p ∧ '\n' ∉ p) :
    itemType? (word ++ ['['] ++ join [','] (first :: rest) ++ [']']) = memberType? first := by
  obtain ⟨htop, hbalanced⟩ := isBalanced_join (List.cons_ne_nil first rest) fun p hp => (h p hp).1
  have hline : '\n' ∉ join [','] (first :: rest) := notMem_join (by decide) fun p hp => (h p hp).2
  have hblank : isBlank [] := rfl
  have hshape : IsBracketed iteratorWords (word ++ ['['] ++ join [','] (first :: rest) ++ [']'])
      (join [','] (first :: rest)) := by
    simpa using IsBracketed.of_word hblank hword hline hblank
  have hinner := (bracketed?_eq_some_iff areHeads_iteratorWords).2 hshape
  rw [itemType?, show [generatorWord, iteratorWord] = iteratorWords from rfl, hinner]
  simp [balancedParts?_eq, hbalanced, htop]

/-- What is yielded is taken apart as if its items were returned. -/
theorem expandYields_of_itemType? {type item : Text} (h : itemType? type = some item) :
    expandYields ⟨some type⟩ = expandReturns [⟨some item⟩] := by
  simp [expandYields, expandReturns, h]

theorem expandReturns_of_isTuple {type : Text} {members : List Text} (h : IsTuple type members) :
    expandReturns [⟨some type⟩] = members.map fun k => ⟨some k⟩ := by
  simp [expandReturns, h.tupleMembers?_eq]

/-- A tuple in the brackets of an iterator, alone or in front of other parts, is taken apart. -/
theorem expandYields_join {type word : Text} {members : List Text} (h : IsTuple type members)
    (hword : word ∈ iteratorWords) {rest : List Text}
    (hrest : ∀ p ∈ rest, IsPart ',' p ∧ '\n' ∉ p) :
    expandYields ⟨some (word ++ ['['] ++ join [','] (type :: rest) ++ [']'])⟩ =
      members.map fun k => ⟨some k⟩ := by
  have hitem := itemType?_join hword (List.forall_mem_cons.2 ⟨⟨h.isPart, h.line⟩, hrest⟩)
  rw [memberType?_of_trim h.trim.ne_nil rfl] at hitem
  rw [expandYields_of_itemType? hitem, expandReturns_of_isTuple h.trim]

theorem expandReturns_of_not_isBracketed {p : Product}
    (h : ∀ type ∈ p.type?, ∀ inner, IsBracketed tupleWords type inner → ¬isBalanced inner) :
    expandReturns [p] = [p] := by
  have hnone : p.type?.bind tupleMembers? = none := by
    rw [Option.bind_eq_none_iff]
    intro type htype
    by_contra hsome
    obtain ⟨ps, hps⟩ := Option.ne_none_iff_exists'.1 hsome
    obtain ⟨inner, hinner, hbalanced, -⟩ := tupleMembers?_eq_some_iff.1 hps
    exact h type htype inner hinner hbalanced
  rw [expandReturns, hnone]
  rfl

/-- A tuple type that is written out of its members gives an entry for each of them, in order:
where it is returned, where it is yielded, and where an iterator or a generator of it is. Conversely
a type that is returned alone stays as it is unless it is a tuple with a balanced text in its
brackets. -/
theorem expand_tuple :
    (∀ type members, IsTuple type members →
      let entries : List Product := members.map fun m => ⟨some m⟩
      expandReturns [⟨some type⟩] = entries ∧ expandYields ⟨some type⟩ = entries ∧
        expandYields ⟨some (iteratorWord ++ ['['] ++ type ++ [']'])⟩ = entries ∧
        ∀ x y, IsPart ',' x → '\n' ∉ x → IsPart ',' y → '\n' ∉ y →
          expandYields ⟨some (generatorWord ++ ['['] ++ type ++ [',', ' '] ++ x ++
            [',', ' '] ++ y ++ [']'])⟩ = entries) ∧
    ∀ p : Product,
      (∀ type ∈ p.type?, ∀ inner, IsBracketed tupleWords type inner → ¬isBalanced inner) →
        expandReturns [p] = [p] := by
  refine ⟨fun type members h => ⟨expandReturns_of_isTuple h, ?_, ?_, ?_⟩,
    fun p => expandReturns_of_not_isBracketed⟩
  · simp [expandYields, h.itemType?_eq_none, h.tupleMembers?_eq]
  · have hnone : ∀ p ∈ ([] : List Text), IsPart ',' p ∧ '\n' ∉ p := by simp
    have hword : iteratorWord ∈ iteratorWords := by simp [iteratorWords]
    simpa only [join] using expandYields_join h hword hnone
  · intro x y hx hxline hy hyline
    have hparts : ∀ p ∈ [' ' :: x, ' ' :: y], IsPart ',' p ∧ '\n' ∉ p := by
      simp [isPart_blank_cons hx, isPart_blank_cons hy, hxline, hyline]
    have hword : generatorWord ∈ iteratorWords := by simp [iteratorWords]
    have hexpand := expandYields_join h hword hparts
    simpa [join] using hexpand

/-- Members that are tuples and generators themselves, a comma in a quoted one, and a last comma;
and a union that starts and ends like a tuple. -/
theorem expand_tuple_nested :
    let members := ["Tuple[int, str]".toList, "Generator[a, b, c]".toList, "Literal['],']".toList]
    let type := "\t tuple[Tuple[int, str], Generator[a, b, c], Literal['],'],]\r".toList
    let union := "Tuple[a] | List[b]".toList
    (IsTuple type members ∧ IsPart ',' "None".toList ∧
      ∀ inner, IsBracketed tupleWords union inner → ¬isBalanced inner) ∧
    expandReturns [⟨some type⟩] = members.map (fun m => ⟨some m⟩) ∧
      expandYields ⟨some ("Generator[".toList ++ type ++ ", None, ]".toList)⟩ =
        members.map (fun m => ⟨some m⟩) ∧
      expandReturns [⟨some union⟩] = [⟨some union⟩] := by
  intro members type union
  have htype : IsTuple type members := by
    have hspelled : type = "\t ".toList ++ "tuple".toList ++ ['['] ++ join [',', ' '] members ++
        (if true then [','] else []) ++ [']'] ++ "\r".toList := by decide
    have hlead : ∀ c ∈ ['\t', ' '], isSpace c ∧ c ≠ '\n' := by
      simp [show isSpace '\t' by decide, show isSpace ' ' by decide]
    have htail : ∀ c ∈ ['\r'], isSpace c ∧ c ≠ '\n' := by simp [show isSpace '\r' by decide]
    rw [hspelled]
    exact .intro hlead (by decide) (by decide) htail
  have hunion : ∀ inner, IsBracketed tupleWords union inner → ¬isBalanced inner := by
    intro inner hinner
    have hfound : bracketed? tupleWords union = some "a] | List[b".toList := by decide
    rw [← bracketed?_eq_some_iff areHeads_tupleWords, hfound] at hinner
    rw [← Option.some.inj hinner]
    decide
  obtain ⟨hreturns, -, -, hgenerator⟩ := expand_tuple.1 type members htype
  refine ⟨⟨htype, by decide, hunion⟩, hreturns, ?_, ?_⟩
  · exact hgenerator "None".toList [] (by decide) (by decide) (by decide) (by decide)
  · exact expand_tuple.2 ⟨some union⟩ fun t ht => Option.some.inj ht ▸ hunion

end DocSnippet.Docstring
