import DocSnippet.Proofs.Definition.ClassLevel
import DocSnippet.Proofs.Signature.Annotation

/-! Attribute lines. An attribute is cut at the colon behind its name and at the first equals sign,
and its default is not looked into. So the attributes that a class body writes are read back
exactly, in line order, whatever comments, methods, decorators, private names, class variables and
other statements stand between them. -/

namespace DocSnippet.Definition

open Text Source Signature

namespace Attribute

/-! ### Lines of other kinds -/

/-- What methods, nested classes, decorators and comments start with. -/
def foreignHeads : List Text :=
  [defWord ++ [' '], asyncWord ++ [' '] ++ defWord ++ [' '], ['@'], classWord ++ [' '], ['#']]

theorem isForeign_iff {t : Text} : isForeign t ↔ ∃ head ∈ foreignHeads, head <+: t := by
  simp [isForeign, foreignHeads, startsWith_iff, or_assoc]

/-- A line that starts with a name is foreign only if the name is a keyword and a blank follows. -/
theorem isKeyword_of_isForeign {v r : Text} (hv : IsName v) (hr : atWordEnd r)
    (h : isForeign (v ++ r)) :
    (v = defWord ∨ v = asyncWord ∨ v = classWord) ∧ r.head? = some ' ' := by
  obtain ⟨head, hhead, rest, heq⟩ := isForeign_iff.1 h
  have hword : word? (head ++ rest) = some (v, r) := by rw [heq, hv.word?_append hr]
  have hkeyword {w s : Text} (hw : IsName w) (hhead : head = w ++ ' ' :: s) :
      v = w ∧ r.head? = some ' ' := by
    rw [hhead, List.append_assoc, hw.word?_append (r := ' ' :: s ++ rest) rfl] at hword
    obtain ⟨rfl, rfl⟩ : w = v ∧ ' ' :: s ++ rest = r := by simpa using hword
    exact ⟨rfl, rfl⟩
  have hsign {c : Char} (hc : ¬isWord c) : head ≠ [c] := by
    rintro rfl
    rw [word?_eq_none (by simpa using hc)] at hword
    contradiction
  simp only [foreignHeads, List.mem_cons, List.not_mem_nil, or_false] at hhead
  rcases hhead with hdef | hasync | hat | hclass | hsharp
  · exact (hkeyword (by decide) hdef).imp_left .inl
  · exact (hkeyword (by decide) (hasync.trans (List.append_assoc _ _ _))).imp_left (.inr ∘ .inl)
  · exact absurd hat (hsign (by decide))
  · exact (hkeyword (by decide) hclass).imp_left (.inr ∘ .inr)
  · exact absurd hsharp (hsign (by decide))

theorem not_isForeign {v r : Text} (hv : IsName v) (hr : atWordEnd r)
    (hblank : r.head? ≠ some ' ') : ¬isForeign (v ++ r) :=
  fun h => hblank (isKeyword_of_isForeign hv hr h).2

/-! ### Annotated lines -/

theorem ofLine?_of_isAnnotated {l v u : Text} (h : IsAnnotated (trim l) v u)
    (hforeign : ¬isForeign (trim l)) : ofLine? l = ofAnnotation? v u := by
  obtain ⟨gap, -, hword⟩ := h.word?_eq
  have hcolon : afterColon? (trim l) = some u := afterColon?_eq_some_iff.2 ⟨v, h⟩
  unfold ofLine?
  simp [hforeign, hword, hcolon]

theorem exists_isAnnotated_of_ofLine? {l : Text} {a : Attribute} (h : ofLine? l = some a) :
    ∃ v u, IsAnnotated (trim l) v u ∧ ofAnnotation? v u = some a := by
  simp only [ofLine?] at h
  split at h
  · contradiction
  next =>
    split at h
    next v r hword =>
      obtain ⟨u, hcolon, ha⟩ := Option.bind_eq_some_iff.1 h
      obtain ⟨w, hw⟩ := afterColon?_eq_some_iff.1 hcolon
      exact ⟨w, u, hw, hw.eq_of_word? hword ▸ ha⟩
    next => contradiction

theorem ofAnnotation?_of_notMem {u : Text} (hequals : '=' ∉ u) (v : Text) :
    ofAnnotation? v u =
      if u = [] ∨ isHidden v (trim u) then none else some (.required ⟨v, some (trim u)⟩) := by
  have htake : u.takeWhile (· != '=') = u :=
    List.takeWhile_eq_self_iff.2 (bne_of_notMem hequals)
  have hdrop : u.dropWhile (· != '=') = [] :=
    List.dropWhile_eq_nil_iff.2 (bne_of_notMem hequals)
  simp [ofAnnotation?, htake, hdrop]

theorem ofAnnotation?_append {T : Text} (hequals : '=' ∉ T) (v r : Text) :
    ofAnnotation? v (T ++ '=' :: r) =
      if T = [] ∨ isHidden v (trim T) ∨ trimStart r = [] ∨ '\n' ∈ trimStart r then none
      else some (.optional ⟨v, some (trim T), trim (trimStart r)⟩) := by
  have htake : (T ++ '=' :: r).takeWhile (· != '=') = T := by
    rw [List.takeWhile_append_of_pos (bne_of_notMem hequals)]
    exact List.append_nil T
  have hdrop : (T ++ '=' :: r).dropWhile (· != '=') = '=' :: r := by
    rw [List.dropWhile_append_of_pos (bne_of_notMem hequals)]
    rfl
  simp only [ofAnnotation?, htake, hdrop]
  split_ifs <;> simp_all

theorem ofAnnotation?_eq_required_iff {v u : Text} {a : Argument} :
    ofAnnotation? v u = some (.required a) ↔
      u ≠ [] ∧ '=' ∉ u ∧ ¬isHidden v (trim u) ∧ a = ⟨v, some (trim u)⟩ := by
  by_cases hequals : '=' ∈ u
  · obtain ⟨T, r, rfl, hT⟩ := List.eq_append_cons_of_mem hequals
    rw [ofAnnotation?_append hT]
    split_ifs <;> simp
  · rw [ofAnnotation?_of_notMem hequals]
    split_ifs with hnone
    · simp only [false_iff, not_and]
      intro hne _ hhidden
      exact absurd hnone (not_or_intro hne hhidden)
    · obtain ⟨hne, hhidden⟩ := not_or.1 hnone
      simp [hne, hequals, hhidden, eq_comm]

theorem exists_of_ofAnnotation?_eq_optional {v u : Text} {k : KeywordArgument}
    (h : ofAnnotation? v u = some (.optional k)) :
    ∃ T r, u = T ++ '=' :: r ∧ '=' ∉ T ∧ '\n' ∉ trimStart r ∧
      k = ⟨v, some (trim T), trim (trimStart r)⟩ := by
  by_cases hequals : '=' ∈ u
  · obtain ⟨T, r, rfl, hT⟩ := List.eq_append_cons_of_mem hequals
    rw [ofAnnotation?_append hT] at h
    split_ifs at h with hnone
    simp only [not_or] at hnone
    simp only [Option.some.injEq, Attribute.optional.injEq] at h
    exact ⟨T, r, rfl, hT, hnone.2.2.2, h.symm⟩
  · rw [ofAnnotation?_of_notMem hequals] at h
    split_ifs at h
    simp at h

end Attribute

/-! ### The lines of a class body -/

structure IsAttributeName (v : Text) : Prop extends IsName v where
  not_private : v.head? ≠ some '_'

structure IsAttributeType (T : Text) : Prop where
  ne_nil : T ≠ []
  trimmed : trim T = T
  no_equals : '=' ∉ T
  not_classVar : ¬Attribute.classVarWord <+: T

structure IsAttributeDefault (d : Text) : Prop where
  ne_nil : d ≠ []
  trimmed : trim d = d
  line : '\n' ∉ d

inductive IsSilent : Text → Prop
  | blank : IsSilent []
  | foreign {p r : Text} (h : p ∈ Attribute.foreignHeads) : IsSilent (p ++ r)
  | hidden {t v u : Text} (h : IsAnnotated t v u) (hv : v.head? = some '_') : IsSilent t
  | classVar {t v s r : Text} (hs : ∀ c ∈ s, isSpace c)
      (h : IsAnnotated t v (s ++ Attribute.classVarWord ++ r)) : IsSilent t
  | unannotated {t : Text} (h : ∀ v u, ¬IsAnnotated t v u) : IsSilent t

inductive ClassLine
  | required (v T : Text) (hv : IsAttributeName v) (hT : IsAttributeType T)
  | optional (v T d : Text) (hv : IsAttributeName v) (hT : IsAttributeType T)
      (hd : IsAttributeDefault d)
  | silent (l : Text) (h : IsSilent (trim l))

namespace ClassLine

def text : ClassLine → Text
  | .required v T _ _ => v ++ [':', ' '] ++ T
  | .optional v T d _ _ _ => v ++ [':', ' '] ++ T ++ [' ', '=', ' '] ++ d
  | .silent l _ => l

def argument? : ClassLine → Option Argument
  | .required v T _ _ => some ⟨v, some T⟩
  | _ => none

def keywordArgument? : ClassLine → Option KeywordArgument
  | .optional v T d _ _ _ => some ⟨v, some T, d⟩
  | _ => none

end ClassLine

/-! ### Reading the lines back -/

namespace Attribute

theorem ofLine?_written {v u : Text} (hv : IsName v) (hne : u ≠ []) (hu : trim u = u) :
    ofLine? (v ++ [':', ' '] ++ u) = ofAnnotation? v (' ' :: u) := by
  have htrim := trim_append_append hv.trimmed hu hv.ne_nil hne [':', ' ']
  have hshape : v ++ [':', ' '] ++ u = v ++ ':' :: ' ' :: u := by simp
  rw [hshape] at htrim ⊢
  have hannotated : IsAnnotated (trim (v ++ ':' :: ' ' :: u)) v (' ' :: u) := by
    rw [htrim]
    exact ⟨hv, [], by simp, by simp⟩
  refine ofLine?_of_isAnnotated hannotated ?_
  rw [htrim]
  exact not_isForeign hv rfl (by simp)

theorem not_isHidden {v T : Text} (hv : IsAttributeName v) (hT : IsAttributeType T) :
    isHidden v (trim T) = false := by
  have htype : startsWith classVarWord (trim T) = false := by
    rw [hT.trimmed, Bool.eq_false_iff, Ne, startsWith_iff]
    exact hT.not_classVar
  simp [isHidden, hv.not_private, htype]

/-- A hidden name or type hides an attribute, with or without a default. -/
theorem ofAnnotation?_eq_none {v u : Text} (h : isHidden v (trim (u.takeWhile (· != '=')))) :
    ofAnnotation? v u = none := by
  simp [ofAnnotation?, h]

theorem ofLine?_eq_none {l : Text}
    (h : isForeign (trim l) ∨ ∀ v u, IsAnnotated (trim l) v u → ofAnnotation? v u = none) :
    ofLine? l = none := by
  rcases h with hforeign | hnone
  · simp [ofLine?, hforeign]
  · by_contra hsome
    obtain ⟨a, ha⟩ := Option.ne_none_iff_exists'.1 hsome
    obtain ⟨v, u, hvu, hu⟩ := exists_isAnnotated_of_ofLine? ha
    rw [hnone v u hvu] at hu
    contradiction

theorem isHidden_of_classVar {gap : Text} (hgap : ∀ c ∈ gap, isSpace c) (v rest : Text) :
    isHidden v (trim ((gap ++ classVarWord ++ rest).takeWhile (· != '='))) := by
  have hgap' : '=' ∉ gap := fun h => absurd (hgap _ h) (by decide)
  have htake : (gap ++ classVarWord ++ rest).takeWhile (· != '=') =
      gap ++ (classVarWord ++ rest.takeWhile (· != '=')) := by
    rw [List.append_assoc, List.takeWhile_append_of_pos (bne_of_notMem hgap'),
      List.takeWhile_append_of_pos (bne_of_notMem (by decide))]
  have hword := isPrefix_trim_append (s := classVarWord) (by decide) (by decide)
    (rest.takeWhile (· != '='))
  rw [htake, trim_space_append hgap, isHidden, startsWith_iff.2 hword, Bool.or_true]

theorem ofLine?_of_isSilent {l : Text} (h : IsSilent (trim l)) : ofLine? l = none := by
  apply ofLine?_eq_none
  generalize trim l = t at h
  cases h with
  | blank =>
    right
    rintro v u ⟨hv, gap, -, h⟩
    simp [hv.ne_nil] at h
  | foreign h => exact .inl (isForeign_iff.2 ⟨_, h, List.prefix_append _ _⟩)
  | hidden h hv =>
    right
    intro v' u' h'
    obtain ⟨rfl, rfl⟩ := h.unique h'
    apply ofAnnotation?_eq_none
    simp [isHidden, hv]
  | classVar hs h =>
    right
    intro v' u' h'
    obtain ⟨rfl, rfl⟩ := h.unique h'
    exact ofAnnotation?_eq_none (isHidden_of_classVar hs _ _)
  | unannotated h => exact .inr fun v u hvu => absurd hvu (h v u)

/-- Each line is read back as what it writes. -/
theorem ofLine?_text (l : ClassLine) :
    (ofLine? l.text).bind argument? = l.argument? ∧
      (ofLine? l.text).bind keywordArgument? = l.keywordArgument? := by
  cases l with
  | required v T hv hT =>
    have hequals : '=' ∉ ' ' :: T := by simp [hT.no_equals]
    have hblank : trim (' ' :: T) = trim T := trim_cons_of_space (by decide) T
    rw [ClassLine.text, ofLine?_written hv.toIsName hT.ne_nil hT.trimmed,
      ofAnnotation?_of_notMem hequals, hblank, not_isHidden hv hT, if_neg (by simp), hT.trimmed]
    exact ⟨rfl, rfl⟩
  | optional v T d hv hT hd =>
    let u := T ++ [' ', '=', ' '] ++ d
    have hne : u ≠ [] := by simp [u]
    have htrim : trim u = u :=
      trim_append_append hT.trimmed hd.trimmed hT.ne_nil hd.ne_nil [' ', '=', ' ']
    have hshape : ClassLine.text (.optional v T d hv hT hd) = v ++ [':', ' '] ++ u := by
      simp [ClassLine.text, u]
    have hcut : ' ' :: u = ' ' :: T ++ [' '] ++ '=' :: ' ' :: d := by simp [u]
    have hequals : '=' ∉ ' ' :: T ++ [' '] := by simp [hT.no_equals]
    have htype : trim (' ' :: T ++ [' ']) = trim T := by
      rw [trim_append_of_space _ (by simp; decide), trim_cons_of_space (by decide)]
    have hdefault : trimStart (' ' :: d) = d :=
      trimStart_eq_self_iff.2 (trim_eq_self_iff.1 hd.trimmed).1
    rw [hshape, ofLine?_written hv.toIsName hne htrim, hcut, ofAnnotation?_append hequals, htype,
      not_isHidden hv hT, hdefault, if_neg (by simp [hd.ne_nil, hd.line]), hT.trimmed, hd.trimmed]
    exact ⟨rfl, rfl⟩
  | silent l h =>
    rw [ClassLine.text, ofLine?_of_isSilent h]
    exact ⟨rfl, rfl⟩

end Attribute

/-- The attributes that a class body writes are read back exactly, those without a default as
arguments and those with one as keyword arguments, each in line order. -/
theorem parametersOf_text (ls : List ClassLine) :
    parametersOf (ls.map ClassLine.text) =
      (ls.filterMap ClassLine.argument?, ls.filterMap ClassLine.keywordArgument?) := by
  have hargs : (fun l : ClassLine => (Attribute.ofLine? l.text).bind Attribute.argument?) =
      ClassLine.argument? := funext fun l => (Attribute.ofLine?_text l).1
  have hkwargs : (fun l : ClassLine => (Attribute.ofLine? l.text).bind
      Attribute.keywordArgument?) = ClassLine.keywordArgument? :=
    funext fun l => (Attribute.ofLine?_text l).2
  unfold parametersOf attributes
  rw [List.filterMap_map, List.filterMap_filterMap, List.filterMap_filterMap, ← hargs, ← hkwargs]
  rfl

/-- A default with colons and equals signs, and lines of each other kind. -/
theorem parametersOf_text_account :
    let ls : List ClassLine :=
      [.silent "# owner: str".toList (.foreign (p := ['#']) (by decide)),
        .required "owner".toList "dict[str, 'User']".toList ⟨by decide, by decide⟩
          ⟨by decide, by decide, by decide, by decide⟩,
        .silent "_lock : Lock = Lock()".toList
          (.hidden (v := "_lock".toList) (u := " Lock = Lock()".toList)
            ⟨by decide, [' '], List.forall_mem_singleton.2 rfl, rfl⟩ rfl),
        .optional "rule".toList "Rule".toList "lambda x: x == 1".toList ⟨by decide, by decide⟩
          ⟨by decide, by decide, by decide, by decide⟩ ⟨by decide, by decide, by decide⟩,
        .silent "limit: ClassVar[int] = 3".toList
          (.classVar (v := "limit".toList) (s := [' ']) (r := "[int] = 3".toList)
            (List.forall_mem_singleton.2 rfl) ⟨by decide, [], List.forall_mem_nil _, rfl⟩),
        .silent "  return self.rule(x)  ".toList
          (.unannotated (afterColon?_eq_none_iff.1 (by decide)))]
    parametersOf (ls.map ClassLine.text) =
      ([⟨"owner".toList, some "dict[str, 'User']".toList⟩],
        [⟨"rule".toList, some "Rule".toList, "lambda x: x == 1".toList⟩]) :=
  parametersOf_text _

end DocSnippet.Definition
