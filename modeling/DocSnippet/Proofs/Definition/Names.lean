import DocSnippet.Proofs.Definition.AttributeLines

/-! The names of parameters. Every parameter is named by a word, wherever it is read. The receivers
of methods are left out where the tokens of a signature are read. They are not left out among the
attributes of a dataclass: an attribute without a default that has the name of a receiver is an
argument like any other. -/

namespace DocSnippet.Definition

open Text Source Signature

/-! ### Where parameters come from -/

def IsDataclass (header : Header) : Prop :=
  isClassHeader header.text ∧ (header.decorators.filterMap decoratorName?).any isDataclassName

instance (header : Header) : Decidable (IsDataclass header) :=
  inferInstanceAs (Decidable (_ ∧ _))

theorem parameters_ofHeader_eq (header : Header) (body : List Text) :
    ((ofHeader header body).args, (ofHeader header body).kwargs) =
      if IsDataclass header then parametersOf body
      else ((tokensOf header.text).filterMap argument?,
        (tokensOf header.text).filterMap keywordArgument?) := by
  split_ifs with hdataclass
  · exact parameters_ofHeader hdataclass.1 hdataclass.2 body
  · by_cases hclass : isClassHeader header.text
    · have hnames : ¬(header.decorators.filterMap decoratorName?).any isDataclassName :=
        fun h => hdataclass ⟨hclass, h⟩
      rw [ofHeader, if_pos hclass, if_neg hnames]
      rfl
    · rw [ofHeader, if_neg hclass]
      rfl

theorem mem_argument?_iff {as : List Attribute} {a : Argument} :
    a ∈ as.filterMap Attribute.argument? ↔ .required a ∈ as := by
  rw [List.mem_filterMap]
  constructor
  · rintro ⟨b, hmem, ha⟩
    cases b with
    | required arg =>
      obtain rfl := Option.some.inj ha
      exact hmem
    | optional kwarg => contradiction
  · exact fun hmem => ⟨_, hmem, rfl⟩

theorem mem_keywordArgument?_iff {as : List Attribute} {k : KeywordArgument} :
    k ∈ as.filterMap Attribute.keywordArgument? ↔ .optional k ∈ as := by
  rw [List.mem_filterMap]
  constructor
  · rintro ⟨b, hmem, hk⟩
    cases b with
    | required arg => contradiction
    | optional kwarg =>
      obtain rfl := Option.some.inj hk
      exact hmem
  · exact fun hmem => ⟨_, hmem, rfl⟩

section

variable {header : Header} {body : List Text}

theorem mem_args_ofHeader_iff {a : Argument} :
    a ∈ (ofHeader header body).args ↔
      if IsDataclass header then .required a ∈ attributes body
      else ∃ token ∈ tokensOf header.text, argument? token = some a := by
  have hargs := congrArg Prod.fst (parameters_ofHeader_eq header body)
  dsimp only at hargs
  rw [hargs]
  split_ifs
  · exact mem_argument?_iff
  · exact List.mem_filterMap

theorem mem_kwargs_ofHeader_iff {k : KeywordArgument} :
    k ∈ (ofHeader header body).kwargs ↔
      if IsDataclass header then .optional k ∈ attributes body
      else ∃ token ∈ tokensOf header.text, keywordArgument? token = some k := by
  have hkwargs := congrArg Prod.snd (parameters_ofHeader_eq header body)
  dsimp only at hkwargs
  rw [hkwargs]
  split_ifs
  · exact mem_keywordArgument?_iff
  · exact List.mem_filterMap

end

/-! ### Names -/

theorem of_argument?_eq_some {token : Text} {a : Argument} (h : argument? token = some a) :
    IsName a.name ∧ a.name ∉ receivers := by
  unfold argument? at h
  split at h
  next name r hword =>
    split at h
    next => contradiction
    next hnot =>
      obtain rfl := Option.some.inj h
      simp only [Bool.or_eq_true, List.contains_iff_mem, not_or] at hnot
      exact ⟨isName_of_word? hword, hnot.2⟩
  next => contradiction

theorem isName_of_keywordArgument? {token : Text} {k : KeywordArgument}
    (h : keywordArgument? token = some k) : IsName k.name := by
  unfold keywordArgument? at h
  split at h
  next name r hword =>
    obtain ⟨default, -, rfl⟩ := Option.map_eq_some_iff.1 h
    exact isName_of_word? hword
  next => contradiction

namespace Attribute

def name : Attribute → Text
  | .required arg => arg.name
  | .optional kwarg => kwarg.name

theorem name_of_ofAnnotation? {v u : Text} {a : Attribute} (h : ofAnnotation? v u = some a) :
    a.name = v := by
  cases a with
  | required arg =>
    obtain ⟨-, -, -, rfl⟩ := ofAnnotation?_eq_required_iff.1 h
    rfl
  | optional kwarg =>
    obtain ⟨T, r, -, -, -, rfl⟩ := exists_of_ofAnnotation?_eq_optional h
    rfl

theorem isName_of_mem_attributes {body : List Text} {a : Attribute} (h : a ∈ attributes body) :
    IsName a.name := by
  obtain ⟨l, -, hl⟩ := List.mem_filterMap.1 h
  obtain ⟨v, u, hvu, ha⟩ := exists_isAnnotated_of_ofLine? hl
  rw [name_of_ofAnnotation? ha]
  exact hvu.1

end Attribute

/-! ### Receivers among the attributes -/

/-- A line that annotates the name of a receiver and gives no default. -/
def DeclaresReceiver (l : Text) : Prop :=
  ∃ v ∈ receivers, ∃ u, IsAnnotated (trim l) v u ∧ u ≠ [] ∧ '=' ∉ u ∧
    ¬Attribute.classVarWord <+: trim u

theorem declaresReceiver_iff {l : Text} :
    DeclaresReceiver l ↔ ∃ a, Attribute.ofLine? l = some (.required a) ∧ a.name ∈ receivers := by
  constructor
  · rintro ⟨v, hv, u, hvu, hne, hequals, htype⟩
    have hforeign : ¬Attribute.isForeign (trim l) := by
      obtain ⟨hname, gap, hgap, hl⟩ := hvu
      rw [hl, List.append_assoc]
      intro h
      have hword : atWordEnd (gap ++ ':' :: u) :=
        atWordEnd_append (atWordEnd_of_isSpace hgap) rfl
      have hkeyword := (Attribute.isKeyword_of_isForeign hname hword h).1
      have hall : ∀ v ∈ receivers, ¬(v = defWord ∨ v = asyncWord ∨ v = classWord) := by decide
      exact hall v hv hkeyword
    have hhidden : ¬Attribute.isHidden v (trim u) := by
      have hall : ∀ v ∈ receivers, v.head? ≠ some '_' := by decide
      simp [Attribute.isHidden, hall v hv, startsWith_iff, htype]
    refine ⟨⟨v, some (trim u)⟩, ?_, hv⟩
    rw [Attribute.ofLine?_of_isAnnotated hvu hforeign, Attribute.ofAnnotation?_eq_required_iff]
    exact ⟨hne, hequals, hhidden, rfl⟩
  · rintro ⟨a, ha, hreceiver⟩
    obtain ⟨v, u, hvu, hu⟩ := Attribute.exists_isAnnotated_of_ofLine? ha
    obtain ⟨hne, hequals, hhidden, rfl⟩ := Attribute.ofAnnotation?_eq_required_iff.1 hu
    refine ⟨v, hreceiver, u, hvu, hne, hequals, fun htype => hhidden ?_⟩
    rw [Attribute.isHidden, startsWith_iff.2 htype, Bool.or_true]

/-! ### Definitions -/

theorem names_ofHeader (header : Header) (body : List Text) :
    (∀ a ∈ (ofHeader header body).args, IsName a.name) ∧
      ∀ k ∈ (ofHeader header body).kwargs, IsName k.name := by
  constructor
  · intro a ha
    rw [mem_args_ofHeader_iff] at ha
    split_ifs at ha
    · exact Attribute.isName_of_mem_attributes ha
    · obtain ⟨token, -, htoken⟩ := ha
      exact (of_argument?_eq_some htoken).1
  · intro k hk
    rw [mem_kwargs_ofHeader_iff] at hk
    split_ifs at hk
    · exact Attribute.isName_of_mem_attributes hk
    · obtain ⟨token, -, htoken⟩ := hk
      exact isName_of_keywordArgument? htoken

/-- Only an attribute of a dataclass can be an argument with the name of a receiver. -/
theorem receiver_mem_args_ofHeader_iff (header : Header) (body : List Text) :
    (∃ a ∈ (ofHeader header body).args, a.name ∈ receivers) ↔
      IsDataclass header ∧ ∃ l ∈ body, DeclaresReceiver l := by
  simp only [mem_args_ofHeader_iff]
  split_ifs with hdataclass
  · simp only [hdataclass, true_and, declaresReceiver_iff]
    constructor
    · rintro ⟨a, ha, hreceiver⟩
      obtain ⟨l, hl, hla⟩ := List.mem_filterMap.1 ha
      exact ⟨l, hl, a, hla, hreceiver⟩
    · rintro ⟨l, hl, a, hla, hreceiver⟩
      exact ⟨a, List.mem_filterMap.2 ⟨l, hl, hla⟩, hreceiver⟩
  · simp only [hdataclass, false_and, iff_false]
    rintro ⟨a, ⟨token, -, htoken⟩, hreceiver⟩
    exact (of_argument?_eq_some htoken).2 hreceiver

/-- Every parameter of a definition is named by a word. A receiver is among the arguments exactly if
the definition is a dataclass and a line of its body annotates that name and gives no default. -/
theorem receiver_mem_args_iff (document : Text) (line : Nat) :
    let d := parse document line
    ((∀ a ∈ d.args, IsName a.name) ∧ ∀ k ∈ d.kwargs, IsName k.name) ∧
      ((∃ a ∈ d.args, a.name ∈ receivers) ↔
        ∃ header, Header.above? document line = some header ∧ IsDataclass header ∧
          ∃ l ∈ Body.below document line, DeclaresReceiver l) := by
  intro d
  cases habove : Header.above? document line with
  | none =>
    have hd : d = empty := by
      simp only [d, parse, habove]
    simp [hd, empty]
  | some header =>
    have hd : d = ofHeader header (Body.below document line) := by
      simp only [d, parse, habove]
    rw [hd]
    refine ⟨names_ofHeader header _, ?_⟩
    rw [receiver_mem_args_ofHeader_iff]
    simp

/-- An attribute is an argument also if it has the name of a receiver. -/
theorem receiver_mem_args_attribute :
    let document := "@dataclass\nclass Point:\n    x: int\n    self: int".toList
    (parse document 2).args =
        [⟨"x".toList, some "int".toList⟩, ⟨"self".toList, some "int".toList⟩] ∧
      ∃ a ∈ (parse document 2).args, a.name ∈ receivers := by
  decide +kernel

end DocSnippet.Definition
