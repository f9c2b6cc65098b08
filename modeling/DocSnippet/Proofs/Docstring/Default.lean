import DocSnippet.Proofs.Definition.Names
import DocSnippet.Proofs.Docstring.Styles
import DocSnippet.Proofs.Docstring.Tidying

/-! The defaults of keyword arguments in a docstring. Every built-in style writes the default of
every keyword argument into a placeholder, and the default stands in one line, so nothing but the
numbering can change it. The numbering does not tell the markers of the template from those in a
default: a default is kept as it is written exactly if it holds no marker. -/

namespace DocSnippet

open Text Template

namespace Docstring

/-! ### What a form must write -/

/-- Every text that a form writes for `v` contains `w`. -/
def Contains (display : Value → Text) (w : Text) (v : Value) (F : Form) : Prop :=
  ∀ t, F.write? (helpers display) v = some t → w <:+: t

namespace Contains

variable {display : Value → Text} {w : Text} {v : Value} {name : Name} {rest : Form}

theorem piece {i : Inline} {pieces : List Inline} (hmem : i ∈ pieces)
    (hi : i.write? (helpers display) v = some w) : Contains display w v (.line pieces rest) := by
  intro t ht
  obtain ⟨s, u, hs, -, rfl⟩ := Form.exists_of_write?_line ht
  obtain ⟨r, hr, hinfix⟩ := exists_isInfix_of_concat? hs (List.mem_map_of_mem hmem)
  obtain rfl := Option.some.inj (hi.symm.trans hr)
  exact hinfix.trans (List.prefix_append s _).isInfix

theorem line {pieces : List Inline} (h : Contains display w v rest) :
    Contains display w v (.line pieces rest) := by
  intro t ht
  obtain ⟨s, u, -, hu, rfl⟩ := Form.exists_of_write?_line ht
  exact (h u hu).trans ((List.suffix_cons _ u).trans (List.suffix_append s _)).isInfix

theorem rows {ls : List (List Inline)} (h : Contains display w v rest) :
    Contains display w v (Docstring.rows ls rest) := by
  induction ls with
  | nil => exact h
  | cons l ls ih => exact ih.line

theorem guarded {heading : List (List Inline)} {body : Form}
    (hname : v.field? name.word = some (.bool true)) (h : Contains display w v body) :
    Contains display w v (guarded name heading body rest) := by
  intro t ht
  obtain ⟨b, s, u, hb, hs, -, rfl⟩ := Form.exists_of_write?_choose ht
  obtain rfl : true = b := by simpa [hname] using hb
  exact (h.rows s hs).trans (List.prefix_append s u).isInfix

theorem entries {α : Type} {item : α → Value} {x : α} {xs : List α} {entry : List (List Inline)}
    (hitems : v.field? name.word = some (.list (xs.map item))) (hx : x ∈ xs)
    (h : Contains display w (item x) (Docstring.rows entry .empty)) :
    Contains display w v (entries name entry rest) := by
  intro t ht
  obtain ⟨vs, s, u, hvs, hs, -, rfl⟩ := Form.exists_of_write?_forEach ht
  obtain rfl : xs.map item = vs := by simpa [hitems] using hvs
  obtain ⟨r, hr, hinfix⟩ :=
    exists_isInfix_of_concat? hs (List.mem_map_of_mem (List.mem_map_of_mem hx))
  exact ((h r hr).trans hinfix).trans (List.prefix_append s u).isInfix

theorem behind_guarded {heading : List (List Inline)} {body : Form}
    (h : Contains display w v rest) :
    Contains display w v (Docstring.guarded name heading body rest) := by
  intro t ht
  obtain ⟨b, s, u, -, -, hu, rfl⟩ := Form.exists_of_write?_choose ht
  exact (h u hu).trans (List.suffix_append s u).isInfix

theorem behind_entries {entry : List (List Inline)} (h : Contains display w v rest) :
    Contains display w v (Docstring.entries name entry rest) := by
  intro t ht
  obtain ⟨vs, s, u, -, -, hu, rfl⟩ := Form.exists_of_write?_forEach ht
  exact (h u hu).trans (List.suffix_append s u).isInfix

end Contains

/-! ### Styles -/

variable {display : Value → Text} {f : Fields} {k : KeywordArgument}

/-- Every style writes every default into a placeholder. The sections that hold the keyword
arguments are there if there is one. -/
theorem Style.contains_default (s : Style) (hf : f.Consistent) (hk : k ∈ f.kwargs) :
    Contains display (placeholder k.default) f.toValue s.form := by
  have hne : f.kwargs ≠ [] := List.ne_nil_of_mem hk
  have hparameters : f.toValue.field? "parameters_exist".toList = some (.bool true) := by
    rw [← Bool.of_not_eq_false fun h => hne (hf.parameters h).2]
    rfl
  have hkwargs : f.toValue.field? "kwargs_exist".toList = some (.bool true) := by
    rw [← Bool.of_not_eq_false fun h => hne (hf.kwargs h)]
    rfl
  have hslot : Cell.defaultSlot.write? (helpers display) (Fields.keywordArgumentValue k) =
      some (placeholder k.default) :=
    Cell.write?_slot (Fields.keywordArgumentValue_shown?_default k)
  cases s with
  | numpy =>
    exact .rows <| .guarded hparameters <| .behind_entries <| .entries rfl hk <| .line <|
      .piece (by simp) hslot
  | google =>
    exact .rows <| .guarded hparameters <| .behind_entries <| .entries rfl hk <|
      .piece (by simp) hslot
  | sphinx =>
    exact .rows <| .line <| .behind_entries <| .entries rfl hk <| .piece (by simp) hslot
  | pep257 =>
    exact .rows <| .behind_guarded <| .guarded hkwargs <| .entries rfl hk <|
      .piece (by simp) hslot
  | oneLineSphinx =>
    exact .rows <| .behind_entries <| .entries rfl hk <| .piece (by simp) hslot

theorem exists_mem_kwargs {d : Definition} (hk : k ∈ d.kwargs) (guess includeName : Bool) :
    ∃ shown ∈ (Fields.ofDefinition d guess includeName).kwargs, shown.default = k.default := by
  refine ⟨_, List.mem_map_of_mem (List.mem_map_of_mem hk), ?_⟩
  rw [showKeywordArgument, cleanKeywordArgument]
  split <;> rfl

end Docstring

namespace Definition

/-! ### Definitions -/

variable {k : KeywordArgument}

theorem notMem_default_of_token {token : Text} (h : keywordArgument? token = some k) :
    '\n' ∉ k.default := by
  rw [keywordArgument?] at h
  split at h
  next name t _ =>
    obtain ⟨default, hdefault, rfl⟩ := Option.map_eq_some_iff.1 h
    obtain ⟨u, -, hu⟩ := Option.bind_eq_some_iff.1 hdefault
    rw [Signature.defaultText?] at hu
    split at hu
    · simp at hu
    · obtain rfl := Option.some.inj hu
      intro hmem
      simpa using List.mem_takeWhile_imp hmem
  · simp at h

theorem notMem_default_of_attribute {name u : Text}
    (h : Attribute.ofAnnotation? name u = some (.optional k)) : '\n' ∉ k.default := by
  obtain ⟨T, r, -, -, hline, rfl⟩ := Attribute.exists_of_ofAnnotation?_eq_optional h
  exact fun hmem => hline ((trim_isInfix _).subset hmem)

theorem notMem_default_of_attributes {body : List Text} (h : .optional k ∈ attributes body) :
    '\n' ∉ k.default := by
  obtain ⟨l, -, hl⟩ := List.mem_filterMap.1 h
  obtain ⟨v, u, -, hu⟩ := Attribute.exists_isAnnotated_of_ofLine? hl
  exact notMem_default_of_attribute hu

/-- The default of a keyword argument is read from one line. -/
theorem notMem_default_of_parse {document : Text} {line : Nat}
    (hk : k ∈ (parse document line).kwargs) : '\n' ∉ k.default := by
  rw [parse] at hk
  split at hk
  · rw [mem_kwargs_ofHeader_iff] at hk
    split_ifs at hk
    · exact notMem_default_of_attributes hk
    · obtain ⟨token, -, htoken⟩ := hk
      exact notMem_default_of_token htoken
  · simp [empty] at hk

end Definition

namespace Docstring

/-! ### Docstrings -/

/-- Every built-in style gives a docstring for every cursor line, and it holds every default in a
placeholder, but the markers in the default are numbered as well. So a default is in the docstring
as it is written if it holds no marker, and only then, unless the quotes or the indentation supply
the characters of a marker. -/
theorem generate_default {E : Engine} (hE : E.Documented (helpers E.display)) (s : Style)
    {o : Options} (ho : o.template = s.template) (document : Text) (line : Nat)
    (indentation : Text) :
    ∃ t, generate E document line o indentation = .ok t ∧
      ∀ k ∈ (Definition.parse document line).kwargs,
        (∃ n, numberedPlaceholder n (numberFrom (n + 1) k.default) <:+: t) ∧
        (IsUnmarked k.default → k.default <:+: t) ∧
        ('@' ∉ o.quote ++ indentation → k.default <:+: t → IsUnmarked k.default) := by
  have hform : o.template = s.form.source := by rw [ho, s.template_eq]
  set d := Definition.parse document line with hd
  have hconsistent := Fields.consistent_ofDefinition d o.guessTypes o.includeName
  obtain ⟨rendered, hwrite, -⟩ :=
    s.writes_form hconsistent (unmarked_ofDefinition d o.guessTypes o.includeName)
  refine ⟨indent indentation (Generator.enquote o (Generator.tidy rendered)),
    Generator.generate_eq_ok hE hform (by rw [hwrite, Option.map_some]), fun k hk => ?_⟩
  have hline := Definition.notMem_default_of_parse hk
  have hslot : placeholder k.default <:+: rendered := by
    obtain ⟨shown, hshown, hdefault⟩ := exists_mem_kwargs hk o.guessTypes o.includeName
    rw [← hdefault]
    exact s.contains_default hconsistent hshown _ hwrite
  obtain ⟨n, hn⟩ := isInfix_docstring (o := o) hline hslot indentation
  refine ⟨⟨n, hn⟩, fun hunmarked => ?_, fun hplain hmem hmarker => ?_⟩
  · rw [numberFrom_of_isUnmarked hunmarked] at hn
    refine List.IsInfix.trans ?_ hn
    exact ⟨_, ['}'], rfl⟩
  · simp only [List.mem_append, not_or] at hplain
    exact isUnmarked_docstring hplain.1 hplain.2 rendered (hmarker.trans hmem)

/-- Two characters of a marker, a default that looks like a placeholder, and one with a marker. -/
theorem generate_default_row :
    let o : Options :=
      { template := Style.google.template
        quote := ['"', '"', '"']
        startOnNewLine := false
        includeName := true
        guessTypes := false }
    let document := unlines
      ["def row(cells, sep='@@', end=[\"$\x7b1:@\x7d\"], *, mark='@@@'):".toList,
        "    return sep.join(cells)".toList]
    let indentation := "    ".toList
    (Definition.parse document 1).kwargs.map KeywordArgument.default =
        ["'@@'".toList, "[\"$\x7b1:@\x7d\"]".toList, "'@@@'".toList] ∧
      ∃ t, generate Engine.standard document 1 o indentation = .ok t ∧
        "'@@'".toList <:+: t ∧ "[\"$\x7b1:@\x7d\"]".toList <:+: t ∧ ¬"'@@@'".toList <:+: t := by
  intro o document indentation
  have hkwargs : (Definition.parse document 1).kwargs.map KeywordArgument.default =
      ["'@@'".toList, "[\"$\x7b1:@\x7d\"]".toList, "'@@@'".toList] := by decide +kernel
  have hdefault : ∀ default ∈ ["'@@'".toList, "[\"$\x7b1:@\x7d\"]".toList, "'@@@'".toList],
      ∃ k ∈ (Definition.parse document 1).kwargs, k.default = default := by
    rw [← hkwargs]
    exact fun default h => List.mem_map.1 h
  obtain ⟨t, ht, hdefaults⟩ :=
    generate_default standard_documented .google (o := o) rfl document 1 indentation
  refine ⟨hkwargs, t, ht, ?_, ?_, ?_⟩
  · obtain ⟨k, hk, hsep⟩ := hdefault "'@@'".toList (by simp)
    exact hsep ▸ (hdefaults k hk).2.1 (hsep ▸ by decide)
  · obtain ⟨k, hk, hend⟩ := hdefault "[\"$\x7b1:@\x7d\"]".toList (by simp)
    exact hend ▸ (hdefaults k hk).2.1 (hend ▸ by decide)
  · obtain ⟨k, hk, hmark⟩ := hdefault "'@@@'".toList (by simp)
    intro h
    exact absurd ((hdefaults k hk).2.2 (by decide) (hmark ▸ h)) (hmark ▸ by decide)

/-- A default that is a marker in quotes is replaced by the next number, whatever the engine. -/
theorem generate_default_marker :
    let o : Options := { Options.standard with template := Style.oneLineSphinx.template }
    let document := "def f(sep=\"@@@\"):\n    pass".toList
    let k : KeywordArgument := ⟨"sep".toList, some "str".toList, "\"@@@\"".toList⟩
    let t := ("    \"\"\"$\x7b1:_summary_\x7d\n\n    :param $\x7b2:str\x7d sep: ".toList ++
      "$\x7b3:_description_\x7d, defaults to $\x7b4:\"5\"\x7d\n    \"\"\"".toList)
    (Definition.parse document 1).kwargs = [k] ∧
      generate Engine.standard document 1 o "    ".toList = .ok t ∧
      (∀ E : Engine, E.Documented (helpers E.display) →
        generate E document 1 o "    ".toList = .ok t) ∧
      ¬k.default <:+: t := by
  intro o document k t
  let d : Definition := ⟨['f'], [], [], [k], [], none, []⟩
  let r : Text := "$\x7b@@@:_summary_\x7d\n\n:param $\x7b@@@:str\x7d sep: ".toList ++
    "$\x7b@@@:_description_\x7d, defaults to $\x7b@@@:\"@@@\"\x7d\n".toList
  have hparse : Definition.parse document 1 = d := by decide +kernel
  have hall : ∀ E : Engine, E.Documented (helpers E.display) →
      generate E document 1 o "    ".toList = .ok t := by
    intro E hE
    have hwrite : OneLineSphinx.form.write? (helpers E.display)
        (Fields.ofDefinition d o.guessTypes o.includeName).toValue = some r := by rfl
    refine Generator.generate_eq_ok hE (Style.template_eq .oneLineSphinx) ?_
    rw [hparse, Style.form, hwrite]
    decide +kernel
  exact ⟨by decide +kernel, hall Engine.standard standard_documented, hall, by decide +kernel⟩

end Docstring

end DocSnippet
