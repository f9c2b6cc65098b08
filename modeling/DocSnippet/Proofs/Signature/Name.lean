import DocSnippet.Definition.Parse
import DocSnippet.Proofs.Signature.Header
import DocSnippet.Proofs.Source.HeaderText

/-! The name that is read below a header in one line. Whatever the lines above it hold, the
definition starts at the last keyword of the header's own line, or at a word `async` before a `def`
there, and the name stands behind that keyword. It is the keyword of the header if no other follows;
but a keyword between the brackets counts as well, also inside a string literal, since the search
knows words and no literals. -/

namespace DocSnippet

open Text Source

namespace Definition

theorem name_ofHeader (header : Header) (body : List Text) :
    (ofHeader header body).name = (Signature.name? header.text).getD [] := by
  simp only [ofHeader, withAttributes, classify]
  split
  · split <;> rfl
  · rfl

end Definition

namespace Signature

/-- The text of a definition with the keyword `w` between `a` and `r`. It starts at the keyword, or
at a word `async` before a `def`. -/
def StartsAt (a w r text : Text) : Prop :=
  (∃ left gap, w = defWord ∧ EndsAsync a left gap ∧ text = asyncWord ++ gap ++ (w ++ r)) ∨
    ((w = defWord → ∀ left gap, ¬EndsAsync a left gap) ∧ text = w ++ r)

theorem StartsAt.name? {a w r text : Text} (h : StartsAt a w r text) :
    name? text = name? (w ++ r) := by
  rcases h with ⟨left, gap, -, hasync, rfl⟩ | ⟨-, rfl⟩
  · exact name?_maybeAsync (.inr ⟨gap, hasync.gap_ne_nil, hasync.space, rfl⟩)
  · rfl

/-- In lines whose last one holds a keyword the definition starts at the last keyword of that line.
-/
theorem exists_ofLines?_concat (ls : List Text) {l a w r : Text} (hl : l = a ++ w ++ r)
    (htrim : trim l = l) (hk : KeywordAt a w r) (hlast : LeadingKeywordOnly (w ++ r)) :
    ∃ header, Header.ofLines? (ls ++ [l]) = some header ∧
      StartsAt (join [' '] (ls ++ [a])) w r header.text := by
  have hjoin : join [' '] (ls ++ [l]) = join [' '] (ls ++ [a]) ++ (w ++ r) := by
    rw [hl, List.append_assoc, join_concat_append]
  obtain ⟨s, hs, hend⟩ := join_blank_append ls (List.cons_ne_nil a [])
  have hleft : atWordEnd (join [' '] (ls ++ [a])).reverse := by
    rw [hs, join, List.reverse_append]
    exact atWordEnd_append hk.left hend
  have hvisible : ¬isBlank l := by
    intro hblank
    refine not_isDefinitionLine_of_space (isBlank_iff.1 hblank) ?_
    exact isDefinitionLine_iff.2 ⟨a, w, r, hl, hk⟩
  have hp := lastDefinition?_append hleft hk.keyword hk.right hlast
  rw [← hjoin] at hp
  obtain ⟨header, hheader, htext⟩ :=
    Header.exists_ofLines?_eq_some List.getLast?_concat hvisible hp
  refine ⟨header, hheader, ?_⟩
  -- the keyword is visible and so is the end of the line
  have hword : trim (w ++ r) = w ++ r := by
    have hne : w ++ r ≠ [] := by rcases hk.keyword with rfl | rfl <;> simp [defWord, classWord]
    rw [hl, List.append_assoc] at htrim
    have hlast := (trim_eq_self_iff.1 htrim).2
    rw [List.getLast?_append_of_ne_nil _ hne] at hlast
    refine trim_eq_self_iff.2 ⟨?_, hlast⟩
    rcases hk.keyword with rfl | rfl <;>
      simp [defWord, classWord, show isSpace 'd' = false from rfl,
        show isSpace 'c' = false from rfl]
  rw [htext]
  rcases Place.definitionStart_eq ⟨hk.keyword, hleft, hk.right⟩ with
    ⟨left, gap, hw, hasync, hstart⟩ | ⟨hnone, hstart⟩
  · refine .inl ⟨left, gap, hw, hasync, ?_⟩
    rw [hstart, trim_append_append (by decide) hword (by decide) (by simp [hw, defWord])]
  · exact .inr ⟨hnone, by rw [hstart, hword]⟩

def headerOf (name params : Text) : Text := defWord ++ afterDefOf name params [':']

theorem isDefinitionLine_headerOf (name params : Text) : isDefinitionLine (headerOf name params) :=
  isDefinitionLine_iff.2 ⟨[], defWord, _, rfl, .inl rfl, rfl, rfl⟩

/-- Below a header in one line the definition starts at the last keyword of that line, or at an
`async` before a `def` there, and the name is the one behind that keyword. This is the name of the
header if its leading keyword is the only one. -/
theorem name_parse_below {document name params l : Text} {line : Nat} (hname : IsName name)
    (hcomment : stripComment (headerOf name params) = headerOf name params)
    (hline : (lines document)[line]? = some l) (hl : trim l = headerOf name params) :
    (LeadingKeywordOnly (headerOf name params) →
      (Definition.parse document (line + 1)).name = name) ∧
    ∃ a w r, headerOf name params = a ++ w ++ r ∧ KeywordAt a w r ∧ LeadingKeywordOnly (w ++ r) ∧
      StartsAt (join [' '] (cleanLines ((lines document).take line) ++ [a])) w r
        (Header.above document (line + 1)).text ∧
      (Definition.parse document (line + 1)).name = (name? (w ++ r)).getD [] := by
  have habove : Header.linesAbove document (line + 1) =
      cleanLines ((lines document).take line) ++ [headerOf name params] := by
    have hkept : trim (stripComment l) = trim l := trim_stripComment_of_trim (by rw [hl, hcomment])
    rw [Header.linesAbove_succ hline hkept, hl, Header.linesAbove]
  obtain ⟨a, w, r, heq, hk, hlast⟩ := exists_last_keyword (isDefinitionLine_headerOf name params)
  obtain ⟨header, hheader, hstart⟩ :=
    exists_ofLines?_concat (cleanLines ((lines document).take line)) heq (by rw [← hl, trim_trim])
      hk hlast
  have hparse : (Definition.parse document (line + 1)).name = (name? (w ++ r)).getD [] := by
    rw [Definition.parse, Header.above?, habove, hheader]
    dsimp only
    rw [Definition.name_ofHeader, hstart.name?]
  refine ⟨fun honly => ?_, a, w, r, heq, hk, hlast, ?_, hparse⟩
  · obtain rfl := honly a w r heq hk
    rw [List.nil_append] at heq
    rw [hparse, ← heq, headerOf, name?_def hname params [':'] (.inl rfl), Option.getD_some]
  · rw [Header.above, Header.above?, habove, hheader, Option.getD_some]
    exact hstart

/-- A name and a parameter that contain keywords, and a default with a number sign and a bracket. -/
theorem name_parse_below_classify :
    let params := "dataclass_def, sep=\"#)\", *rest".toList
    let header := headerOf "classify".toList params
    let document := "class Old:\n    async\n\t".toList ++ header ++ " \n    def later(): ...".toList
    LeadingKeywordOnly header ∧ (Definition.parse document 3).name = "classify".toList := by
  intro params header document
  have honly : LeadingKeywordOnly header :=
    leadingKeywordOnly_of_lastKeyword? (by decide +kernel)
  have hline : (lines document)[2]? = some ('\t' :: header ++ [' ']) := by decide +kernel
  exact ⟨honly, (name_parse_below (by decide) (by decide +kernel) hline (by decide +kernel)).1 honly⟩

/-- A keyword inside a string literal is taken for the start of a definition: below a complete
header of a function the name of a class is read that only a default mentions. -/
theorem name_parse_quoted_keyword :
    let params := "x=\"class A:\"".toList
    let header := headerOf "f".toList params
    let document := header ++ "\n    pass".toList
    (IsName "f".toList ∧ '\n' ∉ params ∧ balancedParts? ',' params ≠ none ∧
      stripComment header = header ∧ (lines document)[0]? = some header) ∧
    (Definition.parse document 1).name = "A".toList ∧
      (Definition.parse document 1).name ≠ "f".toList := by
  decide +kernel

end Signature

end DocSnippet
