import DocSnippet.Proofs.Template.Tag
import DocSnippet.Proofs.Text.Trim
import DocSnippet.Template.Piece

/-! How the text of a form is cut into pieces. The text is a row of tokens: runs of plain text,
pieces of lines, and tags of blocks with the line feed behind them. Runs side by side are one piece;
a tag of a block stands alone on its line, so the line feed behind it is dropped and the run in
front of it is kept as it is. -/

namespace DocSnippet.Template

open Text

/-! ### Tokens -/

inductive BlockTag
  | choose (condition : Name)
  | orElse
  | endChoose
  | forEach (items : Name)
  | endForEach

inductive Token
  | inline (i : Inline)
  | lineFeed
  | block (b : BlockTag)

namespace BlockTag

def source : BlockTag → Text
  | .choose condition => opening ("if".toList ++ ' ' :: condition.word)
  | .orElse => Template.tag "else".toList
  | .endChoose => closing "if".toList
  | .forEach items => opening ("each".toList ++ ' ' :: items.word)
  | .endForEach => closing "each".toList

def tag : BlockTag → Tag
  | .choose condition => .opening ⟨"if".toList, [.ofName condition.word], []⟩
  | .orElse => .orElse none
  | .endChoose => .closing "if".toList
  | .forEach items => .opening ⟨"each".toList, [.ofName items.word], []⟩
  | .endForEach => .closing "each".toList

theorem tag?_source (b : BlockTag) (r : Text) : tag? (b.source ++ r) = some (.plain b.tag, r) := by
  have hif : IsWord "if".toList := by decide
  have heach : IsWord "each".toList := by decide
  cases b with
  | choose condition => exact tag?_opening_name hif condition.isName.toIsWord r
  | orElse => exact tag?_else r
  | endChoose => exact tag?_closing hif r
  | forEach items => exact tag?_opening_name heach items.isName.toIsWord r
  | endForEach => exact tag?_closing heach r

end BlockTag

def Inline.pieces : Inline → List Piece
  | .text _ _ => []
  | .value n => [.tag (.plain (.value n.word (.ofName n.word))) false]
  | .call helper n => [.tag (.plain (.call helper.word [.ofName n.word])) false]
  | .wrap helper n =>
    [.tag (.plain (.opening ⟨helper.word, [], []⟩)) false,
      .tag (.plain (.value n.word (.ofName n.word))) false,
      .tag (.plain (.closing helper.word)) false]

namespace Token

def source : Token → Text
  | .inline i => i.source
  | .lineFeed => ['\n']
  | .block b => b.source ++ ['\n']

def pieces : Token → List Piece
  | .inline i => i.pieces
  | .lineFeed => []
  | .block b => [.tag (.plain b.tag) true]

def run? : Token → Option Text
  | .inline (.text t _) => some t
  | .lineFeed => some ['\n']
  | _ => none

def isBlock : Token → Bool
  | .block _ => true
  | _ => false

def behind (tok : Token) : Text := if tok.isBlock then ['\n'] else []

/-- Whether a line starts behind a token, if `atStart` tells whether one starts in front of it. -/
def endsLine (atStart : Bool) : Token → Bool
  | .inline (.text t _) => t.isEmpty && atStart
  | .inline _ => false
  | _ => true

end Token

/-- Every tag of a block stands at the start of a line. -/
def Lined : Bool → List Token → Prop
  | _, [] => True
  | atStart, tok :: ts => (tok.isBlock → atStart) ∧ Lined (tok.endsLine atStart) ts

def sourceOf (ts : List Token) : Text := ts.flatMap Token.source

@[simp] theorem sourceOf_nil : sourceOf [] = [] := rfl

@[simp] theorem sourceOf_cons (tok : Token) (ts : List Token) :
    sourceOf (tok :: ts) = tok.source ++ sourceOf ts := rfl

/-! ### Pieces -/

/-- The run that is left of the text `acc` since the last tag. Behind the tag of a block it starts
with a line feed, which `drops` takes away. -/
def heldRun (drops : Bool) (acc : Text) : List Piece :=
  if acc = [] then [] else [.run (if drops then acc.tail else acc)]

def laid (drops : Bool) (acc : Text) : List Token → List Piece
  | [] => heldRun drops acc
  | tok :: ts =>
    match tok.run? with
    | some t => laid drops (acc ++ t) ts
    | none => heldRun drops acc ++ tok.pieces ++ laid tok.isBlock tok.behind ts

/-- Runs of plain text. -/
def IsRun (t : Text) : Prop := ∀ c ∈ t, c ≠ '{' ∧ c ≠ '\\'

theorem isRun_of_run? {tok : Token} {t : Text} (h : tok.run? = some t) : IsRun t := by
  cases tok with
  | inline i =>
    cases i with
    | text u hu =>
      obtain rfl := Option.some.inj h
      intro c hc
      have hliteral := List.all_eq_true.1 hu c hc
      simp only [isLiteral, Bool.and_eq_true, bne_iff_ne, ne_eq] at hliteral
      exact ⟨hliteral.1.1.2, hliteral.2⟩
    | _ => simp [Token.run?] at h
  | lineFeed =>
    obtain rfl := Option.some.inj h
    simp [IsRun]
  | block b => simp [Token.run?] at h

theorem source_of_run? {tok : Token} {t : Text} (h : tok.run? = some t) : tok.source = t := by
  cases tok with
  | inline i =>
    cases i with
    | text u _ => exact Option.some.inj h
    | _ => simp [Token.run?] at h
  | lineFeed => exact Option.some.inj h
  | block b => simp [Token.run?] at h

/-! ### Cutting into pieces -/

/-- Behind a run the template ends, or a tag starts. -/
def IsCut (r : Text) : Prop := r = [] ∨ ['{', '{'] <+: r

theorem runUpToTag_append {u r : Text} (hu : IsRun u) (hr : IsCut r) :
    runUpToTag (u ++ r) = (u, r) := by
  induction u with
  | nil =>
    rcases hr with rfl | ⟨t, rfl⟩
    · rfl
    · rfl
  | cons c u ih =>
    obtain ⟨hbrace, hslash⟩ := hu c (by simp)
    have ih := ih fun d hd => hu d (by simp [hd])
    simp [runUpToTag, hbrace, hslash, ih]

theorem piecesFrom_run {u r : Text} (hu : IsRun u) (hne : u ≠ []) (hr : IsCut r) (fuel : Nat)
    (start lead : Bool) :
    piecesFrom (fuel + 1) start lead (u ++ r) =
      (piecesFrom fuel false (endsWithEmptyLine start u) r).map (.run u :: ·) := by
  obtain ⟨c, v, rfl⟩ := List.exists_cons_of_ne_nil hne
  have hc : '{' ≠ c := Ne.symm (hu c (by simp)).1
  have hrun := runUpToTag_append hu hr
  rw [List.cons_append] at hrun ⊢
  simp [piecesFrom, after?, hc, hrun]

theorem piecesFrom_tag {c : Char} (hc : c ≠ '{') {inside r : Text} {t : Tag}
    (h : tag? (tag (c :: inside) ++ r) = some (.plain t, r)) (fuel : Nat) (start lead : Bool) :
    piecesFrom (fuel + 1) start lead (tag (c :: inside) ++ r) =
      (piecesFrom fuel false false r).map
        (.tag (.plain t) (t.ownsLine && lead && startsWithEmptyLine r) :: ·) := by
  have hraw : rawBlock? ('{' :: '{' :: c :: (inside ++ ['}', '}'] ++ r)) = none := by
    simp [rawBlock?, after?, Ne.symm hc]
  have hsource : tag (c :: inside) ++ r = '{' :: '{' :: c :: (inside ++ ['}', '}'] ++ r) := by
    simp [tag]
  rw [hsource] at h ⊢
  simp only [piecesFrom, hraw, h, Option.bind_eq_bind, Option.bind_some]
  cases piecesFrom fuel false false r <;> rfl

theorem Name.exists_cons (n : Name) : ∃ c t, n.word = c :: t ∧ c ≠ '{' := by
  obtain ⟨c, t, ht, hc⟩ := n.isName.exists_cons []
  exact ⟨c, t, by simpa using ht, ne_of_isLetter hc rfl⟩

theorem piecesFrom_value (n : Name) (fuel : Nat) (start lead : Bool) (r : Text) :
    piecesFrom (fuel + 1) start lead (tag n.word ++ r) =
      (piecesFrom fuel false false r).map ((Inline.value n).pieces ++ ·) := by
  have htag := tag?_value n.isName.toIsWord r
  obtain ⟨c, t, ht, hc⟩ := n.exists_cons
  rw [ht] at htag ⊢
  rw [piecesFrom_tag hc htag]
  simp [Inline.pieces, ht, Tag.ownsLine]

theorem piecesFrom_call (helper n : Name) (fuel : Nat) (start lead : Bool) (r : Text) :
    piecesFrom (fuel + 1) start lead (tag (helper.word ++ ' ' :: n.word) ++ r) =
      (piecesFrom fuel false false r).map ((Inline.call helper n).pieces ++ ·) := by
  have htag := tag?_call helper.isName.toIsWord n.isName.toIsWord r
  obtain ⟨c, t, ht, hc⟩ := helper.exists_cons
  rw [ht, List.cons_append] at htag ⊢
  rw [piecesFrom_tag hc htag]
  simp [Inline.pieces, ht, Tag.ownsLine]

/-- The tags around a value do not stand alone: another tag follows the first, and the last follows
another tag. -/
theorem piecesFrom_wrap (helper n : Name) (fuel : Nat) (start lead : Bool) (r : Text) :
    piecesFrom (fuel + 3) start lead
        (opening helper.word ++ (tag n.word ++ (closing helper.word ++ r))) =
      (piecesFrom fuel false false r).map ((Inline.wrap helper n).pieces ++ ·) := by
  have hopening := tag?_opening helper.isName.toIsWord (tag n.word ++ (closing helper.word ++ r))
  have hclosing := tag?_closing helper.isName.toIsWord r
  have hfollowed : startsWithEmptyLine (tag n.word ++ (closing helper.word ++ r)) = false := rfl
  rw [opening, closing] at *
  rw [piecesFrom_tag (by decide) hopening, piecesFrom_value, piecesFrom_tag (by decide) hclosing]
  simp [hfollowed, Inline.pieces, Function.comp_def]

theorem piecesFrom_inline {i : Inline} (hi : (Token.inline i).run? = none) (r : Text) {fuel : Nat}
    (hfuel : (i.source ++ r).length < fuel) (start lead : Bool) :
    ∃ fuel', r.length < fuel' ∧ piecesFrom fuel start lead (i.source ++ r) =
      (piecesFrom fuel' false false r).map (i.pieces ++ ·) := by
  cases i with
  | text t _ => simp [Token.run?] at hi
  | value n =>
    simp only [Inline.source, tag, List.length_append, List.length_cons] at hfuel
    obtain ⟨fuel, rfl⟩ : ∃ f, fuel = f + 1 := ⟨fuel - 1, by omega⟩
    exact ⟨fuel, by omega, piecesFrom_value n fuel start lead r⟩
  | call helper n =>
    simp only [Inline.source, tag, List.length_append, List.length_cons] at hfuel
    obtain ⟨fuel, rfl⟩ : ∃ f, fuel = f + 1 := ⟨fuel - 1, by omega⟩
    exact ⟨fuel, by omega, piecesFrom_call helper n fuel start lead r⟩
  | wrap helper n =>
    simp only [Inline.source, opening, closing, tag, List.length_append, List.length_cons] at hfuel
    obtain ⟨fuel, rfl⟩ : ∃ f, fuel = f + 3 := ⟨fuel - 3, by omega⟩
    refine ⟨fuel, by omega, ?_⟩
    rw [← piecesFrom_wrap helper n fuel start lead r]
    simp only [Inline.source, List.append_assoc]

theorem piecesFrom_block (b : BlockTag) (fuel : Nat) (start : Bool) (r : Text) :
    piecesFrom (fuel + 1) start true (b.source ++ '\n' :: r) =
      (piecesFrom fuel false false ('\n' :: r)).map (.tag (.plain b.tag) true :: ·) := by
  obtain ⟨c, inside, hsource, hc⟩ : ∃ c inside, b.source = tag (c :: inside) ∧ c ≠ '{' := by
    cases b <;> exact ⟨_, _, rfl, by decide⟩
  have hown : b.tag.ownsLine = true := by cases b <;> rfl
  have htag := b.tag?_source ('\n' :: r)
  rw [hsource] at htag ⊢
  rw [piecesFrom_tag hc htag, hown, Bool.and_self, Bool.true_and]
  rfl

theorem piecesFrom_token {tok : Token} (htok : tok.run? = none) (r : Text) {fuel : Nat}
    (hfuel : (tok.source ++ r).length < fuel) (start : Bool) {lead : Bool}
    (hlead : tok.isBlock → lead) :
    ∃ fuel', (tok.behind ++ r).length < fuel' ∧ piecesFrom fuel start lead (tok.source ++ r) =
      (piecesFrom fuel' false false (tok.behind ++ r)).map (tok.pieces ++ ·) := by
  cases tok with
  | inline i => exact piecesFrom_inline htok r hfuel start lead
  | lineFeed => simp [Token.run?] at htok
  | block b =>
    obtain rfl : lead = true := hlead rfl
    have hsource : (Token.block b).source ++ r = b.source ++ '\n' :: r := by
      simp [Token.source]
    have hlength : 0 < b.source.length := by
      cases b <;> simp [BlockTag.source, opening, closing, tag]
    rw [hsource, List.length_append] at hfuel
    obtain ⟨fuel, rfl⟩ : ∃ f, fuel = f + 1 := ⟨fuel - 1, by omega⟩
    refine ⟨fuel, ?_, ?_⟩
    · simp only [Token.behind, Token.isBlock, if_true, List.singleton_append]
      omega
    · rw [hsource]
      exact piecesFrom_block b fuel start r

/-! ### White space -/

theorem layout_token {tok : Token} (htok : tok.run? = none) (ps : List Piece) :
    layout ⟨false, false⟩ (tok.pieces ++ ps) = tok.pieces ++ layout ⟨false, tok.isBlock⟩ ps := by
  cases tok with
  | inline i => cases i <;> rfl
  | lineFeed => simp [Token.run?] at htok
  | block b => cases b <;> rfl

/-- What a run loses depends on the next piece only. -/
theorem closeRun_layout (t : Text) (m : Margin) (ps : List Piece) :
    closeRun t (layout m ps) = closeRun t ps := by
  cases ps with
  | nil => rfl
  | cons p ps => cases p <;> rfl

/-- A run loses nothing in front of a tag, if it ends with a line where the tag stands alone. -/
theorem closeRun_token {tok : Token} (htok : tok.run? = none) {t : Text}
    (ht : tok.isBlock → ∀ c ∈ t.getLast?, c = '\n') (ps : List Piece) :
    closeRun t (tok.pieces ++ ps) = t := by
  cases tok with
  | inline i =>
    cases i with
    | text _ _ => simp [Token.run?] at htok
    | _ => rfl
  | lineFeed => simp [Token.run?] at htok
  | block b =>
    have hkept : dropWhileEnd isBlankChar t = t := by
      rw [dropWhileEnd_eq_rdropWhile, List.rdropWhile_eq_self_iff]
      intro hne
      rw [ht rfl _ (List.getLast_mem_getLast? hne)]
      decide
    exact hkept

/-- A line feed behind the tag of a block is dropped. -/
theorem layout_run {drops : Bool} {u : Text} (hu : drops → u.head? = some '\n') (ps : List Piece) :
    layout ⟨false, drops⟩ (.run u :: ps) =
      .run (closeRun (if drops then u.tail else u) ps) :: layout ⟨false, false⟩ ps := by
  cases drops with
  | false => rfl
  | true =>
    obtain ⟨v, rfl⟩ := List.head?_eq_some_iff.1 (hu rfl)
    rfl

/-- What is known of the text since the last tag: it is plain, it starts with the line feed that is
dropped, and where a line starts behind it, it ends with a line feed. Without a text, `lead` tells
whether a line starts. -/
structure IsHeld (drops lead atStart : Bool) (acc : Text) : Prop where
  run : IsRun acc
  head : drops → acc.head? = some '\n'
  line : atStart → if acc = [] then lead else acc.getLast? = some '\n'

namespace IsHeld

variable {drops lead atStart : Bool} {acc : Text}

theorem append (hacc : IsHeld drops lead atStart acc) {tok : Token} {t : Text}
    (ht : tok.run? = some t) : IsHeld drops lead (tok.endsLine atStart) (acc ++ t) where
  run := by
    intro c hc
    rcases List.mem_append.1 hc with hc | hc
    · exact hacc.run c hc
    · exact isRun_of_run? ht c hc
  head h := by
    rw [List.head?_append, hacc.head h]
    rfl
  line h := by
    cases tok with
    | inline i =>
      cases i with
      | text u _ =>
        obtain rfl := Option.some.inj ht
        simp only [Token.endsLine, Bool.and_eq_true, List.isEmpty_iff] at h
        rw [h.1, List.append_nil]
        exact hacc.line h.2
      | _ => simp [Token.run?] at ht
    | lineFeed =>
      obtain rfl := Option.some.inj ht
      simp
    | block b => simp [Token.run?] at ht

theorem behind {tok : Token} (htok : tok.run? = none) :
    IsHeld tok.isBlock false (tok.endsLine atStart) tok.behind := by
  cases tok with
  | inline i =>
    cases i with
    | text _ _ => simp [Token.run?] at htok
    | _ => constructor <;> simp [Token.isBlock, Token.behind, Token.endsLine, IsRun]
  | lineFeed => simp [Token.run?] at htok
  | block b => constructor <;> simp [Token.isBlock, Token.behind, IsRun]

end IsHeld

/-- A text that starts with a tag, or the empty one. -/
def StartsTag (ts : List Token) : Prop := ∀ tok ∈ ts.head?, tok.run? = none

theorem isCut_sourceOf {ts : List Token} (hts : StartsTag ts) : IsCut (sourceOf ts) := by
  cases ts with
  | nil => exact .inl rfl
  | cons tok ts =>
    refine .inr ?_
    have htok := hts tok rfl
    cases tok with
    | inline i =>
      cases i with
      | text _ _ => simp [Token.run?] at htok
      | _ => simp [Token.source, Inline.source, opening, tag]
    | lineFeed => simp [Token.run?] at htok
    | block b => cases b <;> simp [Token.source, BlockTag.source, opening, closing, tag]

theorem laid_of_startsTag {ts : List Token} (hts : StartsTag ts) (drops : Bool) (acc : Text) :
    laid drops acc ts = heldRun drops acc ++ laid false [] ts := by
  cases ts with
  | nil => simp [laid, heldRun]
  | cons tok ts => simp [laid, hts tok rfl, heldRun]

theorem endsWithEmptyLine_of_getLast? {t : Text} (ht : t.getLast? = some '\n') (start : Bool) :
    endsWithEmptyLine start t = true := by
  obtain ⟨u, rfl⟩ := List.getLast?_eq_some_iff.1 ht
  simp [endsWithEmptyLine, isBlankChar, isLineBreak]

/-- The pieces of tokens, with the white space around their tags gone, behind any text since the
last tag. -/
def IsRead (atStart : Bool) (ts : List Token) : Prop :=
  ∀ drops lead acc, IsHeld drops lead atStart acc → ∀ start fuel,
    (acc ++ sourceOf ts).length < fuel →
    (piecesFrom fuel start lead (acc ++ sourceOf ts)).map (layout ⟨false, drops⟩) =
      some (laid drops acc ts)

/-- A run keeps all of its text in front of what a line starts with. -/
theorem closeRun_laid {atStart : Bool} {ts : List Token} (hts : StartsTag ts)
    (hlined : Lined atStart ts) {t : Text} (ht : atStart → ∀ c ∈ t.getLast?, c = '\n') :
    closeRun t (laid false [] ts) = t := by
  cases ts with
  | nil => rfl
  | cons tok ts =>
    have htok := hts tok rfl
    simp only [laid, htok, heldRun, if_true, List.nil_append]
    exact closeRun_token htok (fun h => ht (hlined.1 h)) _

/-- The text since the last tag is one run in front of the next tag. -/
theorem IsRead.of_startsTag {atStart : Bool} {ts : List Token} (hts : StartsTag ts)
    (hlined : Lined atStart ts)
    (h : ∀ (start lead : Bool) (fuel : Nat), (atStart → lead) → (sourceOf ts).length < fuel →
      (piecesFrom fuel start lead (sourceOf ts)).map (layout ⟨false, false⟩) =
        some (laid false [] ts)) : IsRead atStart ts := by
  intro drops lead acc hacc start fuel hfuel
  by_cases hne : acc = []
  · subst hne
    have hdrops : drops = false := Bool.eq_false_iff.2 fun hd => by simpa using hacc.head hd
    subst hdrops
    exact h start lead fuel (by simpa using hacc.line) hfuel
  · have hlead : atStart → endsWithEmptyLine start acc := fun hs =>
      endsWithEmptyLine_of_getLast? (by simpa [hne] using hacc.line hs) start
    rw [List.length_append] at hfuel
    obtain ⟨fuel, rfl⟩ : ∃ f, fuel = f + 1 := ⟨fuel - 1, by omega⟩
    have hpos : 0 < acc.length := List.length_pos_of_ne_nil hne
    obtain ⟨ps, hps, hlayout⟩ := Option.map_eq_some_iff.1
      (h false (endsWithEmptyLine start acc) fuel hlead (by omega))
    have hend : atStart → ∀ c ∈ (if drops then acc.tail else acc).getLast?, c = '\n' := by
      intro hs
      have hlast : acc.getLast? = some '\n' := by simpa [hne] using hacc.line hs
      split
      · rw [List.getLast?_tail, hlast]
        split <;> simp
      · simp [hlast]
    have hclose := closeRun_laid hts hlined hend
    rw [← hlayout, closeRun_layout] at hclose
    rw [piecesFrom_run hacc.run hne (isCut_sourceOf hts), hps, laid_of_startsTag hts]
    simp [layout_run hacc.head, hclose, hlayout, heldRun, hne]

/-- The text of lined tokens is cut into their pieces. -/
theorem isRead_of_lined {atStart : Bool} {ts : List Token} (hts : Lined atStart ts) :
    IsRead atStart ts := by
  induction ts generalizing atStart with
  | nil =>
    refine .of_startsTag (by simp [StartsTag]) hts fun start lead fuel _ hfuel => ?_
    obtain ⟨fuel, rfl⟩ : ∃ f, fuel = f + 1 := ⟨fuel - 1, by omega⟩
    rfl
  | cons tok ts ih =>
    obtain ⟨hblock, hrest⟩ := hts
    cases htok : tok.run? with
    | some t =>
      have hsource := source_of_run? htok
      intro drops lead acc hacc start fuel hfuel
      rw [sourceOf_cons, hsource, ← List.append_assoc] at hfuel ⊢
      simp only [laid, htok]
      exact ih hrest drops lead (acc ++ t) (hacc.append htok) start fuel hfuel
    | none =>
      refine .of_startsTag (by simp [StartsTag, htok]) ⟨hblock, hrest⟩
        fun start lead fuel hlead hfuel => ?_
      obtain ⟨fuel', hfuel', hpieces⟩ :=
        piecesFrom_token htok (sourceOf ts) hfuel start fun h => hlead (hblock h)
      obtain ⟨ps, hps, hlayout⟩ := Option.map_eq_some_iff.1
        (ih hrest tok.isBlock false tok.behind (.behind htok) false fuel' hfuel')
      rw [sourceOf_cons, hpieces, hps]
      simp [laid, htok, heldRun, layout_token htok, hlayout]

end DocSnippet.Template
