import DocSnippet.Proofs.Template.Layout
import DocSnippet.Template.Render

/-! How the pieces of a form are nested into nodes. The nodes that are read join the texts of lines
into runs, so they are not those that a form is written with, but they write the same. -/

namespace DocSnippet.Template

open Text

/-! ### Nodes that write the same -/

/-- Both rows of nodes write the same in every scope. -/
def WritesAs (ns ms : List Node) : Prop := ∀ H s, renderAll H ns s = renderAll H ms s

namespace WritesAs

variable {ns ms ls : List Node}

theorem refl (ns : List Node) : WritesAs ns ns := fun _ _ => rfl

theorem trans (h : WritesAs ns ms) (h' : WritesAs ms ls) : WritesAs ns ls :=
  fun H s => (h H s).trans (h' H s)

theorem cons (n : Node) (h : WritesAs ns ms) : WritesAs (n :: ns) (n :: ms) := fun H s => by
  rw [renderAll, renderAll, h H s]

theorem block {helper : Text} {os : List Operand} {body body' inverse inverse' : List Node}
    (hbody : WritesAs body body') (hinverse : WritesAs inverse inverse') (h : WritesAs ns ms) :
    WritesAs (.block helper os [] body inverse :: ns)
      (.block helper os [] body' inverse' :: ms) := by
  intro H s
  have hbody : renderAll H body = renderAll H body' := funext (hbody H)
  have hinverse : renderAll H inverse = renderAll H inverse' := funext (hinverse H)
  simp only [renderAll, Node.render, hbody, hinverse, h H s]

theorem renderAll_text (H : Helpers) (t : Text) (ns : List Node) (s : Scope) :
    renderAll H (.text t :: ns) s = (renderAll H ns s).map (t ++ ·) := by
  rw [renderAll, Node.render]
  cases renderAll H ns s <;> rfl

theorem text_nil (ns : List Node) : WritesAs (.text [] :: ns) ns := fun H s => by
  rw [renderAll_text]
  cases renderAll H ns s <;> rfl

theorem text_append (t u : Text) (ns : List Node) :
    WritesAs (.text (t ++ u) :: ns) (.text t :: .text u :: ns) := fun H s => by
  simp only [renderAll_text]
  cases renderAll H ns s <;> simp [Except.map]

end WritesAs

/-! ### Rows of pieces -/

structure Nests (ps : List Piece) (nodes : List Node) (rest : List Piece) : Prop where
  length_le : rest.length ≤ ps.length
  nested : ∀ fuel, ps.length < fuel → ∃ ns, nodes? fuel ps = some (ns, rest) ∧ WritesAs ns nodes

namespace Nests

variable {ps : List Piece} {nodes nodes' : List Node} {rest : List Piece}

theorem congr (h : Nests ps nodes rest) (hnodes : WritesAs nodes nodes') :
    Nests ps nodes' rest where
  length_le := h.length_le
  nested fuel hfuel := by
    obtain ⟨ns, hns, hwrites⟩ := h.nested fuel hfuel
    exact ⟨ns, hns, hwrites.trans hnodes⟩

theorem nil : Nests [] [] [] where
  length_le := le_refl _
  nested fuel hfuel := by
    obtain ⟨fuel, rfl⟩ : ∃ f, fuel = f + 1 := ⟨fuel - 1, by omega⟩
    exact ⟨[], rfl, .refl _⟩

theorem stop {p : Piece} (hp : ∀ fuel, nodes? (fuel + 1) (p :: ps) = some ([], p :: ps)) :
    Nests (p :: ps) [] (p :: ps) where
  length_le := le_refl _
  nested fuel hfuel := by
    obtain ⟨fuel, rfl⟩ : ∃ f, fuel = f + 1 := ⟨fuel - 1, by omega⟩
    exact ⟨[], hp fuel, .refl _⟩

theorem cons {p : Piece} {n : Node}
    (hp : ∀ fuel ps, nodes? (fuel + 1) (p :: ps) = (nodes? fuel ps).map fun (ns, r) => (n :: ns, r))
    (h : Nests ps nodes rest) : Nests (p :: ps) (n :: nodes) rest where
  length_le := h.length_le.trans (by simp)
  nested fuel hfuel := by
    rw [List.length_cons] at hfuel
    obtain ⟨fuel, rfl⟩ : ∃ f, fuel = f + 1 := ⟨fuel - 1, by omega⟩
    obtain ⟨ns, hns, hwrites⟩ := h.nested fuel (by omega)
    exact ⟨n :: ns, by rw [hp, hns]; rfl, hwrites.cons n⟩

end Nests

/-- The rest of a block from its division or its end on: `rest` stands behind the block. -/
structure Divides (helper : Text) (ps : List Piece) (inverse : List Node) (rest : List Piece) :
    Prop where
  length_lt : rest.length < ps.length
  nested : ∀ fuel, ps.length < fuel →
    ∃ ns, inverse? fuel helper ps = some (ns, rest) ∧ WritesAs ns inverse

theorem Divides.closing (helper : Text) (alone : Bool) (ps : List Piece) :
    Divides helper (.tag (.plain (.closing helper)) alone :: ps) [] ps where
  length_lt := by simp
  nested fuel hfuel := by
    rw [List.length_cons] at hfuel
    obtain ⟨fuel, rfl⟩ : ∃ f, fuel = f + 1 := ⟨fuel - 1, by omega⟩
    exact ⟨[], by simp [inverse?, Mark.plain, closed?], .refl []⟩

theorem Divides.orElse {helper : Text} {alone alone' : Bool} {inverse : List Node}
    {ps rest : List Piece}
    (h : Nests ps inverse (.tag (.plain (.closing helper)) alone' :: rest)) :
    Divides helper (.tag (.plain (.orElse none)) alone :: ps) inverse rest where
  length_lt := by
    have hlength := h.length_le
    simp only [List.length_cons] at hlength ⊢
    omega
  nested fuel hfuel := by
    rw [List.length_cons] at hfuel
    obtain ⟨fuel, rfl⟩ : ∃ f, fuel = f + 1 := ⟨fuel - 1, by omega⟩
    obtain ⟨ns, hns, hwrites⟩ := h.nested fuel (by omega)
    refine ⟨ns, ?_, hwrites⟩
    rw [inverse?]
    simp only [Mark.plain] at *
    simp [hns, closed?]

theorem Nests.block {helper : Text} {os : List Operand} {alone : Bool}
    {body inverse nodes : List Node} {psBody psInverse ps rest : List Piece}
    (hbody : Nests psBody body psInverse) (hinverse : Divides helper psInverse inverse ps)
    (h : Nests ps nodes rest) :
    Nests (.tag (.plain (.opening ⟨helper, os, []⟩)) alone :: psBody)
      (.block helper os [] body inverse :: nodes) rest := by
  have hbodyLength := hbody.length_le
  have hinverseLength := hinverse.length_lt
  have hlength := h.length_le
  refine ⟨by rw [List.length_cons]; omega, fun fuel hfuel => ?_⟩
  rw [List.length_cons] at hfuel
  obtain ⟨fuel, rfl⟩ : ∃ f, fuel = f + 1 := ⟨fuel - 1, by omega⟩
  obtain ⟨ns, hns, hwrites⟩ := hbody.nested fuel (by omega)
  obtain ⟨is, his, hwritesInverse⟩ := hinverse.nested fuel (by omega)
  obtain ⟨ms, hms, hwritesRest⟩ := h.nested fuel (by omega)
  refine ⟨.block helper os [] ns is :: ms, ?_, .block hwrites hwritesInverse hwritesRest⟩
  rw [nodes?]
  simp [Mark.plain, hns, his, hms]

/-! ### Rows of tokens -/

def Inline.node : Inline → Node
  | .text t _ => .text t
  | .value n => .value n.word (.ofName n.word)
  | .call helper n => .call helper.word [.ofName n.word]
  | .wrap helper n => .block helper.word [] [] [.value n.word (.ofName n.word)] []

/-- Behind any text since the last tag, tokens are nested into nodes that write the same as `nodes`,
and `rest` is left of their pieces. -/
def Follows (ts : List Token) (nodes : List Node) (rest : List Piece) : Prop :=
  ∀ (drops : Bool) (acc : Text), (drops → acc ≠ []) →
    Nests (laid drops acc ts) (.text (if drops then acc.tail else acc) :: nodes) rest

theorem Nests.heldRun {ps : List Piece} {nodes : List Node} {rest : List Piece}
    (h : Nests ps nodes rest) {drops : Bool} {acc : Text} (hacc : drops → acc ≠ []) :
    Nests (heldRun drops acc ++ ps) (.text (if drops then acc.tail else acc) :: nodes) rest := by
  rw [Template.heldRun]
  by_cases hne : acc = []
  · subst hne
    have hdrops : drops = false := Bool.eq_false_iff.2 fun hd => hacc hd rfl
    subst hdrops
    rw [if_pos rfl]
    refine h.congr fun H s => (WritesAs.text_nil nodes H s).symm
  · rw [if_neg hne]
    exact .cons (fun fuel ps => rfl) h

theorem Nests.inline {i : Inline} (hi : (Token.inline i).run? = none) {ps : List Piece}
    {nodes : List Node} {rest : List Piece} (h : Nests ps nodes rest) :
    Nests (i.pieces ++ ps) (i.node :: nodes) rest := by
  cases i with
  | text _ _ => simp [Token.run?] at hi
  | value n => exact .cons (fun _ _ => rfl) h
  | call helper n => exact .cons (fun _ _ => rfl) h
  | wrap helper n =>
    have hclosing : Nests (.tag (.plain (.closing helper.word)) false :: ps) []
        (.tag (.plain (.closing helper.word)) false :: ps) := .stop fun _ => rfl
    exact .block (.cons (fun _ _ => rfl) hclosing) (.closing helper.word false ps) h

namespace Follows

variable {ts : List Token} {nodes : List Node} {rest : List Piece}

theorem laid_cons {tok : Token} (htok : tok.run? = none) (drops : Bool) (acc : Text) :
    laid drops acc (tok :: ts) =
      Template.heldRun drops acc ++ tok.pieces ++ laid tok.isBlock tok.behind ts := by
  simp only [laid, htok]

/-- Behind the tag of a block there is nothing but the line feed that is dropped. -/
theorem behind (h : Follows ts nodes rest) (tok : Token) :
    Nests (laid tok.isBlock tok.behind ts) nodes rest := by
  refine (h tok.isBlock tok.behind ?_).congr fun H s => ?_
  · intro hblock
    simp [Token.behind, hblock]
  · cases hblock : tok.isBlock <;> simp [Token.behind, hblock, WritesAs.text_nil nodes H s]

theorem nil : Follows [] [] [] := fun drops acc hacc => by
  have h := Nests.nil.heldRun hacc
  rwa [List.append_nil] at h

theorem stop {b : BlockTag} (hb : ∀ alone ps fuel,
      nodes? (fuel + 1) (.tag (.plain b.tag) alone :: ps) =
        some ([], .tag (.plain b.tag) alone :: ps)) (ts : List Token) :
    Follows (.block b :: ts) [] (.tag (.plain b.tag) true :: laid true ['\n'] ts) := by
  intro drops acc hacc
  rw [laid_cons rfl, List.append_assoc]
  exact (Nests.stop (hb true _)).heldRun hacc

/-- Plain text goes on with the text since the last tag. -/
theorem run {tok : Token} {t : Text} (htok : tok.run? = some t) (h : Follows ts nodes rest) :
    Follows (tok :: ts) (.text t :: nodes) rest := by
  intro drops acc hacc
  have hne : drops → acc ++ t ≠ [] := fun hd => by simp [hacc hd]
  have h := h drops (acc ++ t) hne
  simp only [laid, htok]
  refine h.congr fun H s => ?_
  rw [← WritesAs.text_append]
  cases drops with
  | false => rfl
  | true => rw [if_pos rfl, if_pos rfl, List.tail_append_of_ne_nil (hacc rfl)]

theorem inline (i : Inline) (h : Follows ts nodes rest) :
    Follows (.inline i :: ts) (i.node :: nodes) rest := by
  cases hi : (Token.inline i).run? with
  | some t =>
    cases i with
    | text u _ =>
      obtain rfl := Option.some.inj hi
      exact h.run hi
    | _ => simp [Token.run?] at hi
  | none =>
    intro drops acc hacc
    rw [laid_cons hi, List.append_assoc]
    exact (Nests.inline hi (h.behind (.inline i))).heldRun hacc

theorem block {b : BlockTag} {helper : Text} {os : List Operand}
    (hb : b.tag = .opening ⟨helper, os, []⟩) {psInverse ps : List Piece} {body inverse : List Node}
    (hbody : Follows ts body psInverse) (hinverse : Divides helper psInverse inverse ps)
    (h : Nests ps nodes rest) :
    Follows (.block b :: ts) (.block helper os [] body inverse :: nodes) rest := by
  intro drops acc hacc
  rw [laid_cons rfl, List.append_assoc]
  have hpieces : (Token.block b).pieces = [.tag (.plain (.opening ⟨helper, os, []⟩)) true] := by
    rw [Token.pieces, hb]
  rw [hpieces]
  exact (Nests.block (hbody.behind (.block b)) hinverse h).heldRun hacc

end Follows

/-! ### Forms -/

def Form.tokens : Form → List Token
  | .empty => []
  | .line pieces rest => pieces.map .inline ++ .lineFeed :: rest.tokens
  | .choose condition body inverse rest =>
    .block (.choose condition) :: (body.tokens ++
      ((if inverse.isEmpty then [] else .block .orElse :: inverse.tokens) ++
        .block .endChoose :: rest.tokens))
  | .forEach items body rest =>
    .block (.forEach items) :: (body.tokens ++ .block .endForEach :: rest.tokens)

def Form.nodes : Form → List Node
  | .empty => []
  | .line pieces rest => pieces.map Inline.node ++ .text ['\n'] :: rest.nodes
  | .choose condition body inverse rest =>
    .block "if".toList [.ofName condition.word] [] body.nodes inverse.nodes :: rest.nodes
  | .forEach items body rest =>
    .block "each".toList [.ofName items.word] [] body.nodes [] :: rest.nodes

theorem Follows.form (F : Form) {ts : List Token} {nodes : List Node} {r : List Piece}
    (h : Follows ts nodes r) : Follows (F.tokens ++ ts) (F.nodes ++ nodes) r := by
  induction F generalizing ts nodes r with
  | empty => exact h
  | line pieces rest ih =>
    have hfeed : Token.lineFeed.run? = some ['\n'] := rfl
    have hline := Follows.run hfeed (ih h)
    simp only [Form.tokens, Form.nodes, List.append_assoc]
    clear ih h
    induction pieces with
    | nil => exact hline
    | cons i pieces ih => exact .inline i ih
  | choose condition body inverse rest ihbody ihinverse ih =>
    have hend : Follows (.block .endChoose :: (rest.tokens ++ ts)) [] _ :=
      .stop (fun _ _ _ => rfl) _
    have hrest := (ih h).behind (.block .endChoose)
    simp only [Form.tokens, Form.nodes, List.cons_append, List.append_assoc]
    cases hinverse : inverse.isEmpty with
    | true =>
      have hnodes : inverse.nodes = [] := by
        cases inverse <;> simp_all [Form.isEmpty, Form.nodes]
      have hbody := ihbody hend
      rw [List.append_nil] at hbody
      rw [hnodes]
      exact .block rfl hbody (.closing _ _ _) hrest
    | false =>
      have helse : Follows
          (.block .orElse :: (inverse.tokens ++ .block .endChoose :: (rest.tokens ++ ts))) [] _ :=
        .stop (fun _ _ _ => rfl) _
      have hbody := ihbody helse
      have hdivided := (ihinverse hend).behind (.block .orElse)
      rw [List.append_nil] at hbody hdivided
      simp only [Bool.false_eq_true, if_false, List.cons_append]
      exact .block rfl hbody (.orElse hdivided) hrest
  | forEach items body rest ihbody ih =>
    have hend : Follows (.block .endForEach :: (rest.tokens ++ ts)) [] _ :=
      .stop (fun _ _ _ => rfl) _
    have hrest := (ih h).behind (.block .endForEach)
    have hbody := ihbody hend
    rw [List.append_nil] at hbody
    simp only [Form.tokens, Form.nodes, List.cons_append, List.append_assoc]
    exact .block rfl hbody (.closing _ _ _) hrest

end DocSnippet.Template
