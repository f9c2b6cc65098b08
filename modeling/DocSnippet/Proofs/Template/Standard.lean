import DocSnippet.Proofs.Template.Documented
import DocSnippet.Proofs.Template.Nesting

/-! The running engine keeps to the laws of engines. It reads every form, and the nodes that it
reads write what the nodes of the form write, which depends on nothing of a scope but the value that
is seen in it. -/

namespace DocSnippet.Template

open Text

/-! ### Reading -/

@[simp] theorem sourceOf_append (ts us : List Token) :
    sourceOf (ts ++ us) = sourceOf ts ++ sourceOf us := List.flatMap_append

theorem sourceOf_tokens (F : Form) : sourceOf F.tokens = F.source := by
  induction F with
  | empty => rfl
  | line pieces rest ih =>
    have hpieces : sourceOf (pieces.map .inline) = pieces.flatMap Inline.source := by
      simp [sourceOf, List.flatMap_map, Token.source]
    simp [Form.tokens, Form.source, hpieces, ih, Token.source]
  | choose condition body inverse rest ihbody ihinverse ih =>
    simp only [Form.tokens, Form.source, sourceOf_cons, sourceOf_append, Token.source,
      BlockTag.source, ihbody, ih]
    cases inverse.isEmpty <;> simp [ihinverse, Token.source, BlockTag.source]
  | forEach items body rest ihbody ih =>
    simp [Form.tokens, Form.source, Token.source, BlockTag.source, ihbody, ih]

/-- A form starts and ends a line, and so does every tag of its blocks. -/
theorem lined_tokens (F : Form) {ts : List Token} (hts : Lined true ts) :
    Lined true (F.tokens ++ ts) := by
  induction F generalizing ts with
  | empty => exact hts
  | line pieces rest ih =>
    have hline : ∀ atStart,
        Lined atStart (pieces.map .inline ++ .lineFeed :: (rest.tokens ++ ts)) := by
      induction pieces with
      | nil => exact fun _ => ⟨by simp [Token.isBlock], ih hts⟩
      | cons i pieces ih => exact fun _ => ⟨by simp [Token.isBlock], ih _⟩
    simpa [Form.tokens] using hline true
  | choose condition body inverse rest ihbody ihinverse ih =>
    have hrest : Lined true (.block .endChoose :: (rest.tokens ++ ts)) := ⟨fun _ => rfl, ih hts⟩
    simp only [Form.tokens, List.cons_append, List.append_assoc]
    refine ⟨fun _ => rfl, ihbody ?_⟩
    cases inverse.isEmpty with
    | true => exact hrest
    | false => exact ⟨fun _ => rfl, ihinverse hrest⟩
  | forEach items body rest ihbody ih =>
    simp only [Form.tokens, List.cons_append, List.append_assoc]
    exact ⟨fun _ => rfl, ihbody ⟨fun _ => rfl, ih hts⟩⟩

theorem length_layout (m : Margin) (ps : List Piece) : (layout m ps).length = ps.length := by
  induction ps generalizing m with
  | nil => rfl
  | cons p ps ih => cases p <;> simp [layout, ih]

/-- Every form is read, and what is read writes the same as the nodes of the form. -/
theorem exists_parse?_source (F : Form) :
    ∃ ns, parse? F.source = some ns ∧ WritesAs ns F.nodes := by
  have hlined : Lined true F.tokens := by
    have h : Lined true (F.tokens ++ []) := lined_tokens F trivial
    rwa [List.append_nil] at h
  have hnil : IsHeld false true true [] := by constructor <;> simp [IsRun]
  obtain ⟨ps, hps, hlayout⟩ := Option.map_eq_some_iff.1
    (isRead_of_lined hlined false true [] hnil true (F.source.length + 1)
      (by simp [sourceOf_tokens]))
  have hnests : Nests (laid false [] F.tokens) (.text [] :: F.nodes) [] := by
    have h := Follows.form F .nil false [] (by simp)
    simpa using h
  rw [← hlayout] at hnests
  obtain ⟨ns, hns, hwrites⟩ := hnests.nested (2 * ps.length + 2) (by rw [length_layout]; omega)
  refine ⟨ns, ?_, hwrites.trans (.text_nil _)⟩
  rw [List.nil_append, sourceOf_tokens] at hps
  simp [parse?, pieces?, hps, hns]

/-! ### Scopes -/

structure Scope.Sees (s : Scope) (v : Value) : Prop where
  base : s.frame 0 = v
  unnamed : ∀ name, s.param? name = none

variable {H : Helpers} {s s' : Scope} {v : Value}

namespace Scope.Sees

theorem start (v : Value) : (Scope.start v).Sees v := ⟨rfl, fun _ => rfl⟩

/-- In a block without names its value is seen. -/
theorem push (hs : s.Sees v) {f : Frame} (hf : f.params = []) : (s.push f).Sees f.base := by
  refine ⟨rfl, fun name => ?_⟩
  have h := hs.unnamed name
  rw [Scope.param?] at h ⊢
  simp [Scope.push, hf, h]

theorem eval_ofName (hs : s.Sees v) (name : Text) :
    (Operand.ofName name).eval H s = v.get name := by
  simp only [Operand.ofName, Operand.eval, Scope.resolve, hs.unnamed, hs.base, Value.follow]
  cases v.get name <;> rfl

theorem evalAll_ofName (hs : s.Sees v) (name : Text) :
    evalAll H [.ofName name] s = (v.get name).map fun w => ⟨[w], []⟩ := by
  simp only [evalAll, hs.eval_ofName]
  cases v.get name <;> rfl

end Scope.Sees

theorem ofName?_eq_none {w : Text} (hw : w ∉ known) : Builtin.ofName? w = none := by
  have hknown : known = Builtin.table.map Prod.fst := by decide
  rw [Builtin.ofName?, List.lookup_eq_none_iff]
  intro p hp
  have hne : w ≠ p.1 := by
    rintro rfl
    exact hw (hknown ▸ List.mem_map_of_mem hp)
  simpa using hne

/-! ### What is written depends on the value that is seen -/

theorem render_node (i : Inline) (hs : s.Sees v) (hs' : s'.Sees v) :
    i.node.render H s = i.node.render H s' := by
  have hvalue : ∀ n : Name,
      (Inline.value n).node.render H s = (Inline.value n).node.render H s' := by
    intro n
    simp only [Inline.node, Node.render, renderCall, evalAll, ofName?_eq_none n.isName.notMem_known,
      hs.eval_ofName, hs'.eval_ofName]
    rfl
  cases i with
  | text t _ => rfl
  | value n => exact hvalue n
  | call helper n =>
    simp only [Inline.node, Node.render, renderCall, hs.evalAll_ofName, hs'.evalAll_ofName,
      ofName?_eq_none helper.isName.notMem_known]
    rfl
  | wrap helper n =>
    have hbody :
        renderAll H [(Inline.value n).node] s = renderAll H [(Inline.value n).node] s' := by
      rw [renderAll, renderAll, hvalue n]
      rfl
    simp only [Inline.node] at hbody
    simp only [Inline.node, Node.render, renderCall, evalAll, Option.map_some, hbody,
      ofName?_eq_none helper.isName.notMem_known]

theorem repeatBody_congr {body : Body} {fs : List Frame}
    (h : ∀ f ∈ fs, body (s.push f) = body (s'.push f)) :
    repeatBody body s fs = repeatBody body s' fs := by
  induction fs with
  | nil => rfl
  | cons f fs ih => simp only [repeatBody, h f (by simp), ih fun g hg => h g (by simp [hg])]

theorem params_of_mem_listFrames {n i : Nat} {vs : List Value} {f : Frame}
    (hf : f ∈ listFrames [] n i vs) : f.params = [] := by
  induction vs generalizing i with
  | nil => simp [listFrames] at hf
  | cons v vs ih =>
    rcases List.mem_cons.1 hf with rfl | hf
    · rfl
    · exact ih hf

theorem params_of_mem_recordFrames {n i : Nat} {fields : List (Text × Value)} {f : Frame}
    (hf : f ∈ recordFrames [] n i fields) : f.params = [] := by
  induction fields generalizing i with
  | nil => simp [recordFrames] at hf
  | cons p fields ih =>
    rcases List.mem_cons.1 hf with rfl | hf
    · rfl
    · exact ih hf

/-- The helpers of a program do not hide those of the engine. -/
def KeepsKnown (H : Helpers) : Prop := ∀ w ∈ known, H.lookup w = none

variable {name : Text} {body inverse : List Node}

theorem Scope.Sees.render_choose (hH : KeepsKnown H) (hs : s.Sees v) :
    (Node.block "if".toList [.ofName name] [] body inverse).render H s =
      (v.get name).bind fun w =>
        if w.isTrue false then renderAll H body s else renderAll H inverse s := by
  have hif : H.lookup "if".toList = none := hH _ (by decide)
  have hwhen : Builtin.ofName? "if".toList = some .when := rfl
  simp only [Node.render, renderCall, hif, hwhen, hs.evalAll_ofName]
  cases v.get name <;> rfl

/-- The frames of a loop without names over a value. -/
def framesOf : Value → List Frame
  | .list vs => listFrames [] vs.length 0 vs
  | .record fields => recordFrames [] fields.length 0 fields
  | _ => []

theorem params_of_mem_framesOf {w : Value} {f : Frame} (hf : f ∈ framesOf w) : f.params = [] := by
  cases w with
  | list vs => exact params_of_mem_listFrames hf
  | record fields => exact params_of_mem_recordFrames hf
  | _ => simp [framesOf] at hf

theorem Scope.Sees.render_forEach (hH : KeepsKnown H) (hs : s.Sees v) :
    (Node.block "each".toList [.ofName name] [] body []).render H s =
      (v.get name).bind fun w => repeatBody (renderAll H body) s (framesOf w) := by
  have heach : H.lookup "each".toList = none := hH _ (by decide)
  have hloop : Builtin.ofName? "each".toList = some .each := rfl
  simp only [Node.render, renderCall, heach, hloop, hs.evalAll_ofName]
  cases v.get name with
  | error e => rfl
  | ok w =>
    cases w with
    | list vs => cases vs <;> rfl
    | record fields => cases fields <;> rfl
    | _ => rfl

/-- What the nodes of a form write depends on nothing of a scope but the value that is seen in it.
-/
theorem renderAll_nodes (hH : KeepsKnown H) (F : Form) {s s' : Scope} {v : Value} (hs : s.Sees v)
    (hs' : s'.Sees v) : renderAll H F.nodes s = renderAll H F.nodes s' := by
  induction F generalizing s s' v with
  | empty => rfl
  | line pieces rest ih =>
    simp only [Form.nodes]
    induction pieces with
    | nil => simp only [List.map_nil, List.nil_append, renderAll, Node.render, ih hs hs']
    | cons i pieces ihpieces =>
      simp only [List.map_cons, List.cons_append, renderAll, render_node i hs hs', ihpieces]
  | choose condition body inverse rest ihbody ihinverse ih =>
    simp only [Form.nodes, renderAll, hs.render_choose hH, hs'.render_choose hH, ihbody hs hs',
      ihinverse hs hs', ih hs hs']
  | forEach items body rest ihbody ih =>
    have hloop : ∀ w, repeatBody (renderAll H body.nodes) s (framesOf w) =
        repeatBody (renderAll H body.nodes) s' (framesOf w) := by
      intro w
      refine repeatBody_congr fun f hf => ?_
      have hparams := params_of_mem_framesOf hf
      exact ihbody (hs.push hparams) (hs'.push hparams)
    simp only [Form.nodes, renderAll, hs.render_forEach hH, hs'.render_forEach hH, hloop, ih hs hs']

/-! ### The laws -/

namespace Engine

theorem standard_fills_iff {F : Form} {t : Text} :
    standard.Fills H F v t ↔ renderAll H F.nodes (.start v) = .ok t := by
  obtain ⟨ns, hns, hwrites⟩ := exists_parse?_source F
  have hread : standard.read F.source = .ok ns := by simp only [standard, hns]
  constructor
  · rintro ⟨p, hp, ht⟩
    obtain rfl := Except.ok.inj (hread.symm.trans hp)
    rw [← hwrites]
    exact ht
  · intro h
    refine ⟨ns, hread, ?_⟩
    rw [← hwrites] at h
    exact h

theorem renderAll_cons_iff {n : Node} {ns : List Node} {r : Text} :
    renderAll H (n :: ns) s = .ok r ↔
      ∃ t u, n.render H s = .ok t ∧ renderAll H ns s = .ok u ∧ r = t ++ u := by
  rw [renderAll]
  cases n.render H s with
  | error e => simp
  | ok t =>
    cases renderAll H ns s with
    | error e => simp
    | ok u => simp [eq_comm]

theorem standard_shows_iff {i : Inline} {t : Text} :
    standard.Shows H v i t ↔ i.node.render H (.start v) = .ok t := by
  have hline : ∀ u, renderAll H [.text ['\n']] (.start v) = .ok u ↔ u = ['\n'] := by
    intro u
    simp [renderAll, Node.render, eq_comm]
  rw [Shows, standard_fills_iff]
  simp only [Form.nodes, List.map_cons, List.map_nil, List.cons_append, List.nil_append]
  rw [renderAll_cons_iff]
  constructor
  · rintro ⟨u, r, hu, hr, h⟩
    rw [(hline r).1 hr, List.append_left_inj] at h
    rw [hu, h]
  · exact fun h => ⟨t, ['\n'], h, (hline _).2 rfl, rfl⟩

theorem get_of_field? {name : Text} {w : Value} (h : v.field? name = some w) :
    v.get name = .ok w := by
  cases v with
  | record fields =>
    rw [Value.field?] at h
    simp [Value.get, h]
  | _ => simp [Value.field?] at h

theorem exists_get_of_shown? {name t : Text} (h : v.shown? name = some t) :
    ∃ w, v.get name = .ok w ∧ w.display = t := by
  cases v with
  | record fields =>
    rw [Value.shown?] at h
    split at h
    next u hu => exact ⟨.text u, get_of_field? hu, Option.some.inj h⟩
    · simp at h
    next hnone => exact ⟨.null, by simp [Value.get, hnone], Option.some.inj h⟩
  | _ => simp [Value.shown?] at h

theorem repeatBody_listFrames {body : Form} (hH : KeepsKnown H) {vs : List Value} {ts : List Text}
    (h : List.Forall₂ (fun x t => renderAll H body.nodes (.start x) = .ok t) vs ts) (s : Scope)
    (hs : s.Sees v) (n i : Nat) :
    repeatBody (renderAll H body.nodes) s (listFrames [] n i vs) = .ok ts.flatten := by
  induction h generalizing i with
  | nil => rfl
  | @cons x t vs ts hx _ ih =>
    have hitem := renderAll_nodes hH body
      (hs.push (f := loopFrame [] n i "index".toList (.ofNat i) x) rfl) (.start x)
    rw [listFrames, repeatBody, hitem, hx]
    simp only [ih (i + 1), List.flatten_cons]

/-- The running engine keeps to the laws, if the program's helpers do not hide its own. -/
theorem standard_documented (hH : KeepsKnown H) : standard.Documented H where
  text v t h := standard_shows_iff.2 rfl
  value v n t hnone ht := by
    obtain ⟨w, hw, rfl⟩ := exists_get_of_shown? ht
    refine standard_shows_iff.2 ?_
    simp only [Inline.node, Node.render, hnone, ofName?_eq_none n.isName.notMem_known,
      (Scope.Sees.start v).eval_ofName, hw]
    rfl
  helper v n f t hf ht := by
    refine standard_shows_iff.2 ?_
    simp [Inline.node, Node.render, hf, renderCall, evalAll, Helper.call, ht]
  call v helper n operand f t hf ht := by
    refine standard_shows_iff.2 ?_
    simp [Inline.node, Node.render, hf, renderCall, (Scope.Sees.start v).evalAll_ofName,
      get_of_field? ht, Helper.call, Except.map]
  wrap v helper n f t u hf ht hu := by
    have hbody : renderAll H [(Inline.value n).node] (.start v) = .ok t :=
      renderAll_cons_iff.2 ⟨t, [], standard_shows_iff.1 ht, rfl, (List.append_nil t).symm⟩
    refine standard_shows_iff.2 ?_
    simp only [Inline.node] at hbody
    simp only [Inline.node, Node.render, renderCall, evalAll, hf, Helper.call, Option.map_some,
      hbody, hu]
  empty v := standard_fills_iff.2 rfl
  emptyLine v rest t h := by
    rw [standard_fills_iff] at h ⊢
    exact renderAll_cons_iff.2 ⟨['\n'], t, rfl, h, rfl⟩
  piece v i pieces rest t u ht hu := by
    rw [standard_fills_iff] at hu ⊢
    exact renderAll_cons_iff.2 ⟨t, u, standard_shows_iff.1 ht, hu, rfl⟩
  choose v condition body inverse rest b t u hb ht hu := by
    rw [standard_fills_iff] at ht hu ⊢
    refine renderAll_cons_iff.2 ⟨t, u, ?_, hu, rfl⟩
    rw [(Scope.Sees.start v).render_choose hH, get_of_field? hb]
    cases b <;> exact ht
  forEach v items body rest vs ts u hvs hts hu := by
    rw [standard_fills_iff] at hu ⊢
    refine renderAll_cons_iff.2 ⟨ts.flatten, u, ?_, hu, rfl⟩
    rw [(Scope.Sees.start v).render_forEach hH, get_of_field? hvs]
    have hts := hts.imp fun x t => (standard_fills_iff (H := H) (v := x) (t := t)).1
    exact repeatBody_listFrames hH hts _ (.start v) _ 0

end Engine

end DocSnippet.Template
