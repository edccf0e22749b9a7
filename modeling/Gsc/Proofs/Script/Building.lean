import Gsc.Proofs.Script.Meanings
import Gsc.Proofs.Script.Numbers

/-! # Trees are read as what they mean

Under every tree of a matched text stands a row of its rule's pattern. So each function that reads
trees of a rule finds there what it looks for: it gives what the tree means, unless a number in the
tree is too large, and then it reports the first such number.
-/

namespace Gsc

open Computability
open Gsc.Peg
open Gsc.Peg.Pratt (Role Grouping)

/-- What is known of every tree of a matched text. -/
structure Sound (t : ParseTree Rule) : Prop where
  row : t.children.map ParseTree.rule ∈ t.rule.body.rows Eq
  text : t.rule.kind ≠ .normal → t.text ∈ t.rule.body.language
  sorted : t.children.Pairwise ParseTree.Precedes
  wrapped : t.rule.kind = .normal → t.rule.body.thin = true →
    ∀ u ∈ t.children, u.text = t.text ∧ u.span = t.span

namespace Script

variable {t : ParseTree Rule}

/-- A tree that holds no number and means this. -/
structure Plain (t : ParseTree Rule) (part : Part) : Prop where
  fits : AllFit [t]
  means : Means t part

/-- What is known of a tree of a rule: how it is read, and what it means. -/
def Built : Rule → ParseTree Rule → Prop
  | .keyword => fun _ => True
  | .ending => fun t => Plain t .mark
  | .word .threadWord => fun t => Plain t .thread
  | .word _ => fun t => Plain t .mark
  | .ident | .fieldName => fun t => Plain t (.name (name t))
  | .path => fun t => Plain t (.path ⟨Lexeme.normalizePath t.text, t.span⟩)
  | .string => fun t => Plain t (.text ⟨Lexeme.unquote t.text, t.span⟩)
  | .assignOp => fun t => ∃ op, AssignOp.ofSymbol? (String.ofList t.text) = some op ∧
      Plain t (.assignOp op)
  | .incDecOp => fun t => Plain t (.incDecOp (t.text = ['+', '+']))
  | .unary op => fun t => Plain t (.item (.before op t.span))
  | .binary op => fun t => Plain t (.item (.between op))
  | .params => fun t => Plain t (.params (t.children.map name))
  | .number | .localized | .literal _ | .funcCall | .funcRef | .parenOrVector | .emptyArray =>
    fun t => Gives [t] (fun e => Means t (.item (.operand e))) (parsePrimary t)
  | .member | .index | .methodCall =>
    fun t => Gives [t] (fun suffix => Means t (.item (.behind suffix t.span))) (parseSuffix t)
  | .expr => fun t => Gives [t] (fun e => Means t (.expr e)) (parseExpr t)
  | .ternarySuffix => fun t => ∃ x y, t.children = [x, y] ∧
      Gives [t] (fun e => Means t (.choice e.1 e.2))
        (parseExpr x >>= fun e => parseExpr y >>= fun e' => .ok (e, e'))
  | .namedCallee | .farCallee | .pointerCallee => fun t => ∀ parts,
      Gives [t] (fun next => ∃ callee, Means t (.callee callee) ∧
        next = { parts with callee := some callee }) (parseCallPart parts t)
  | .callArgs => fun t => ∀ parts,
      Gives [t] (fun next => ∃ args, Means t (.args args) ∧
        next = { parts with args := parts.args ++ args }) (parseCallPart parts t)
  | .assignExpr | .incDecExpr => fun t => ∀ span,
      Gives [t] (fun s => ∃ part, Means t part ∧ part.simple? span = some s) (parseSimple span t)
  | .forInit | .forStep => fun t => Gives [t] (fun c => Means t (.clause c)) (parseForClause t)
  | .forCond => fun t =>
      Gives [t] (fun c => Means t (.condition c)) (parseOptional id t.children)
  | .block => fun t =>
      Gives [t] (fun body => Means t (.stmt (.block t.span body))) (parseBlock t)
  | .ifStmt | .whileStmt | .foreachStmt | .forStmt | .returnStmt | .waitFrameStmt | .waitStmt
  | .breakStmt | .continueStmt | .emptyStmt | .waitTillStmt | .notifyStmt | .endOnStmt
  | .exprStmt => fun t => Gives [t] (fun s => Means t (.stmt s)) (parseStmt t)
  | .includeDirective | .animtreeDirective => fun t => ∀ script,
      Gives [t] (fun next => ∃ part, Means t part ∧ next = part.addTo script) (addItem script t)
  | .functionDef => fun t => Gives [t] (fun f => Means t (.function f)) (parseFunction t)
  | .file => fun t =>
      Gives [t] (fun s => Means t (.script s)) (t.children.foldlM addItem .empty)

structure BuiltAs (r : Rule) (t : ParseTree Rule) : Prop where
  rule : t.rule = r
  built : Built r t

variable {r : Rule} {trees : List (ParseTree Rule)} {parts : List Part} {part : Part}

theorem means_node (hr : t.rule = r) (hchildren : t.children = trees)
    (hparts : List.Forall₂ Means trees parts) (h : Part.StandsFor t.span t.text r parts part) :
    Means t part :=
  .node (hchildren ▸ hparts) (hr ▸ h)

theorem gives_node {α : Type} {P : α → Prop} {x : Reading α} (ht : Sound t) (hr : t.rule = r)
    (hn : r ≠ .number) (hchildren : t.children = trees) (h : Gives trees P x) : Gives [t] P x :=
  (hchildren ▸ h : Gives t.children P x).node ht.sorted (hr ▸ hn)

theorem Plain.gives {α : Type} {P : α → Prop} {a : α} (h : Plain t part) (ha : P a) :
    Gives [t] P (.ok a) :=
  .of_allFit h.fits ha

theorem allFit_of_plain (h : List.Forall₂ Plain trees parts) : AllFit trees := by
  induction h with
  | nil => exact .nil
  | cons hplain _ ih => exact hplain.fits.append ih

theorem plain_node (hr : t.rule = r) (hn : r ≠ .number) (hchildren : t.children = trees)
    (hplain : List.Forall₂ Plain trees parts) (h : Part.StandsFor t.span t.text r parts part) :
    Plain t part where
  fits := AllFit.node (hchildren ▸ allFit_of_plain hplain) fun htoo => hn (hr ▸ htoo.1)
  means := means_node hr hchildren (hplain.imp fun _ _ h => h.means) h

/-! ## Tokens -/

theorem children_of_silent (ht : Sound t) (h : t.rule.body.silent = true) : t.children = [] :=
  List.map_eq_nil_iff.1 (Pattern.eq_nil_of_silent h ht.row)

theorem plain_token (ht : Sound t) (hr : t.rule = r) (hs : r.body.silent = true) (hn : r ≠ .number)
    (h : Part.StandsFor t.span t.text r [] part) : Plain t part := by
  have hchildren := children_of_silent ht (hr ▸ hs)
  exact plain_node hr hn hchildren .nil h

theorem exists_ofSymbol? {chars : List Char} (h : chars ∈ (Rule.body .assignOp).language) :
    ∃ op, AssignOp.ofSymbol? (String.ofList chars) = some op := by
  simp only [Rule.body, Pattern.choice, List.map_cons, List.map_nil, List.cons_append,
    List.nil_append, Pattern.language, Language.mem_add, mul_one] at h
  rcases h with rfl | rfl | rfl | rfl | rfl | rfl | rfl | rfl | rfl | rfl | rfl
  all_goals exact ⟨_, rfl⟩

theorem built_number (ht : Sound t) (hr : t.rule = .number) : Built .number t := by
  have hchars : t.text ∈ Rule.numeral.language := by
    have htext := ht.text
    rw [hr] at htext
    exact htext (by decide)
  have hchildren := children_of_silent ht (by rw [hr]; rfl)
  have hnone := number?_eq_none_iff hchars t.span
  intro _
  rw [parsePrimary]
  simp only [hr, parseNumber]
  cases hnumber : Lexeme.number? t.text t.span with
  | none => exact .inr ⟨t, .singleton ⟨hr, hnone.1 hnumber⟩ hchildren, rfl⟩
  | some e =>
      refine .inl ⟨e, rfl, means_node hr hchildren .nil (.number hnumber), ?_⟩
      refine AllFit.node ?_ fun htoo => ?_
      · exact hchildren ▸ .nil
      · cases hnumber.symm.trans (hnone.2 htoo.2)

/-- The rules that hold no others are tokens. -/
theorem built_of_silent (ht : Sound t) (hr : t.rule = r) (hs : r.body.silent = true) :
    Built r t := by
  cases r with
  | number => exact built_number ht hr
  | keyword => trivial
  | ending => exact plain_token ht hr hs (by simp) .ending
  | word w =>
      by_cases hw : w = .threadWord
      · subst hw
        exact plain_token ht hr hs (by simp) .thread
      · have hplain : Plain t .mark := plain_token ht hr hs (by simp) (.word hw)
        cases w with
        | threadWord => exact absurd rfl hw
        | _ => exact hplain
  | ident => exact plain_token ht hr hs (by simp) .ident
  | fieldName => exact plain_token ht hr hs (by simp) .fieldName
  | path => exact plain_token ht hr hs (by simp) .path
  | string => exact plain_token ht hr hs (by simp) .string
  | assignOp =>
      have htext := ht.text
      rw [hr] at htext
      obtain ⟨op, hop⟩ := exists_ofSymbol? (htext (by decide))
      exact ⟨op, hop, plain_token ht hr hs (by simp) (.assignOp hop)⟩
  | incDecOp => exact plain_token ht hr hs (by simp) .incDecOp
  | unary op => exact plain_token ht hr hs (by simp) (.unary op)
  | binary op => exact plain_token ht hr hs (by simp) (.binary op)
  | literal l =>
      have hplain := plain_token ht hr hs (by simp) (.literal l)
      change Gives [t] _ (parsePrimary t)
      rw [parsePrimary]
      simp only [hr]
      exact hplain.gives hplain.means
  | emptyArray =>
      have hplain := plain_token ht hr hs (by simp) .emptyArray
      change Gives [t] _ (parsePrimary t)
      rw [parsePrimary]
      simp only [hr]
      exact hplain.gives hplain.means
  | emptyStmt =>
      have hplain := plain_token ht hr hs (by simp) .empty
      change Gives [t] _ (parseStmt t)
      rw [parseStmt]
      simp only [hr]
      exact hplain.gives hplain.means
  | _ => cases hs

/-! ## What trees hold -/

/-- The trees in a tree are a row of its rule's pattern, and built. -/
theorem rows_of_built (ht : Sound t) (hr : t.rule = r) (h : ∀ u ∈ t.children, Built u.rule u) :
    t.children ∈ r.body.rows BuiltAs := by
  refine Pattern.rows_of_forall₂ (hr ▸ ht.row) ?_
  rw [List.forall₂_map_left_iff, List.forall₂_same]
  exact fun u hu => ⟨rfl, h u hu⟩

theorem map_val_inner (t : ParseTree Rule) : (inner t).map Subtype.val = t.children :=
  List.attach_map_subtype_val _

theorem exists_inner (h : t.children = trees) :
    ∃ hmem, inner t = trees.pmap Subtype.mk hmem := by
  subst h
  exact ⟨fun _ hu => hu, rfl⟩

theorem exists_content (h : t.children.filter (!isKeyword ·.rule) = trees) :
    ∃ hmem, content t = trees.pmap Subtype.mk hmem := by
  have hval : (content t).map Subtype.val = trees :=
    calc (content t).map Subtype.val
        = ((inner t).map Subtype.val).filter (!isKeyword ·.rule) := by
          rw [List.filter_map]
          rfl
      _ = trees := by rw [map_val_inner, h]
  subst hval
  refine ⟨List.forall_mem_map.2 fun u _ => u.2, ?_⟩
  rw [List.pmap_map]
  exact ((List.pmap_eq_map _).trans (List.map_id _)).symm

theorem mapM_inner {α : Type} (f : ParseTree Rule → Reading α) (t : ParseTree Rule) :
    ((inner t).mapM fun u => f u.1) = t.children.mapM f :=
  calc ((inner t).mapM fun u => f u.1)
      = ((inner t).map Subtype.val).mapM f := List.mapM_map.symm
    _ = t.children.mapM f := by rw [map_val_inner]

theorem foldlM_inner {σ : Type} (f : σ → ParseTree Rule → Reading σ) (a : σ) (t : ParseTree Rule) :
    (inner t).foldlM (fun a u => f a u.1) a = t.children.foldlM f a :=
  calc (inner t).foldlM (fun a u => f a u.1) a
      = ((inner t).map Subtype.val).foldlM f a := (List.foldlM_map ..).symm
    _ = t.children.foldlM f a := by rw [map_val_inner]

/-! ## Operands -/

open Pattern

theorem built_localized (ht : Sound t) (hr : t.rule = .localized)
    (h : t.children ∈ (Rule.body .localized).rows BuiltAs) : Built .localized t := by
  simp only [Rule.body, rows_seq, rows_lit, one_mul, mem_rows_rule] at h
  obtain ⟨literal, hliteral, hchildren⟩ := h
  have hliteral : Plain literal _ := hliteral.built
  refine gives_node ht hr (by simp) hchildren ?_
  rw [parsePrimary]
  simp only [hr, hchildren, next, ok_bind]
  exact hliteral.gives (means_node hr hchildren (.cons hliteral.means .nil) (.localized _))

theorem built_funcRef (ht : Sound t) (hr : t.rule = .funcRef)
    (h : t.children ∈ (Rule.body .funcRef).rows BuiltAs) : Built .funcRef t := by
  simp only [Rule.body, rows_sequence_cons, rows_sequence_nil, rows_lit, one_mul, mem_rows_opt_mul,
    mem_rows_rule_mul, mem_rows_rule] at h
  obtain ⟨path, _, hpath, ⟨function, hfunction, rfl⟩, hchildren⟩ | ⟨function, hfunction, hchildren⟩
    := h
  · have hpath : Plain path _ := hpath.built
    have hfunction : Plain function _ := hfunction.built
    refine gives_node ht hr (by simp) hchildren ?_
    rw [parsePrimary]
    simp only [hr, hchildren]
    exact .skip hpath.fits (hfunction.gives (means_node hr hchildren
      (.cons hpath.means (.cons hfunction.means .nil)) (.farFunctionRef _ _)))
  · have hfunction : Plain function _ := hfunction.built
    refine gives_node ht hr (by simp) hchildren ?_
    rw [parsePrimary]
    simp only [hr, hchildren]
    exact hfunction.gives (means_node hr hchildren (.cons hfunction.means .nil) (.functionRef _))

theorem built_parenOrVector (ht : Sound t) (hr : t.rule = .parenOrVector)
    (h : t.children ∈ (Rule.body .parenOrVector).rows BuiltAs) : Built .parenOrVector t := by
  simp only [Rule.body, rows_sequence_cons, rows_sequence_nil, rows_lit, one_mul, mul_one,
    mem_rows_rule_mul, mem_rows_opt, mem_rows_rule] at h
  obtain ⟨x, rest, hx, ⟨y, _, hy, ⟨z, hz, rfl⟩, rfl⟩ | rfl, hchildren⟩ := h
  · obtain ⟨hmem, hinner⟩ := exists_inner hchildren
    refine gives_node ht hr (by simp) hchildren ?_
    rw [parsePrimary]
    simp only [hr, hinner, List.pmap, next, ok_bind]
    exact hx.built.cons fun e he => hy.built.cons fun e' he' => hz.built.map fun e'' he'' =>
      means_node hr hchildren (.cons he (.cons he' (.cons he'' .nil))) (.vector _ _ _)
  · obtain ⟨hmem, hinner⟩ := exists_inner hchildren
    refine gives_node ht hr (by simp) hchildren ?_
    rw [parsePrimary]
    simp only [hr, hinner, List.pmap, next, ok_bind]
    exact hx.built.map fun e he => means_node hr hchildren (.cons he .nil) (.paren _)

/-! ## What stands behind an operand -/

theorem built_member (ht : Sound t) (hr : t.rule = .member)
    (h : t.children ∈ (Rule.body .member).rows BuiltAs) : Built .member t := by
  simp only [Rule.body, rows_seq, rows_lit, one_mul, mem_rows_rule] at h
  obtain ⟨field, hfield, hchildren⟩ := h
  have hfield : Plain field _ := hfield.built
  refine gives_node ht hr (by simp) hchildren ?_
  rw [parseSuffix]
  simp only [hr, hchildren, next, ok_bind]
  exact hfield.gives (means_node hr hchildren (.cons hfield.means .nil) (.member _))

theorem built_index (ht : Sound t) (hr : t.rule = .index)
    (h : t.children ∈ (Rule.body .index).rows BuiltAs) : Built .index t := by
  simp only [Rule.body, rows_sequence_cons, rows_sequence_nil, rows_lit, one_mul, mul_one,
    mem_rows_rule] at h
  obtain ⟨value, hvalue, hchildren⟩ := h
  obtain ⟨hmem, hinner⟩ := exists_inner hchildren
  refine gives_node ht hr (by simp) hchildren ?_
  rw [parseSuffix]
  simp only [hr, hinner, List.pmap, next, ok_bind]
  exact hvalue.built.map fun e he => means_node hr hchildren (.cons he .nil) (.index e)

/-! ## Calls -/

/-- Commas leave nothing in a row. -/
theorem built_of_commas {r' : Rule}
    (h : trees ∈ (Pattern.star (.seq (lit ",") (.rule r'))).rows BuiltAs) :
    ∀ u ∈ trees, BuiltAs r' u := by
  rw [rows_star, rows_seq, rows_lit, one_mul] at h
  refine forall_mem_of_mem_kstar ?_ h
  rintro _ ⟨u, hu, rfl⟩
  exact List.forall_mem_singleton.2 hu

theorem built_of_commaList {r' : Rule}
    (h : trees ∈ (Pattern.opt (Rule.commaList (.rule r'))).rows BuiltAs) :
    ∀ u ∈ trees, BuiltAs r' u := by
  rcases h with ⟨_, ⟨first, hfirst, rfl⟩, rest, hrest, rfl⟩ | rfl
  · exact List.forall_mem_cons.2 ⟨hfirst, built_of_commas hrest⟩
  · exact List.forall_mem_nil _

theorem map_of_means {α : Type} {f : α → Part} {as : List α}
    (h : List.Forall₂ (fun t a => Means t (f a)) trees as) :
    List.Forall₂ Means trees (as.map f) := by
  rwa [List.forall₂_map_right_iff]

theorem built_callArgs (ht : Sound t) (hr : t.rule = .callArgs)
    (h : t.children ∈ (Rule.body .callArgs).rows BuiltAs) : Built .callArgs t := by
  simp only [Rule.body, rows_sequence_cons, rows_sequence_nil, rows_lit, one_mul, mul_one] at h
  have hargs : Gives t.children (List.Forall₂ (fun u e => Means u (.expr e)) t.children)
      (t.children.mapM parseExpr) := .mapM fun u hu => (built_of_commaList h u hu).built
  intro parts
  refine gives_node ht hr (by simp) rfl ?_
  rw [parseCallPart]
  simp only [hr, mapM_inner parseExpr]
  exact hargs.map fun args hargs => ⟨args, means_node hr rfl (map_of_means hargs) (.args args), rfl⟩

theorem built_namedCallee (ht : Sound t) (hr : t.rule = .namedCallee)
    (h : t.children ∈ (Rule.body .namedCallee).rows BuiltAs) : Built .namedCallee t := by
  obtain ⟨function, hfunction, hchildren⟩ := h
  have hfunction : Plain function _ := hfunction.built
  -- The name is taken from the text of the whole rule, which is that of the name in it.
  have hsame := ht.wrapped (by rw [hr]; rfl) (by rw [hr]; rfl) function
    (hchildren ▸ List.mem_singleton_self _)
  have hnamed := plain_node hr (by simp) hchildren (.cons hfunction .nil) (.named _)
  rw [name, hsame.1] at hnamed
  intro parts
  rw [parseCallPart]
  simp only [hr]
  exact hnamed.gives ⟨_, hnamed.means, rfl⟩

theorem built_farCallee (hr : t.rule = .farCallee)
    (h : t.children ∈ (Rule.body .farCallee).rows BuiltAs) : Built .farCallee t := by
  simp only [Rule.body, rows_sequence_cons, rows_sequence_nil, rows_lit, one_mul,
    mem_rows_rule_mul, mem_rows_rule] at h
  obtain ⟨path, _, hpath, ⟨function, hfunction, rfl⟩, hchildren⟩ := h
  have hfar := plain_node hr (by simp) hchildren (.cons hpath.built (.cons hfunction.built .nil))
    (.far _ _)
  intro parts
  rw [parseCallPart]
  simp only [hr, hchildren, next, ok_bind]
  exact hfar.gives ⟨_, hfar.means, rfl⟩

theorem built_pointerCallee (ht : Sound t) (hr : t.rule = .pointerCallee)
    (h : t.children ∈ (Rule.body .pointerCallee).rows BuiltAs) : Built .pointerCallee t := by
  simp only [Rule.body, rows_sequence_cons, rows_sequence_nil, rows_lit, one_mul, mul_one,
    mem_rows_rule] at h
  obtain ⟨target, htarget, hchildren⟩ := h
  obtain ⟨hmem, hinner⟩ := exists_inner hchildren
  intro parts
  refine gives_node ht hr (by simp) hchildren ?_
  rw [parseCallPart]
  simp only [hr, hinner, List.pmap, next, ok_bind]
  exact htarget.built.map fun e he =>
    ⟨_, means_node hr hchildren (.cons he .nil) (.pointer e), rfl⟩

theorem exists_of_mem_rule {P : ParseTree Rule → Prop} (h : ∀ u, BuiltAs r u → P u) :
    ∀ row ∈ (Pattern.rule r).rows BuiltAs, ∃ u, row = [u] ∧ P u := by
  rintro _ ⟨u, hu, rfl⟩
  exact ⟨u, rfl, h u hu⟩

theorem built_callee :
    ∀ row ∈ Rule.callee.rows BuiltAs, ∃ c, row = [c] ∧ Built .namedCallee c := by
  apply forall_mem_rows_choice
  simp only [List.forall_mem_cons]
  exact ⟨exists_of_mem_rule fun _ hc => hc.built, exists_of_mem_rule fun _ hc => hc.built,
    exists_of_mem_rule fun _ hc => hc.built, List.forall_mem_nil _⟩

theorem parseCall_eq (t : ParseTree Rule) :
    parseCall t = t.children.foldlM parseCallPart ⟨false, none, []⟩ >>= fun parts =>
      match parts.callee with
      | some callee => .ok (parts.thread, callee, parts.args)
      | none => missing "callee" := by
  rw [parseCall, foldlM_inner parseCallPart]
  rfl

/-- A callee and its arguments are what is missing of a call. -/
theorem gives_callee (thread : Bool)
    (h : trees ∈ Rule.callee.rows BuiltAs * (Pattern.rule .callArgs).rows BuiltAs) :
    Gives trees (fun found => ∃ callee args, found = ⟨thread, some callee, args⟩ ∧
      List.Forall₂ Means trees [.callee callee, .args args])
      (trees.foldlM parseCallPart ⟨thread, none, []⟩) := by
  obtain ⟨_, hrow, _, ⟨a, ha, rfl⟩, rfl⟩ := Language.mem_mul.1 h
  obtain ⟨c, rfl, hc⟩ := built_callee _ hrow
  simp only [List.cons_append, List.nil_append, List.foldlM_cons, List.foldlM_nil]
  refine (hc _).cons fun _ hcallee => (ha.built _).map fun _ hargs => ?_
  obtain ⟨callee, hcallee, rfl⟩ := hcallee
  obtain ⟨args, hargs, rfl⟩ := hargs
  exact ⟨callee, args, rfl, .cons hcallee (.cons hargs .nil)⟩

/-- A call is read from its callee and its arguments, behind `thread` perhaps. -/
theorem gives_parseCall (h : t.children ∈ Rule.callForm.rows BuiltAs) :
    Gives t.children (fun call =>
      List.Forall₂ Means t.children (Part.callParts call.1 call.2.1 call.2.2)) (parseCall t) := by
  rw [parseCall_eq]
  generalize t.children = trees at h
  simp only [Rule.callForm, rows_sequence_cons, rows_sequence_nil, mem_rows_opt_mul,
    mem_rows_rule_mul] at h
  obtain ⟨w, rest, hw, hrow, rfl⟩ | hrow := h
  · have hplain : Plain w .thread := hw.built
    have hthread (parts : CallParts) :
        parseCallPart parts w = .ok { parts with thread := true } := by
      rw [parseCallPart]
      simp only [hw.rule]
      rfl
    rw [List.foldlM_cons, hthread, ok_bind]
    refine .skip hplain.fits ((gives_callee true hrow).finish fun _ hfound => ?_)
    obtain ⟨callee, args, rfl, hparts⟩ := hfound
    exact ⟨(true, callee, args), rfl, .cons hplain.means hparts⟩
  · refine (gives_callee false hrow).finish fun _ hfound => ?_
    obtain ⟨callee, args, rfl, hparts⟩ := hfound
    exact ⟨(false, callee, args), rfl, hparts⟩

theorem built_funcCall (ht : Sound t) (hr : t.rule = .funcCall)
    (h : t.children ∈ (Rule.body .funcCall).rows BuiltAs) : Built .funcCall t := by
  refine gives_node ht hr (by simp) rfl ?_
  rw [parsePrimary]
  simp only [hr]
  exact (gives_parseCall h).map fun call hparts => means_node hr rfl hparts (.funcCall _ _ _)

theorem built_methodCall (ht : Sound t) (hr : t.rule = .methodCall)
    (h : t.children ∈ (Rule.body .methodCall).rows BuiltAs) : Built .methodCall t := by
  refine gives_node ht hr (by simp) rfl ?_
  rw [parseSuffix]
  simp only [hr]
  exact (gives_parseCall h).map fun call hparts => means_node hr rfl hparts (.methodCall _ _ _)

/-! ## Expressions -/

theorem unsettle_settle (x : Reading Expr) : unsettle (settle x) = x := by
  rcases x with (_ | _) | _ <;> rfl

theorem unsettle_ok (r : Except ReadError Expr) : unsettle (.ok r) = r.mapError .error := by
  cases r <;> rfl

theorem exists_ok_of_unsettle {x : Except String (Except ReadError Expr)}
    (h : ∀ message, unsettle x ≠ .error (.panic message)) : ∃ r, x = .ok r := by
  cases x with
  | error message => exact absurd rfl (h message)
  | ok r => exact ⟨r, rfl⟩

/-- A callback that hands on the error of its operand is a step behind it. -/
theorem unsettle_bind (x : Except String (Except ReadError Expr)) (f : Expr → Reading Expr) :
    unsettle (x >>= fun r => settle (r.mapError .error >>= f)) = unsettle x >>= f := by
  rcases x with message | r
  · rfl
  · rw [ok_bind, unsettle_settle, unsettle_ok]

/-- A tree is read as this element of a row. -/
def ReadsAs (t : ParseTree Rule) (i : Item) : Prop :=
  (∃ part, Means t part ∧ part.item? = some i) ∧ i.role = t.rule.role?

theorem gives_operand (hrole : t.rule.role? = some .operand) (h : Built t.rule t) :
    Gives [t] (fun e => ReadsAs t (.operand e)) (parsePrimary t) := by
  have hitem (e : Expr) (he : Means t (.item (.operand e))) : ReadsAs t (.operand e) :=
    ⟨⟨_, he, rfl⟩, hrole.symm⟩
  cases hr : t.rule with
  | ident =>
      rw [hr] at h
      rw [parsePrimary]
      simp only [hr]
      exact h.gives ⟨⟨_, h.means, rfl⟩, hrole.symm⟩
  | string =>
      rw [hr] at h
      rw [parsePrimary]
      simp only [hr]
      exact h.gives ⟨⟨_, h.means, rfl⟩, hrole.symm⟩
  | number | localized | literal | funcCall | funcRef | parenOrVector | emptyArray =>
      rw [hr] at h
      exact Gives.mono h hitem
  | _ =>
      rw [hr] at hrole
      cases hrole

theorem gives_before (hrole : t.rule.role? = some .before) (h : Built t.rule t) :
    AllFit [t] ∧ ∃ op, ReadsAs t (.before op t.span) ∧
      applyBefore t = fun e => .ok (op.apply t.span e) := by
  cases hr : t.rule with
  | unary op =>
      rw [hr] at h
      refine ⟨h.fits, op, ⟨⟨_, h.means, rfl⟩, hrole.symm⟩, ?_⟩
      funext e
      simp only [applyBefore, hr]
  | _ =>
      rw [hr] at hrole
      cases hrole

theorem gives_between {n : Nat} (hrole : t.rule.role? = some (.between n)) (h : Built t.rule t) :
    AllFit [t] ∧ ∃ op, ReadsAs t (.between op) ∧
      applyBetween t = fun e e' => .ok (op.apply e e') := by
  cases hr : t.rule with
  | binary op =>
      rw [hr] at h
      refine ⟨h.fits, op, ⟨⟨_, h.means, rfl⟩, ?_⟩, ?_⟩
      · rw [hr]
        rfl
      · funext e e'
        simp only [applyBetween, hr]
  | _ =>
      rw [hr] at hrole
      cases hrole

theorem gives_behind (hrole : t.rule.role? = some .behind) (h : Built t.rule t) :
    Gives [t] (fun suffix => ReadsAs t (.behind suffix t.span)) (parseSuffix t) := by
  cases hr : t.rule with
  | member | index | methodCall =>
      rw [hr] at h
      exact Gives.mono h fun _ hs => ⟨⟨_, hs, rfl⟩, hrole.symm⟩
  | _ =>
      rw [hr] at hrole
      cases hrole

section

variable {π : Type} (tree : π → ParseTree Rule)

/-- What is read when a row is grouped so. -/
def readGrouping (g : Grouping π) : Reading Expr :=
  unsettle (g.fold (callbacks tree (fun p => parsePrimary (tree p)) fun p => parseSuffix (tree p)))

/-- The elements that a grouping is read as are grouped in the same way. -/
def GroupsAs (g : Grouping π) (e : Expr) : Prop :=
  ∃ g' : Grouping Item, List.Forall₂ ReadsAs (g.row.map tree) g'.row ∧
    g'.root.role = (tree g.root).rule.role? ∧ g'.Grouped Item.role ∧ Item.Builds g' e

variable {tree}

theorem readGrouping_operand (p : π) : readGrouping tree (.operand p) = parsePrimary (tree p) :=
  unsettle_settle _

theorem readGrouping_before (p : π) (g : Grouping π) :
    readGrouping tree (.before p g) = readGrouping tree g >>= applyBefore (tree p) :=
  unsettle_bind _ _

theorem readGrouping_behind (p : π) (g : Grouping π) :
    readGrouping tree (.behind g p) = readGrouping tree g >>= fun e =>
      parseSuffix (tree p) >>= fun suffix => .ok (suffix.apply e (tree p).span) :=
  unsettle_bind _ _

/-- Both operands are read before either is looked at, so the right one must not stop. -/
theorem readGrouping_between {p : π} {left right : Grouping π}
    (h : ∀ message, readGrouping tree right ≠ .error (.panic message)) :
    readGrouping tree (.between left p right) = readGrouping tree left >>= fun e =>
      readGrouping tree right >>= fun e' => applyBetween (tree p) e e' := by
  unfold readGrouping at h ⊢
  obtain ⟨r, hr⟩ := exists_ok_of_unsettle h
  rw [Grouping.fold, hr, unsettle_ok]
  exact unsettle_bind _ _

theorem GroupsAs.operand {p : π} {e : Expr} (h : ReadsAs (tree p) (.operand e)) :
    GroupsAs tree (.operand p) e :=
  ⟨.operand (.operand e), .cons h .nil, h.2, rfl, .operand e⟩

theorem GroupsAs.before {p : π} {g : Grouping π} {op : UnaryOp} {e : Expr}
    (hp : ReadsAs (tree p) (.before op (tree p).span)) (h : GroupsAs tree g e)
    (hsingle : g.IsSingle fun p => (tree p).rule.role?) :
    GroupsAs tree (.before p g) (op.apply (tree p).span e) := by
  obtain ⟨g', hrow, hroot, hg', he⟩ := h
  exact ⟨.before (.before op _) g', .cons hp hrow, hp.2,
    ⟨rfl, hg', fun m hm => hsingle m (hroot.symm.trans hm)⟩, .before op _ he⟩

theorem GroupsAs.behind {p : π} {g : Grouping π} {suffix : Suffix} {e : Expr}
    (hp : ReadsAs (tree p) (.behind suffix (tree p).span)) (h : GroupsAs tree g e)
    (hsingle : g.IsSingle fun p => (tree p).rule.role?)
    (hbefore : (tree g.root).rule.role? ≠ some .before) :
    GroupsAs tree (.behind g p) (suffix.apply e (tree p).span) := by
  obtain ⟨g', hrow, hroot, hg', he⟩ := h
  refine ⟨.behind g' (.behind suffix _), ?_, hp.2,
    ⟨rfl, hg', fun m hm => hsingle m (hroot.symm.trans hm),
      fun hm => hbefore (hroot.symm.trans hm)⟩, .behind suffix _ he⟩
  rw [Grouping.row, Grouping.row, List.map_append]
  exact List.rel_append hrow (.cons hp .nil)

theorem GroupsAs.between {p : π} {left right : Grouping π} {op : BinaryOp} {e e' : Expr} {n : Nat}
    (hp : ReadsAs (tree p) (.between op)) (hn : (tree p).rule.role? = some (.between n))
    (h : GroupsAs tree left e) (h' : GroupsAs tree right e')
    (hleft : left.AtLeast (fun p => (tree p).rule.role?) n)
    (hright : right.AtLeast (fun p => (tree p).rule.role?) (n + 1)) :
    GroupsAs tree (.between left p right) (op.apply e e') := by
  obtain ⟨g, hrow, hroot, hg, he⟩ := h
  obtain ⟨g', hrow', hroot', hg', he'⟩ := h'
  refine ⟨.between g (.between op) g', ?_, hp.2,
    ⟨n, hp.2.trans hn, hg, hg', fun m hm => hleft m (hroot.symm.trans hm),
      fun m hm => hright m (hroot'.symm.trans hm)⟩, .between op he he'⟩
  rw [Grouping.row, Grouping.row, List.map_append, List.map_cons]
  exact List.rel_append hrow (.cons hp hrow')

/-- Reading a row as it is grouped gives the expression that the elements build, or the error about
the first number that is too large. -/
theorem gives_readGrouping {g : Grouping π} (hg : g.Grouped fun p => (tree p).rule.role?)
    (hbuilt : ∀ p ∈ g.row, Built (tree p).rule (tree p))
    (hsorted : (g.row.map tree).Pairwise ParseTree.Precedes) :
    Gives (g.row.map tree) (GroupsAs tree g) (readGrouping tree g) := by
  induction g with
  | operand p =>
      rw [readGrouping_operand]
      exact (gives_operand hg (hbuilt p List.mem_cons_self)).mono fun e he => .operand he
  | before p inner ih =>
      obtain ⟨hp, hinner, hsingle⟩ := hg
      rw [Grouping.row] at hbuilt hsorted
      rw [List.forall_mem_cons] at hbuilt
      obtain ⟨hfits, op, hop, happly⟩ := gives_before hp hbuilt.1
      rw [readGrouping_before, happly]
      exact .skip hfits ((ih hinner hbuilt.2 (List.pairwise_cons.1 hsorted).2).map
        fun e he => .before hop he hsingle)
  | behind base p ih =>
      obtain ⟨hp, hbase, hsingle, hbefore⟩ := hg
      rw [Grouping.row] at hbuilt hsorted ⊢
      rw [List.forall_mem_append] at hbuilt
      rw [List.map_append] at hsorted ⊢
      rw [readGrouping_behind]
      exact (ih hbase hbuilt.1 (List.pairwise_append.1 hsorted).1).bind fun e he =>
        (gives_behind hp (hbuilt.2 p List.mem_cons_self)).map fun suffix hs =>
          .behind hs he hsingle hbefore
  | between left p right ihleft ihright =>
      obtain ⟨n, hp, hleft, hright, hleast, hleast'⟩ := hg
      rw [Grouping.row] at hbuilt hsorted ⊢
      rw [List.forall_mem_append, List.forall_mem_cons] at hbuilt
      rw [List.map_append] at hsorted ⊢
      obtain ⟨hsortedLeft, hsortedRest, -⟩ := List.pairwise_append.1 hsorted
      have hsortedRight := (List.pairwise_cons.1 hsortedRest).2
      have hgives := ihleft hleft hbuilt.1 hsortedLeft
      have hgives' := ihright hright hbuilt.2.2 hsortedRight
      obtain ⟨hfits, op, hop, happly⟩ := gives_between hp hbuilt.2.1
      rw [readGrouping_between (hgives'.ne_panic hsortedRight), happly]
      exact hgives.bind fun e he => .skip hfits (hgives'.map fun e' he' =>
        .between hop hp he he' hleast hleast')

theorem splitChoice_of_roles {row : List π} {roles : List Role}
    (h : row.map (fun p => (tree p).rule.role?) = roles.map some) :
    splitChoice tree row = (row, none) := by
  unfold splitChoice
  cases hlast : row.getLast? with
  | none => rfl
  | some last =>
      refine if_neg fun hrule => ?_
      have hmem : (tree last).rule.role? ∈ roles.map some :=
        h ▸ List.mem_map_of_mem (List.mem_of_getLast? hlast)
      rw [hrule] at hmem
      obtain ⟨_, -, hrole⟩ := List.mem_map.1 hmem
      cases hrole

theorem splitChoice_concat (row : List π) {last : π} (h : (tree last).rule = .ternarySuffix) :
    splitChoice tree (row ++ [last]) = (row, some last) := by
  simp [splitChoice, h]

end

/-- The trees of an expression are a row of operators and operands, and then perhaps the branches
of a choice. -/
theorem exists_splitChoice (h : t.children.map ParseTree.rule ∈ (Rule.body .expr).rows Eq) :
    ∃ row choice, splitChoice (·.1) (inner t) = (row, choice) ∧
      (∃ roles ∈ Role.rows, row.map (·.1.rule.role?) = roles.map some) ∧
      inner t = row ++ choice.toList ∧ ∀ c ∈ choice, c.1.rule = .ternarySuffix := by
  rw [← map_val_inner, List.map_map] at h
  obtain ⟨rules, roles, hroles, hrow, heq | heq⟩ := Rule.exists_roles h
  · have hroles' : (inner t).map (·.1.rule.role?) = roles.map some := by
      rw [← hrow, ← heq, List.map_map]
      rfl
    exact ⟨inner t, none, splitChoice_of_roles hroles', ⟨roles, hroles, hroles'⟩,
      (List.append_nil _).symm, by simp⟩
  · obtain ⟨row, back, hinner, hfront, hback⟩ := List.map_eq_append_iff.1 heq
    obtain ⟨last, hlast, hrule⟩ := List.map_eq_singleton_iff.1 hback
    subst hlast
    refine ⟨row, some last, ?_, ⟨roles, hroles, ?_⟩, hinner, ?_⟩
    · rw [hinner]
      exact splitChoice_concat row hrule
    · rw [← hrow, ← hfront, List.map_map]
      rfl
    · rintro c ⟨⟩
      exact hrule

theorem built_ternarySuffix (ht : Sound t) (hr : t.rule = .ternarySuffix)
    (h : t.children ∈ (Rule.body .ternarySuffix).rows BuiltAs) : Built .ternarySuffix t := by
  simp only [Rule.body, rows_sequence_cons, rows_sequence_nil, rows_lit, one_mul,
    mem_rows_rule_mul, mem_rows_rule] at h
  obtain ⟨x, _, hx, ⟨y, hy, rfl⟩, hchildren⟩ := h
  refine ⟨x, y, hchildren, gives_node ht hr (by simp) hchildren ?_⟩
  exact hx.built.cons fun e he => hy.built.map fun e' he' =>
    means_node hr hchildren (.cons he (.cons he' .nil)) (.choice e e')

theorem exists_items {items : List Item} (h : List.Forall₂ ReadsAs trees items) :
    ∃ parts, List.Forall₂ Means trees parts ∧ Part.Items parts items := by
  induction h with
  | nil => exact ⟨[], .nil, .nil⟩
  | cons h _ ih =>
      obtain ⟨⟨part, hmeans, hitem⟩, -⟩ := h
      obtain ⟨parts, hparts, hitems⟩ := ih
      exact ⟨part :: parts, .cons hmeans hparts, .cons hitem hitems⟩

/-- The row of an expression, whatever stands behind it, is read as an expression of its own. -/
theorem gives_row {row : List (Inner t)} {roles : List Role} (hroles : roles ∈ Role.rows)
    (h : row.map (·.1.rule.role?) = roles.map some) (hbuilt : ∀ u ∈ t.children, Built u.rule u)
    (hsorted : (row.map Subtype.val).Pairwise ParseTree.Precedes) :
    Gives (row.map Subtype.val)
      (fun e => ∃ parts items, List.Forall₂ Means (row.map Subtype.val) parts ∧
        Part.Items parts items ∧ Item.Row items e)
      (unsettle (Pratt.parse precedence (·.1.rule)
        (callbacks (·.1) (fun p => parsePrimary p.1) (fun p => parseSuffix p.1)) row)) := by
  obtain ⟨g, rfl, hg, -, hfold⟩ := exists_grouping (fun p : Inner t => p.1.rule) hroles h
  rw [hfold]
  refine (gives_readGrouping hg (fun p _ => hbuilt p.1 p.2) hsorted).mono fun e he => ?_
  obtain ⟨g', hrow, -, hg', he⟩ := he
  obtain ⟨parts, hparts, hitems⟩ := exists_items hrow
  exact ⟨parts, g'.row, hparts, hitems, g', rfl, hg', he⟩

theorem built_expr (ht : Sound t) (hr : t.rule = .expr)
    (hbuilt : ∀ u ∈ t.children, Built u.rule u) : Built .expr t := by
  have hrow := ht.row
  rw [hr] at hrow
  obtain ⟨row, choice, hsplit, ⟨roles, hroles, hrow⟩, hinner, hchoice⟩ := exists_splitChoice hrow
  have hchildren : t.children = row.map Subtype.val ++ choice.toList.map Subtype.val := by
    rw [← List.map_append, ← hinner, map_val_inner]
  have hsorted := ht.sorted
  rw [hchildren] at hsorted
  have hgives := gives_row hroles hrow hbuilt (List.pairwise_append.1 hsorted).1
  refine gives_node ht hr (by simp) hchildren ?_
  rw [parseExpr, hsplit]
  cases choice with
  | none =>
      simp only [Option.toList, List.map_nil, List.append_nil] at hchildren ⊢
      refine hgives.map fun e he => ?_
      obtain ⟨parts, items, hparts, hitems, he⟩ := he
      exact means_node hr hchildren hparts (.expr hitems he)
  | some c =>
      have hc := hbuilt c.1 c.2
      rw [hchoice c rfl] at hc
      obtain ⟨x, y, hxy, hc⟩ := hc
      obtain ⟨hmem, hinner⟩ := exists_inner hxy
      refine hgives.bind fun e he => ?_
      obtain ⟨parts, items, hparts, hitems, he⟩ := he
      have hsame : (parseExpr x >>= fun a => parseExpr y >>= fun b => .ok (a, b))
          >>= (fun branches => Except.ok (Expr.ternary t.span e branches.1 branches.2))
          = parseExpr x >>= fun a => parseExpr y >>= fun b => .ok (.ternary t.span e a b) := by
        simp only [bind_assoc, ok_bind]
      simp only [hinner, List.pmap, next, ok_bind]
      refine hsame ▸ hc.map fun branches hm => ?_
      exact means_node hr hchildren (List.rel_append hparts (.cons hm .nil))
        (.ternary hitems he branches.1 branches.2)

end Script

end Gsc
