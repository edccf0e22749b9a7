import Gsc.Proofs.Script.Building
import Gsc.Script.Parse

/-! # Statements and files are read as what they mean

The words that hold a statement together are left out when it is read, and what is left of the row
is taken one after the other. So the whole file is read as what it means, or the first number in it
that is too large is reported.
-/

namespace Gsc

open Computability
open Gsc.Peg
open Gsc.Peg.Pattern

namespace Script

variable {t : ParseTree Rule} {trees : List (ParseTree Rule)}

/-! ## Names and clauses -/

theorem plain_names (h : ∀ u ∈ trees, BuiltAs .ident u) :
    List.Forall₂ Plain trees ((trees.map name).map .name) := by
  rw [List.map_map, List.forall₂_map_right_iff, List.forall₂_same]
  exact fun u hu => (h u hu).built

theorem built_params (hr : t.rule = .params)
    (h : t.children ∈ (Rule.body .params).rows BuiltAs) : Built .params t :=
  plain_node hr (by simp) rfl (plain_names (built_of_commaList h)) (.params _)

/-- How an assignment, an increment or an expression is read as a statement that takes up `span`. -/
def ReadsSimple (t : ParseTree Rule) : Prop := ∀ span,
  Gives [t] (fun s => ∃ part, Means t part ∧ part.simple? span = some s) (parseSimple span t)

theorem exists_simple : ∀ row ∈ Rule.simple.rows BuiltAs, ∃ u, row = [u] ∧ ReadsSimple u := by
  have hexpr (u : ParseTree Rule) (hu : BuiltAs .expr u) : ReadsSimple u := by
    intro span
    rw [parseSimple]
    simp only [hu.rule]
    exact hu.built.map fun e he => ⟨_, he, rfl⟩
  apply forall_mem_rows_choice
  simp only [List.forall_mem_cons]
  exact ⟨exists_of_mem_rule fun _ hu => hu.built, exists_of_mem_rule fun _ hu => hu.built,
    exists_of_mem_rule hexpr, List.forall_mem_nil _⟩

theorem built_assignExpr (ht : Sound t) (hr : t.rule = .assignExpr)
    (h : t.children ∈ (Rule.body .assignExpr).rows BuiltAs) : Built .assignExpr t := by
  simp only [Rule.body, rows_sequence_cons, rows_sequence_nil, mem_rows_rule_mul,
    mem_rows_rule] at h
  obtain ⟨target, _, htarget, ⟨sign, _, ⟨-, op, hop, hsign⟩, ⟨value, hvalue, rfl⟩, rfl⟩, hchildren⟩
    := h
  intro span
  refine gives_node ht hr (by simp) hchildren ?_
  rw [parseSimple]
  simp only [hr, hchildren, next, ok_bind, hop]
  exact htarget.built.cons fun e he => .skip hsign.fits (hvalue.built.map fun e' he' =>
    ⟨_, means_node hr hchildren (.cons he (.cons hsign.means (.cons he' .nil))) (.assign e op e'),
      rfl⟩)

theorem built_incDecExpr (ht : Sound t) (hr : t.rule = .incDecExpr)
    (h : t.children ∈ (Rule.body .incDecExpr).rows BuiltAs) : Built .incDecExpr t := by
  simp only [Rule.body, rows_seq, mem_rows_rule_mul, mem_rows_rule] at h
  obtain ⟨target, _, htarget, ⟨sign, hsign, rfl⟩, hchildren⟩ := h
  have hsign : Plain sign _ := hsign.built
  intro span
  refine gives_node ht hr (by simp) hchildren ?_
  rw [parseSimple]
  simp only [hr, hchildren, next, ok_bind]
  exact htarget.built.cons fun e he => hsign.gives
    ⟨_, means_node hr hchildren (.cons he (.cons hsign.means .nil)) (.incDec e _), rfl⟩

/-- A clause takes up what the statement in it does. -/
theorem gives_parseForClause {r : Rule} (ht : Sound t) (hr : t.rule = r) (hn : r ≠ .number)
    (hkind : r.kind = .normal) (hthin : r.body.thin = true)
    (hnone : Part.StandsFor t.span t.text r [] (.clause none))
    (hsome : ∀ {part s}, part.simple? t.span = some s →
      Part.StandsFor t.span t.text r [part] (.clause (some s)))
    (h : t.children ∈ (Pattern.opt Rule.simple).rows BuiltAs) :
    Gives [t] (fun c => Means t (.clause c)) (parseForClause t) := by
  rw [mem_rows_opt] at h
  rcases h with h | hchildren
  · obtain ⟨u, hchildren, hu⟩ := exists_simple _ h
    have hspan := (ht.wrapped (hr ▸ hkind) (hr ▸ hthin) u
      (hchildren ▸ List.mem_singleton_self u)).2
    refine gives_node ht hr hn hchildren ?_
    simp only [parseForClause, hchildren, hspan]
    refine (hu t.span).map fun s hs => ?_
    obtain ⟨part, hpart, hs⟩ := hs
    exact means_node hr hchildren (.cons hpart .nil) (hsome hs)
  · refine gives_node ht hr hn hchildren ?_
    simp only [parseForClause, hchildren]
    exact .ok (means_node hr hchildren .nil hnone)

theorem built_forCond (ht : Sound t) (hr : t.rule = .forCond)
    (h : t.children ∈ (Rule.body .forCond).rows BuiltAs) : Built .forCond t := by
  simp only [Rule.body, mem_rows_opt, mem_rows_rule] at h
  obtain ⟨u, hu, hchildren⟩ | hchildren := h
  · refine gives_node ht hr (by simp) hchildren ?_
    rw [hchildren]
    exact hu.built.map fun e he => means_node hr hchildren (.cons he .nil) (.condition e)
  · refine gives_node ht hr (by simp) hchildren ?_
    rw [hchildren]
    exact .ok (means_node hr hchildren .nil .noCondition)

/-! ## Statements -/

structure ReadsStmt (t : ParseTree Rule) : Prop where
  keeps : isKeyword t.rule = false
  gives : Gives [t] (fun s => Means t (.stmt s)) (parseStmt t)

theorem exists_stmt : ∀ row ∈ Rule.statement.rows BuiltAs, ∃ s, row = [s] ∧ ReadsStmt s := by
  have hblock (s : ParseTree Rule) (hs : BuiltAs .block s) : ReadsStmt s := by
    refine ⟨by rw [hs.rule]; rfl, ?_⟩
    rw [parseStmt]
    simp only [hs.rule]
    exact hs.built.map fun body hbody => hbody
  apply forall_mem_rows_choice
  simp only [List.forall_mem_cons]
  refine ⟨exists_of_mem_rule hblock, ?_, ?_, ?_, ?_, ?_, ?_, ?_, ?_, ?_, ?_, ?_, ?_, ?_, ?_,
    List.forall_mem_nil _⟩
  all_goals exact exists_of_mem_rule fun s hs => ⟨by rw [hs.rule]; rfl, hs.built⟩

theorem exists_stmt_mul {L : Language (ParseTree Rule)}
    (h : trees ∈ Rule.statement.rows BuiltAs * L) :
    ∃ s, ReadsStmt s ∧ ∃ rest ∈ L, trees = s :: rest := by
  obtain ⟨row, hrow, rest, hrest, rfl⟩ := Language.mem_mul.1 h
  obtain ⟨s, rfl, hs⟩ := exists_stmt row hrow
  exact ⟨s, hs, rest, hrest, rfl⟩

theorem built_block (ht : Sound t) (hr : t.rule = .block)
    (h : t.children ∈ (Rule.body .block).rows BuiltAs) : Built .block t := by
  simp only [Rule.body, rows_sequence_cons, rows_sequence_nil, rows_lit, one_mul, mul_one,
    rows_star] at h
  have hstmts : ∀ u ∈ t.children, ReadsStmt u := by
    refine forall_mem_of_mem_kstar (fun row hrow => ?_) h
    obtain ⟨s, rfl, hs⟩ := exists_stmt row hrow
    exact List.forall_mem_singleton.2 hs
  have hbody : Gives t.children (List.Forall₂ (fun u s => Means u (.stmt s)) t.children)
      (t.children.mapM parseStmt) := .mapM fun u hu => (hstmts u hu).gives
  refine gives_node ht hr (by simp) rfl ?_
  rw [parseBlock, mapM_inner parseStmt]
  exact hbody.mono fun body hbody => means_node hr rfl (map_of_means hbody) (.block body)

theorem built_ifStmt (ht : Sound t) (hr : t.rule = .ifStmt)
    (h : t.children ∈ (Rule.body .ifStmt).rows BuiltAs) : Built .ifStmt t := by
  simp only [Rule.body, rows_sequence_cons, rows_sequence_nil, rows_lit, one_mul,
    mem_rows_rule_mul] at h
  obtain ⟨w, _, hw, ⟨c, _, hc, hbranches, rfl⟩, hchildren⟩ := h
  obtain ⟨s, hs, rest, hrest, rfl⟩ := exists_stmt_mul hbranches
  have hmark : Plain w .mark := hw.built
  simp only [mem_rows_opt, rows_seq, mem_rows_rule_mul] at hrest
  obtain ⟨w', _, hw', hbranch, rfl⟩ | rfl := hrest
  · obtain ⟨s', rfl, hs'⟩ := exists_stmt _ hbranch
    have hmark' : Plain w' .mark := hw'.built
    have hfilter : t.children.filter (!isKeyword ·.rule) = [c, s, s'] := by
      simp only [hchildren, List.filter, hw.rule, hc.rule, hw'.rule, hs.keeps, hs'.keeps]
      rfl
    obtain ⟨hmem, hcontent⟩ := exists_content hfilter
    refine gives_node ht hr (by simp) hchildren ?_
    rw [parseStmt]
    simp only [hr, hcontent, List.pmap, next, ok_bind]
    exact .skip hmark.fits (hc.built.cons fun e he => hs.gives.cons fun a ha =>
      .skip hmark'.fits (hs'.gives.map fun b hb => means_node hr hchildren
        (.cons hmark.means (.cons he (.cons ha (.cons hmark'.means (.cons hb .nil)))))
        (.ifElse e a b)))
  · have hfilter : t.children.filter (!isKeyword ·.rule) = [c, s] := by
      simp only [hchildren, List.filter, hw.rule, hc.rule, hs.keeps]
      rfl
    obtain ⟨hmem, hcontent⟩ := exists_content hfilter
    refine gives_node ht hr (by simp) hchildren ?_
    rw [parseStmt]
    simp only [hr, hcontent, List.pmap, next, ok_bind]
    exact .skip hmark.fits (hc.built.cons fun e he => hs.gives.map fun a ha =>
      means_node hr hchildren (.cons hmark.means (.cons he (.cons ha .nil))) (.ifThen e a))

theorem built_whileStmt (ht : Sound t) (hr : t.rule = .whileStmt)
    (h : t.children ∈ (Rule.body .whileStmt).rows BuiltAs) : Built .whileStmt t := by
  simp only [Rule.body, rows_sequence_cons, rows_sequence_nil, rows_lit, one_mul,
    mem_rows_rule_mul] at h
  obtain ⟨w, _, hw, ⟨c, _, hc, hbody, rfl⟩, hchildren⟩ := h
  obtain ⟨s, rfl, hs⟩ := exists_stmt _ hbody
  have hmark : Plain w .mark := hw.built
  have hfilter : t.children.filter (!isKeyword ·.rule) = [c, s] := by
    simp only [hchildren, List.filter, hw.rule, hc.rule, hs.keeps]
    rfl
  obtain ⟨hmem, hcontent⟩ := exists_content hfilter
  refine gives_node ht hr (by simp) hchildren ?_
  rw [parseStmt]
  simp only [hr, hcontent, List.pmap, next, ok_bind]
  exact .skip hmark.fits (hc.built.cons fun e he => hs.gives.map fun a ha =>
    means_node hr hchildren (.cons hmark.means (.cons he (.cons ha .nil))) (.whileLoop e a))

theorem built_foreachStmt (ht : Sound t) (hr : t.rule = .foreachStmt)
    (h : t.children ∈ (Rule.body .foreachStmt).rows BuiltAs) : Built .foreachStmt t := by
  simp only [Rule.body, rows_sequence_cons, rows_sequence_nil, rows_lit, one_mul,
    mem_rows_rule_mul] at h
  obtain ⟨w, _, hw, ⟨v, _, hv, ⟨w', _, hw', ⟨c, _, hc, hbody, rfl⟩, rfl⟩, rfl⟩, hchildren⟩ := h
  obtain ⟨s, rfl, hs⟩ := exists_stmt _ hbody
  have hmark : Plain w .mark := hw.built
  have hname : Plain v (.name (name v)) := hv.built
  have hmark' : Plain w' .mark := hw'.built
  have hfilter : t.children.filter (!isKeyword ·.rule) = [v, c, s] := by
    simp only [hchildren, List.filter, hw.rule, hv.rule, hw'.rule, hc.rule, hs.keeps]
    rfl
  obtain ⟨hmem, hcontent⟩ := exists_content hfilter
  refine gives_node ht hr (by simp) hchildren ?_
  rw [parseStmt]
  simp only [hr, hcontent, List.pmap, next, ok_bind]
  exact .skip hmark.fits (.skip hname.fits (.skip hmark'.fits (hc.built.cons fun e he =>
    hs.gives.map fun a ha => means_node hr hchildren
      (.cons hmark.means (.cons hname.means (.cons hmark'.means (.cons he (.cons ha .nil)))))
      (.foreach _ e a))))

theorem built_forStmt (ht : Sound t) (hr : t.rule = .forStmt)
    (h : t.children ∈ (Rule.body .forStmt).rows BuiltAs) : Built .forStmt t := by
  simp only [Rule.body, rows_sequence_cons, rows_sequence_nil, rows_lit, one_mul,
    mem_rows_rule_mul] at h
  obtain ⟨w, _, hw, ⟨i, _, hi, ⟨c, _, hc, ⟨p, _, hp, hbody, rfl⟩, rfl⟩, rfl⟩, hchildren⟩ := h
  obtain ⟨s, rfl, hs⟩ := exists_stmt _ hbody
  have hmark : Plain w .mark := hw.built
  have hfilter : t.children.filter (!isKeyword ·.rule) = [i, c, p, s] := by
    simp only [hchildren, List.filter, hw.rule, hi.rule, hc.rule, hp.rule, hs.keeps]
    rfl
  obtain ⟨hmem, hcontent⟩ := exists_content hfilter
  refine gives_node ht hr (by simp) hchildren ?_
  rw [parseStmt]
  simp only [hr, hcontent, List.pmap, next, ok_bind]
  exact .skip hmark.fits (hi.built.cons fun init hinit => hc.built.cons fun e he =>
    hp.built.cons fun step hstep => hs.gives.map fun a ha => means_node hr hchildren
      (.cons hmark.means (.cons hinit (.cons he (.cons hstep (.cons ha .nil)))))
      (.forLoop init step e a))

theorem built_returnStmt (ht : Sound t) (hr : t.rule = .returnStmt)
    (h : t.children ∈ (Rule.body .returnStmt).rows BuiltAs) : Built .returnStmt t := by
  simp only [Rule.body, rows_sequence_cons, rows_sequence_nil, rows_lit, mul_one,
    mem_rows_rule_mul, mem_rows_opt, mem_rows_rule] at h
  obtain ⟨w, rest, hw, ⟨v, hv, rfl⟩ | rfl, hchildren⟩ := h
  · have hmark : Plain w .mark := hw.built
    have hfilter : t.children.filter (!isKeyword ·.rule) = [v] := by
      simp only [hchildren, List.filter, hw.rule, hv.rule]
      rfl
    obtain ⟨hmem, hcontent⟩ := exists_content hfilter
    refine gives_node ht hr (by simp) hchildren ?_
    rw [parseStmt]
    simp only [hr, hcontent, List.pmap, parseOptional, bind_assoc, pure_bind]
    exact .skip hmark.fits (hv.built.map fun e he =>
      means_node hr hchildren (.cons hmark.means (.cons he .nil)) (.giveBack e))
  · have hmark : Plain w .mark := hw.built
    have hfilter : t.children.filter (!isKeyword ·.rule) = [] := by
      simp only [hchildren, List.filter, hw.rule]
      rfl
    obtain ⟨hmem, hcontent⟩ := exists_content hfilter
    refine gives_node ht hr (by simp) hchildren ?_
    rw [parseStmt]
    simp only [hr, hcontent, List.pmap, parseOptional, pure_bind]
    exact hmark.gives (means_node hr hchildren (.cons hmark.means .nil) .finish)

theorem built_waitStmt (ht : Sound t) (hr : t.rule = .waitStmt)
    (h : t.children ∈ (Rule.body .waitStmt).rows BuiltAs) : Built .waitStmt t := by
  simp only [Rule.body, rows_sequence_cons, rows_sequence_nil, rows_lit, mul_one,
    mem_rows_rule_mul, mem_rows_rule] at h
  obtain ⟨w, _, hw, ⟨v, hv, rfl⟩, hchildren⟩ := h
  have hmark : Plain w .mark := hw.built
  have hfilter : t.children.filter (!isKeyword ·.rule) = [v] := by
    simp only [hchildren, List.filter, hw.rule, hv.rule]
    rfl
  obtain ⟨hmem, hcontent⟩ := exists_content hfilter
  refine gives_node ht hr (by simp) hchildren ?_
  rw [parseStmt]
  simp only [hr, hcontent, List.pmap, next, ok_bind]
  exact .skip hmark.fits (hv.built.map fun e he =>
    means_node hr hchildren (.cons hmark.means (.cons he .nil)) (.wait e))

/-- A statement that is a word and no more. -/
theorem gives_wordStmt {r : Rule} {w : Word} {s : Stmt} (hr : t.rule = r) (hn : r ≠ .number)
    (h : t.children ∈ (Pattern.seq (.rule (.word w)) (lit ";")).rows BuiltAs)
    (hw : ∀ u, Built (.word w) u → Plain u .mark)
    (hs : Part.StandsFor t.span t.text r [.mark] (.stmt s)) (hread : parseStmt t = .ok s) :
    Gives [t] (fun s => Means t (.stmt s)) (parseStmt t) := by
  simp only [rows_seq, rows_lit, mul_one, mem_rows_rule] at h
  obtain ⟨u, hu, hchildren⟩ := h
  have hplain := plain_node hr hn hchildren (.cons (hw u hu.built) .nil) hs
  rw [hread]
  exact hplain.gives hplain.means

theorem built_waitFrameStmt (hr : t.rule = .waitFrameStmt)
    (h : t.children ∈ (Rule.body .waitFrameStmt).rows BuiltAs) : Built .waitFrameStmt t := by
  refine gives_wordStmt hr (by simp) h (fun _ hw => hw) .waitFrame ?_
  rw [parseStmt]
  simp only [hr]
  rfl

theorem built_breakStmt (hr : t.rule = .breakStmt)
    (h : t.children ∈ (Rule.body .breakStmt).rows BuiltAs) : Built .breakStmt t := by
  refine gives_wordStmt hr (by simp) h (fun _ hw => hw) .breakLoop ?_
  rw [parseStmt]
  simp only [hr]
  rfl

theorem built_continueStmt (hr : t.rule = .continueStmt)
    (h : t.children ∈ (Rule.body .continueStmt).rows BuiltAs) : Built .continueStmt t := by
  refine gives_wordStmt hr (by simp) h (fun _ hw => hw) .continueLoop ?_
  rw [parseStmt]
  simp only [hr]
  rfl

/-! ## Statements on events -/

theorem filter_of_built {r : Rule} (hr : isKeyword r = false) (h : ∀ u ∈ trees, BuiltAs r u) :
    trees.filter (!isKeyword ·.rule) = trees := by
  refine List.filter_eq_self.2 fun u hu => ?_
  rw [(h u hu).rule, hr]
  rfl

theorem map_val_pmap {P : ParseTree Rule → Prop} (hmem : ∀ u ∈ trees, P u) :
    (trees.pmap Subtype.mk hmem).map Subtype.val = trees := by
  rw [List.map_pmap, List.pmap_eq_map, List.map_id']

theorem built_waitTillStmt (ht : Sound t) (hr : t.rule = .waitTillStmt)
    (h : t.children ∈ (Rule.body .waitTillStmt).rows BuiltAs) : Built .waitTillStmt t := by
  simp only [Rule.body, Rule.eventForm, List.cons_append, List.nil_append, rows_sequence_cons,
    rows_sequence_nil, rows_lit, one_mul, mul_one, mem_rows_rule_mul] at h
  obtain ⟨o, _, ho, ⟨w, _, hw, ⟨e, names, he, hnames, rfl⟩, rfl⟩, hchildren⟩ := h
  have hmark : Plain w .mark := hw.built
  have hidents := built_of_commas hnames
  have hplain := plain_names hidents
  have hfilter : t.children.filter (!isKeyword ·.rule) = o :: e :: names := by
    simp only [hchildren, List.filter, ho.rule, hw.rule, he.rule, filter_of_built rfl hidents]
    rfl
  obtain ⟨hmem, hcontent⟩ := exists_content hfilter
  have hread {P : ParseTree Rule → Prop} (hmem : ∀ u ∈ names, P u) :
      (names.pmap Subtype.mk hmem).map (name ·.1) = names.map name := by
    conv_rhs => rw [← map_val_pmap hmem, List.map_map]
    rfl
  refine gives_node ht hr (by simp) hchildren ?_
  rw [parseStmt]
  simp only [hr, hcontent, List.pmap, next, ok_bind, hread]
  exact ho.built.cons fun a ha => .skip hmark.fits (he.built.cons fun b hb =>
    .of_allFit (allFit_of_plain hplain) (means_node hr hchildren
      (.cons ha (.cons hmark.means (.cons hb (hplain.imp fun _ _ h => h.means))))
      (.waitTill a b _)))

theorem built_notifyStmt (ht : Sound t) (hr : t.rule = .notifyStmt)
    (h : t.children ∈ (Rule.body .notifyStmt).rows BuiltAs) : Built .notifyStmt t := by
  simp only [Rule.body, Rule.eventForm, List.cons_append, List.nil_append, rows_sequence_cons,
    rows_sequence_nil, rows_lit, one_mul, mul_one, mem_rows_rule_mul] at h
  obtain ⟨o, _, ho, ⟨w, _, hw, ⟨e, args, he, hargs, rfl⟩, rfl⟩, hchildren⟩ := h
  have hmark : Plain w .mark := hw.built
  have hexprs := built_of_commas hargs
  have hfilter : t.children.filter (!isKeyword ·.rule) = o :: e :: args := by
    simp only [hchildren, List.filter, ho.rule, hw.rule, he.rule, filter_of_built rfl hexprs]
    rfl
  obtain ⟨hmem, hcontent⟩ := exists_content hfilter
  have hread {P : ParseTree Rule → Prop} (hmem : ∀ u ∈ args, P u) :
      ((args.pmap Subtype.mk hmem).mapM fun u => parseExpr u.1) = args.mapM parseExpr := by
    conv_rhs => rw [← map_val_pmap hmem, List.mapM_map]
    rfl
  have hgives : Gives args (List.Forall₂ (fun u e => Means u (.expr e)) args)
      (args.mapM parseExpr) := .mapM fun u hu => (hexprs u hu).built
  refine gives_node ht hr (by simp) hchildren ?_
  rw [parseStmt]
  simp only [hr, hcontent, List.pmap, next, ok_bind, hread]
  exact ho.built.cons fun a ha => .skip hmark.fits (he.built.cons fun b hb =>
    hgives.map fun values hvalues => means_node hr hchildren
      (.cons ha (.cons hmark.means (.cons hb (map_of_means hvalues)))) (.notify a b values))

theorem built_endOnStmt (ht : Sound t) (hr : t.rule = .endOnStmt)
    (h : t.children ∈ (Rule.body .endOnStmt).rows BuiltAs) : Built .endOnStmt t := by
  simp only [Rule.body, Rule.eventForm, List.cons_append, List.nil_append, List.append_nil,
    rows_sequence_cons, rows_sequence_nil, rows_lit, one_mul, mul_one, mem_rows_rule_mul,
    mem_rows_rule] at h
  obtain ⟨o, _, ho, ⟨w, _, hw, ⟨e, he, rfl⟩, rfl⟩, hchildren⟩ := h
  have hmark : Plain w .mark := hw.built
  have hfilter : t.children.filter (!isKeyword ·.rule) = [o, e] := by
    simp only [hchildren, List.filter, ho.rule, hw.rule, he.rule]
    rfl
  obtain ⟨hmem, hcontent⟩ := exists_content hfilter
  refine gives_node ht hr (by simp) hchildren ?_
  rw [parseStmt]
  simp only [hr, hcontent, List.pmap, next, ok_bind]
  exact ho.built.cons fun a ha => .skip hmark.fits (he.built.map fun b hb =>
    means_node hr hchildren (.cons ha (.cons hmark.means (.cons hb .nil))) (.endOn a b))

theorem built_exprStmt (ht : Sound t) (hr : t.rule = .exprStmt)
    (h : t.children ∈ (Rule.body .exprStmt).rows BuiltAs) : Built .exprStmt t := by
  simp only [Rule.body, rows_seq, rows_lit, mul_one] at h
  obtain ⟨u, hchildren, hu⟩ := exists_simple _ h
  refine gives_node ht hr (by simp) hchildren ?_
  rw [parseStmt]
  simp only [hr, hchildren, next, ok_bind]
  refine (hu t.span).mono fun s hs => ?_
  obtain ⟨part, hpart, hs⟩ := hs
  exact means_node hr hchildren (.cons hpart .nil) (.simple hs)

/-! ## Files -/

theorem built_functionDef (ht : Sound t) (hr : t.rule = .functionDef)
    (h : t.children ∈ (Rule.body .functionDef).rows BuiltAs) : Built .functionDef t := by
  simp only [Rule.body, rows_sequence_cons, rows_sequence_nil, rows_lit, one_mul,
    mem_rows_rule_mul, mem_rows_rule] at h
  obtain ⟨f, _, hf, ⟨ps, _, hps, ⟨b, hb, rfl⟩, rfl⟩, hchildren⟩ := h
  have hname : Plain f (.name (name f)) := hf.built
  have hparams : Plain ps _ := hps.built
  refine gives_node ht hr (by simp) hchildren ?_
  simp only [parseFunction, hchildren, next, ok_bind]
  exact .skip hname.fits (.skip hparams.fits (hb.built.map fun body hbody =>
    means_node hr hchildren (.cons hname.means (.cons hparams.means (.cons hbody .nil)))
      (.function _ _ _ body)))

theorem built_includeDirective (hr : t.rule = .includeDirective)
    (h : t.children ∈ (Rule.body .includeDirective).rows BuiltAs) : Built .includeDirective t := by
  simp only [Rule.body, rows_sequence_cons, rows_sequence_nil, rows_lit, one_mul, mul_one,
    mem_rows_rule] at h
  obtain ⟨path, hpath, hchildren⟩ := h
  have hplain := plain_node hr (by simp) hchildren (.cons hpath.built .nil) (.included _)
  intro script
  simp only [addItem, hr, hchildren, next, ok_bind]
  exact hplain.gives ⟨_, hplain.means, rfl⟩

theorem built_animtreeDirective (hr : t.rule = .animtreeDirective)
    (h : t.children ∈ (Rule.body .animtreeDirective).rows BuiltAs) :
    Built .animtreeDirective t := by
  simp only [Rule.body, rows_sequence_cons, rows_sequence_nil, rows_lit, one_mul, mul_one,
    mem_rows_rule] at h
  obtain ⟨text, htext, hchildren⟩ := h
  have hplain := plain_node hr (by simp) hchildren (.cons htext.built .nil) (.animtree _)
  intro script
  simp only [addItem, hr, hchildren, next, ok_bind]
  exact hplain.gives ⟨_, hplain.means, rfl⟩

def ReadsItem (t : ParseTree Rule) : Prop := ∀ script,
  Gives [t] (fun next => ∃ part, Means t part ∧ next = part.addTo script) (addItem script t)

theorem exists_topItem : ∀ row ∈ Rule.topItem.rows BuiltAs, ∃ u, row = [u] ∧ ReadsItem u := by
  have hfunction (u : ParseTree Rule) (hu : BuiltAs .functionDef u) : ReadsItem u := by
    intro script
    simp only [addItem, hu.rule]
    exact hu.built.map fun f hf => ⟨_, hf, rfl⟩
  apply forall_mem_rows_choice
  simp only [List.forall_mem_cons]
  exact ⟨exists_of_mem_rule fun _ hu => hu.built, exists_of_mem_rule fun _ hu => hu.built,
    exists_of_mem_rule hfunction, List.forall_mem_nil _⟩

theorem gives_items (h : ∀ u ∈ trees, ReadsItem u) (script : Script) :
    Gives trees
      (fun s => ∃ parts, List.Forall₂ Means trees parts ∧ s = parts.foldl Part.addTo script)
      (trees.foldlM addItem script) := by
  induction trees generalizing script with
  | nil => exact .ok ⟨[], .nil, rfl⟩
  | cons u trees ih =>
      rw [List.forall_mem_cons] at h
      rw [List.foldlM_cons]
      refine (h.1 script).cons fun _ hu => ?_
      obtain ⟨part, hpart, rfl⟩ := hu
      refine (ih h.2 _).mono fun s hs => ?_
      obtain ⟨parts, hparts, rfl⟩ := hs
      exact ⟨part :: parts, .cons hpart hparts, rfl⟩

theorem built_file (ht : Sound t) (hr : t.rule = .file)
    (h : t.children ∈ (Rule.body .file).rows BuiltAs) : Built .file t := by
  simp only [Rule.body, rows_sequence_cons, rows_sequence_nil, rows_lit, one_mul, rows_star] at h
  obtain ⟨items, hitems, _, ⟨e, he, rfl⟩, hchildren⟩ := Language.mem_mul.1 h
  have hending : Plain e .mark := he.built
  have hitem : ∀ u ∈ items, ReadsItem u := by
    refine forall_mem_of_mem_kstar (fun row hrow => ?_) hitems
    obtain ⟨u, rfl, hu⟩ := exists_topItem row hrow
    exact List.forall_mem_singleton.2 hu
  have hlast : ReadsItem e := by
    intro script
    simp only [addItem, he.rule]
    exact hending.gives ⟨_, hending.means, rfl⟩
  have hall : ∀ u ∈ t.children, ReadsItem u := by
    rw [← hchildren]
    exact List.forall_mem_append.2 ⟨hitem, List.forall_mem_singleton.2 hlast⟩
  refine gives_node ht hr (by simp) rfl ((gives_items hall .empty).mono fun s hs => ?_)
  obtain ⟨parts, hparts, rfl⟩ := hs
  exact means_node hr rfl hparts (.file parts)

/-! ## All trees -/

/-- What is known of every tree in a tree is enough to read it. -/
theorem built (h : ∀ u : ParseTree Rule, u.Occurs [t] → Sound u) : Built t.rule t := by
  induction hn : t.height using Nat.strongRecOn generalizing t with
  | ind n ih =>
      have ht : Sound t := h t (.here List.mem_cons_self)
      have hchildren : ∀ u ∈ t.children, Built u.rule u := by
        intro u hu
        refine ih u.height (hn ▸ ParseTree.height_lt_of_mem hu) (fun v hv => ?_) rfl
        exact h v (ParseTree.occurs_singleton.2 (.inr (ParseTree.occurs_iff.2 ⟨u, hu, hv⟩)))
      obtain ⟨r, hr⟩ : ∃ r, t.rule = r := ⟨_, rfl⟩
      have hrows := rows_of_built ht hr hchildren
      rw [hr]
      cases r with
      | localized => exact built_localized ht hr hrows
      | funcRef => exact built_funcRef ht hr hrows
      | parenOrVector => exact built_parenOrVector ht hr hrows
      | member => exact built_member ht hr hrows
      | index => exact built_index ht hr hrows
      | callArgs => exact built_callArgs ht hr hrows
      | namedCallee => exact built_namedCallee ht hr hrows
      | farCallee => exact built_farCallee hr hrows
      | pointerCallee => exact built_pointerCallee ht hr hrows
      | funcCall => exact built_funcCall ht hr hrows
      | methodCall => exact built_methodCall ht hr hrows
      | ternarySuffix => exact built_ternarySuffix ht hr hrows
      | expr => exact built_expr ht hr hchildren
      | params => exact built_params hr hrows
      | assignExpr => exact built_assignExpr ht hr hrows
      | incDecExpr => exact built_incDecExpr ht hr hrows
      | forInit => exact gives_parseForClause ht hr (by simp) rfl rfl .noInit .init hrows
      | forStep => exact gives_parseForClause ht hr (by simp) rfl rfl .noStep .step hrows
      | forCond => exact built_forCond ht hr hrows
      | block => exact built_block ht hr hrows
      | ifStmt => exact built_ifStmt ht hr hrows
      | whileStmt => exact built_whileStmt ht hr hrows
      | foreachStmt => exact built_foreachStmt ht hr hrows
      | forStmt => exact built_forStmt ht hr hrows
      | returnStmt => exact built_returnStmt ht hr hrows
      | waitFrameStmt => exact built_waitFrameStmt hr hrows
      | waitStmt => exact built_waitStmt ht hr hrows
      | breakStmt => exact built_breakStmt hr hrows
      | continueStmt => exact built_continueStmt hr hrows
      | waitTillStmt => exact built_waitTillStmt ht hr hrows
      | notifyStmt => exact built_notifyStmt ht hr hrows
      | endOnStmt => exact built_endOnStmt ht hr hrows
      | exprStmt => exact built_exprStmt ht hr hrows
      | functionDef => exact built_functionDef ht hr hrows
      | includeDirective => exact built_includeDirective hr hrows
      | animtreeDirective => exact built_animtreeDirective hr hrows
      | file => exact built_file ht hr hrows
      | unary op => exact built_of_silent ht hr (by cases op <;> rfl)
      | binary op => exact built_of_silent ht hr (by cases op <;> rfl)
      | _ => exact built_of_silent ht hr rfl

/-! ## Matched texts -/

theorem grammar_flat : grammar.Flat where
  body := by
    intro r h
    cases r with
    | unary op => cases op <;> rfl
    | binary op => cases op <;> rfl
    | ident | keyword | fieldName | path | number | string | word | literal | assignOp | incDecOp =>
        rfl
    | _ => cases h
  blank := rfl

variable {content : List Char} {after : Cursor}

theorem run_file (h : (grammar.run .file content).1 = .matched trees after) :
    ∃ items, trees = [.node .file (.atStart content) after.pos items] ∧
      Laid (.atStart content) items after := by
  cases derives_of_run h with
  | rule hbody => exact ⟨_, rfl, hbody.laid⟩

theorem sound_of_run (h : (grammar.run .file content).1 = .matched trees after)
    (ht : t.Occurs trees) : Sound t where
  row := (shaped_of_run grammar_flat h).2 t ht
  text := ((spelled_of_run h).of_occurs ht).1
  sorted := by
    obtain ⟨r, start, stop, children, front, back, rfl, -, hlaid, -⟩ :=
      (derives_of_run h).laid.of_occurs ht
    exact hlaid.pairwise_precedes
  wrapped := (gathers_wrapped grammar).of_run h t ht

theorem built_of_run (h : (grammar.run .file content).1 = .matched trees after)
    (ht : t.Occurs trees) : Built t.rule t := by
  refine built fun u hu => sound_of_run h ?_
  rcases ParseTree.occurs_singleton.1 hu with rfl | hu
  · exact ht
  · exact ht.trans hu

theorem parseChars_of_matched (h : (grammar.run .file content).1 = .matched trees after) :
    parseChars content = (ofTrees trees).mapError .unreadable := by
  unfold parseChars
  rcases hrun : grammar.run .file content with ⟨outcome, log⟩
  rw [hrun] at h
  cases h
  rfl

theorem matched_of_parseChars {script : Script} (h : parseChars content = .ok script) :
    ∃ trees after, (grammar.run .file content).1 = .matched trees after := by
  unfold parseChars at h
  split at h
  · rename_i trees after log hrun
    exact ⟨trees, after, by rw [hrun]⟩
  · cases h
  · cases h

/-- A matched text is read as what its tree means, or the first number in it that is too large is
reported. -/
theorem parseChars_of_run (h : (grammar.run .file content).1 = .matched trees after) :
    (∃ file script, trees = [file] ∧ Means file (.script script) ∧ AllFit trees ∧
      parseChars content = .ok script) ∨
    ∃ t : ParseTree Rule, t.IsFirst HoldsTooLarge trees ∧ parseChars content
      = .error (.unreadable (.error (.invalidNumber (String.ofList t.text) t.span))) := by
  obtain ⟨items, rfl, -⟩ := run_file h
  have hgives : Gives [_] _ (items.foldlM addItem .empty) :=
    built_of_run h (.here List.mem_cons_self)
  rw [parseChars_of_matched h, ofTrees]
  simp only [next, ok_bind, ParseTree.children]
  obtain ⟨script, hread, hmeans, hfit⟩ | ⟨t, ht, hread⟩ := hgives (List.pairwise_singleton _ _)
  · rw [hread]
    exact .inl ⟨_, script, rfl, hmeans, hfit, rfl⟩
  · rw [hread]
    exact .inr ⟨t, ht, rfl⟩

theorem exists_means {parts : List Part} (h : List.Forall₂ Means trees parts) (ht : t ∈ trees) :
    ∃ part, Means t part := by
  induction h with
  | nil => cases ht
  | cons hpart _ ih =>
      rcases List.mem_cons.1 ht with rfl | ht
      · exact ⟨_, hpart⟩
      · exact ih ht

/-- What has a meaning holds no number that is too large. -/
theorem allFit_of_means {parts : List Part} (h : List.Forall₂ Means trees parts) :
    AllFit trees := by
  intro t ht
  induction ht generalizing parts with
  | here ht =>
      obtain ⟨part, hpart⟩ := exists_means h ht
      rintro ⟨hr, htoo⟩
      obtain ⟨-, hs⟩ := hpart
      rw [hr] at hs
      cases hs with
      | number hnumber => cases hnumber.symm.trans (number?_of_isTooLarge htoo _)
  | under hu _ ih =>
      obtain ⟨part, hpart⟩ := exists_means h hu
      obtain ⟨hparts, -⟩ := hpart
      exact ih hparts

theorem parseChars_of_means {script : Script}
    (h : (grammar.run .file content).1 = .matched trees after)
    (hmeans : List.Forall₂ Means trees [.script script]) : parseChars content = .ok script := by
  obtain ⟨file, found, rfl, hfile, -, hread⟩ | ⟨t, ht, -⟩ := parseChars_of_run h
  · obtain _ | ⟨hfile', -⟩ := hmeans
    cases hfile.unique hfile'
    exact hread
  · exact absurd ht.holds (allFit_of_means hmeans t ht.occurs)

end Script

end Gsc
