import Gsc.Proofs.Lowering.Emission
import Gsc.Proofs.Script.Mentions

/-! # The literals of lowered code

Without findings no literal of a function is lost: the code of its body names all of them.
-/

namespace Gsc

def Routine.Names (r : Routine) (s : String) : Prop := ∃ i ∈ r.code, .text s ∈ i.operands

theorem Expr.names_of_atom? {r : Routine} {e : Expr} {i : Nat} {ins : Instruction} {s : String}
    (ha : e.atom? = some ins) (hi : r.code[i]? = some ins) (hs : .literal s ∈ e.mentions) :
    r.Names s := by
  refine ⟨ins, List.mem_of_getElem? hi, ?_⟩
  cases e with
  | text | localized =>
      cases ha
      simpa [mentions] using hs
  | unary _ op operand =>
      cases op <;> cases operand <;> simp [atom?, mentions] at ha hs
  | functionRef _ path _ => cases path <;> simp [mentions] at hs
  | _ => simp [atom?, mentions] at ha hs

section Literals

variable {scope : Scope} {r : Routine} {s : String}

mutual

theorem Expr.names_of_codeAt (e : Expr) {i j : Nat} (h : e.CodeAt scope r i j)
    (hs : .literal s ∈ e.mentions) : r.Names s := by
  match e with
  | .int .. | .float .. | .undefined _ | .bool .. | .level _ | .self _ | .game _ | .anim _
  | .emptyArray _ => simp [Expr.mentions] at hs
  | .text .. | .localized .. | .functionRef .. =>
      cases h with
      | atom ha hi => exact Expr.names_of_atom? ha hi hs
  | .vector _ x y z =>
      simp only [Expr.mentions, List.mem_append] at hs
      cases h with
      | vector hx hy hz =>
          rcases hs with (hs | hs) | hs
          · exact x.names_of_codeAt hx hs
          · exact y.names_of_codeAt hy hs
          · exact z.names_of_codeAt hz hs
      | atom ha => cases ha
  | .ident .. => simp [Expr.mentions] at hs
  | .field _ base _ =>
      simp only [Expr.mentions, List.mem_append, List.mem_singleton, reduceCtorEq, or_false] at hs
      cases h with
      | size hb => exact base.names_of_codeAt hb hs
      | field hb => exact base.names_of_codeAt hb hs
      | atom ha => cases ha
  | .index _ base e =>
      simp only [Expr.mentions, List.mem_append] at hs
      cases h with
      | index he hb =>
          rcases hs with hs | hs
          · exact base.names_of_codeAt hb hs
          · exact e.names_of_codeAt he hs
      | atom ha => cases ha
  | .call _ object thread callee args =>
      simp only [Expr.mentions, List.mem_append] at hs
      cases h with
      | call hlimit hplan hm ha ho ht =>
          rcases hs with (hs | hs) | hs
          · exact names_of_objectAt object ho hs
          · exact callee.names_of_targetAt ht hs
          · exact names_of_argsAt args ha hs
      | atom ha => cases ha
  | .unary _ op e =>
      cases h with
      | negInt => simp [Expr.mentions] at hs
      | neg hz he => exact e.names_of_codeAt he hs
      | not he => exact e.names_of_codeAt he hs
      | bitNot he => exact e.names_of_codeAt he hs
      | atom ha hi => exact Expr.names_of_atom? ha hi hs
  | .binary _ left op right =>
      simp only [Expr.mentions, List.mem_append] at hs
      cases h with
      | and hl hj hr =>
          rcases hs with hs | hs
          · exact left.names_of_codeAt hl hs
          · exact right.names_of_codeAt hr hs
      | or hl hj hr =>
          rcases hs with hs | hs
          · exact left.names_of_codeAt hl hs
          · exact right.names_of_codeAt hr hs
      | binary hop hl hr =>
          rcases hs with hs | hs
          · exact left.names_of_codeAt hl hs
          · exact right.names_of_codeAt hr hs
      | atom ha => cases ha
  | .ternary _ condition yes no =>
      simp only [Expr.mentions, List.mem_append] at hs
      cases h with
      | ternary hc hj hy hjy hn =>
          rcases hs with (hs | hs) | hs
          · exact condition.names_of_codeAt hc hs
          · exact yes.names_of_codeAt hy hs
          · exact no.names_of_codeAt hn hs
      | atom ha => cases ha

theorem Callee.names_of_targetAt (callee : Callee) {i j : Nat} (h : callee.TargetAt scope r i j)
    (hs : .literal s ∈ callee.mentions) : r.Names s := by
  match callee with
  | .named _ | .far .. => simp [Callee.mentions] at hs
  | .pointer e =>
      cases h with
      | pointer he => exact e.names_of_codeAt he hs

theorem names_of_objectAt (object : Option Expr) {i j : Nat} (h : ObjectAt scope r object i j)
    (hs : .literal s ∈ mentionsOfObject object) : r.Names s := by
  match object with
  | none => cases hs
  | some e =>
      cases h with
      | some he => exact e.names_of_codeAt he hs

theorem names_of_argsAt (args : List Expr) {i j : Nat} (h : ArgsAt scope r args i j)
    (hs : .literal s ∈ mentionsOfArgs args) : r.Names s := by
  match args with
  | [] => cases hs
  | e :: rest =>
      simp only [mentionsOfArgs, List.mem_append] at hs
      cases h with
      | cons hrest he =>
          rcases hs with hs | hs
          · exact e.names_of_codeAt he hs
          · exact names_of_argsAt rest hrest hs

end

theorem Expr.names_of_refAt {e : Expr} {i j : Nat} (h : e.RefAt scope r i j)
    (hs : .literal s ∈ e.mentions) : r.Names s := by
  induction h with
  | ident => simp [mentions] at hs
  | field hb =>
      simp only [mentions, List.mem_append, List.mem_singleton, reduceCtorEq, or_false] at hs
      exact names_of_codeAt _ hb hs
  | index he hb hi ih =>
      simp only [mentions, List.mem_append] at hs
      rcases hs with hs | hs
      · exact ih hs
      · exact names_of_codeAt _ he hs

theorem names_of_guardAt {exit i j : Nat} {condition : Option Expr}
    (h : GuardAt scope r exit condition i j) (hs : .literal s ∈ mentionsOfObject condition) :
    r.Names s := by
  cases h with
  | none => cases hs
  | @always e _ he =>
      unfold Expr.isAlwaysTrue at he
      split at he
      all_goals simp [mentionsOfObject, Expr.mentions] at he hs
  | test he => exact Expr.names_of_codeAt _ he hs

theorem literal_notMem_names (names : List (Located String)) :
    .literal s ∉ mentionsOfNames names := by
  simp [mentionsOfNames]

mutual

theorem Stmt.names_of_codeAt (stmt : Stmt) {loop : Option LoopTargets} {i j : Nat}
    (h : stmt.CodeAt scope r loop i j) (hs : .literal s ∈ stmt.mentions) : r.Names s := by
  match stmt with
  | .block _ body =>
      cases h with
      | block hb => exact names_of_bodyAt body hb hs
  | .ifElse _ e yes none =>
      simp only [Stmt.mentions, List.mem_append] at hs
      cases h with
      | ifThen he hj hy =>
          rcases hs with (hs | hs) | hs
          · exact e.names_of_codeAt he hs
          · exact yes.names_of_codeAt hy hs
          · cases hs
  | .ifElse _ e yes (some no) =>
      simp only [Stmt.mentions, List.mem_append] at hs
      cases h with
      | ifElse he hj hy hjy hn =>
          rcases hs with (hs | hs) | hs
          · exact e.names_of_codeAt he hs
          · exact yes.names_of_codeAt hy hs
          · exact no.names_of_codeAt hn hs
  | .whileLoop _ e body =>
      simp only [Stmt.mentions, List.mem_append] at hs
      cases h with
      | whileLoop hg hb =>
          rcases hs with hs | hs
          · exact names_of_guardAt hg hs
          · exact body.names_of_codeAt hb hs
  | .forLoop _ init e step body =>
      simp only [Stmt.mentions, List.mem_append] at hs
      cases h with
      | forLoop hi hg hb hst =>
          rcases hs with ((hs | hs) | hs) | hs
          · exact names_of_clauseAt init hi hs
          · exact names_of_guardAt hg hs
          · exact names_of_clauseAt step hst hs
          · exact body.names_of_codeAt hb hs
  | .foreach _ item e body =>
      simp only [Stmt.mentions, List.mem_append, List.mem_cons, reduceCtorEq, false_or] at hs
      cases h with
      | foreach he hf hel hst hb =>
          rcases hs with hs | hs
          · exact e.names_of_codeAt he hs
          · exact body.names_of_codeAt hb hs
  | .ret _ none | .waitFrame _ | .breakLoop _ | .continueLoop _ | .empty _ => cases hs
  | .ret _ (some e) =>
      cases h with
      | giveBack he => exact e.names_of_codeAt he hs
  | .wait _ e =>
      cases h with
      | wait he => exact e.names_of_codeAt he hs
  | .waitTill _ object event targets =>
      simp only [Stmt.mentions, List.mem_append] at hs
      cases h with
      | waitTill he ho =>
          rcases hs with (hs | hs) | hs
          · exact object.names_of_codeAt ho hs
          · exact event.names_of_codeAt he hs
          · exact (literal_notMem_names targets hs).elim
  | .notify _ object event args =>
      simp only [Stmt.mentions, List.mem_append] at hs
      cases h with
      | notify hp ha he ho =>
          rcases hs with (hs | hs) | hs
          · exact object.names_of_codeAt ho hs
          · exact event.names_of_codeAt he hs
          · exact names_of_argsAt args ha hs
  | .endOn _ object event =>
      simp only [Stmt.mentions, List.mem_append] at hs
      cases h with
      | endOn he ho =>
          rcases hs with hs | hs
          · exact object.names_of_codeAt ho hs
          · exact event.names_of_codeAt he hs
  | .assign _ target op value =>
      simp only [Stmt.mentions, List.mem_append] at hs
      cases h with
      | assign hv ht =>
          rcases hs with hs | hs
          · exact Expr.names_of_refAt ht hs
          · exact value.names_of_codeAt hv hs
      | compound hop ht hv =>
          rcases hs with hs | hs
          · exact target.names_of_codeAt ht hs
          · exact value.names_of_codeAt hv hs
  | .incDec _ target _ =>
      cases h with
      | incDec ht => exact Expr.names_of_refAt ht hs
  | .expr _ e =>
      cases h with
      | expr he => exact e.names_of_codeAt he hs

theorem names_of_bodyAt (body : List Stmt) {loop : Option LoopTargets} {i j : Nat}
    (h : BodyAt scope r loop body i j) (hs : .literal s ∈ mentionsOfBody body) : r.Names s := by
  match body with
  | [] => cases hs
  | stmt :: rest =>
      simp only [mentionsOfBody, List.mem_append] at hs
      cases h with
      | cons hstmt hrest =>
          rcases hs with hs | hs
          · exact stmt.names_of_codeAt hstmt hs
          · exact names_of_bodyAt rest hrest hs

theorem names_of_clauseAt (clause : Option Stmt) {loop : Option LoopTargets} {i j : Nat}
    (h : ClauseAt scope r loop clause i j) (hs : .literal s ∈ mentionsOfClause clause) :
    r.Names s := by
  match clause with
  | none => cases hs
  | some stmt =>
      cases h with
      | some hstmt => exact stmt.names_of_codeAt hstmt hs

end

end Literals

theorem Function.names_of_lower {scope : Scope} {f : Function} {s : String}
    (h : (f.lower scope).2 = []) (hs : .literal s ∈ f.mentions) : (f.lower scope).1.Names s := by
  obtain ⟨last, hcode⟩ := Function.codeOf_lower h
  refine names_of_bodyAt f.body hcode.body ?_
  simpa [mentions, literal_notMem_names] using hs

end Gsc
