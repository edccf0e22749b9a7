import Gsc.Proofs.Except
import Gsc.Proofs.Lowering.Invariants
import Gsc.Script.Parse

/-! # What lowering reports

A number that no instruction can push and a variable that never gets a value are reported where they
stand, or the part of the function around them is refused. The one exception is a number that is the
whole condition of a loop: it is never looked at, since the loop needs no test.
-/

namespace Gsc

/-! ## Functions -/

namespace Function

variable {scope : Scope} {f : Function}

theorem answered_lower : ∀ v ∈ f.visits scope, v.Answered (f.draft scope).slots (f.lower scope).2 :=
  (f.runs_draft scope).answered

theorem mem_uses_of_visits {u : Use} (h : .use u ∈ f.visits scope) : u ∈ f.uses := by
  rw [uses, ← uses_visitsOfBody scope, List.mem_flatMap]
  exact ⟨_, h, List.mem_singleton_self _⟩

/-- Only parameters, variables that are given a value, and loops have slots. -/
theorem mem_names_draft {x : String} (h : x ∈ (f.draft scope).slots.names.toList) :
    x ∈ f.params.map Located.value ∨ .define x ∈ f.uses ∨
      ∃ n < f.arrayLoops.length, x ∈ ArraySlots.names n := by
  have hloops := (f.runs_draft scope).arrayLoops_eq
  rw [arrayLoops_emit_start, Nat.zero_add] at hloops
  rcases (f.runs_draft scope).mem_names h with hparam | hdefine | ⟨n, hn, hx⟩
  · have hstart : x ∈ f.start.slots.names.toList := hparam
    rw [names_start] at hstart
    exact .inl (List.mem_eraseDups.1 (List.mem_of_mem_take hstart))
  · exact .inr (.inl (mem_uses_of_visits hdefine))
  · exact .inr (.inr ⟨n, hloops ▸ hn, hx⟩)

end Function

/-- The finding is about a part of the function that was refused with the use inside. -/
def Function.Refuses (scope : Scope) (f : Function) (u : Use) (finding : Finding) : Prop :=
  ∃ skipped, .refusal finding skipped ∈ f.visits scope ∧ u ∈ skipped

/-- What is wrong with a use is reported, unless a part around it is refused. -/
theorem Function.answered_of_mem_uses (scope : Scope) {f : Function} {u : Use} (h : u ∈ f.uses) :
    (Visit.use u).Answered (f.draft scope).slots (f.lower scope).2 ∨
      ∃ finding ∈ (f.lower scope).2, f.Refuses scope u finding := by
  rcases visited_of_mem_uses scope h with hvisit | ⟨finding, skipped, hvisit, hu⟩
  · exact .inl (answered_lower _ hvisit)
  · exact .inr ⟨finding, answered_lower _ hvisit, skipped, hvisit, hu⟩

/-! ## Scripts -/

namespace Script

theorem mem_findings {name : String} {s : Script} {f : Function} {finding : Finding}
    (hf : f ∈ firsts [] s.functions) (h : finding ∈ (f.lower s.scope).2) :
    finding ∈ (s.lower name).2 :=
  List.mem_append_right _ (List.mem_flatMap.2 ⟨_, List.mem_map_of_mem hf, h⟩)

/-- A function is the first of its name or is reported. -/
theorem mem_firsts_or_duplicates (seen : List String) {functions : List Function} {f : Function}
    (h : f ∈ functions) : f ∈ firsts seen functions ∨ f ∈ duplicates seen functions := by
  induction functions generalizing seen with
  | nil => cases h
  | cons g rest ih =>
      unfold firsts duplicates
      split
      · rcases List.mem_cons.1 h with rfl | h
        · exact .inr List.mem_cons_self
        · exact (ih seen h).imp_right (List.mem_cons_of_mem _)
      · rcases List.mem_cons.1 h with rfl | h
        · exact .inl List.mem_cons_self
        · exact (ih _ h).imp_left (List.mem_cons_of_mem _)

end Script

/-- A number that no instruction can push is reported, or a part around it is refused, or the whole
function is one too many of its name. Numbers that are the whole condition of a loop are left out,
for they are no `literal`. -/
theorem Script.finding_of_wide_literal (name : String) (s : Script) {f : Function}
    (hf : f ∈ s.functions) {span : Span} {value : Int} (hu : .literal span value ∈ f.uses)
    (hwide : ¬ IsWord value) :
    ∃ finding ∈ (s.lower name).2,
      (∃ shown, finding = ⟨.integerTooWide shown, span⟩) ∨
        f.Refuses s.scope (.literal span value) finding ∨
        finding = ⟨.duplicateFunction f.name, f.nameSpan⟩ := by
  rcases mem_firsts_or_duplicates [] hf with hfirst | hrepeated
  · rcases Function.answered_of_mem_uses s.scope hu with hanswer | ⟨finding, hmem, hrefuse⟩
    · obtain ⟨shown, hmem⟩ := hanswer hwide
      exact ⟨_, mem_findings hfirst hmem, .inl ⟨shown, rfl⟩⟩
    · exact ⟨finding, mem_findings hfirst hmem, .inr (.inl hrefuse)⟩
  · exact ⟨_, List.mem_append_left _ (List.mem_map_of_mem hrepeated), .inr (.inr rfl)⟩

/-- A function that returns the number below the least one that can be pushed. -/
def returnsBelowLeast : Function :=
  ⟨"f", ⟨0, 1⟩, [],
    [.ret ⟨4, 23⟩ (some (.unary ⟨11, 22⟩ .neg (.int ⟨12, 22⟩ 2147483649)))], ⟨0, 24⟩⟩

theorem finding_of_returnsBelowLeast :
    .literal ⟨11, 22⟩ (-2147483649) ∈ returnsBelowLeast.uses ∧ ¬ IsWord (-2147483649) ∧
      ∃ finding ∈ (Script.lower "t" ⟨[], none, [returnsBelowLeast]⟩).2,
        (∃ shown, finding = ⟨.integerTooWide shown, ⟨11, 22⟩⟩) ∨
          returnsBelowLeast.Refuses ⟨["f"]⟩ (.literal ⟨11, 22⟩ (-2147483649)) finding ∨
          finding = ⟨.duplicateFunction "f", ⟨0, 1⟩⟩ := by
  have hu : .literal ⟨11, 22⟩ (-2147483649) ∈ returnsBelowLeast.uses := by decide
  have hwide : ¬ IsWord (-2147483649) := by decide
  exact ⟨hu, hwide, Script.finding_of_wide_literal "t" ⟨[], none, [returnsBelowLeast]⟩
    (List.mem_singleton_self _) hu hwide⟩

/-- A number that is the whole condition of a loop may be as wide as it likes. -/
theorem no_finding_of_wide_condition :
    ∃ s, Script.parse "f()\x7bwhile(5000000000)\x7b\x7d\x7d" = .ok s ∧
      s.functions.map Function.uses = [[.condition ⟨10, 20⟩ 5000000000]] ∧
      ¬ IsWord 5000000000 ∧ (s.lower "t").2 = [] := by
  have hany : (Script.parse "f()\x7bwhile(5000000000)\x7b\x7d\x7d").toOption.any (fun s =>
      decide (s.functions.map Function.uses = [[.condition ⟨10, 20⟩ 5000000000]] ∧
        (s.lower "t").2 = [])) = true := by
    decide +kernel
  obtain ⟨s, hparse, hs⟩ := exists_ok_of_any hany
  obtain ⟨huses, hclean⟩ := of_decide_eq_true hs
  exact ⟨s, hparse, huses, by decide, hclean⟩

/-- A variable that is read but never given a value is reported where it is read, or a part around
it is refused. -/
theorem Script.finding_of_unassigned_read (name : String) (s : Script) {f : Function}
    (hf : f ∈ Script.firsts [] s.functions) {span : Span} {x : String}
    (hu : .read span x ∈ f.uses) (hparam : x ∉ f.params.map Located.value)
    (hdefine : .define x ∉ f.uses) (hloop : ∀ n < f.arrayLoops.length, x ∉ ArraySlots.names n) :
    ∃ finding ∈ (s.lower name).2,
      finding = ⟨.usedBeforeAssigned x, span⟩ ∨ f.Refuses s.scope (.read span x) finding := by
  rcases Function.answered_of_mem_uses s.scope hu with hanswer | ⟨finding, hmem, hrefuse⟩
  · refine ⟨_, mem_findings hf (hanswer (Slots.find?_eq_none_iff.2 fun hslot => ?_)), .inl rfl⟩
    rcases Function.mem_names_draft hslot with h | h | ⟨n, hn, hx⟩
    · exact hparam h
    · exact hdefine h
    · exact hloop n hn hx
  · exact ⟨finding, mem_findings hf hmem, .inr hrefuse⟩

/-- A function that stores one variable in another and passes a third to a function that is not
there. -/
def readsTwo : Function :=
  ⟨"f", ⟨0, 1⟩, [],
    [.assign ⟨4, 8⟩ (.ident ⟨4, 5⟩ "y") .assign (.ident ⟨6, 7⟩ "x"),
      .expr ⟨8, 13⟩ (.call ⟨8, 12⟩ none false (.named "g") [.ident ⟨10, 11⟩ "z"])], ⟨0, 14⟩⟩

theorem finding_of_readsTwo :
    (∃ finding ∈ (Script.lower "t" ⟨[], none, [readsTwo]⟩).2,
      finding = ⟨.usedBeforeAssigned "x", ⟨6, 7⟩⟩ ∨
        readsTwo.Refuses ⟨["f"]⟩ (.read ⟨6, 7⟩ "x") finding) ∧
      ∃ finding ∈ (Script.lower "t" ⟨[], none, [readsTwo]⟩).2,
        finding = ⟨.usedBeforeAssigned "z", ⟨10, 11⟩⟩ ∨
          readsTwo.Refuses ⟨["f"]⟩ (.read ⟨10, 11⟩ "z") finding := by
  have hfirst : readsTwo ∈ Script.firsts [] [readsTwo] := List.mem_singleton_self _
  have hnone : ∀ {x : String}, ∀ n < readsTwo.arrayLoops.length, x ∉ ArraySlots.names n :=
    fun n hn => absurd hn (Nat.not_lt_zero n)
  exact ⟨Script.finding_of_unassigned_read "t" ⟨[], none, [readsTwo]⟩ hfirst (by decide)
      (by decide) (by decide) hnone,
    Script.finding_of_unassigned_read "t" ⟨[], none, [readsTwo]⟩ hfirst (by decide)
      (by decide) (by decide) hnone⟩

/-- Nothing is said about the argument of a call that is refused. -/
theorem no_finding_of_refused_argument :
    ∃ s, Script.parse "f()\x7bnothere(x);\x7d" = .ok s ∧
      s.functions.map Function.uses = [[.read ⟨12, 13⟩ "x"]] ∧
      (s.lower "t").2 = [⟨.unknownFunction "nothere", ⟨4, 14⟩⟩] := by
  have hany : (Script.parse "f()\x7bnothere(x);\x7d").toOption.any (fun s =>
      decide (s.functions.map Function.uses = [[.read ⟨12, 13⟩ "x"]] ∧
        (s.lower "t").2 = [⟨.unknownFunction "nothere", ⟨4, 14⟩⟩])) = true := by
    decide +kernel
  obtain ⟨s, hparse, hs⟩ := exists_ok_of_any hany
  obtain ⟨huses, hfindings⟩ := of_decide_eq_true hs
  exact ⟨s, hparse, huses, hfindings⟩

end Gsc
