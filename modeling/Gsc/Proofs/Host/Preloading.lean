import Gsc.Proofs.Except
import Gsc.Proofs.Host.Loading
import Gsc.Proofs.Naming.Numerals

/-! # Preloading and serving agree

What a name stands for at a server is the cached script, or else what becomes of building it from
its source. A load does not change what any name stands for, so that a report about many loads is
still true when the last of them is done.
-/

namespace Gsc

namespace Server

variable {s s' : Server} {source : ScriptSource Id} {name : String}

/-! ## What names stand for -/

/-- What becomes of a name: the cached script, or what building it gives. -/
def outcome (s : Server) (source : ScriptSource Id) (name : String) : Except LoadError Artifact :=
  match s.cache.get? name with
  | some b => .ok b.artifact
  | none => (buildFound s.pipeline 0 name (source.fetch name).run).map Built.artifact

theorem map_artifact_buildFound (p : Pipeline) (serial : Nat) (name : String)
    (found : Except SourceError (Option Bytes)) :
    (buildFound p serial name found).map Built.artifact
      = (buildFound p 0 name found).map Built.artifact := by
  rcases found with e | _ | bytes
  · rfl
  · rfl
  · simp only [buildFound]
    cases p.build name bytes with
    | ok artifact => rfl
    | error e => rfl

/-- A failure has the name of its script. -/
theorem name_of_outcome {f : LoadFailure} (h : s.outcome source name = .error (.failed f)) :
    f.name = name := by
  unfold outcome at h
  cases hget : s.cache.get? name with
  | some b => simp [hget] at h
  | none =>
      simp only [hget] at h
      rcases hfound : (source.fetch name).run with e | _ | bytes
      · rw [hfound] at h
        cases h
        rfl
      · rw [hfound] at h
        cases h
      · simp only [hfound, buildFound] at h
        cases hbuild : s.pipeline.build name bytes with
        | ok artifact =>
            rw [hbuild] at h
            cases h
        | error e =>
            rw [hbuild] at h
            cases h
            rfl

namespace Loads

variable {result : Except LoadError Built} {c : Cache Built}

theorem map_artifact (h : s.Loads (source.fetch name).run name result c) :
    result.map Built.artifact = s.outcome source name := by
  cases h with
  | hit hb hget hstats => simp only [outcome, hb, Except.map]
  | miss hnone hresult hget hhits hmisses hbuilds =>
      rw [hresult, map_artifact_buildFound]
      simp only [outcome, hnone]

/-- A load does not change what any name stands for. -/
theorem outcome_eq (h : s.Loads (source.fetch name).run name result c) (n : String) :
    { s with cache := c }.outcome source n = s.outcome source n := by
  have hsame := h.map_artifact
  by_cases hn : n = name
  · subst hn
    cases result with
    | ok b =>
        rw [← hsame]
        simp only [outcome, h.get?_of_ok, Except.map]
    | error e => simp only [outcome, h.get?_of_error]
  · simp only [outcome, h.get?_of_ne hn]

end Loads

/-! ## Reports -/

/-- A report says what becomes of the names of a list, and nothing else. -/
structure ReportsOn (outcome : String → Except LoadError Artifact) (names : List String)
    (report : PreloadReport) : Prop where
  loaded : ∀ p, p ∈ report.loaded ↔ ∃ n ∈ names, ∃ a, outcome n = .ok a ∧ entryPoints n a = p
  skipped : ∀ n, n ∈ report.skipped ↔
    n ∈ names ∧ ∃ e, outcome n = .error e ∧ e.isNotHandled = true
  failed : ∀ f, f ∈ report.failed ↔ ∃ n ∈ names, outcome n = .error (.failed f)

namespace ReportsOn

variable {outcome : String → Except LoadError Artifact} {names : List String}
  {report : PreloadReport}

theorem nil : ReportsOn outcome [] ⟨[], [], []⟩ := ⟨by simp, by simp, by simp⟩

theorem cons_ok (h : ReportsOn outcome names report) {a : Artifact} (ha : outcome name = .ok a) :
    ReportsOn outcome (name :: names)
      { report with loaded := entryPoints name a :: report.loaded } where
  loaded p := by simp [h.loaded, ha, eq_comm]
  skipped n := by
    rw [h.skipped]
    by_cases hn : n = name
    · simp [hn, ha]
    · simp [hn]
  failed f := by simp [h.failed, ha]

theorem cons_failed (h : ReportsOn outcome names report) {f : LoadFailure}
    (hf : outcome name = .error (.failed f)) :
    ReportsOn outcome (name :: names) { report with failed := f :: report.failed } where
  loaded p := by simp [h.loaded, hf]
  skipped n := by
    rw [h.skipped]
    by_cases hn : n = name
    · simp [hn, hf, LoadError.isNotHandled]
    · simp [hn]
  failed f' := by simp [h.failed, hf, eq_comm]

theorem cons_skipped (h : ReportsOn outcome names report) {e : LoadError}
    (he : outcome name = .error e) (hskip : e.isNotHandled = true) :
    ReportsOn outcome (name :: names) { report with skipped := name :: report.skipped } where
  loaded p := by simp [h.loaded, he]
  skipped n := by
    rw [List.mem_cons, h.skipped]
    by_cases hn : n = name
    · simp [hn, he, hskip]
    · simp [hn]
  failed f := by
    have hne : e ≠ .failed f := by
      rintro rfl
      cases hskip
    simp [h.failed, he, hne]

/-- Every name of the list is reported. -/
theorem mem_of_mem_names (h : ReportsOn (s.outcome source) names report) {n : String}
    (hn : n ∈ names) :
    (∃ p ∈ report.loaded, p.name = n) ∨ n ∈ report.skipped ∨ ∃ f ∈ report.failed, f.name = n := by
  cases houtcome : s.outcome source n with
  | ok a => exact .inl ⟨_, (h.loaded _).2 ⟨n, hn, a, houtcome, rfl⟩, rfl⟩
  | error e =>
      have hskipped : e.isNotHandled = true → n ∈ report.skipped :=
        fun hskip => (h.skipped n).2 ⟨hn, e, houtcome, hskip⟩
      cases e with
      | resolve e => exact .inr (.inl (hskipped rfl))
      | sourceNotFound n => exact .inr (.inl (hskipped rfl))
      | failed f =>
          have hfailed := (h.failed f).2 ⟨n, hn, houtcome⟩
          exact .inr (.inr ⟨f, hfailed, name_of_outcome houtcome⟩)

end ReportsOn

/-- What is left behind by a row of loads and the report about it. -/
structure Preloads (s : Server) (source : ScriptSource Id) (names : List String)
    (report : PreloadReport) (s' : Server) : Prop where
  tokens : s'.tokens = s.tokens
  outcome : ∀ n, s'.outcome source n = s.outcome source n
  kept : ∀ n b, s.cache.get? n = some b → s'.cache.get? n = some b
  cached : ∀ n ∈ names, ∀ a, s.outcome source n = .ok a → ∃ b, s'.cache.get? n = some b
  reports : ReportsOn (s.outcome source) names report

theorem preloads_preloadNames {r : Ledger Built} (hr : s.cache.Represents r)
    (source : ScriptSource Id) (names : List String) :
    ∃ report s' r', (preloadNames source s names).run = (report, s') ∧
      s'.cache.Represents r' ∧ s.Preloads source names report s' := by
  induction names generalizing s r with
  | nil => exact ⟨_, s, r, rfl, hr, rfl, fun _ => rfl, fun _ _ => id, by simp, .nil⟩
  | cons name rest ih =>
      obtain ⟨result, c, r₁, hrun, hr₁, -, hload⟩ := loads_loadName hr source name
      obtain ⟨report, s', r', hrun', hr', hpre⟩ := ih (s := { s with cache := c }) hr₁
      have hsame : { s with cache := c }.outcome source = s.outcome source :=
        funext hload.outcome_eq
      have hreports := hpre.reports
      rw [hsame] at hreports
      have hfirst := hload.map_artifact
      have hpreloads : ∀ report', ReportsOn (s.outcome source) (name :: rest) report' →
          s.Preloads source (name :: rest) report' s' := by
        intro report' hreport'
        refine ⟨hpre.tokens, fun n => by rw [hpre.outcome, hsame],
          fun n b hb => hpre.kept n b (hload.get?_of_some hb), ?_, hreport'⟩
        refine List.forall_mem_cons.2 ⟨fun a ha => ?_, by simpa only [hsame] using hpre.cached⟩
        rw [← hfirst] at ha
        cases result with
        | ok b => exact ⟨b, hpre.kept name b hload.get?_of_ok⟩
        | error e => cases ha
      simp only [preloadNames, Id.run_bind, hrun, hrun']
      rcases result with e | b
      · rcases e with e | n | f
        · exact ⟨_, s', r', rfl, hr', hpreloads _ (hreports.cons_skipped hfirst.symm rfl)⟩
        · exact ⟨_, s', r', rfl, hr', hpreloads _ (hreports.cons_skipped hfirst.symm rfl)⟩
        · exact ⟨_, s', r', rfl, hr', hpreloads _ (hreports.cons_failed hfirst.symm)⟩
      · exact ⟨_, s', r', rfl, hr', hpreloads _ (hreports.cons_ok hfirst.symm)⟩

/-! ## Serving what was preloaded -/

/-- The names to preload: those that are given, or all that the source has. -/
def listed (source : ScriptSource Id) : Option (List String) → Except SourceError (List String)
  | some names => .ok names
  | none => source.scan.run

theorem run_preload_eq (s : Server) (source : ScriptSource Id) (names : Option (List String)) :
    (s.preload source names).run = match listed source names with
      | .error e => (.error e, s)
      | .ok list =>
        (.ok (preloadNames source s list).run.1, (preloadNames source s list).run.2) := by
  cases names with
  | some names => rfl
  | none =>
      simp only [preload, Id.run_bind, listed]
      cases source.scan.run with
      | error e => rfl
      | ok list => rfl

/-- What a request for a script is answered after its name was loaded. -/
def answer : Except LoadError Built → Except LoadFailure (Option Built)
  | .ok b => .ok (some b)
  | .error (.failed f) => .error f
  | .error _ => .ok none

theorem answer_of_map {result : Except LoadError Built} {e : LoadError}
    (h : result.map Built.artifact = .error e) : answer result = answer (.error e) := by
  cases result with
  | ok b => cases h
  | error e' =>
      cases h
      rfl

/-- A request for a name that is resolved to itself loads the name. -/
theorem exists_run_loadScript {r : Ledger Built} (hr : s.cache.Represents r)
    (hresolve : resolve (.parse name) s.tokens = .ok name) :
    ∃ result s', (s.loadScript source .scriptFile name).run = (answer result, s') ∧
      s.Loads (source.fetch name).run name result s'.cache := by
  obtain ⟨result, c, -, hrun, -, -, hloads⟩ := loads_loadName hr source name
  refine ⟨result, { s with cache := c }, ?_, hloads⟩
  simp only [loadScript, if_true, load, hresolve, Id.run_bind, hrun]
  rcases result with (_ | _ | _) | _ <;> rfl

/-- After a row of loads, a request is answered by what its name stood for before them. -/
theorem Preloads.exists_run_loadScript {names : List String} {report : PreloadReport}
    (h : s.Preloads source names report s') {r : Ledger Built} (hr : s'.cache.Represents r)
    (hresolve : resolve (.parse name) s.tokens = .ok name) :
    ∃ result s'', (s'.loadScript source .scriptFile name).run = (answer result, s'') ∧
      s'.Loads (source.fetch name).run name result s''.cache ∧
      result.map Built.artifact = s.outcome source name := by
  rw [← h.tokens] at hresolve
  obtain ⟨result, s'', hanswer, hloads⟩ := Server.exists_run_loadScript hr hresolve
  exact ⟨result, s'', hanswer, hloads, hloads.map_artifact.trans (h.outcome name)⟩

/-- After preloading, a request for a name that is not resolved to another one is answered as the
report says: a script that was loaded comes from the cache, one that was skipped is left to others,
and one that failed fails in the same way. Every listed name is reported. What the cache held before
is open, and builds may be under way. -/
theorem preload_agrees {r : Ledger Built} (hr : s.cache.Represents r)
    {names : Option (List String)} {report : PreloadReport}
    (hrun : (s.preload source names).run = (.ok report, s')) :
    (∃ list, listed source names = .ok list ∧
      ∀ n ∈ list, (∃ p ∈ report.loaded, p.name = n) ∨ n ∈ report.skipped ∨
        ∃ f ∈ report.failed, f.name = n) ∧
    (∀ p ∈ report.loaded, resolve (.parse p.name) s.tokens = .ok p.name →
      ∃ b s'', (s'.loadScript source .scriptFile p.name).run = (.ok (some b), s'') ∧
        s'.cache.get? p.name = some b ∧
        s''.cache.stats = { s'.cache.stats with hits := s'.cache.stats.hits + 1 } ∧
        (b.artifact.function? "main").map (·.offset) = p.main ∧
        (b.artifact.function? "init").map (·.offset) = p.init) ∧
    (∀ n ∈ report.skipped, resolve (.parse n) s.tokens = .ok n →
      (s'.loadScript source .scriptFile n).run.1 = .ok none) ∧
    ∀ f ∈ report.failed, resolve (.parse f.name) s.tokens = .ok f.name →
      (s'.loadScript source .scriptFile f.name).run.1 = .error f := by
  obtain ⟨list, hlist⟩ : ∃ list, listed source names = .ok list := by
    cases hlist : listed source names with
    | ok list => exact ⟨list, rfl⟩
    | error e => simp [run_preload_eq, hlist] at hrun
  obtain ⟨report', s₁, r', hnames, hr', hpre⟩ := preloads_preloadNames hr source list
  simp only [run_preload_eq, hlist, hnames, Prod.mk.injEq, Except.ok.injEq] at hrun
  obtain ⟨rfl, rfl⟩ := hrun
  refine ⟨⟨list, hlist, fun n => hpre.reports.mem_of_mem_names⟩, fun p hp hresolve => ?_,
    fun n hn hresolve => ?_, fun f hfailed hresolve => ?_⟩
  · obtain ⟨n, hn, a, ha, rfl⟩ := (hpre.reports.loaded p).1 hp
    obtain ⟨result, s'', hanswer, hloads, hresult⟩ := hpre.exists_run_loadScript hr' hresolve
    obtain ⟨b, hb⟩ := hpre.cached n hn a ha
    obtain ⟨rfl, hstats⟩ := hloads.of_cached hb
    obtain rfl : b.artifact = a := Except.ok.inj (hresult.trans ha)
    exact ⟨b, s'', hanswer, hb, hstats, rfl, rfl⟩
  · obtain ⟨hn, e, he, hskip⟩ := (hpre.reports.skipped n).1 hn
    obtain ⟨result, s'', hanswer, -, hresult⟩ := hpre.exists_run_loadScript hr' hresolve
    rw [hanswer, answer_of_map (hresult.trans he)]
    rcases e with _ | _ | f
    · rfl
    · rfl
    · cases hskip
  · obtain ⟨n, hn, houtcome⟩ := (hpre.reports.failed f).1 hfailed
    obtain rfl := name_of_outcome houtcome
    obtain ⟨result, s'', hanswer, -, hresult⟩ := hpre.exists_run_loadScript hr' hresolve
    rw [hanswer, answer_of_map (hresult.trans houtcome)]
    rfl

def bareServer : Server := .new (.empty "") ⟨.v1, Deflate.storedStream⟩

def goodAndBad : ScriptSource Id :=
  ScriptTable.source
    [("good", Utf8.ofString "init()\x7b\x7dmain()\x7b\x7d"), ("bad", Utf8.ofString "main(")]

def fourNames : List String := ["good", "bad", "gone", "good"]

theorem preload_agrees_goodAndBad :
    ∃ report s', (bareServer.preload goodAndBad (some fourNames)).run = (.ok report, s') ∧
      (∃ p ∈ report.loaded, p.init = some 0 ∧
        ∃ b, (s'.loadScript goodAndBad .scriptFile "good").run.1 = .ok (some b) ∧
          (b.artifact.function? "init").map (·.offset) = p.init) ∧
      report.skipped = ["gone"] ∧
      (s'.loadScript goodAndBad .scriptFile "gone").run.1 = .ok none ∧
      ∃ f ∈ report.failed, f.name = "bad" ∧
        (s'.loadScript goodAndBad .scriptFile "bad").run.1 = .error f := by
  have hrun := bareServer.run_preload_eq goodAndBad (some fourNames)
  obtain ⟨-, hloaded, hskipped, hfailed⟩ := preload_agrees Cache.represents_empty hrun
  have hresolve : ∀ n ∈ fourNames, resolve (.parse n) bareServer.tokens = .ok n := by
    have hnone : ∀ n ∈ fourNames, (Identifier.parse n).token = none := by decide +kernel
    exact fun n hn => resolve_of_no_token (hnone n hn) _
  have hreport : let report := (preloadNames goodAndBad bareServer fourNames).run.1
      (∃ p ∈ report.loaded, p.name = "good" ∧ p.init = some 0) ∧ report.skipped = ["gone"] ∧
        ∃ f ∈ report.failed, f.name = "bad" := by decide +kernel
  obtain ⟨⟨p, hp, hname, hinit⟩, hgone, f, hf, hfname⟩ := hreport
  obtain ⟨b, s'', hserved, -, -, -, hoffset⟩ :=
    hloaded p hp (by rw [hname]; exact hresolve _ (by decide))
  refine ⟨_, _, hrun, ⟨p, hp, hinit, b, ?_, hoffset⟩, hgone, ?_, f, hf, hfname, ?_⟩
  · rw [← hname, hserved]
  · exact hskipped "gone" (by rw [hgone]; decide) (hresolve _ (by decide))
  · rw [← hfname]
    exact hfailed f hf (by rw [hfname]; exact hresolve _ (by decide))

def numbered : ScriptSource Id := ScriptTable.source [("7", Utf8.ofString "main()\x7b\x7d")]

/-- The script is preloaded, but a request for it is taken for one by number. -/
theorem numbered_preloaded_not_served :
    ∃ report s', (bareServer.preload numbered none).run = (.ok report, s') ∧
      report.loaded = [⟨"7", some 0, none⟩] ∧
      (s'.loadScript numbered .scriptFile "7").run.1 = .ok none := by
  have hrun := bareServer.run_preload_eq numbered none
  have hlist : listed numbered none = .ok ["7"] := rfl
  rw [hlist] at hrun
  exact ⟨_, _, hrun, by decide +kernel, eq_ok_of_toOption (by decide +kernel)⟩

end Server

end Gsc
