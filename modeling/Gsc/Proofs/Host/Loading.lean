import Gsc.Host.Server
import Gsc.Proofs.Host.Publication

/-! # One load of a script

A load of a name is a hit if the name is cached. Else it asks the source and builds what it gets,
and a script that could be built is cached from then on.
-/

namespace Gsc

/-- No build is under way. -/
def Cache.Quiet {α : Type} (c : Cache α) : Prop := ∃ r : Ledger α, c.Represents r ∧ r.inFlight = ∅

namespace Server

variable {s : Server} {name : String} {found : Except SourceError (Option Bytes)}

/-- A load finds its name in the cache, or it builds what the source has found. -/
inductive Loads (s : Server) (found : Except SourceError (Option Bytes)) (name : String) :
    Except LoadError Built → Cache Built → Prop
  | hit {b : Built} {c : Cache Built} (hb : s.cache.get? name = some b)
      (hget : ∀ n, c.get? n = s.cache.get? n)
      (hstats : c.stats = { s.cache.stats with hits := s.cache.stats.hits + 1 }) :
      s.Loads found name (.ok b) c
  | miss {result : Except LoadError Built} {c : Cache Built} (hnone : s.cache.get? name = none)
      (hresult : result = buildFound s.pipeline (s.cache.stats.builds + 1) name found)
      (hget : ∀ n, c.get? n = if n = name then result.toOption else s.cache.get? n)
      (hhits : c.stats.hits = s.cache.stats.hits)
      (hmisses : c.stats.misses = s.cache.stats.misses + 1)
      (hbuilds : c.stats.builds = s.cache.stats.builds + 1) :
      s.Loads found name result c

theorem exists_source_of_buildFound {p : Pipeline} {serial : Nat} {b : Built}
    (h : buildFound p serial name found = .ok b) :
    ∃ source, found = .ok (some source) ∧ p.build name source = .ok b.artifact := by
  rcases found with e | _ | source
  · cases h
  · cases h
  · cases hbuild : p.build name source with
    | error e => simp [buildFound, hbuild] at h
    | ok artifact =>
        simp only [buildFound, hbuild, Except.ok.injEq] at h
        subst h
        exact ⟨source, rfl, hbuild⟩

theorem loads_loadName {r : Ledger Built} (hr : s.cache.Represents r) (source : ScriptSource Id)
    (name : String) :
    ∃ result c r', (s.loadName source name).run = (result, { s with cache := c }) ∧
      c.Represents r' ∧ r'.inFlight ⊆ r.inFlight ∧
      s.Loads (source.fetch name).run name result c := by
  cases hp : r.published.lookup name with
  | some b =>
      obtain ⟨serial, hs⟩ := hr.lookup_eq_ready hp
      refine ⟨.ok b, _, r.hit, by simp [loadName, Cache.getOrBuild_of_ready hs], hr.hit,
        Finset.Subset.refl _, ?_⟩
      refine .hit (by rw [hr.get?_eq, hp]) (fun n => ?_) rfl
      rw [hr.hit.get?_eq, hr.get?_eq]
      rfl
  | none =>
      obtain ⟨serial, locked, c, hopen, hlocked, hc⟩ := hr.enter hp
      have hstats : (c.start serial).stats = (r.begin name).stats := hc.stats
      obtain ⟨hhits, hmisses, hbuilds⟩ := Ledger.stats_finish (r.begin name) name
        (buildFound s.pipeline (s.cache.stats.builds + 1) name (source.fetch name).run)
      obtain ⟨hsettled, -⟩ := hc.settle hlocked
        (buildFound s.pipeline (s.cache.stats.builds + 1) name (source.fetch name).run)
      refine ⟨_, _, _, ?_, hsettled, ?_, .miss ?_ rfl ?_ ?_ ?_ ?_⟩
      · simp [loadName, Cache.getOrBuild_of_empty hopen, hstats, Ledger.begin, hr.stats]
      · rw [Ledger.inFlight_finish]
        exact Finset.erase_insert_subset _ _
      · rw [hr.get?_eq, hp]
      · intro n
        have hbegin : (r.begin name).published.lookup name = none := hp
        rw [hsettled.get?_eq, Ledger.lookup_finish hbegin, hr.get?_eq]
        rfl
      · rw [hsettled.stats, hhits, hr.stats]
        rfl
      · rw [hsettled.stats, hmisses, hr.stats]
        rfl
      · rw [hsettled.stats, hbuilds, hr.stats]
        rfl

theorem loads_of_quiet (h : s.cache.Quiet) (source : ScriptSource Id) (name : String) :
    ∃ result c, (s.loadName source name).run = (result, { s with cache := c }) ∧ c.Quiet ∧
      s.Loads (source.fetch name).run name result c := by
  obtain ⟨r, hr, hquiet⟩ := h
  obtain ⟨result, c, r', hrun, hr', hflight, hload⟩ := loads_loadName hr source name
  exact ⟨result, c, hrun, ⟨r', hr', Finset.subset_empty.1 (hquiet ▸ hflight)⟩, hload⟩

namespace Loads

variable {result : Except LoadError Built} {c : Cache Built}

theorem get?_of_ne (h : s.Loads found name result c) {n : String} (hn : n ≠ name) :
    c.get? n = s.cache.get? n := by
  cases h with
  | hit hb hget hstats => exact hget n
  | miss hnone hresult hget hhits hmisses hbuilds => rw [hget, if_neg hn]

/-- What was cached stays as it is. -/
theorem get?_of_some (h : s.Loads found name result c) {n : String} {b : Built}
    (hb : s.cache.get? n = some b) : c.get? n = some b := by
  cases h with
  | hit _ hget hstats => rw [hget, hb]
  | miss hnone hresult hget hhits hmisses hbuilds =>
      have hn : n ≠ name := by
        rintro rfl
        cases hnone.symm.trans hb
      rw [hget, if_neg hn, hb]

/-- A load that gives an error caches nothing. -/
theorem get?_of_error {e : LoadError} (h : s.Loads found name (.error e) c) (n : String) :
    c.get? n = s.cache.get? n := by
  cases h with
  | miss hnone hresult hget hhits hmisses hbuilds =>
      rw [hget]
      split
      · subst_vars
        exact hnone.symm
      · rfl

/-- A name that is cached is not built again. -/
theorem of_cached (h : s.Loads found name result c) {b : Built} (hb : s.cache.get? name = some b) :
    result = .ok b ∧ c.stats = { s.cache.stats with hits := s.cache.stats.hits + 1 } := by
  cases h with
  | hit hb' hget hstats =>
      cases hb'.symm.trans hb
      exact ⟨rfl, hstats⟩
  | miss hnone hresult hget hhits hmisses hbuilds => cases hnone.symm.trans hb

theorem get?_of_ok {b : Built} (h : s.Loads found name (.ok b) c) : c.get? name = some b := by
  cases h with
  | hit hb hget hstats => rw [hget, hb]
  | miss hnone hresult hget hhits hmisses hbuilds =>
      rw [hget, if_pos rfl]
      rfl

/-- What is cached now and was not before is what the load gives, built from what was found. -/
theorem origin (h : s.Loads found name result c) {n : String} {b : Built}
    (hb : c.get? n = some b) :
    s.cache.get? n = some b ∨ n = name ∧ s.cache.get? n = none ∧ result = .ok b ∧
      ∃ source, found = .ok (some source) ∧ s.pipeline.build n source = .ok b.artifact := by
  cases h with
  | hit _ hget hstats => exact .inl ((hget n).symm.trans hb)
  | miss hnone hresult hget hhits hmisses hbuilds =>
      rw [hget] at hb
      split at hb
      · rename_i hn
        subst hn
        refine .inr ⟨rfl, hnone, ?_⟩
        cases result with
        | error e => cases hb
        | ok built =>
            cases hb
            refine ⟨rfl, ?_⟩
            exact exists_source_of_buildFound hresult.symm
      · exact .inl hb

theorem stats (h : s.Loads found name result c) :
    c.stats.hits + c.stats.misses = s.cache.stats.hits + s.cache.stats.misses + 1 ∧
      (s.cache.stats.builds = s.cache.stats.misses → c.stats.builds = c.stats.misses) := by
  cases h with
  | hit _ hget hstats =>
      rw [hstats]
      exact ⟨by dsimp only; omega, id⟩
  | miss hnone hresult hget hhits hmisses hbuilds => omega

end Loads

end Server

end Gsc
