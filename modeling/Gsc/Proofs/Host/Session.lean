import Gsc.Proofs.Host.Loading
import Gsc.Proofs.Inspection

/-! # Serving scripts from memory

A session is a server with scripts in memory, and requests that come in any order: scripts are put
in and taken out, loaded in all the ways a server knows, and forgotten by the cache. A request that
loads is a row of loads by name. So what is cached in the end was built by one of them, from the
bytes that the name had then, and has been cached ever since.
-/

namespace Gsc

structure Session where
  scripts : ScriptTable
  server : Server

inductive Request where
  | insert (name : String) (source : Bytes)
  | remove (name : String)
  | load (identifier : Identifier)
  | loadScript (kind : AssetKind) (name : String)
  | functionHandle (name function : String)
  | preload (names : Option (List String))
  | evict (name : String)
  | clear

namespace Session

def start (tokens : TokenTable) (pipeline : Pipeline) (scripts : ScriptTable) : Session :=
  ⟨scripts, .new tokens pipeline⟩

def source (s : Session) : ScriptSource Id := s.scripts.source

def cached (s : Session) (name : String) : Option Built := s.server.cache.get? name

def load (s : Session) (identifier : Identifier) : Except LoadError Built × Session :=
  let (result, server) := (s.server.load s.source identifier).run
  (result, { s with server })

def serve (s : Session) : Request → Session
  | .insert name source => { s with scripts := s.scripts.insert name source }
  | .remove name => { s with scripts := s.scripts.erase name }
  | .load identifier => (s.load identifier).2
  | .loadScript kind name => { s with server := (s.server.loadScript s.source kind name).run.2 }
  | .functionHandle name function =>
    { s with server := (s.server.functionHandle s.source name function).run.2 }
  | .preload names => { s with server := (s.server.preload s.source names).run.2 }
  | .evict name => { s with server := { s.server with cache := (s.server.cache.evict name).2 } }
  | .clear => { s with server := { s.server with cache := s.server.cache.clear } }

def run (s : Session) (requests : List Request) : Session := requests.foldl serve s

def resolved (s : Session) (identifier : Identifier) : List String :=
  (resolve identifier s.server.tokens).toOption.toList

def loads (s : Session) : Request → List String
  | .load identifier => s.resolved identifier
  | .loadScript kind name => if kind = .scriptFile then s.resolved (.parse name) else []
  | .functionHandle name _ => s.resolved (.parse name)
  | .preload (some names) => names
  | .preload none => sortNames (s.scripts.map (·.1))
  | _ => []

def loadCount (s : Session) : List Request → Nat
  | [] => 0
  | q :: rest => (s.loads q).length + (s.serve q).loadCount rest

end Session

namespace Server

/-! ## Rows of loads -/

def loadAll (scripts : ScriptTable) : Server → List String → Server
  | s, [] => s
  | s, name :: rest => loadAll scripts (s.loadName (m := Id) scripts.source name).run.2 rest

theorem run_preloadNames (scripts : ScriptTable) (s : Server) (names : List String) :
    (preloadNames (m := Id) scripts.source s names).run.2 = s.loadAll scripts names := by
  induction names generalizing s with
  | nil => rfl
  | cons name rest ih =>
      simp only [preloadNames, Id.run_bind, loadAll, ← ih]
      split <;> rfl

theorem run_preload (scripts : ScriptTable) (s : Server) (names : Option (List String)) :
    (s.preload (m := Id) scripts.source names).run.2
      = s.loadAll scripts (names.getD (sortNames (scripts.map (·.1)))) := by
  rw [← run_preloadNames]
  cases names <;> rfl

theorem run_load (scripts : ScriptTable) (s : Server) (identifier : Identifier) :
    (s.load (m := Id) scripts.source identifier).run.2
      = s.loadAll scripts (resolve identifier s.tokens).toOption.toList := by
  unfold load
  cases resolve identifier s.tokens <;> rfl

theorem run_loadScript (scripts : ScriptTable) (s : Server) (kind : AssetKind) (name : String) :
    (s.loadScript (m := Id) scripts.source kind name).run.2
      = if kind = .scriptFile then (s.load (m := Id) scripts.source (.parse name)).run.2
        else s := by
  unfold loadScript
  split
  · simp only [Id.run_bind]
    split <;> rfl
  · rfl

theorem run_functionHandle (scripts : ScriptTable) (s : Server) (name function : String) :
    (s.functionHandle (m := Id) scripts.source name function).run.2
      = (s.load (m := Id) scripts.source (.parse name)).run.2 :=
  rfl

/-- What a row of loads leaves behind. -/
structure LoadsAll (s : Server) (scripts : ScriptTable) (names : List String) (s' : Server) :
    Prop where
  tokens : s'.tokens = s.tokens
  pipeline : s'.pipeline = s.pipeline
  quiet : s'.cache.Quiet
  kept : ∀ n b, s.cache.get? n = some b → s'.cache.get? n = some b
  origin : ∀ n b, s'.cache.get? n = some b → s.cache.get? n = some b ∨
    s.cache.get? n = none ∧ n ∈ names ∧
      ∃ source, scripts.lookup n = some source ∧ s.pipeline.build n source = .ok b.artifact
  asked : s'.cache.stats.hits + s'.cache.stats.misses
    = s.cache.stats.hits + s.cache.stats.misses + names.length
  built : s.cache.stats.builds = s.cache.stats.misses →
    s'.cache.stats.builds = s'.cache.stats.misses

theorem loadsAll_loadAll {s : Server} (h : s.cache.Quiet) (scripts : ScriptTable)
    (names : List String) : s.LoadsAll scripts names (s.loadAll scripts names) := by
  induction names generalizing s with
  | nil => exact ⟨rfl, rfl, h, fun _ _ hb => hb, fun _ _ hb => .inl hb, rfl, id⟩
  | cons name rest ih =>
      obtain ⟨result, c, hrun, hquiet, hload⟩ := loads_of_quiet h scripts.source name
      have hrest := ih (s := { s with cache := c }) hquiet
      simp only [loadAll, hrun]
      refine ⟨hrest.tokens, hrest.pipeline, hrest.quiet, ?_, ?_, ?_, ?_⟩
      · intro n b hb
        exact hrest.kept n b (hload.get?_of_some hb)
      · intro n b hb
        rcases hrest.origin n b hb with hb | ⟨hnone, hmem, hsource⟩
        · rcases hload.origin hb with hb | ⟨rfl, hnone, -, source, hfound, hbuild⟩
          · exact .inl hb
          · exact .inr ⟨hnone, List.mem_cons_self, source, Except.ok.inj hfound, hbuild⟩
        · by_cases hold : s.cache.get? n = none
          · exact .inr ⟨hold, List.mem_cons_of_mem _ hmem, hsource⟩
          · obtain ⟨old, hold⟩ := Option.ne_none_iff_exists'.1 hold
            cases hnone.symm.trans (hload.get?_of_some hold)
      · have hstats := hload.stats.1
        have hasked := hrest.asked
        simp only [List.length_cons] at hasked ⊢
        omega
      · intro hbuilt
        exact hrest.built (hload.stats.2 hbuilt)

end Server

/-! ## Forgetting -/

namespace Cache.Quiet

variable {α : Type} {c : Cache α}

theorem empty : (Cache.empty : Cache α).Quiet := ⟨.empty, represents_empty, rfl⟩

theorem evict (h : c.Quiet) (name : String) :
    (c.evict name).2.Quiet ∧ (c.evict name).2.stats = c.stats ∧
      ∀ n, (c.evict name).2.get? n = if n = name then none else c.get? n := by
  obtain ⟨r, hr, hquiet⟩ := h
  by_cases hp : name ∈ r.published
  · obtain ⟨-, -, hevicted⟩ := hr.evict hp
    refine ⟨⟨_, hevicted, hquiet⟩, hevicted.stats.trans hr.stats.symm, fun n => ?_⟩
    rw [hevicted.get?_eq, hr.get?_eq]
    split
    · subst_vars
      exact Finmap.lookup_erase _ _
    · exact Finmap.lookup_erase_ne ‹_›
  · rw [hr.evict_of_notMem hp]
    refine ⟨⟨r, hr, hquiet⟩, rfl, fun n => ?_⟩
    split
    · subst_vars
      rw [hr.get?_eq, Finmap.lookup_eq_none.2 hp]
    · rfl

theorem clear (h : c.Quiet) : c.clear.Quiet ∧ ∀ n, c.clear.get? n = none := by
  obtain ⟨r, hr, hquiet⟩ := h
  refine ⟨⟨_, hr.clear.2, hquiet⟩, fun n => ?_⟩
  rw [hr.clear.2.get?_eq]
  exact Finmap.lookup_empty n

end Cache.Quiet

/-! ## Requests -/

namespace Session

/-- Every request but those that make the cache forget is a row of loads. -/
theorem server_serve (s : Session) {q : Request} (he : ∀ name, q ≠ .evict name)
    (hc : q ≠ .clear) : (s.serve q).server = s.server.loadAll s.scripts (s.loads q) := by
  cases q with
  | insert name source => rfl
  | remove name => rfl
  | load identifier => exact s.server.run_load s.scripts identifier
  | loadScript kind name =>
      have h := s.server.run_loadScript s.scripts kind name
      rw [s.server.run_load s.scripts] at h
      simp only [serve, loads]
      rw [source, h]
      split <;> rfl
  | functionHandle name function =>
      exact (s.server.run_functionHandle s.scripts name function).trans
        (s.server.run_load s.scripts (.parse name))
  | preload names =>
      have h := s.server.run_preload s.scripts names
      cases names <;> exact h
  | evict name => exact (he name rfl).elim
  | clear => exact (hc rfl).elim

/-- What a request leaves behind. -/
structure Serves (s : Session) (q : Request) (s' : Session) : Prop where
  tokens : s'.server.tokens = s.server.tokens
  pipeline : s'.server.pipeline = s.server.pipeline
  quiet : s'.server.cache.Quiet
  kept : ∀ n b, s.cached n = some b → q ≠ .evict n → q ≠ .clear → s'.cached n = some b
  origin : ∀ n b, s'.cached n = some b → s.cached n = some b ∨
    s.cached n = none ∧ n ∈ s.loads q ∧ ∃ source, s.scripts.lookup n = some source ∧
      s.server.pipeline.build n source = .ok b.artifact
  asked : s'.server.cache.stats.hits + s'.server.cache.stats.misses
    = s.server.cache.stats.hits + s.server.cache.stats.misses + (s.loads q).length
  built : s.server.cache.stats.builds = s.server.cache.stats.misses →
    s'.server.cache.stats.builds = s'.server.cache.stats.misses

theorem serves_serve {s : Session} (h : s.server.cache.Quiet) (q : Request) :
    s.Serves q (s.serve q) := by
  by_cases he : ∃ name, q = .evict name
  · obtain ⟨name, rfl⟩ := he
    obtain ⟨hquiet, hstats, hget⟩ := h.evict name
    have hne : ∀ n, Request.evict name ≠ .evict n → n ≠ name := by
      rintro n hn rfl
      exact hn rfl
    refine ⟨rfl, rfl, hquiet, ?_, ?_, ?_, ?_⟩
    · intro n b hb hn _
      simp only [cached, serve, hget, if_neg (hne n hn)]
      exact hb
    · intro n b hb
      simp only [cached, serve, hget] at hb
      split at hb
      · cases hb
      · exact .inl hb
    · simp [serve, loads, hstats]
    · simp [serve, hstats]
  · by_cases hc : q = .clear
    · subst hc
      obtain ⟨hquiet, hget⟩ := h.clear
      refine ⟨rfl, rfl, hquiet, ?_, ?_, rfl, id⟩
      · intro n b _ _ hn
        exact (hn rfl).elim
      · intro n b hb
        cases (hget n).symm.trans hb
    · have hserver := s.server_serve (fun name heq => he ⟨name, heq⟩) hc
      have hall := Server.loadsAll_loadAll h s.scripts (s.loads q)
      rw [← hserver] at hall
      exact ⟨hall.tokens, hall.pipeline, hall.quiet, fun n b hb _ _ => hall.kept n b hb,
        hall.origin, hall.asked, hall.built⟩

/-! ## Runs -/

theorem run_concat (s : Session) (requests : List Request) (q : Request) :
    s.run (requests ++ [q]) = (s.run requests).serve q := by
  simp [run]

/-- What stays the same, and what holds between requests. -/
theorem run_invariant {s : Session} (h : s.server.cache.Quiet) (requests : List Request) :
    (s.run requests).server.cache.Quiet ∧ (s.run requests).server.tokens = s.server.tokens ∧
      (s.run requests).server.pipeline = s.server.pipeline := by
  induction requests using List.reverseRecOn with
  | nil => exact ⟨h, rfl, rfl⟩
  | append_singleton requests q ih =>
      have hserves := serves_serve ih.1 q
      rw [run_concat]
      exact ⟨hserves.quiet, hserves.tokens.trans ih.2.1, hserves.pipeline.trans ih.2.2⟩

theorem stats_run {s : Session} (h : s.server.cache.Quiet) (requests : List Request) :
    (s.run requests).server.cache.stats.hits + (s.run requests).server.cache.stats.misses
        = s.server.cache.stats.hits + s.server.cache.stats.misses + s.loadCount requests ∧
      (s.server.cache.stats.builds = s.server.cache.stats.misses →
        (s.run requests).server.cache.stats.builds
          = (s.run requests).server.cache.stats.misses) := by
  induction requests generalizing s with
  | nil => exact ⟨rfl, id⟩
  | cons q rest ih =>
      have hserves := serves_serve h q
      obtain ⟨hasked, hbuilt⟩ := ih hserves.quiet
      have hfirst := hserves.asked
      refine ⟨?_, fun heq => hbuilt (hserves.built heq)⟩
      simp only [run, List.foldl_cons, loadCount] at hasked ⊢
      omega

/-- The request that built what is cached for `n`: it found no entry, and the one it made is there
after every later request. -/
structure BuiltBy (s : Session) (n : String) (b : Built) (before : List Request) (q : Request)
    (after : List Request) : Prop where
  loaded : n ∈ (s.run before).loads q
  absent : (s.run before).cached n = none
  built : ∃ source, (s.run before).scripts.lookup n = some source ∧
    s.server.pipeline.build n source = .ok b.artifact
  since : ∀ later, later <+: after → (s.run (before ++ q :: later)).cached n = some b

theorem exists_builtBy {s : Session} (h : s.server.cache.Quiet) (hempty : ∀ n, s.cached n = none)
    {requests : List Request} {n : String} {b : Built} (hb : (s.run requests).cached n = some b) :
    ∃ before q after, requests = before ++ q :: after ∧ s.BuiltBy n b before q after := by
  induction requests using List.reverseRecOn generalizing b with
  | nil => cases (hempty n).symm.trans hb
  | append_singleton requests q ih =>
      obtain ⟨hquiet, -, hpipeline⟩ := run_invariant h requests
      have hnow := hb
      rw [run_concat] at hb
      rcases (serves_serve hquiet q).origin n b hb with hold | ⟨hnone, hmem, hsource⟩
      · obtain ⟨before, first, after, rfl, hbuilt⟩ := ih hold
        refine ⟨before, first, after ++ [q], by simp, hbuilt.loaded, hbuilt.absent, hbuilt.built,
          ?_⟩
        intro later hlater
        rcases List.prefix_concat_iff.1 hlater with rfl | hlater
        · simpa using hnow
        · exact hbuilt.since later hlater
      · rw [hpipeline] at hsource
        refine ⟨requests, q, [], rfl, hmem, hnone, hsource, ?_⟩
        intro later hlater
        rw [List.prefix_nil.1 hlater]
        exact hnow

/-! ## Sessions can be trusted -/

def loadName (s : Session) (name : String) : Except LoadError Built × Session :=
  let (result, server) := (s.server.loadName s.source name).run
  (result, { s with server })

/-- What one load of a name may do to the cache. -/
structure LoadOf (s : Session) (name : String) (result : Except LoadError Built) (s' : Session) :
    Prop where
  other : ∀ n, n ≠ name → s'.cached n = s.cached n
  own : s'.cached name = s.cached name ∨
    s.cached name = none ∧ ∃ b, result = .ok b ∧ s'.cached name = some b
  served : ∀ b, result = .ok b → s'.cached name = some b
  failed : ∀ e, result = .error e → ∀ n, s'.cached n = s.cached n

theorem loadOf_loadName {s : Session} (h : s.server.cache.Quiet) (name : String) :
    s.LoadOf name (s.loadName name).1 (s.loadName name).2 := by
  obtain ⟨result, c, hrun, -, hload⟩ := Server.loads_of_quiet h s.scripts.source name
  simp only [loadName, source, hrun]
  refine ⟨fun n hn => hload.get?_of_ne hn, ?_, ?_, ?_⟩
  · simp only [cached]
    cases hafter : c.get? name with
    | none =>
        cases hbefore : s.server.cache.get? name with
        | none => exact .inl rfl
        | some b => cases hafter.symm.trans (hload.get?_of_some hbefore)
    | some b =>
        rcases hload.origin hafter with hbefore | ⟨-, hnone, hok, -⟩
        · exact .inl hbefore.symm
        · exact .inr ⟨hnone, b, hok, rfl⟩
  · rintro b rfl
    exact hload.get?_of_ok
  · rintro e rfl n
    exact hload.get?_of_error n

/-- What can be said about the session that any requests lead to. -/
structure Trusted (s : Session) (requests : List Request) (now : Session) : Prop where
  /-- Every cached script is under its own name, and one request of the run built it. -/
  named : ∀ n b, now.cached n = some b → b.artifact.name = n
  builtBy : ∀ n b, now.cached n = some b →
    ∃ before q after, requests = before ++ q :: after ∧ s.BuiltBy n b before q after
  /-- Nothing but evicting it or clearing the cache takes a script out or changes it. -/
  kept : ∀ n b q, now.cached n = some b → q ≠ .evict n → q ≠ .clear →
    (now.serve q).cached n = some b
  /-- Every load is one of a name, unless its identifier has none. -/
  load : ∀ identifier, now.load identifier
    = match resolve identifier s.server.tokens with
      | .ok name => now.loadName name
      | .error e => (.error (.resolve e), now)
  loadScript : ∀ kind name, now.serve (.loadScript kind name)
    = if kind = .scriptFile then (now.load (.parse name)).2 else now
  functionHandle : ∀ name function, now.serve (.functionHandle name function)
    = (now.load (.parse name)).2
  preload : ∀ names, now.serve (.preload names)
    = (now.loads (.preload names)).foldl (fun s n => (s.loadName n).2) now
  loadOf : ∀ name, now.LoadOf name (now.loadName name).1 (now.loadName name).2
  /-- The counters tell how often names were loaded and built. -/
  builds : now.server.cache.stats.builds = now.server.cache.stats.misses
  asked : now.server.cache.stats.hits + now.server.cache.stats.misses = s.loadCount requests

theorem foldl_loadName (s : Session) (names : List String) :
    names.foldl (fun s n => (s.loadName n).2) s
      = { s with server := s.server.loadAll s.scripts names } := by
  induction names generalizing s with
  | nil => rfl
  | cons name rest ih => exact ih _

/-- Whatever the opcodes and the encoder are, and whatever is asked for, the cache holds what was
built under the name it is kept under, from what the source held then. -/
theorem trusted_run (tokens : TokenTable) (pipeline : Pipeline) (scripts : ScriptTable)
    (requests : List Request) :
    (start tokens pipeline scripts).Trusted requests
      ((start tokens pipeline scripts).run requests) := by
  have hstart : (start tokens pipeline scripts).server.cache.Quiet := Cache.Quiet.empty
  have hempty : ∀ n, (start tokens pipeline scripts).cached n = none := fun _ => rfl
  have hzero : (start tokens pipeline scripts).server.cache.stats = ⟨0, 0, 0, 0⟩ := rfl
  generalize start tokens pipeline scripts = s at hstart hempty hzero ⊢
  obtain ⟨hquiet, htokens, -⟩ := run_invariant hstart requests
  obtain ⟨hasked, hbuilds⟩ := stats_run hstart requests
  rw [hzero] at hasked hbuilds
  constructor
  case named =>
    intro n b hb
    obtain ⟨before, q, after, -, hbuilt⟩ := exists_builtBy hstart hempty hb
    obtain ⟨source, -, hbuild⟩ := hbuilt.built
    obtain ⟨program, image, -, -, hpack⟩ := buildWith_eq_ok hbuild
    rw [(Artifact.pack_eq_ok hpack).1]
  case builtBy => exact fun n b hb => exists_builtBy hstart hempty hb
  case kept => exact fun n b q => (serves_serve hquiet q).kept n b
  case load =>
    intro identifier
    rw [← htokens]
    unfold load Server.load
    cases resolve identifier (s.run requests).server.tokens <;> rfl
  case loadScript =>
    intro kind name
    have h := (s.run requests).server.run_loadScript (s.run requests).scripts kind name
    simp only [serve, source, h]
    split <;> rfl
  case functionHandle => exact fun name function => rfl
  case preload =>
    intro names
    have h := (s.run requests).server_serve (q := .preload names) nofun nofun
    rw [foldl_loadName, ← h]
    rfl
  case loadOf => exact fun name => loadOf_loadName hquiet name
  case builds => exact hbuilds rfl
  case asked => simpa using hasked

end Session

end Gsc
