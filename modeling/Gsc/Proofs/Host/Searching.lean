import Gsc.Host.ScriptSource
import Gsc.Proofs.Files.Walks

/-! # What a search of directories finds

A search goes through the directories in order, as long as the file of a script is missing. It ends
at the first one that has the file, and also where something else stands in the place of the file
or on the way to it.
-/

namespace Gsc.SearchPath

/-! ## Runs of a search -/

section Runs

variable {σ : Type} (files : Files (StateM σ))

theorem run_firstFound_cons (path : String) (paths : List String) (os : σ) :
    (firstFound files (path :: paths)).run os = match (files.read path).run os with
      | (.ok content, next) => (.ok (some content), next)
      | (.error .notFound, next) => (firstFound files paths).run next
      | (.error e, next) => (.error ⟨path, e⟩, next) := by
  rw [firstFound, StateT.run_bind]
  rcases (files.read path).run os with ⟨e | content, next⟩
  · cases e <;> rfl
  · rfl

theorem run_fetch {s : SearchPath} {name : String} (h : s.overrides.lookup name = none) (os : σ) :
    (s.fetch files name).run os = if Path.staysBelow name = true then
        (firstFound files (s.dirs.map (filePath · name))).run os
      else (.ok none, os) := by
  rw [fetch, h]
  dsimp only
  split <;> rfl

end Runs

/-! ## Searches in a tree -/

variable {t : FileTree Bytes} {s : SearchPath} {name : String}

/-- What comes out of the search for a script: nothing, if every directory lacks its file, or else
what the first directory gives that does not. -/
inductive Finds (t : FileTree Bytes) (name : String) :
    List String → Except SourceError (Option Bytes) → Prop
  | nothing {dirs : List String} (h : ∀ dir ∈ dirs, t.Lacks (filePath dir name)) :
      Finds t name dirs (.ok none)
  | script {dir : String} {content : Bytes} (before after : List String)
      (hbefore : ∀ d ∈ before, t.Lacks (filePath d name))
      (h : t.Holds (filePath dir name) content) :
      Finds t name (before ++ dir :: after) (.ok (some content))
  | barrier {dir : String} {e : FileError} (before after : List String)
      (hbefore : ∀ d ∈ before, t.Lacks (filePath d name))
      (h : t.Bars (filePath dir name) e) :
      Finds t name (before ++ dir :: after) (.error ⟨filePath dir name, e⟩)

theorem Finds.cons {dir : String} {dirs : List String} {r : Except SourceError (Option Bytes)}
    (hdir : t.Lacks (filePath dir name)) (h : Finds t name dirs r) :
    Finds t name (dir :: dirs) r := by
  cases h with
  | nothing h => exact .nothing (List.forall_mem_cons.2 ⟨hdir, h⟩)
  | script before after hbefore h =>
      exact .script (dir :: before) after (List.forall_mem_cons.2 ⟨hdir, hbefore⟩) h
  | barrier before after hbefore h =>
      exact .barrier (dir :: before) after (List.forall_mem_cons.2 ⟨hdir, hbefore⟩) h

theorem Finds.lacks {dirs : List String} (h : Finds t name dirs (.ok none)) :
    ∀ dir ∈ dirs, t.Lacks (filePath dir name) := by
  cases h with
  | nothing h => exact h

theorem exists_finds (t : FileTree Bytes) (name : String) (dirs : List String) :
    ∃ r, Finds t name dirs r := by
  induction dirs with
  | nil => exact ⟨_, .nothing (by simp)⟩
  | cons dir dirs ih =>
      rcases t.holds_or_lacks_or_bars (filePath dir name) with ⟨content, h⟩ | h | ⟨e, h⟩
      · exact ⟨_, .script [] dirs (by simp) h⟩
      · obtain ⟨r, hr⟩ := ih
        exact ⟨r, hr.cons h⟩
      · exact ⟨_, .barrier [] dirs (by simp) h⟩

theorem run_read (t : FileTree Bytes) (path : String) :
    (FileTree.files.read path).run t = (t.read path, t) := rfl

/-- Directories that lack the file make no difference. -/
theorem run_firstFound_append {before : List String}
    (h : ∀ dir ∈ before, t.Lacks (filePath dir name)) (dirs : List String) :
    (firstFound FileTree.files ((before ++ dirs).map (filePath · name))).run t
      = (firstFound FileTree.files (dirs.map (filePath · name))).run t := by
  induction before with
  | nil => rfl
  | cons dir before ih =>
      obtain ⟨hdir, hbefore⟩ := List.forall_mem_cons.1 h
      rw [List.cons_append, List.map_cons, run_firstFound_cons, run_read, hdir.read_eq]
      exact ih hbefore

theorem Finds.run_eq {dirs : List String} {r : Except SourceError (Option Bytes)}
    (h : Finds t name dirs r) :
    (firstFound FileTree.files (dirs.map (filePath · name))).run t = (r, t) := by
  cases h with
  | nothing h =>
      rw [← List.append_nil dirs, run_firstFound_append h]
      rfl
  | script before after hbefore h =>
      rw [run_firstFound_append hbefore, List.map_cons, run_firstFound_cons, run_read, h.read_eq]
  | barrier before after hbefore h =>
      rw [run_firstFound_append hbefore, List.map_cons, run_firstFound_cons, run_read, h.read_eq]
      cases h <;> rfl

theorem run_firstFound_iff {dirs : List String} {r : Except SourceError (Option Bytes)}
    {t' : FileTree Bytes} :
    (firstFound FileTree.files (dirs.map (filePath · name))).run t = (r, t') ↔
      t' = t ∧ Finds t name dirs r := by
  constructor
  · intro h
    obtain ⟨r', hr'⟩ := exists_finds t name dirs
    cases hr'.run_eq.symm.trans h
    exact ⟨rfl, hr'⟩
  · rintro ⟨rfl, h⟩
    exact h.run_eq

/-- The directories of a search hold the file of a script, or a name on the way is not there. -/
def Clear (t : FileTree Bytes) (name : String) (dirs : List String) : Prop :=
  ∀ dir ∈ dirs, ∀ e, ¬ t.Bars (filePath dir name) e

theorem Clear.exists_ok {dirs : List String} {r : Except SourceError (Option Bytes)}
    (hclear : Clear t name dirs) (h : Finds t name dirs r) : ∃ found, r = .ok found := by
  cases h with
  | nothing h => exact ⟨none, rfl⟩
  | script before after hbefore h => exact ⟨_, rfl⟩
  | barrier before after hbefore h => exact (hclear _ (by simp) _ h).elim

theorem clear_of_errorOf? {dirs : List String}
    (h : ∀ dir ∈ dirs, (errorOf? (t.read (filePath dir name))).getD .notFound = .notFound) :
    Clear t name dirs := by
  intro dir hdir e he
  have hread := h dir hdir
  rw [he.read_eq] at hread
  exact he.ne_notFound hread

/-- The first directory that has the file of a script has it with this content. -/
def Serves (t : FileTree Bytes) (name : String) (dirs : List String) (content : Bytes) : Prop :=
  ∃ before dir after, dirs = before ++ dir :: after ∧
    (∀ d ∈ before, ∀ c, ¬ t.Holds (filePath d name) c) ∧ t.Holds (filePath dir name) content

theorem Clear.finds_some_iff {dirs : List String} {content : Bytes}
    (hclear : Clear t name dirs) :
    Finds t name dirs (.ok (some content)) ↔ Serves t name dirs content := by
  constructor
  · intro h
    cases h with
    | script before after hbefore h =>
        refine ⟨before, _, after, rfl, fun d hd c hc => ?_, h⟩
        cases hc.read_eq.symm.trans (hbefore d hd).read_eq
  · rintro ⟨before, dir, after, rfl, hbefore, h⟩
    refine .script before after (fun d hd => ?_) h
    rcases t.holds_or_lacks_or_bars (filePath d name) with ⟨c, hc⟩ | hlacks | ⟨e, he⟩
    · exact (hbefore d hd c hc).elim
    · exact hlacks
    · exact (hclear d (List.mem_append_left _ hd) e he).elim

/-- The search for a script that has no path of its own gives what the first directory gives that
does not lack its file. If none of them has something else in its place or on the way to it, the
search does not fail: it gives the first file of the script there is, and nothing if there is
none. -/
theorem fetch_iff_finds (hno : s.overrides.lookup name = none)
    (hbelow : Path.staysBelow name = true) :
    (∀ r t', (s.fetch FileTree.files name).run t = (r, t') ↔ t' = t ∧ Finds t name s.dirs r) ∧
    (Clear t name s.dirs → ∃ found, (s.fetch FileTree.files name).run t = (.ok found, t) ∧
      ∀ content, found = some content ↔ Serves t name s.dirs content) := by
  have hrun : ∀ r t', (s.fetch FileTree.files name).run t = (r, t') ↔
      t' = t ∧ Finds t name s.dirs r := by
    intro r t'
    rw [run_fetch _ hno, if_pos hbelow]
    exact run_firstFound_iff
  refine ⟨hrun, fun hclear => ?_⟩
  obtain ⟨r, hfinds⟩ := exists_finds t name s.dirs
  obtain ⟨found, rfl⟩ := hclear.exists_ok hfinds
  have hfound := (hrun _ t).2 ⟨rfl, hfinds⟩
  refine ⟨found, hfound, fun content => ?_⟩
  rw [← hclear.finds_some_iff]
  constructor
  · rintro rfl
    exact hfinds
  · intro h
    cases hfound.symm.trans ((hrun _ t).2 ⟨rfl, h⟩)
    rfl

/-- Two directories with scripts. In the first one a file stands in the place of a directory, and a
directory in the place of a script. -/
def crossedTrees : FileTree Bytes :=
  .directory [
    ("a", .directory [("maps", .file []), ("y.gsc", .directory [])]),
    ("b", .directory [("maps", .directory [("x.gsc", .file [0x78])]), ("y.gsc", .file [0x79])])]

theorem fetch_iff_finds_crossedTrees :
    Clear crossedTrees "maps/x" ["gone", "b"] ∧
      ((⟨[], ["gone", "b"]⟩ : SearchPath).fetch FileTree.files "maps/x").run crossedTrees
        = (.ok (some [0x78]), crossedTrees) := by
  have hclear : Clear crossedTrees "maps/x" ["gone", "b"] := clear_of_errorOf? (by decide +kernel)
  have hgone : crossedTrees.read (filePath "gone" "maps/x") = .error .notFound :=
    eq_error_of_errorOf? (by decide +kernel)
  have hheld : crossedTrees.Holds (filePath "b" "maps/x") [0x78] :=
    FileTree.read_eq_ok_iff.1 (eq_ok_of_toOption (by decide +kernel))
  obtain ⟨found, hrun, hfound⟩ :=
    (fetch_iff_finds (s := ⟨[], ["gone", "b"]⟩) rfl (by decide +kernel)).2 hclear
  have hscript := (hfound [0x78]).2 ⟨["gone"], "b", [], rfl, ?_, hheld⟩
  · subst hscript
    exact ⟨hclear, hrun⟩
  · rintro d hd c hc
    obtain rfl := List.mem_singleton.1 hd
    cases hgone.symm.trans hc.read_eq

/-- What stands in the first directory keeps the search from the script in the second one. -/
theorem fetch_stops_crossedTrees :
    let search : SearchPath := ⟨[], ["a", "b"]⟩
    Path.staysBelow "maps/x" = true ∧ crossedTrees.Holds (filePath "b" "maps/x") [0x78] ∧
      ((search.fetch FileTree.files "maps/x").run crossedTrees).1
        = .error ⟨"a/maps/x.gsc", .notADirectory⟩ ∧
      Path.staysBelow "y" = true ∧ crossedTrees.Holds (filePath "b" "y") [0x79] ∧
      ((search.fetch FileTree.files "y").run crossedTrees).1
        = .error ⟨"a/y.gsc", .isADirectory⟩ := by
  refine ⟨by decide +kernel, ?_, ?_, by decide +kernel, ?_, ?_⟩
  · exact FileTree.read_eq_ok_iff.1 (eq_ok_of_toOption (by decide +kernel))
  · exact eq_error_of_errorOf? (by decide +kernel)
  · exact FileTree.read_eq_ok_iff.1 (eq_ok_of_toOption (by decide +kernel))
  · exact eq_error_of_errorOf? (by decide +kernel)

end Gsc.SearchPath
