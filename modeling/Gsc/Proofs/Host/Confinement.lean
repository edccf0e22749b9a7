import Gsc.Proofs.Files.Paths
import Gsc.Proofs.Host.Searching

/-! # Searches stay in their directories

Every access to a file can be put on record. Whatever is asked for and whatever the files answer,
the record of a search has paths below the searched directories only.
-/

namespace Gsc

/-- Files with a record of every path that is opened, the last one at the end. -/
def Files.recorded {σ : Type} (files : Files (StateM σ)) : Files (StateM (List String × σ)) where
  read path := fun (opened, os) =>
    let (answer, os) := (files.read path).run os
    (answer, opened ++ [path], os)
  list path := fun (opened, os) =>
    let (answer, os) := (files.list path).run os
    (answer, opened ++ [path], os)
  write path content := fun (opened, os) =>
    let (answer, os) := (files.write path content).run os
    (answer, opened ++ [path], os)

namespace SearchPath

variable {σ : Type} {s : SearchPath} {name : String}

/-! ## The record of a search -/

theorem run_read_recorded (files : Files (StateM σ)) (path : String) (opened : List String)
    (os : σ) : (files.recorded.read path).run (opened, os)
      = (((files.read path).run os).1, opened ++ [path], ((files.read path).run os).2) := rfl

/-- The record makes no difference to a search, and has some of the first paths to be searched. -/
theorem exists_run_firstFound_recorded (files : Files (StateM σ)) (paths opened : List String)
    (os : σ) :
    ∃ more, more <+: paths ∧ (firstFound files.recorded paths).run (opened, os)
      = (((firstFound files paths).run os).1, opened ++ more,
        ((firstFound files paths).run os).2) := by
  induction paths generalizing opened os with
  | nil => exact ⟨[], List.nil_prefix, by rw [List.append_nil]; rfl⟩
  | cons path paths ih =>
      rw [run_firstFound_cons, run_firstFound_cons, run_read_recorded]
      rcases (files.read path).run os with ⟨e | content, next⟩
      · cases e with
        | notFound =>
            obtain ⟨more, hmore, hrun⟩ := ih (opened ++ [path]) next
            refine ⟨path :: more, List.cons_prefix_cons.2 ⟨rfl, hmore⟩, hrun.trans ?_⟩
            rw [List.append_assoc]
            rfl
        | _ => exact ⟨[path], List.prefix_append [path] paths, rfl⟩
      · exact ⟨[path], List.prefix_append [path] paths, rfl⟩

/-! ## Script files -/

/-- A path leads down from a directory: behind the directory stands a relative path without `..`,
and the names that the path leads through are those of the directory and others behind them. -/
def Below (path dir : String) : Prop :=
  ∃ rel, path = Path.join dir rel ∧ Path.isAbsolute rel = false ∧ ".." ∉ Path.segments rel ∧
    ∃ names, names ≠ [] ∧ Path.descent path = Path.descent dir ++ names

theorem relative_scriptFile (h : Path.isAbsolute name = false) :
    Path.isAbsolute (name ++ "." ++ extension) = false := by
  rw [String.append_assoc]
  exact Path.isAbsolute_append h rfl

/-- The last part of a script file is not one that leads nowhere or up. -/
theorem exists_segments_scriptFile (name : String) :
    ∃ init last, Path.segments name = init ++ [last] ∧
      Path.segments (name ++ "." ++ extension) = init ++ [last ++ ".gsc"] := by
  rw [String.append_assoc]
  exact Path.exists_segments_append (by decide) name

theorem below_filePath (h : Path.staysBelow name = true) (dir : String) :
    Below (filePath dir name) dir := by
  have hname : Path.isAbsolute name = false ∧ ".." ∉ Path.segments name := by
    simpa [Path.staysBelow] using h
  have hrel := relative_scriptFile hname.1
  obtain ⟨init, last, hsegments, hfile⟩ := exists_segments_scriptFile name
  have hshort : ∀ part : String, part.length ≤ 2 → last ++ ".gsc" ≠ part := by
    rintro part hpart rfl
    rw [String.length_append] at hpart
    have hending : ".gsc".length = 4 := rfl
    omega
  have hup : ".." ∉ Path.segments (name ++ "." ++ extension) := by
    rw [hfile, List.mem_append, List.mem_singleton]
    rintro (hmem | hlast)
    · exact hname.2 (hsegments ▸ List.mem_append_left _ hmem)
    · exact hshort ".." (by decide) hlast.symm
  refine ⟨_, rfl, hrel, hup, _, ?_, Path.descent_join hrel hup dir⟩
  have hlast : last ++ ".gsc" ∈ (Path.segments (name ++ "." ++ extension)).filter
      (! Path.isIdle ·) := by
    rw [hfile]
    simp [Path.isIdle, hshort "" (by decide), hshort "." (by decide)]
  exact List.ne_nil_of_mem hlast

/-- A search for a name that has no path of its own opens only paths below the directories of the
search, whatever the name is and whatever the files answer. -/
theorem fetch_opens_below (files : Files (StateM σ)) (hno : s.overrides.lookup name = none)
    (os : σ) :
    ∃ opened, (s.fetch files.recorded name).run ([], os)
        = (((s.fetch files name).run os).1, opened, ((s.fetch files name).run os).2) ∧
      ∀ path ∈ opened, ∃ dir ∈ s.dirs, Below path dir := by
  rw [run_fetch _ hno, run_fetch _ hno]
  split
  · rename_i hbelow
    obtain ⟨opened, hopened, hrun⟩ := exists_run_firstFound_recorded files
      (s.dirs.map (filePath · name)) [] os
    refine ⟨opened, hrun, fun path hpath => ?_⟩
    obtain ⟨dir, hdir, rfl⟩ := List.mem_map.1 (hopened.subset hpath)
    exact ⟨dir, hdir, below_filePath hbelow dir⟩
  · exact ⟨[], rfl, by simp⟩

theorem fetch_opens_below_empty :
    let s : SearchPath := ⟨[("k", "/etc/k.gsc")], ["first/", "second"]⟩
    let record := ["first/maps//./x.gsc", "second/maps//./x.gsc"]
    ((s.fetch FileTree.files.recorded "maps//./x").run ([], .empty)).2.1 = record ∧
      ∀ path ∈ record, ∃ dir ∈ s.dirs, Below path dir := by
  intro s record
  have hno : s.overrides.lookup "maps//./x" = none := by decide
  have hrecord : ((s.fetch FileTree.files.recorded "maps//./x").run ([], .empty)).2.1 = record := by
    decide +kernel
  obtain ⟨opened, hrun, hbelow⟩ := fetch_opens_below FileTree.files hno .empty
  rw [hrun] at hrecord ⊢
  subst hrecord
  exact ⟨rfl, hbelow⟩

end SearchPath

end Gsc
