import Gsc.Proofs.Files.Descents
import Gsc.Proofs.Host.Searching

/-! # What a scan of directories finds

A scan makes names out of the paths of files, and a search makes paths out of names. A name that a
scan gives leads back to the file it was made from, unless it ends in `..`.
-/

namespace Gsc

theorem mem_insertName {name n : String} {names : List String} :
    n ∈ insertName name names ↔ n = name ∨ n ∈ names := by
  fun_induction insertName name names with
  | case1 => simp
  | case2 rest => simp
  | case3 m rest hne hlt => simp
  | case4 m rest hne hlt ih =>
      rw [List.mem_cons, ih, List.mem_cons]
      exact or_left_comm

theorem mem_sortNames {n : String} {names : List String} : n ∈ sortNames names ↔ n ∈ names := by
  induction names with
  | nil => simp [sortNames]
  | cons name names ih =>
      rw [sortNames, List.foldr_cons, mem_insertName, ← sortNames, ih, List.mem_cons]

theorem FileTree.outlineEntries_eq_map {α : Type} (entries : List (String × FileTree α)) :
    outlineEntries entries = entries.map fun entry => (entry.1, entry.2.outline) := by
  induction entries with
  | nil => rfl
  | cons entry entries ih => rw [outlineEntries, ih, List.map_cons]

/-- A listing is that of a directory. -/
theorem FileTree.exists_of_list {α : Type} {t : FileTree α} {path : String}
    {listing : FileTree Unit} (h : t.list path = .ok listing) :
    ∃ place entries, t.locate path = .ok place ∧ t.at? place = some (directory entries) ∧
      listing = directory (outlineEntries entries) := by
  rw [list] at h
  split at h
  · cases h
  · rename_i place hlocate
    split at h
    · rename_i entries hplace
      exact ⟨place, entries, hlocate, hplace, (Except.ok.inj h).symm⟩
    · cases h
    · cases h

namespace SearchPath

variable {t : FileTree Bytes} {s : SearchPath} {root n : String} {dirs : List String}

/-! ## Names of files -/

theorem exists_stem_of_scriptName? {fileName : String} (h : scriptName? dirs fileName = some n) :
    ∃ stem, fileName = stem ++ "." ++ extension ∧ stem ≠ "" ∧
      n = "/".intercalate (dirs ++ [if stem = "." then ".." else stem]) := by
  unfold scriptName? at h
  split at h
  next stem ext hsplit =>
    obtain ⟨heq, hne⟩ := Path.eq_of_splitExtension hsplit
    split at h
    · rename_i hext
      exact ⟨stem, hext ▸ heq, hne, (Option.some.inj h).symm⟩
    · cases h
  next => cases h

/-- The name of a script file ends in `..`, or it stays below and is the path without the
extension. -/
theorem scriptName?_cases {fileName : String}
    (hparts : ∀ part ∈ dirs ++ [fileName], Path.IsName part)
    (h : scriptName? dirs fileName = some n) :
    (Path.segments n).getLast? = some ".." ∨
      Path.staysBelow n = true ∧ n ++ "." ++ extension = "/".intercalate (dirs ++ [fileName]) := by
  obtain ⟨stem, rfl, hstem, rfl⟩ := exists_stem_of_scriptName? h
  obtain ⟨hdirs, hfile⟩ := List.forall_mem_append.1 hparts
  have hslash : '/' ∉ stem.toList := fun hmem =>
    (hfile _ (List.mem_singleton_self _)).noSlash (by simp [hmem])
  have hlast : ∀ last : String, '/' ∉ last.toList →
      (Path.segments ("/".intercalate (dirs ++ [last]))).getLast? = some last := by
    intro last hlast
    rw [Path.segments_intercalate (by simp) (List.forall_mem_append.2
      ⟨fun part hpart => (hdirs part hpart).noSlash, by simpa using hlast⟩), List.getLast?_concat]
  by_cases hdot : stem = "."
  · rw [if_pos hdot]
    exact .inl (hlast ".." (by decide))
  rw [if_neg hdot]
  by_cases hdots : stem = ".."
  · rw [hdots]
    exact .inl (hlast ".." (by decide))
  refine .inr ⟨Path.staysBelow_intercalate (by simp) (List.forall_mem_append.2 ⟨?_, ?_⟩) ?_, ?_⟩
  · exact fun part hpart => ⟨(hdirs part hpart).ne_empty, (hdirs part hpart).noSlash⟩
  · simpa using ⟨hstem, hslash⟩
  · have hup : ".." ∉ dirs := fun hmem => (hdirs _ hmem).ne_dots rfl
    simp [hup, Ne.symm hdots]
  · rw [String.append_assoc, Path.intercalate_concat_append, String.append_assoc]

/-! ## Names below a directory -/

theorem mem_namesInAll_iff {entries : List (String × FileTree Unit)} :
    n ∈ namesInAll root dirs entries ↔
      ∃ entry ∈ entries, n ∈ namesIn root dirs entry.1 entry.2 := by
  induction entries with
  | nil => simp [namesInAll]
  | cons entry entries ih => simp [namesInAll, ih]

/-- A name comes from a path below a directory, at which a file stands, unless the path is too long
to tell. -/
structure ComesFrom (n root : String) (dirs : List String) (t : FileTree Bytes)
    (parents : List String) (last : String) : Prop where
  names : ∀ part ∈ parents ++ [last], Path.IsName part
  name : scriptName? (dirs ++ parents) last = some n
  stands : (∃ content, t.find? (parents ++ [last]) = some (.file content)) ∨
    Path.isTooLong (entryPath root (dirs ++ parents) last) = true

section Entries

variable {entries : List (String × FileTree Bytes)} {name : String} {u : FileTree Bytes}

theorem ComesFrom.here (hname : Path.IsName name) (hlookup : entries.lookup name = some u)
    (hscript : scriptName? dirs name = some n)
    (hstands : (∃ content, u = .file content) ∨
      Path.isTooLong (entryPath root dirs name) = true) :
    ComesFrom n root dirs (.directory entries) [] name := by
  refine ⟨by simpa using hname, by rw [List.append_nil, hscript], ?_⟩
  rw [List.append_nil, List.nil_append, FileTree.find?, hlookup]
  rcases hstands with ⟨content, rfl⟩ | hlong
  · exact .inl ⟨content, rfl⟩
  · exact .inr hlong

theorem ComesFrom.below {last : String} {parents : List String} (hname : Path.IsName name)
    (hlookup : entries.lookup name = some u)
    (h : ComesFrom n root (dirs ++ [name]) u parents last) :
    ComesFrom n root dirs (.directory entries) (name :: parents) last := by
  obtain ⟨hnames, hscript, hstands⟩ := h
  have hfind : (FileTree.directory entries).find? (name :: parents ++ [last])
      = u.find? (parents ++ [last]) := by
    rw [List.cons_append, FileTree.find?, hlookup, Option.bind_some]
  refine ⟨List.forall_mem_cons.2 ⟨hname, hnames⟩, ?_, ?_⟩
  · rw [List.append_cons, hscript]
  · rw [hfind, List.append_cons dirs]
    exact hstands

theorem exists_comesFrom (ht : (FileTree.directory entries).WellFormed)
    (h : n ∈ namesInAll root dirs (FileTree.outlineEntries entries)) :
    ∃ parents last, ComesFrom n root dirs (.directory entries) parents last := by
  obtain ⟨u, hu⟩ : ∃ u, u = FileTree.directory entries := ⟨_, rfl⟩
  rw [← hu] at ht
  induction ht generalizing entries dirs with
  | file content => cases hu
  | @directory entries distinct names below ih =>
      cases hu
      rw [FileTree.outlineEntries_eq_map, mem_namesInAll_iff] at h
      obtain ⟨_, hmem, hn⟩ := h
      obtain ⟨⟨name, v⟩, hentry, rfl⟩ := List.mem_map.1 hmem
      have hname : Path.IsName name := names _ hentry
      have hlookup : entries.lookup name = some v := Dictionary.lookup_of_mem distinct hentry
      cases v with
      | file content =>
          exact ⟨[], name, .here hname hlookup (Option.mem_toList.1 hn) (.inl ⟨content, rfl⟩)⟩
      | directory inner =>
          dsimp only [FileTree.outline] at hn
          rw [namesIn] at hn
          split at hn
          · rename_i hlong
            exact ⟨[], name, .here hname hlookup (Option.mem_toList.1 hn) (.inr hlong)⟩
          · obtain ⟨parents, last, hfrom⟩ := ih _ hentry hn rfl
            exact ⟨name :: parents, last, hfrom.below hname hlookup⟩

end Entries

/-! ## Scans -/

theorem run_scanDirs_cons (dir : String) (dirs : List String) :
    (scanDirs FileTree.files (dir :: dirs)).run t = match t.list dir with
      | .ok listing => match (scanDirs FileTree.files dirs).run t with
        | (.ok names, next) => (.ok (namesBelow dir listing ++ names), next)
        | (.error e, next) => (.error e, next)
      | .error .notFound => (scanDirs FileTree.files dirs).run t
      | .error e => (.error ⟨dir, e⟩, t) := by
  have hlist : (FileTree.files.list dir).run t = (t.list dir, t) := rfl
  rw [scanDirs, StateT.run_bind, hlist]
  rcases t.list dir with e | listing
  · cases e <;> rfl
  · refine (StateT.run_bind ..).trans ?_
    rcases (scanDirs FileTree.files dirs).run t with ⟨e | names, next⟩ <;> rfl

theorem exists_list_of_mem_scanDirs {t' : FileTree Bytes} {names : List String}
    (h : (scanDirs FileTree.files dirs).run t = (.ok names, t')) (hn : n ∈ names) :
    ∃ dir ∈ dirs, ∃ listing, t.list dir = .ok listing ∧ n ∈ namesBelow dir listing := by
  induction dirs generalizing names with
  | nil =>
      cases h
      cases hn
  | cons dir dirs ih =>
      have hlater : (∃ d ∈ dirs, ∃ listing, t.list d = .ok listing ∧ n ∈ namesBelow d listing) →
          ∃ d ∈ dir :: dirs, ∃ listing, t.list d = .ok listing ∧ n ∈ namesBelow d listing := by
        rintro ⟨d, hd, hfound⟩
        exact ⟨d, List.mem_cons_of_mem dir hd, hfound⟩
      rw [run_scanDirs_cons] at h
      cases hlist : t.list dir with
      | error e =>
          rw [hlist] at h
          cases e with
          | notFound => exact hlater (ih h hn)
          | _ => cases h
      | ok listing =>
          rw [hlist] at h
          dsimp only at h
          split at h
          · rename_i more next hrest
            cases h
            rcases List.mem_append.1 hn with hn | hn
            · exact ⟨dir, List.mem_cons_self, listing, hlist, hn⟩
            · exact hlater (ih hrest hn)
          · cases h

theorem run_scan (s : SearchPath) (t : FileTree Bytes) :
    (s.scan FileTree.files).run t = match (scanDirs FileTree.files s.dirs).run t with
      | (.ok names, next) => (.ok (sortNames (s.overrides.map (·.1) ++ names)), next)
      | (.error e, next) => (.error e, next) := by
  rw [scan, StateT.run_bind]
  rcases (scanDirs FileTree.files s.dirs).run t with ⟨e | names, next⟩ <;> rfl

theorem exists_list_of_mem_scan {t' : FileTree Bytes} {names : List String}
    (hno : s.overrides = []) (h : (s.scan FileTree.files).run t = (.ok names, t'))
    (hn : n ∈ names) :
    ∃ dir ∈ s.dirs, ∃ listing, t.list dir = .ok listing ∧ n ∈ namesBelow dir listing := by
  rw [run_scan] at h
  split at h
  · rename_i found next hdirs
    cases h
    rw [mem_sortNames, hno] at hn
    exact exists_list_of_mem_scanDirs hdirs hn
  · cases h

/-- A name from the listing of a directory ends in `..`, or the file of the script stands in the
directory, though perhaps at a path that is too long. -/
theorem stands_of_mem_namesBelow {dir : String} {listing : FileTree Unit} (ht : t.WellFormed)
    (hlist : t.list dir = .ok listing) (hn : n ∈ namesBelow dir listing) :
    (Path.segments n).getLast? = some ".." ∨ Path.staysBelow n = true ∧
      ((∃ content, t.Holds (filePath dir n) content) ∨ t.Bars (filePath dir n) .nameTooLong) := by
  obtain ⟨place, entries, hlocate, hplace, rfl⟩ := FileTree.exists_of_list hlist
  cases place with
  | none =>
      cases hplace
      cases hn
  | some base =>
      have hbase : t.find? base = some (.directory entries) := hplace
      obtain ⟨parents, last, hnames, hscript, hstands⟩ := exists_comesFrom (ht.of_find? hbase) hn
      rw [List.nil_append] at hscript hstands
      rcases scriptName?_cases hnames hscript with hlast | ⟨hbelow, hpath⟩
      · exact .inl hlast
      refine .inr ⟨hbelow, ?_⟩
      rw [filePath, hpath]
      by_cases hlong : Path.isTooLong (entryPath dir parents last) = true
      · exact .inr (.longPath (FileTree.noNul_join (FileTree.check_of_locate hlocate) hnames) hlong)
      · have hshort := Bool.eq_false_iff.2 hlong
        obtain ⟨content, hfile⟩ := hstands.resolve_right hlong
        have hfind : t.find? (base ++ (parents ++ [last])) = some (.file content) := by
          rw [FileTree.find?_append, hbase, Option.bind_some, hfile]
        have hthere := FileTree.locate_join hlocate (by simp) hnames (by rw [hfind]; rfl) hshort
        exact .inl ⟨content, _, hthere, hfind⟩

/-- A scanned name is fetched from the first directory that has its file, with two exceptions. A
name that ends in `..` is not looked for. And the search fails where it comes to something else in
the place of the file or on the way to it, or to a path that is too long. -/
theorem fetch_of_mem_scan {t' : FileTree Bytes} {names : List String} (ht : t.WellFormed)
    (hno : s.overrides = []) (hscan : (s.scan FileTree.files).run t = (.ok names, t'))
    (hn : n ∈ names) :
    (Path.segments n).getLast? = some ".." ∧ (s.fetch FileTree.files n).run t = (.ok none, t) ∨
      (∃ r, (s.fetch FileTree.files n).run t = (r, t) ∧ r ≠ .ok none ∧ Finds t n s.dirs r) ∧
      (Clear t n s.dirs → ∃ content, Serves t n s.dirs content ∧
        (s.fetch FileTree.files n).run t = (.ok (some content), t)) := by
  obtain ⟨dir, hdir, listing, hlist, hbelow⟩ := exists_list_of_mem_scan hno hscan hn
  have hlookup : s.overrides.lookup n = none := by rw [hno]; rfl
  rw [run_fetch _ hlookup]
  rcases stands_of_mem_namesBelow ht hlist hbelow with hlast | ⟨hstays, hstands⟩
  · have hout : ¬ Path.staysBelow n = true := by
      simp [Path.staysBelow, List.mem_of_getLast? hlast]
    exact .inl ⟨hlast, if_neg hout⟩
  · right
    rw [if_pos hstays]
    obtain ⟨r, hfinds⟩ := exists_finds t n s.dirs
    have hsome : r ≠ .ok none := by
      rintro rfl
      have hread := (hfinds.lacks dir hdir).read_eq
      rcases hstands with ⟨content, hholds⟩ | hbars
      · cases hholds.read_eq.symm.trans hread
      · cases hbars.read_eq.symm.trans hread
    refine ⟨⟨r, hfinds.run_eq, hsome, hfinds⟩, fun hclear => ?_⟩
    obtain ⟨found, rfl⟩ := hclear.exists_ok hfinds
    obtain ⟨content, rfl⟩ := Option.ne_none_iff_exists'.1 fun hnone => hsome (congrArg _ hnone)
    exact ⟨content, hclear.finds_some_iff.1 hfinds, hfinds.run_eq⟩

/-- Two directories with scripts, one of which is in both. -/
def layeredTrees : FileTree Bytes :=
  FileTree.put (.file [1]) ["first", "maps", "a.b.gsc"] <|
    FileTree.put (.file [2]) ["second", "maps", "a.b.gsc"] <|
      FileTree.put (.file [3]) ["second", "x.gsc", "y.gsc"] .empty

theorem fetch_of_mem_scan_layeredTrees :
    let s : SearchPath := ⟨[], ["first", "second"]⟩
    let names := ["maps/a.b", "x.gsc/y"]
    layeredTrees.WellFormed ∧ ((s.scan FileTree.files).run layeredTrees).1 = .ok names ∧
      ∀ n ∈ names, Clear layeredTrees n s.dirs ∧
        ∃ content, Serves layeredTrees n s.dirs content ∧
          (s.fetch FileTree.files n).run layeredTrees = (.ok (some content), layeredTrees) := by
  intro s names
  have ht : layeredTrees.WellFormed :=
    ((FileTree.wellFormed_empty.put (.file [3]) (by decide +kernel)).put (.file [2])
      (by decide +kernel)).put (.file [1]) (by decide +kernel)
  have hscan : ((s.scan FileTree.files).run layeredTrees).1 = .ok names :=
    eq_ok_of_toOption (by decide +kernel)
  have hlast : ∀ n ∈ names, (Path.segments n).getLast? ≠ some ".." := by decide +kernel
  have hclear : ∀ n ∈ names, Clear layeredTrees n s.dirs := by
    have hreads : ∀ n ∈ names, ∀ dir ∈ s.dirs,
        (errorOf? (layeredTrees.read (filePath dir n))).getD .notFound = .notFound := by
      decide +kernel
    exact fun n hn => clear_of_errorOf? (hreads n hn)
  refine ⟨ht, hscan, fun n hn => ⟨hclear n hn, ?_⟩⟩
  exact ((fetch_of_mem_scan ht rfl (Prod.ext hscan rfl) hn).resolve_left fun h => hlast n hn h.1).2
    (hclear n hn)

/-- The file of a scanned script stands in a directory of the search, but the script is not fetched:
its name ends in `..`, or a file stands in the way to where it could be in an earlier directory. -/
theorem fetch_misses_scanned :
    let s : SearchPath := ⟨[], ["s"]⟩
    let t : FileTree Bytes := FileTree.put (.file [1]) ["s", "...gsc"] .empty
    let crossed : SearchPath := ⟨[], ["a", "b"]⟩
    ((s.scan FileTree.files).run t).1 = .ok [".."] ∧ t.Holds (filePath "s" "..") [1] ∧
      ((s.fetch FileTree.files "..").run t).1 = .ok none ∧
      ((crossed.scan FileTree.files).run crossedTrees).1 = .ok ["maps/x", "y"] ∧
      crossedTrees.Holds (filePath "b" "maps/x") [0x78] ∧
      ((crossed.fetch FileTree.files "maps/x").run crossedTrees).1
        = .error ⟨"a/maps/x.gsc", .notADirectory⟩ := by
  refine ⟨?_, ?_, ?_, ?_, ?_, ?_⟩
  · exact eq_ok_of_toOption (by decide +kernel)
  · exact FileTree.read_eq_ok_iff.1 (eq_ok_of_toOption (by decide +kernel))
  · exact eq_ok_of_toOption (by decide +kernel)
  · exact eq_ok_of_toOption (by decide +kernel)
  · exact FileTree.read_eq_ok_iff.1 (eq_ok_of_toOption (by decide +kernel))
  · exact eq_error_of_errorOf? (by decide +kernel)

end SearchPath

end Gsc
