import Gsc.Data.Dictionary
import Gsc.Proofs.Files.Paths
import Gsc.Proofs.Files.Walks

/-! # Names that lead down

In a tree as a file system keeps it, what the entries of a directory are called can stand in a path,
and no two are called the same. A path below a directory leads to what its names lead to from there.
-/

namespace Gsc.FileTree

variable {α : Type} {t u : FileTree α} {entries : List (String × FileTree α)}

/-- Every directory has its entries under names, no two under the same. -/
inductive WellFormed : FileTree α → Prop
  | file (content : α) : WellFormed (file content)
  | directory {entries : List (String × FileTree α)} (distinct : (entries.map (·.1)).Nodup)
      (names : ∀ entry ∈ entries, Path.IsName entry.1)
      (below : ∀ entry ∈ entries, WellFormed entry.2) : WellFormed (directory entries)

theorem WellFormed.of_find? {names : List String} (ht : t.WellFormed)
    (h : t.find? names = some u) : u.WellFormed := by
  induction names generalizing t with
  | nil =>
      cases h
      exact ht
  | cons name names ih =>
      cases ht with
      | file content => cases h
      | directory distinct names below =>
          obtain ⟨v, hv, hu⟩ := Option.bind_eq_some_iff.1 h
          exact ih (below _ (Dictionary.mem_of_lookup hv)) hu

/-! ## Putting trees into a tree -/

theorem mem_setEntry {name : String} {entry : String × FileTree α}
    (h : entry ∈ setEntry name u entries) : entry = (name, u) ∨ entry ∈ entries := by
  induction entries with
  | nil => exact .inl (List.mem_singleton.1 h)
  | cons first rest ih =>
      rw [setEntry] at h
      split at h
      · exact (List.mem_cons.1 h).imp_right (List.mem_cons_of_mem first)
      · rcases List.mem_cons.1 h with rfl | h
        · exact .inr List.mem_cons_self
        · exact (ih h).imp_right (List.mem_cons_of_mem first)

theorem nodup_setEntry {name : String} (h : (entries.map (·.1)).Nodup) :
    ((setEntry name u entries).map (·.1)).Nodup := by
  induction entries with
  | nil => simp [setEntry]
  | cons first rest ih =>
      obtain ⟨hfirst, hrest⟩ := List.nodup_cons.1 h
      rw [setEntry]
      split
      · rename_i hname
        rw [← hname]
        exact h
      · rename_i hname
        refine List.nodup_cons.2 ⟨fun hmem => ?_, ih hrest⟩
        obtain ⟨entry, hentry, heq⟩ := List.mem_map.1 hmem
        rcases mem_setEntry hentry with rfl | hentry
        · exact hname heq.symm
        · exact hfirst (List.mem_map.2 ⟨entry, hentry, heq⟩)

theorem WellFormed.setEntry {name : String} (ht : (FileTree.directory entries).WellFormed)
    (hname : Path.IsName name) (hu : u.WellFormed) :
    (FileTree.directory (FileTree.setEntry name u entries)).WellFormed := by
  cases ht with
  | directory distinct names below =>
      refine .directory (nodup_setEntry distinct) (fun entry h => ?_) (fun entry h => ?_)
      · rcases mem_setEntry h with rfl | h
        · exact hname
        · exact names entry h
      · rcases mem_setEntry h with rfl | h
        · exact hu
        · exact below entry h

theorem wellFormed_empty : (empty : FileTree α).WellFormed :=
  .directory List.nodup_nil (by simp) (by simp)

/-- A well-formed tree stays so, whatever is put into it under names. -/
theorem WellFormed.put {names : List String} (ht : t.WellFormed) (hu : u.WellFormed)
    (hnames : ∀ name ∈ names, Path.IsName name) : (FileTree.put u names t).WellFormed := by
  induction names generalizing t with
  | nil => exact hu
  | cons name names ih =>
      obtain ⟨hname, hnames⟩ := List.forall_mem_cons.1 hnames
      cases t with
      | file content => exact wellFormed_empty.setEntry hname (ih wellFormed_empty hnames)
      | directory entries =>
          refine ht.setEntry hname (ih ?_ hnames)
          cases hlookup : entries.lookup name with
          | none => exact wellFormed_empty
          | some v =>
              cases ht with
              | directory distinct names below =>
                  exact below _ (Dictionary.mem_of_lookup hlookup)

/-! ## Paths below a directory -/

theorem eq_of_follow_idle {place next : Place} {part : String} (hidle : Path.isIdle part = true)
    (h : t.follow place [part] = .ok next) : next = place := by
  rw [follow] at h
  split at h
  · cases h
  · cases h
  · rw [step_of_idle hidle] at h
    cases h
    rfl

theorem namesEntry_of_isName {name : String} (h : Path.IsName name) : NamesEntry name :=
  ⟨by simp [Path.isIdle, h.ne_empty, h.ne_dot], h.ne_dots⟩

/-- Names lead down from a place as far as there are entries. -/
theorem follow_names {base names : List String} (hnames : ∀ name ∈ names, Path.IsName name)
    (h : (t.find? (base ++ names)).isSome) :
    t.follow (some base) names = .ok (some (base ++ names)) := by
  induction names generalizing base with
  | nil => rw [List.append_nil, follow]
  | cons name names ih =>
      obtain ⟨hname, hnames⟩ := List.forall_mem_cons.1 hnames
      obtain ⟨u, hu⟩ := Option.isSome_iff_exists.1 h
      rw [find?_append] at hu
      obtain ⟨v, hbase, hv⟩ := Option.bind_eq_some_iff.1 hu
      cases v with
      | file content => cases hv
      | directory entries =>
          obtain ⟨w, hlookup, -⟩ := Option.bind_eq_some_iff.1 hv
          have hstep : step entries (some base) name = .ok (some (base ++ [name])) := by
            rw [step_of_namesEntry (namesEntry_of_isName hname), if_neg (Nat.not_lt.2 hname.short),
              hlookup]
            rfl
          have hplace : t.at? (some base) = some (directory entries) := hbase
          rw [List.append_cons] at h ⊢
          rw [follow, hplace]
          dsimp only
          rw [hstep]
          exact ih hnames h

/-- Along the path of a directory, a walk comes to the directory also without the part behind a
slash at the end. -/
theorem follow_front {path : String} {front : List String} {place : Place}
    (hpath : Path.segments path = front ∨ Path.segments path = front ++ [""])
    (h : t.follow (start path) (Path.segments path) = .ok place) :
    t.follow (start path) front = .ok place := by
  rcases hpath with hpath | hpath
  · rw [← hpath, h]
  · rw [hpath, follow_append] at h
    obtain ⟨next, hfront, hlast⟩ := bind_eq_ok.1 h
    rw [hfront, eq_of_follow_idle rfl hlast]

theorem check_of_locate {path : String} {place : Place} (h : t.locate path = .ok place) :
    checkPath path = .ok () := by
  obtain ⟨_, hcheck, -⟩ := bind_eq_ok.1 h
  exact hcheck

theorem noNul_join {dir : String} {names : List String} (hdir : checkPath dir = .ok ())
    (hnames : ∀ name ∈ names, Path.IsName name) :
    Char.ofNat 0 ∉ (Path.join dir ("/".intercalate names)).toList :=
  Path.not_mem_join (by decide) (checkPath_eq_ok_iff.1 hdir).1
    (Path.not_mem_intercalate (by decide) fun name hname => (hnames name hname).noNul)

/-- A path that is not too long leads to what its names lead to from the directory. -/
theorem locate_join {dir : String} {base names : List String}
    (hdir : t.locate dir = .ok (some base)) (hne : names ≠ [])
    (hnames : ∀ name ∈ names, Path.IsName name) (h : (t.find? (base ++ names)).isSome)
    (hshort : Path.isTooLong (Path.join dir ("/".intercalate names)) = false) :
    t.locate (Path.join dir ("/".intercalate names)) = .ok (some (base ++ names)) := by
  have hcheck := check_of_locate hdir
  have hrel : Path.isAbsolute ("/".intercalate names) = false :=
    Path.isAbsolute_intercalate hne fun name hname =>
      ⟨(hnames name hname).ne_empty, (hnames name hname).noSlash⟩
  have hdirne : dir ≠ "" := (checkPath_eq_ok_iff.1 hcheck).2.1
  obtain ⟨front, hjoin, hfront⟩ := Path.exists_segments_join hdirne hrel
  have hstart : start (Path.join dir ("/".intercalate names)) = start dir := by
    rw [start, start, Path.isAbsolute_join hdirne hrel]
  rw [locate_of_check hcheck] at hdir
  rw [locate_of_check (checkPath_eq_ok_iff.2 ⟨noNul_join hcheck hnames,
      Path.join_ne_empty hdirne hrel, hshort⟩), hjoin,
    hstart, follow_append, follow_front hfront hdir,
    Path.segments_intercalate hne fun name hname => (hnames name hname).noSlash]
  exact follow_names hnames h

end Gsc.FileTree
