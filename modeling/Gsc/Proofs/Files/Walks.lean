import Gsc.Files.Tree
import Gsc.Proofs.Except

/-! # Walks through a tree of files

A path is followed part by part, and stops where a file stands in the way or a name is not there. So
what stands at a path, or why nothing can be read there, is told by one place of the tree.
-/

namespace Gsc.FileTree

variable {α : Type} {t : FileTree α} {place : Place} {path part : String} {parts : List String}

/-! ## Places -/

theorem find?_append (front back : List String) (t : FileTree α) :
    t.find? (front ++ back) = (t.find? front).bind (find? back) := by
  induction front generalizing t with
  | nil => rfl
  | cons name names ih =>
      cases t with
      | file content => rfl
      | directory entries =>
          rw [List.cons_append, find?, find?]
          cases entries.lookup name with
          | none => rfl
          | some u => exact ih u

theorem at?_concat {names : List String} {entries : List (String × FileTree α)} {name : String}
    (h : t.at? (some names) = some (directory entries)) :
    t.at? (some (names ++ [name])) = entries.lookup name := by
  have hnames : t.find? names = some (directory entries) := h
  rw [at?, find?_append, hnames, Option.bind_some, find?]
  cases entries.lookup name <;> rfl

theorem isSome_at?_dropLast {names : List String} (h : (t.at? (some names)).isSome) :
    (t.at? (some names.dropLast)).isSome := by
  obtain rfl | ⟨front, last, rfl⟩ := List.eq_nil_or_concat names
  · exact h
  · rw [List.concat_eq_append, at?, find?_append] at h
    rw [List.concat_eq_append, List.dropLast_concat]
    exact Option.isSome_of_isSome_bind h

/-! ## Single steps -/

def NamesEntry (part : String) : Prop := Path.isIdle part = false ∧ part ≠ ".."

theorem namesEntry_or (part : String) :
    Path.isIdle part = true ∨ part = ".." ∨ NamesEntry part := by
  cases hidle : Path.isIdle part with
  | true => exact .inl rfl
  | false =>
      by_cases hup : part = ".."
      · exact .inr (.inl hup)
      · exact .inr (.inr ⟨hidle, hup⟩)

theorem step_of_idle (h : Path.isIdle part = true) (entries : List (String × FileTree α))
    (place : Place) : step entries place part = .ok place :=
  if_pos h

theorem step_of_namesEntry (h : NamesEntry part) (entries : List (String × FileTree α))
    (place : Place) :
    step entries place part = if 255 < part.utf8ByteSize then .error .nameTooLong
      else match entries.lookup part with
        | none => .error .notFound
        | some _ => .ok (place.map (· ++ [part])) := by
  rw [step, if_neg (by rw [h.1]; decide), if_neg h.2]
  cases entries.lookup part <;> rfl

/-- A step leads to a place where something stands. -/
theorem isSome_at?_of_step {entries : List (String × FileTree α)} {next : Place}
    (hplace : t.at? place = some (directory entries)) (h : step entries place part = .ok next) :
    (t.at? next).isSome := by
  have hsome : (t.at? place).isSome := by rw [hplace]; rfl
  rcases namesEntry_or part with hidle | rfl | hname
  · rw [step_of_idle hidle] at h
    cases h
    exact hsome
  · cases h
    rcases place with _ | _ | ⟨name, names⟩
    · rfl
    · rfl
    · exact isSome_at?_dropLast hsome
  · rw [step_of_namesEntry hname] at h
    split at h
    · cases h
    · cases hlookup : entries.lookup part with
      | none => simp [hlookup] at h
      | some u =>
          rw [hlookup] at h
          cases h
          cases place with
          | none => rfl
          | some names =>
              rw [Option.map_some, at?_concat hplace, hlookup]
              rfl

/-! ## Following parts -/

theorem follow_append (t : FileTree α) (place : Place) (front back : List String) :
    t.follow place (front ++ back) = t.follow place front >>= fun next => t.follow next back := by
  induction front generalizing place with
  | nil => rfl
  | cons part front ih =>
      rw [List.cons_append, follow, follow]
      cases t.at? place with
      | none => rfl
      | some u =>
          cases u with
          | file content => rfl
          | directory entries =>
              dsimp only
              cases step entries place part with
              | error e => rfl
              | ok next => exact ih next

/-- Why a walk cannot go on over a part: a file stands there, the part names nothing, or no name is
as long. -/
inductive Stops (t : FileTree α) (place : Place) (part : String) : FileError → Prop
  | file {content : α} (h : t.at? place = some (file content)) : Stops t place part .notADirectory
  | missing {entries : List (String × FileTree α)} (h : t.at? place = some (directory entries))
      (hname : NamesEntry part) (hshort : part.utf8ByteSize ≤ 255)
      (hnone : entries.lookup part = none) : Stops t place part .notFound
  | long {entries : List (String × FileTree α)} (h : t.at? place = some (directory entries))
      (hname : NamesEntry part) (hlong : 255 < part.utf8ByteSize) :
      Stops t place part .nameTooLong

theorem stops_of_step {entries : List (String × FileTree α)} {e : FileError}
    (hplace : t.at? place = some (directory entries)) (h : step entries place part = .error e) :
    t.Stops place part e := by
  rcases namesEntry_or part with hidle | rfl | hname
  · rw [step_of_idle hidle] at h
    cases h
  · cases h
  · rw [step_of_namesEntry hname] at h
    split at h
    · cases h
      exact .long hplace hname ‹_›
    · cases hlookup : entries.lookup part with
      | none =>
          rw [hlookup] at h
          cases h
          exact .missing hplace hname (Nat.not_lt.1 ‹_›) hlookup
      | some u => simp [hlookup] at h

theorem Stops.follow_eq {e : FileError} (h : t.Stops place part e) (rest : List String) :
    t.follow place (part :: rest) = .error e := by
  cases h with
  | file h => simp only [follow, h]
  | missing h hname hshort hnone =>
      simp only [follow, h, step_of_namesEntry hname, if_neg (Nat.not_lt.2 hshort), hnone]
  | long h hname hlong => simp only [follow, h, step_of_namesEntry hname, if_pos hlong]

/-- A walk comes to a place where something stands, or there is a part at which it stops. -/
theorem follow_cases (hplace : (t.at? place).isSome) (parts : List String) :
    (∃ next, t.follow place parts = .ok next ∧ (t.at? next).isSome) ∨
      ∃ front part back next e, parts = front ++ part :: back ∧ t.follow place front = .ok next ∧
        t.Stops next part e := by
  induction parts generalizing place with
  | nil => exact .inl ⟨place, rfl, hplace⟩
  | cons part rest ih =>
      obtain ⟨u, hu⟩ := Option.isSome_iff_exists.1 hplace
      cases u with
      | file content => exact .inr ⟨[], part, rest, place, _, rfl, rfl, .file hu⟩
      | directory entries =>
          cases hstep : step entries place part with
          | error e => exact .inr ⟨[], part, rest, place, e, rfl, rfl, stops_of_step hu hstep⟩
          | ok next =>
              have hfollow : ∀ more, t.follow place (part :: more) = t.follow next more := by
                intro more
                simp only [follow, hu, hstep]
              rcases ih (isSome_at?_of_step hu hstep) with
                ⟨last, hlast, hsome⟩ | ⟨front, part', back, last, e, rfl, hfront, hstops⟩
              · exact .inl ⟨last, by rw [hfollow, hlast], hsome⟩
              · exact .inr ⟨part :: front, part', back, last, e, rfl, by rw [hfollow, hfront],
                  hstops⟩

/-! ## What stands at a path -/

def Holds (t : FileTree α) (path : String) (content : α) : Prop :=
  ∃ place, t.locate path = .ok place ∧ t.at? place = some (file content)

/-- The walk along a path stops at one of its parts. -/
def StopsAlong (t : FileTree α) (path : String) (e : FileError) : Prop :=
  checkPath path = .ok () ∧ ∃ front part back place, Path.segments path = front ++ part :: back ∧
    t.follow (start path) front = .ok place ∧ t.Stops place part e

/-- Nothing stands at a path, as a name on the way is not there. -/
def Lacks (t : FileTree α) (path : String) : Prop := path = "" ∨ t.StopsAlong path .notFound

/-- A path cannot be read for another reason than that nothing stands there: the path is none that
can be looked up, a file stands in the way, or a directory at the end. -/
inductive Bars (t : FileTree α) (path : String) : FileError → Prop
  | nul (h : Char.ofNat 0 ∈ path.toList) : Bars t path .nulInName
  | longPath (hnul : Char.ofNat 0 ∉ path.toList) (h : Path.isTooLong path = true) :
      Bars t path .nameTooLong
  | longName (h : t.StopsAlong path .nameTooLong) : Bars t path .nameTooLong
  | file (h : t.StopsAlong path .notADirectory) : Bars t path .notADirectory
  | directory {place : Place} {entries : List (String × FileTree α)}
      (hplace : t.locate path = .ok place) (h : t.at? place = some (directory entries)) :
      Bars t path .isADirectory

theorem checkPath_eq_ok_iff : checkPath path = .ok () ↔
    Char.ofNat 0 ∉ path.toList ∧ path ≠ "" ∧ Path.isTooLong path = false := by
  rw [checkPath]
  split
  · simp_all
  · split
    · simp_all
    · split <;> simp_all

theorem locate_of_check (h : checkPath path = .ok ()) :
    t.locate path = t.follow (start path) (Path.segments path) := by
  rw [locate, h]
  rfl

theorem isSome_at?_start (t : FileTree α) (path : String) : (t.at? (start path)).isSome := by
  unfold start
  split <;> rfl

theorem StopsAlong.locate_eq {e : FileError} (h : t.StopsAlong path e) :
    t.locate path = .error e := by
  obtain ⟨hcheck, front, part, back, place, hparts, hfront, hstops⟩ := h
  rw [locate_of_check hcheck, hparts, follow_append, hfront]
  exact hstops.follow_eq back

theorem Holds.read_eq {content : α} (h : t.Holds path content) : t.read path = .ok content := by
  obtain ⟨place, hlocate, hplace⟩ := h
  simp only [read, hlocate, hplace]

theorem read_of_locate {e : FileError} (h : t.locate path = .error e) :
    t.read path = .error e := by
  simp only [read, h]

theorem Lacks.read_eq (h : t.Lacks path) : t.read path = .error .notFound := by
  rcases h with rfl | h
  · rfl
  · exact read_of_locate h.locate_eq

theorem Bars.read_eq {e : FileError} (h : t.Bars path e) : t.read path = .error e := by
  cases h with
  | nul h =>
      apply read_of_locate
      rw [locate, checkPath, if_pos (List.contains_iff_mem.2 h)]
      rfl
  | longPath hnul h =>
      apply read_of_locate
      have hne : ¬ path.isEmpty = true := by
        intro hempty
        rw [String.isEmpty_iff.1 hempty] at h
        cases h
      rw [locate, checkPath, if_neg (fun hmem => hnul (List.contains_iff_mem.1 hmem)),
        if_neg hne, if_pos h]
      rfl
  | longName h => exact read_of_locate h.locate_eq
  | file h => exact read_of_locate h.locate_eq
  | directory hplace h => simp only [read, hplace, h]

/-- One of the three holds of every path. -/
theorem holds_or_lacks_or_bars (t : FileTree α) (path : String) :
    (∃ content, t.Holds path content) ∨ t.Lacks path ∨ ∃ e, t.Bars path e := by
  by_cases hnul : Char.ofNat 0 ∈ path.toList
  · exact .inr (.inr ⟨_, .nul hnul⟩)
  by_cases hempty : path = ""
  · exact .inr (.inl (.inl hempty))
  by_cases hlong : Path.isTooLong path = true
  · exact .inr (.inr ⟨_, .longPath hnul hlong⟩)
  have hcheck : checkPath path = .ok () :=
    checkPath_eq_ok_iff.2 ⟨hnul, hempty, Bool.eq_false_iff.2 hlong⟩
  rcases follow_cases (t.isSome_at?_start path) (Path.segments path) with
    ⟨place, hwalk, hsome⟩ | ⟨front, part, back, place, e, hparts, hfront, hstops⟩
  · have hlocate : t.locate path = .ok place := by rw [locate_of_check hcheck, hwalk]
    obtain ⟨u, hu⟩ := Option.isSome_iff_exists.1 hsome
    cases u with
    | file content => exact .inl ⟨content, place, hlocate, hu⟩
    | directory entries => exact .inr (.inr ⟨_, .directory hlocate hu⟩)
  · have halong : t.StopsAlong path e :=
      ⟨hcheck, front, part, back, place, hparts, hfront, hstops⟩
    cases hstops with
    | file h => exact .inr (.inr ⟨_, .file halong⟩)
    | missing h hname hshort hnone => exact .inr (.inl (.inr halong))
    | long h hname hlong => exact .inr (.inr ⟨_, .longName halong⟩)

theorem Bars.ne_notFound {e : FileError} (h : t.Bars path e) : e ≠ .notFound := by
  cases h <;> decide

theorem read_eq_ok_iff {content : α} : t.read path = .ok content ↔ t.Holds path content := by
  refine ⟨fun h => ?_, Holds.read_eq⟩
  rcases t.holds_or_lacks_or_bars path with ⟨c, hc⟩ | hlacks | ⟨e, hbars⟩
  · cases hc.read_eq.symm.trans h
    exact hc
  · cases hlacks.read_eq.symm.trans h
  · cases hbars.read_eq.symm.trans h

end Gsc.FileTree
