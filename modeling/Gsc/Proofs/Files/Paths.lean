import Gsc.Files.Path
import Mathlib.Data.List.Basic

/-! # Paths and their parts

The parts of a path are what stands between its slashes. They are put together again to the path,
and a path below another one has the parts of both. A relative path without `..` leads down from
where the other one leads.
-/

namespace Gsc.Path

variable {dir rel name ending : String} {parts : List String}

/-! ## Cutting and putting together -/

theorem cut_eq_splitOn (chars : List Char) : cut chars = chars.splitOn '/' := by
  induction chars with
  | nil => rfl
  | cons c rest ih =>
      rw [cut, ih, List.splitOn, List.splitOn, List.splitOnP_cons_eq_if_modifyHead]
      by_cases hc : c = '/'
      · rw [if_pos hc, if_pos (beq_iff_eq.2 hc)]
      · rw [if_neg hc, if_neg (fun h => hc (beq_iff_eq.1 h))]
        cases h : rest.splitOnP (· == '/') with
        | nil => exact (List.splitOnP_ne_nil _ rest h).elim
        | cons part parts => rfl

theorem segments_slash (front back : String) :
    segments (front ++ "/" ++ back) = segments front ++ segments back := by
  have hcut : cut (front.toList ++ '/' :: back.toList) = cut front.toList ++ cut back.toList := by
    simp only [cut_eq_splitOn]
    exact List.splitOnP_append_cons _ _ rfl
  rw [segments, segments, segments, ← List.map_append, ← hcut, String.toList_append,
    String.toList_append, List.append_assoc]
  rfl

theorem segments_intercalate (hne : parts ≠ []) (h : ∀ part ∈ parts, '/' ∉ part.toList) :
    segments ("/".intercalate parts) = parts := by
  have hcut : cut (['/'].intercalate (parts.map String.toList)) = parts.map String.toList := by
    rw [cut_eq_splitOn]
    exact List.splitOn_intercalate '/' (by simpa using h) (by simpa using hne)
  rw [segments, String.toList_intercalate]
  refine (congrArg _ hcut).trans ?_
  simp [Function.comp_def]

/-- What is put behind a path without a slash goes to its last part. -/
theorem exists_cut_append {ending : List Char} (h : '/' ∉ ending) (chars : List Char) :
    ∃ init last, cut chars = init ++ [last] ∧ cut (chars ++ ending) = init ++ [last ++ ending] := by
  induction chars with
  | nil =>
      have hwhole : (['/'].intercalate [ending]).splitOn '/' = [ending] :=
        List.splitOn_intercalate '/' (by simpa using h) (by simp)
      rw [List.intercalate_singleton, ← cut_eq_splitOn] at hwhole
      exact ⟨[], [], rfl, hwhole⟩
  | cons c chars ih =>
      obtain ⟨init, last, hcut, happend⟩ := ih
      rw [List.cons_append, cut, cut, hcut, happend]
      split
      · exact ⟨[] :: init, last, rfl, rfl⟩
      · cases init with
        | nil => exact ⟨[], c :: last, rfl, rfl⟩
        | cons part init => exact ⟨(c :: part) :: init, last, rfl, rfl⟩

theorem exists_segments_append (h : '/' ∉ ending.toList) (name : String) :
    ∃ init last, segments name = init ++ [last] ∧
      segments (name ++ ending) = init ++ [last ++ ending] := by
  obtain ⟨init, last, hcut, happend⟩ := exists_cut_append h name.toList
  refine ⟨init.map String.ofList, String.ofList last, ?_, ?_⟩
  · rw [segments, hcut, List.map_append, List.map_singleton]
  · rw [segments, String.toList_append, happend, List.map_append, List.map_singleton,
      String.ofList_append, String.ofList_toList]

/-- What is put behind parts that are put together goes to the last of them. -/
theorem intercalate_concat_append (parts : List String) (last ending : String) :
    "/".intercalate (parts ++ [last]) ++ ending = "/".intercalate (parts ++ [last ++ ending]) := by
  by_cases hnil : parts = []
  · simp [hnil]
  · rw [String.intercalate_append_of_ne_nil hnil (by simp),
      String.intercalate_append_of_ne_nil hnil (by simp), String.intercalate_singleton,
      String.intercalate_singleton, String.append_assoc]

theorem not_mem_intercalate {c : Char} (hc : c ≠ '/') (h : ∀ part ∈ parts, c ∉ part.toList) :
    c ∉ ("/".intercalate parts).toList := by
  induction parts with
  | nil => simp
  | cons part rest ih =>
      obtain ⟨hpart, hrest⟩ := List.forall_mem_cons.1 h
      by_cases hnil : rest = []
      · simpa [hnil] using hpart
      · simpa [String.intercalate_cons_of_ne_nil hnil, hc, hpart] using ih hrest

theorem exists_segments_of_isAbsolute (h : isAbsolute name = true) :
    ∃ rest, segments name = "" :: rest := by
  obtain ⟨chars, hchars⟩ := List.head?_eq_some_iff.1 (of_decide_eq_true h)
  exact ⟨(cut chars).map String.ofList, by rw [segments, hchars]; rfl⟩

/-! ## Paths below a directory -/

theorem isAbsolute_append (hname : isAbsolute name = false) (h : isAbsolute ending = false) :
    isAbsolute (name ++ ending) = false := by
  rw [isAbsolute, String.toList_append] at *
  cases hchars : name.toList with
  | nil => simpa [isAbsolute] using h
  | cons c chars => simpa [isAbsolute, hchars] using hname

theorem join_of_relative (hrel : isAbsolute rel = false) :
    join dir rel = if dir.isEmpty ∨ dir.toList.getLast? = some '/' then dir ++ rel
      else dir ++ "/" ++ rel := by
  rw [join, if_neg (by rw [hrel]; decide)]

/-- A path below a directory has the parts of both. A slash at the end of the directory is not
doubled. -/
theorem exists_segments_join (hdir : dir ≠ "") (hrel : isAbsolute rel = false) :
    ∃ front, segments (join dir rel) = front ++ segments rel ∧
      (segments dir = front ∨ segments dir = front ++ [""]) := by
  rw [join_of_relative hrel]
  split
  · rename_i h
    have hlast := h.resolve_left (fun hempty => hdir (String.isEmpty_iff.1 hempty))
    obtain ⟨chars, hchars⟩ := List.getLast?_eq_some_iff.1 hlast
    have hcut : dir = String.ofList chars ++ "/" := by
      rw [← String.toList_inj, hchars, String.toList_append, String.toList_ofList]
      rfl
    refine ⟨segments (String.ofList chars), ?_, .inr ?_⟩
    · rw [hcut, segments_slash]
    · have hslash := segments_slash (String.ofList chars) ""
      rw [String.append_empty] at hslash
      rw [hcut, hslash]
      rfl
  · exact ⟨segments dir, segments_slash dir rel, .inl rfl⟩

theorem isAbsolute_join (hdir : dir ≠ "") (hrel : isAbsolute rel = false) :
    isAbsolute (join dir rel) = isAbsolute dir := by
  obtain ⟨c, chars, hchars⟩ := List.exists_cons_of_ne_nil
    (fun hnil => hdir (String.toList_eq_nil_iff.1 hnil))
  rw [join_of_relative hrel]
  split <;> simp [isAbsolute, String.toList_append, hchars]

theorem join_ne_empty (hdir : dir ≠ "") (hrel : isAbsolute rel = false) : join dir rel ≠ "" := by
  rw [join_of_relative hrel]
  split <;> simp [String.append_eq_empty_iff, hdir]

theorem not_mem_join {c : Char} (hc : c ≠ '/') (hdir : c ∉ dir.toList) (hrel : c ∉ rel.toList) :
    c ∉ (join dir rel).toList := by
  rw [join]
  split
  · exact hrel
  · split <;> simp [hc, hdir, hrel]

/-! ## Names -/

structure IsName (name : String) : Prop where
  ne_empty : name ≠ ""
  ne_dot : name ≠ "."
  ne_dots : name ≠ ".."
  noSlash : '/' ∉ name.toList
  noNul : Char.ofNat 0 ∉ name.toList
  short : name.utf8ByteSize ≤ 255

instance (name : String) : Decidable (IsName name) :=
  decidable_of_iff (name ≠ "" ∧ name ≠ "." ∧ name ≠ ".." ∧ '/' ∉ name.toList ∧
      Char.ofNat 0 ∉ name.toList ∧ name.utf8ByteSize ≤ 255)
    ⟨fun ⟨h₁, h₂, h₃, h₄, h₅, h₆⟩ => ⟨h₁, h₂, h₃, h₄, h₅, h₆⟩,
      fun h => ⟨h.ne_empty, h.ne_dot, h.ne_dots, h.noSlash, h.noNul, h.short⟩⟩

theorem isAbsolute_intercalate (hne : parts ≠ [])
    (h : ∀ part ∈ parts, part ≠ "" ∧ '/' ∉ part.toList) :
    isAbsolute ("/".intercalate parts) = false := by
  rw [← Bool.not_eq_true]
  intro habsolute
  obtain ⟨rest, hrest⟩ := exists_segments_of_isAbsolute habsolute
  rw [segments_intercalate hne fun part hpart => (h part hpart).2] at hrest
  subst hrest
  exact (h "" List.mem_cons_self).1 rfl

theorem staysBelow_intercalate (hne : parts ≠ [])
    (h : ∀ part ∈ parts, part ≠ "" ∧ '/' ∉ part.toList) (hup : ".." ∉ parts) :
    staysBelow ("/".intercalate parts) = true := by
  simp [staysBelow, isAbsolute_intercalate hne h,
    segments_intercalate hne fun part hpart => (h part hpart).2, hup]

/-! ## Where parts lead -/

/-- One part further on: `..` takes back the name in front of it. -/
def advance (names : List String) (part : String) : List String :=
  if isIdle part then names
  else if part = ".." then names.dropLast
  else names ++ [part]

def descent (path : String) : List String := (segments path).foldl advance []

theorem foldl_advance (h : ".." ∉ parts) (names : List String) :
    parts.foldl advance names = names ++ parts.filter (! isIdle ·) := by
  induction parts generalizing names with
  | nil => simp
  | cons part parts ih =>
      have hpart : part ≠ ".." := Ne.symm (List.ne_of_not_mem_cons h)
      rw [List.foldl_cons, ih (List.not_mem_of_not_mem_cons h), advance, List.filter_cons]
      cases hidle : isIdle part with
      | true => simp
      | false => simp [hpart]

theorem descent_join (hrel : isAbsolute rel = false) (h : ".." ∉ segments rel) (dir : String) :
    descent (join dir rel) = descent dir ++ (segments rel).filter (! isIdle ·) := by
  by_cases hdir : dir = ""
  · subst hdir
    rw [join_of_relative hrel, if_pos (.inl rfl), String.empty_append, descent, foldl_advance h]
    rfl
  · obtain ⟨front, hjoin, hfront⟩ := exists_segments_join hdir hrel
    have hdescent : front.foldl advance [] = descent dir := by
      rcases hfront with hfront | hfront
      · rw [descent, hfront]
      · rw [descent, hfront, List.foldl_concat]
        rfl
    rw [descent, hjoin, List.foldl_append, foldl_advance h, hdescent]

/-! ## Extensions -/

theorem takeWhile_append_dot (chars : List Char)
    (h : (chars.takeWhile (· ≠ '.')).length ≠ chars.length) :
    chars.takeWhile (· ≠ '.') ++ '.' :: chars.drop ((chars.takeWhile (· ≠ '.')).length + 1)
      = chars := by
  induction chars with
  | nil => exact (h rfl).elim
  | cons c chars ih =>
      by_cases hc : c = '.'
      · simp [hc]
      · have hkeep : (c :: chars).takeWhile (· ≠ '.') = c :: chars.takeWhile (· ≠ '.') :=
          List.takeWhile_cons_of_pos (decide_eq_true hc)
        rw [hkeep] at h ⊢
        rw [List.length_cons, List.drop_succ_cons, List.cons_append,
          ih (fun hlength => h (by rw [List.length_cons, List.length_cons, hlength]))]

/-- A file name with an extension is the stem, a dot and the extension. The stem is never empty. -/
theorem eq_of_splitExtension {fileName stem ext : String}
    (h : splitExtension fileName = (stem, some ext)) :
    fileName = stem ++ "." ++ ext ∧ stem ≠ "" := by
  unfold splitExtension at h
  simp only at h
  split at h
  · cases h
  · rename_i hdivides
    obtain ⟨hdot, hfront⟩ := not_or.1 hdivides
    cases h
    have hparts := takeWhile_append_dot fileName.toList.reverse fun hlength =>
      hdot (by rw [hlength, List.length_reverse, String.length_toList])
    constructor
    · rw [← String.toList_inj, ← List.reverse_inj]
      refine hparts.symm.trans ?_
      simp
    · intro hempty
      rw [String.ofList_eq_empty_iff, List.reverse_eq_nil_iff] at hempty
      exact hfront (List.isEmpty_iff.2 hempty)

end Gsc.Path
