import FlowTrace.Files.Tree
set_option autoImplicit false

/-!
# Files: what was written is found

Writing changes one place, and that place is no directory.  So every path leads where it led before,
and the path that was written to leads to the file.
-/

namespace FlowTrace.FileTree

variable {tree : FileTree} {place : Place} {entry : FileEntry}

theorem lookup_set_self (tree : FileTree) (place : Place) (entry : FileEntry) :
    (tree.set place entry).entries.lookup place = some entry := by
  unfold set
  split
  · rename_i hold
    generalize tree.entries = entries at hold
    induction entries with
    | nil => cases hold
    | cons e entries ih =>
      obtain ⟨p, old⟩ := e
      by_cases hp : p = place
      · simp [hp]
      · have hdiffer : (place == p) = false := beq_false_of_ne (Ne.symm hp)
        rw [List.lookup_cons, hdiffer] at hold
        simp only [List.map_cons, if_neg hp, List.lookup_cons, hdiffer]
        exact ih hold
  · rename_i hnew
    have hnone : tree.entries.lookup place = none := Option.not_isSome_iff_eq_none.1 hnew
    simp [List.lookup_append, hnone]

theorem lookup_set_of_ne {other : Place} (h : other ≠ place) :
    (tree.set place entry).entries.lookup other = tree.entries.lookup other := by
  have hdiffer : (other == place) = false := beq_false_of_ne h
  unfold set
  split
  · generalize tree.entries = entries
    induction entries with
    | nil => rfl
    | cons e entries ih =>
      obtain ⟨p, old⟩ := e
      by_cases hp : p = place
      · subst hp
        simp only [List.map_cons, if_true, List.lookup_cons, hdiffer]
        exact ih
      · simp only [List.map_cons, if_neg hp, List.lookup_cons]
        rw [ih]
  · simp [List.lookup_append, List.lookup_cons, hdiffer]

/-- A place that is no directory has what was put there. -/
theorem entry?_set_self (h : tree.entry? place ≠ some .directory) :
    FileTree.entry? (tree.set place entry) place = some entry := by
  have hbelow : ¬ place.isAbove = true := fun habove => h (if_pos habove)
  rw [ entry?, if_neg hbelow, lookup_set_self]

/-- Directories stay when something else is put in a place that is none. -/
theorem entry?_set_of_directory (h : tree.entry? place ≠ some .directory) {other : Place}
    (hother : tree.entry? other = some .directory) :
    FileTree.entry? (tree.set place entry) other = some .directory := by
  have hne : other ≠ place := by
    rintro rfl
    exact h hother
  rw [ entry?, lookup_set_of_ne hne]
  exact hother

/-! ## Following paths -/

/-- A path that leads somewhere leads there in every tree that has the directories on the way. -/
theorem locate_of_directories {tree' : FileTree} {path : String}
    (h : ∀ q, tree.entry? q = some .directory → tree'.entry? q = some .directory)
    (hlocate : tree.locate path = .ok place) : tree'.locate path = .ok place := by
  have hfollow : ∀ {start stop : Place} {part : String}, tree.follow start part = .ok stop →
      tree'.follow start part = .ok stop := by
    intro start stop part hstep
    unfold follow at hstep ⊢
    cases hstart : tree.entry? start with
    | none => simp [hstart] at hstep
    | some entry =>
      cases entry with
      | file text => simp [hstart] at hstep
      | directory =>
        rw [hstart] at hstep
        rw [h start hstart]
        exact hstep
  have hfold : ∀ {parts : List String} {start : Place},
      parts.foldlM tree.follow start = .ok place → parts.foldlM tree'.follow start = .ok place := by
    intro parts
    induction parts with
    | nil => exact fun hdone => hdone
    | cons part parts ih =>
      intro start hsteps
      rw [List.foldlM_cons] at hsteps ⊢
      cases hstep : tree.follow start part with
      | error fault => rw [hstep] at hsteps; cases hsteps
      | ok next =>
        rw [hstep] at hsteps
        rw [hfollow hstep]
        exact ih hsteps
  unfold locate at hlocate ⊢
  by_cases hzero : path.contains '\x00' = true
  · rw [if_pos hzero] at hlocate
    cases hlocate
  · rw [if_neg hzero] at hlocate ⊢
    by_cases hempty : path = ""
    · rw [if_pos hempty] at hlocate
      cases hlocate
    · rw [if_neg hempty] at hlocate ⊢
      by_cases hlong : pathLimit < path.utf8ByteSize
      · rw [if_pos hlong] at hlocate
        cases hlocate
      · rw [if_neg hlong] at hlocate ⊢
        exact hfold hlocate

/-- What was written to a path is found there. -/
theorem find_of_write {written : FileTree} {path text : String}
    (h : tree.write path text = .ok written) :
    ∃ place, written.find path = .ok (place, .file (some text)) := by
  obtain ⟨place, hlocate, hnone, rfl⟩ : ∃ place, tree.locate path = .ok place ∧
      tree.entry? place ≠ some .directory ∧ written = tree.set place (.file (some text)) := by
    unfold write writable at h
    cases hlocate : tree.locate path with
    | error fault =>
      rw [hlocate] at h
      cases fault
      case notFound =>
        simp only at h
        split at h <;> cases h
      all_goals cases h
    | ok place =>
      rw [hlocate] at h
      by_cases hdirectory : tree.entry? place = some .directory
      · simp only [hdirectory, if_true] at h
        cases h
      · simp only [hdirectory, if_false] at h
        cases h
        exact ⟨place, rfl, hdirectory, rfl⟩
  refine ⟨place, ?_⟩
  have hfound : (tree.set place (.file (some text))).locate path = .ok place :=
    locate_of_directories (fun q hq => entry?_set_of_directory hnone hq) hlocate
  simp only [find, hfound, entry?_set_self hnone, bind, Except.bind]
  rfl

end FlowTrace.FileTree
