import FlowTrace.Trace.Record
set_option autoImplicit false

/-!
# Report: the time between two ends, told exactly

Durations of tasks and latencies of packets are both the time between two ends that may be unknown.
Told exactly it is an integer, and the word shown is that integer wherever it fits.
-/

namespace FlowTrace

/-- The time between two ends, told exactly, where both are known. -/
def between? (start finish : Option Int64) : Option Int :=
  match start, finish with
  | some s, some f => some (f.toInt - s.toInt)
  | _, _ => none

section

variable {start finish : Option Int64}

theorem isSome_between? : (between? start finish).isSome = (start.isSome && finish.isSome) := by
  cases start <;> cases finish <;> rfl

theorem elapsed_some (s f : Int64) : elapsed (some s) (some f) = (Word.sub f s).map some := rfl

/-- Where the time between two ends fits, it is what is shown. -/
theorem elapsed_of_fits (h : ∀ d ∈ between? start finish, Word.Fits d) :
    elapsed start finish = .ok ((between? start finish).map Int64.ofInt) := by
  cases start with
  | none => rfl
  | some s =>
    cases finish with
    | none => rfl
    | some f =>
      have hsub : Word.sub f s = .ok (Int64.ofInt (f.toInt - s.toInt)) := if_pos (h _ rfl)
      rw [elapsed_some, hsub]
      rfl

/-- What is shown of the time between two ends is the exact one. -/
theorem between?_of_elapsed {found : Option Int64} (h : elapsed start finish = .ok found) :
    between? start finish = found.map Int64.toInt := by
  cases start with
  | none =>
    cases h
    rfl
  | some s =>
    cases finish with
    | none =>
      cases h
      rfl
    | some f =>
      rw [elapsed_some] at h
      cases hsub : Word.sub f s with
      | error cause =>
        rw [hsub] at h
        cases h
      | ok w =>
        rw [hsub] at h
        cases h
        exact congrArg some (Word.toInt_of_exact hsub).symm

end

/-! ## The longest of some times -/

/-- The integer is one of the list, and none of the list is greater. -/
def Longest (d : Int) (ds : List Int) : Prop := d ∈ ds ∧ ∀ other ∈ ds, other ≤ d

theorem longest_singleton (d : Int) : Longest d [d] :=
  ⟨List.mem_singleton.2 rfl, fun _ hother => Int.le_of_eq (List.mem_singleton.1 hother)⟩

theorem Longest.concat {d : Int} {ds : List Int} (h : Longest d ds) (next : Int) :
    Longest (if d ≤ next then next else d) (ds ++ [next]) := by
  obtain ⟨hmem, hall⟩ := h
  split
  · rename_i hle
    refine ⟨List.mem_append_right _ (List.mem_singleton.2 rfl), fun other hother => ?_⟩
    rcases List.mem_append.1 hother with hold | hnew
    · exact Int.le_trans (hall other hold) hle
    · exact Int.le_of_eq (List.mem_singleton.1 hnew)
  · rename_i hlt
    refine ⟨List.mem_append_left _ hmem, fun other hother => ?_⟩
    rcases List.mem_append.1 hother with hold | hnew
    · exact hall other hold
    · rw [List.mem_singleton.1 hnew]
      omega

/-- Two lists with the same members have the same longest. -/
theorem Longest.unique {d d' : Int} {ds ds' : List Int} (h : Longest d ds) (h' : Longest d' ds')
    (hsame : ∀ other, other ∈ ds ↔ other ∈ ds') : d = d' :=
  Int.le_antisymm (h'.2 d ((hsame d).1 h.1)) (h.2 d' ((hsame d').2 h'.1))

end FlowTrace
