import Mathlib.Data.List.Induction
import Mathlib.Data.List.Perm.Subperm
import FlowTrace.Proofs.Naming.Ids
set_option autoImplicit false

/-!
# Naming: what tables come to list

A table that is asked for keys lists them after those it had, each at its first occurrence.  So the
numbering that some work leaves behind is determined by the numbering before it and the keys asked
for: neither the allocations that names came with nor the number of times they came leave a mark.
-/

namespace FlowTrace

/-! ## First occurrences -/

section

variable {α : Type} [DecidableEq α]

theorem eraseDups_append_of_subset {l new : List α} (h : new ⊆ l) :
    (l ++ new).eraseDups = l.eraseDups := by
  have hnone : new.removeAll l = [] := by
    rw [List.removeAll, List.filter_eq_nil_iff]
    intro a ha
    simpa using h ha
  rw [List.eraseDups_append, hnone, List.eraseDups_nil, List.append_nil]

theorem eraseDups_concat (l : List α) (a : α) :
    (l ++ [a]).eraseDups = if a ∈ l then l.eraseDups else l.eraseDups ++ [a] := by
  split
  · rename_i hold
    exact eraseDups_append_of_subset (List.cons_subset.2 ⟨hold, List.nil_subset l⟩)
  · rename_i hnew
    have hkept : [a].removeAll l = [a] := by simp [List.removeAll, hnew]
    rw [List.eraseDups_append, hkept]
    rfl

theorem nodup_eraseDups (l : List α) : l.eraseDups.Nodup := by
  induction l using List.reverseRecOn with
  | nil => exact List.nodup_nil
  | append_singleton l a ih =>
    rw [eraseDups_concat]
    split
    · exact ih
    · rename_i hnew
      rw [← List.concat_eq_append]
      exact ih.concat (mt List.mem_eraseDups.1 hnew)

theorem length_eraseDups_le (l : List α) : l.eraseDups.length ≤ l.length :=
  (List.subperm_of_subset (nodup_eraseDups l) fun _ => List.mem_eraseDups.1).length_le

theorem eraseDups_of_nodup {l : List α} (h : l.Nodup) : l.eraseDups = l := by
  induction l using List.reverseRecOn with
  | nil => rfl
  | append_singleton l a ih =>
    rw [← List.concat_eq_append, List.nodup_concat] at h
    rw [eraseDups_concat, if_neg h.1, ih h.2]

/-- First occurrences can be picked out on the way. -/
theorem eraseDups_eraseDups_append (l new : List α) :
    (l.eraseDups ++ new).eraseDups = (l ++ new).eraseDups := by
  have hsame : new.removeAll l.eraseDups = new.removeAll l := by
    rw [List.removeAll, List.removeAll]
    exact List.filter_congr fun a _ => by simp
  rw [List.eraseDups_append, List.eraseDups_append, eraseDups_of_nodup (nodup_eraseDups l), hsame]

/-- What a threaded map lists in the end, if each step lists some keys. -/
theorem list_mapThrough {σ β γ : Type} {f : σ → β → γ × σ} {p : σ → Prop} (listed : σ → List α)
    {keys : β → List α} {bs : List β}
    (hstep : ∀ s b, b ∈ bs → p s →
      p (f s b).2 ∧ listed (f s b).2 = (listed s ++ keys b).eraseDups)
    {s : σ} (hs : p s) (hnodup : (listed s).Nodup) :
    listed (mapThrough f s bs).2 = (listed s ++ bs.flatMap keys).eraseDups := by
  induction bs generalizing s with
  | nil => rw [List.flatMap_nil, List.append_nil, eraseDups_of_nodup hnodup, mapThrough_nil]
  | cons b bs ih =>
    obtain ⟨hkept, hlisted⟩ := hstep s b List.mem_cons_self hs
    have hnext : (listed (f s b).2).Nodup := by
      rw [hlisted]
      exact nodup_eraseDups _
    rw [mapThrough_cons, ih (fun s c hc => hstep s c (List.mem_cons_of_mem b hc)) hkept hnext,
      hlisted, eraseDups_eraseDups_append, List.flatMap_cons, List.append_assoc]

end

/-! ## Tables -/

theorem IdTable.toList_intern_eq {α : Type} [DecidableEq α] [Hashable α] (t : IdTable α) (a : α) :
    (t.intern a).2.toList = (t.toList ++ [a]).eraseDups := by
  rw [toList_intern, eraseDups_concat, eraseDups_of_nodup t.nodup_toList]

theorem StreamIds.nodup_names (t : StreamIds) : t.names.Nodup := t.table.nodup_toList

theorem StreamIds.names_internName_eq {t : StreamIds} (ht : t.Faithful) (name : Option StreamName) :
    (t.internName name).2.names = (t.names ++ [StreamName.textOf name]).eraseDups := by
  rw [names_internName ht, eraseDups_concat, eraseDups_of_nodup t.nodup_names]

namespace IdTables

/-- The payload handles in the order of their ids. -/
def handles (t : IdTables) : List UInt64 := t.payloads.toList

theorem nodup_handles (t : IdTables) : t.handles.Nodup := t.payloads.nodup_toList

theorem Faithful.getElem?_handles_zero {t : IdTables} (ht : t.Faithful) :
    t.handles[0]? = some 0 :=
  (t.payloads.id?_eq_some_iff 0 0).1 ht.null

theorem Faithful.null_mem_handles {t : IdTables} (ht : t.Faithful) : 0 ∈ t.handles :=
  List.mem_of_getElem? ht.getElem?_handles_zero

theorem handles_payload {t : IdTables} (hnull : 0 ∈ t.handles) (handle : Option UInt64) :
    (t.payload handle).2.handles = (t.handles ++ [handle.getD 0]).eraseDups := by
  cases handle with
  | none =>
    rw [Option.getD_none, eraseDups_concat, if_pos hnull, eraseDups_of_nodup t.nodup_handles]
    rfl
  | some address => exact t.payloads.toList_intern_eq address

end IdTables

end FlowTrace
