import FlowTrace.Dump.Reader
import FlowTrace.Proofs.Dump.Sharing
import FlowTrace.Time.Window
set_option autoImplicit false

/-!
# Dump: times of events

Dumps tell times as counts of microseconds.  The instants that they can tell are those outside leap
seconds without a fraction of a microsecond; their order is the one of the counts, and one
microsecond later lies the instant of the next count, as far as there is one.
-/

namespace FlowTrace.Instant

/-! ## Whole microseconds -/

/-- The instant lies outside leap seconds and has no fraction of a microsecond. -/
def IsWhole (t : Instant) : Prop := t.nano < secondNanos ∧ t.nano % 1000 = 0

instance (t : Instant) : Decidable t.IsWhole := inferInstanceAs (Decidable (_ ∧ _))

/-- The last microsecond of the year 262142. -/
def last : Instant := ⟨8210266876799, 999999000, by decide⟩

/-- There is an instant one microsecond later. -/
def hasNext (t : Instant) : Bool := (t.later? 1).isSome

variable {t u : Instant}

theorem IsWhole.isLeap (h : t.IsWhole) : t.isLeap = false :=
  decide_eq_false (Nat.not_le_of_lt h.1)

/-! ## Counts -/

theorem isWhole_of_ofMicros? {micros : Int} (h : ofMicros? micros = some t) : t.IsWhole := by
  obtain ⟨-, hnano⟩ := ofParts?_eq_some_iff.1 h
  simp only [IsWhole, secondNanos]
  omega

theorem IsWhole.ofMicros?_microsInt (h : t.IsWhole) : ofMicros? t.microsInt = some t := by
  simp only [IsWhole, secondNanos] at h
  rw [ofMicros?, ofParts?_eq_some_iff, microsInt]
  omega

theorem IsWhole.micros_inRange (h : t.IsWhole) : MicrosInRange t.microsInt := by
  rw [← ofMicros?_isSome_iff, h.ofMicros?_microsInt]
  rfl

theorem IsWhole.le_iff (ht : t.IsWhole) (hu : u.IsWhole) : t ≤ u ↔ t.microsInt ≤ u.microsInt := by
  simp only [IsWhole, secondNanos] at ht hu
  rw [Instant.le_iff, microsInt, microsInt]
  omega

/-! ## One microsecond later -/

theorem IsWhole.later?_one (h : t.IsWhole) : t.later? 1 = ofMicros? (t.microsInt + 1) := by
  simp only [IsWhole, secondNanos] at h
  have hstay : ¬ (secondNanos ≤ t.nano ∧ 1 / 1000000 = 0 ∧
      t.nano + 1 % 1000000 * 1000 < 2 * secondNanos) := by
    simp only [secondNanos]
    omega
  rw [later?, if_neg hstay, ofMicros?, microsInt]
  simp only [secondNanos]
  refine congr (congrArg ofParts? ?_) ?_
  · omega
  · omega

theorem IsWhole.of_later? (h : t.IsWhole) (hu : t.later? 1 = some u) : u.IsWhole :=
  isWhole_of_ofMicros? (h.later?_one ▸ hu)

/-- An instant that none follows lies behind all others. -/
theorem IsWhole.le_of_hasNext (ht : t.IsWhole) (hlast : t.hasNext = false) (hu : u.IsWhole) :
    u ≤ t := by
  have hnone : ¬ MicrosInRange (t.microsInt + 1) := by
    rw [← ofMicros?_isSome_iff, ← ht.later?_one]
    exact Bool.eq_false_iff.1 hlast
  have htop := ht.micros_inRange
  have hother := hu.micros_inRange
  rw [hu.le_iff ht]
  simp only [MicrosInRange] at hnone htop hother
  omega

end FlowTrace.Instant

/-!
## Events of a dump

The time of an event is written as a count of microseconds, which leap seconds have no part in.  So
every event of a dump has a whole number of them, whatever happens to its stream name.
-/

namespace FlowTrace

theorem Json.Record.exists_of_required? {α : Type} {record : Json.Record} {name : String}
    {read? : Json → Option α} {a : α} (h : record.required? name read? = some a) :
    ∃ value, read? value = some a := by
  obtain ⟨value, -, hvalue⟩ := Option.bind_eq_some_iff.1 h
  exact ⟨value, hvalue⟩

theorem Event.isWhole_of_ofJson? {repeated : Json.Repeated} {value : Json} {e : Event String}
    (h : ofJson? repeated value = some e) : e.time.IsWhole := by
  obtain ⟨record, -, h⟩ := Option.bind_eq_some_iff.1 h
  obtain ⟨time, htime, h⟩ := Option.bind_eq_some_iff.1 h
  have hkept : e.time = time := by
    simp only [Option.bind_eq_bind, Option.bind_eq_some_iff, Option.pure_def,
      Option.some.injEq] at h
    obtain ⟨_, -, _, -, _, -, _, -, _, -, _, -, _, -, _, -, rfl⟩ := h
    rfl
  obtain ⟨value, hvalue⟩ := Json.Record.exists_of_required? htime
  obtain ⟨micros, -, hmicros⟩ := Option.bind_eq_some_iff.1 hvalue
  rw [hkept]
  exact Instant.isWhole_of_ofMicros? hmicros

namespace Dump

theorem isWhole_of_recordEvents {records : List Json} {events : List (Event String)}
    (h : (recordEvents records).2 = .ok events) : ∀ e ∈ events, e.time.IsWhole := by
  simp only [recordEvents] at h
  split at h
  · cases h
  · cases h
    intro e he
    obtain ⟨result, hresult, he⟩ := List.mem_filterMap.1 he
    obtain ⟨record, -, rfl⟩ := List.mem_map.1 hresult
    unfold recordEvent at he
    split at he
    · rename_i heq
      cases he
      exact Event.isWhole_of_ofJson? heq
    · cases he

/-- The events of a dump have whole microseconds. -/
theorem isWhole_of_read {text : String} {events : List (Event StreamName)}
    (h : (read text).result = .ok events) : ∀ e ∈ events, e.time.IsWhole := by
  simp only [read] at h
  cases hfound : (records text.toList).2 with
  | error fault => simp [hfound] at h
  | ok found =>
    cases hread : (recordEvents found.2).2 with
    | error fault => simp [hfound, hread] at h
    | ok plain =>
      simp only [hfound, hread, Except.ok.injEq] at h
      subst h
      intro e he
      have hplain : e.mapStream StreamName.text ∈ plain := by
        rw [← map_text_shareNames plain]
        exact List.mem_map_of_mem he
      exact isWhole_of_recordEvents hread _ hplain

end Dump

end FlowTrace
