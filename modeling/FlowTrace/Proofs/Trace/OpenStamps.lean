import Mathlib.Data.List.TakeWhile
import FlowTrace.Proofs.Time.Earliest
import FlowTrace.Proofs.Trace.Folding
import FlowTrace.Trace.Record
set_option autoImplicit false

/-!
# Trace: the stamps that events leave open

The stamp after some events lies behind every stamp of the events that were looked at, unless
nothing lies behind.  Looked at are the events in front of the first one that is not before the
instant: all events before the instant where these are listed first, and only some of them where one
is listed behind a later event.
-/

namespace FlowTrace

namespace Timestamp

theorem toInt_later (a b : Timestamp) :
    (later a b).value.toInt = max a.value.toInt b.value.toInt := by
  show (if a.value ≤ b.value then b.value else a.value).toInt = _
  split
  case isTrue h => rw [Int64.le_iff_toInt_le] at h; omega
  case isFalse h => rw [Int64.le_iff_toInt_le] at h; omega

/-- The latest stamp lies before none of those it was chosen from. -/
theorem le_foldl_later (first : Timestamp) (stamps : List Timestamp) :
    ∀ t ∈ first :: stamps, t.value ≤ (stamps.foldl later first).value := by
  induction stamps generalizing first with
  | nil => simp
  | cons stamp stamps ih =>
    have hlatest := ih (later first stamp)
    simp only [List.forall_mem_cons, Int64.le_iff_toInt_le, toInt_later] at hlatest ⊢
    rw [List.foldl_cons]
    exact ⟨by omega, by omega, hlatest.2⟩

theorem toInt_next (t : Timestamp) :
    t.next.value.toInt = min (t.value.toInt + 1) done.value.toInt := by
  have hfits := Word.fits_toInt t.value
  have hnext : t.next.value.toInt = max Word.least (min Word.greatest (t.value.toInt + 1)) :=
    Word.toInt_ofIntClamp _
  have hdone : done.value.toInt = Word.greatest := rfl
  simp only [Word.Fits, Word.least, Word.greatest] at hfits hnext hdone
  omega

/-- A tick leads to a later time, except from the last one. -/
theorem lt_next (t : Timestamp) : t.value < t.next.value ∨ t.next = done := by
  have hnext := t.toInt_next
  by_cases hlast : t.value.toInt < done.value.toInt
  · left
    rw [Int64.lt_iff_toInt_lt]
    omega
  · right
    have hdone : t.next.value.toInt = done.value.toInt := by omega
    exact congrArg Timestamp.mk (Int64.toInt_inj.1 hdone)

end Timestamp

variable {ν : Type}

/-- The stamps of these events lie before `t`, unless `t` is the last time. -/
def Timestamp.IsBehind (t : Timestamp) (events : List (Event ν)) : Prop :=
  t = .done ∨ ∀ e ∈ events, e.inputStamp.value < t.value

instance (t : Timestamp) (events : List (Event ν)) : Decidable (t.IsBehind events) :=
  inferInstanceAs (Decidable (_ ∨ _))

/-- The stamp after some events lies behind those that were looked at. -/
theorem isBehind_timestampAfter (buffer : List (Event ν)) (start : Instant) :
    (timestampAfter buffer start).IsBehind (buffer.takeWhile fun e => e.time < start) := by
  unfold timestampAfter
  rcases Timestamp.lt_next (((buffer.takeWhile fun e => e.time < start).map
    Event.inputStamp).foldl Timestamp.later .least) with hlater | hdone
  · right
    intro e he
    have hle := Timestamp.le_foldl_later .least _ e.inputStamp
      (List.mem_cons_of_mem _ (List.mem_map_of_mem he))
    rw [Int64.le_iff_toInt_le] at hle
    rw [Int64.lt_iff_toInt_lt] at hlater ⊢
    exact Int.lt_of_le_of_lt hle hlater
  · exact .inl hdone

/-- Where no event before the instant is listed behind one that is not, those before it are the ones
looked at. -/
theorem takeWhile_eq_filter_of_pairwise {α : Type} {p : α → Bool} {l : List α}
    (h : l.Pairwise fun a b => p b = true → p a = true) : l.takeWhile p = l.filter p := by
  induction l with
  | nil => rfl
  | cons a l ih =>
    obtain ⟨hfirst, hrest⟩ := List.pairwise_cons.1 h
    by_cases ha : p a = true
    · rw [List.takeWhile_cons_of_pos ha, List.filter_cons_of_pos ha, ih hrest]
    · have hnone : l.filter p = [] := List.filter_eq_nil_iff.2 fun b hb hpb => ha (hfirst b hb hpb)
      rw [List.takeWhile_cons_of_neg ha, List.filter_cons_of_neg ha, hnone]

end FlowTrace

/-!
## The first open stamp and the events before it

The stamp that events leave open lies one tick behind the latest stamp that was met on the way to the
first event that is not before the instant.  A later instant lets the scan go on, so the stamp never
goes back.  In a list sorted by time the scan meets the events before the instant and no others;
then the stamp is told by these events as a set, wherever and in whatever order the others are listed
behind them (`timestampAfter_toldByEarlier`).
-/

namespace FlowTrace

variable {ν : Type}

/-! ## Ticks and latest stamps -/

namespace Timestamp

theorem next_le_next {a b : Timestamp} (h : a.value ≤ b.value) : a.next.value ≤ b.next.value := by
  rw [Int64.le_iff_toInt_le] at h ⊢
  rw [toInt_next, toInt_next]
  omega

theorem next_le_done (t : Timestamp) : t.next.value ≤ done.value := by
  rw [Int64.le_iff_toInt_le, toInt_next]
  exact Int.min_le_right _ _

theorem later_eq_or (a b : Timestamp) : later a b = a ∨ later a b = b := by
  by_cases h : a.value ≤ b.value
  · exact .inr (congrArg Timestamp.mk (if_pos h))
  · exact .inl (congrArg Timestamp.mk (if_neg h))

/-- The latest of some stamps is one of them. -/
theorem foldl_later_mem (first : Timestamp) (stamps : List Timestamp) :
    stamps.foldl later first ∈ first :: stamps := by
  induction stamps generalizing first with
  | nil => exact List.mem_singleton_self first
  | cons stamp stamps ih =>
    rw [List.foldl_cons]
    rcases List.mem_cons.1 (ih (later first stamp)) with hfirst | hrest
    · rw [hfirst]
      rcases later_eq_or first stamp with h | h
      · rw [h]
        exact List.mem_cons_self
      · rw [h]
        exact List.mem_cons_of_mem _ List.mem_cons_self
    · exact List.mem_cons_of_mem _ (List.mem_cons_of_mem _ hrest)

/-- The latest of the least ordinary time and the input stamps of some events. -/
structure IsLatest (t : Timestamp) (events : List (Event ν)) : Prop where
  among : t = least ∨ ∃ e ∈ events, e.inputStamp = t
  least_le : least.value ≤ t.value
  le : ∀ e ∈ events, e.inputStamp.value ≤ t.value

theorem isLatest_foldl_later (events : List (Event ν)) :
    ((events.map Event.inputStamp).foldl later least).IsLatest events := by
  have hle := le_foldl_later least (events.map Event.inputStamp)
  refine ⟨?_, hle least List.mem_cons_self, fun e he => ?_⟩
  · rcases List.mem_cons.1 (foldl_later_mem least (events.map Event.inputStamp)) with h | h
    · exact .inl h
    · exact .inr (List.mem_map.1 h)
  · exact hle e.inputStamp (List.mem_cons_of_mem _ (List.mem_map_of_mem he))

variable {t t' : Timestamp} {events events' : List (Event ν)}

/-- More events have no earlier latest stamp. -/
theorem IsLatest.value_le (h : t.IsLatest events) (h' : t'.IsLatest events')
    (hsub : events ⊆ events') : t.value ≤ t'.value := by
  rcases h.among with rfl | ⟨e, he, rfl⟩
  · exact h'.least_le
  · exact h'.le e (hsub he)

/-- The latest stamp is told by the events as a set. -/
theorem IsLatest.unique (h : t.IsLatest events) (h' : t'.IsLatest events')
    (hsame : ∀ e, e ∈ events ↔ e ∈ events') : t = t' := by
  have hle := h.value_le h' fun e => (hsame e).1
  have hge := h'.value_le h fun e => (hsame e).2
  exact congrArg Timestamp.mk (Int64.le_antisymm hle hge)

end Timestamp

/-! ## Scans -/

section

variable {buffer buffer' : List (Event ν)} {start later : Instant}

/-- The stamp lies one tick behind the latest one that the scan has met. -/
theorem exists_latest (buffer : List (Event ν)) (start : Instant) :
    ∃ latest : Timestamp, latest.IsLatest (buffer.takeWhile fun e => e.time < start) ∧
      timestampAfter buffer start = latest.next :=
  ⟨_, Timestamp.isLatest_foldl_later _, rfl⟩

/-- A scan up to a later instant meets no fewer events. -/
theorem takeWhile_subset_of_le (h : start ≤ later) :
    (buffer.takeWhile fun e => e.time < start) ⊆ buffer.takeWhile fun e => e.time < later := by
  -- in a list that is not sorted a filter would not do: both scans stop at their first failure
  have hscan : (buffer.takeWhile fun e => e.time < start) =
      (buffer.takeWhile fun e => e.time < later).takeWhile fun e => e.time < start := by
    rw [List.takeWhile_takeWhile]
    refine congrArg (List.takeWhile · buffer) (funext fun e => decide_eq_decide.2 ?_)
    simp only [decide_eq_true_eq]
    exact ⟨fun he => ⟨he, Std.lt_of_lt_of_le he h⟩, And.left⟩
  rw [hscan]
  exact (List.takeWhile_prefix _).subset

/-- The events are listed in the order of their times. -/
def SortedByTime (buffer : List (Event ν)) : Prop := buffer.Pairwise fun d e => d.time ≤ e.time

/-- The events before the instant are listed in front of all others. -/
def EarlierFirst (start : Instant) (buffer : List (Event ν)) : Prop :=
  buffer.Pairwise fun d e => e.time < start → d.time < start

instance (buffer : List (Event ν)) : Decidable (SortedByTime buffer) :=
  inferInstanceAs (Decidable (List.Pairwise _ _))

theorem SortedByTime.earlierFirst (h : SortedByTime buffer) (start : Instant) :
    EarlierFirst start buffer :=
  h.imp fun hle hlt => Std.lt_of_le_of_lt hle hlt

theorem earlierFirst_append {earlier others : List (Event ν)}
    (hearlier : ∀ e ∈ earlier, e.time < start) (hothers : ∀ e ∈ others, ¬ e.time < start) :
    EarlierFirst start (earlier ++ others) := by
  refine List.pairwise_append.2 ⟨?_, ?_, ?_⟩
  · exact List.pairwise_of_forall_mem_list fun d hd _ _ _ => hearlier d hd
  · exact List.pairwise_of_forall_mem_list fun _ _ e he hlt => absurd hlt (hothers e he)
  · exact fun d hd _ _ _ => hearlier d hd

/-- The scan meets exactly the events before the instant where these are listed first. -/
theorem EarlierFirst.takeWhile_eq (h : EarlierFirst start buffer) :
    (buffer.takeWhile fun e => e.time < start) = buffer.filter fun e => e.time < start :=
  takeWhile_eq_filter_of_pairwise (h.imp fun hfirst => by simpa using hfirst)

/-- Two lists of the same earlier events leave the same stamp open. -/
theorem EarlierFirst.timestampAfter_eq (h : EarlierFirst start buffer)
    (h' : EarlierFirst start buffer')
    (hsame : ∀ e, e.time < start → (e ∈ buffer ↔ e ∈ buffer')) :
    timestampAfter buffer start = timestampAfter buffer' start := by
  obtain ⟨latest, hlatest, hstamp⟩ := exists_latest buffer start
  obtain ⟨latest', hlatest', hstamp'⟩ := exists_latest buffer' start
  rw [h.takeWhile_eq] at hlatest
  rw [h'.takeWhile_eq] at hlatest'
  have hmem : ∀ e, e ∈ buffer.filter (fun e => e.time < start) ↔
      e ∈ buffer'.filter fun e => e.time < start := by
    intro e
    rw [List.mem_filter, List.mem_filter, decide_eq_true_eq]
    exact and_congr_left fun he => hsame e he
  rw [hstamp, hstamp', hlatest.unique hlatest' hmem]

end

/-- A later instant never takes the stamp back, and the stamp lies between the tick behind the least
ordinary time and the last time of all, whatever the order of the events.  In a list sorted by time it
lies one tick behind the latest of the least ordinary time and the stamps of all events before the
instant, where something lies behind.  So it is the same in every sorted list with the same events
before the instant, and in every list that has these events in front, in any order and any number of
times, and behind them any events that are not before the instant. -/
theorem timestampAfter_toldByEarlier (buffer : List (Event ν)) :
    (∀ start later : Instant, start ≤ later →
      (timestampAfter buffer start).value ≤ (timestampAfter buffer later).value) ∧
    (∀ start : Instant, Timestamp.least.next.value ≤ (timestampAfter buffer start).value ∧
      (timestampAfter buffer start).value ≤ Timestamp.done.value) ∧
    (SortedByTime buffer → ∀ start : Instant,
      (∃ latest : Timestamp, latest.IsLatest (buffer.filter fun e => e.time < start) ∧
        (timestampAfter buffer start).value.toInt =
          min (latest.value.toInt + 1) Timestamp.done.value.toInt) ∧
      (∀ buffer', SortedByTime buffer' → (∀ e, e.time < start → (e ∈ buffer' ↔ e ∈ buffer)) →
        timestampAfter buffer' start = timestampAfter buffer start) ∧
      ∀ earlier others, (∀ e, e ∈ earlier ↔ e ∈ buffer ∧ e.time < start) →
        (∀ e ∈ others, ¬ e.time < start) →
          timestampAfter (earlier ++ others) start = timestampAfter buffer start) := by
  refine ⟨fun start later hle => ?_, fun start => ?_, fun hsorted start => ⟨?_, ?_, ?_⟩⟩
  · obtain ⟨latest, hlatest, hstamp⟩ := exists_latest buffer start
    obtain ⟨latest', hlatest', hstamp'⟩ := exists_latest buffer later
    rw [hstamp, hstamp']
    exact Timestamp.next_le_next (hlatest.value_le hlatest' (takeWhile_subset_of_le hle))
  · obtain ⟨latest, hlatest, hstamp⟩ := exists_latest buffer start
    rw [hstamp]
    exact ⟨Timestamp.next_le_next hlatest.least_le, latest.next_le_done⟩
  · obtain ⟨latest, hlatest, hstamp⟩ := exists_latest buffer start
    rw [(hsorted.earlierFirst start).takeWhile_eq] at hlatest
    exact ⟨latest, hlatest, by rw [hstamp, latest.toInt_next]⟩
  · intro buffer' hsorted' hsame
    exact (hsorted'.earlierFirst start).timestampAfter_eq (hsorted.earlierFirst start) hsame
  · intro earlier others hearlier hothers
    have hfirst : EarlierFirst start (earlier ++ others) :=
      earlierFirst_append (fun e he => ((hearlier e).1 he).2) hothers
    refine hfirst.timestampAfter_eq (hsorted.earlierFirst start) fun e he => ?_
    rw [List.mem_append, hearlier e]
    constructor
    · rintro (⟨hold, -⟩ | hother)
      · exact hold
      · exact absurd he (hothers e hother)
    · exact fun hold => .inl ⟨hold, he⟩

/-- An event of a second of the first minute with an input stamp. -/
def stamped (second : Nat) (stamp : Int64) : Event String :=
  ⟨.ofSecond ⟨second % 60, Nat.mod_lt second (by decide)⟩, 0, ⟨stamp⟩, .unset, .processed, none,
    none, 0, false⟩

/-- Events in the order of their times, two of them at the same time. -/
def tied : List (Event String) := [stamped 1 5, stamped 2 9, stamped 2 7, stamped 3 40]

/-- The tie turned round, without the last event. -/
def turned : List (Event String) := [stamped 1 5, stamped 2 7, stamped 2 9]

/-- Before the third second, nothing changes when the tie is turned round and the last event gives
way to two others, the later one first. -/
theorem timestampAfter_toldByEarlier_tied :
    SortedByTime tied ∧ SortedByTime turned ∧
      (timestampAfter tied (stamped 2 0).time).value ≤
        (timestampAfter tied (stamped 3 0).time).value ∧
      timestampAfter turned (stamped 3 0).time = timestampAfter tied (stamped 3 0).time ∧
      timestampAfter (turned ++ [stamped 8 60, stamped 4 50]) (stamped 3 0).time =
        timestampAfter tied (stamped 3 0).time := by
  have hsorted : SortedByTime tied := by decide
  have hturned : SortedByTime turned := by decide
  have hmem : ∀ e, e ∈ turned ↔ e ∈ tied ∧ e.time < (stamped 3 0).time := by
    intro e
    simp only [turned, tied, List.mem_cons, List.not_mem_nil, or_false]
    constructor
    · rintro (rfl | rfl | rfl)
      · exact ⟨.inl rfl, by decide⟩
      · exact ⟨.inr (.inr (.inl rfl)), by decide⟩
      · exact ⟨.inr (.inl rfl), by decide⟩
    · rintro ⟨rfl | rfl | rfl | rfl, hbefore⟩
      · exact .inl rfl
      · exact .inr (.inr rfl)
      · exact .inr (.inl rfl)
      · exact absurd hbefore (by decide)
  obtain ⟨hmono, -, hset⟩ := timestampAfter_toldByEarlier tied
  obtain ⟨-, hsame, hfront⟩ := hset hsorted (stamped 3 0).time
  refine ⟨hsorted, hturned, hmono _ _ (by decide), hsame turned hturned fun e he => ?_,
    hfront turned _ hmem (by decide)⟩
  rw [hmem e]
  exact and_iff_left he

end FlowTrace
