import FlowTrace.Decimal
import FlowTrace.Trace.Record
set_option autoImplicit false

/-!
# Report: latency of hops

The time that packets took from producer to consumer, over all packets taken in.  A packet whose
producer was not seen counts as unresolved.
-/

namespace FlowTrace

/-- How long packets took from producer to consumer. -/
structure HopLatency where
  /-- packets with both times -/
  resolved : Nat
  /-- packets without -/
  unresolved : Nat
  meanMicros : Float
  medianMicros : Int64
  maxMicros : Int64
  deriving Repr, Inhabited

namespace HopLatency

/-- The latencies of all packets taken in, in the order of the records. -/
def latencies (trace : Trace) : Except Overflow (List (Option Int64)) :=
  (trace.records.flatMap TaskRecord.inputs).mapM StreamRecord.latency

/-- The statistics of some latencies in ascending order, with the number of unresolved packets.  The
mean divides two doubles; the median is the upper one of two in the middle. -/
def ofSorted (sorted : List Int64) (unresolved : Nat) : Except Overflow HopLatency :=
  match sorted.getLast? with
  | none => .ok ⟨0, unresolved, 0, 0, 0⟩
  | some maxMicros => do
    let total ← Word.sum sorted
    return {
      resolved := sorted.length
      unresolved
      meanMicros := total.toFloat / sorted.length.toUInt64.toFloat
      medianMicros := sorted.getD (sorted.length / 2) 0
      maxMicros }

/-- The latency statistics of a trace. -/
def ofTrace (trace : Trace) : Except Overflow HopLatency := do
  let all ← latencies trace
  let resolved := all.filterMap id
  ofSorted (resolved.mergeSort fun a b => a ≤ b) (all.length - resolved.length)

/-- The statistics on one line. -/
def summary (l : HopLatency) : String :=
  "Hops: " ++ Text.ofNat l.resolved ++ " resolved, " ++ Text.ofNat l.unresolved ++
    " unresolved | Mean: " ++ Decimal.fixed 1 l.meanMicros ++ "us | Median: " ++
    Text.ofInt l.medianMicros.toInt ++ "us | Max: " ++ Text.ofInt l.maxMicros.toInt ++ "us"

end HopLatency

end FlowTrace
