import Std.Data.HashMap
import FlowTrace.Decimal
import FlowTrace.Text
import FlowTrace.Trace.Record
set_option autoImplicit false

/-!
# Report: busy time of calculators

The durations of complete records are added up for each calculator and kind, in the order of the
records.  The loads are listed from the largest total down; equal totals are ordered by calculator
and then by kind, so that the order is the same however the loads were collected.  The table shows the
busiest calculators, one on each line, with their share of the total.
-/

namespace FlowTrace

/-- The busy time of one calculator in events of one kind. -/
structure NodeLoad where
  node : Int32
  kind : EventKind
  /-- the records with both ends -/
  taskCount : Nat
  /-- the sum of their durations -/
  totalMicros : Int64
  /-- the longest of their durations -/
  maxMicros : Int64
  deriving DecidableEq, Repr, Inhabited

namespace NodeLoad

/-- The load before any record. -/
def none (node : Int32) (kind : EventKind) : NodeLoad := ⟨node, kind, 0, 0, 0⟩

/-- The load with one more duration. -/
def add (load : NodeLoad) (duration : Int64) : Except Overflow NodeLoad := do
  let totalMicros ← Word.add load.totalMicros duration
  return { load with
    taskCount := load.taskCount + 1
    totalMicros
    maxMicros := max load.maxMicros duration }

/-- The mean duration, rounded toward zero.  The count is taken as a signed word. -/
def meanMicros (load : NodeLoad) : Except Overflow Int64 :=
  Word.div load.totalMicros (Int64.ofNat (max load.taskCount 1))

/-- Loads by calculator and kind. -/
abbrev Loads := Std.HashMap (Int32 × EventKind) NodeLoad

/-- The loads with one more record; an incomplete record changes nothing. -/
def addRecord (loads : Loads) (r : TaskRecord) : Except Overflow Loads := do
  match ← r.duration with
  | Option.none => return loads
  | some duration =>
    let load ← (loads.getD (r.node, r.kind) (NodeLoad.none r.node r.kind)).add duration
    return loads.insert (r.node, r.kind) load

/-- The order of the list: larger totals first, then by calculator, then by kind. -/
def listedBefore (a b : NodeLoad) : Bool :=
  if a.totalMicros = b.totalMicros then
    if a.node = b.node then a.kind.ordinal ≤ b.kind.ordinal else a.node ≤ b.node
  else b.totalMicros ≤ a.totalMicros

/-- The loads of a trace, in order. -/
def ofTrace (trace : Trace) : Except Overflow (List NodeLoad) := do
  let loads ← trace.records.foldlM addRecord Std.HashMap.emptyWithCapacity
  return loads.values.mergeSort listedBefore

end NodeLoad

/-! ## The table -/

namespace Report

/-- One line of seven cells: two at the left of their columns, five at the right. -/
def line (node kind tasks total mean longest share : String) : String :=
  "  " ++ Text.joinWith " "
    [Text.alignLeft 8 node, Text.alignLeft 18 kind, Text.alignRight 8 tasks,
     Text.alignRight 12 total, Text.alignRight 10 mean, Text.alignRight 10 longest,
     Text.alignRight 7 share]

/-- The title and the heads of the columns. -/
def header : List String :=
  ["  CALCULATOR BUSY TIME",
   line "NODE" "EVENT" "TASKS" "TOTAL(us)" "MEAN(us)" "MAX(us)" "%",
   "  " ++ Text.rule '-' 79]

/-- A part of a total in per cent, with one place. -/
def percent (part total : Int64) : String :=
  Decimal.fixed 1 (part.toFloat / total.toFloat * 100) ++ "%"

/-- The line of one load. -/
def row (total : Int64) (load : NodeLoad) : Except Overflow String := do
  let mean ← load.meanMicros
  return line (Text.ofInt load.node.toInt) load.kind.name (Text.ofNat load.taskCount)
    (Text.ofInt load.totalMicros.toInt) (Text.ofInt mean.toInt) (Text.ofInt load.maxMicros.toInt)
    (percent load.totalMicros total)

/-- What is said about loads that are not shown. -/
def omitted (shown all : Nat) : List String :=
  if shown < all then
    ["", "   (Showing top " ++ Text.ofNat shown ++ " of " ++ Text.ofNat all ++ " calculators)"]
  else []

/-- The table of the first `shown` loads; shares are of the total of all loads, at least one. -/
def table (loads : List NodeLoad) (shown : Nat) : Except Overflow String := do
  let total ← Word.sum (loads.map NodeLoad.totalMicros)
  let rows ← (loads.take shown).mapM (row (max total 1))
  return Text.joinWith "\n" (header ++ rows ++ omitted shown loads.length)

end Report

end FlowTrace
