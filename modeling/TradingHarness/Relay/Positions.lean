import TradingHarness.Library.Holes
import TradingHarness.Membership.Sectors
import TradingHarness.Relay.EventSpool

set_option autoImplicit false

/-! # Positions of the chats

The part of the event spool of the bridge that knows which positions of a chat were seen: what the four operations
record, which gaps are left, and what the telemetry counts. -/

namespace TradingHarness

/-! ## Tables -/

/-- `coverage_type` of `position_coverage`. -/
inductive CoverageType
  | observed
  | recovered
  | filtered
  deriving DecidableEq

/-- A row of `position_coverage`. -/
structure PositionCoverage where
  chatId : List Char
  position : ℤ
  coverageType : CoverageType
  recordedAt : ℤ

/-- A row of `position_recoveries`. -/
structure PositionRecovery where
  chatId : List Char
  position : ℤ
  recoveredAt : ℤ

/-- A row of `filtered_events`. -/
structure FilteredEvent where
  eventId : List Char
  chatId : List Char
  messageId : List Char
  position : Option ℤ
  sourceKey : List Char
  keyword : List Char
  reason : List Char
  createdAt : ℤ

/-- A row of `position_stats`. -/
structure PositionStats where
  chatId : List Char
  lastPosition : Option ℤ
  missingPositionCount : ℤ := 0
  gapEventCount : ℕ := 0
  lastGapStart : Option ℤ := none
  lastGapEnd : Option ℤ := none
  lastGapAt : Option ℤ := none
  outOfOrderCount : ℕ := 0
  recoveredPositionCount : ℕ := 0
  lastRecoveredPosition : Option ℤ := none
  lastRecoveredAt : Option ℤ := none
  updatedAt : ℤ

/-- The spool with its tables of positions. -/
structure PositionSpool where
  spool : EventSpool := {}
  filtered : List FilteredEvent := []
  recoveries : List PositionRecovery := []
  coverage : List PositionCoverage := []
  stats : List PositionStats := []

/-! ## What is recorded -/

/-- `_payload_position` of what `int(…)` makes of the value. -/
def payloadPosition (value : Option ℤ) : Option ℤ := value.filter (fun position => 0 < position)

/-- `_record_position_coverage_locked`: `INSERT OR IGNORE` of a position that is one. -/
def recordCoverage (now : ℤ) (chatId : List Char) (position : Option ℤ) (coverageType : CoverageType)
    (coverage : List PositionCoverage) : List PositionCoverage :=
  match position with
  | none => coverage
  | some position =>
    if chatId = [] ∨ position ≤ 0 then coverage
    else if coverage.any (fun row =>
        row.chatId == chatId && row.position == position && row.coverageType == coverageType) then coverage
    else coverage ++ [⟨chatId, position, coverageType, now⟩]

/-- The gap that `record_position` returns. -/
structure PositionGap where
  previous : ℤ
  current : ℤ
  start : ℤ
  last : ℤ
  missing : ℤ

def recordPositionLocked (now : ℤ) (chatId : List Char) (position : Option ℤ) (stats : List PositionStats) :
    Option PositionGap × List PositionStats :=
  match position with
  | none => (none, stats)
  | some position =>
    if chatId = [] then (none, stats)
    else match Keyed.find PositionStats.chatId chatId stats with
    | none => (none, stats ++ [{ chatId := chatId, lastPosition := some position, updatedAt := now }])
    | some row =>
      let update := fun change => Keyed.update PositionStats.chatId chatId change stats
      match row.lastPosition with
      | none => (none, update (fun row => { row with lastPosition := some position, updatedAt := now }))
      | some previous =>
        if position < previous then
          (none, update (fun row => { row with outOfOrderCount := row.outOfOrderCount + 1, updatedAt := now }))
        else if position = previous then (none, stats)
        else
          let missing := position - previous - 1
          if missing ≤ 0 then
            (none, update (fun row => { row with lastPosition := some position, updatedAt := now }))
          else
            (some ⟨previous, position, previous + 1, position - 1, missing⟩,
              update (fun row => { row with
                lastPosition := some position
                missingPositionCount := row.missingPositionCount + missing
                gapEventCount := row.gapEventCount + 1
                lastGapStart := some (previous + 1)
                lastGapEnd := some (position - 1)
                lastGapAt := some now
                updatedAt := now }))

section Operations

variable (settings : SpoolSettings) (now : ℤ)

/-- `record_position` of a payload, by its chat and its position. -/
def recordPosition (chatId : List Char) (position : Option ℤ) (spool : PositionSpool) :
    Option PositionGap × PositionSpool :=
  let chatId := settings.strip chatId
  let position := payloadPosition position
  let (gap, stats) := recordPositionLocked now chatId position spool.stats
  (gap, { spool with stats := stats, coverage := recordCoverage now chatId position .observed spool.coverage })

/-- The row of `position_stats` that a recovery leaves. -/
def countRecovery (chatId : List Char) (position : ℤ) (stats : List PositionStats) : List PositionStats :=
  if (Keyed.find PositionStats.chatId chatId stats).isSome then
    Keyed.update PositionStats.chatId chatId
      (fun row => { row with
        recoveredPositionCount := row.recoveredPositionCount + 1
        lastRecoveredPosition := some position
        lastRecoveredAt := some now
        updatedAt := now })
      stats
  else stats ++ [{
    chatId := chatId
    lastPosition := none
    recoveredPositionCount := 1
    lastRecoveredPosition := some position
    lastRecoveredAt := some now
    updatedAt := now }]

def recordRecoveredPosition (chatId : List Char) (position : Option ℤ) (spool : PositionSpool) :
    Bool × PositionSpool :=
  let chatId := settings.strip chatId
  match position with
  | none => (false, spool)
  | some position =>
    if chatId = [] ∨ position ≤ 0 then (false, spool)
    else if spool.recoveries.any (fun row => row.chatId == chatId && row.position == position) then (false, spool)
    else
      (true, { spool with
        recoveries := spool.recoveries ++ [⟨chatId, position, now⟩]
        coverage := recordCoverage now chatId (some position) .recovered spool.coverage
        stats := countRecovery now chatId position spool.stats })

/-- The arguments of `record_filtered`. -/
structure FilteredCall where
  eventId : List Char
  chatId : List Char
  messageId : List Char := []
  position : Option ℤ := none
  messageType : List Char := "UNKNOWN".toList
  sourceKey : List Char := []
  keyword : List Char := []
  reason : List Char := "source_keyword".toList

def recordFiltered (call : FilteredCall) (spool : PositionSpool) : Bool × PositionSpool :=
  let eventId := settings.strip call.eventId
  let chatId := settings.strip call.chatId
  if eventId = [] ∨ chatId = [] then (false, spool)
  else if spool.filtered.any (fun row => row.eventId == eventId) then (false, spool)
  else
    let position := payloadPosition call.position
    let reason := if call.reason = [] then "source_keyword".toList else call.reason
    (true, { spool with
      filtered := spool.filtered ++ [{
        eventId := eventId
        chatId := chatId
        messageId := call.messageId.take 128
        position := position
        sourceKey := call.sourceKey.take 128
        keyword := call.keyword.take 128
        reason := reason.take 160
        createdAt := now }]
      coverage := recordCoverage now chatId position .filtered spool.coverage
      spool := { spool.spool with
        chatStats := recordObserved now ⟨chatId, call.messageType, [], 0⟩ spool.spool.chatStats } })

/-- `enqueue` with the position of its payload: a new event is observed. -/
def enqueueAt (eventId : List Char) (payload : SpoolPayload) (position : Option ℤ) (refresh reopen : Bool)
    (spool : PositionSpool) : Except String (EventStatus × PositionSpool) :=
  match enqueue settings now eventId payload refresh reopen spool.spool with
  | .error text => .error text
  | .ok (status, events) =>
    .ok (status, { spool with
      spool := events
      coverage :=
        if (findEvent (settings.strip eventId) spool.spool.events).isNone then
          recordCoverage now (settings.strip payload.chatId) (payloadPosition position) .observed spool.coverage
        else spool.coverage })

/-! ## What is reported -/

/-- A range that `position_gap_ranges` returns. -/
structure GapRange where
  start : ℤ
  last : ℤ
  missing : ℤ
  deriving DecidableEq

/-- The loop of `position_gap_ranges` over neighbours, which stops once it has enough ranges. -/
def scanGaps (limit : ℕ) (ranges : List GapRange) : List (ℤ × ℤ) → List GapRange
  | [] => ranges
  | (previous, current) :: rest =>
    if current - previous ≤ 1 then scanGaps limit ranges rest
    else
      let ranges := ranges ++ [⟨previous + 1, current - 1, current - previous - 1⟩]
      if limit ≤ ranges.length then ranges else scanGaps limit ranges rest

/-- `SELECT position … GROUP BY position ORDER BY position` -/
def orderedPositions (chatId : List Char) (coverage : List PositionCoverage) : List ℤ :=
  (((coverage.filter (fun row => row.chatId == chatId)).map PositionCoverage.position).dedup).insertionSort (· ≤ ·)

/-- `bounded_limit`. -/
def boundedGapLimit (limit : ℤ) : ℤ := max 1 (min 128 limit)

def positionGapRanges (chatId : List Char) (limit : ℤ) (spool : PositionSpool) : List GapRange :=
  let chatId := settings.strip chatId
  if chatId = [] then []
  else
    let ordered := orderedPositions chatId spool.coverage
    scanGaps (boundedGapLimit limit).toNat [] (ordered.zip ordered.tail)

/-- The sum of what the ranges of a chat miss, with the limit that is the default. -/
def unresolvedPositionCount (chatId : List Char) (spool : PositionSpool) : ℤ :=
  ((positionGapRanges settings chatId 32 spool).map GapRange.missing).sum

/-- `position_stats`: the rows with the count of what is unresolved. -/
def positionStats (spool : PositionSpool) : List (PositionStats × ℤ) :=
  (spool.stats.insertionSort (fun one other => textLe one.chatId other.chatId = true)).map
    (fun row => (row, unresolvedPositionCount settings row.chatId spool))

structure PositionSummary where
  missingPositionCount : ℤ
  gapEventCount : ℕ
  outOfOrderCount : ℕ
  recoveredPositionCount : ℕ
  unresolvedPositionCount : ℤ

def positionSummary (spool : PositionSpool) : PositionSummary where
  missingPositionCount := (spool.stats.map PositionStats.missingPositionCount).sum
  gapEventCount := (spool.stats.map PositionStats.gapEventCount).sum
  outOfOrderCount := (spool.stats.map PositionStats.outOfOrderCount).sum
  recoveredPositionCount := (spool.stats.map PositionStats.recoveredPositionCount).sum
  unresolvedPositionCount := ((positionStats settings spool).map
    (fun item => unresolvedPositionCount settings item.1.chatId spool)).sum

end Operations

/-! ## Runs -/

inductive PositionOp
  | enqueue (eventId : List Char) (payload : SpoolPayload) (position : Option ℤ) (refresh reopen : Bool)
  | recordPosition (chatId : List Char) (position : Option ℤ)
  | recordRecovered (chatId : List Char) (position : Option ℤ)
  | recordFiltered (call : FilteredCall)

/-- An operation at its time. One that raises leaves the tables. -/
def applyPositionOp (settings : SpoolSettings) (op : ℤ × PositionOp) (spool : PositionSpool) : PositionSpool :=
  match op with
  | (now, .enqueue eventId payload position refresh reopen) =>
    match enqueueAt settings now eventId payload position refresh reopen spool with
    | .ok (_, after) => after
    | .error _ => spool
  | (now, .recordPosition chatId position) => (recordPosition settings now chatId position spool).2
  | (now, .recordRecovered chatId position) => (recordRecoveredPosition settings now chatId position spool).2
  | (now, .recordFiltered call) => (recordFiltered settings now call spool).2

/-- An empty spool behind operations. -/
def positionsAfter (settings : SpoolSettings) (ops : List (ℤ × PositionOp)) : PositionSpool :=
  ops.foldl (fun spool op => applyPositionOp settings op spool) {}

theorem positionsAfter_concat (settings : SpoolSettings) (ops : List (ℤ × PositionOp)) (op : ℤ × PositionOp) :
    positionsAfter settings (ops ++ [op]) = applyPositionOp settings op (positionsAfter settings ops) := by
  unfold positionsAfter
  rw [List.foldl_append, List.foldl_cons, List.foldl_nil]

end TradingHarness
