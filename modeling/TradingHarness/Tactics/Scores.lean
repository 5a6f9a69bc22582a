import Mathlib.Data.List.Dedup
import TradingHarness.Library.Tables
import TradingHarness.Tactics.Tactic

set_option autoImplicit false

/-! # Scoring one day

A settled pick day is its rows, its day conditions and the outcomes of its stocks. `dayResult`
scores one tactic's picks against the rows it rejects in the same cells (`tactic_trials.py`). -/

namespace TradingHarness

/-- A settled day: a reading with every row's outcomes. -/
structure TrialDay where
  tradeDate : Date
  slot : Slot
  rows : List TrialRow
  day : DayStates := {}
  outcomes : String → Option PickEvaluation

/-! ## Values -/

/-- `_number` of a boolean. -/
def numberOf (value : Bool) : ℚ := if value then 1 else 0

/-- `_mean`: the mean of the values that are there. -/
def mean (values : List (Option ℚ)) : Option ℚ :=
  let valid := values.filterMap id
  if valid = [] then none else some (valid.sum / valid.length)

/-- `_outcome_value`: the value of an outcome and, for a return, its status. -/
def outcomeValue (result : Option PickEvaluation) : OutcomeKey → Option ℚ × Option Status
  | .ret entry exit =>
      match result with
      | none => (none, none)
      | some evaluation =>
          let item := evaluation.entries entry exit
          (match entry with
            | .buyOpen => item.netReturn
            | .held => item.rawReturn, some item.status)
  | .sealAgain => ((result.bind (·.sealAgain)).map numberOf, none)
  | .bigLoss => ((result.bind (·.bigLoss)).map numberOf, none)
  | .openToClose => (result.bind (·.openToClose), none)

def outcomeKeys : List OutcomeKey :=
  (entries.flatMap (fun entry => exits.map (fun exit => .ret entry exit))) ++
    [.sealAgain, .bigLoss, .openToClose]

theorem nodup_outcomeKeys : outcomeKeys.Nodup := by decide

theorem mem_outcomeKeys (key : OutcomeKey) : key ∈ outcomeKeys := by
  rcases key with ⟨entry, exit⟩ | _ | _ | _
  · refine List.mem_append_left _ (List.mem_flatMap.mpr ⟨entry, mem_entries entry, ?_⟩)
    exact List.mem_map.mpr ⟨exit, mem_exits exit, rfl⟩
  · decide
  · decide
  · decide

variable (tactic : Tactic) (rows : List TrialRow) (day : DayStates)
  (outcomes : String → Option PickEvaluation) (keys : List OutcomeKey)

/-- `tuple(dict.fromkeys(keys))`: the keys without repetitions, in the order they come first. -/
def fromKeys : List OutcomeKey := keys.reverse.dedup.reverse

/-- `_record_outcomes`: every outcome for a combination, three for a single condition. -/
def recordOutcomes : List OutcomeKey :=
  if tactic.combination then outcomeKeys
  else fromKeys [tactic.primary, .ret tactic.entry tactic.exit, .ret tactic.entry .sellClose]

theorem nodup_recordOutcomes : (recordOutcomes tactic).Nodup := by
  unfold recordOutcomes fromKeys
  split
  · exact nodup_outcomeKeys
  · exact List.nodup_reverse.mpr (List.nodup_dedup _)

theorem recordOutcomes_ne_nil : recordOutcomes tactic ≠ [] := by
  have hprimary : tactic.primary ∈ recordOutcomes tactic := by
    unfold recordOutcomes fromKeys
    split
    · exact mem_outcomeKeys tactic.primary
    · simp
  exact List.ne_nil_of_mem hprimary

/-! ## The score of a day -/

/-- What `_summary` returns. -/
structure Summary where
  pickMean : Option ℚ
  comparisonMean : Option ℚ
  cellMeans : List (String × Option ℚ × ℕ)
  difference : Option ℚ
  pickValues : ℕ
  pickValuesMissing : ℕ
  comparisonValues : ℕ
  comparisonValuesMissing : ℕ
  differences : ℕ

/-- `_summary`: one outcome of the picks, each beside its comparison rows. -/
def summary (picks : List TrialRow) (comparisons : List (List TrialRow))
    (outcomes : String → Option PickEvaluation) (outcome : OutcomeKey) : Summary :=
  let value (row : TrialRow) : Option ℚ := (outcomeValue (outcomes row.symbol) outcome).1
  let groups := picks.zip comparisons
  let pickValues := groups.map (fun group => value group.1)
  let comparisonValues := groups.map (fun group => group.2.map value)
  let comparisonMeans := comparisonValues.map mean
  let differences := (pickValues.zip comparisonMeans).filterMap
    (fun pair => pair.1.bind (fun v => pair.2.map (fun m => v - m)))
  { pickMean := mean pickValues
    comparisonMean := mean comparisonMeans
    cellMeans := (groups.zip comparisonMeans).map
      (fun g => (g.1.1.symbol, g.2, g.1.2.length))
    difference := mean (differences.map some)
    pickValues := pickValues.countP Option.isSome
    pickValuesMissing := pickValues.countP Option.isNone
    comparisonValues := (comparisonValues.map (List.countP Option.isSome)).sum
    comparisonValuesMissing := (comparisonValues.map (List.countP Option.isNone)).sum
    differences := differences.length }

/-- The value of a comparison field. -/
inductive CellValue
  | board (bucket : Option BoardBucket)
  | gap (bucket : Option GapBucket)
  deriving DecidableEq

/-- `_cell`. -/
def cellOf (row : TrialRow) (fields : List CellField) : List CellValue :=
  fields.map (fun field =>
    match field with
    | .boardBucket => .board row.boardBucket
    | .gapBucket => .gap row.gapBucket)

structure DayCounts where
  picks : ℕ
  picksWithoutComparisonRow : ℕ
  rowsUnknown : ℕ
  picksNoTrade : ℕ
  picksNotResolved : ℕ

/-- What `day_result` returns. -/
structure DayResult where
  primary : Summary
  outcomes : List (Σ _ : OutcomeKey, Summary)
  counts : DayCounts

/-- The rows a tactic picks on a day. -/
def picksOf : List TrialRow :=
  rows.filter (fun row => decide (evaluateTactic tactic row day = some true))

/-- For each pick, the rows that are not picks and stand in its cell. -/
def comparisonsOf :
    List (List TrialRow) :=
  (picksOf tactic rows day).map (fun pick =>
    rows.filter (fun row => decide (evaluateTactic tactic row day = some false ∧
      cellOf row tactic.cell = cellOf pick tactic.cell)))

/-- `keys or _outcome_keys()`. -/
def scoredKeys : List OutcomeKey :=
  if keys = [] then outcomeKeys else keys

/-- `day_result`: score a tactic's picks on the given outcomes, or on every outcome when there are
    none given. The primary outcome is among the keys wherever the source calls it. -/
def dayResult : DayResult :=
  let picks := picksOf tactic rows day
  let comparisons := comparisonsOf tactic rows day
  let status (row : TrialRow) : Option Status :=
    (outcomeValue (outcomes row.symbol) (.ret tactic.entry tactic.exit)).2
  { primary := summary picks comparisons outcomes tactic.primary
    outcomes := Tables.entriesOf id (summary picks comparisons outcomes) (scoredKeys keys)
    counts :=
      { picks := picks.length
        picksWithoutComparisonRow := comparisons.countP List.isEmpty
        rowsUnknown := rows.countP (fun row => decide (evaluateTactic tactic row day = none))
        picksNoTrade := picks.countP (fun row => decide (status row = some .noTrade))
        picksNotResolved := picks.countP (fun row => decide (status row = some .notResolved)) } }

theorem dayResult_outcome (hnodup : (scoredKeys keys).Nodup) (key : OutcomeKey) (hkey : key ∈ scoredKeys keys) :
    (dayResult tactic rows day outcomes keys).outcomes.dlookup key
      = some (summary (picksOf tactic rows day) (comparisonsOf tactic rows day) outcomes key) :=
  Tables.dlookup_entriesOf_of_mem id _ (scoredKeys keys) key (by rwa [List.map_id]) hkey

theorem scoredKeys_recordOutcomes :
    scoredKeys (recordOutcomes tactic) = recordOutcomes tactic :=
  if_neg (recordOutcomes_ne_nil tactic)

end TradingHarness
