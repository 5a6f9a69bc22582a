import TradingHarness.Tactics.Conditions
import TradingHarness.Tactics.Digest

set_option autoImplicit false

/-! # Pairs of conditions

`day_pairs` mines one settled day for pairs of stock conditions that some stock met together: how many
picks they had, their mean and their mean difference to the rest of the board bucket
(`tactic_trials.py`). -/

namespace TradingHarness

abbrev ConditionPair := String × String

def pairConditionKeys : Slot → List String
  | .close => stockKeys .close
  | .auction => stockKeys .auction ++ (stockKeys .close).map prevKey

/-- The outcome pairs are scored on. -/
def pairOutcome : Slot → OutcomeKey
  | .close => .ret .held .sellClose
  | .auction => .ret .buyOpen .sellClose

/-- Every pair of keys, the earlier one first. -/
def pairsOf : List String → List ConditionPair
  | [] => []
  | first :: rest => rest.map (fun second => (first, second)) ++ pairsOf rest

/-- The values of one pair in one board bucket. -/
structure PairCell where
  pick : List (Option ℚ) := []
  comparison : List (Option ℚ) := []

abbrev PairCells := List (Σ _ : ConditionPair × String, PairCell)

/-- Put a row's value into the cell of a pair: among the picks when both conditions are true. -/
def addPairValue (row : TrialRow) (value : Option ℚ) (cells : PairCells) (pair : ConditionPair) :
    PairCells :=
  let place := (pair, boardText row.boardBucket)
  let cell := (cells.dlookup place).getD {}
  cells.kinsert place
    (if pair.1 ∈ row.flags ∧ pair.2 ∈ row.flags then { cell with pick := cell.pick ++ [value] }
    else { cell with comparison := cell.comparison ++ [value] })

/-- One row: every pair of conditions that are known on it. -/
def addPairRow (day : TrialDay) (cells : PairCells) (row : TrialRow) : PairCells :=
  let valid := (pairConditionKeys day.slot).filter (fun key => (conditionValue key row).isSome)
  let value := (outcomeValue (day.outcomes row.symbol) (pairOutcome day.slot)).1
  (pairsOf valid).foldl (addPairValue row value) cells

structure PairState where
  picks : ℕ := 0
  pickValues : List (Option ℚ) := []
  differences : List ℚ := []

/-- Add a cell with picks to the state of its pair. -/
def addPairCell (states : List (Σ _ : ConditionPair, PairState))
    (entry : Σ _ : ConditionPair × String, PairCell) : List (Σ _ : ConditionPair, PairState) :=
  if entry.2.pick = [] then states
  else
    let state := (states.dlookup entry.1.1).getD {}
    let differences :=
      match mean entry.2.comparison with
      | none => []
      | some comparison => entry.2.pick.filterMap (·.map (fun value => value - comparison))
    states.kinsert entry.1.1
      { picks := state.picks + entry.2.pick.length
        pickValues := state.pickValues ++ entry.2.pick
        differences := state.differences ++ differences }

/-- The entry of one pair: picks, their mean, the mean difference. -/
structure PairEntry where
  picks : ℕ
  pickMean : Option ℚ
  difference : Option ℚ

/-- `day_pairs`. The tables hold each key once; the order of the keys decides nothing. -/
def dayPairs (day : TrialDay) : List (Σ _ : ConditionPair, PairEntry) :=
  let cells := day.rows.foldl (addPairRow day) []
  let states := cells.foldl addPairCell []
  states.map (fun entry => ⟨entry.1,
    { picks := entry.2.picks
      pickMean := mean entry.2.pickValues
      difference := mean (entry.2.differences.map some) }⟩)

end TradingHarness
