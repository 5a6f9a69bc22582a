import TradingHarness.Tactics.Exits

set_option autoImplicit false

/-! # Tactics and their verdicts

A tactic is conditions plus an entry plus a sell rule (`tactic_trials.py`). A stored row knows its
stock conditions as two lists, the keys that are true and the keys that are unknown; a key in neither
is false. `evaluateTactic` combines them in three-valued logic, `none` standing for unknown. -/

namespace TradingHarness

inductive BoardBucket
  | one
  | two
  | threePlus
  deriving DecidableEq

/-- The buckets of `gap_bucket`. -/
inductive GapBucket
  | opensAtLimit
  | below5
  | down5To2
  | down2To0
  | up0To2
  | up2To5
  | up5To9
  | above9
  deriving DecidableEq

/-- A field a tactic's comparison cell is made of. -/
inductive CellField
  | boardBucket
  | gapBucket

/-- The outcomes a tactic is scored on: the returns `entry:exit` and the state outcomes. -/
inductive OutcomeKey
  | ret (entry : Entry) (exit : ExitKey)
  | sealAgain
  | bigLoss
  | openToClose
  deriving DecidableEq

/-- A registered tactic: what its verdict, its comparison and its records read. -/
structure Tactic where
  key : String
  slot : Slot
  allOf : List String := []
  noneOf : List String := []
  atLeast : Option (ℕ × List String) := none
  dayConditions : List String := []
  cell : List CellField := []
  entry : Entry
  exit : ExitKey
  primary : OutcomeKey
  registeredOn : Date := 20739

/-- `str.startswith`. -/
def hasPrefix (start text : String) : Bool := start.toList.isPrefixOf text.toList

variable (tactic : Tactic) (state state' dayState : String → Option Bool)

/-- A registered combination, as opposed to the tactic every single condition gets. -/
def Tactic.combination : Bool := !hasPrefix "only." tactic.key

/-- An evaluated row as the tactics read it. `hasPrev` is `row.get("prev") is not None`. -/
structure TrialRow where
  symbol : String
  boardBucket : Option BoardBucket
  gapBucket : Option GapBucket
  hasPrev : Bool
  flags : List String
  unknown : List String

/-- The day conditions of a reading. -/
structure DayStates where
  flags : List String := []
  unknown : List String := []

/-! ## Three-valued verdicts -/

/-- The state two lists of keys give a key. -/
def stateOf (flags unknown : List String) (key : String) : Option Bool :=
  if key ∈ flags then some true
  else if key ∈ unknown then none
  else some false

/-- `_condition_value`, on the row or (`day_level`) on the day. -/
def conditionValue (key : String) (row : TrialRow) : Option Bool :=
  if hasPrefix "prev." key = true ∧ row.hasPrev = false then none
  else stateOf row.flags row.unknown key

def dayConditionValue (key : String) (row : TrialRow) (day : DayStates) : Option Bool :=
  if hasPrefix "prev." key = true ∧ row.hasPrev = false then none
  else stateOf day.flags day.unknown key

def combine (values : List (Option Bool)) : Option Bool :=
  if some false ∈ values then some false
  else if none ∈ values then none
  else some true

/-- The states of `none_of`, as one value. -/
def noneOfValue (values : List (Option Bool)) : Option Bool :=
  if some true ∈ values then some false
  else if none ∈ values then none
  else some true

/-- `_at_least` over the states of its keys. -/
def atLeastValue (minimum : ℕ) (states : List (Option Bool)) : Option Bool :=
  if minimum ≤ states.count (some true) then some true
  else if states.count (some true) + states.count none < minimum then some false
  else none

/-- The verdict of a tactic on given states of its keys. -/
def verdict : Option Bool :=
  combine (tactic.allOf.map state ++
    [noneOfValue (tactic.noneOf.map state),
      match tactic.atLeast with
      | none => some true
      | some (minimum, keys) => atLeastValue minimum (keys.map state)] ++
    tactic.dayConditions.map dayState)

/-- Whether a stored row is a pick, not a pick, or unknown. -/
def evaluateTactic (row : TrialRow) (day : DayStates) : Option Bool :=
  verdict tactic (conditionValue · row) (dayConditionValue · row day)

/-- A verdict depends on the states of the tactic's own keys only. -/
theorem verdict_congr (hall : ∀ key ∈ tactic.allOf, state key = state' key)
    (hnone : ∀ key ∈ tactic.noneOf, state key = state' key)
    (hleast : ∀ minimum keys, tactic.atLeast = some (minimum, keys) →
      ∀ key ∈ keys, state key = state' key) :
    verdict tactic state dayState = verdict tactic state' dayState := by
  have hallMap : tactic.allOf.map state = tactic.allOf.map state' := List.map_congr_left hall
  have hnoneMap : tactic.noneOf.map state = tactic.noneOf.map state' := List.map_congr_left hnone
  unfold verdict
  rw [hallMap, hnoneMap]
  rcases hat : tactic.atLeast with _ | ⟨minimum, keys⟩
  · rfl
  · have hkeys : keys.map state = keys.map state' :=
      List.map_congr_left (hleast minimum keys hat)
    simp only [hkeys]

end TradingHarness
