import TradingHarness.Tactics.Tactic

set_option autoImplicit false

/-! # The condition registry and the auction rows

The keys of `CONDITIONS` by slot and level, the eight auction conditions with what they test, and
`evaluate_conditions` for the auction slot (`tactic_conditions.py`), which also carries states of the
previous close row over under keys that start with `prev.`. -/

namespace TradingHarness

inductive Level
  | stock
  | day
  deriving DecidableEq

structure Condition where
  key : String
  slot : Slot
  level : Level

/-! ## The registry -/

/-- The keys of `_close_conditions()`. -/
def closeConditionKeys : List String :=
  ["theme_big", "theme_7plus", "theme_lone", "theme_leader_earliest", "theme_leader_top_board",
    "market_top_board", "board_2_3", "board_4plus", "board_6plus", "seal_small", "seal_large",
    "volume_heavy", "volume_shrunk", "amount_record_250", "seal_late", "seal_early",
    "sealed_from_open", "reopened", "runup_40", "turnover_10bn", "above_high60", "main_net_out",
    "risk_top_fifth", "catch_up_first_board", "cost_above_band", "cost_overhead_heavy"]

/-- The keys of `_day_conditions()`. -/
def dayConditionKeys : List String :=
  ["env_ladder_ok", "env_turnover_2p1", "env_turnover_above_median60", "env_top_board_failed"]

/-- The keys of `_ladder_conditions()`. -/
def ladderConditionKeys : List String :=
  ["tier_first", "front_row", "kawei_leader", "leader_switch", "assist", "back_row",
    "sole_high_board", "ladder_full", "weak_to_strong", "divergence_to_consensus",
    "consensus_to_divergence", "rebound_board"]

/-- The row of the previous close reading, as an auction row carries it. -/
structure PreviousRow where
  turnover : Option ℚ := none
  complete : Option Bool := none
  flags : Option (List String) := none
  unknown : Option (List String) := none

/-- An auction row (`build_auction_row`), as far as the conditions and the tactics read it. -/
structure AuctionRow where
  symbol : String
  gap : Option ℚ := none
  opensAtLimit : Option Bool := none
  gapBucket : Option GapBucket := none
  boards : Option ℚ := none
  boardBucket : Option BoardBucket := none
  amount : Option ℚ := none
  auctionAmountRank : Option ℕ := none
  prev : Option PreviousRow := none

/-- A condition of the auction slot and what it tests. -/
structure AuctionCondition where
  key : String
  test : AuctionRow → Option Bool

def gapAnd (row : AuctionRow) (predicate : ℚ → Bool) : Option Bool := row.gap.map predicate

def auctionConditions : List AuctionCondition :=
  [{ key := "opens_at_limit", test := fun row => row.opensAtLimit },
    { key := "gap_down_2", test := fun row => gapAnd row (fun v => decide (v < -(2 / 100))) },
    { key := "gap_up_5_not_sealed"
      test := fun row =>
        match row.opensAtLimit, row.gap with
        | some atLimit, some gap => some (decide (5 / 100 ≤ gap) && !atLimit)
        | _, _ => none },
    { key := "gap_3_to_8"
      test := fun row => gapAnd row (fun v => decide (3 / 100 ≤ v) && decide (v < 8 / 100)) },
    { key := "gap_0_to_5"
      test := fun row => gapAnd row (fun v => decide (0 ≤ v) && decide (v < 5 / 100)) },
    { key := "auction_amount_top5"
      test := fun row => row.auctionAmountRank.map (fun rank => decide (rank ≤ 5)) },
    { key := "auction_burst"
      test := fun row =>
        match row.amount, row.prev.bind (·.turnover) with
        | some amount, some turnover => some (decide (217 / 1000 * turnover ≤ amount))
        | _, _ => none },
    { key := "board_gap_below_typical"
      test := fun row =>
        match row.boards, row.gap, row.opensAtLimit with
        | some boards, some gap, some atLimit =>
            some (decide (2 ≤ boards) && !atLimit &&
              decide (gap < if boards = 2 then 543 / 10000 else 860 / 10000))
        | _, _, _ => none }]

/-- `CONDITIONS`: every key with its slot and level. -/
def conditions : List Condition :=
  closeConditionKeys.map (fun key => { key := key, slot := .close, level := .stock }) ++
    dayConditionKeys.map (fun key => { key := key, slot := .close, level := .day }) ++
    auctionConditions.map (fun c => { key := c.key, slot := .auction, level := .stock }) ++
    ladderConditionKeys.map (fun key => { key := key, slot := .close, level := .stock })

/-- The keys of the stock-level conditions of a slot, as the registry has them. -/
def stockKeys (slot : Slot) : List String :=
  (conditions.filter (fun c => decide (c.level = .stock ∧ c.slot = slot))).map (·.key)

theorem stockKeys_close : stockKeys .close = closeConditionKeys ++ ladderConditionKeys := by decide

theorem closeConditionKeys_ladder (key : String) (hclose : key ∈ closeConditionKeys) :
    key ∉ ladderConditionKeys := by
  revert key
  decide

/-! ## Evaluating the auction slot -/

/-- The key the state of a previous close condition is stored under. -/
def prevKey (key : String) : String := "prev." ++ key

/-- An auction row with its states. -/
structure EvaluatedRow extends AuctionRow where
  flags : List String
  unknown : List String

/-- The row as the tactics read it. -/
def EvaluatedRow.toTrialRow (row : EvaluatedRow) : TrialRow where
  symbol := row.symbol
  boardBucket := row.boardBucket
  gapBucket := row.gapBucket
  hasPrev := row.prev.isSome
  flags := row.flags
  unknown := row.unknown

/-- The keys of the auction conditions with the given value on the row. -/
def ownKeys (row : AuctionRow) (value : Option Bool) : List String :=
  (auctionConditions.filter (fun c => decide (c.test row = value))).map (·.key)

/-- Where the state of a previous close condition is put: among the flags, among the unknown keys,
    or in neither list. -/
def carried (prev : Option PreviousRow) (key : String) : Option Bool :=
  match prev with
  | none => none
  | some previous =>
      if previous.complete.getD true = false then none
      else if key ∈ previous.flags.getD [] then some true
      else if key ∈ previous.unknown.getD [] then none
      else some false

/-- One row of `evaluate_conditions(…, "auction")`. Only the keys of `_close_conditions()` are
    carried over. -/
def evaluateAuctionRow (row : AuctionRow) : EvaluatedRow :=
  { row with
    flags := ownKeys row (some true) ++
      (closeConditionKeys.filter (fun key => decide (carried row.prev key = some true))).map prevKey
    unknown := ownKeys row none ++
      (closeConditionKeys.filter (fun key => decide (carried row.prev key = none))).map prevKey }

/-- `evaluate_conditions(rows, …, "auction")`: the rows with their states, and the day's, which are
    empty. -/
def evaluateAuction (rows : List AuctionRow) : List EvaluatedRow × DayStates :=
  (rows.map evaluateAuctionRow, { flags := [], unknown := [] })

end TradingHarness
