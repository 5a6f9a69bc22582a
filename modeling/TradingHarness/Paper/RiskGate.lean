import Mathlib.Algebra.BigOperators.Group.List.Basic
import Mathlib.Algebra.Order.Field.Rat
import TradingHarness.Library.Dict
import TradingHarness.Membership.Sectors

set_option autoImplicit false

/-! # The paper risk gate

`paper_portfolio.py`: a snapshot of the marked positions with their exposure by sector, and the gate that reads it
before a paper entry, on the rows that `prepare_intraday_scan_inputs` hands over. Amounts are exact rationals;
`round` stands for Python's. -/

namespace TradingHarness

/-! ## Marking -/

/-- A row of the positions that `persist_portfolio_snapshot` reads, with the sectors of its symbol. -/
structure SectoredPosition extends Position where
  symbol : Symbol
  sectorKeys : List (List Char)

/-- The quotes of a scan, with the price as `_number` reads it. -/
abbrev MarkQuotes := List (Symbol × Option ℚ)

structure MarkedRow where
  symbol : Symbol
  quantity : ℤ
  price : ℚ
  marketValue : ℚ
  sectorKeys : List (List Char)

def markQuantity (position : SectoredPosition) : ℤ := max 0 position.quantity

variable (round : ℚ → ℕ → ℚ) (positions : List SectoredPosition) (quotes : MarkQuotes) (cash : ℚ)
  (previousEquity previousCloseEquity : Option ℚ)

/-- The quoted price, or the cost where there is none. -/
def markPrice (position : SectoredPosition) : ℚ :=
  (quotes.lookup position.symbol).join.getD position.averageCost

def markedValue (position : SectoredPosition) : ℚ :=
  markQuantity position * markPrice quotes position

/-- `dict.fromkeys(str(item) for item in keys if str(item))` -/
def distinctKeys (keys : List (List Char)) : List (List Char) := (keys.filter (fun key => !key.isEmpty)).eraseDups

/-- `totals[key] = totals.get(key, 0.0) + share` -/
def addShare (share : ℚ) (totals : List (List Char × ℚ)) (key : List Char) : List (List Char × ℚ) :=
  Dict.set totals key ((totals.lookup key).getD 0 + share)

/-- The share of a row in each of its sectors. -/
def sectorShare (equity : ℚ) (row : MarkedRow) : ℚ := row.marketValue / equity / (distinctKeys row.sectorKeys).length

def sectorTotals (equity : ℚ) (rows : List MarkedRow) : List (List Char × ℚ) :=
  rows.foldl (fun totals row => (distinctKeys row.sectorKeys).foldl (addShare (sectorShare equity row)) totals) []

def sectorExposure (rows : List MarkedRow) (equity : ℚ) : List (List Char × ℚ) :=
  if equity ≤ 0 then []
  else
    ((sectorTotals equity rows).insertionSort (fun total other => textLe total.1 other.1 = true)).map (fun total =>
      (total.1, round total.2 6))

structure MarkedSnapshot where
  cash : ℚ
  equity : ℚ
  grossExposure : ℚ
  netExposure : ℚ
  drawdown : ℚ
  dailyReturn : ℚ
  peakEquity : ℚ
  previousCloseEquity : Option ℚ
  sectorExposure : List (List Char × ℚ)
  positions : List MarkedRow

/-- An amount that is given and not zero. -/
def truthyAmount (amount : Option ℚ) : Option ℚ := amount.filter (fun value => value ≠ 0)

/-- `mark_to_market`. The rows have their value rounded, the exposures are those of the rows. -/
def markToMarket (peakEquity : Option ℚ) : MarkedSnapshot :=
  let rows := positions.map (fun position =>
    (⟨position.symbol, markQuantity position, markPrice quotes position, round (markedValue quotes position) 4,
      position.sectorKeys⟩ : MarkedRow))
  let marketValue := (positions.map (markedValue quotes)).sum
  let equity := cash + marketValue
  let peak := ([truthyAmount peakEquity, truthyAmount previousEquity].reduceOption).foldl max equity
  let exposure := if equity ≠ 0 then round (marketValue / equity) 6 else 0
  { cash := round cash 4
    equity := round equity 4
    grossExposure := exposure
    netExposure := exposure
    drawdown := round (if peak ≠ 0 then equity / peak - 1 else 0) 6
    dailyReturn := round ((truthyAmount previousCloseEquity).elim 0 (fun close => equity / close - 1)) 6
    peakEquity := round peak 4
    previousCloseEquity := (truthyAmount previousCloseEquity).map (fun close => round close 4)
    sectorExposure := sectorExposure round rows equity
    positions := rows }

/-- The equities that `persist_portfolio_snapshot` reads of earlier snapshots. -/
structure EquityHistory where
  peakEquity : Option ℚ
  previousCloseEquity : Option ℚ

/-- `persist_portfolio_snapshot`, as a scan calls it: without a previous close of its own. -/
def persistPortfolioSnapshot (history : EquityHistory) : MarkedSnapshot :=
  markToMarket round positions quotes cash previousEquity (truthyAmount history.previousCloseEquity)
    (truthyAmount history.peakEquity)

/-! ## The gate -/

/-- The fields of a position row that the gate and its callers know. -/
structure GatePosition where
  symbol : Symbol
  targetWeight : Option ℚ := none
  quantity : Option ℤ
  sellableQuantity : Option ℤ
  averageCost : Option ℚ

/-- The fields of a snapshot that the gate reads. -/
structure GateSnapshot where
  drawdown : Option ℚ := none
  dailyReturn : Option ℚ := none
  grossExposure : Option ℚ := none
  sectorExposure : List (List Char × ℚ) := []

structure RiskLimits where
  maxTargetWeight : ℚ := 5 / 100
  maxGrossExposure : ℚ := 80 / 100
  maxDrawdown : ℚ := -8 / 100
  maxDailyLoss : ℚ := -3 / 100
  maxSectorExposure : ℚ := 20 / 100

structure PaperRiskDecision where
  allowed : Bool
  targetWeight : ℚ
  reasons : List String := []
  riskFlags : List String := []

/-- A sector of the candidate in which the entry would exceed the limit. -/
def sectorExceeded (limits : RiskLimits) (exposure : List (List Char × ℚ)) (key : List Char) : Bool :=
  decide (max 0 limits.maxSectorExposure < (exposure.lookup key).getD 0 + limits.maxTargetWeight)

/-- The limits that block an entry or a watch, with their flags. -/
def riskBlocks (limits : RiskLimits) (isEntry : Bool) (position : Option GatePosition) (snapshot : GateSnapshot)
    (candidateSectorKeys : List (List Char)) : List (String × String) :=
  (if snapshot.drawdown.getD 0 ≤ limits.maxDrawdown then [("portfolio_drawdown_limit", "paper_drawdown_block")] else [])
    ++ (if snapshot.dailyReturn.getD 0 ≤ limits.maxDailyLoss then
      [("paper_daily_loss_limit", "paper_daily_loss_block")] else [])
    ++ (if limits.maxGrossExposure ≤ snapshot.grossExposure.getD 0 then
      [("gross_exposure_limit", "paper_gross_exposure_block")] else [])
    -- without any sector exposure the test of the sectors is left out
    ++ (if isEntry && !(distinctKeys candidateSectorKeys).isEmpty && !snapshot.sectorExposure.isEmpty
          && (distinctKeys candidateSectorKeys).any (sectorExceeded limits snapshot.sectorExposure) then
      [("sector_exposure_limit", "paper_sector_exposure_block")] else [])
    ++ (if limits.maxTargetWeight ≤ (position.bind GatePosition.targetWeight).getD 0 then
      [("single_symbol_exposure_limit", "paper_symbol_exposure_block")] else [])

def paperRiskGate (limits : RiskLimits) (signalType : String) (position : Option GatePosition) (snapshot : GateSnapshot)
    (candidateSectorKeys : List (List Char)) : PaperRiskDecision :=
  if signalType == "reduce" || signalType == "exit" then ⟨true, 0, [], []⟩
  else if signalType == "entry" || signalType == "watch" then
    let blocks := riskBlocks limits (signalType == "entry") position snapshot candidateSectorKeys
    if blocks.isEmpty then ⟨true, if signalType == "entry" then limits.maxTargetWeight else 0, [], []⟩
    else ⟨false, 0, blocks.map Prod.fst, blocks.map Prod.snd⟩
  else ⟨false, 0, ["unsupported_signal_type"], ["paper_unsupported_signal"]⟩

/-! ## The scan -/

/-- The rows that a scan keeps of the positions: they have no target weight. -/
def cachedPositions : List (Symbol × GatePosition) :=
  Dict.update [] ((positions.filter (fun position => !position.symbol.isEmpty)).map (fun position =>
    (position.symbol, ⟨position.symbol, none, some position.quantity, some position.sellableQuantity,
      some position.averageCost⟩)))

def cachedSnapshotPayload (snapshot : MarkedSnapshot) : GateSnapshot :=
  { drawdown := some snapshot.drawdown
    dailyReturn := some snapshot.dailyReturn
    grossExposure := some snapshot.grossExposure
    sectorExposure := snapshot.sectorExposure }

/-- What a scan knows of the paper account and of the sectors of its symbols. -/
structure ScanPortfolio where
  positions : List SectoredPosition
  quotes : MarkQuotes
  cash : Option ℚ
  previousEquity : Option ℚ
  history : EquityHistory
  candidateSectorKeys : List (Symbol × List (List Char))

/-- The snapshot that `prepare_intraday_scan_inputs` takes. -/
def ScanPortfolio.snapshot (scan : ScanPortfolio) : MarkedSnapshot :=
  persistPortfolioSnapshot round scan.positions scan.quotes (scan.cash.getD 0) scan.previousEquity scan.history

def ScanPortfolio.sectorsOf (scan : ScanPortfolio) (symbol : Symbol) : List (List Char) :=
  (scan.candidateSectorKeys.lookup symbol).getD []

/-- The gate, on what `prepare_intraday_scan_inputs` has prepared. -/
def ScanPortfolio.gate (limits : RiskLimits) (scan : ScanPortfolio) (signalType : String)
    (symbol : Symbol) : PaperRiskDecision :=
  paperRiskGate limits signalType ((cachedPositions scan.positions).lookup symbol)
    (cachedSnapshotPayload (scan.snapshot round)) (scan.sectorsOf symbol)

end TradingHarness
