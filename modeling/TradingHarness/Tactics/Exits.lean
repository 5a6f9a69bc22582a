import TradingHarness.Settlement.Walk
import TradingHarness.Market.Reality

set_option autoImplicit false

/-! # Entries, sell rules and outcomes of a tactic pick

The twelve registered sell rules of `tactic_exits.py` as `SellRule`s, the ten-session cap, and
`evaluate_pick`, which settles one pick under both entries and every rule. A division by a zero
price raises in the source, so `evaluatePick` returns in `Except`. -/

namespace TradingHarness

def maxSellSessions : ℕ := 10

/-- `close` picks are known at the close of T, `auction` picks at the auction of X. -/
inductive Slot
  | close
  | auction
  deriving DecidableEq

/-- Who a result is for: a holder of the stock, or a buyer of the next open. -/
inductive Entry
  | held
  | buyOpen
  deriving DecidableEq

/-- The keys of `EXITS`. -/
inductive ExitKey
  | sellOpen
  | sellClose
  | tp3
  | tp5
  | tp8
  | sl3
  | tp5Sl3StopFirst
  | tp5Sl3TargetFirst
  | holdWhileSealed
  | gapRule
  | mustRise
  | belowMa5
  deriving DecidableEq

def entries : List Entry := [.held, .buyOpen]

/-- `EXITS`, in registration order. -/
def exits : List ExitKey :=
  [.sellOpen, .sellClose, .tp3, .tp5, .tp8, .sl3, .tp5Sl3StopFirst, .tp5Sl3TargetFirst,
    .holdWhileSealed, .gapRule, .mustRise, .belowMa5]

variable (symbol : String) (slot : Slot) (path : List SettlementBar) (referenceClose : Option ℚ)
  (priorCloses : List (Option ℚ)) (entry : Entry) (key : ExitKey) (base : ℚ)

theorem mem_entries : entry ∈ entries := by cases entry <;> decide

theorem mem_exits : key ∈ exits := by cases key <;> decide

structure ExitContext where
  symbol : String
  slot : Slot
  entryPrice : ℚ
  referencePrice : ℚ
  priorCloses : List ℚ

/-! ## The sell rules -/

/-- A rule without memory. -/
@[reducible] def statelessRule (answer : ℕ → PricedBar → Option ExitDecision) : SellRule where
  State := Unit
  start := ()
  answer := fun _ index bar => (answer index bar, ())

variable (price : Option ℚ) (level : ℚ)

/-- `price is not None and price > level`. -/
def isAbove : Bool := price.any (fun p => decide (level < p))
/-- `price is not None and price >= level`. -/
def reaches : Bool := price.any (fun p => decide (level ≤ p))
/-- `price is not None and price < level`. -/
def isBelow : Bool := price.any (fun p => decide (p < level))
/-- `price is not None and price <= level`. -/
def fallsTo : Bool := price.any (fun p => decide (p ≤ level))

def closeRule (_context : ExitContext) : SellRule :=
  statelessRule (fun _ _ => some (.sell .atClose))

def openRule (_context : ExitContext) : SellRule :=
  statelessRule (fun _ _ => some (.sell .atOpen))

variable (stopFirst : Bool) (target stop : ℚ) (bar : PricedBar)

def targetAnswer : ExitDecision :=
  if isAbove bar.openPrice target then .sell .atOpen
  else if reaches bar.high target then .target target
  else .sell .atClose

/-- `_target(percent)`: a resting sell order `level` above the entry price. -/
def targetRule (context : ExitContext) : SellRule :=
  statelessRule (fun _ bar => some (targetAnswer (context.entryPrice * (1 + level)) bar))

/-- The source answers with the stop price in both cases, also below the stop's own open. -/
def stopAnswer : ExitDecision :=
  if isBelow bar.openPrice stop then .stop stop
  else if fallsTo bar.low stop then .stop stop
  else .sell .atClose

variable (context : ExitContext)

def stopRule : SellRule :=
  statelessRule (fun _ bar => some (stopAnswer (context.entryPrice * (97 / 100)) bar))

def targetHit : Bool :=
  isAbove bar.openPrice target || reaches bar.high target

def stopHit : Bool :=
  isBelow bar.openPrice stop || fallsTo bar.low stop

def bracketAnswer : ExitDecision :=
  if targetHit target bar && stopHit stop bar then
    if stopFirst then .stop stop else .target target
  else if targetHit target bar then
    if isAbove bar.openPrice target then .sell .atOpen else .target target
  else if stopHit stop bar then .stop stop
  else .sell .atClose

/-- `_bracket(stop_first)`: a target at +5% and a stop at -3%. -/
def bracketRule (context : ExitContext) : SellRule :=
  statelessRule (fun _ bar =>
    some (bracketAnswer stopFirst (context.entryPrice * (105 / 100))
      (context.entryPrice * (97 / 100)) bar))

/-- `None if sealed is None or sealed else "close"`. -/
def keepWhileSealed : Option Bool → Option ExitDecision
  | some false => some (.sell .atClose)
  | _ => none

def holdWhileSealedRule : SellRule :=
  statelessRule (fun _ bar =>
    keepWhileSealed (closesAtUpLimit context.symbol bar.toSettlementBar))

/-- The gap of the first sell session's open over its previous close. -/
def openGap : Option ℚ :=
  match bar.openPrice, bar.preClose with
  | some price, some preClose => if preClose ≤ 0 then none else some (price / preClose - 1)
  | _, _ => none

def gapAnswer (index : ℕ) (bar : PricedBar) : Option ExitDecision :=
  match closesAtUpLimit symbol bar.toSettlementBar with
  | none => none
  | some closedSealed =>
    if index = 0 then
      match opensAtUpLimit symbol bar.toSettlementBar, openGap bar with
      | some openedLimit, some gap =>
          if openedLimit || decide (gap < 5 / 100) then keepWhileSealed (some closedSealed)
          else some (.sell .atOpen)
      | _, _ => none
    else keepWhileSealed (some closedSealed)

def gapRule : SellRule :=
  statelessRule (gapAnswer context.symbol)

/-- The memory is the highest close so far, the entry price before the first session. -/
@[reducible] def mustRiseRule : SellRule where
  State := ℚ
  start := context.entryPrice
  answer := fun highest _ bar =>
    match bar.close with
    | none => (none, highest)
    | some close =>
      if close ≤ highest then (some (.sell .atClose), highest) else (none, close)

/-- `closes[-4:]`. -/
def lastFour (closes : List ℚ) : List ℚ := closes.drop (closes.length - 4)

/-- A close below the mean of itself and the four closes before it. -/
def belowAverage (closes : List ℚ) (close : ℚ) : Bool :=
  decide (4 ≤ closes.length) && decide (close < ((lastFour closes).sum + close) / 5)

/-- The memory is the closes so far and whether the open is pending. -/
@[reducible] def belowMa5Rule : SellRule where
  State := List ℚ × Bool
  start := (context.priorCloses, false)
  answer := fun (closes, pending) _ bar =>
    if pending then (some (.sell .atOpen), (closes, false))
    else
      match bar.close with
      | none => (none, (closes, false))
      | some close => (none, (closes ++ [close], belowAverage closes close))

/-- The rule registered under a key of `EXITS`. -/
def exitRule : ExitKey → ExitContext → SellRule
  | .sellOpen => openRule
  | .sellClose => closeRule
  | .tp3 => targetRule (3 / 100)
  | .tp5 => targetRule (5 / 100)
  | .tp8 => targetRule (8 / 100)
  | .sl3 => stopRule
  | .tp5Sl3StopFirst => bracketRule true
  | .tp5Sl3TargetFirst => bracketRule false
  | .holdWhileSealed => holdWhileSealedRule
  | .gapRule => gapRule
  | .mustRise => mustRiseRule
  | .belowMa5 => belowMa5Rule

/-- `_capped`: a position still open at the tenth sell session is sold at its close. -/
@[reducible] def capped (rule : SellRule) : SellRule where
  State := rule.State
  start := rule.start
  answer := fun state index bar =>
    if maxSellSessions - 1 ≤ index then (some (.sell .atClose), state)
    else rule.answer state index bar

/-! ## Outcomes -/

inductive Status
  | missingBar
  | noTrade
  | notResolved
  | settled
  deriving DecidableEq

/-- The document `_result` builds. -/
structure Outcome where
  status : Status
  rawReturn : Option ℚ := none
  netReturn : Option ℚ := none
  exitIndex : Option ℕ := none
  field : Option ExitField := none
  reason : Option Reason := none
  price : Option ℚ := none
  priceBasis : PriceBasis
  deriving DecidableEq

def returnResult (walked : Walked) (base : ℚ) (basis : PriceBasis) (cost : ℚ)
    (absoluteOffset : ℕ) : Except PyError Outcome :=
  match walked with
  | .pending reason =>
      .ok { status := .notResolved, priceBasis := basis, reason := some reason }
  | .settled exitIndex field price reason => do
      let ratio ← divide price base
      let raw := ratio - 1
      return { status := .settled, priceBasis := basis, reason := some reason,
               rawReturn := some raw, netReturn := some (raw - cost),
               exitIndex := some (absoluteOffset + exitIndex), field := some field,
               price := some price }

/-- `_basis_reference`: a raw price of the path's first session, on the window's basis. -/
def basisReference (reference : ℚ) : ℚ :=
  match path with
  | [] => reference
  | first :: _ => reference * first.factorOn (pathAdjusted path)

def entryIndexOf : Slot → ℕ
  | .auction => 0
  | .close => 1

/-- The price a holder's return is measured from. -/
def heldReference :
    Option ℚ :=
  match slot with
  | .auction => referenceClose.map (basisReference path)
  | .close => (priceWindow path).bars[0]?.bind (·.close)

/-- The open a buyer pays, on the window's basis. -/
def entryPriceOf : Option ℚ :=
  (priceWindow path).bars[entryIndexOf slot]?.bind (·.openPrice)

def baseOf :
    Entry → Option ℚ
  | .held => heldReference slot path referenceClose
  | .buyOpen => entryPriceOf slot path

/-- The index of the first sell session, `s1_index` for a holder. -/
def startOf : Entry → ℕ
  | .held => 1
  | .buyOpen => entryIndexOf slot + 1

/-- Why a buyer gets no trade at the entry session. -/
def entryRefusal :
    Entry → Option Outcome
  | .held => none
  | .buyOpen =>
    match path[entryIndexOf slot]? with
    | none => some { status := .missingBar, priceBasis := (priceWindow path).basis }
    | some bar =>
      (entryBlockReason bar .long symbol).map (fun reason =>
        { status := .noTrade, priceBasis := (priceWindow path).basis, reason := some reason })

/-- `held` is measured without costs: the position exists and every rule sells it once. -/
def entryCost : Entry → ℚ
  | .held => 0
  | .buyOpen => roundTripCost

/-- The context the rules of one entry are built from. `held_reference or base`: a zero reference
    is falsy. -/
def contextOf : ExitContext where
  symbol := symbol
  slot := slot
  entryPrice := base
  referencePrice :=
    match heldReference slot path referenceClose with
    | some reference => if reference = 0 then base else reference
    | none => base
  priorCloses := (priorCloses.filterMap id).map (basisReference path)

/-- The walk of one entry and rule, from the entry's first sell session on. -/
def walkPick : Walked :=
  walkExit
    { bars := (priceWindow path).bars.drop (startOf slot entry)
      basis := (priceWindow path).basis }
    symbol
    (capped (exitRule key (contextOf symbol slot path referenceClose priorCloses base)))

/-- One entry of a pick on a path that is not empty, its position walked by `walk` from the price it
    was entered at. -/
def settlePick (walk : ℚ → Walked) : Except PyError Outcome :=
  let basis := (priceWindow path).basis
  match baseOf slot path referenceClose entry with
  | none => .ok { status := .missingBar, priceBasis := basis }
  | some base =>
    match entryRefusal symbol slot path entry with
    | some refused => .ok refused
    | none =>
      if (priceWindow path).bars.length ≤ startOf slot entry then
        .ok { status := .notResolved, priceBasis := basis, reason := some .notResolved }
      else
        returnResult (walk base) base basis (entryCost entry) (startOf slot entry)

/-- One entry under one rule. -/
def entryOutcome :
    Except PyError Outcome :=
  settlePick symbol slot path referenceClose entry
    (walkPick symbol slot path referenceClose priorCloses entry key)

/-- What `evaluate_pick` returns. -/
structure PickEvaluation where
  entries : Entry → ExitKey → Outcome
  sealAgain : Option Bool
  bigLoss : Option Bool
  s1High : Option ℚ
  s1Low : Option ℚ
  s3High : Option ℚ
  openToClose : Option ℚ

/-- Evaluate every entry under every rule; the first exception ends the evaluation. -/
def collectOutcomes (outcome : Entry → ExitKey → Except PyError Outcome) :
    Except PyError (Entry → ExitKey → Outcome) :=
  let failure (entry : Entry) (key : ExitKey) : Option PyError :=
    match outcome entry key with
    | .error e => some e
    | .ok _ => none
  match entries.findSome? (fun entry => exits.findSome? (failure entry)) with
  | some e => .error e
  | none => .ok (fun entry key =>
      match outcome entry key with
      | .ok result => result
      | .error _ => { status := .missingBar, priceBasis := .unadjustedMissingAdjFactor })

/-- `_measure` for one session: a price of the session against the reference. -/
def measure (reference : Option ℚ) : Except PyError (Option ℚ) :=
  match reference, price with
  | some reference, some price => do
      let ratio ← divide price reference
      return some (ratio - 1)
  | _, _ => .ok none

/-- The highest of the given highs, when none is missing. -/
def highest (highs : List (Option ℚ)) : Option ℚ :=
  (highs.mapM id).bind List.max?

/-- Evaluate the held and the buy-open outcomes of one close or auction pick. -/
def evaluatePick :
    Except PyError PickEvaluation :=
  match path with
  | [] => .ok
      { entries := fun _ _ => { status := .missingBar, priceBasis := .unadjustedMissingAdjFactor }
        sealAgain := none, bigLoss := none, s1High := none, s1Low := none, s3High := none
        openToClose := none }
  | _ :: _ => do
      let bars := (priceWindow path).bars
      let outcomes ← collectOutcomes
        (entryOutcome symbol slot path referenceClose priorCloses)
      let s1 := bars[1]?
      let measureReference :=
        (heldReference slot path referenceClose).or (entryPriceOf slot path)
      let s1High ← measure (s1.bind (·.high)) measureReference
      let s1Low ← measure (s1.bind (·.low)) measureReference
      let s3High ← measure (highest (((bars.drop 1).take 3).map (·.high))) measureReference
      let openToClose :=
        match s1.bind (·.openPrice), s1.bind (·.close) with
        | some price, some close => if price = 0 then none else some (close / price - 1)
        | _, _ => none
      return { entries := outcomes
               sealAgain := s1.bind (fun bar => closesAtUpLimit symbol bar.toSettlementBar)
               bigLoss := (outcomes .held .sellClose).rawReturn.map
                 (fun raw => decide (raw ≤ -(5 / 100)))
               s1High := s1High, s1Low := s1Low, s3High := s3High
               openToClose := openToClose }

end TradingHarness
