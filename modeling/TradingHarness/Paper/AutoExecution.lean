import Mathlib.Data.List.Dedup
import Mathlib.Data.List.AList
import TradingHarness.Library.Rounding
import TradingHarness.Market.Reality

set_option autoImplicit false

/-! # Planning paper orders

`plan_paper_orders` (`paper_auto_execution.py`): the sells and buys of one pass, from the candidates the
strategies produced and the positions the paper account holds. Numbers are the finite ones `_number`
reads, taken as exact rationals. -/

namespace TradingHarness

def fallbackWeight : ℚ := 1 / 10

def maxOpenPositions : ℤ := 8

def maxNewPerPass : ℤ := 2

def fallbackStopLossPct : ℚ := 8

def fallbackMaxHoldingDays : ℤ := 5

def exitFractions : List (String × ℚ) := [("exit", 1), ("reduce_or_exit", 1), ("reduce_half", 1 / 2)]

/-- `round(x, 2)`: to cents, half to even. -/
def roundCents (x : ℚ) : ℚ := (Rounding.halfEven (x * 100) : ℚ) / 100

/-! ## Intents -/

/-- What `strategy_intent` reads of a candidate; a key that is missing, or a number that cannot be
    read, is none. -/
structure Candidate where
  symbol : Option String := none
  strategyKey : Option String := none
  source : Option String := none
  mode : Option String := none
  decision : Option String := none
  /-- `position.target_fraction` -/
  targetFraction : Option ℚ := none
  /-- `position.initial_fraction` -/
  initialFraction : Option ℚ := none
  /-- `stop_loss.min_pct` -/
  stopLossMinPct : Option ℚ := none
  /-- `exit.action` -/
  exitAction : Option String := none
  /-- `exit.codes` -/
  exitCodes : List String := []
  riskFlags : List String := []
  /-- `large_order.confirmed` -/
  largeOrderConfirmed : Option Bool := none
  direction : Option String := none
  deliveryKey : Option String := none

structure Intent where
  symbol : String
  strategyKey : String
  mode : Option String
  decision : String
  entryFraction : ℚ
  sizingSource : String
  targetFraction : Option ℚ
  stopLossPct : Option ℚ
  exitAction : String
  exitCodes : List String
  riskFlags : List String
  confirmed : Bool
  direction : String
  deliveryKey : Option String

/-- `strategy_intent`: the first leg of a staged entry where there is one, else the target. -/
def strategyIntent (candidate : Candidate) : Intent :=
  let entryFraction :=
    match candidate.initialFraction with
    | some initial => if 0 < initial then some initial else candidate.targetFraction
    | none => candidate.targetFraction
  { symbol := candidate.symbol.getD ""
    strategyKey := firstText [candidate.strategyKey.getD "", candidate.source.getD "", "unknown"]
    mode := candidate.mode
    decision := candidate.decision.getD ""
    entryFraction := entryFraction.getD fallbackWeight
    sizingSource := if entryFraction.isSome then "strategy" else "fallback_weight"
    targetFraction := candidate.targetFraction
    stopLossPct := candidate.stopLossMinPct
    exitAction := candidate.exitAction.getD ""
    exitCodes := candidate.exitCodes
    riskFlags := candidate.riskFlags
    confirmed := candidate.largeOrderConfirmed.getD true
    direction := firstText [candidate.direction.getD "", "inflow"]
    deliveryKey := candidate.deliveryKey }

/-- The intent asks to close the name, wholly or in part. -/
def Intent.asksExit (intent : Intent) : Bool := (exitFractions.lookup intent.exitAction).isSome

/-- `by_symbol.get(symbol)`: of several intents for a symbol the last one wins. -/
def lastIntent (intents : List Intent) (symbol : String) : Option Intent :=
  (intents.filter (fun intent => decide (intent.symbol = symbol ∧ intent.symbol ≠ ""))).getLast?

/-! ## Positions and sizes -/

/-- What the plan reads of a position. -/
structure Holding where
  quantity : Option ℚ := none
  sellableQuantity : Option ℚ := none
  averageCost : Option ℚ := none
  entryStopLossPct : Option ℚ := none
  buyDate : Option Date := none

/-- `int(_number(value) or 0)`. -/
def wholeShares (value : Option ℚ) : ℤ := Rounding.truncate (value.getD 0)

/-- `position_size`: whole board lots for one name, or zero when a lot does not fit. -/
def positionSize (equity price weight : ℚ) : ℤ :=
  let unit := price * lotSize
  if unit ≤ 0 ∨ weight ≤ 0 then 0 else ⌊equity * weight / unit⌋ * lotSize

/-- `exit_quantity`: how much of a holding an exit action closes, in board lots. -/
def exitQuantity (position : Holding) (action : String) : ℤ :=
  let sellable := wholeShares position.sellableQuantity
  let fraction := (exitFractions.lookup action).getD 0
  if sellable ≤ 0 ∨ fraction ≤ 0 then 0
  else if lotSize ≤ sellable then max lotSize (Rounding.truncate (sellable * fraction) / lotSize * lotSize)
  else 0

def stopLossHit (position : Holding) (price : ℚ) (stopLossPct : Option ℚ) : Bool :=
  match position.averageCost, stopLossPct with
  | some cost, some stop => decide (0 < cost) && decide ((price - cost) / cost * 100 ≤ -|stop|)
  | _, _ => false

def holdingDaysExceeded (position : Holding) (sessionDate : Option Date) (maxDays : ℤ) : Bool :=
  match sessionDate, position.buyDate with
  | some session, some buyDate => decide (0 < maxDays) && decide (maxDays ≤ session - buyDate)
  | _, _ => false

/-! ## Sells -/

structure Sell where
  symbol : String
  quantity : ℤ
  price : ℚ
  reason : String
  strategyKey : Option String
  exitCodes : List String
  averageCost : Option ℚ

/-- The rules a pass closes holdings by. -/
structure ExitRules where
  sessionDate : Option Date := none
  fallbackStopLoss : ℚ := fallbackStopLossPct
  maxHoldingDays : ℤ := fallbackMaxHoldingDays

/-- The stop of a holding: the intent's, or the one set at entry. -/
def strategyStop (intent : Option Intent) (position : Holding) : Option ℚ :=
  (intent.bind (·.stopLossPct)).or position.entryStopLossPct

variable (rules : ExitRules) (quotes : AList (fun _ : String => Option ℚ))

/-- Why a holding is closed, and by which action. -/
def exitReason (intent : Option Intent) (position : Holding) (price : ℚ) :
    Option (String × String) :=
  let action := (intent.map (·.exitAction)).getD ""
  let stop := strategyStop intent position
  if (exitFractions.lookup action).isSome then some ("strategy_exit:" ++ action, action)
  else if stopLossHit position price stop then some ("strategy_stop_loss", "exit")
  else if stop = none ∧ stopLossHit position price (some rules.fallbackStopLoss) then
    some ("fallback_stop_loss", "exit")
  else if holdingDaysExceeded position rules.sessionDate rules.maxHoldingDays then
    some ("fallback_max_holding_period", "exit")
  else none

/-- The price of a quote, where there is one. -/
def quotePrice (symbol : String) : Option ℚ :=
  (quotes.lookup symbol).join

/-- The sell of one holding, where there is one. -/
def planSell (intents : List Intent)
    (symbol : String) (position : Holding) : Option Sell :=
  let intent := lastIntent intents symbol
  match quotePrice quotes symbol with
  | none => none
  | some price =>
    match exitReason rules intent position price with
    | none => none
    | some (reason, action) =>
      if exitQuantity position action ≤ 0 then none
      else some
        { symbol := symbol
          quantity := exitQuantity position action
          price := price
          reason := reason
          strategyKey := intent.map (·.strategyKey)
          exitCodes := (intent.map (·.exitCodes)).getD []
          averageCost := position.averageCost }

/-- `sorted(positions.items())`. -/
def sortedPositions (positions : AList (fun _ : String => Holding)) : List (String × Holding) :=
  (positions.entries.map (fun entry => (entry.1, entry.2))).mergeSort
    (fun a b => decide (a.1 ≤ b.1))

/-- The sell closes the whole holding. -/
def Sell.closes (sell : Sell) (position : Holding) : Bool :=
  decide (wholeShares position.quantity ≤ sell.quantity)

/-- `held` after the sells: the symbols no sell has closed. -/
def heldAfterSells (intents : List Intent) (positions : AList (fun _ : String => Holding)) : List String :=
  ((sortedPositions positions).filter (fun entry =>
    ¬ (planSell rules quotes intents entry.1 entry.2).any (·.closes entry.2))).map Prod.fst

/-! ## Buys -/

structure Buy where
  symbol : String
  quantity : ℤ
  price : ℚ
  notional : ℚ
  strategyKey : String
  deliveryKey : Option String
  mode : Option String
  entryFraction : ℚ
  sizingSource : String
  targetFraction : Option ℚ
  stopLossPct : Option ℚ
  riskFlags : List String

structure Skipped where
  symbol : String
  reason : String

/-- The pass over the intents so far. -/
structure BuyPass where
  buys : List Buy
  remainingCash : ℚ
  skipped : List Skipped

/-- What the intent itself, or the book, has against a buy. -/
def refusal (held : List String) (intent : Intent) : Option String :=
  if intent.asksExit then some ("strategy_is_exiting:" ++ intent.exitAction)
  else if intent.decision ≠ "" ∧ intent.decision ≠ "research_candidate" then
    some ("strategy_decision:" ++ intent.decision)
  else if intent.direction ≠ "inflow" then some "not_an_inflow_candidate"
  else if ¬ intent.confirmed then some "large_order_unconfirmed"
  else if intent.symbol ∈ held then some "already_held"
  else none

/-- The buy of an intent at a price, for some lots. -/
def buyOf (intent : Intent) (price : ℚ) (quantity : ℤ) : Buy where
  symbol := intent.symbol
  quantity := quantity
  price := price
  notional := roundCents (price * quantity)
  strategyKey := intent.strategyKey
  deliveryKey := intent.deliveryKey
  mode := intent.mode
  entryFraction := intent.entryFraction
  sizingSource := intent.sizingSource
  targetFraction := intent.targetFraction
  stopLossPct := intent.stopLossPct
  riskFlags := intent.riskFlags

/-- What a buy costs. -/
def Buy.cost (buy : Buy) : ℚ := buy.price * buy.quantity

def BuyPass.skip (pass : BuyPass) (symbol reason : String) : BuyPass :=
  { pass with skipped := pass.skipped ++ [{ symbol := symbol, reason := reason }] }

/-- One intent of the pass. `budget` is `min(max_new_per_pass, open_slots)`. -/
def planBuy (held : List String) (quotes : AList (fun _ : String => Option ℚ)) (equity : ℚ)
    (budget : ℤ) (pass : BuyPass) (intent : Intent) : BuyPass :=
  let symbol := intent.symbol
  if symbol = "" then pass
  else match refusal held intent with
  | some reason => pass.skip symbol reason
  | none =>
    if budget ≤ pass.buys.length then pass.skip symbol "position_budget_exhausted"
    else match quotePrice quotes symbol with
    | none => pass.skip symbol "no_usable_price"
    | some price =>
      let quantity := positionSize equity price intent.entryFraction
      if price ≤ 0 then pass.skip symbol "no_usable_price"
      else if quantity ≤ 0 then pass.skip symbol "one_lot_exceeds_the_entry_fraction"
      else if pass.remainingCash < price * quantity then pass.skip symbol "insufficient_paper_cash"
      else { pass with
        remainingCash := pass.remainingCash - price * quantity
        buys := pass.buys ++ [buyOf intent price quantity] }

/-! ## The plan -/

structure Plan where
  sells : List Sell
  buys : List Buy
  skipped : List Skipped
  nonFillReasonCounts : List (String × ℕ)
  openPositions : ℕ
  openSlots : ℤ
  cashAfterPlan : ℚ
  boundary : String

/-- `non_fill_reason_counts`: how often each reason was given, in the order of the reasons. -/
def nonFillReasonCounts (skipped : List Skipped) : List (String × ℕ) :=
  let reasons := skipped.map (fun item => firstText [item.reason, "unknown"])
  (reasons.dedup.mergeSort (fun a b => decide (a ≤ b))).map (fun reason => (reason, reasons.count reason))

/-- What one pass starts from. -/
structure PassInput where
  candidates : List Candidate
  positions : AList (fun _ : String => Holding)
  quotes : AList (fun _ : String => Option ℚ)
  equity : ℚ
  cash : ℚ
  maxOpen : ℤ := maxOpenPositions
  maxNew : ℤ := maxNewPerPass
  rules : ExitRules := {}

def PassInput.intents (input : PassInput) : List Intent := input.candidates.map strategyIntent

/-- `held`, after the sells. -/
def PassInput.held (input : PassInput) : List String :=
  heldAfterSells input.rules input.quotes input.intents input.positions

def PassInput.openSlots (input : PassInput) : ℤ := max 0 (input.maxOpen - input.held.length)

/-- `plan_paper_orders`: the sells first, so that they free slots, then the buys. -/
def planPaperOrders (input : PassInput) : Plan :=
  let sells := (sortedPositions input.positions).filterMap (fun entry =>
    planSell input.rules input.quotes input.intents entry.1 entry.2)
  let pass := input.intents.foldl
    (planBuy input.held input.quotes input.equity (min input.maxNew input.openSlots))
    { buys := [], remainingCash := input.cash, skipped := [] }
  { sells := sells
    buys := pass.buys
    skipped := pass.skipped
    nonFillReasonCounts := nonFillReasonCounts pass.skipped
    openPositions := input.held.length
    openSlots := input.openSlots
    cashAfterPlan := roundCents pass.remainingCash
    boundary := "paper simulation only; no broker client on this path" }

end TradingHarness
