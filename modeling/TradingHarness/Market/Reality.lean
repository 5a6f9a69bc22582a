import TradingHarness.Market.Rules

set_option autoImplicit false

/-! # Tradability and paper costs

The costs and the gate of `ashare_reality.py`: which orders a quote and a position allow, what a trade
costs, and the round-trip cost every research return subtracts. -/

namespace TradingHarness

def lotSize : ℤ := 100
def defaultCommissionRate : ℚ := 3 / 10000
/-- Sell-side stamp duty: 0.05% since 2023-08-28. -/
def defaultStampTaxRate : ℚ := 5 / 10000
/-- Exchange transfer fee: 0.001% of notional on both sides. -/
def defaultTransferFeeRate : ℚ := 1 / 100000
def defaultSlippageBps : ℚ := 5

/-- One buy plus one sell, as a percentage of notional. The commission floor is absent: it depends
    on the notional. -/
def roundTripCostPct (commissionRate stampTaxRate slippageBps transferFeeRate : ℚ) : ℚ :=
  let buy := commissionRate + transferFeeRate + slippageBps / 10000
  let sell := commissionRate + transferFeeRate + stampTaxRate + slippageBps / 10000
  (buy + sell) * 100

def roundTripCost : ℚ :=
  roundTripCostPct defaultCommissionRate defaultStampTaxRate defaultSlippageBps
    defaultTransferFeeRate / 100

/-! ## Costs of one trade -/

inductive Side
  | buy
  | sell
  deriving DecidableEq

variable (side : Side) (quantity : ℤ) (price : ℚ)

/-- `round_board_lot` of a whole quantity: down to the board lot, toward zero. -/
def roundBoardLot : ℤ := quantity.tdiv lotSize * lotSize

structure TradeCost where
  notional : ℚ
  commission : ℚ
  stampTax : ℚ
  transferFee : ℚ
  slippage : ℚ
  totalCost : ℚ

/-- `estimate_trade_cost`: a commission of at least five, and stamp tax on the sell side only. -/
def estimateTradeCost (commissionRate stampTaxRate slippageBps transferFeeRate : ℚ) : TradeCost :=
  let notional := price * (max 0 quantity : ℤ)
  let commission := if notional = 0 then 0 else max 5 (notional * commissionRate)
  let stampTax := if side = .sell then notional * stampTaxRate else 0
  let slippage := notional * slippageBps / 10000
  let transferFee := notional * transferFeeRate
  { notional := notional
    commission := commission
    stampTax := stampTax
    transferFee := transferFee
    slippage := slippage
    totalCost := commission + stampTax + transferFee + slippage }

/-- `estimate_cost`: the costs at the default rates. -/
def estimateCost : TradeCost :=
  estimateTradeCost side quantity price defaultCommissionRate defaultStampTaxRate
    defaultSlippageBps defaultTransferFeeRate

/-! ## The tradability gate -/

/-- A moment, in microseconds since 1970-01-01 UTC. -/
abbrev Timestamp := ℤ

/-- What the gate reads of the provider's `raw` document; a key that is missing is false or none. -/
structure QuoteFlags where
  symbol : Option String := none
  tsCode : Option String := none
  isSuspended : Bool := false
  isSt : Bool := false
  limitUp : Option ℚ := none
  limitDown : Option ℚ := none
  atLimitUp : Bool := false
  atLimitDown : Bool := false
  allowLimitFill : Bool := false
  priceTradeDate : Option Date := none
  tradingDate : Option Date := none

/-- A captured quote: the columns of the observation beside its `raw` document. -/
structure Quote where
  sourceName : String
  observedAt : Timestamp
  price : Option ℚ
  pctChange : Option ℚ
  raw : QuoteFlags := {}

structure LimitState where
  atLimitUp : Bool
  atLimitDown : Bool
  limitRatio : ℚ
  limitUp : Option ℚ
  limitDown : Option ℚ

/-- The first text that is not empty, as `a or b or ""`. -/
def firstText (texts : List String) : String := (texts.find? (fun text => text ≠ "")).getD ""

variable (requestedQuantity : ℤ) (quote : Option Quote) (sellableQuantity : ℤ) (symbol : String)
  (today : Date)

/-- `price_limit_state`: exact limit prices first, then the provider's flags, then the percentage
    against the band. `today` is the exchange's current date. -/
def priceLimitState (quote : Option Quote) (today : Date) : LimitState :=
  let raw := (quote.map (·.raw)).getD {}
  let price := quote.bind (·.price)
  let pctChange := quote.bind (·.pctChange)
  let resolved := firstText [symbol, raw.symbol.getD "", raw.tsCode.getD ""]
  let ratio := aShareLimitRatio resolved raw.isSt ((raw.priceTradeDate.or raw.tradingDate).getD today)
  let threshold := ratio * 100 * (98 / 100)
  let byPriceUp :=
    match price, raw.limitUp with
    | some price, some limit => decide (limit * (999 / 1000) ≤ price)
    | _, _ => false
  let byPriceDown :=
    match price, raw.limitDown with
    | some price, some limit => decide (price ≤ limit * (1001 / 1000))
    | _, _ => false
  let byPctUp :=
    match pctChange, raw.limitUp with
    | some pct, none => decide (threshold ≤ pct)
    | _, _ => false
  let byPctDown :=
    match pctChange, raw.limitDown with
    | some pct, none => decide (pct ≤ -threshold)
    | _, _ => false
  { atLimitUp := raw.atLimitUp || byPriceUp || byPctUp
    atLimitDown := raw.atLimitDown || byPriceDown || byPctDown
    limitRatio := ratio
    limitUp := raw.limitUp
    limitDown := raw.limitDown }

/-- Why an order is not filled. -/
inductive NonFillReason
  | nonPositiveQuantity
  | suspended
  | tPlusOneOrInsufficientSellableQuantity
  | limitUpNonFillRisk
  | limitDownNonFillRisk
  | paperAccountNotConfigured
  | noUsableLocalQuote
  | localQuoteStale
  | insufficientPaperCash

/-- `assess_tradability` of a buy or a sell: the reasons against it, each at most once. The order is
    allowed when there are none. -/
def assessTradability : List NonFillReason :=
  let raw := (quote.map (·.raw)).getD {}
  let limits := priceLimitState symbol quote today
  (if requestedQuantity ≤ 0 then [.nonPositiveQuantity] else []) ++
    (if raw.isSuspended then [.suspended] else []) ++
    (if side = .sell ∧ sellableQuantity < requestedQuantity then
      [.tPlusOneOrInsufficientSellableQuantity] else []) ++
    (if side = .buy ∧ limits.atLimitUp = true ∧ raw.allowLimitFill = false then
      [.limitUpNonFillRisk] else []) ++
    (if side = .sell ∧ limits.atLimitDown = true ∧ raw.allowLimitFill = false then
      [.limitDownNonFillRisk] else [])

theorem sellable_of_assessTradability (h : assessTradability .sell requestedQuantity quote sellableQuantity symbol today = []) :
    requestedQuantity ≤ sellableQuantity := by
  unfold assessTradability at h
  simp only [List.append_eq_nil_iff] at h
  obtain ⟨⟨⟨-, hsellable⟩, -⟩, -⟩ := h
  by_contra hless
  rw [if_pos ⟨trivial, not_le.mp hless⟩] at hsellable
  exact absurd hsellable (by simp)

end TradingHarness
