import TradingHarness.Market.Rules

set_option autoImplicit false

/-! # Bars on one price basis

The bar types of `t1_settlement.py`, the scaling of a window of bars onto one price basis
(`price_window`), the limit prices of a bar with their board-band fallback (`_limits`), and the
tests that say whether a price of a bar can be traded (`entry_block_reason`, `sale_blocked`,
`exit_blocked`, `opens_at_up_limit`, `closes_at_up_limit`).

A `PricedBar` is a bar again, so the tests are written once, on `SettlementBar`, exactly as the
source's functions take either type. -/

namespace TradingHarness

/-- The exception a settlement can raise. -/
inductive PyError
  | divisionByZero
  deriving DecidableEq

/-- `Decimal` division. -/
def divide (a b : ℚ) : Except PyError ℚ :=
  if b = 0 then .error .divisionByZero else .ok (a / b)

theorem divide_ok (a b c : ℚ) (h : divide a b = .ok c) : b ≠ 0 ∧ c = a / b := by
  unfold divide at h
  split at h
  · exact absurd h (by simp)
  · next hb => exact ⟨hb, (Except.ok.inj h).symm⟩

theorem divide_mul_right (a b k : ℚ) (hk : k ≠ 0) : divide (a * k) (b * k) = divide a b := by
  unfold divide
  by_cases hb : b = 0
  · simp [hb]
  · rw [if_neg hb, if_neg (mul_ne_zero hb hk), mul_div_mul_right a b hk]

/-- One daily bar. An absent price is `none`. -/
structure SettlementBar where
  tradingDate : Date
  openPrice : Option ℚ
  high : Option ℚ
  low : Option ℚ
  close : Option ℚ
  preClose : Option ℚ := none
  adjFactor : Option ℚ := none
  isSuspended : Bool := false
  limitUp : Option ℚ := none
  limitDown : Option ℚ := none

/-- One bar scaled onto the window's common price basis. -/
structure PricedBar extends SettlementBar where
  source : SettlementBar

/-- The two values of `price_basis`. -/
inductive PriceBasis
  | adjFactorAdjusted
  | unadjustedMissingAdjFactor
  deriving DecidableEq

structure PriceWindow where
  bars : List PricedBar
  basis : PriceBasis

/-- Why an entry was refused, how an exit was priced, or why it is still open. -/
inductive Reason
  | entrySuspended
  | entryOpenMissing
  | entryOpenedAtLimitUp
  | entryOpenedAtLimitDown
  | rule
  | openBlockedCloseFallback
  | exitRolledPastBlockedSession
  | exitBlockedValuedAtClose
  | exitBlockedWithoutPrice
  | notResolved
  | noEntrySessionYet
  | exitSessionNotObserved
  deriving DecidableEq

/-- A price field a sale can be asked at. -/
inductive SaleField
  | atOpen
  | atClose
  deriving DecidableEq

/-- `1` for a long thesis, `-1` for a bearish one. -/
inductive Direction
  | long
  | short
  deriving DecidableEq

def limitTolerance : ℚ := 1 / 1000

variable (symbol : String) (bar : SettlementBar) (price : ℚ)

def SettlementBar.priceAt : SaleField → Option ℚ
  | .atOpen => bar.openPrice
  | .atClose => bar.close

/-! ## Limit prices -/

/-- Exact limits when stored, else the board band around the pre-close. -/
def limits (symbol : String) : Option ℚ × Option ℚ :=
  match bar.limitUp, bar.limitDown with
  | some up, some down => (some up, some down)
  | up, down =>
    match bar.preClose with
    | none => (up, down)
    | some preClose =>
      if preClose ≤ 0 then (up, down)
      else
        let band := aShareLimitPrices symbol preClose
          (aShareLimitRatio symbol false bar.tradingDate)
        (some (up.getD band.1), some (down.getD band.2))

/-! ## The price window -/

/-- `bar.adj_factor is not None and bar.adj_factor > 0`. -/
def SettlementBar.hasFactor : Bool :=
  match bar.adjFactor with
  | some factor => decide (0 < factor)
  | none => false

/-- The factor a price of the bar is multiplied by on the given basis. -/
def SettlementBar.factorOn (adjusted : Bool) : ℚ :=
  if adjusted then bar.adjFactor.getD 1 else 1

/-- One bar with every price multiplied by its factor on the chosen basis. -/
def priceBar (adjusted : Bool) (bar : SettlementBar) : PricedBar :=
  let scale (value : Option ℚ) : Option ℚ := value.map (· * bar.factorOn adjusted)
  { source := bar
    tradingDate := bar.tradingDate
    openPrice := scale bar.openPrice
    high := scale bar.high
    low := scale bar.low
    close := scale bar.close
    preClose := scale bar.preClose
    adjFactor := if adjusted then some 1 else none
    isSuspended := bar.isSuspended
    limitUp := scale bar.limitUp
    limitDown := scale bar.limitDown }

/-- Whether every bar of the path carries a positive factor. -/
def pathAdjusted (path : List SettlementBar) : Bool :=
  path.all SettlementBar.hasFactor

def basisOf (adjusted : Bool) : PriceBasis :=
  if adjusted then .adjFactorAdjusted else .unadjustedMissingAdjFactor

/-- Scale every price of the path using one basis for the whole window. -/
def priceWindow (path : List SettlementBar) : PriceWindow :=
  { bars := path.map (priceBar (pathAdjusted path))
    basis := basisOf (pathAdjusted path) }

theorem factorOn_pos (path : List SettlementBar) (bar : SettlementBar) (hbar : bar ∈ path) :
    0 < bar.factorOn (pathAdjusted path) := by
  unfold SettlementBar.factorOn
  split
  · next hadjusted =>
      have hfactor := List.all_eq_true.mp hadjusted bar hbar
      unfold SettlementBar.hasFactor at hfactor
      cases hf : bar.adjFactor with
      | none => simp [hf] at hfactor
      | some factor => simpa [hf] using hfactor
  · exact one_pos

/-! ## What can be traded -/

/-- `limit_up is not None and price >= limit_up * (1 - _LIMIT_TOLERANCE)`. -/
def atUpLimit : Bool :=
  match (limits bar symbol).1 with
  | some up => decide (up * (1 - limitTolerance) ≤ price)
  | none => false

/-- `limit_down is not None and price <= limit_down * (1 + _LIMIT_TOLERANCE)`. -/
def atDownLimit : Bool :=
  match (limits bar symbol).2 with
  | some down => decide (price ≤ down * (1 + limitTolerance))
  | none => false

/-- Why the entry session's open could not be traded, if it could not. -/
def entryBlockReason (direction : Direction) (symbol : String) :
    Option Reason :=
  if bar.isSuspended then some .entrySuspended
  else
    match bar.openPrice with
    | none => some .entryOpenMissing
    | some price =>
      if price ≤ 0 then some .entryOpenMissing
      else
        match direction with
        | .long => if atUpLimit symbol bar price then some .entryOpenedAtLimitUp else none
        | .short => if atDownLimit symbol bar price then some .entryOpenedAtLimitDown else none

/-- Whether a long sale at `field` is unavailable on this bar. -/
def saleBlocked (field : SaleField) : Bool :=
  match bar.priceAt field with
  | none => true
  | some price => bar.isSuspended || decide (price ≤ 0) || atDownLimit symbol bar price

/-- A close sealed against the exit side, or no session, cannot be sold into. -/
def exitBlocked (direction : Direction) (symbol : String) : Bool :=
  match direction with
  | .long => saleBlocked symbol bar .atClose
  | .short =>
    match bar.close with
    | none => true
    | some price => bar.isSuspended || decide (price ≤ 0) || atUpLimit symbol bar price

def opensAtUpLimit : Option Bool :=
  bar.openPrice.map (atUpLimit symbol bar)

def closesAtUpLimit : Option Bool :=
  bar.close.map (atUpLimit symbol bar)

/-- A traded bar with stored limits ten percent around its previous close: the bars of the concrete
    cases. -/
def tradedBar (tradingDate : Date) (openPrice high low close preClose adjFactor : ℚ) :
    SettlementBar :=
  { tradingDate := tradingDate, openPrice := some openPrice, high := some high, low := some low
    close := some close, preClose := some preClose, adjFactor := some adjFactor
    limitUp := some (preClose * (11 / 10)), limitDown := some (preClose * (9 / 10)) }

end TradingHarness
