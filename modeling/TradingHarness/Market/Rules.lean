import Mathlib.Data.Rat.Floor
import Mathlib.Algebra.Order.Floor.Ring

set_option autoImplicit false

/-! # A-share market rules

The board of a listed code, its fallback daily price band, and the limit prices of a band around
the previous close (`market_rules.py`). Prices are exact rationals, as `Decimal` is used there;
`quantizeCent` is `Decimal.quantize(Decimal("0.01"), mode)`. Dates are counted in days, so that
`date` comparisons and `timedelta(days=n)` are integer arithmetic. -/

namespace TradingHarness

/-- A calendar date, as the number of days since 1970-01-01. -/
abbrev Date := ℤ

/-! ## Rounding to the cent -/

/-- The `decimal` rounding modes the limit prices use. -/
inductive Rounding
  | floor
  | ceiling
  | halfUp

/-- Round a price to the cent. `ROUND_HALF_UP` sends a tie away from zero. -/
def quantizeCent (mode : Rounding) (price : ℚ) : ℚ :=
  match mode with
  | .floor => (⌊price * 100⌋ : ℚ) / 100
  | .ceiling => (⌈price * 100⌉ : ℚ) / 100
  | .halfUp =>
      if 0 ≤ price then (⌊price * 100 + 1 / 2⌋ : ℚ) / 100
      else -((⌊-price * 100 + 1 / 2⌋ : ℚ) / 100)

/-! ## Boards and bands -/

/-- The price-band boards of `a_share_board`. -/
inductive Board
  | beijing
  | registration
  | main
  deriving DecidableEq

/-- ChiNext uses 300/301/302 and STAR uses 688/689. -/
def registrationBoardPrefixes : List String := ["300", "301", "302", "688", "689"]

/-- The Beijing exchange's legacy codes and its 920xxx segment. -/
def beijingPrefixes : List String := ["4", "8", "920"]

/-- `str.startswith` with a tuple of prefixes. -/
def startsWithAny (prefixes : List String) (code : List Char) : Bool :=
  prefixes.any (fun p => p.toList.isPrefixOf code)

/-- Classify a listed code into its price-band board: the code and the exchange are what stands
    before and after the first dot of the upper-cased symbol. -/
def aShareBoard (symbol : String) : Board :=
  let text := symbol.toList.map Char.toUpper
  let code := text.takeWhile (· ≠ '.')
  let exchange := (text.dropWhile (· ≠ '.')).drop 1
  if exchange = "BJ".toList ∨ startsWithAny beijingPrefixes code = true then .beijing
  else if startsWithAny registrationBoardPrefixes code = true then .registration
  else .main

/-- 2026-07-06: main-board risk-warning stocks move from a 5% to a 10% band. -/
def mainBoardStTenPercentFrom : Date := 20640

/-- The fallback band ratio. `session` is the date the source resolves as
    `as_exchange_date(trade_date) or cn_today()`; only a main-board ST stock reads it. -/
def aShareLimitRatio (symbol : String) (isSt : Bool) (session : Date) : ℚ :=
  match aShareBoard symbol with
  | .beijing => 3 / 10
  | .registration => 1 / 5
  | .main =>
      if isSt then if mainBoardStTenPercentFrom ≤ session then 1 / 10 else 1 / 20
      else 1 / 10

/-- The up and down limit prices of a band around the previous close, to the cent. Shanghai and
    Shenzhen round half up, Beijing rounds toward the previous close. -/
def aShareLimitPrices (symbol : String) (preClose ratio : ℚ) : ℚ × ℚ :=
  if aShareBoard symbol = .beijing then
    (quantizeCent .floor (preClose * (1 + ratio)), quantizeCent .ceiling (preClose * (1 - ratio)))
  else
    (quantizeCent .halfUp (preClose * (1 + ratio)), quantizeCent .halfUp (preClose * (1 - ratio)))

example : aShareLimitPrices "600000.SH" 10 (aShareLimitRatio "600000.SH" false 0) = (11, 9) := by
  decide +kernel

end TradingHarness
