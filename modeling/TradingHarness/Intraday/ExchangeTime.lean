import TradingHarness.Relay.Memberships
import TradingHarness.Teacher.Rules

set_option autoImplicit false

/-! # The exchange's time of a quote

`exchange_time_status`: how old the time is that a source states for its price. -/

namespace TradingHarness

inductive TimeStatus
  | missingTimestamp
  | invalidTimestamp
  | futureTimestamp
  | staleTimestamp
  | fresh
deriving DecidableEq

/-- What `exchange_time_status` answers. -/
structure Freshness where
  status : TimeStatus
  maxAgeSeconds : ℚ
  observedTradeTime : Option Timestamp := none
  ageSeconds : Option ℚ := none

/-- `re.findall(r"\d", str(text or ""))` -/
def digitsOf (text : Option String) : List Char := (text.getD "").toList.filter Char.isDigit

def decimalOf (digits : List Char) : ℕ := digits.foldl (fun number digit => 10 * number + (digit.toNat - 48)) 0

/-- `_repair_unpadded_clock`: the gateway has cut an unpadded morning clock to six digits. -/
def repairUnpaddedClock (stamp : List Char) : List Char :=
  if stamp.length = 14 ∧ 23 < decimalOf ((stamp.drop 8).take 2) then stamp.take 8 ++ '0' :: (stamp.drop 8).take 5
  else stamp

/-- `datetime.strptime(stamp, "%Y%m%d%H%M%S")` for fourteen digits, on the clock of Shanghai. A day of the
    calendar is one that its own number names. -/
def strptime (stamp : List Char) : Option Timestamp :=
  let field := fun (start : ℕ) => decimalOf ((stamp.drop start).take 2)
  let day : Memberships.Civil := ⟨decimalOf (stamp.take 4), field 4, field 6⟩
  if 1 ≤ day.year ∧ Memberships.civilOf (Memberships.daysOf day) = day ∧ field 8 ≤ 23 ∧ field 10 ≤ 59 ∧ field 12 ≤ 59 then
    some ((Memberships.daysOf day * 86400 + field 8 * 3600 + field 10 * 60 + field 12 - 8 * 3600) * 1000000)
  else none

/-- The fourteen digits of date and time, where the source states them. -/
def stampOf (tradeTime tradeDate : Option String) : Option (List Char) :=
  let compact := digitsOf tradeTime
  let datePart := digitsOf tradeDate
  if 14 ≤ compact.length then some (compact.take 14)
  else if datePart.length = 8 ∧ 6 ≤ compact.length then some (datePart ++ compact.take 6)
  else none

/-- `exchange_time_status`, for the trade time and the trade date of a quote. -/
def exchangeTimeStatus (tradeTime tradeDate : Option String) (observedAt : Timestamp) (maxAgeSeconds : ℚ) : Freshness :=
  match stampOf tradeTime tradeDate with
  | none => { status := .missingTimestamp, maxAgeSeconds }
  | some candidate =>
      match strptime (repairUnpaddedClock candidate) with
      | none => { status := .invalidTimestamp, maxAgeSeconds }
      | some exchangeAt =>
          let ageSeconds : ℚ := ((observedAt - exchangeAt : ℤ) : ℚ) / 1000000
          { status :=
              if ageSeconds < -5 then .futureTimestamp
              else if maxAgeSeconds < ageSeconds then .staleTimestamp
              else .fresh
            maxAgeSeconds
            observedTradeTime := some exchangeAt
            ageSeconds := some (Rules.roundTo 3 ageSeconds) }

-- 09:30:14 on the clock of Shanghai, as the vendor's "93014237" arrives
example : strptime (repairUnpaddedClock "20261013930142".toList) = strptime "20261013093014".toList := by decide +kernel

end TradingHarness
