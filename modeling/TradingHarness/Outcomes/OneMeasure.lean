import TradingHarness.Outcomes.Reviews
import Mathlib.Tactic.NormNum
import Mathlib.Tactic.FieldSimp
import Mathlib.Tactic.Ring

set_option autoImplicit false

/-! # One measure of an outcome

`xiaojie_outcome_settlement.settle_session` computes in SQL and Python what `strategy_outcome_measures.measure` computes.
The two agree but for a price that sits at the limit unseen by the scan, a next session that opens below zero, and a
limit that is not positive. -/

namespace TradingHarness.Outcomes

/-! ## The settlement -/

/-- What `settle_session` writes for an observation. -/
structure SettledRow where
  sealedAtEntry : Bool
  sessionReturn : Option ℚ
  nextOpenLocked : Option Bool
  entryToNextClose : Option ℚ
  nextOpenToClose : Option ℚ
  excessSession : Option ℚ
  netSessionReturn : Option ℚ
  netNextOpenToClose : Option ℚ

/-- The inner `pct`. -/
def settledPct (base : ℚ) (target : Option ℚ) : Option ℚ :=
  target.bind (fun target => if base = 0 then none else some ((target / base - 1) * 100))

/-- `next_open >= limit_up - tolerance`, as SQL compares. -/
def openLocked (nextOpen limitUp : Option ℚ) : Option Bool :=
  nextOpen.bind (fun value => limitUp.map (fun limit => decide (limit - 5 / 1000 ≤ value)))

/-- One row of `settle_session`; an entry without a positive price gets none. -/
def settleRow (cost price : ℚ) (isSealed : Option Bool) (bar nextBar : Option DayBar) (benchmark : Option ℚ) :
    Option SettledRow :=
  if price ≤ 0 then none
  else
    let session := settledPct price (bar.bind DayBar.close)
    let nextOpen := (nextBar.bind DayBar.openPrice).filter (fun value => decide (0 < value))
    let openToClose := nextOpen.bind (fun value => settledPct value (nextBar.bind DayBar.close))
    some
      { sealedAtEntry := isSealed.getD false
        sessionReturn := session
        nextOpenLocked := openLocked (nextBar.bind DayBar.openPrice) (nextBar.bind DayBar.limitUpPrice)
        entryToNextClose := settledPct price (nextBar.bind DayBar.close)
        nextOpenToClose := openToClose
        excessSession := session.bind (fun value => benchmark.map (value - ·))
        netSessionReturn := session.map (· - cost)
        netNextOpenToClose := openToClose.map (· - cost) }

/-- The row counts in the default view of `mode_scorecard`. -/
def SettledRow.counts (row : SettledRow) : Bool := !row.sealedAtEntry

/-! ## Agreement -/

/-- Equal but for the rounding to four decimals. -/
def Near : Option ℚ → Option ℚ → Prop
  | none, none => True
  | some exact, some rounded => |rounded - exact| ≤ 1 / 10000
  | _, _ => False

structure Agrees (row : SettledRow) (measures : Measures) : Prop where
  sessionReturn : Near row.sessionReturn measures.sessionReturn
  entryToNextClose : Near row.entryToNextClose measures.entryToNextClose
  nextOpenToClose : Near row.nextOpenToClose measures.nextOpenToClose
  netSessionReturn : Near row.netSessionReturn measures.netSessionReturn
  netNextOpenToClose : Near row.netNextOpenToClose measures.netNextOpenToClose
  excessSession : Near row.excessSession measures.excessSession
  nextOpenLocked : row.nextOpenLocked = measures.nextOpenLocked
  counts : some row.counts = measures.evaluable

theorem near_roundTo (x : ℚ) : |roundTo 10000 x - x| ≤ 1 / 20000 := by
  obtain ⟨hbelow, habove⟩ := Rounding.near_halfEven (x * 10000)
  unfold roundTo
  push_cast
  rw [abs_le]
  constructor
  · have hle : (x * 10000 - 1 / 2) / 10000 ≤ Rounding.halfEven (x * 10000) / 10000 :=
      div_le_div_of_nonneg_right (by linarith) (by norm_num)
    linarith
  · have hle : (Rounding.halfEven (x * 10000) : ℚ) / 10000 ≤ (x * 10000 + 1 / 2) / 10000 :=
      div_le_div_of_nonneg_right (by linarith) (by norm_num)
    linarith

/-- A percentage agrees, and so does what is left of it behind a number that is taken away. -/
theorem near_pct {base : ℚ} (hbase : base ≠ 0) (target : Option ℚ) :
    Near (settledPct base target) (pctOf target (some base)) ∧ ∀ other : ℚ,
      Near ((settledPct base target).map (· - other)) ((pctOf target (some base)).map (fun value => roundTo 10000 (value - other))) := by
  cases target with
  | none => exact ⟨trivial, fun _ => trivial⟩
  | some value =>
      rw [settledPct, pctOf, Option.bind_some, if_neg hbase, if_neg hbase]
      have hvalue := near_roundTo ((value / base - 1) * 100)
      refine ⟨hvalue.trans (by norm_num), fun other => ?_⟩
      have hless := near_roundTo (roundTo 10000 ((value / base - 1) * 100) - other)
      rw [Option.map_some, Option.map_some, Near]
      rw [abs_le] at *
      constructor <;> linarith

theorem near_nextOpen (nextOpen nextClose : Option ℚ) :
    (Near ((nextOpen.filter (fun value => decide (0 < value))).bind (fun value => settledPct value nextClose))
        (pctOf nextClose nextOpen)
      ↔ ∀ value, nextOpen = some value → value < 0 → nextClose = none) ∧
    ((∀ value, nextOpen = some value → value < 0 → nextClose = none) → ∀ other : ℚ,
      Near (((nextOpen.filter (fun value => decide (0 < value))).bind (fun value => settledPct value nextClose)).map (· - other))
        ((pctOf nextClose nextOpen).map (fun value => roundTo 10000 (value - other)))) := by
  rcases nextOpen with _ | value
  · cases nextClose <;> simp [pctOf, Near]
  · rcases lt_trichotomy value 0 with hneg | rfl | hpos
    · cases nextClose <;> simp [pctOf, Near, Option.filter_some, hneg.not_gt, hneg.ne, hneg]
    · cases nextClose <;> simp [pctOf, Near, Option.filter_some]
    · have hnear := near_pct hpos.ne' nextClose
      simp [Option.filter_some, hpos, hnear, hpos.not_gt]

theorem locked_iff (nextOpen limitUp : Option ℚ) :
    openLocked nextOpen limitUp = lockedAt nextOpen limitUp ↔ ∀ limit, limitUp = some limit → limit ≤ 0 → nextOpen = none := by
  cases nextOpen with
  | none => cases limitUp <;> simp [openLocked, lockedAt]
  | some value =>
      cases limitUp with
      | none => simp [openLocked, lockedAt]
      | some limit =>
          by_cases hlimit : limit ≤ 0
          · simp [openLocked, lockedAt, hlimit]
          · simp [openLocked, lockedAt, hlimit, not_le.mp hlimit]

theorem counts_iff (price : ℚ) (limitUp : Option ℚ) (isSealed : Option Bool) :
    (!isSealed.getD false) = entryEvaluable (some price) limitUp isSealed
      ↔ isSealed = some true ∨ ∀ limit, limitUp = some limit → 0 < limit → price < limit - 5 / 1000 := by
  rcases isSealed with _ | _ | _
  · cases limitUp with
    | none => simp [entryEvaluable, lockedAt]
    | some limit => by_cases hlimit : limit ≤ 0 <;> simp [entryEvaluable, lockedAt, hlimit, not_lt.mpr, not_le.mp, lt_sub_iff_add_lt]
  · cases limitUp with
    | none => simp [entryEvaluable, lockedAt]
    | some limit => by_cases hlimit : limit ≤ 0 <;> simp [entryEvaluable, lockedAt, hlimit, not_lt.mpr, not_le.mp, lt_sub_iff_add_lt]
  · simp [entryEvaluable]

/-- What lets the two agree. -/
structure OneMeasure (price : ℚ) (isSealed : Option Bool) (bar nextBar : Option DayBar) : Prop where
  unlocked : isSealed = some true ∨ ∀ limit, bar.bind DayBar.limitUpPrice = some limit → 0 < limit → price < limit - 5 / 1000
  opens : ∀ value, nextBar.bind DayBar.openPrice = some value → value < 0 → nextBar.bind DayBar.close = none
  limits : ∀ limit, nextBar.bind DayBar.limitUpPrice = some limit → limit ≤ 0 → nextBar.bind DayBar.openPrice = none

/-- **The settlement agrees with the shared measure exactly if the entry is not at a limit that the scan did not see**, and
the next session opens above zero and has a positive limit. -/
theorem settle_agrees_iff (cost price : ℚ) (isSealed : Option Bool) (bar nextBar : Option DayBar) (benchmark : Option ℚ) :
    (∀ row, settleRow cost price isSealed bar nextBar benchmark = some row →
        Agrees row (measure cost ⟨some price, isSealed⟩ bar nextBar benchmark))
      ↔ price ≤ 0 ∨ OneMeasure price isSealed bar nextBar := by
  by_cases hprice : price ≤ 0
  · simp [settleRow, hprice]
  have hne : price ≠ 0 := fun hzero => hprice hzero.le
  obtain ⟨hsession, hnetSession⟩ := near_pct hne (bar.bind DayBar.close)
  have hopen := near_nextOpen (nextBar.bind DayBar.openPrice) (nextBar.bind DayBar.close)
  rw [settleRow, if_neg hprice, or_iff_right hprice]
  constructor
  · intro h
    have hagrees := h _ rfl
    exact ⟨(counts_iff _ _ _).mp (Option.some.inj hagrees.counts),
      hopen.1.mp hagrees.nextOpenToClose, (locked_iff _ _).mp hagrees.nextOpenLocked⟩
  · rintro ⟨hunlocked, hopens, hlimits⟩ row hrow
    obtain rfl := Option.some.inj hrow
    refine ⟨hsession, (near_pct hne _).1, hopen.1.mpr hopens, hnetSession cost, hopen.2 hopens cost, ?_, (locked_iff _ _).mpr hlimits,
      congrArg some ((counts_iff _ _ _).mpr hunlocked)⟩
    cases benchmark with
    | none =>
        cases hclose : bar.bind DayBar.close with
        | none => simp [settledPct, pctOf, measure, hclose, Near]
        | some close => simp [settledPct, pctOf, measure, hclose, Near, hne]
    | some median =>
        have hexcess := hnetSession median
        cases hclose : bar.bind DayBar.close with
        | none => simp [settledPct, pctOf, measure, hclose, Near]
        | some close => simpa [settledPct, pctOf, measure, hclose, hne] using hexcess

/-- A price at the limit that the scan did not see counts in the settlement. -/
theorem limit_price_counts :
    ¬ ∀ row, settleRow (1 / 5) 11 (some false) (some ⟨none, none, some 11, some 10, some 11, some 10⟩) none none = some row →
      Agrees row (measure (1 / 5) ⟨some 11, some false⟩ (some ⟨none, none, some 11, some 10, some 11, some 10⟩) none none) :=
  fun h => absurd (h _ rfl).counts (by decide +kernel)

end TradingHarness.Outcomes
