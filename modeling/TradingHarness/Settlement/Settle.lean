import TradingHarness.Settlement.Walk
import TradingHarness.Market.Reality

set_option autoImplicit false

/-! # Settling one idea

`settle` of `t1_settlement.py`: the entry check on the raw entry bar, the walk of a sale at the
close from the target session on, and the document of returns and excursions on the price window
from the entry to the exit. -/

namespace TradingHarness

/-- `MIN_HOLDING_SESSIONS`: the session after entry is the earliest a T+1 position can be sold. -/
def minHoldingSessions : ℕ := 2

def settlementVersion : String := "t1-settlement-v1"

def benchmarkKey : String := "all_a_equal_weight"

/-- The sign a return of this direction is scored with. -/
def Direction.sign : Direction → ℚ
  | .long => 1
  | .short => -1

/-- How the exit of a settled idea was reached. -/
inductive Tradability
  | observedOpen
  | other (reason : Reason)
  deriving DecidableEq

/-- The document of a settled idea. -/
structure Settlement where
  version : String := settlementVersion
  direction : Direction
  entryDate : Date
  exitDate : Date
  entryPrice : Option ℚ
  exitPrice : Option ℚ
  priceBasis : PriceBasis
  requestedHorizonSessions : ℤ
  sessionsHeld : ℕ
  exitRolledSessions : ℕ
  grossReturn : ℚ
  netReturn : ℚ
  roundTripCost : ℚ
  benchmarkKey : Option String
  benchmarkReturn : Option ℚ
  excessReturn : Option ℚ
  maximumFavorableExcursion : ℚ
  maximumAdverseExcursion : ℚ
  tradability : Tradability
  deriving DecidableEq

inductive SettleResult
  | pending (reason : Reason) (entryDate : Option Date)
  | entryUnfillable (reason : Reason) (entryDate : Date)
  | settled (settlement : Settlement)
  deriving DecidableEq

/-- `rule=lambda _index, _bar: "close"`. -/
def sellAtClose : SellRule where
  State := Unit
  start := ()
  answer := fun _ _ _ => (some (.sell .atClose), ())

variable (path : List SettlementBar) (symbol : String) (direction : Direction) (horizon : ℤ) (maxRoll : ℕ)

/-- The index of the first session the idea may be sold at. -/
def targetIndex : ℕ := (max horizon minHoldingSessions).toNat - 1

/-- The walk of the exit, from the target session on. -/
def walkIdea : Walked :=
  walkExit (priceWindow (path.drop (targetIndex horizon))) symbol sellAtClose maxRoll direction

/-- `bar.high if bar.high is not None else bar.close`. -/
def barHigh (bar : PricedBar) : Option ℚ := bar.high.or bar.close
/-- `bar.low if bar.low is not None else bar.close`. -/
def barLow (bar : PricedBar) : Option ℚ := bar.low.or bar.close

/-- The returns and excursions on the window from the entry to the exit. The exit bar has a close,
    so the lists of highs and lows are not empty. -/
def returnsOf (window : List SettlementBar) (direction : Direction) :
    Except PyError (ℚ × ℚ × ℚ) := do
  let bars := (priceWindow window).bars
  let entryPrice := (bars.head?.bind (·.openPrice)).getD 0
  let exitPrice := (bars.getLast?.bind (·.close)).getD 0
  let highest := (bars.filterMap barHigh).max?.getD 0
  let lowest := (bars.filterMap barLow).min?.getD 0
  let exitRatio ← divide exitPrice entryPrice
  let gross := (exitRatio - 1) * direction.sign
  match direction with
  | .long =>
      let favorable ← divide highest entryPrice
      let adverse ← divide lowest entryPrice
      return (gross, favorable - 1, adverse - 1)
  | .short =>
      let favorable ← divide entryPrice lowest
      let adverse ← divide entryPrice highest
      return (gross, favorable - 1, adverse - 1)

/-- The document of an exit at `exitIndex` of the path. -/
def settledDocument (entry : SettlementBar) (direction : Direction)
    (horizon : ℤ) (benchmarkReturn : Option (Date → Date → Option ℚ)) (cost : ℚ)
    (walkedIndex : ℕ) (walkedReason : Reason) : Except PyError SettleResult := do
  let exitIndex := targetIndex horizon + walkedIndex
  let window := path.take (exitIndex + 1)
  let (gross, favorable, adverse) ← returnsOf window direction
  let exitBar := window.getLast?.getD entry
  let market := benchmarkReturn.bind (· entry.tradingDate exitBar.tradingDate)
  let benchmark := market.map (· * direction.sign)
  return .settled
    { direction := direction
      entryDate := entry.tradingDate
      exitDate := exitBar.tradingDate
      entryPrice := entry.openPrice
      exitPrice := exitBar.close
      priceBasis := (priceWindow window).basis
      requestedHorizonSessions := horizon
      sessionsHeld := exitIndex + 1
      exitRolledSessions := walkedIndex
      grossReturn := gross
      netReturn := gross - cost
      roundTripCost := cost
      benchmarkKey := benchmark.map (fun _ => TradingHarness.benchmarkKey)
      benchmarkReturn := benchmark
      excessReturn := benchmark.map (gross - ·)
      maximumFavorableExcursion := favorable
      maximumAdverseExcursion := adverse
      tradability :=
        if walkedIndex = 0 ∧ walkedReason = .rule then .observedOpen else .other walkedReason }

/-- Settle one idea from the sessions after its signal date, the entry session first. -/
def settle (benchmarkReturn : Option (Date → Date → Option ℚ) := none) (cost : ℚ := roundTripCost)
    (maxRoll : ℕ := maxExitRollSessions) : Except PyError SettleResult :=
  match path with
  | [] => .ok (.pending .noEntrySessionYet none)
  | entry :: _ =>
    match entryBlockReason entry direction symbol with
    | some blocked => .ok (.entryUnfillable blocked entry.tradingDate)
    | none =>
      if path.length ≤ targetIndex horizon then
        .ok (.pending .exitSessionNotObserved (some entry.tradingDate))
      else
        match walkIdea path symbol direction horizon maxRoll with
        | .pending reason =>
            .ok (.pending
              (if reason = .exitBlockedWithoutPrice then .exitBlockedWithoutPrice
                else .exitSessionNotObserved)
              (some entry.tradingDate))
        | .settled walkedIndex _ _ walkedReason =>
            settledDocument path entry direction horizon benchmarkReturn cost walkedIndex
              walkedReason

theorem walkIdea_eq :
    walkIdea path symbol direction horizon maxRoll
      = sellAt symbol direction maxRoll .atClose 0
          (priceWindow (path.drop (targetIndex horizon))).bars := by
  unfold walkIdea walkExit
  cases (priceWindow (path.drop (targetIndex horizon))).bars with
  | nil => rfl
  | cons bar rest => rfl

/-! ## Where a sale at the close ends -/

/-- The exit session of a walk, if it has one. -/
def Walked.exitIndex? : Walked → Option ℕ
  | .pending _ => none
  | .settled exitIndex _ _ _ => some exitIndex

variable (symbol : String) (direction : Direction) (left index : ℕ) (bars : List PricedBar)

theorem valueAtClose_exitIndex? (bar : PricedBar) :
    (valueAtClose index bar).exitIndex? = bar.close.map (fun _ => index) := by
  unfold valueAtClose
  cases bar.close <;> rfl

/-- A sale at the close ends where the roll from the same session ends: only the reason of an
    unrolled exit differs. -/
theorem sellAt_close_exitIndex? (index : ℕ)
    (bars : List PricedBar) :
    (sellAt symbol direction maxRoll .atClose index bars).exitIndex?
      = (rollPast symbol direction maxRoll index bars).exitIndex? := by
  cases bars with
  | nil => cases maxRoll <;> rfl
  | cons bar rest =>
      rw [sellAt_cons, rollPast_cons]
      by_cases hb : offerBlocked symbol direction bar .atClose = false
      · rw [if_pos hb, if_pos hb]
        rfl
      · rw [if_neg hb, if_neg hb, if_neg (fun h => hb h.2)]

theorem rollPast_exitIndex_ge (i : ℕ)
    (h : (rollPast symbol direction left index bars).exitIndex? = some i) : index ≤ i := by
  induction bars generalizing left index with
  | nil => simp [rollPast, Walked.exitIndex?] at h
  | cons bar rest ih =>
      unfold rollPast at h
      split at h
      · simp only [Walked.exitIndex?, Option.some.injEq] at h
        exact h.le
      · cases left with
        | zero =>
            simp only [valueAtClose_exitIndex?, Option.map_eq_some_iff] at h
            obtain ⟨-, -, hi⟩ := h
            exact hi.le
        | succ left => exact Nat.le_of_succ_le (ih left (index + 1) h)

/-- Two rows of verdicts agree up to the first session that is free, as far as a roll of `n`
    sessions looks. -/
def AgreeUntilFree : ℕ → List Bool → List Bool → Prop
  | n + 1, blocked :: rest, blocked' :: rest' =>
      blocked = blocked' ∧ (blocked = true → AgreeUntilFree n rest rest')
  | _, _, _ => True

/-- The verdicts of a roll over the closes of a list of bars. -/
def closeVerdicts (symbol : String) (direction : Direction) (bars : List PricedBar) : List Bool :=
  bars.map (fun bar => offerBlocked symbol direction bar .atClose)

theorem close_isSome_of_free (bar : PricedBar)
    (h : offerBlocked symbol direction bar .atClose = false) : bar.close.isSome = true := by
  cases direction with
  | long =>
      obtain ⟨price, hprice, -⟩ := saleBlocked_eq_false symbol bar.toSettlementBar .atClose h
      have hclose : bar.close = some price := hprice
      simp [hclose]
  | short =>
      simp only [offerBlocked, exitBlocked] at h
      split at h
      · simp at h
      · next price hprice => simp [hprice]

/-- **Where two rolls end.** Over two lists of bars of the same length whose closes are missing on
    the same sessions, a roll ends on the same session exactly when the verdicts agree up to the
    first free one. -/
theorem rollPast_exitIndex_eq_iff (bars' : List PricedBar)
    (hclose : bars.map (·.close.isSome) = bars'.map (·.close.isSome)) :
    (rollPast symbol direction left index bars).exitIndex?
        = (rollPast symbol direction left index bars').exitIndex? ↔
      AgreeUntilFree left (closeVerdicts symbol direction bars)
        (closeVerdicts symbol direction bars') := by
  induction bars generalizing left index bars' with
  | nil =>
      cases bars' with
      | nil => simp [closeVerdicts, AgreeUntilFree]
      | cons bar' rest' => simp at hclose
  | cons bar rest ih =>
      cases bars' with
      | nil => simp at hclose
      | cons bar' rest' =>
          simp only [List.map_cons, List.cons.injEq] at hclose
          obtain ⟨hhead, hrest⟩ := hclose
          have hlast : ∀ b : PricedBar, (rollPast symbol direction 0 index [b]).exitIndex?
              = b.close.map (fun _ => index) := by
            intro b
            unfold rollPast
            split
            · next hb =>
                have hsome := close_isSome_of_free symbol direction b hb
                cases hc : b.close with
                | none => simp [hc] at hsome
                | some c => rfl
            · exact valueAtClose_exitIndex? index b
          cases left with
          | zero =>
              have hzero : ∀ (b : PricedBar) (l : List PricedBar),
                  (rollPast symbol direction 0 index (b :: l)).exitIndex?
                    = b.close.map (fun _ => index) := fun b l => (hlast b)
              rw [hzero, hzero]
              refine ⟨fun _ => by simp [AgreeUntilFree], fun _ => ?_⟩
              cases hc : bar.close <;> cases hc' : bar'.close <;> simp [hc, hc'] at hhead ⊢
          | succ left =>
              simp only [closeVerdicts, List.map_cons, AgreeUntilFree]
              unfold rollPast
              have hno : ∀ l : List PricedBar,
                  (rollPast symbol direction left (index + 1) l).exitIndex? ≠ some index := by
                intro l hl
                have := rollPast_exitIndex_ge symbol direction left (index + 1) l index hl
                omega
              cases hb : offerBlocked symbol direction bar .atClose <;>
                cases hb' : offerBlocked symbol direction bar' .atClose <;>
                simp only [if_true, Walked.exitIndex?]
              · simp
              · simp only [Bool.false_eq_true, false_and, iff_false]
                exact fun h => hno rest' h.symm
              · simp only [Bool.true_eq_false, false_and, iff_false]
                exact hno rest
              · simp only [true_and, forall_const]
                exact ih left (index + 1) rest' hrest

end TradingHarness
