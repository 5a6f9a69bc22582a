import TradingHarness.Tactics.Outcomes
import TradingHarness.Settlement.Meet

set_option autoImplicit false

/-! # The held entry in the two slots

A stock held at the close of T can first be sold on the next session X. The close slot sees the path
from T on and sells from X; the auction slot sees the path from X on, and its walk starts one
session after that, with a reference price put on X's factor instead of T's. Both walks are read on
the sessions from X on here, and compared there rule by rule. -/

namespace TradingHarness

/-! ## A walk as one answer -/

/-- What a rule's first answer leads to on a window; without an answer the sale stays open. -/
def endOf (symbol : String) (maxRoll : ℕ) (bars : List PricedBar) :
    Option (ℕ × ExitDecision) → Walked
  | none => .pending .notResolved
  | some (i, decision) => carryOut symbol .long maxRoll i (bars.drop i) decision

/-- The sale an answer asks for. A rule that never answers asks after the last session; a resting
    order asks for none. -/
def saleAsked (bars : List PricedBar) : Option (ℕ × ExitDecision) → Option (ℕ × SaleField)
  | none => some (bars.length, .atClose)
  | some (i, .sell field) => some (i, field)
  | some (_, .target _) => none
  | some (_, .stop _) => none

variable (symbol : String) (maxRoll : ℕ) (bars : List PricedBar) (answer : Option (ℕ × ExitDecision))
  (sale : ℕ × SaleField)

theorem endOf_of_saleAsked (h : saleAsked bars answer = some sale) :
    endOf symbol maxRoll bars answer = saleOn symbol maxRoll bars sale := by
  unfold saleAsked at h
  split at h
  · simp only [Option.some.injEq] at h
    subst h
    simp [endOf, saleOn, sellAt]
  · simp only [Option.some.injEq] at h
    subst h
    rfl
  · simp at h
  · simp at h

theorem walkFrom_eq_endOf (rule : SellRule)
    (bars : List PricedBar) :
    walkFrom symbol .long maxRoll rule rule.start 0 bars
      = endOf symbol maxRoll bars (firstAnswer rule rule.start 0 bars) := by
  rw [walkFrom_eq_firstAnswer]
  unfold endOf
  rcases firstAnswer rule rule.start 0 bars with _ | ⟨i, decision⟩
  · rfl
  · rfl

/-- An answer with its sessions counted from one session earlier. -/
def laterAnswer (answer : Option (ℕ × ExitDecision)) : Option (ℕ × ExitDecision) :=
  answer.map (fun a => (a.1 + 1, a.2))

theorem endOf_tail_shift (bar : PricedBar)
    (rest : List PricedBar) (answer : Option (ℕ × ExitDecision)) :
    (endOf symbol maxRoll rest answer).shift 1
      = endOf symbol maxRoll (bar :: rest) (laterAnswer answer) := by
  rcases answer with _ | ⟨i, decision⟩
  · rfl
  · exact (carryOut_shift symbol 1 maxRoll i (rest.drop i) decision).symm

/-! ## Resting orders wait for the first sell session only -/

def ExitDecision.resting : ExitDecision → Bool
  | .sell _ => false
  | _ => true

theorem firstAnswer_capped_not_resting (rule : SellRule)
    (h : ∀ state index bar decision, (rule.answer state index bar).1 = some decision →
      decision.resting = false)
    (state : (capped rule).State) (index : ℕ) (bars : List PricedBar) (i : ℕ)
    (decision : ExitDecision)
    (hanswer : firstAnswer (capped rule) state index bars = some (i, decision)) :
    decision.resting = false := by
  induction bars generalizing state index with
  | nil => simp [firstAnswer] at hanswer
  | cons bar rest ih =>
      rw [firstAnswer_cons] at hanswer
      by_cases hcap : maxSellSessions - 1 ≤ index
      · simp only [if_pos hcap, Option.some.injEq, Prod.mk.injEq] at hanswer
        rw [← hanswer.2]
        rfl
      · simp only [if_neg hcap] at hanswer
        rcases ha : rule.answer state index bar with ⟨_ | d, state'⟩
        · rw [ha] at hanswer
          exact ih state' (index + 1) hanswer
        · rw [ha] at hanswer
          simp only [Option.some.injEq, Prod.mk.injEq] at hanswer
          rw [← hanswer.2]
          exact h state index bar d (by rw [ha])

theorem keepWhileSealed_not_resting (closed : Option Bool) (decision : ExitDecision)
    (h : keepWhileSealed closed = some decision) : decision.resting = false := by
  unfold keepWhileSealed at h
  split at h
  · simp only [Option.some.injEq] at h
    rw [← h]
    rfl
  · simp at h

theorem gapAnswer_not_resting (index : ℕ) (bar : PricedBar)
    (decision : ExitDecision) (h : gapAnswer symbol index bar = some decision) :
    decision.resting = false := by
  unfold gapAnswer at h
  split at h
  · simp at h
  · split at h
    · split at h
      · split at h
        · exact keepWhileSealed_not_resting _ decision h
        · simp only [Option.some.injEq] at h
          rw [← h]
          rfl
      · simp at h
    · exact keepWhileSealed_not_resting _ decision h

theorem firstAnswer_stateless (answer : PricedBar → ExitDecision)
    (bars : List PricedBar) (i : ℕ) (decision : ExitDecision)
    (h : firstAnswer (capped (statelessRule (fun _ bar => some (answer bar)))) () 0 bars
      = some (i, decision)) : i = 0 := by
  cases bars with
  | nil => simp [firstAnswer] at h
  | cons bar rest =>
      rw [firstAnswer_cons] at h
      have hcap : ¬ maxSellSessions - 1 ≤ 0 := by decide
      simp only [if_neg hcap, Option.some.injEq, Prod.mk.injEq] at h
      exact h.1.symm

theorem resting_on_first (key : ExitKey) (context : ExitContext) (bars : List PricedBar) (i : ℕ)
    (decision : ExitDecision)
    (h : firstAnswer (capped (exitRule key context)) (exitRule key context).start 0 bars
      = some (i, decision))
    (hresting : decision.resting = true) : i = 0 := by
  have hno : ∀ rule : SellRule,
      (∀ state index bar d, (rule.answer state index bar).1 = some d → d.resting = false) →
      firstAnswer (capped rule) rule.start 0 bars = some (i, decision) → i = 0 := by
    intro rule hrule hanswer
    have hsell := firstAnswer_capped_not_resting rule hrule rule.start 0 bars i decision hanswer
    rw [hsell] at hresting
    exact absurd hresting (by decide)
  cases key with
  | sellOpen => exact firstAnswer_stateless (fun _ => .sell .atOpen) bars i decision h
  | sellClose =>
      exact firstAnswer_stateless (fun _ => .sell .atClose) bars i decision h
  | tp3 => exact firstAnswer_stateless _ bars i decision h
  | tp5 => exact firstAnswer_stateless _ bars i decision h
  | tp8 => exact firstAnswer_stateless _ bars i decision h
  | sl3 => exact firstAnswer_stateless _ bars i decision h
  | tp5Sl3StopFirst => exact firstAnswer_stateless _ bars i decision h
  | tp5Sl3TargetFirst => exact firstAnswer_stateless _ bars i decision h
  | holdWhileSealed =>
      refine hno (holdWhileSealedRule context) ?_ h
      intro _ _ bar d hd
      exact keepWhileSealed_not_resting _ d hd
  | gapRule =>
      refine hno (gapRule context) ?_ h
      intro _ index bar d hd
      exact gapAnswer_not_resting context.symbol index bar d hd
  | mustRise =>
      refine hno (mustRiseRule context) ?_ h
      intro highest index bar d hd
      simp only at hd
      split at hd
      · simp at hd
      · split at hd
        · simp only [Option.some.injEq] at hd
          rw [← hd]
          rfl
        · simp at hd
  | belowMa5 =>
      refine hno (belowMa5Rule context) ?_ h
      intro state index bar d hd
      obtain ⟨closes, pending⟩ := state
      simp only at hd
      split at hd
      · simp only [Option.some.injEq] at hd
        rw [← hd]
        rfl
      · split at hd <;> simp at hd

/-! ## The two outcomes -/

/-- The outcomes of the two slots say the same; the auction path starts one session later. -/
structure SameHeld (close auction : Outcome) : Prop where
  status : close.status = auction.status
  reason : close.reason = auction.reason
  field : close.field = auction.field
  rawReturn : close.rawReturn = auction.rawReturn
  exitIndex : close.exitIndex = auction.exitIndex.map (· + 1)

/-- The same for the walks behind them, each with the price its return is measured from. -/
def SameEnd (walked : Walked) (base : ℚ) (walked' : Walked) (base' : ℚ) : Prop :=
  match walked, walked' with
  | .pending reason, .pending reason' => reason = reason'
  | .settled i field price reason, .settled i' field' price' reason' =>
      i = i' ∧ field = field' ∧ reason = reason' ∧ price / base = price' / base'
  | _, _ => False

theorem returnResult_pending (reason : Reason) (base : ℚ) (basis : PriceBasis) (cost : ℚ)
    (offset : ℕ) (outcome : Outcome)
    (h : returnResult (.pending reason) base basis cost offset = .ok outcome) :
    outcome = { status := .notResolved, priceBasis := basis, reason := some reason } :=
  (Except.ok.inj h).symm

theorem returnResult_of_settled (i : ℕ) (field : ExitField) (price : ℚ) (reason : Reason)
    (base : ℚ) (basis : PriceBasis) (cost : ℚ) (offset : ℕ) (outcome : Outcome)
    (h : returnResult (.settled i field price reason) base basis cost offset = .ok outcome) :
    base ≠ 0 ∧ outcome =
      { status := .settled, rawReturn := some (price / base - 1)
        netReturn := some (price / base - 1 - cost), exitIndex := some (offset + i)
        field := some field, reason := some reason, price := some price, priceBasis := basis } := by
  simp only [returnResult] at h
  cases hd : divide price base with
  | error e => simp [hd, bind, Except.bind] at h
  | ok ratio =>
      obtain ⟨hbase, rfl⟩ := divide_ok price base ratio hd
      simp only [hd, bind, Except.bind, pure, Except.pure, Except.ok.injEq] at h
      exact ⟨hbase, h.symm⟩

theorem sameHeld_iff (walked walked' : Walked) (base base' : ℚ) (basis basis' : PriceBasis)
    (close auction : Outcome) (hclose : returnResult walked base basis 0 1 = .ok close)
    (hauction : returnResult walked' base' basis' 0 1 = .ok auction) :
    SameHeld close auction ↔ SameEnd walked base (walked'.shift 1) base' := by
  cases walked with
  | pending reason =>
      obtain rfl := returnResult_pending reason base basis 0 1 close hclose
      cases walked' with
      | pending reason' =>
          obtain rfl := returnResult_pending reason' base' basis' 0 1 auction hauction
          constructor
          · intro h
            exact Option.some.inj h.reason
          · intro h
            exact ⟨rfl, congrArg some h, rfl, rfl, rfl⟩
      | settled i field price reason' =>
          obtain ⟨-, rfl⟩ := returnResult_of_settled _ _ _ _ base' basis' 0 1 auction hauction
          constructor
          · intro h
            exact absurd h.status (by simp)
          · intro h
            exact h.elim
  | settled i field price reason =>
      obtain ⟨hbase, rfl⟩ := returnResult_of_settled _ _ _ _ base basis 0 1 close hclose
      cases walked' with
      | pending reason' =>
          obtain rfl := returnResult_pending reason' base' basis' 0 1 auction hauction
          constructor
          · intro h
            exact absurd h.status (by simp)
          · intro h
            exact h.elim
      | settled i' field' price' reason' =>
          obtain ⟨hbase', rfl⟩ := returnResult_of_settled _ _ _ _ base' basis' 0 1 auction hauction
          constructor
          · intro h
            have hindex : 1 + i = 1 + i' + 1 := Option.some.inj h.exitIndex
            have hraw : price / base - 1 = price' / base' - 1 := Option.some.inj h.rawReturn
            exact ⟨by omega, Option.some.inj h.field, Option.some.inj h.reason, by linarith⟩
          · rintro ⟨rfl, rfl, rfl, hratio⟩
            refine ⟨rfl, rfl, rfl, ?_, ?_⟩
            · simp only [hratio]
            · simp only [Option.map_some, Option.some.injEq]
              omega

/-- Two sales of one window, measured from two prices, are the same when they end alike and the
    prices are one, or nothing is received. -/
theorem sameEnd_sales_iff (s t : ℕ × SaleField) (base base' : ℚ)
    (hbase : ∀ i field price reason,
      saleOn symbol maxRoll bars s = .settled i field price reason → base ≠ 0)
    (hbase' : ∀ i field price reason,
      saleOn symbol maxRoll bars t = .settled i field price reason → base' ≠ 0) :
    SameEnd (saleOn symbol maxRoll bars s) base (saleOn symbol maxRoll bars t) base' ↔
      SalesAgree symbol maxRoll bars s t ∧ (base = base' ∨ Worthless symbol maxRoll bars s) := by
  rw [← saleOn_eq_iff_agree, worthless_iff]
  have hpriced := saleOn_priced symbol maxRoll bars s
  have hpriced' := saleOn_priced symbol maxRoll bars t
  cases hs : saleOn symbol maxRoll bars s with
  | pending reason =>
      cases saleOn symbol maxRoll bars t with
      | pending reason' => simp [SameEnd]
      | settled i' field' price' reason' => simp [SameEnd]
  | settled i field price reason =>
      cases ht : saleOn symbol maxRoll bars t with
      | pending reason' => simp [SameEnd]
      | settled i' field' price' reason' =>
          have hb : base ≠ 0 := hbase i field price reason hs
          have hb' : base' ≠ 0 := hbase' i' field' price' reason' ht
          have hratio : price / base = price / base' ↔ base = base' ∨ price = 0 := by
            rw [div_eq_div_iff hb hb']
            constructor
            · intro h
              by_cases hzero : price = 0
              · exact Or.inr hzero
              · exact Or.inl (mul_left_cancel₀ hzero h).symm
            · rintro (rfl | rfl)
              · rfl
              · simp
          constructor
          · rintro ⟨rfl, rfl, rfl, h⟩
            -- both prices are read off the exit bar at the exit field
            obtain ⟨bar, sale, hbar, hfield, hprice⟩ := hpriced i field price reason hs
            obtain ⟨bar', sale', hbar', hfield', hprice'⟩ := hpriced' i field price' reason ht
            have hsale : sale = sale' := by
              rw [hfield] at hfield'
              cases sale <;> cases sale' <;> simp [SaleField.toExitField] at hfield' <;> rfl
            rw [hbar, Option.some.injEq] at hbar'
            rw [← hbar', ← hsale, hprice, Option.some.injEq] at hprice'
            subst hprice'
            refine ⟨rfl, (hratio.mp h).imp id ?_⟩
            intro hzero _ _ _ _ hsettled
            simp only [Walked.settled.injEq] at hsettled
            rw [← hsettled.2.2.1, hzero]
          · rintro ⟨heq, hworth⟩
            simp only [Walked.settled.injEq] at heq
            obtain ⟨rfl, rfl, rfl, rfl⟩ := heq
            refine ⟨rfl, rfl, rfl, hratio.mpr (hworth.imp id ?_)⟩
            intro hzero
            exact hzero i field price reason rfl

/-! ## The exact condition -/

def heldContext (symbol : String) (slot : Slot) (reference : ℚ) : ExitContext where
  symbol := symbol
  slot := slot
  entryPrice := reference
  referencePrice := reference
  priorCloses := []

/-- The first answer of a capped rule on the given sell sessions. -/
def heldAnswer (key : ExitKey) (context : ExitContext) (bars : List PricedBar) :
    Option (ℕ × ExitDecision) :=
  firstAnswer (capped (exitRule key context)) (exitRule key context).start 0 bars

/-- What the close slot's walk answers, on the sessions from X on. -/
def closeAnswer (symbol : String) (t x : SettlementBar) (rest : List SettlementBar) (c : ℚ)
    (key : ExitKey) : Option (ℕ × ExitDecision) :=
  heldAnswer key (heldContext symbol .close (c * t.factorOn true))
    ((x :: rest).map (priceBar true))

/-- What the auction slot's walk answers, on the sessions from X on: it starts on the second. -/
def auctionAnswer (symbol : String) (x : SettlementBar) (rest : List SettlementBar) (c : ℚ)
    (key : ExitKey) : Option (ℕ × ExitDecision) :=
  laterAnswer (heldAnswer key (heldContext symbol .auction (c * x.factorOn true))
    (rest.map (priceBar true)))

/-- The two slots ask for sales that end alike, on one factor unless nothing is received. -/
def HeldSalesAgree (symbol : String) (t x : SettlementBar) (rest : List SettlementBar) (c : ℚ)
    (key : ExitKey) : Prop :=
  let bars := (x :: rest).map (priceBar true)
  ∃ sale sale', saleAsked bars (closeAnswer symbol t x rest c key) = some sale ∧
    saleAsked bars (auctionAnswer symbol x rest c key) = some sale' ∧
    SalesAgree symbol maxExitRollSessions bars sale sale' ∧
    (t.adjFactor = x.adjFactor ∨ Worthless symbol maxExitRollSessions bars sale)

/-- A held outcome is its walk, also when there is no sell session yet. -/
theorem entryOutcome_held (slot : Slot) (path : List SettlementBar)
    (referenceClose : Option ℚ) (key : ExitKey) (base : ℚ)
    (hbase : heldReference slot path referenceClose = some base) :
    entryOutcome symbol slot path referenceClose [] .held key
      = returnResult (endOf symbol maxExitRollSessions ((priceWindow path).bars.drop 1)
          (heldAnswer key (heldContext symbol slot base) ((priceWindow path).bars.drop 1)))
        base (priceWindow path).basis 0 1 := by
  have hcontext : contextOf symbol slot path referenceClose [] base
      = heldContext symbol slot base := by
    unfold contextOf heldContext
    rw [hbase]
    simp
  have hwalk : walkPick symbol slot path referenceClose [] .held key base
      = endOf symbol maxExitRollSessions ((priceWindow path).bars.drop 1)
          (heldAnswer key (heldContext symbol slot base) ((priceWindow path).bars.drop 1)) := by
    unfold walkPick walkExit heldAnswer
    rw [hcontext]
    exact walkFrom_eq_endOf symbol maxExitRollSessions _ _
  have hb : baseOf slot path referenceClose .held = some base := hbase
  unfold entryOutcome settlePick
  rw [hb]
  simp only [entryRefusal]
  by_cases hlength : (priceWindow path).bars.length ≤ startOf slot .held
  · have hnil : (priceWindow path).bars.drop 1 = [] := List.drop_eq_nil_of_le hlength
    rw [if_pos hlength, hnil]
    rfl
  · rw [if_neg hlength, hwalk]
    rfl

/-- An answer of the first session, and one of a later session, are not both carried out at once. -/
theorem not_sameEnd_of_resting (answer' : Option (ℕ × ExitDecision)) (base base' : ℚ)
    (hfirst : ∀ i d, answer = some (i, d) → d.resting = true → i = 0)
    (hlater : ∀ i d, answer' = some (i, d) → i ≠ 0)
    (hresting : saleAsked bars answer = none ∨ saleAsked bars answer' = none) :
    ¬ SameEnd (endOf symbol maxRoll bars answer) base (endOf symbol maxRoll bars answer') base' := by
  -- a sale ends at an open or a close, a resting order at neither
  have hsale : ∀ a s, saleAsked bars a = some s → ∀ i field price reason,
      endOf symbol maxRoll bars a = .settled i field price reason →
        field ≠ .target ∧ field ≠ .stop := by
    intro a s has i field price reason h
    rw [endOf_of_saleAsked symbol maxRoll bars a s has] at h
    obtain ⟨-, sale, -, rfl, -⟩ := saleOn_priced symbol maxRoll bars s i field price reason h
    cases sale <;> simp [SaleField.toExitField]
  have hrest : ∀ a, saleAsked bars a = none → ∃ i d price field, a = some (i, d) ∧
      d.resting = true ∧ (field = .target ∨ field = .stop) ∧
      endOf symbol maxRoll bars a = .settled i field price .rule := by
    intro a ha
    rcases a with _ | ⟨i, d⟩
    · simp [saleAsked] at ha
    · cases d with
      | sell field => simp [saleAsked] at ha
      | target price => exact ⟨i, _, price, .target, rfl, rfl, Or.inl rfl, rfl⟩
      | stop price => exact ⟨i, _, price, .stop, rfl, rfl, Or.inr rfl, rfl⟩
  intro hsame
  rcases hresting with hnone | hnone
  · obtain ⟨i, d, price, field, ha, hd, hfield, hend⟩ := hrest answer hnone
    have hi := hfirst i d ha hd
    rw [hend] at hsame
    cases hend' : endOf symbol maxRoll bars answer' with
    | pending reason' => simp [hend', SameEnd] at hsame
    | settled i' field' price' reason' =>
        rw [hend'] at hsame
        obtain ⟨rfl, rfl, -, -⟩ := hsame
        cases hasked : saleAsked bars answer' with
        | some s =>
            obtain ⟨htarget, hstop⟩ := hsale answer' s hasked _ _ _ _ hend'
            rcases hfield with h | h
            · exact htarget h
            · exact hstop h
        | none =>
            obtain ⟨j, d', _, _, ha', _, _, hend''⟩ := hrest answer' hasked
            rw [hend'', Walked.settled.injEq] at hend'
            exact hlater j d' ha' (by rw [hend'.1, hi])
  · obtain ⟨i, d, price, field, ha, hd, hfield, hend⟩ := hrest answer' hnone
    have hi := hlater i d ha
    rw [hend] at hsame
    cases hend' : endOf symbol maxRoll bars answer with
    | pending reason' => simp [hend', SameEnd] at hsame
    | settled i' field' price' reason' =>
        rw [hend'] at hsame
        obtain ⟨rfl, rfl, -, -⟩ := hsame
        cases hasked : saleAsked bars answer with
        | some s =>
            obtain ⟨htarget, hstop⟩ := hsale answer s hasked _ _ _ _ hend'
            rcases hfield with h | h
            · exact htarget h
            · exact hstop h
        | none =>
            obtain ⟨j, d', _, _, ha', hd', _, hend''⟩ := hrest answer hasked
            rw [hend'', Walked.settled.injEq] at hend'
            exact hi (by rw [← hend'.1]; exact hfirst j d' ha' hd')

theorem factorOn_eq_iff (t x : SettlementBar) (ht : t.hasFactor = true) (hx : x.hasFactor = true) :
    t.factorOn true = x.factorOn true ↔ t.adjFactor = x.adjFactor := by
  unfold SettlementBar.hasFactor at ht hx
  unfold SettlementBar.factorOn
  cases hft : t.adjFactor with
  | none => simp [hft] at ht
  | some ft =>
      cases hfx : x.adjFactor with
      | none => simp [hfx] at hx
      | some fx => simp

/-- The two reference prices are one when the factors are, unless nothing is received. -/
theorem base_eq_or_worthless_iff (t x : SettlementBar) (c : ℚ) (ht : t.hasFactor = true)
    (hx : x.hasFactor = true)
    (hbase : ∀ i field price reason,
      saleOn symbol maxRoll bars sale = .settled i field price reason → c * t.factorOn true ≠ 0) :
    c * t.factorOn true = c * x.factorOn true ∨ Worthless symbol maxRoll bars sale ↔
      t.adjFactor = x.adjFactor ∨ Worthless symbol maxRoll bars sale := by
  by_cases hworth : Worthless symbol maxRoll bars sale
  · exact ⟨fun _ => Or.inr hworth, fun _ => Or.inr hworth⟩
  · -- something is received, so the reference is not zero
    have hc : c ≠ 0 := by
      have hsettled := hworth
      rw [worthless_iff] at hsettled
      push Not at hsettled
      obtain ⟨i, field, price, reason, h, -⟩ := hsettled
      exact left_ne_zero_of_mul (hbase i field price reason h)
    rw [← factorOn_eq_iff t x ht hx, mul_right_inj' hc]

/-- **Held in the two slots.** The held outcomes of a rule are the same in both slots exactly when
    the sale asked from X and the sale asked from the session after X end alike, T and X carrying
    one factor unless nothing is received. -/
theorem held_slots_agree_iff (symbol : String) (t x : SettlementBar) (rest : List SettlementBar)
    (c : ℚ) (close auction : PickEvaluation) (key : ExitKey)
    (hfactor : ∀ bar ∈ t :: x :: rest, bar.hasFactor = true) (ht : t.close = some c)
    (hclose : evaluatePick symbol .close (t :: x :: rest) (some c) [] = .ok close)
    (hauction : evaluatePick symbol .auction (x :: rest) (some c) [] = .ok auction) :
    SameHeld (close.entries .held key) (auction.entries .held key) ↔
      HeldSalesAgree symbol t x rest c key := by
  have hadjusted : pathAdjusted (t :: x :: rest) = true := List.all_eq_true.mpr hfactor
  have hadjusted' : pathAdjusted (x :: rest) = true :=
    List.all_eq_true.mpr (fun bar hbar => hfactor bar (List.mem_cons_of_mem t hbar))
  have hreference : heldReference .close (t :: x :: rest) (some c)
      = some (c * t.factorOn true) := by
    simp only [heldReference, priceWindow, hadjusted]
    simp [priceBar, ht]
  have hreference' : heldReference .auction (x :: rest) (some c)
      = some (c * x.factorOn true) := by
    simp only [heldReference, basisReference, hadjusted', Option.map_some]
  have hbars : (priceWindow (t :: x :: rest)).bars.drop 1 = (x :: rest).map (priceBar true) := by
    simp [priceWindow, hadjusted]
  have hbars' : (priceWindow (x :: rest)).bars.drop 1 = rest.map (priceBar true) := by
    simp [priceWindow, hadjusted']
  have hout := evaluatePick_entries symbol .close (t :: x :: rest) (some c) [] close (by simp)
    hclose .held key
  have hout' := evaluatePick_entries symbol .auction (x :: rest) (some c) [] auction (by simp)
    hauction .held key
  rw [entryOutcome_held symbol .close _ _ key _ hreference, hbars] at hout
  rw [entryOutcome_held symbol .auction _ _ key _ hreference', hbars'] at hout'
  rw [sameHeld_iff _ _ _ _ _ _ _ _ hout hout']
  -- both walks on the sessions from X on
  have htail := endOf_tail_shift symbol maxExitRollSessions (priceBar true x)
    (rest.map (priceBar true))
    (heldAnswer key (heldContext symbol .auction (c * x.factorOn true)) (rest.map (priceBar true)))
  rw [htail, ← List.map_cons]
  change SameEnd (endOf symbol maxExitRollSessions _ (closeAnswer symbol t x rest c key)) _
    (endOf symbol maxExitRollSessions _ (auctionAnswer symbol x rest c key)) _ ↔ _
  have hfirst : ∀ i d, closeAnswer symbol t x rest c key = some (i, d) → d.resting = true →
      i = 0 := by
    intro i d h hresting
    exact resting_on_first key _ _ i d h hresting
  have hlater : ∀ i d, auctionAnswer symbol x rest c key = some (i, d) → i ≠ 0 := by
    intro i d h
    unfold auctionAnswer laterAnswer at h
    rw [Option.map_eq_some_iff] at h
    obtain ⟨a, -, ha⟩ := h
    simp only [Prod.mk.injEq] at ha
    omega
  unfold HeldSalesAgree
  dsimp only
  cases hs : saleAsked ((x :: rest).map (priceBar true)) (closeAnswer symbol t x rest c key) with
  | none =>
      simp only [reduceCtorEq, false_and, exists_false, iff_false]
      exact not_sameEnd_of_resting symbol _ _ _ _ _ _ hfirst hlater (Or.inl hs)
  | some sale =>
      cases hs' : saleAsked ((x :: rest).map (priceBar true))
          (auctionAnswer symbol x rest c key) with
      | none =>
          simp only [reduceCtorEq, false_and, and_false, exists_false, iff_false]
          exact not_sameEnd_of_resting symbol _ _ _ _ _ _ hfirst hlater (Or.inr hs')
      | some sale' =>
          have hend := endOf_of_saleAsked symbol maxExitRollSessions _ _ sale hs
          have hend' := endOf_of_saleAsked symbol maxExitRollSessions _ _ sale' hs'
          have hbase : ∀ i field price reason,
              saleOn symbol maxExitRollSessions ((x :: rest).map (priceBar true)) sale
                = .settled i field price reason → c * t.factorOn true ≠ 0 := by
            intro i field price reason h
            rw [← hend] at h
            unfold closeAnswer at h
            rw [h] at hout
            exact (returnResult_of_settled _ _ _ _ _ _ _ _ _ hout).1
          have hbase' : ∀ i field price reason,
              saleOn symbol maxExitRollSessions ((x :: rest).map (priceBar true)) sale'
                = .settled i field price reason → c * x.factorOn true ≠ 0 := by
            intro i field price reason h
            rw [← hend'] at h
            unfold auctionAnswer at h
            rw [List.map_cons, ← htail] at h
            cases hw : endOf symbol maxExitRollSessions (rest.map (priceBar true))
                (heldAnswer key (heldContext symbol .auction (c * x.factorOn true))
                  (rest.map (priceBar true))) with
            | pending reason' =>
                rw [hw] at h
                simp [Walked.shift] at h
            | settled i' field' price' reason' =>
                rw [hw] at hout'
                exact (returnResult_of_settled _ _ _ _ _ _ _ _ _ hout').1
          rw [hend, hend', sameEnd_sales_iff symbol _ _ sale sale' _ _ hbase hbase']
          rw [base_eq_or_worthless_iff symbol maxExitRollSessions _ sale t x c (hfactor t (by simp))
            (hfactor x (by simp)) hbase]
          constructor
          · rintro ⟨hagree, hworth⟩
            exact ⟨sale, sale', rfl, rfl, hagree, hworth⟩
          · rintro ⟨_, _, hsale, hsale', hagree, hworth⟩
            rw [Option.some.injEq] at hsale hsale'
            rw [hsale, hsale']
            exact ⟨hagree, hworth⟩

def haltedBar (tradingDate : Date) : SettlementBar :=
  { tradedBar tradingDate 10 10 10 10 10 1 with isSuspended := true }

/-- A stock halted for two sessions after the pick is sold on the third by both slots. -/
theorem held_slots_agree_iff_halted :
    ∃ close auction,
      evaluatePick "600000.SH" .close
          [tradedBar 20000 10 10 10 10 10 1, haltedBar 20001, haltedBar 20002,
            tradedBar 20003 10 11 10 (21 / 2) 10 1] (some 10) [] = .ok close ∧
        evaluatePick "600000.SH" .auction
          [haltedBar 20001, haltedBar 20002, tradedBar 20003 10 11 10 (21 / 2) 10 1]
          (some 10) [] = .ok auction ∧
        SameHeld (close.entries .held .sellClose) (auction.entries .held .sellClose) := by
  obtain ⟨close, hclose, -⟩ := evaluatePick_of_map "600000.SH" .close
    [tradedBar 20000 10 10 10 10 10 1, haltedBar 20001, haltedBar 20002,
      tradedBar 20003 10 11 10 (21 / 2) 10 1] (some 10) []
    (fun r => (r.entries .held .sellClose).status) .settled (by decide +kernel)
  obtain ⟨auction, hauction, -⟩ := evaluatePick_of_map "600000.SH" .auction
    [haltedBar 20001, haltedBar 20002, tradedBar 20003 10 11 10 (21 / 2) 10 1] (some 10) []
    (fun r => (r.entries .held .sellClose).status) .settled (by decide +kernel)
  refine ⟨close, auction, hclose, hauction, (held_slots_agree_iff "600000.SH" _ _ _ 10 close
    auction .sellClose (by decide +kernel) rfl hclose hauction).mpr ?_⟩
  refine ⟨(0, .atClose), (1, .atClose), by decide +kernel, by decide +kernel, Or.inl ?_,
    Or.inl (by decide +kernel)⟩
  refine ⟨by decide, by decide +kernel, by decide +kernel, by decide +kernel, ?_,
    Or.inr (Or.inl ⟨2, by decide, by decide, by decide +kernel⟩)⟩
  intro m _ hm _
  -- both sessions before the third are halted
  have hcases : m = 0 ∨ m = 1 := by
    dsimp only at hm
    omega
  rcases hcases with rfl | rfl <;> decide +kernel

/-- A stock split two for one on X, sold at its first close: the close slot sells it on X for five
    percent, the auction slot a session later for minus forty-five. -/
theorem held_slots_differ_split :
    let x := tradedBar 20001 5 (11 / 2) 5 (21 / 4) 5 2
    let later := tradedBar 20002 (21 / 4) (11 / 2) (21 / 4) (11 / 2) (21 / 4) 2
    let read := fun r : PickEvaluation =>
      ((r.entries .held .sellClose).rawReturn, (r.entries .held .sellClose).exitIndex)
    (evaluatePick "600000.SH" .close [tradedBar 20000 10 10 10 10 10 1, x, later] (some 10)
        []).map read = .ok (some (1 / 20), some 1) ∧
      (evaluatePick "600000.SH" .auction [x, later] (some 10) []).map read
        = .ok (some (-(9 / 20)), some 1) := by
  decide +kernel

end TradingHarness
