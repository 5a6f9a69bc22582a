import TradingHarness.Settlement.Bars

set_option autoImplicit false

/-! # Walking a sell rule over a price window

`walk_exit` asks a sell rule, session by session, whether and where it sells. A target or a stop is
filled at its own price on the session that reaches it. A sale at the open or at the close is made
at the first price that is not blocked: the field the rule named, the same session's close if that
field was the open, then the following closes, up to a bound.

A rule of the source is a closure with `nonlocal` variables; here it is a `SellRule`, its memory
made explicit. The walk splits into the rule's first answer (`firstAnswer`) and the sale that this
answer leads to (`carryOut`), which is how every result about it is proved. -/

namespace TradingHarness

/-- How far a blocked exit may roll before it is valued at the last blocked close. -/
def maxExitRollSessions : ℕ := 10

/-- The field an exit was priced at. -/
inductive ExitField
  | atOpen
  | atClose
  | target
  | stop
  deriving DecidableEq

def SaleField.toExitField : SaleField → ExitField
  | .atOpen => .atOpen
  | .atClose => .atClose

/-- What a sell rule says when it sells: at a price field, or at a resting order's own price. -/
inductive ExitDecision
  | sell (field : SaleField)
  | target (price : ℚ)
  | stop (price : ℚ)

/-- A sell rule: its memory before the first session, and its answer on each session. -/
structure SellRule where
  {State : Type}
  start : State
  answer : State → ℕ → PricedBar → Option ExitDecision × State

/-- The result of `walk_exit`. -/
inductive Walked
  | pending (reason : Reason)
  | settled (exitIndex : ℕ) (field : ExitField) (price : ℚ) (reason : Reason)
  deriving DecidableEq

/-- Whether a sale at `field` is unavailable to a thesis of this direction. A short exit is
    checked at its close, whatever the field. -/
def offerBlocked (symbol : String) (direction : Direction) (bar : PricedBar) (field : SaleField) :
    Bool :=
  match direction with
  | .long => saleBlocked symbol bar.toSettlementBar field
  | .short => exitBlocked bar.toSettlementBar .short symbol

/-- The last session a sale may roll to is blocked too: it is valued at its close. -/
def valueAtClose (index : ℕ) (bar : PricedBar) : Walked :=
  match bar.close with
  | none => .pending .exitBlockedWithoutPrice
  | some price => .settled index .atClose price .exitBlockedValuedAtClose

/-- The roll loop after its first turn: later sessions are tried at their close. `left` counts the
    turns that remain after this one. -/
def rollPast (symbol : String) (direction : Direction) :
    (left index : ℕ) → List PricedBar → Walked
  | _, _, [] => .pending .notResolved
  | left, index, bar :: rest =>
    if offerBlocked symbol direction bar .atClose = false then
      .settled index .atClose (bar.close.getD 0) .exitRolledPastBlockedSession
    else
      match left with
      | 0 => valueAtClose index bar
      | left + 1 => rollPast symbol direction left (index + 1) rest

variable (symbol : String) (direction : Direction) (maxRoll : ℕ) (rule : SellRule) (state : rule.State)
  (index : ℕ) (bar : PricedBar) (rest : List PricedBar)

theorem rollPast_cons (left index : ℕ)
    (bar : PricedBar) (rest : List PricedBar) :
    rollPast symbol direction left index (bar :: rest)
      = if offerBlocked symbol direction bar .atClose = false then
          .settled index .atClose (bar.close.getD 0) .exitRolledPastBlockedSession
        else
          match left with
          | 0 => valueAtClose index bar
          | left + 1 => rollPast symbol direction left (index + 1) rest := by
  cases left <;> rfl

/-- The roll loop of a sale asked at `field` on the first bar of the list, session `index`. -/
def sellAt (symbol : String) (direction : Direction) (maxRoll : ℕ) (field : SaleField)
    (index : ℕ) : List PricedBar → Walked
  | [] => .pending .notResolved
  | bar :: rest =>
    if offerBlocked symbol direction bar field = false then
      .settled index field.toExitField ((bar.priceAt field).getD 0) .rule
    else if field = .atOpen ∧ offerBlocked symbol direction bar .atClose = false then
      .settled index .atClose (bar.close.getD 0) .openBlockedCloseFallback
    else
      match maxRoll with
      | 0 => valueAtClose index bar
      | left + 1 => rollPast symbol direction left (index + 1) rest

theorem sellAt_cons (field : SaleField)
    (index : ℕ) (bar : PricedBar) (rest : List PricedBar) :
    sellAt symbol direction maxRoll field index (bar :: rest)
      = if offerBlocked symbol direction bar field = false then
          .settled index field.toExitField ((bar.priceAt field).getD 0) .rule
        else if field = .atOpen ∧ offerBlocked symbol direction bar .atClose = false then
          .settled index .atClose (bar.close.getD 0) .openBlockedCloseFallback
        else
          match maxRoll with
          | 0 => valueAtClose index bar
          | left + 1 => rollPast symbol direction left (index + 1) rest := rfl

/-- What an answer given on the first bar of the list, session `index`, leads to. -/
def carryOut (symbol : String) (direction : Direction) (maxRoll : ℕ) (index : ℕ)
    (bars : List PricedBar) : ExitDecision → Walked
  | .sell field => sellAt symbol direction maxRoll field index bars
  | .target price => .settled index .target price .rule
  | .stop price => .settled index .stop price .rule

/-- The loop of `walk_exit` from session `index` on. -/
def walkFrom (symbol : String) (direction : Direction) (maxRoll : ℕ) (rule : SellRule) :
    rule.State → ℕ → List PricedBar → Walked
  | _, _, [] => .pending .notResolved
  | state, index, bar :: rest =>
    match rule.answer state index bar with
    | (none, state') => walkFrom symbol direction maxRoll rule state' (index + 1) rest
    | (some decision, _) => carryOut symbol direction maxRoll index (bar :: rest) decision

theorem walkFrom_cons :
    walkFrom symbol direction maxRoll rule state index (bar :: rest)
      = match rule.answer state index bar with
        | (none, state') => walkFrom symbol direction maxRoll rule state' (index + 1) rest
        | (some decision, _) =>
            carryOut symbol direction maxRoll index (bar :: rest) decision := rfl

/-- Apply a sell rule and roll a blocked sale through later close prices. -/
def walkExit (window : PriceWindow) (symbol : String) (rule : SellRule)
    (maxRoll : ℕ := maxExitRollSessions) (direction : Direction := .long) : Walked :=
  walkFrom symbol direction maxRoll rule rule.start 0 window.bars

/-! ## The rule's first answer -/

/-- The first session on which the rule answers, and its answer. -/
def firstAnswer (rule : SellRule) : rule.State → ℕ → List PricedBar → Option (ℕ × ExitDecision)
  | _, _, [] => none
  | state, index, bar :: rest =>
    match rule.answer state index bar with
    | (none, state') => firstAnswer rule state' (index + 1) rest
    | (some decision, _) => some (index, decision)

theorem firstAnswer_cons :
    firstAnswer rule state index (bar :: rest)
      = match rule.answer state index bar with
        | (none, state') => firstAnswer rule state' (index + 1) rest
        | (some decision, _) => some (index, decision) := rfl

variable (sale : SaleField) (bars : List PricedBar) (i : ℕ) (field : ExitField) (price : ℚ) (reason : Reason)

theorem firstAnswer_bounds (decision : ExitDecision)
    (h : firstAnswer rule state index bars = some (i, decision)) :
    index ≤ i ∧ i < index + bars.length := by
  induction bars generalizing state index with
  | nil => simp [firstAnswer] at h
  | cons bar rest ih =>
      rw [firstAnswer_cons] at h
      rcases ha : rule.answer state index bar with ⟨_ | d, state'⟩
      · rw [ha] at h
        obtain ⟨hlo, hhi⟩ := ih state' (index + 1) h
        rw [List.length_cons]
        omega
      · rw [ha] at h
        simp only [Option.some.injEq, Prod.mk.injEq] at h
        rw [List.length_cons]
        omega

theorem firstAnswer_append (later : List PricedBar) (a : ℕ × ExitDecision)
    (h : firstAnswer rule state index bars = some a) :
    firstAnswer rule state index (bars ++ later) = some a := by
  induction bars generalizing state index with
  | nil => simp [firstAnswer] at h
  | cons bar rest ih =>
      rw [firstAnswer_cons] at h
      rw [List.cons_append, firstAnswer_cons]
      rcases ha : rule.answer state index bar with ⟨_ | d, state'⟩
      · rw [ha] at h
        exact ih state' (index + 1) h
      · rw [ha] at h
        exact h

theorem walkFrom_eq_firstAnswer :
    walkFrom symbol direction maxRoll rule state index bars
      = match firstAnswer rule state index bars with
        | none => .pending .notResolved
        | some (i, decision) =>
          carryOut symbol direction maxRoll i (bars.drop (i - index)) decision := by
  induction bars generalizing state index with
  | nil => rfl
  | cons bar rest ih =>
      rw [walkFrom_cons, firstAnswer_cons]
      rcases ha : rule.answer state index bar with ⟨_ | decision, state'⟩
      · simp only [ih]
        rcases hf : firstAnswer rule state' (index + 1) rest with _ | ⟨i, decision⟩
        · rfl
        · have hi := (firstAnswer_bounds rule state' (index + 1) rest i decision hf).1
          have hdrop : i - index = (i - (index + 1)) + 1 := by omega
          simp only [hdrop, List.drop_succ_cons]
      · simp

/-! ## What a settled sale tells about its bar -/

/-- A price that is not blocked to a long sale: it stands, the session trades, the price is
    positive and above the down-limit band. -/
theorem saleBlocked_eq_false (bar : SettlementBar) (field : SaleField)
    (h : saleBlocked symbol bar field = false) :
    ∃ price, bar.priceAt field = some price ∧ bar.isSuspended = false ∧ 0 < price ∧
      atDownLimit symbol bar price = false := by
  unfold saleBlocked at h
  cases hp : bar.priceAt field with
  | none => simp [hp] at h
  | some price =>
      simp only [hp, Bool.or_eq_false_iff, decide_eq_false_iff_not, not_le] at h
      exact ⟨price, rfl, h.1.1, h.1.2, h.2⟩

/-- A long sale at an open or close of `bar`, made at a price that is not blocked. -/
def SoldAt (symbol : String) (bar : PricedBar) (field : ExitField) (price : ℚ) : Prop :=
  ∃ sale : SaleField, field = sale.toExitField ∧ bar.priceAt sale = some price ∧
    saleBlocked symbol bar.toSettlementBar sale = false

theorem soldAt_of_unblocked (h : saleBlocked symbol bar.toSettlementBar sale = false) :
    SoldAt symbol bar sale.toExitField ((bar.priceAt sale).getD 0) := by
  obtain ⟨price, hprice, -⟩ := saleBlocked_eq_false symbol bar.toSettlementBar sale h
  exact ⟨sale, rfl, by rw [hprice]; rfl, h⟩

/-- What the settled exits of a roll from session `index` satisfy: the exit bar lies inside the
    bound, and unless the exit is only valued, the bar was sold at an unblocked price. -/
def RollSettles (symbol : String) (maxRoll index : ℕ) (bars : List PricedBar)
    (exitIndex : ℕ) (field : ExitField) (price : ℚ) (reason : Reason) : Prop :=
  index ≤ exitIndex ∧ exitIndex ≤ index + maxRoll ∧
    ∃ bar, bars[exitIndex - index]? = some bar ∧
      ((reason = .exitBlockedValuedAtClose ∧ field = .atClose ∧ bar.close = some price) ∨
        (reason ≠ .exitBlockedValuedAtClose ∧ SoldAt symbol bar field price))

section

variable (h : valueAtClose index bar = .settled i field price reason)

include h

theorem valueAtClose_settled :
    RollSettles symbol maxRoll index (bar :: rest) i field price reason := by
  unfold valueAtClose at h
  cases hc : bar.close with
  | none => simp [hc] at h
  | some c =>
      simp only [hc, Walked.settled.injEq] at h
      obtain ⟨rfl, rfl, rfl, rfl⟩ := h
      exact ⟨le_refl _, Nat.le_add_right _ _, bar, by simp, Or.inl ⟨rfl, rfl, hc⟩⟩

theorem valueAtClose_field :
    field = .atClose := by
  unfold valueAtClose at h
  split at h
  · simp at h
  · simp only [Walked.settled.injEq] at h
    exact h.2.1.symm

end

theorem RollSettles.step {symbol : String} {left index : ℕ} {bar : PricedBar}
    {rest : List PricedBar} {i : ℕ} {field : ExitField} {price : ℚ} {reason : Reason}
    (h : RollSettles symbol left (index + 1) rest i field price reason) :
    RollSettles symbol (left + 1) index (bar :: rest) i field price reason := by
  obtain ⟨hlo, hhi, exitBar, hget, hsold⟩ := h
  refine ⟨by omega, by omega, exitBar, ?_, hsold⟩
  have hshift : i - index = (i - (index + 1)) + 1 := by omega
  rw [hshift, List.getElem?_cons_succ]
  exact hget

theorem rollPast_settled (left index : ℕ) (bars : List PricedBar) (i : ℕ)
    (field : ExitField) (price : ℚ) (reason : Reason)
    (h : rollPast symbol .long left index bars = .settled i field price reason) :
    RollSettles symbol left index bars i field price reason := by
  induction bars generalizing left index with
  | nil => simp [rollPast] at h
  | cons bar rest ih =>
      unfold rollPast at h
      by_cases hb : offerBlocked symbol .long bar .atClose = false
      · simp only [if_pos hb, Walked.settled.injEq] at h
        obtain ⟨rfl, rfl, rfl, rfl⟩ := h
        exact ⟨le_refl _, Nat.le_add_right _ _, bar, by simp,
          Or.inr ⟨by decide, soldAt_of_unblocked symbol bar .atClose hb⟩⟩
      · rw [if_neg hb] at h
        cases left with
        | zero => exact valueAtClose_settled symbol 0 index bar rest i field price reason h
        | succ left => exact (ih left (index + 1) h).step

theorem sellAt_settled (h : sellAt symbol .long maxRoll sale index bars = .settled i field price reason) :
    RollSettles symbol maxRoll index bars i field price reason := by
  cases bars with
  | nil => simp [sellAt] at h
  | cons bar rest =>
      rw [sellAt_cons] at h
      by_cases hb : offerBlocked symbol .long bar sale = false
      · simp only [if_pos hb, Walked.settled.injEq] at h
        obtain ⟨rfl, rfl, rfl, rfl⟩ := h
        exact ⟨le_refl _, Nat.le_add_right _ _, bar, by simp,
          Or.inr ⟨by decide, soldAt_of_unblocked symbol bar sale hb⟩⟩
      · rw [if_neg hb] at h
        by_cases hc : sale = .atOpen ∧ offerBlocked symbol .long bar .atClose = false
        · simp only [if_pos hc, Walked.settled.injEq] at h
          obtain ⟨rfl, rfl, rfl, rfl⟩ := h
          exact ⟨le_refl _, Nat.le_add_right _ _, bar, by simp,
            Or.inr ⟨by decide, soldAt_of_unblocked symbol bar .atClose hc.2⟩⟩
        · rw [if_neg hc] at h
          cases maxRoll with
          | zero => exact valueAtClose_settled symbol 0 index bar rest i field price reason h
          | succ left =>
              exact (rollPast_settled symbol left (index + 1) rest i field price reason h).step

theorem rollPast_field (left index : ℕ)
    (bars : List PricedBar) (i : ℕ) (field : ExitField) (price : ℚ) (reason : Reason)
    (h : rollPast symbol direction left index bars = .settled i field price reason) :
    field = .atClose := by
  induction bars generalizing left index with
  | nil => simp [rollPast] at h
  | cons bar rest ih =>
      unfold rollPast at h
      split at h
      · simp only [Walked.settled.injEq] at h
        exact h.2.1.symm
      · cases left with
        | zero => exact valueAtClose_field index bar i field price reason h
        | succ left => exact ih left (index + 1) h

theorem sellAt_blocked_field (index : ℕ) (bar : PricedBar) (rest : List PricedBar) (i : ℕ)
    (field : ExitField) (price : ℚ) (reason : Reason)
    (hblocked : offerBlocked symbol direction bar sale = true)
    (h : sellAt symbol direction maxRoll sale index (bar :: rest)
      = .settled i field price reason) : field = .atClose := by
  rw [sellAt_cons, if_neg (by simp [hblocked])] at h
  split at h
  · simp only [Walked.settled.injEq] at h
    exact h.2.1.symm
  · cases maxRoll with
    | zero => exact valueAtClose_field index bar i field price reason h
    | succ left =>
        exact rollPast_field symbol direction left (index + 1) rest i field price reason h

/-! ## A settled walk does not look ahead -/

/-- The sale is decided: made, or valued, or given up for want of a price. -/
def Walked.decided : Walked → Bool
  | .pending .notResolved => false
  | _ => true

theorem rollPast_append (left index : ℕ)
    (bars later : List PricedBar)
    (h : (rollPast symbol direction left index bars).decided = true) :
    rollPast symbol direction left index (bars ++ later)
      = rollPast symbol direction left index bars := by
  induction bars generalizing left index with
  | nil => simp [rollPast, Walked.decided] at h
  | cons bar rest ih =>
      rw [List.cons_append]
      unfold rollPast at h ⊢
      by_cases hb : offerBlocked symbol direction bar .atClose = false
      · rw [if_pos hb, if_pos hb]
      · rw [if_neg hb] at h ⊢
        rw [if_neg hb]
        cases left with
        | zero => rfl
        | succ left => exact ih left (index + 1) h

theorem sellAt_append (index : ℕ) (bars later : List PricedBar)
    (h : (sellAt symbol direction maxRoll sale index bars).decided = true) :
    sellAt symbol direction maxRoll sale index (bars ++ later)
      = sellAt symbol direction maxRoll sale index bars := by
  cases bars with
  | nil => simp [sellAt, Walked.decided] at h
  | cons bar rest =>
      rw [List.cons_append]
      rw [sellAt_cons] at h ⊢
      rw [sellAt_cons]
      by_cases hb : offerBlocked symbol direction bar sale = false
      · rw [if_pos hb, if_pos hb]
      · rw [if_neg hb] at h ⊢
        rw [if_neg hb]
        by_cases hc : sale = .atOpen ∧ offerBlocked symbol direction bar .atClose = false
        · rw [if_pos hc, if_pos hc]
        · rw [if_neg hc] at h ⊢
          rw [if_neg hc]
          cases maxRoll with
          | zero => rfl
          | succ left => exact rollPast_append symbol direction left (index + 1) rest later h

/-- **No look-ahead of the walk.** Once a walk is decided, bars appended to the path change
    nothing, for every rule, direction and roll bound. -/
theorem walkFrom_append (later : List PricedBar)
    (h : (walkFrom symbol direction maxRoll rule state index bars).decided = true) :
    walkFrom symbol direction maxRoll rule state index (bars ++ later)
      = walkFrom symbol direction maxRoll rule state index bars := by
  rw [walkFrom_eq_firstAnswer] at h
  rw [walkFrom_eq_firstAnswer, walkFrom_eq_firstAnswer]
  rcases hf : firstAnswer rule state index bars with _ | ⟨i, decision⟩
  · simp [hf, Walked.decided] at h
  · rw [firstAnswer_append rule state index bars later _ hf]
    simp only [hf] at h
    obtain ⟨hlo, hhi⟩ := firstAnswer_bounds rule state index bars i decision hf
    have hdrop : (bars ++ later).drop (i - index) = bars.drop (i - index) ++ later :=
      List.drop_append_of_le_length (by omega)
    simp only [hdrop]
    cases decision with
    | sell sale => exact sellAt_append symbol direction maxRoll sale i _ later h
    | target price => rfl
    | stop price => rfl

end TradingHarness
