import TradingHarness.Settlement.Walk

set_option autoImplicit false

/-! # The prices a sale is tried at

The roll loop of `walk_exit` as one search: the prices in the order they are tried, and the first of them that is not blocked. -/

namespace TradingHarness

/-! ## Offers -/

/-- A price a sale is tried at. -/
structure Offer where
  index : ℕ
  bar : PricedBar
  field : SaleField

def Offer.blocked (symbol : String) (direction : Direction) (offer : Offer) : Bool := offerBlocked symbol direction offer.bar offer.field

/-- The closes of the next `left` sessions. -/
def laterOffers : (left index : ℕ) → List PricedBar → List Offer
  | 0, _, _ => []
  | _ + 1, _, [] => []
  | left + 1, index, bar :: rest => ⟨index, bar, .atClose⟩ :: laterOffers left (index + 1) rest

variable (index : ℕ) (field : SaleField) (offer : Offer)

/-- The field asked for, the same session's close if that was the open, and the closes of the next `maxRoll` sessions. -/
def offers (index maxRoll : ℕ) : List PricedBar → List Offer
  | [] => []
  | bar :: rest =>
      ⟨index, bar, field⟩ :: ((if field = .atOpen then [⟨index, bar, .atClose⟩] else []) ++ laterOffers maxRoll (index + 1) rest)

/-- The reason of a sale at an offer. -/
def Offer.reason : Reason :=
  if offer.index = index then
    if offer.field = field then .rule else .openBlockedCloseFallback
  else .exitRolledPastBlockedSession

def Offer.sale : Walked :=
  .settled offer.index offer.field.toExitField ((offer.bar.priceAt offer.field).getD 0) (offer.reason index field)

/-- The session at the bound, with every offer blocked. -/
def valueAt : Option PricedBar → Walked
  | none => .pending .notResolved
  | some bar => valueAtClose index bar

variable {index : ℕ} {offer : Offer}

theorem mem_laterOffers {left : ℕ} {bars : List PricedBar} (h : offer ∈ laterOffers left index bars) :
    index ≤ offer.index ∧ offer.field = .atClose := by
  induction bars generalizing left index with
  | nil => cases left <;> simp [laterOffers] at h
  | cons bar rest ih =>
      cases left with
      | zero => simp [laterOffers] at h
      | succ left =>
          rcases List.mem_cons.mp h with rfl | hlater
          · exact ⟨le_refl _, rfl⟩
          · have hstep := ih hlater
            exact ⟨by omega, hstep.2⟩

/-! ## The roll as a search -/

section Search

variable (symbol : String) (direction : Direction)

def firstFree (tried : List Offer) : Option Offer := tried.find? (fun offer => !offer.blocked symbol direction)

variable {symbol direction}

theorem firstFree_cons_free (h : offer.blocked symbol direction = false) (tried : List Offer) :
    firstFree symbol direction (offer :: tried) = some offer := by
  rw [firstFree, List.find?_cons, h]
  rfl

theorem firstFree_cons_blocked (h : offer.blocked symbol direction = true) (tried : List Offer) :
    firstFree symbol direction (offer :: tried) = firstFree symbol direction tried := by
  rw [firstFree, List.find?_cons, h]
  rfl

theorem firstFree_eq_none_iff {tried : List Offer} :
    firstFree symbol direction tried = none ↔ ∀ offer ∈ tried, offer.blocked symbol direction = true := by
  simp [firstFree]

theorem firstFree_append {before after : List Offer} (hbefore : ∀ earlier ∈ before, earlier.blocked symbol direction = true)
    (hfree : offer.blocked symbol direction = false) : firstFree symbol direction (before ++ offer :: after) = some offer := by
  induction before with
  | nil => exact firstFree_cons_free hfree after
  | cons earlier rest ih =>
      rw [List.cons_append, firstFree_cons_blocked (hbefore earlier List.mem_cons_self)]
      exact ih fun other hother => hbefore other (List.mem_cons_of_mem earlier hother)

theorem rollPast_eq_find (left index : ℕ) (bars : List PricedBar) :
    rollPast symbol direction left index bars =
      (firstFree symbol direction (laterOffers (left + 1) index bars)).elim (valueAt (index + left) bars[left]?)
        (fun offer => .settled offer.index .atClose ((offer.bar.priceAt .atClose).getD 0) .exitRolledPastBlockedSession) := by
  induction bars generalizing left index with
  | nil => cases left <;> rfl
  | cons bar rest ih =>
      rw [rollPast_cons, laterOffers]
      by_cases hfree : offerBlocked symbol direction bar .atClose = false
      · rw [if_pos hfree, firstFree_cons_free (show Offer.blocked symbol direction ⟨index, bar, .atClose⟩ = false from hfree)]
        rfl
      · rw [if_neg hfree, firstFree_cons_blocked (show Offer.blocked symbol direction ⟨index, bar, .atClose⟩ = true from eq_true_of_ne_false hfree)]
        cases left with
        | zero => rfl
        | succ left =>
            dsimp only
            rw [ih left (index + 1), List.getElem?_cons_succ, show index + 1 + left = index + (left + 1) by omega]

theorem Offer.sale_later {field : SaleField} (hlater : index < offer.index) (hclose : offer.field = .atClose) :
    offer.sale index field = .settled offer.index .atClose ((offer.bar.priceAt .atClose).getD 0) .exitRolledPastBlockedSession := by
  rw [Offer.sale, Offer.reason, if_neg (by omega), hclose]
  rfl

theorem sellAt_eq_find (maxRoll : ℕ) (field : SaleField) (index : ℕ) (bars : List PricedBar) :
    sellAt symbol direction maxRoll field index bars =
      (firstFree symbol direction (offers field index maxRoll bars)).elim (valueAt (index + maxRoll) bars[maxRoll]?)
        (fun offer => offer.sale index field) := by
  cases bars with
  | nil => rfl
  | cons bar rest =>
      -- the roll past the session asked for
      have hroll : ∀ sale, (maxRoll = 0 → sale = valueAtClose index bar) →
          (∀ left, maxRoll = left + 1 → sale = rollPast symbol direction left (index + 1) rest) →
          sale = (firstFree symbol direction (laterOffers maxRoll (index + 1) rest)).elim
            (valueAt (index + maxRoll) (bar :: rest)[maxRoll]?) (fun offer => offer.sale index field) := by
        intro sale hzero hsucc
        cases maxRoll with
        | zero => exact hzero rfl
        | succ left =>
            rw [hsucc left rfl, rollPast_eq_find, List.getElem?_cons_succ, show index + 1 + left = index + (left + 1) by omega]
            rcases hfirst : firstFree symbol direction (laterOffers (left + 1) (index + 1) rest) with _ | offer
            · rfl
            · obtain ⟨hlater, hclose⟩ := mem_laterOffers (List.mem_of_find?_eq_some hfirst)
              exact (Offer.sale_later hlater hclose).symm
      rw [sellAt_cons, offers]
      by_cases hfree : offerBlocked symbol direction bar field = false
      · rw [if_pos hfree, firstFree_cons_free (show Offer.blocked symbol direction ⟨index, bar, field⟩ = false from hfree)]
        simp [Offer.sale, Offer.reason]
      · rw [if_neg hfree, firstFree_cons_blocked (show Offer.blocked symbol direction ⟨index, bar, field⟩ = true from eq_true_of_ne_false hfree)]
        by_cases hopen : field = .atOpen
        · rw [if_pos hopen, List.singleton_append]
          by_cases hclose : offerBlocked symbol direction bar .atClose = false
          · rw [if_pos ⟨hopen, hclose⟩, firstFree_cons_free (show Offer.blocked symbol direction ⟨index, bar, .atClose⟩ = false from hclose)]
            simp [Offer.sale, Offer.reason, hopen, SaleField.toExitField, SettlementBar.priceAt]
          · rw [if_neg (fun hboth => hclose hboth.2),
              firstFree_cons_blocked (show Offer.blocked symbol direction ⟨index, bar, .atClose⟩ = true from eq_true_of_ne_false hclose)]
            exact hroll _ (by rintro rfl; rfl) (by rintro left rfl; rfl)
        · rw [if_neg hopen, if_neg (fun hboth => hopen hboth.1), List.nil_append]
          exact hroll _ (by rintro rfl; rfl) (by rintro left rfl; rfl)

/-! ## The walk -/

/-- The rule first asks for a sale at a field. -/
def Asks (window : PriceWindow) (rule : SellRule) (index : ℕ) (field : SaleField) : Prop :=
  firstAnswer rule rule.start 0 window.bars = some (index, .sell field)

/-- The prices that a window has for a sale asked for on a session, in the order they are tried. -/
def PriceWindow.offers (window : PriceWindow) (field : SaleField) (index maxRoll : ℕ) : List Offer :=
  TradingHarness.offers field index maxRoll (window.bars.drop index)

theorem walkExit_of_asks {window : PriceWindow} {rule : SellRule} {field : SaleField} (h : Asks window rule index field)
    (maxRoll : ℕ) :
    walkExit window symbol rule maxRoll direction =
      (firstFree symbol direction (window.offers field index maxRoll)).elim (valueAt (index + maxRoll) window.bars[index + maxRoll]?)
        (fun offer => offer.sale index field) := by
  unfold walkExit
  rw [walkFrom_eq_firstAnswer, show firstAnswer rule rule.start 0 window.bars = some (index, .sell field) from h]
  dsimp only [carryOut]
  rw [Nat.sub_zero, sellAt_eq_find, List.getElem?_drop]
  rfl

theorem walkExit_no_answer {window : PriceWindow} {rule : SellRule} (h : firstAnswer rule rule.start 0 window.bars = none) (maxRoll : ℕ) :
    walkExit window symbol rule maxRoll direction = .pending .notResolved := by
  unfold walkExit
  rw [walkFrom_eq_firstAnswer, h]

theorem walkExit_fixed {window : PriceWindow} {rule : SellRule} {decision : ExitDecision}
    (h : firstAnswer rule rule.start 0 window.bars = some (index, decision)) (hfixed : ∀ field, decision ≠ .sell field) (maxRoll : ℕ) :
    ∃ field price, walkExit window symbol rule maxRoll direction = .settled index field price .rule := by
  unfold walkExit
  rw [walkFrom_eq_firstAnswer, h]
  cases decision with
  | sell field => exact absurd rfl (hfixed field)
  | target price => exact ⟨.target, price, rfl⟩
  | stop price => exact ⟨.stop, price, rfl⟩

theorem Offer.price_of_free (h : offer.blocked symbol .long = false) : ∃ price, offer.bar.priceAt offer.field = some price := by
  obtain ⟨price, hprice, -⟩ := saleBlocked_eq_false symbol offer.bar.toSettlementBar offer.field h
  exact ⟨price, hprice⟩

theorem Offer.reason_ne_valued (index : ℕ) (field : SaleField) (offer : Offer) : offer.reason index field ≠ .exitBlockedValuedAtClose := by
  unfold Offer.reason
  split
  · split <;> decide
  · decide

theorem valueAt_eq_settled_iff {exitIndex : ℕ} {bar? : Option PricedBar} {field : ExitField} {price : ℚ} {reason : Reason} :
    valueAt index bar? = .settled exitIndex field price reason ↔
      reason = .exitBlockedValuedAtClose ∧ exitIndex = index ∧ field = .atClose ∧ ∃ bar, bar? = some bar ∧ bar.close = some price := by
  rcases bar? with _ | bar
  · simp [valueAt]
  · rcases hclose : bar.close with _ | close
    · simp [valueAt, valueAtClose, hclose]
    · simp [valueAt, valueAtClose, hclose]
      constructor
      · rintro ⟨rfl, rfl, rfl, rfl⟩
        simp
      · rintro ⟨rfl, rfl, rfl, rfl⟩
        simp

theorem valueAt_eq_pending_iff {bar? : Option PricedBar} :
    (∃ reason, valueAt index bar? = .pending reason) ↔ ∀ bar, bar? = some bar → bar.close = none := by
  rcases bar? with _ | bar
  · simp [valueAt]
  · rcases hclose : bar.close with _ | close <;> simp [valueAt, valueAtClose, hclose]

theorem Asks.bar {window : PriceWindow} {rule : SellRule} {field : SaleField} (h : Asks window rule index field) :
    ∃ bar rest, window.bars.drop index = bar :: rest ∧ window.bars[index]? = some bar := by
  have hlt := (firstAnswer_bounds rule rule.start 0 window.bars index (.sell field) h).2
  rw [Nat.zero_add] at hlt
  exact ⟨window.bars[index], window.bars.drop (index + 1), List.drop_eq_getElem_cons hlt, List.getElem?_eq_getElem hlt⟩

theorem reason_rule_of_mem {field : SaleField} {maxRoll : ℕ} {bar : PricedBar} {rest : List PricedBar}
    (hmem : offer ∈ offers field index maxRoll (bar :: rest)) (hreason : offer.reason index field = .rule) : offer = ⟨index, bar, field⟩ := by
  rw [offers, List.mem_cons, List.mem_append] at hmem
  rcases hmem with rfl | hfallback | hlater
  · rfl
  · by_cases hopen : field = .atOpen
    · rw [if_pos hopen, List.mem_singleton] at hfallback
      exact absurd hreason (by simp [hfallback, Offer.reason, hopen])
    · rw [if_neg hopen] at hfallback
      exact absurd hfallback List.not_mem_nil
  · rw [Offer.reason, if_neg (by have := (mem_laterOffers hlater).1; omega)] at hreason
    exact absurd hreason (by decide)

/-- **A blocked sale rolls through its offers.** -/
theorem sale_takes_first_free (window : PriceWindow) (symbol : String) (rule : SellRule) (maxRoll : ℕ) (direction : Direction) :
    (∀ index field before offer after price, Asks window rule index field →
      window.offers field index maxRoll = before ++ offer :: after → (∀ earlier ∈ before, earlier.blocked symbol direction = true) →
      offer.blocked symbol direction = false → offer.bar.priceAt offer.field = some price →
        walkExit window symbol rule maxRoll direction = .settled offer.index offer.field.toExitField price (offer.reason index field)) ∧
    (∀ index field exitIndex exitField price, Asks window rule index field →
      (walkExit window symbol rule maxRoll direction = .settled exitIndex exitField price .exitBlockedValuedAtClose ↔
        (∀ offer ∈ window.offers field index maxRoll, offer.blocked symbol direction = true) ∧ exitIndex = index + maxRoll ∧
          exitField = .atClose ∧ ∃ bar, window.bars[index + maxRoll]? = some bar ∧ bar.close = some price)) ∧
    ((∃ reason, walkExit window symbol rule maxRoll direction = .pending reason) ↔
      firstAnswer rule rule.start 0 window.bars = none ∨
        ∃ index field, Asks window rule index field ∧
          (∀ offer ∈ window.offers field index maxRoll, offer.blocked symbol direction = true) ∧
          ∀ bar, window.bars[index + maxRoll]? = some bar → bar.close = none) ∧
    (∀ index field, Asks window rule index field →
      ((∃ exitIndex exitField price, walkExit window symbol rule maxRoll direction = .settled exitIndex exitField price .rule) ↔
        ∃ bar, window.bars[index]? = some bar ∧ offerBlocked symbol direction bar field = false)) ∧
    (direction = .long → ∀ offer : Offer, offer.blocked symbol direction = false → ∃ price, offer.bar.priceAt offer.field = some price) := by
  refine ⟨?_, ?_, ?_, ?_, ?_⟩
  · intro index field before offer after price hasks hoffers hbefore hfree hprice
    rw [walkExit_of_asks hasks, hoffers, firstFree_append hbefore hfree, Option.elim_some, Offer.sale, hprice, Option.getD_some]
  · intro index field exitIndex exitField price hasks
    rw [walkExit_of_asks hasks, ← firstFree_eq_none_iff]
    rcases hfirst : firstFree symbol direction (window.offers field index maxRoll) with _ | offer
    · rw [Option.elim_none, valueAt_eq_settled_iff]
      simp
    · rw [Option.elim_some, Offer.sale]
      simp [Offer.reason_ne_valued]
  · constructor
    · rintro ⟨reason, hpending⟩
      rcases hfirst : firstAnswer rule rule.start 0 window.bars with _ | ⟨index, decision⟩
      · exact .inl rfl
      · by_cases hsells : ∃ field, decision = .sell field
        · obtain ⟨field, rfl⟩ := hsells
          have hasks : Asks window rule index field := hfirst
          rw [walkExit_of_asks hasks] at hpending
          rcases hfree : firstFree symbol direction (window.offers field index maxRoll) with _ | offer
          · rw [hfree, Option.elim_none] at hpending
            exact .inr ⟨index, field, hasks, firstFree_eq_none_iff.mp hfree, valueAt_eq_pending_iff.mp ⟨reason, hpending⟩⟩
          · rw [hfree, Option.elim_some] at hpending
            exact absurd hpending (by simp [Offer.sale])
        · obtain ⟨field, price, hsettled⟩ := walkExit_fixed hfirst (fun field hsell => hsells ⟨field, hsell⟩) maxRoll
          exact absurd (hsettled.symm.trans hpending) (by simp)
    · rintro (hnone | ⟨index, field, hasks, hblocked, hclose⟩)
      · exact ⟨.notResolved, walkExit_no_answer hnone maxRoll⟩
      · rw [walkExit_of_asks hasks, firstFree_eq_none_iff.mpr hblocked, Option.elim_none]
        exact valueAt_eq_pending_iff.mpr hclose
  · intro index field hasks
    obtain ⟨bar, rest, hdrop, hbar⟩ := hasks.bar
    have hoffers : window.offers field index maxRoll = offers field index maxRoll (bar :: rest) := by rw [PriceWindow.offers, hdrop]
    rw [walkExit_of_asks hasks, hoffers]
    constructor
    · rintro ⟨exitIndex, exitField, price, hsettled⟩
      rcases hfirst : firstFree symbol direction (offers field index maxRoll (bar :: rest)) with _ | offer
      · rw [hfirst, Option.elim_none, valueAt_eq_settled_iff] at hsettled
        exact absurd hsettled.1 (by decide)
      · rw [hfirst, Option.elim_some, Offer.sale, Walked.settled.injEq] at hsettled
        have hmem := List.mem_of_find?_eq_some hfirst
        have hfree := List.find?_some hfirst
        rw [reason_rule_of_mem hmem hsettled.2.2.2] at hfree
        exact ⟨bar, hbar, by simpa [Offer.blocked] using hfree⟩
    · rintro ⟨other, hother, hfree⟩
      obtain rfl : bar = other := Option.some.inj (hbar.symm.trans hother)
      rw [offers, firstFree_cons_free (show Offer.blocked symbol direction ⟨index, bar, field⟩ = false from hfree), Option.elim_some]
      exact ⟨_, _, _, by simp [Offer.sale, Offer.reason]; exact ⟨rfl, rfl, rfl⟩⟩
  · rintro rfl offer hfree
    exact Offer.price_of_free hfree

end Search

end TradingHarness
