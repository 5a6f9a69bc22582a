import TradingHarness.Tactics.Outcomes

set_option autoImplicit false

/-! # T+1 and tradability of settled outcomes

A settled outcome was entered at an open that could be bought and left, at the earliest, one
session later; an exit at an open or close that is not flagged as merely valued was made on a
trading session at a price above the down-limit band; and the exit lies within the ten-session cap
plus the roll bound. -/

namespace TradingHarness

/-- A session whose open a buyer can have: traded, positive and below the up-limit band. -/
structure BuyableOpen (symbol : String) (bar : SettlementBar) (price : ℚ) : Prop where
  present : bar.openPrice = some price
  positive : 0 < price
  trades : bar.isSuspended = false
  below_up_limit : ∀ up, (limits bar symbol).1 = some up → price < up * (1 - limitTolerance)

/-- A session at which a holder can sell at the given price of the bar. -/
structure SellablePrice (symbol : String) (bar : SettlementBar) (field : ExitField)
    (price : ℚ) : Prop where
  present : ∃ sale : SaleField, field = sale.toExitField ∧ bar.priceAt sale = some price
  positive : 0 < price
  trades : bar.isSuspended = false
  above_down_limit : ∀ down, (limits bar symbol).2 = some down →
    down * (1 + limitTolerance) < price

variable (symbol : String) (slot : Slot) (path : List SettlementBar) (referenceClose : Option ℚ)

theorem buyableOpen_of_not_blocked (bar : SettlementBar)
    (h : entryBlockReason bar .long symbol = none) : ∃ price, BuyableOpen symbol bar price := by
  unfold entryBlockReason at h
  split at h
  · simp at h
  · next hsuspended =>
      split at h
      · simp at h
      · next price hopen =>
          split at h
          · simp at h
          · next hpositive =>
              simp only [ite_eq_right_iff, reduceCtorEq, imp_false, Bool.not_eq_true] at h
              refine ⟨price, hopen, not_le.mp hpositive, by simpa using hsuspended, ?_⟩
              intro up hup
              simpa [atUpLimit, hup] using h

theorem sellablePrice_of_soldAt (bar : PricedBar) (field : ExitField)
    (price : ℚ) (h : SoldAt symbol bar field price) :
    SellablePrice symbol bar.toSettlementBar field price := by
  obtain ⟨sale, hfield, hprice, hfree⟩ := h
  obtain ⟨p, hp, htrades, hpositive, hlimit⟩ :=
    saleBlocked_eq_false symbol bar.toSettlementBar sale hfree
  rw [hprice, Option.some.injEq] at hp
  subst hp
  refine ⟨⟨sale, hfield, hprice⟩, hpositive, htrades, ?_⟩
  intro down hdown
  simpa [atDownLimit, hdown] using hlimit

/-! ## The cap -/

theorem firstAnswer_capped_le (rule : SellRule) (state : (capped rule).State) (index : ℕ)
    (bars : List PricedBar) (i : ℕ) (decision : ExitDecision)
    (hindex : index ≤ maxSellSessions - 1)
    (h : firstAnswer (capped rule) state index bars = some (i, decision)) :
    i ≤ maxSellSessions - 1 := by
  induction bars generalizing state index with
  | nil => simp [firstAnswer] at h
  | cons bar rest ih =>
      rw [firstAnswer_cons] at h
      by_cases hcap : maxSellSessions - 1 ≤ index
      · simp only [if_pos hcap, Option.some.injEq, Prod.mk.injEq] at h
        omega
      · rcases ha : rule.answer state index bar with ⟨_ | d, state'⟩
        · simp only [capped, if_neg hcap, ha] at h
          exact ih state' (index + 1) (by omega) h
        · simp only [if_neg hcap, ha, Option.some.injEq, Prod.mk.injEq] at h
          omega

/-- How the walk of one pick settles: a resting order on the session of the rule's first answer,
    or a sale rolled from it. -/
theorem walkPick_settled (priorCloses : List (Option ℚ)) (entry : Entry) (key : ExitKey)
    (base : ℚ) (i : ℕ) (field : ExitField) (price : ℚ) (reason : Reason)
    (h : walkPick symbol slot path referenceClose priorCloses entry key base
      = .settled i field price reason) :
    ∃ k ≤ maxSellSessions - 1,
      ((field = .target ∨ field = .stop) ∧ i = k) ∨
      RollSettles symbol maxExitRollSessions k
        ((((priceWindow path).bars.drop (startOf slot entry))).drop k) i field price reason := by
  unfold walkPick walkExit at h
  rw [walkFrom_eq_firstAnswer] at h
  split at h
  · simp at h
  · next k decision hf =>
      refine ⟨k, firstAnswer_capped_le _ _ 0 _ k decision (by decide) hf, ?_⟩
      cases decision with
      | sell sale => exact Or.inr (sellAt_settled symbol _ k sale _ i field price reason h)
      | target p =>
          simp only [carryOut, Walked.settled.injEq] at h
          exact Or.inl ⟨Or.inl h.2.1.symm, h.1.symm⟩
      | stop p =>
          simp only [carryOut, Walked.settled.injEq] at h
          exact Or.inl ⟨Or.inr h.2.1.symm, h.1.symm⟩

/-! ## The result -/

theorem entry_buyable (h : entryRefusal symbol slot path .buyOpen = none) :
    ∃ bar price, path[entryIndexOf slot]? = some bar ∧ BuyableOpen symbol bar price := by
  simp only [entryRefusal] at h
  split at h
  · simp at h
  · next bar hbar =>
      rw [Option.map_eq_none_iff] at h
      obtain ⟨price, hprice⟩ := buyableOpen_of_not_blocked symbol bar h
      exact ⟨bar, price, hbar, hprice⟩

/-- **T+1 and tradability.** Every settled outcome exits within the cap and the roll bound; a
    settled buyer entered at a buyable open on an earlier session than the exit; and an exit at an
    open or a close that is not flagged as valued was sold at a sellable price of its bar. -/
theorem settled_outcome_tradable (symbol : String) (slot : Slot) (path : List SettlementBar)
    (referenceClose : Option ℚ) (priorCloses : List (Option ℚ)) (result : PickEvaluation)
    (h : evaluatePick symbol slot path referenceClose priorCloses = .ok result)
    (entry : Entry) (key : ExitKey)
    (hstatus : (result.entries entry key).status = .settled) :
    ∃ exitIndex field price reason,
      (result.entries entry key).exitIndex = some exitIndex ∧
      (result.entries entry key).field = some field ∧
      (result.entries entry key).price = some price ∧
      (result.entries entry key).reason = some reason ∧
      exitIndex ≤ startOf slot entry + (maxSellSessions - 1 + maxExitRollSessions) ∧
      (entry = .buyOpen →
        entryIndexOf slot < exitIndex ∧
        ∃ bar openPrice, path[entryIndexOf slot]? = some bar ∧
          BuyableOpen symbol bar openPrice) ∧
      (field = .atOpen ∨ field = .atClose → reason ≠ .exitBlockedValuedAtClose →
        ∃ bar, (priceWindow path).bars[exitIndex]? = some bar ∧
          SellablePrice symbol bar.toSettlementBar field price) := by
  obtain ⟨s⟩ := evaluatePick_settled symbol slot path referenceClose priorCloses result h entry
    key hstatus
  obtain ⟨k, hk, hwalk⟩ := walkPick_settled symbol slot path referenceClose priorCloses entry key
    s.base s.exitIndex s.field s.price s.reason s.walked
  have hbound : s.exitIndex ≤ maxSellSessions - 1 + maxExitRollSessions := by
    rcases hwalk with ⟨-, hi⟩ | ⟨-, hhi, -⟩ <;> omega
  rw [s.outcome_eq]
  refine ⟨startOf slot entry + s.exitIndex, s.field, s.price, s.reason, rfl, rfl, rfl, rfl,
    by omega, ?_, ?_⟩
  · rintro rfl
    refine ⟨by simp only [startOf]; omega, ?_⟩
    exact entry_buyable symbol slot path s.accepted
  · intro hfield hreason
    rcases hwalk with ⟨hresting, -⟩ | ⟨hlo, -, bar, hget, hsold⟩
    · -- a resting order is neither an open nor a close
      rcases hfield with hf | hf <;> rw [hf] at hresting <;> simp at hresting
    · rcases hsold with ⟨hvalued, -⟩ | ⟨-, hsold⟩
      · exact absurd hvalued hreason
      · refine ⟨bar, ?_, sellablePrice_of_soldAt symbol bar s.field s.price hsold⟩
        rw [List.getElem?_drop, List.getElem?_drop] at hget
        rw [← hget]
        congr 1
        omega

/-- A buyer of the open after a pick, sold at the close of the first session T+1 allows. -/
theorem settled_outcome_tradable_three_sessions :
    ∃ result, evaluatePick "600000.SH" .close
        [tradedBar 0 10 10 10 10 10 1, tradedBar 1 10 11 9 10 10 1, tradedBar 2 10 11 9 10 10 1]
        (some 10) [] = .ok result ∧
      ∃ exitIndex, (result.entries .buyOpen .sellClose).exitIndex = some exitIndex ∧
        1 < exitIndex := by
  obtain ⟨result, hresult, hstatus⟩ := evaluatePick_of_map "600000.SH" .close
    [tradedBar 0 10 10 10 10 10 1, tradedBar 1 10 11 9 10 10 1, tradedBar 2 10 11 9 10 10 1]
    (some 10) [] (fun r => (r.entries .buyOpen .sellClose).status) .settled
    (by decide +kernel)
  obtain ⟨i, -, -, -, hi, -, -, -, -, hbuy, -⟩ := settled_outcome_tradable _ _ _ _ _ result hresult
    .buyOpen .sellClose hstatus
  exact ⟨result, hresult, i, hi, (hbuy rfl).1⟩

end TradingHarness
