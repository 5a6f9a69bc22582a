import TradingHarness.Tactics.Outcomes
import TradingHarness.Settlement.Meet

set_option autoImplicit false

/-! # The five-session average rule

`below_ma5` against its own specification: sell at the open after the first close below the
five-session average, at the close of the tenth sell session if there is none. The rule's memory is
seeded with the closes before the pick day, and the walk starts one or two sessions later, so the
closes in between never enter its average; and the ten-session cap answers before an open that the
ninth session asked for. -/

namespace TradingHarness

/-! ## The first close below the average -/

variable (n : ℕ) (seed : List ℚ) (closes : List (Option ℚ))

/-- The close of sell session `k` is below the mean of itself and the four closes before it, the
    closes of `seed` standing before the first sell session. A session without a close counts for
    none. -/
def closesBelow (k : ℕ) : Bool :=
  match closes[k]? with
  | some (some close) => belowAverage (seed ++ (closes.take k).filterMap id) close
  | _ => false

/-- The first of the first `n` sell sessions that closes below its average. -/
def triggerWithin : Option ℕ :=
  (List.range n).find? (closesBelow seed closes)

/-- The sale a trigger asks for: the next open, or the close of the tenth session. -/
def askAfter : Option ℕ → ℕ × SaleField
  | some k => (k + 1, .atOpen)
  | none => (maxSellSessions - 1, .atClose)

theorem triggerWithin_zero :
    triggerWithin 0 seed closes = none := rfl

variable (symbol : String) (maxRoll : ℕ) (context : ExitContext) (closes : List ℚ) (index n : ℕ)
  (bars : List PricedBar)

theorem triggerWithin_nil : triggerWithin n seed [] = none := by
  unfold triggerWithin
  rw [List.find?_eq_none]
  intro k _
  simp [closesBelow]

theorem triggerWithin_succ (close : Option ℚ)
    (closes : List (Option ℚ)) :
    triggerWithin (n + 1) seed (close :: closes)
      = if closesBelow seed (close :: closes) 0 = true then some 0
        else (triggerWithin n (seed ++ close.toList) closes).map (· + 1) := by
  have hshift : ∀ k, closesBelow seed (close :: closes) (k + 1)
      = closesBelow (seed ++ close.toList) closes k := by
    intro k
    unfold closesBelow
    cases close <;> simp
  unfold triggerWithin
  rw [List.range_succ_eq_map, List.find?_cons]
  cases hzero : closesBelow seed (close :: closes) 0 with
  | true => simp
  | false =>
      simp only [Bool.false_eq_true, if_false, List.find?_map]
      congr 2
      funext k
      exact hshift k

/-! ## The rule as one sale -/

theorem capped_belowMa5_answer (pending : Bool)
    (index : ℕ) (bar : PricedBar) (h : ¬ maxSellSessions - 1 ≤ index) :
    (capped (belowMa5Rule context)).answer (closes, pending) index bar
      = if pending then (some (.sell .atOpen), (closes, false))
        else
          match bar.close with
          | none => (none, (closes, false))
          | some close => (none, (closes ++ [close], belowAverage closes close)) := by
  show (if maxSellSessions - 1 ≤ index then _ else _) = _
  exact if_neg h

theorem walkFrom_belowMa5_pending :
    walkFrom symbol .long maxRoll (capped (belowMa5Rule context)) (closes, true) index bars
      = if maxSellSessions - 1 ≤ index then sellAt symbol .long maxRoll .atClose index bars
        else sellAt symbol .long maxRoll .atOpen index bars := by
  cases bars with
  | nil => simp [walkFrom, sellAt]
  | cons bar rest =>
      rw [walkFrom_cons]
      by_cases hcap : maxSellSessions - 1 ≤ index
      · rw [if_pos hcap]
        simp only [if_pos hcap]
        rfl
      · rw [if_neg hcap, capped_belowMa5_answer context closes true index bar hcap]
        rfl

/-- A session before the tenth, no open pending: its close joins the memory. -/
theorem walkFrom_belowMa5_cons (bar : PricedBar) (rest : List PricedBar)
    (h : ¬ maxSellSessions - 1 ≤ index) :
    walkFrom symbol .long maxRoll (capped (belowMa5Rule context)) (closes, false) index
        (bar :: rest)
      = walkFrom symbol .long maxRoll (capped (belowMa5Rule context))
          (closes ++ bar.close.toList, closesBelow closes ((bar :: rest).map (·.close)) 0)
          (index + 1) rest := by
  rw [walkFrom_cons, capped_belowMa5_answer context closes false index bar h]
  unfold closesBelow
  simp only [List.map_cons, List.getElem?_cons_zero, List.take_zero, List.filterMap_nil,
    List.append_nil]
  cases bar.close with
  | none => simp
  | some close => simp

/-- From sell session `index` on, the capped rule is one sale: at the open after the trigger, when
    that comes before the ninth session, and else at the tenth close. -/
theorem walkFrom_belowMa5 (hn : index + n = maxSellSessions - 2 ∨ (index = maxSellSessions - 1 ∧ n = 0)) :
    walkFrom symbol .long maxRoll (capped (belowMa5Rule context)) (closes, false) index bars
      = match triggerWithin n closes (bars.map (·.close)) with
        | some k => sellAt symbol .long maxRoll .atOpen (index + k + 1) (bars.drop (k + 1))
        | none =>
            sellAt symbol .long maxRoll .atClose (maxSellSessions - 1)
              (bars.drop (maxSellSessions - 1 - index)) := by
  induction bars generalizing closes index n with
  | nil =>
      rw [List.map_nil, triggerWithin_nil]
      simp [walkFrom, sellAt]
  | cons bar rest ih =>
      by_cases hcap : maxSellSessions - 1 ≤ index
      · -- the tenth session: the cap answers
        have hindex : index = maxSellSessions - 1 := by omega
        obtain rfl : n = 0 := by omega
        rw [triggerWithin_zero, hindex, walkFrom_cons]
        simp only [le_refl, if_true]
        rw [Nat.sub_self]
        rfl
      · rw [walkFrom_belowMa5_cons symbol maxRoll context closes index bar rest hcap]
        have hdrop : maxSellSessions - 1 - index = (maxSellSessions - 1 - (index + 1)) + 1 := by
          omega
        rcases Nat.eq_zero_or_pos n with rfl | hpos
        · -- the ninth session: a trigger now asks for a session the cap takes
          have hindex : index + 1 = maxSellSessions - 1 := by
            simp only [maxSellSessions] at hn hcap ⊢
            omega
          rw [triggerWithin_zero]
          dsimp only
          rw [hdrop, List.drop_succ_cons]
          cases closesBelow closes ((bar :: rest).map (·.close)) 0 with
          | true =>
              rw [walkFrom_belowMa5_pending, if_pos hindex.ge, hindex, Nat.sub_self]
              rfl
          | false =>
              rw [ih _ (index + 1) 0 (Or.inr ⟨hindex, rfl⟩), triggerWithin_zero]
        · obtain ⟨m, rfl⟩ : ∃ m, n = m + 1 := ⟨n - 1, by omega⟩
          rw [List.map_cons, triggerWithin_succ]
          cases closesBelow closes (bar.close :: rest.map (·.close)) 0 with
          | true =>
              have hopen : ¬ maxSellSessions - 1 ≤ index + 1 := by
                simp only [maxSellSessions] at hn ⊢
                omega
              rw [walkFrom_belowMa5_pending, if_neg hopen]
              rfl
          | false =>
              rw [ih _ (index + 1) m (by omega), if_neg (by decide)]
              cases triggerWithin m (closes ++ bar.close.toList) (rest.map (·.close)) with
              | none =>
                  dsimp only [Option.map_none]
                  rw [hdrop, List.drop_succ_cons]
              | some k =>
                  dsimp only [Option.map_some]
                  rw [List.drop_succ_cons]
                  congr 1
                  omega

/-! ## The specification -/

variable (slot : Slot) (path : List SettlementBar) (referenceClose : Option ℚ) (priorCloses : List (Option ℚ))
  (entry : Entry)

/-- The prior closes as the rules see them. -/
def priorsOnBasis : List ℚ :=
  (priorCloses.filterMap id).map (basisReference path)

/-- The closes of the pick session and, for a buyer after the pick day, of the entry session. -/
def skippedCloses : List ℚ :=
  ((priceWindow path).bars.take (startOf slot entry)).filterMap (·.close)

/-- The bars of the sell sessions. -/
def sellSessions : List PricedBar :=
  (priceWindow path).bars.drop (startOf slot entry)

/-- The sale the rule asks for. -/
def belowMa5Ask : ℕ × SaleField :=
  askAfter (triggerWithin (maxSellSessions - 2) (priorsOnBasis path priorCloses)
    ((sellSessions slot path entry).map (·.close)))

/-- The sale the specification asks for: the average runs over the sessions between the prior
    closes and the first sell session too, and the ninth session may ask for the tenth open. -/
def belowMa5SpecAsk : ℕ × SaleField :=
  askAfter (triggerWithin (maxSellSessions - 1)
    (priorsOnBasis path priorCloses ++ skippedCloses slot path entry)
    ((sellSessions slot path entry).map (·.close)))

/-- What `below_ma5` is meant to give. -/
def belowMa5Spec (symbol : String) (slot : Slot) (path : List SettlementBar)
    (referenceClose : Option ℚ) (priorCloses : List (Option ℚ)) (entry : Entry) :
    Except PyError Outcome :=
  match path with
  | [] => .ok { status := .missingBar, priceBasis := .unadjustedMissingAdjFactor }
  | _ :: _ =>
      settlePick symbol slot path referenceClose entry (fun _ =>
        saleOn symbol maxExitRollSessions (sellSessions slot path entry)
          (belowMa5SpecAsk slot path priorCloses entry))

theorem walkPick_belowMa5 (base : ℚ) :
    walkPick symbol slot path referenceClose priorCloses entry .belowMa5 base
      = saleOn symbol maxExitRollSessions (sellSessions slot path entry)
          (belowMa5Ask slot path priorCloses entry) := by
  have hwalk := walkFrom_belowMa5 symbol maxExitRollSessions
    (contextOf symbol slot path referenceClose priorCloses base) (priorsOnBasis path priorCloses) 0
    (maxSellSessions - 2) (sellSessions slot path entry) (Or.inl (by decide))
  have hpick : walkPick symbol slot path referenceClose priorCloses entry .belowMa5 base
      = walkFrom symbol .long maxExitRollSessions
          (capped (belowMa5Rule (contextOf symbol slot path referenceClose priorCloses base)))
          (priorsOnBasis path priorCloses, false) 0 (sellSessions slot path entry) := rfl
  rw [hpick, hwalk]
  unfold belowMa5Ask saleOn askAfter
  cases triggerWithin (maxSellSessions - 2) (priorsOnBasis path priorCloses)
      ((sellSessions slot path entry).map (·.close)) with
  | none => rfl
  | some k => simp only [Nat.zero_add]

/-- **The rule and its specification.** A `below_ma5` outcome is the specified one exactly when
    there is nothing to walk, or the sale the rule asks for and the specified sale end alike. -/
theorem belowMa5_eq_spec_iff (symbol : String) (slot : Slot) (path : List SettlementBar)
    (referenceClose : Option ℚ) (priorCloses : List (Option ℚ)) (entry : Entry)
    (result : PickEvaluation)
    (h : evaluatePick symbol slot path referenceClose priorCloses = .ok result) :
    belowMa5Spec symbol slot path referenceClose priorCloses entry
        = .ok (result.entries entry .belowMa5) ↔
      baseOf slot path referenceClose entry = none ∨
        entryRefusal symbol slot path entry ≠ none ∨
        SalesAgree symbol maxExitRollSessions (sellSessions slot path entry)
          (belowMa5SpecAsk slot path priorCloses entry)
          (belowMa5Ask slot path priorCloses entry) := by
  have hempty : path.length ≤ startOf slot entry →
      SalesAgree symbol maxExitRollSessions (sellSessions slot path entry)
        (belowMa5SpecAsk slot path priorCloses entry)
        (belowMa5Ask slot path priorCloses entry) := by
    -- no sell session: both sales run out
    intro hlength
    have hnil : sellSessions slot path entry = [] :=
      List.drop_eq_nil_of_le (by simpa [priceWindow] using hlength)
    rw [← saleOn_eq_iff_agree]
    simp [saleOn, hnil, sellAt]
  cases path with
  | nil =>
      simp only [evaluatePick, Except.ok.injEq] at h
      subst h
      exact ⟨fun _ => Or.inr (Or.inr (hempty (by simp))), fun _ => rfl⟩
  | cons first rest =>
      have hout := evaluatePick_entries symbol slot (first :: rest) referenceClose priorCloses
        result (by simp) h entry .belowMa5
      have hspec : belowMa5Spec symbol slot (first :: rest) referenceClose priorCloses entry
          = settlePick symbol slot (first :: rest) referenceClose entry (fun _ =>
              saleOn symbol maxExitRollSessions (sellSessions slot (first :: rest) entry)
                (belowMa5SpecAsk slot (first :: rest) priorCloses entry)) := rfl
      rw [hspec, settlePick_eq_iff symbol slot (first :: rest) referenceClose entry _ _ _ hout]
      simp only [walkPick_belowMa5, saleOn_eq_iff_agree]
      constructor
      · intro hall
        by_cases hlength : (first :: rest).length ≤ startOf slot entry
        · exact Or.inr (Or.inr (hempty hlength))
        · cases hb : baseOf slot (first :: rest) referenceClose entry with
          | none => exact Or.inl rfl
          | some base =>
              by_cases hr : entryRefusal symbol slot (first :: rest) entry = none
              · exact Or.inr (Or.inr (hall base hb hr (by omega)))
              · exact Or.inr (Or.inl hr)
      · rintro (hb | hr | hagree) base hbase hrefusal -
        · rw [hb] at hbase
          exact absurd hbase (by simp)
        · exact absurd hrefusal hr
        · exact hagree

/-- A stock sealed on the pick day after four closes at 10, held. -/
def sealedPickPath : List SettlementBar :=
  [tradedBar 20000 10 11 10 11 10 1, tradedBar 20001 11 11 (51 / 5) (51 / 5) 11 1,
    tradedBar 20002 (103 / 10) (52 / 5) (103 / 10) (52 / 5) (51 / 5) 1]

/-- Without the pick day's close of 11 the average of the first sell session is 10.04 and its close
    of 10.2 does not trigger; with it the average is 10.24 and the stock is sold at the next open. -/
theorem belowMa5_ne_spec_sealedPick :
    (evaluatePick "600000.SH" .close sealedPickPath none
        [some 10, some 10, some 10, some 10]).map (fun r => (r.entries .held .belowMa5).status)
        = .ok .notResolved ∧
      (belowMa5Spec "600000.SH" .close sealedPickPath none
        [some 10, some 10, some 10, some 10] .held).map
          (fun outcome => (outcome.status, outcome.exitIndex, outcome.price))
        = .ok (.settled, some 2, some (103 / 10)) := by
  decide +kernel

/-- A pick that closed where it had closed before: its close changes no average. -/
theorem belowMa5_eq_spec_iff_flat :
    ∃ result, evaluatePick "600000.SH" .close
        [tradedBar 20000 10 10 10 10 10 1, tradedBar 20001 10 10 9 9 10 1,
          tradedBar 20002 (46 / 5) (19 / 2) (46 / 5) (19 / 2) 9 1]
        none [some 10, some 10, some 10, some 10] = .ok result ∧
      belowMa5Spec "600000.SH" .close
        [tradedBar 20000 10 10 10 10 10 1, tradedBar 20001 10 10 9 9 10 1,
          tradedBar 20002 (46 / 5) (19 / 2) (46 / 5) (19 / 2) 9 1]
        none [some 10, some 10, some 10, some 10] .held = .ok (result.entries .held .belowMa5) := by
  obtain ⟨result, hresult, -⟩ := evaluatePick_of_map "600000.SH" .close
    [tradedBar 20000 10 10 10 10 10 1, tradedBar 20001 10 10 9 9 10 1,
      tradedBar 20002 (46 / 5) (19 / 2) (46 / 5) (19 / 2) 9 1]
    none [some 10, some 10, some 10, some 10] (fun r => (r.entries .held .belowMa5).status)
    .settled (by decide +kernel)
  refine ⟨result, hresult,
    (belowMa5_eq_spec_iff _ _ _ _ _ .held result hresult).mpr (Or.inr (Or.inr ?_))⟩
  -- both ask for the open of the second sell session
  exact Or.inr (Or.inr ⟨by decide +kernel, Or.inl (by decide +kernel)⟩)

end TradingHarness
