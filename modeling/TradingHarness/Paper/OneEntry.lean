import Mathlib.Tactic.Linarith
import Mathlib.Tactic.Positivity
import TradingHarness.Library.Greedy
import TradingHarness.Paper.AutoExecution

set_option autoImplicit false

/-! # What a plan keeps

The bounds of the portfolio on a plan: slots, cash, lots, one entry per name, and every exit heard.
The buys are a first-come-first-served pass over the offers the intents make, and the bounds on slots
and cash come from that alone. A name bought earlier in the pass, and a name another candidate is
closing, are not asked about; the sells ask only the last candidate of a symbol. -/

namespace TradingHarness

/-! ## The bounds -/

variable (input : PassInput) (taken : List Buy) (buy : Buy)

/-- Some candidate asks to close the symbol. -/
def PassInput.exitAsked (symbol : String) : Prop :=
  ∃ candidate ∈ input.candidates,
    (strategyIntent candidate).symbol = symbol ∧ (strategyIntent candidate).asksExit = true

instance (input : PassInput) (symbol : String) : Decidable (input.exitAsked symbol) := by
  unfold PassInput.exitAsked
  infer_instance

variable (positions : AList (fun _ : String => Holding)) (symbol : String) (position : Holding)

/-- The symbols that are still held once the planned sells are filled. -/
def stillHeld (sells : List Sell) : List String :=
  positions.keys.filter (fun symbol => decide (∀ sell ∈ sells, sell.symbol = symbol →
    ∀ position ∈ positions.lookup symbol, sell.quantity < wholeShares position.quantity))

/-- The bounds a plan keeps. -/
structure WithinBounds (input : PassInput) (plan : Plan) : Prop where
  oneBuyPerSymbol : (plan.buys.map (·.symbol)).Nodup
  notHeld : ∀ buy ∈ plan.buys, buy.symbol ∉ stillHeld input.positions plan.sells
  exitsSold : ∀ symbol position price, input.positions.lookup symbol = some position →
    input.exitAsked symbol → quotePrice input.quotes symbol = some price →
      lotSize ≤ wholeShares position.sellableQuantity → ∃ sell ∈ plan.sells, sell.symbol = symbol
  exitsNotBought : ∀ symbol ∈ input.positions, input.exitAsked symbol →
    ∀ buy ∈ plan.buys, buy.symbol ≠ symbol
  slots : plan.buys.length ≤
    (min input.maxNew (input.maxOpen - (stillHeld input.positions plan.sells).length)).toNat
  cash : (plan.buys.map Buy.cost).sum ≤ max 0 input.cash
  buyLots : ∀ buy ∈ plan.buys, 0 < buy.quantity ∧ lotSize ∣ buy.quantity
  sellLots : ∀ sell ∈ plan.sells, 0 < sell.quantity ∧ lotSize ∣ sell.quantity
  sellable : ∀ sell ∈ plan.sells, ∀ position ∈ input.positions.lookup sell.symbol,
    (sell.quantity : ℚ) ≤ position.sellableQuantity.getD 0

/-! ## Lots -/

section

variable (action : String)

theorem exitFraction_cases (fraction : ℚ)
    (h : exitFractions.lookup action = some fraction) : fraction = 1 ∨ fraction = 1 / 2 := by
  unfold exitFractions at h
  simp only [List.lookup_cons, List.lookup_nil] at h
  split at h
  · left
    exact (Option.some.inj h).symm
  · split at h
    · left
      exact (Option.some.inj h).symm
    · split at h
      · right
        exact (Option.some.inj h).symm
      · exact absurd h (by simp)

theorem exitQuantity_lots (hpos : 0 < exitQuantity position action) :
    lotSize ∣ exitQuantity position action ∧
      (exitQuantity position action : ℚ) ≤ position.sellableQuantity.getD 0 := by
  unfold exitQuantity at hpos ⊢
  simp only at hpos ⊢
  split at hpos
  · exact absurd hpos (lt_irrefl _)
  · next hsellable =>
      rw [if_neg hsellable]
      push Not at hsellable
      obtain ⟨hshares, hfraction⟩ := hsellable
      split at hpos
      · next hlot =>
          rw [if_pos hlot]
          have hwhole : (wholeShares position.sellableQuantity : ℚ)
              ≤ position.sellableQuantity.getD 0 := Rounding.truncate_le_of_pos _ hshares
          have hpart : Rounding.truncate (wholeShares position.sellableQuantity
              * (exitFractions.lookup action).getD 0) ≤ wholeShares position.sellableQuantity := by
            have hcast : (0 : ℚ) < wholeShares position.sellableQuantity := by exact_mod_cast hshares
            rcases hlookup : exitFractions.lookup action with _ | fraction
            · rw [hlookup] at hfraction
              exact absurd hfraction (by simp)
            · have hle : fraction ≤ 1 := by
                rcases exitFraction_cases action fraction hlookup with h | h
                · exact le_of_eq h
                · rw [h]
                  norm_num
              have hnonneg : 0 ≤ fraction := by
                rw [hlookup] at hfraction
                exact le_of_lt hfraction
              show Rounding.truncate (_ * fraction) ≤ _
              rw [Rounding.truncate_of_nonneg _ (mul_nonneg (le_of_lt hcast) hnonneg)]
              have hmul : (wholeShares position.sellableQuantity : ℚ) * fraction
                  ≤ wholeShares position.sellableQuantity := by
                nlinarith
              exact_mod_cast le_trans (Int.floor_le _) hmul
          refine ⟨?_, le_trans ?_ hwhole⟩
          · rcases max_choice lotSize (Rounding.truncate (wholeShares position.sellableQuantity
              * (exitFractions.lookup action).getD 0) / lotSize * lotSize) with h | h
            · rw [h]
            · rw [h]
              exact Dvd.intro_left _ rfl
          · have hlots : Rounding.truncate (wholeShares position.sellableQuantity
                * (exitFractions.lookup action).getD 0) / lotSize * lotSize
                ≤ wholeShares position.sellableQuantity :=
              le_trans (Int.ediv_mul_le _ (by decide)) hpart
            exact_mod_cast max_le hlot hlots
      · exact absurd hpos (lt_irrefl _)

theorem exitQuantity_pos (haction : (exitFractions.lookup action).isSome = true)
    (hlot : lotSize ≤ wholeShares position.sellableQuantity) :
    0 < exitQuantity position action := by
  obtain ⟨fraction, hlookup⟩ := Option.isSome_iff_exists.mp haction
  have hfraction : 0 < fraction := by
    rcases exitFraction_cases action fraction hlookup with h | h <;> rw [h] <;> norm_num
  have hlots : (0 : ℤ) < lotSize := by decide
  unfold exitQuantity
  simp only [hlookup, Option.getD_some]
  rw [if_neg (by push Not; exact ⟨lt_of_lt_of_le hlots hlot, hfraction⟩), if_pos hlot]
  exact lt_of_lt_of_le hlots (le_max_left _ _)

end

variable (held : List String) (quotes : AList (fun _ : String => Option ℚ)) (equity : ℚ) (intent : Intent)

theorem positionSize_lots (price weight : ℚ) : lotSize ∣ positionSize equity price weight := by
  unfold positionSize
  simp only
  split
  · exact dvd_zero _
  · exact Dvd.intro_left _ rfl

/-! ## The sells -/

theorem mem_sortedPositions :
    (symbol, position) ∈ sortedPositions positions ↔ positions.lookup symbol = some position := by
  unfold sortedPositions
  rw [List.mem_mergeSort, List.mem_map, ← Option.mem_def, AList.mem_lookup_iff]
  refine ⟨?_, fun hmem => ⟨⟨symbol, position⟩, hmem, rfl⟩⟩
  rintro ⟨⟨key, value⟩, hmem, heq⟩
  obtain ⟨rfl, rfl⟩ := Prod.mk.inj heq
  exact hmem

section

variable (rules : ExitRules)

theorem planSell_some (quotes : AList (fun _ : String => Option ℚ))
    (intents : List Intent) (symbol : String) (position : Holding) (sell : Sell)
    (h : planSell rules quotes intents symbol position = some sell) :
    sell.symbol = symbol ∧ 0 < sell.quantity ∧ lotSize ∣ sell.quantity ∧
      (sell.quantity : ℚ) ≤ position.sellableQuantity.getD 0 := by
  unfold planSell at h
  simp only at h
  split at h
  · exact absurd h (by simp)
  · split at h
    · exact absurd h (by simp)
    · split at h
      · exact absurd h (by simp)
      · next hquantity =>
          obtain rfl := Option.some.inj h
          have hpos := not_le.mp hquantity
          exact ⟨rfl, hpos, exitQuantity_lots _ _ hpos⟩

theorem exitReason_action (intent : Option Intent) (position : Holding)
    (price : ℚ) (reason action : String)
    (h : exitReason rules intent position price = some (reason, action)) :
    (exitFractions.lookup action).isSome = true := by
  unfold exitReason at h
  simp only at h
  split at h
  · next haction =>
      obtain ⟨-, rfl⟩ := Prod.mk.inj (Option.some.inj h)
      exact haction
  · have hexit : (exitFractions.lookup "exit").isSome = true := by decide
    split at h
    · obtain ⟨-, rfl⟩ := Prod.mk.inj (Option.some.inj h)
      exact hexit
    · split at h
      · obtain ⟨-, rfl⟩ := Prod.mk.inj (Option.some.inj h)
        exact hexit
      · split at h
        · obtain ⟨-, rfl⟩ := Prod.mk.inj (Option.some.inj h)
          exact hexit
        · exact absurd h (by simp)

/-- With a price and a sellable lot, a holding is sold when there is a reason to close it. -/
theorem planSell_isSome (quotes : AList (fun _ : String => Option ℚ))
    (intents : List Intent) (symbol : String) (position : Holding) (price : ℚ)
    (hprice : quotePrice quotes symbol = some price)
    (hlot : lotSize ≤ wholeShares position.sellableQuantity) :
    (planSell rules quotes intents symbol position).isSome = true ↔
      (exitReason rules (lastIntent intents symbol) position price).isSome = true := by
  unfold planSell
  simp only [hprice]
  rcases hreason : exitReason rules (lastIntent intents symbol) position price with _ | ⟨reason, action⟩
  · simp
  · have hpos := exitQuantity_pos position action
      (exitReason_action rules _ position price reason action hreason) hlot
    simp only [if_neg (not_le.mpr hpos), Option.isSome_some]

end

theorem mem_sells (sell : Sell) :
    sell ∈ (planPaperOrders input).sells ↔ ∃ position,
      input.positions.lookup sell.symbol = some position ∧
        planSell input.rules input.quotes input.intents sell.symbol position = some sell := by
  show sell ∈ List.filterMap _ _ ↔ _
  rw [List.mem_filterMap]
  constructor
  · rintro ⟨⟨symbol, position⟩, hmem, hsell⟩
    obtain ⟨rfl, -⟩ := planSell_some _ _ _ _ _ _ hsell
    exact ⟨position, (mem_sortedPositions _ _ _).mp hmem, hsell⟩
  · rintro ⟨position, hfound, hsell⟩
    exact ⟨(sell.symbol, position), (mem_sortedPositions _ _ _).mpr hfound, hsell⟩

theorem held_perm :
    input.held.Perm (stillHeld input.positions (planPaperOrders input).sells) := by
  unfold PassInput.held heldAfterSells stillHeld
  have hsorted : (sortedPositions input.positions).Perm
      (input.positions.entries.map (fun entry => (entry.1, entry.2))) := List.mergeSort_perm _ _
  refine ((hsorted.filter _).map _).trans ?_
  rw [List.filter_map, List.map_map]
  show (((input.positions.entries.filter _).map Sigma.fst).Perm _)
  rw [show input.positions.keys = input.positions.entries.map Sigma.fst from rfl, List.filter_map]
  refine List.Perm.of_eq (congrArg (List.map Sigma.fst) (List.filter_congr ?_))
  rintro ⟨symbol, position⟩ hmem
  have hfound : input.positions.lookup symbol = some position := AList.mem_lookup_iff.mpr hmem
  show decide _ = decide _
  rw [decide_eq_decide]
  show ¬ (planSell input.rules input.quotes input.intents symbol position).any _ = true ↔ _
  rw [Option.any_eq_true]
  constructor
  · intro hopen sell hsell hsymbol other hother
    obtain ⟨sold, hsold, hplan⟩ := (mem_sells input sell).mp hsell
    subst hsymbol
    rw [hfound] at hsold hother
    obtain rfl := Option.some.inj hsold
    obtain rfl := Option.some.inj hother
    by_contra hless
    exact hopen ⟨sell, hplan, decide_eq_true (not_lt.mp hless)⟩
  · rintro hleft ⟨sell, hplan, hcloses⟩
    obtain ⟨hsymbol, -⟩ := planSell_some _ _ _ _ _ _ hplan
    have hless := hleft sell
      ((mem_sells input sell).mpr ⟨position, hsymbol ▸ hfound, hsymbol ▸ hplan⟩) hsymbol position hfound
    exact absurd (of_decide_eq_true hcloses) (not_le.mpr hless)

/-! ## The buys -/

/-- What an intent would buy, slots and cash apart. -/
def offerOf : Option Buy :=
  if intent.symbol = "" ∨ (refusal held intent).isSome then none
  else match quotePrice quotes intent.symbol with
  | none => none
  | some price =>
    if price ≤ 0 ∨ positionSize equity price intent.entryFraction ≤ 0 then none
    else some (buyOf intent price (positionSize equity price intent.entryFraction))

def PassInput.offers : List Buy :=
  input.intents.filterMap (offerOf input.held input.quotes input.equity)

def PassInput.budget : ℤ := min input.maxNew input.openSlots

def spent (buys : List Buy) : ℚ := (buys.map Buy.cost).sum

/-- A slot and the cash for one more buy are left. -/
def Affordable (budget : ℤ) (cash : ℚ) (taken : List Buy) (buy : Buy) : Prop :=
  (taken.length : ℤ) < budget ∧ spent taken + buy.cost ≤ cash

instance (budget : ℤ) (cash : ℚ) (taken : List Buy) (buy : Buy) :
    Decidable (Affordable budget cash taken buy) := by
  unfold Affordable
  infer_instance

theorem spent_concat (buys : List Buy) (buy : Buy) : spent (buys ++ [buy]) = spent buys + buy.cost := by
  unfold spent
  rw [List.map_append, List.sum_append]
  simp

theorem offerOf_some (buy : Buy) (h : offerOf held quotes equity intent = some buy) :
    buy.symbol ∉ held ∧ 0 < buy.quantity ∧ lotSize ∣ buy.quantity ∧ 0 < buy.cost := by
  unfold offerOf at h
  split at h
  · exact absurd h (by simp)
  · next hopen =>
      rw [not_or, Option.not_isSome_iff_eq_none] at hopen
      split at h
      · exact absurd h (by simp)
      · split at h
        · exact absurd h (by simp)
        · next price _ hsize =>
            push Not at hsize
            obtain ⟨hprice, hquantity⟩ := hsize
            obtain rfl := Option.some.inj h
            refine ⟨?_, hquantity, positionSize_lots _ _ _, ?_⟩
            · show intent.symbol ∉ held
              intro hheld
              have hnone := hopen.2
              unfold refusal at hnone
              repeat' split at hnone
              all_goals simp_all
            · show (0 : ℚ) < price * _
              exact mul_pos hprice (by exact_mod_cast hquantity)

theorem planBuy_of_none (budget : ℤ) (pass : BuyPass) (intent : Intent)
    (h : offerOf held quotes equity intent = none) :
    (planBuy held quotes equity budget pass intent).buys = pass.buys ∧
      (planBuy held quotes equity budget pass intent).remainingCash = pass.remainingCash := by
  unfold planBuy
  simp only
  split
  · exact ⟨rfl, rfl⟩
  · next hsymbol =>
      split
      · exact ⟨rfl, rfl⟩
      · next hrefusal =>
          unfold offerOf at h
          rw [if_neg (by rw [hrefusal]; simp [hsymbol])] at h
          split
          · exact ⟨rfl, rfl⟩
          · split
            · exact ⟨rfl, rfl⟩
            · next price hprice =>
                rw [hprice] at h
                simp only at h
                split at h
                · next hsize =>
                    split
                    · exact ⟨rfl, rfl⟩
                    · next hpositive =>
                        rw [if_pos (hsize.resolve_left hpositive)]
                        exact ⟨rfl, rfl⟩
                · exact absurd h (by simp)

/-- An offer is bought when a slot and the cash for it are left. -/
theorem planBuy_of_some (budget : ℤ) (pass : BuyPass) (intent : Intent) (buy : Buy)
    (h : offerOf held quotes equity intent = some buy) :
    (planBuy held quotes equity budget pass intent).buys
        = (if (pass.buys.length : ℤ) < budget ∧ buy.cost ≤ pass.remainingCash then
            pass.buys ++ [buy] else pass.buys) ∧
      (planBuy held quotes equity budget pass intent).remainingCash
        = (if (pass.buys.length : ℤ) < budget ∧ buy.cost ≤ pass.remainingCash then
            pass.remainingCash - buy.cost else pass.remainingCash) := by
  unfold offerOf at h
  split at h
  · exact absurd h (by simp)
  · next hopen =>
      rw [not_or, Option.not_isSome_iff_eq_none] at hopen
      obtain ⟨hsymbol, hrefusal⟩ := hopen
      split at h
      · exact absurd h (by simp)
      · next price hprice =>
          split at h
          · exact absurd h (by simp)
          · next hsize =>
              obtain ⟨hpositive, hquantity⟩ := not_or.mp hsize
              obtain rfl := Option.some.inj h
              unfold planBuy
              simp only [if_neg hsymbol, hrefusal, hprice, if_neg hpositive, if_neg hquantity]
              split
              · next hbudget =>
                  rw [if_neg (fun hboth => absurd hboth.1 (not_lt.mpr hbudget)),
                    if_neg (fun hboth => absurd hboth.1 (not_lt.mpr hbudget))]
                  exact ⟨rfl, rfl⟩
              · next hbudget =>
                  split
                  · next hcash =>
                      rw [if_neg (fun hboth => absurd hboth.2 (not_le.mpr hcash)),
                        if_neg (fun hboth => absurd hboth.2 (not_le.mpr hcash))]
                      exact ⟨rfl, rfl⟩
                  · next hcash =>
                      rw [if_pos ⟨not_le.mp hbudget, not_lt.mp hcash⟩,
                        if_pos ⟨not_le.mp hbudget, not_lt.mp hcash⟩]
                      exact ⟨rfl, rfl⟩

/-- **The buys are served in turn**: each offer is taken when a slot and the cash for it are left. -/
theorem plan_buys :
    (planPaperOrders input).buys
      = Greedy.pick (Affordable input.budget input.cash) input.offers := by
  suffices h : ∀ intents : List Intent,
      (intents.foldl (planBuy input.held input.quotes input.equity input.budget)
          { buys := [], remainingCash := input.cash, skipped := [] }).buys
        = Greedy.pick (Affordable input.budget input.cash)
            (intents.filterMap (offerOf input.held input.quotes input.equity)) ∧
      (intents.foldl (planBuy input.held input.quotes input.equity input.budget)
          { buys := [], remainingCash := input.cash, skipped := [] }).remainingCash
        = input.cash - spent (Greedy.pick (Affordable input.budget input.cash)
            (intents.filterMap (offerOf input.held input.quotes input.equity))) from
    (h input.intents).1
  intro intents
  induction intents using List.reverseRecOn with
  | nil =>
      refine ⟨rfl, ?_⟩
      show input.cash = input.cash - 0
      ring
  | append_singleton intents intent ih =>
      obtain ⟨ihbuys, ihcash⟩ := ih
      rw [List.foldl_append, List.filterMap_append]
      show (planBuy _ _ _ _ (intents.foldl _ _) intent).buys = _ ∧
        (planBuy _ _ _ _ (intents.foldl _ _) intent).remainingCash = _
      generalize intents.foldl (planBuy input.held input.quotes input.equity input.budget)
        { buys := [], remainingCash := input.cash, skipped := [] } = pass at ihbuys ihcash ⊢
      rcases hoffer : offerOf input.held input.quotes input.equity intent with _ | buy
      · obtain ⟨hbuys, hcash⟩ := planBuy_of_none _ _ _ input.budget pass intent hoffer
        rw [hbuys, hcash, ihbuys, ihcash]
        simp [hoffer]
      · obtain ⟨hbuys, hcash⟩ := planBuy_of_some _ _ _ input.budget pass intent buy hoffer
        have hlast : [intent].filterMap (offerOf input.held input.quotes input.equity) = [buy] := by
          simp [hoffer]
        have hleft : buy.cost ≤ pass.remainingCash ↔ spent pass.buys + buy.cost ≤ input.cash := by
          rw [ihcash, ihbuys]
          constructor <;> intro h <;> linarith
        rw [hbuys, hcash, hlast, Greedy.pick_concat, ← ihbuys]
        by_cases hfits : Affordable input.budget input.cash pass.buys buy
        · rw [if_pos hfits, if_pos ⟨hfits.1, hleft.mpr hfits.2⟩, if_pos ⟨hfits.1, hleft.mpr hfits.2⟩,
            spent_concat, ihcash, ihbuys]
          exact ⟨rfl, by ring⟩
        · rw [if_neg hfits, if_neg (fun h => hfits ⟨h.1, hleft.mp h.2⟩),
            if_neg (fun h => hfits ⟨h.1, hleft.mp h.2⟩), ihcash, ihbuys]
          exact ⟨rfl, rfl⟩

theorem mem_offers (h : buy ∈ (planPaperOrders input).buys) :
    ∃ intent, offerOf input.held input.quotes input.equity intent = some buy := by
  rw [plan_buys] at h
  have hsub : ∀ taken ∈ Greedy.pick (Affordable input.budget input.cash) input.offers,
      taken ∈ input.offers :=
    Greedy.pick_induction _ (fun taken => ∀ item ∈ taken, item ∈ input.offers) input.offers
      (by simp) (by
        intro taken item hmem htaken _ other hother
        rcases List.mem_append.mp hother with hearlier | hlast
        · exact htaken other hearlier
        · exact List.mem_singleton.mp hlast ▸ hmem)
  obtain ⟨intent, -, hoffer⟩ := List.mem_filterMap.mp (hsub buy h)
  exact ⟨intent, hoffer⟩

theorem buys_within :
    (planPaperOrders input).buys.length ≤ input.budget.toNat ∧
      ((planPaperOrders input).buys.map Buy.cost).sum ≤ max 0 input.cash := by
  rw [plan_buys]
  refine Greedy.pick_induction _ (fun taken => taken.length ≤ input.budget.toNat ∧
    spent taken ≤ max 0 input.cash) input.offers ⟨Nat.zero_le _, le_max_left _ _⟩ ?_
  rintro taken item - - ⟨hslot, hcash⟩
  rw [List.length_append, spent_concat]
  refine ⟨?_, le_trans hcash (le_max_right _ _)⟩
  show taken.length + 1 ≤ _
  omega

/-! ## When the bounds are kept -/

/-- The last candidate of a held name asks for an exit where any does, unless the name is closed by its
    stop or its holding period. -/
def ExitsHeard : Prop :=
  ∀ symbol position price, input.positions.lookup symbol = some position →
    input.exitAsked symbol → quotePrice input.quotes symbol = some price →
      lotSize ≤ wholeShares position.sellableQuantity →
        (∃ intent, lastIntent input.intents symbol = some intent ∧ intent.asksExit = true) ∨
        stopLossHit position price (strategyStop (lastIntent input.intents symbol) position) = true ∨
        (strategyStop (lastIntent input.intents symbol) position = none ∧
          stopLossHit position price (some input.rules.fallbackStopLoss) = true) ∨
        holdingDaysExceeded position input.rules.sessionDate input.rules.maxHoldingDays = true

/-- The name is not taken yet, and nobody asks to close it while it is held. -/
def FreeName : Prop :=
  buy.symbol ∉ taken.map (·.symbol) ∧ ¬ (buy.symbol ∈ input.positions ∧ input.exitAsked buy.symbol)

instance (input : PassInput) (taken : List Buy) (buy : Buy) : Decidable (FreeName input taken buy) := by
  unfold FreeName
  infer_instance

/-- The pass that takes every name once, and no name that is being closed. -/
def takenOnce (offers : List Buy) : List Buy :=
  Greedy.pick (fun taken buy => Affordable input.budget input.cash taken buy ∧
    FreeName input taken buy) offers

/-- Whenever an offer of a name that is taken or being closed comes up, no slot or not enough cash
    is left. -/
def NamesOnce : Prop :=
  Runs.InTurn (fun seen buy => Affordable input.budget input.cash (takenOnce input seen) buy →
    FreeName input (takenOnce input seen) buy) input.offers

theorem exitReason_isSome (rules : ExitRules) (intent : Option Intent) (position : Holding)
    (price : ℚ) :
    (exitReason rules intent position price).isSome = true ↔
      (∃ i, intent = some i ∧ i.asksExit = true) ∨
        stopLossHit position price (strategyStop intent position) = true ∨
        (strategyStop intent position = none ∧
          stopLossHit position price (some rules.fallbackStopLoss) = true) ∨
        holdingDaysExceeded position rules.sessionDate rules.maxHoldingDays = true := by
  have hasks : (exitFractions.lookup ((intent.map (·.exitAction)).getD "")).isSome = true ↔
      ∃ i, intent = some i ∧ i.asksExit = true := by
    rcases intent with _ | i
    · simp [exitFractions]
    · simp [Intent.asksExit]
  rw [← hasks]
  unfold exitReason
  simp only
  split
  · next h => exact iff_of_true rfl (Or.inl h)
  · next hfirst =>
      split
      · next h => exact iff_of_true rfl (Or.inr (Or.inl h))
      · next hsecond =>
          split
          · next h => exact iff_of_true rfl (Or.inr (Or.inr (Or.inl h)))
          · next hthird =>
              split
              · next h => exact iff_of_true rfl (Or.inr (Or.inr (Or.inr h)))
              · next hfourth =>
                  refine iff_of_false (by simp) ?_
                  rintro (h | h | h | h)
                  · exact hfirst h
                  · exact hsecond h
                  · exact hthird h
                  · exact hfourth h

section

variable (input : PassInput)

theorem exitsSold_iff :
    (∀ symbol position price, input.positions.lookup symbol = some position →
      input.exitAsked symbol → quotePrice input.quotes symbol = some price →
        lotSize ≤ wholeShares position.sellableQuantity →
          ∃ sell ∈ (planPaperOrders input).sells, sell.symbol = symbol) ↔ ExitsHeard input := by
  have hsold : ∀ symbol position, input.positions.lookup symbol = some position →
      ((∃ sell ∈ (planPaperOrders input).sells, sell.symbol = symbol) ↔
        (planSell input.rules input.quotes input.intents symbol position).isSome = true) := by
    intro symbol position hfound
    rw [Option.isSome_iff_exists]
    constructor
    · rintro ⟨sell, hmem, rfl⟩
      obtain ⟨other, hother, hplan⟩ := (mem_sells input sell).mp hmem
      rw [hfound] at hother
      obtain rfl := Option.some.inj hother
      exact ⟨sell, hplan⟩
    · rintro ⟨sell, hplan⟩
      obtain ⟨hsymbol, -⟩ := planSell_some _ _ _ _ _ _ hplan
      exact ⟨sell, (mem_sells input sell).mpr ⟨position, hsymbol ▸ hfound, hsymbol ▸ hplan⟩, hsymbol⟩
  unfold ExitsHeard
  refine forall₃_congr (fun symbol position price => ?_)
  refine imp_congr_right fun hfound => imp_congr_right fun _ => imp_congr_right fun hprice =>
    imp_congr_right fun hlot => ?_
  rw [hsold symbol position hfound, planSell_isSome _ _ _ _ _ _ hprice hlot, exitReason_isSome]

theorem inTurn_freeName (buys : List Buy) :
    Runs.InTurn (FreeName input) buys ↔ (buys.map (·.symbol)).Nodup ∧
      ∀ buy ∈ buys, ¬ (buy.symbol ∈ input.positions ∧ input.exitAsked buy.symbol) := by
  induction buys using List.reverseRecOn with
  | nil => exact iff_of_true (Runs.inTurn_nil _) ⟨List.nodup_nil, by simp⟩
  | append_singleton buys buy ih =>
      rw [Runs.inTurn_concat, ih, List.map_append, List.nodup_append]
      unfold FreeName
      simp only [List.map_cons, List.map_nil, List.mem_append, List.mem_singleton, List.nodup_singleton,
        true_and, List.mem_map, ne_eq]
      constructor
      · rintro ⟨⟨hnodup, hopen⟩, hnew, hfree⟩
        refine ⟨⟨hnodup, ?_⟩, ?_⟩
        · rintro symbol ⟨other, hother, rfl⟩ last rfl hsame
          exact hnew ⟨other, hother, hsame⟩
        · rintro other (hother | rfl)
          · exact hopen other hother
          · exact hfree
      · rintro ⟨⟨hnodup, hnew⟩, hopen⟩
        refine ⟨⟨hnodup, fun other hother => hopen other (Or.inl hother)⟩, ?_, hopen buy (Or.inr rfl)⟩
        rintro ⟨other, hother, hsame⟩
        exact hnew other.symbol ⟨other, hother, rfl⟩ buy.symbol rfl hsame

theorem freeNames_iff (buys : List Buy) :
    Runs.InTurn (FreeName input) buys ↔ (buys.map (·.symbol)).Nodup ∧
      ∀ symbol ∈ input.positions, input.exitAsked symbol → ∀ buy ∈ buys, buy.symbol ≠ symbol := by
  rw [inTurn_freeName]
  refine and_congr_right (fun _ => ⟨?_, ?_⟩)
  · rintro h symbol hheld hasked buy hbuy rfl
    exact h buy hbuy ⟨hheld, hasked⟩
  · rintro h buy hbuy ⟨hheld, hasked⟩
    exact h buy.symbol hheld hasked buy hbuy rfl

/-- **One entry per name.** A plan keeps its bounds exactly when every exit is heard and no name
    comes up again while it could be bought. -/
theorem plan_within_bounds_iff :
    WithinBounds input (planPaperOrders input) ↔ ExitsHeard input ∧ NamesOnce input := by
  have hnames : NamesOnce input ↔ Runs.InTurn (FreeName input) (planPaperOrders input).buys := by
    rw [plan_buys]
    exact (Greedy.pick_inTurn_iff (Affordable input.budget input.cash) (FreeName input)
      input.offers).symm
  rw [hnames, freeNames_iff, ← exitsSold_iff]
  refine ⟨fun h => ⟨h.exitsSold, h.oneBuyPerSymbol, h.exitsNotBought⟩, ?_⟩
  rintro ⟨hsold, honce, hnotBought⟩
  obtain ⟨hslots, hcash⟩ := buys_within input
  refine ⟨honce, ?_, hsold, hnotBought, ?_, hcash, ?_, ?_, ?_⟩
  · intro buy hbuy hheld
    obtain ⟨intent, hoffer⟩ := mem_offers input buy hbuy
    exact (offerOf_some _ _ _ _ _ hoffer).1 ((held_perm input).mem_iff.mpr hheld)
  · have hlength := (held_perm input).length_eq
    unfold PassInput.budget PassInput.openSlots at hslots
    omega
  · intro buy hbuy
    obtain ⟨intent, hoffer⟩ := mem_offers input buy hbuy
    obtain ⟨-, hpos, hlot, -⟩ := offerOf_some _ _ _ _ _ hoffer
    exact ⟨hpos, hlot⟩
  · intro sell hsell
    obtain ⟨position, -, hplan⟩ := (mem_sells input sell).mp hsell
    obtain ⟨-, hpos, hlot, -⟩ := planSell_some _ _ _ _ _ _ hplan
    exact ⟨hpos, hlot⟩
  · intro sell hsell position hfound
    obtain ⟨other, hother, hplan⟩ := (mem_sells input sell).mp hsell
    rw [Option.mem_def, hother] at hfound
    obtain rfl := Option.some.inj hfound
    exact (planSell_some _ _ _ _ _ _ hplan).2.2.2

end

/-- Two strategies that name one symbol: it is bought twice in one pass. -/
def namedTwice : PassInput where
  candidates :=
    [{ symbol := some "600000.SH", strategyKey := some "leader_flow", targetFraction := some (1 / 10) },
      { symbol := some "600000.SH", strategyKey := some "board_drill", targetFraction := some (1 / 10) }]
  positions := ∅
  quotes := AList.singleton "600000.SH" (some 10)
  equity := 100000
  cash := 100000

theorem namedTwice_not_within_bounds :
    ¬ WithinBounds namedTwice (planPaperOrders namedTwice) := by
  intro h
  exact absurd h.oneBuyPerSymbol (by decide +kernel)

end TradingHarness
