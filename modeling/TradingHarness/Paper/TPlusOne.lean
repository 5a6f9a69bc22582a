import Mathlib.Data.List.TakeWhile
import TradingHarness.Paper.Ledger

set_option autoImplicit false

/-! # T+1 on the paper ledger

A position has one buy date, which every buy overwrites, and a counter of shares it may sell, which
only a roll refreshes. `Covered` says why that is enough: on a day, what may still be sold and what was
sold already come out of the shares held when the day began. -/

namespace TradingHarness

/-! ## Days of a run -/

/-- The Shanghai date of an acceptance, or the trading date of a roll. -/
def PaperAction.date : PaperAction → Option Date
  | .configure _ _ => none
  | .accept _ _ _ _ acceptedAt _ => some (shanghaiDate acceptedAt)
  | .roll tradingDate => some tradingDate
  | .propose _ => none

def datesOf (actions : List PaperAction) : List Date := actions.filterMap PaperAction.date

/-- A call that is not dated on the day or later. -/
def PaperAction.before (day : Date) (action : PaperAction) : Bool :=
  action.date.all (fun date => decide (date < day))

/-- The shares held at the end of the day before. -/
def heldBefore (day : Date) (symbol : String) (actions : List PaperAction) : ℤ :=
  heldQuantity (runPaper (actions.takeWhile (PaperAction.before day))).positions symbol

/-- The shares sold on a day. -/
def soldOn (day : Date) (symbol : String) (fills : List PaperFill) : ℤ :=
  filledQuantity .sell symbol (fills.filter (fun fill => decide (shanghaiDate fill.filledAt = day)))

/-- The shares that may be sold. -/
def sellableOf (positions : AList (fun _ : String => Position)) (symbol : String) : ℤ :=
  ((positions.lookup symbol).map (·.sellableQuantity)).getD 0

/-- On the day, both the sellable shares and a position bought on an earlier day leave room for what
    was sold already. -/
structure Covered (day : Date) (symbol : String) (held : ℤ) (state : PaperState) : Prop where
  sellable : sellableOf state.positions symbol + soldOn day symbol state.fills ≤ held
  older : ∀ position buyDate, state.positions.lookup symbol = some position →
    position.buyDate = some buyDate → buyDate < day →
      position.quantity + soldOn day symbol state.fills ≤ held

/-! ## One call -/

variable (state : PaperState) (action : PaperAction) (day : Date) (symbol : String) (held : ℤ)

theorem soldOn_concat (fills : List PaperFill) (fill : PaperFill) :
    soldOn day symbol (fills ++ [fill]) = soldOn day symbol fills
      + if shanghaiDate fill.filledAt = day ∧ fill.side = .sell ∧ fill.symbol = symbol then
          fill.quantity else 0 := by
  unfold soldOn
  rw [List.filter_append]
  by_cases hday : shanghaiDate fill.filledAt = day
  · rw [List.filter_cons_of_pos (by simpa using hday), List.filter_nil, filledQuantity_concat]
    simp only [hday, true_and]
  · rw [List.filter_cons_of_neg (by simpa using hday), List.filter_nil, List.append_nil,
      if_neg (fun h => hday h.1), add_zero]

theorem sellableOf_insert (positions : AList (fun _ : String => Position)) (symbol : String)
    (position : Position) (other : String) :
    sellableOf (positions.insert symbol position) other
      = if symbol = other then position.sellableQuantity else sellableOf positions other := by
  unfold sellableOf
  by_cases h : symbol = other
  · subst h
    rw [AList.lookup_insert, if_pos rfl]
    rfl
  · rw [AList.lookup_insert_ne (Ne.symm h), if_neg h]

/-- What a call does to the positions and the fills: nothing, a buy or a sell at its date, or a
    roll. -/
theorem stepPaper_cases :
    ((stepPaper state action).positions = state.positions ∧
        (stepPaper state action).fills = state.fills) ∨
      (∃ accountKey account fill, action.date = some (shanghaiDate fill.filledAt) ∧
        (Bought state accountKey account fill (shanghaiDate fill.filledAt) (stepPaper state action) ∨
          ∃ position, Sold state accountKey account position fill (stepPaper state action))) ∨
      ∃ tradingDate, action = .roll tradingDate := by
  rcases action with ⟨accountKey, initialCash⟩ |
    ⟨observations, today, decisionId, quantity, acceptedAt, accountKey⟩ | tradingDate | decisions
  · left
    show (rolledBack state _).positions = _ ∧ (rolledBack state _).fills = _
    unfold configurePaperAccount
    split
    · exact ⟨rfl, rfl⟩
    · split
      · exact ⟨rfl, rfl⟩
      · exact ⟨rfl, rfl⟩
  · rcases hanswer : acceptPaperDecision state observations today decisionId quantity acceptedAt
      accountKey with error | ⟨answer, state'⟩
    · left
      show (rolledBack state (Except.map _ _)).positions = _ ∧ (rolledBack state _).fills = _
      rw [hanswer]
      exact ⟨rfl, rfl⟩
    · have hstep : stepPaper state (.accept observations today decisionId quantity acceptedAt
          accountKey) = state' := by
        show rolledBack state (Except.map _ _) = _
        rw [hanswer]
        rfl
      rw [hstep]
      rcases acceptPaperDecision_cases state observations today decisionId quantity acceptedAt
        accountKey answer state' hanswer with ⟨-, hsame⟩ | ⟨-, account, fill, hdate, hfill⟩
      · exact Or.inl ⟨hsame.positions, hsame.fills⟩
      · right; left
        refine ⟨accountKey, account, fill, congrArg (fun moment => some (shanghaiDate moment))
          hdate.symm, ?_⟩
        rw [hdate]
        exact hfill
  · exact Or.inr (Or.inr ⟨tradingDate, rfl⟩)
  · exact Or.inl ⟨rfl, rfl⟩

theorem stepPaper_soldOn (hdate : action.date ≠ some day) :
    soldOn day symbol (stepPaper state action).fills = soldOn day symbol state.fills := by
  rcases stepPaper_cases state action with ⟨-, hfills⟩ |
    ⟨accountKey, account, fill, hfill, hcase⟩ | ⟨tradingDate, rfl⟩
  · rw [hfills]
  · have hother : ¬ shanghaiDate fill.filledAt = day := by
      intro hsame
      rw [hfill, hsame] at hdate
      exact hdate rfl
    have hfills : (stepPaper state action).fills = state.fills ++ [fill] := by
      rcases hcase with hbought | ⟨position, hsold⟩
      · exact hbought.fills
      · exact hsold.fills
    rw [hfills, soldOn_concat, if_neg (fun h => hother h.1), add_zero]
  · rfl

theorem Bought.covered {state state' : PaperState} {accountKey : String} {account : Account}
    {fill : PaperFill} {day : Date} {symbol : String} {held : ℤ}
    (h : Bought state accountKey account fill day state') (hcovered : Covered day symbol held state) :
    Covered day symbol held state' := by
  have hsold : soldOn day symbol state'.fills = soldOn day symbol state.fills := by
    rw [h.fills, soldOn_concat, if_neg (by simp [h.side]), add_zero]
  refine ⟨?_, ?_⟩
  · rw [hsold, h.positions, sellableOf_insert]
    split
    · next hsymbol =>
        subst hsymbol
        exact hcovered.sellable
    · exact hcovered.sellable
  · intro position buyDate hfound hdate hbefore
    rw [h.positions] at hfound
    by_cases hsymbol : symbol = fill.symbol
    · -- the buy has moved the date to the day itself
      subst hsymbol
      rw [AList.lookup_insert, Option.some.injEq] at hfound
      subst hfound
      obtain rfl := Option.some.inj hdate
      exact absurd hbefore (lt_irrefl _)
    · rw [AList.lookup_insert_ne hsymbol] at hfound
      rw [hsold]
      exact hcovered.older position buyDate hfound hdate hbefore

theorem Sold.covered {state state' : PaperState} {accountKey : String} {account : Account}
    {position : Position} {fill : PaperFill} {day : Date} {symbol : String} {held : ℤ}
    (h : Sold state accountKey account position fill state')
    (hday : shanghaiDate fill.filledAt = day) (hcovered : Covered day symbol held state) :
    Covered day symbol held state' := by
  by_cases hsymbol : symbol = fill.symbol
  · subst hsymbol
    have hsold : soldOn day fill.symbol state'.fills
        = soldOn day fill.symbol state.fills + fill.quantity := by
      rw [h.fills, soldOn_concat, if_pos ⟨hday, h.side, rfl⟩]
    refine ⟨?_, ?_⟩
    · have hsellable := hcovered.sellable
      unfold sellableOf at hsellable
      rw [h.held] at hsellable
      rw [hsold, h.positions, sellableOf_insert, if_pos rfl]
      show position.sellableQuantity - fill.quantity + _ ≤ held
      simp only [Option.map_some, Option.getD_some] at hsellable
      omega
    · intro left buyDate hfound hdate hbefore
      rw [h.positions, AList.lookup_insert, Option.some.injEq] at hfound
      subst hfound
      have holder := hcovered.older position buyDate h.held hdate hbefore
      rw [hsold]
      show position.quantity - fill.quantity + _ ≤ held
      omega
  · have hsold : soldOn day symbol state'.fills = soldOn day symbol state.fills := by
      rw [h.fills, soldOn_concat, if_neg (fun hboth => hsymbol hboth.2.2.symm), add_zero]
    refine ⟨?_, ?_⟩
    · rw [hsold, h.positions, sellableOf_insert, if_neg (Ne.symm hsymbol)]
      exact hcovered.sellable
    · intro left buyDate hfound hdate hbefore
      rw [h.positions, AList.lookup_insert_ne hsymbol] at hfound
      rw [hsold]
      exact hcovered.older left buyDate hfound hdate hbefore

theorem roll_covered (hcovered : Covered day symbol held state) :
    Covered day symbol held (rollPaperPositionsSellable state day) := by
  have hlookup : (rollPaperPositionsSellable state day).positions.lookup symbol
      = (state.positions.lookup symbol).map (rollPosition day) :=
    Tables.lookup_mapValues (rollPosition day) state.positions symbol
  refine ⟨?_, ?_⟩
  · have hsellable := hcovered.sellable
    have holder := hcovered.older
    unfold sellableOf at hsellable ⊢
    rw [hlookup]
    rcases hfound : state.positions.lookup symbol with _ | position
    · rw [hfound] at hsellable
      exact hsellable
    · rw [hfound] at hsellable holder
      simp only [Option.map_some, Option.getD_some] at hsellable ⊢
      unfold rollPosition
      split
      · next hroll =>
          rw [Option.any_eq_true] at hroll
          obtain ⟨-, buyDate, hdate, hbefore⟩ := hroll
          exact holder position buyDate rfl hdate (of_decide_eq_true hbefore)
      · exact hsellable
  · intro position buyDate hfound hdate hbefore
    rw [hlookup, Option.map_eq_some_iff] at hfound
    obtain ⟨old, hold, hroll⟩ := hfound
    subst hroll
    rcases rollPosition_cases day old with h | ⟨-, h⟩
    · rw [h] at hdate ⊢
      exact hcovered.older old buyDate hold hdate hbefore
    · rw [h] at hdate ⊢
      exact hcovered.older old buyDate hold hdate hbefore

theorem stepPaper_covered (hdate : ∀ date, action.date = some date → date = day)
    (hcovered : Covered day symbol held state) :
    Covered day symbol held (stepPaper state action) := by
  rcases stepPaper_cases state action with ⟨hpositions, hfills⟩ |
    ⟨accountKey, account, fill, hfill, hbought | ⟨position, hsold⟩⟩ | ⟨tradingDate, rfl⟩
  · refine ⟨?_, ?_⟩
    · rw [hpositions, hfills]
      exact hcovered.sellable
    · rw [hpositions, hfills]
      exact hcovered.older
  · rw [hdate _ hfill] at hbought
    exact hbought.covered hcovered
  · exact hsold.covered (hdate _ hfill) hcovered
  · obtain rfl := hdate tradingDate rfl
    exact roll_covered state tradingDate symbol held hcovered

/-! ## Whole runs -/

section

variable (actions : List PaperAction)

theorem runPaper_concat (action : PaperAction) :
    runPaper (actions ++ [action]) = stepPaper (runPaper actions) action := by
  unfold runPaper
  rw [List.foldl_append]
  rfl

section

variable (hbefore : ∀ action ∈ actions, action.before day = true)

include hbefore

theorem soldOn_of_before :
    soldOn day symbol (runPaper actions).fills = 0 := by
  induction actions using List.reverseRecOn with
  | nil => rfl
  | append_singleton actions action ih =>
      have hearlier : action.date ≠ some day := by
        intro hdate
        have hlt := hbefore action (by simp)
        unfold PaperAction.before at hlt
        rw [hdate] at hlt
        simp at hlt
      rw [runPaper_concat, stepPaper_soldOn _ action day symbol hearlier]
      exact ih (fun other hother => hbefore other (List.mem_append_left _ hother))

theorem covered_of_before :
    Covered day symbol (heldQuantity (runPaper actions).positions symbol) (runPaper actions) := by
  have hshares := (runPaper_ledger actions).1.shares symbol
  unfold heldQuantity
  refine ⟨?_, ?_⟩
  · rw [soldOn_of_before day symbol actions hbefore, add_zero]
    unfold sellableOf
    rcases hfound : (runPaper actions).positions.lookup symbol with _ | position
    · exact le_refl _
    · exact (hshares position hfound).2
  · intro position buyDate hfound _ _
    rw [soldOn_of_before day symbol actions hbefore, add_zero, hfound]
    exact le_refl _

end

end

theorem Covered.sold_le {actions : List PaperAction} {day : Date} {symbol : String} {held : ℤ}
    (h : Covered day symbol held (runPaper actions)) :
    soldOn day symbol (runPaper actions).fills ≤ held := by
  have hshares := (runPaper_ledger actions).1.shares symbol
  have hsellable := h.sellable
  unfold sellableOf at hsellable
  rcases hfound : (runPaper actions).positions.lookup symbol with _ | position
  · rw [hfound] at hsellable
    simpa using hsellable
  · rw [hfound] at hsellable
    have hnonneg := (hshares position hfound).1
    simp only [Option.map_some, Option.getD_some] at hsellable
    omega

theorem heldBefore_concat (actions : List PaperAction)
    (action other : PaperAction) (hmem : other ∈ actions ++ [action])
    (hlate : other.before day = false) :
    heldBefore day symbol (actions ++ [action]) = heldBefore day symbol actions := by
  unfold heldBefore
  rw [List.takeWhile_append]
  split
  · next hall =>
      have hbefore : ∀ a ∈ actions, a.before day = true :=
        List.takeWhile_eq_self_iff.mp ((List.takeWhile_prefix _).eq_of_length hall)
      rcases List.mem_append.mp hmem with hearlier | hlast
      · rw [hbefore other hearlier] at hlate
        exact absurd hlate (by simp)
      · obtain rfl := List.mem_singleton.mp hlast
        rw [List.takeWhile_cons_of_neg (by simp [hlate]), List.append_nil,
          List.takeWhile_eq_self_iff.mpr hbefore]
  · rfl

theorem date_of_not_before (action : PaperAction) (h : action.before day = false) :
    ∃ date, action.date = some date ∧ day ≤ date := by
  unfold PaperAction.before at h
  rcases hdate : action.date with _ | date
  · rw [hdate] at h
    exact absurd h (by simp)
  · rw [hdate] at h
    exact ⟨date, rfl, by simpa using h⟩

/-- What holds of a day after any run in date order: it is covered while it lasts, and later days do
    not sell on it. -/
theorem runPaper_covered (actions : List PaperAction) (day : Date) (symbol : String)
    (horder : (datesOf actions).Pairwise (· ≤ ·)) :
    soldOn day symbol (runPaper actions).fills ≤ heldBefore day symbol actions ∧
      ((∀ date ∈ datesOf actions, date ≤ day) →
        Covered day symbol (heldBefore day symbol actions) (runPaper actions)) := by
  induction actions using List.reverseRecOn with
  | nil =>
      have hnone := covered_of_before day symbol [] (by simp)
      exact ⟨hnone.sold_le, fun _ => hnone⟩
  | append_singleton actions action ih =>
      have hdates : datesOf (actions ++ [action]) = datesOf actions ++ action.date.toList := by
        unfold datesOf
        rw [List.filterMap_append]
        rcases hdate : action.date with _ | date <;> simp [hdate]
      rw [hdates, List.pairwise_append] at horder
      obtain ⟨hearlier, -, hlast⟩ := horder
      obtain ⟨ihsold, ihcovered⟩ := ih hearlier
      by_cases hall : ∀ a ∈ actions ++ [action], a.before day = true
      · -- the day has not begun
        have hcovered := covered_of_before day symbol (actions ++ [action]) hall
        have hheld : heldBefore day symbol (actions ++ [action])
            = heldQuantity (runPaper (actions ++ [action])).positions symbol := by
          unfold heldBefore
          rw [List.takeWhile_eq_self_iff.mpr hall]
        rw [hheld]
        exact ⟨hcovered.sold_le, fun _ => hcovered⟩
      · push Not at hall
        obtain ⟨other, hmem, hlate⟩ := hall
        rw [ne_eq, Bool.not_eq_true] at hlate
        rw [heldBefore_concat day symbol actions action other hmem hlate]
        have hreached : ∀ date, action.date = some date → day ≤ date := by
          intro date hdate
          obtain ⟨late, hotherDate, hle⟩ := date_of_not_before day other hlate
          rcases List.mem_append.mp hmem with hother | hother
          · exact le_trans hle (hlast late (List.mem_filterMap.mpr ⟨other, hother, hotherDate⟩) date
              (by simp [hdate]))
          · obtain rfl := List.mem_singleton.mp hother
            rw [hdate, Option.some.injEq] at hotherDate
            exact hotherDate ▸ hle
        have hkept : (∀ date ∈ datesOf actions, date ≤ day) →
            (∀ date, action.date = some date → date = day) →
            Covered day symbol (heldBefore day symbol actions) (runPaper (actions ++ [action])) := by
          intro hbound hdate
          rw [runPaper_concat]
          exact stepPaper_covered _ action day symbol _ hdate (ihcovered hbound)
        refine ⟨?_, fun hbound => hkept
          (fun date hdate => hbound date (hdates ▸ List.mem_append_left _ hdate)) ?_⟩
        · by_cases hdate : action.date = some day
          · refine (hkept (fun date hmem => hlast date hmem day (by simp [hdate])) ?_).sold_le
            intro date hdate'
            rw [hdate, Option.some.injEq] at hdate'
            exact hdate'.symm
          · rw [runPaper_concat, stepPaper_soldOn _ action day symbol hdate]
            exact ihsold
        · intro date hdate
          exact le_antisymm (hbound date (hdates ▸ List.mem_append_right _ (by simp [hdate])))
            (hreached date hdate)

/-- A sell that passed the gate finds its position and enough sellable shares. -/
theorem settleFill_ne_runtimeError (ticket : Ticket) (pricing : Pricing)
    (accountKey : String) (acceptedAt : Timestamp)
    (hsellable : ticket.side = .sell →
      ticket.requested ≤ sellableOf state.positions ticket.decision.symbol)
    (hrequested : 0 < ticket.requested) :
    settleFill state ticket pricing accountKey acceptedAt ≠ .error .runtimeError := by
  have hcash : ∀ delta, updateCash state.accounts accountKey delta ≠ .error .runtimeError := by
    intro delta
    unfold updateCash
    split
    · simp
    · split <;> simp
  unfold settleFill
  rcases hside : ticket.side with _ | _
  · rcases haccounts : updateCash state.accounts accountKey (-(pricing.gross + pricing.fees)) with
      error | accounts
    · have hne := hcash (-(pricing.gross + pricing.fees))
      rw [haccounts] at hne
      simpa [haccounts, bind, Except.bind] using hne
    · simp [bind, Except.bind, pure, Except.pure]
  · have henough := hsellable hside
    unfold sellableOf at henough
    rcases hposition : state.positions.lookup ticket.decision.symbol with _ | position
    · -- without a position nothing is sellable, and the gate has refused
      rw [hposition] at henough
      simp only [Option.map_none, Option.getD_none] at henough
      omega
    · rw [hposition] at henough
      simp only [Option.map_some, Option.getD_some] at henough
      simp only [hposition, if_neg (not_lt.mpr henough)]
      rcases haccounts : updateCash state.accounts accountKey (pricing.gross - pricing.fees) with
        error | accounts
      · have hne := hcash (pricing.gross - pricing.fees)
        rw [haccounts] at hne
        simpa [bind, Except.bind] using hne
      · simp [bind, Except.bind, pure, Except.pure]

theorem acceptPaperDecision_ne_runtimeError (observations : List (String × Quote)) (today : Date) (decisionId : String) (quantity : ℤ)
    (acceptedAt : Timestamp) (accountKey : String) :
    acceptPaperDecision state observations today decisionId quantity acceptedAt accountKey
      ≠ .error .runtimeError := by
  unfold acceptPaperDecision
  rcases hticket : openTicket state decisionId quantity with error | ticket
  · have hvalue : error ≠ .runtimeError := by
      unfold openTicket at hticket
      rintro rfl
      repeat' split at hticket
      all_goals simp at hticket
    simpa [bind, Except.bind] using hvalue
  have hrequested := openTicket_requested state decisionId quantity ticket hticket
  simp only [bind, Except.bind]
  generalize latestLocalQuote observations ticket.decision.symbol acceptedAt = quote
  rcases hfurther : acceptanceReasons ticket (priceTicket ticket quote)
    (state.accounts.lookup accountKey) acceptedAt with error | further
  · have htype : error ≠ .runtimeError := by
      unfold acceptanceReasons at hfurther
      rintro rfl
      repeat' split at hfurther
      all_goals simp at hfurther
    simpa using htype
  simp only
  split
  · simp [pure, Except.pure]
  · split
    · simp [pure, Except.pure]
    · next observed hreasons =>
        rw [not_not, List.append_eq_nil_iff] at hreasons
        have hsettle := settleFill_ne_runtimeError
          { state with fills := state.fills ++
            [fillOf ticket (priceTicket ticket (some observed)) observed acceptedAt] }
          ticket (priceTicket ticket (some observed)) accountKey acceptedAt (by
            intro hside
            have hgate := hreasons.1
            rw [hside] at hgate
            exact sellable_of_assessTradability _ _ _ _ _ hgate) hrequested
        split
        · next error herror =>
            rw [herror] at hsettle
            simpa using hsettle
        · simp [pure, Except.pure]

/-- **T+1.** In a run in date order no more is sold on a day than was held at the end of the day
    before, and an acceptance never runs into an unsellable quantity. -/
theorem sells_held_shares (actions : List PaperAction)
    (horder : (datesOf actions).Pairwise (· ≤ ·)) :
    (∀ (day : Date) (symbol : String),
      soldOn day symbol (runPaper actions).fills ≤ heldBefore day symbol actions) ∧
    ∀ (observations : List (String × Quote)) (today : Date) (decisionId : String) (quantity : ℤ)
      (acceptedAt : Timestamp) (accountKey : String),
      acceptPaperDecision (runPaper actions) observations today decisionId quantity acceptedAt
        accountKey ≠ .error .runtimeError :=
  ⟨fun day symbol => (runPaper_covered actions day symbol horder).1,
    acceptPaperDecision_ne_runtimeError (runPaper actions)⟩

/-- A lot bought before the roll is sold on the next day, a lot of that day is not. -/
theorem sells_held_shares_buyThenSell :
    soldOn 1 "600000.SH" (runPaper buyThenSell).fills = 100 ∧
      heldBefore 1 "600000.SH" buyThenSell = 200 ∧
      soldOn 1 "600000.SH" (runPaper buyThenSell).fills ≤ heldBefore 1 "600000.SH" buyThenSell :=
  ⟨by decide +kernel, by decide +kernel,
    (sells_held_shares buyThenSell (by decide +kernel)).1 1 "600000.SH"⟩

end TradingHarness
