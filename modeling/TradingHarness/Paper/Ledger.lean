import Mathlib.Tactic.Ring
import Mathlib.Tactic.Linarith
import Mathlib.Tactic.FieldSimp
import Mathlib.Data.List.Induction
import TradingHarness.Paper.Execution

set_option autoImplicit false

/-! # The paper ledger

Cash, cost and profit are written by separate statements. `Ledger` says that they stay in balance: all
cash is the initial cash less what the positions cost plus what was realised, no position may sell
more than it holds, and every position is what was bought less what was sold. It holds after any run
(`paper_ledger`). -/

namespace TradingHarness

/-! ## The books -/

variable (positions : AList (fun _ : String => Position)) (symbol : String) (position : Position)

/-- `quantity * average_cost`. -/
def Position.bookValue : ℚ := position.quantity * position.averageCost

/-- The shares filled on one side in one symbol. -/
def filledQuantity (side : Side) (symbol : String) (fills : List PaperFill) : ℤ :=
  ((fills.filter (fun fill => decide (fill.side = side ∧ fill.symbol = symbol))).map
    (·.quantity)).sum

/-- The shares held in a symbol; none without a row. -/
def heldQuantity : ℤ :=
  ((positions.lookup symbol).map (·.quantity)).getD 0

/-- The books are in balance. -/
structure Ledger (state : PaperState) : Prop where
  cash : Tables.totalOf (·.cash) state.accounts
    = Tables.totalOf (·.initialCash) state.accounts
      - Tables.totalOf Position.bookValue state.positions
      + Tables.totalOf (·.realizedPnl) state.positions
  shares : ∀ symbol position, state.positions.lookup symbol = some position →
    0 ≤ position.sellableQuantity ∧ position.sellableQuantity ≤ position.quantity
  filled : ∀ symbol, heldQuantity state.positions symbol
    = filledQuantity .buy symbol state.fills - filledQuantity .sell symbol state.fills

/-- Without a fill there are no positions and every account has its initial cash. A reset relies on
    it. -/
structure Untouched (state : PaperState) : Prop where
  positions : state.fills = [] → state.positions = ∅
  cash : state.fills = [] → ∀ key account, state.accounts.lookup key = some account →
    account.cash = account.initialCash

/-! ## What an acceptance writes -/

/-- A filled buy. -/
structure Bought (state : PaperState) (accountKey : String) (account : Account) (fill : PaperFill)
    (buyDate : Date) (state' : PaperState) : Prop where
  side : fill.side = .buy
  quantity : 0 < fill.quantity
  found : state.accounts.lookup accountKey = some account
  accounts : state'.accounts = state.accounts.insert accountKey
    { account with cash := account.cash + -(fill.price * fill.quantity + fill.fees) }
  positions : state'.positions = state.positions.insert fill.symbol
    (boughtPosition (state.positions.lookup fill.symbol) fill.quantity
      (fill.price * fill.quantity) fill.fees buyDate)
  fills : state'.fills = state.fills ++ [fill]

/-- A filled sell. -/
structure Sold (state : PaperState) (accountKey : String) (account : Account)
    (position : Position) (fill : PaperFill) (state' : PaperState) : Prop where
  side : fill.side = .sell
  quantity : 0 < fill.quantity
  found : state.accounts.lookup accountKey = some account
  held : state.positions.lookup fill.symbol = some position
  sellable : fill.quantity ≤ position.sellableQuantity
  accounts : state'.accounts = state.accounts.insert accountKey
    { account with cash := account.cash + (fill.price * fill.quantity - fill.fees) }
  positions : state'.positions = state.positions.insert fill.symbol
    (soldPosition position fill.quantity fill.price fill.fees)
  fills : state'.fills = state.fills ++ [fill]

/-- The tables the books are read from are as they were. -/
structure SameBooks (state state' : PaperState) : Prop where
  accounts : state'.accounts = state.accounts
  positions : state'.positions = state.positions
  fills : state'.fills = state.fills

variable (state : PaperState) (observations : List (String × Quote)) (today : Date) (decisionId : String)
  (quantity : ℤ) (acceptedAt : Timestamp) (accountKey : String) (answer : Acceptance) (state' : PaperState)

theorem openTicket_requested (ticket : Ticket) (h : openTicket state decisionId quantity = .ok ticket) :
    0 < ticket.requested := by
  unfold openTicket at h
  split at h
  · simp at h
  · split at h
    · simp at h
    · split at h
      · simp at h
      · split at h
        · simp at h
        · next hlots =>
            rw [Except.ok.injEq] at h
            subst h
            exact not_le.mp hlots

theorem acceptanceReasons_nil (ticket : Ticket) (pricing : Pricing) (account : Option Account)
    (acceptedAt : Timestamp)
    (h : acceptanceReasons ticket pricing account acceptedAt = .ok []) :
    ∃ a, account = some a := by
  rcases account with _ | a
  · unfold acceptanceReasons missingAccount at h
    split at h
    · simp at h
    · split at h
      · simp at h
      · split at h
        · simp at h
        · split at h
          · simp at h
          · simp at h
          · next hsome => simp at hsome
  · exact ⟨a, rfl⟩

theorem updateCash_ok (accounts accounts' : AList (fun _ : String => Account))
    (accountKey : String) (delta : ℚ) (account : Account)
    (haccount : accounts.lookup accountKey = some account)
    (h : updateCash accounts accountKey delta = .ok accounts') :
    accounts' = accounts.insert accountKey { account with cash := account.cash + delta } := by
  unfold updateCash at h
  rw [haccount] at h
  simp only at h
  split at h
  · simp at h
  · rw [Except.ok.injEq] at h
    exact h.symm

/-- Settling a fill writes a buy or a sell. -/
theorem settleFill_cases (ticket : Ticket) (pricing : Pricing)
    (accountKey : String) (account : Account) (fill : PaperFill) (acceptedAt : Timestamp)
    (state' : PaperState) (hside : fill.side = ticket.side)
    (hsymbol : fill.symbol = ticket.decision.symbol) (hquantity : fill.quantity = ticket.requested)
    (hprice : fill.price = pricing.price) (hfees : fill.fees = pricing.fees)
    (hgross : pricing.gross = pricing.price * ticket.requested) (hrequested : 0 < ticket.requested)
    (hfound : state.accounts.lookup accountKey = some account)
    (h : settleFill { state with fills := state.fills ++ [fill] } ticket pricing accountKey acceptedAt
      = .ok state') :
    Bought state accountKey account fill (shanghaiDate acceptedAt) state' ∨
      ∃ position, Sold state accountKey account position fill state' := by
  unfold settleFill at h
  rcases hticket : ticket.side with _ | _
  · left
    simp only [hticket] at h
    rcases hcash : updateCash state.accounts accountKey (-(pricing.gross + pricing.fees)) with
      error | accounts
    · simp only [hcash, bind, Except.bind, reduceCtorEq] at h
    · have hbooked := updateCash_ok _ _ _ _ _ hfound hcash
      simp only [hcash, bind, Except.bind, pure, Except.pure, Except.ok.injEq] at h
      subst h
      refine ⟨hside.trans hticket, hquantity ▸ hrequested, hfound, ?_, ?_, rfl⟩
      · show accounts = _
        rw [hbooked, hprice, hquantity, hfees, hgross]
      · show state.positions.insert _ _ = _
        rw [hprice, hquantity, hfees, hgross, hsymbol]
  · right
    simp only [hticket] at h
    rcases hposition : state.positions.lookup ticket.decision.symbol with _ | position
    · simp [hposition] at h
    · simp only [hposition] at h
      split at h
      · simp at h
      · next hsellable =>
          rcases hcash : updateCash state.accounts accountKey (pricing.gross - pricing.fees) with
            error | accounts
          · simp only [hcash, bind, Except.bind, reduceCtorEq] at h
          · have hbooked := updateCash_ok _ _ _ _ _ hfound hcash
            simp only [hcash, bind, Except.bind, pure, Except.pure, Except.ok.injEq] at h
            subst h
            refine ⟨position, hside.trans hticket, hquantity ▸ hrequested, hfound, ?_, ?_, ?_, ?_, rfl⟩
            · rw [hsymbol]
              exact hposition
            · rw [hquantity]
              exact not_lt.mp hsellable
            · show accounts = _
              rw [hbooked, hprice, hquantity, hfees, hgross]
            · show state.positions.insert _ _ = _
              rw [hprice, hquantity, hfees, hsymbol]

/-- **What an acceptance does**: nothing to the books, a buy, or a sell. -/
theorem acceptPaperDecision_cases (h : acceptPaperDecision state observations today decisionId quantity acceptedAt accountKey
      = .ok (answer, state')) :
    ((∃ reasons tradability, answer = .nonFill reasons tradability) ∧ SameBooks state state') ∨
      (∃ quantity price fees, answer = .filled quantity price fees) ∧
        ∃ account fill, fill.filledAt = acceptedAt ∧
          (Bought state accountKey account fill (shanghaiDate acceptedAt) state' ∨
            ∃ position, Sold state accountKey account position fill state') := by
  unfold acceptPaperDecision at h
  rcases hticket : openTicket state decisionId quantity with error | ticket
  · simp [hticket, bind, Except.bind] at h
  have hrequested := openTicket_requested state decisionId quantity ticket hticket
  simp only [hticket, bind, Except.bind] at h
  generalize latestLocalQuote observations ticket.decision.symbol acceptedAt = quote at h
  rcases hfurther : acceptanceReasons ticket (priceTicket ticket quote)
    (state.accounts.lookup accountKey) acceptedAt with error | further
  · simp [hfurther] at h
  simp only [hfurther] at h
  split at h
  · -- no quote at all
    left
    simp only [pure, Except.pure, Except.ok.injEq, Prod.mk.injEq] at h
    obtain ⟨hanswer, hstate⟩ := h
    subst hanswer hstate
    exact ⟨⟨_, _, rfl⟩, rfl, rfl, rfl⟩
  · next observed =>
      split at h
      · left
        simp only [pure, Except.pure, Except.ok.injEq, Prod.mk.injEq] at h
        obtain ⟨hanswer, hstate⟩ := h
        subst hanswer hstate
        exact ⟨⟨_, _, rfl⟩, rfl, rfl, rfl⟩
      · next hreasons =>
          right
          rw [not_not, List.append_eq_nil_iff] at hreasons
          rw [hreasons.2] at hfurther
          obtain ⟨account, haccount⟩ := acceptanceReasons_nil _ _ _ _ hfurther
          split at h
          · simp at h
          · next settled hsettled =>
              simp only [pure, Except.pure, Except.ok.injEq, Prod.mk.injEq] at h
              obtain ⟨hanswer, hstate⟩ := h
              subst hanswer hstate
              refine ⟨⟨_, _, _, rfl⟩, account,
                fillOf ticket (priceTicket ticket (some observed)) observed acceptedAt, rfl, ?_⟩
              rcases settleFill_cases state ticket _ accountKey account _ acceptedAt settled rfl rfl
                rfl rfl rfl rfl hrequested haccount hsettled with hbought | ⟨position, hsold⟩
              · left
                exact ⟨hbought.side, hbought.quantity, hbought.found, hbought.accounts,
                  hbought.positions, hbought.fills⟩
              · right
                exact ⟨position, hsold.side, hsold.quantity, hsold.found, hsold.held,
                  hsold.sellable, hsold.accounts, hsold.positions, hsold.fills⟩

/-! ## Each write keeps the balance -/

theorem boughtPosition_bookValue (position : Option Position) (requested : ℤ) (gross fees : ℚ)
    (buyDate : Date) (h : 0 < (position.map (·.quantity)).getD 0 + requested) :
    (boughtPosition position requested gross fees buyDate).bookValue
      = (position.map Position.bookValue).getD 0 + (gross + fees) := by
  have hne : (((position.map (·.quantity)).getD 0 + requested : ℤ) : ℚ) ≠ 0 :=
    Int.cast_ne_zero.mpr (ne_of_gt h)
  unfold boughtPosition Position.bookValue
  show (((position.map (·.quantity)).getD 0 + requested : ℤ) : ℚ) * (_ / _) = _
  rw [mul_div_cancel₀ _ hne]
  rcases position with _ | position
  · simp
  · simp only [Option.map_some, Option.getD_some]
    ring

theorem boughtPosition_realizedPnl (position : Option Position) (requested : ℤ) (gross fees : ℚ)
    (buyDate : Date) :
    (boughtPosition position requested gross fees buyDate).realizedPnl
      = (position.map (·.realizedPnl)).getD 0 := rfl

theorem soldPosition_bookValue (requested : ℤ) (price fees : ℚ) :
    (soldPosition position requested price fees).bookValue
        - (soldPosition position requested price fees).realizedPnl
      = position.bookValue - position.realizedPnl - (price * requested - fees) := by
  unfold soldPosition Position.bookValue
  push_cast
  ring

theorem heldQuantity_nonneg (h : Ledger state) (symbol : String) :
    0 ≤ heldQuantity state.positions symbol := by
  unfold heldQuantity
  rcases hfound : state.positions.lookup symbol with _ | position
  · simp
  · obtain ⟨hsellable, hquantity⟩ := h.shares symbol position hfound
    exact le_trans hsellable hquantity

theorem filledQuantity_concat (side : Side) (symbol : String) (fills : List PaperFill)
    (fill : PaperFill) :
    filledQuantity side symbol (fills ++ [fill])
      = filledQuantity side symbol fills
        + if fill.side = side ∧ fill.symbol = symbol then fill.quantity else 0 := by
  unfold filledQuantity
  rw [List.filter_append, List.map_append, List.sum_append]
  split
  · next h => simp [h]
  · next h => simp [List.filter_cons_of_neg, h]

theorem heldQuantity_insert (other : String) :
    heldQuantity (positions.insert symbol position) other
      = if symbol = other then position.quantity else heldQuantity positions other := by
  unfold heldQuantity
  by_cases h : symbol = other
  · subst h
    rw [AList.lookup_insert, if_pos rfl]
    rfl
  · rw [AList.lookup_insert_ne (Ne.symm h), if_neg h]

theorem Bought.ledger {state state' : PaperState} {accountKey : String} {account : Account}
    {fill : PaperFill} {buyDate : Date} (h : Bought state accountKey account fill buyDate state')
    (hledger : Ledger state) : Ledger state' where
  cash := by
    have hheld := heldQuantity_nonneg state hledger fill.symbol
    have hbook := boughtPosition_bookValue (state.positions.lookup fill.symbol) fill.quantity
      (fill.price * fill.quantity) fill.fees buyDate (by
        have hquantity := h.quantity
        unfold heldQuantity at hheld
        omega)
    have hcash := hledger.cash
    rw [h.accounts, h.positions, Tables.totalOf_insert, Tables.totalOf_insert,
      Tables.totalOf_insert, Tables.totalOf_insert, h.found, hbook, boughtPosition_realizedPnl]
    simp only [Option.map_some, Option.getD_some]
    linarith
  shares := by
    intro symbol position hfound
    rw [h.positions] at hfound
    by_cases hsymbol : symbol = fill.symbol
    · subst hsymbol
      rw [AList.lookup_insert, Option.some.injEq] at hfound
      subst hfound
      have hquantity := h.quantity
      rcases hold : state.positions.lookup fill.symbol with _ | old
      · show (0 : ℤ) ≤ 0 ∧ (0 : ℤ) ≤ 0 + fill.quantity
        omega
      · have hshares := hledger.shares fill.symbol old hold
        show 0 ≤ old.sellableQuantity ∧ old.sellableQuantity ≤ old.quantity + fill.quantity
        omega
    · rw [AList.lookup_insert_ne hsymbol] at hfound
      exact hledger.shares symbol position hfound
  filled := by
    intro symbol
    have hfilled := hledger.filled symbol
    rw [h.positions, h.fills, heldQuantity_insert, filledQuantity_concat, filledQuantity_concat,
      h.side]
    by_cases hsymbol : fill.symbol = symbol
    · subst hsymbol
      simp only [if_true, true_and, reduceCtorEq, false_and, if_false, add_zero]
      show heldQuantity state.positions fill.symbol + fill.quantity = _
      rw [hfilled]
      ring
    · simp only [hsymbol, and_false, if_false, add_zero]
      exact hfilled

theorem Sold.ledger {state state' : PaperState} {accountKey : String} {account : Account}
    {position : Position} {fill : PaperFill}
    (h : Sold state accountKey account position fill state') (hledger : Ledger state) :
    Ledger state' where
  cash := by
    have hbook := soldPosition_bookValue position fill.quantity fill.price fill.fees
    have hcash := hledger.cash
    rw [h.accounts, h.positions, Tables.totalOf_insert, Tables.totalOf_insert,
      Tables.totalOf_insert, Tables.totalOf_insert, h.found, h.held]
    simp only [Option.map_some, Option.getD_some]
    linarith
  shares := by
    intro symbol found hfound
    rw [h.positions] at hfound
    by_cases hsymbol : symbol = fill.symbol
    · subst hsymbol
      rw [AList.lookup_insert, Option.some.injEq] at hfound
      subst hfound
      have hshares := hledger.shares fill.symbol position h.held
      have hsellable := h.sellable
      show 0 ≤ position.sellableQuantity - fill.quantity ∧
        position.sellableQuantity - fill.quantity ≤ position.quantity - fill.quantity
      omega
    · rw [AList.lookup_insert_ne hsymbol] at hfound
      exact hledger.shares symbol found hfound
  filled := by
    intro symbol
    have hfilled := hledger.filled symbol
    rw [h.positions, h.fills, heldQuantity_insert, filledQuantity_concat, filledQuantity_concat,
      h.side]
    by_cases hsymbol : fill.symbol = symbol
    · subst hsymbol
      have hheld : heldQuantity state.positions fill.symbol = position.quantity := by
        unfold heldQuantity
        rw [h.held]
        rfl
      simp only [if_true, true_and, reduceCtorEq, false_and, if_false, add_zero]
      show position.quantity - fill.quantity = _
      rw [← hheld, hfilled]
      ring
    · simp only [hsymbol, and_false, if_false, add_zero]
      exact hfilled

theorem SameBooks.ledger {state state' : PaperState} (h : SameBooks state state')
    (hledger : Ledger state) : Ledger state' where
  cash := by
    rw [h.accounts, h.positions]
    exact hledger.cash
  shares := by
    rw [h.positions]
    exact hledger.shares
  filled := by
    rw [h.positions, h.fills]
    exact hledger.filled

theorem untouched_of_fill {state' : PaperState} (fills : List PaperFill) (fill : PaperFill)
    (h : state'.fills = fills ++ [fill]) : Untouched state' where
  positions := fun hnone => absurd (h.symm.trans hnone) (by simp)
  cash := fun hnone => absurd (h.symm.trans hnone) (by simp)

/-- A new account brings its cash as initial cash; an old one is only written over while every cash
    is the initial one. -/
theorem configure_ledger (accountKey : String) (initialCash : ℚ)
    (hledger : Ledger state) (huntouched : Untouched state)
    (h : configurePaperAccount state accountKey initialCash = .ok state') :
    Ledger state' ∧ Untouched state' := by
  unfold configurePaperAccount at h
  split at h
  · simp at h
  · split at h
    · simp at h
    · next hreset =>
        rw [Except.ok.injEq] at h
        subst h
        have hreplaced : ((state.accounts.lookup accountKey).map (·.cash)).getD 0
            = ((state.accounts.lookup accountKey).map (·.initialCash)).getD 0 := by
          rcases hfound : state.accounts.lookup accountKey with _ | account
          · rfl
          · have hnone : state.fills = [] := by
              by_contra hfills
              exact hreset ⟨by rw [hfound]; rfl, hfills⟩
            exact huntouched.cash hnone accountKey account hfound
        refine ⟨⟨?_, hledger.shares, hledger.filled⟩, ⟨huntouched.positions, ?_⟩⟩
        · have hcash := hledger.cash
          show Tables.totalOf (·.cash) (state.accounts.insert accountKey _)
            = Tables.totalOf (·.initialCash) (state.accounts.insert accountKey _) - _ + _
          rw [Tables.totalOf_insert, Tables.totalOf_insert, hreplaced]
          linarith
        · intro hnone key account hfound
          have hinsert : (state.accounts.insert accountKey ⟨initialCash, initialCash⟩).lookup key
              = some account := hfound
          by_cases hkey : key = accountKey
          · subst hkey
            rw [AList.lookup_insert, Option.some.injEq] at hinsert
            subst hinsert
            rfl
          · rw [AList.lookup_insert_ne hkey] at hinsert
            exact huntouched.cash hnone key account hinsert

theorem rollPosition_cases (tradingDate : Date) (position : Position) :
    rollPosition tradingDate position = position ∨
      position.sellableQuantity < position.quantity ∧
        rollPosition tradingDate position
          = { position with sellableQuantity := position.quantity } := by
  unfold rollPosition
  split
  · next h => exact Or.inr ⟨h.1, rfl⟩
  · exact Or.inl rfl

theorem roll_ledger (tradingDate : Date) (hledger : Ledger state)
    (huntouched : Untouched state) :
    Ledger (rollPaperPositionsSellable state tradingDate) ∧
      Untouched (rollPaperPositionsSellable state tradingDate) := by
  have hbook : ∀ position, (rollPosition tradingDate position).bookValue = position.bookValue := by
    intro position
    rcases rollPosition_cases tradingDate position with h | ⟨-, h⟩ <;> rw [h]
    rfl
  have hpnl : ∀ position, (rollPosition tradingDate position).realizedPnl
      = position.realizedPnl := by
    intro position
    rcases rollPosition_cases tradingDate position with h | ⟨-, h⟩ <;> rw [h]
  have hquantity : ∀ position, (rollPosition tradingDate position).quantity
      = position.quantity := by
    intro position
    rcases rollPosition_cases tradingDate position with h | ⟨-, h⟩ <;> rw [h]
  unfold rollPaperPositionsSellable
  refine ⟨⟨?_, ?_, ?_⟩, ⟨?_, huntouched.cash⟩⟩
  · show _ = _ - Tables.totalOf _ (Tables.mapValues _ _) + Tables.totalOf _ (Tables.mapValues _ _)
    rw [Tables.totalOf_mapValues _ _ _ hbook, Tables.totalOf_mapValues _ _ _ hpnl]
    exact hledger.cash
  · intro symbol position hfound
    have hmapped : (Tables.mapValues (rollPosition tradingDate) state.positions).lookup symbol
      = some position := hfound
    rw [Tables.lookup_mapValues, Option.map_eq_some_iff] at hmapped
    obtain ⟨old, hold, hroll⟩ := hmapped
    obtain ⟨hsellable, hheld⟩ := hledger.shares symbol old hold
    subst hroll
    rcases rollPosition_cases tradingDate old with h | ⟨-, h⟩ <;> rw [h]
    · exact ⟨hsellable, hheld⟩
    · exact ⟨le_trans hsellable hheld, le_refl _⟩
  · intro symbol
    rw [← hledger.filled symbol]
    show heldQuantity (Tables.mapValues _ _) symbol = _
    unfold heldQuantity
    rw [Tables.lookup_mapValues]
    rcases state.positions.lookup symbol with _ | position
    · rfl
    · exact hquantity position
  · intro hnone
    show Tables.mapValues _ state.positions = ∅
    rw [huntouched.positions hnone]
    rfl

/-! ## Runs -/

/-- The tables before the first call. -/
def PaperState.empty : PaperState where
  accounts := ∅
  positions := ∅
  decisions := ∅
  orders := []
  fills := []

/-- One call, with what it finds outside the ledger: the quotes, the date, and the decisions the
    signal scan writes. -/
inductive PaperAction
  | configure (accountKey : String) (initialCash : ℚ)
  | accept (observations : List (String × Quote)) (today : Date) (decisionId : String)
      (quantity : ℤ) (acceptedAt : Timestamp) (accountKey : String)
  | roll (tradingDate : Date)
  | propose (decisions : AList (fun _ : String => Decision))

/-- The tables after a call that answered, or the old ones after one that raised. -/
def rolledBack (state : PaperState) : Except PaperError PaperState → PaperState
  | .ok state' => state'
  | .error _ => state

def stepPaper (state : PaperState) : PaperAction → PaperState
  | .configure accountKey initialCash =>
      rolledBack state (configurePaperAccount state accountKey initialCash)
  | .accept observations today decisionId quantity acceptedAt accountKey =>
      rolledBack state ((acceptPaperDecision state observations today decisionId quantity
        acceptedAt accountKey).map Prod.snd)
  | .roll tradingDate => rollPaperPositionsSellable state tradingDate
  | .propose decisions => { state with decisions := decisions }

def runPaper (actions : List PaperAction) : PaperState := actions.foldl stepPaper PaperState.empty

theorem empty_ledger : Ledger PaperState.empty ∧ Untouched PaperState.empty := by
  refine ⟨⟨?_, ?_, fun _ => rfl⟩, ⟨fun _ => rfl, ?_⟩⟩
  · show (0 : ℚ) = 0 - 0 + 0
    ring
  · intro symbol position hfound
    exact absurd hfound (by simp [PaperState.empty])
  · intro _ key account hfound
    exact absurd hfound (by simp [PaperState.empty])

theorem accept_ledger (hledger : Ledger state)
    (huntouched : Untouched state)
    (h : acceptPaperDecision state observations today decisionId quantity acceptedAt accountKey
      = .ok (answer, state')) :
    Ledger state' ∧ Untouched state' := by
  rcases acceptPaperDecision_cases state observations today decisionId quantity acceptedAt
    accountKey answer state' h with ⟨-, hsame⟩ |
    ⟨-, account, fill, -, hbought | ⟨position, hsold⟩⟩
  · refine ⟨hsame.ledger hledger, ⟨?_, ?_⟩⟩
    · rw [hsame.fills, hsame.positions]
      exact huntouched.positions
    · rw [hsame.fills, hsame.accounts]
      exact huntouched.cash
  · exact ⟨hbought.ledger hledger, untouched_of_fill _ _ hbought.fills⟩
  · exact ⟨hsold.ledger hledger, untouched_of_fill _ _ hsold.fills⟩

theorem rolledBack_ledger (result : Except PaperError PaperState)
    (hledger : Ledger state) (huntouched : Untouched state)
    (h : ∀ state', result = .ok state' → Ledger state' ∧ Untouched state') :
    Ledger (rolledBack state result) ∧ Untouched (rolledBack state result) := by
  rcases result with error | state'
  · exact ⟨hledger, huntouched⟩
  · exact h state' rfl

theorem stepPaper_ledger (action : PaperAction) (hledger : Ledger state)
    (huntouched : Untouched state) :
    Ledger (stepPaper state action) ∧ Untouched (stepPaper state action) := by
  rcases action with ⟨accountKey, initialCash⟩ |
    ⟨observations, today, decisionId, quantity, acceptedAt, accountKey⟩ | tradingDate | decisions
  · exact rolledBack_ledger state _ hledger huntouched (fun state' hrun =>
      configure_ledger state state' accountKey initialCash hledger huntouched hrun)
  · refine rolledBack_ledger state _ hledger huntouched (fun state' hrun => ?_)
    rcases hanswer : acceptPaperDecision state observations today decisionId quantity acceptedAt
      accountKey with error | ⟨answer, after⟩
    · simp [hanswer, Except.map] at hrun
    · rw [hanswer] at hrun
      obtain rfl := Except.ok.inj hrun
      exact accept_ledger state observations today decisionId quantity acceptedAt accountKey answer
        after hledger huntouched hanswer
  · exact roll_ledger state tradingDate hledger huntouched
  · exact ⟨⟨hledger.cash, hledger.shares, hledger.filled⟩,
      ⟨huntouched.positions, huntouched.cash⟩⟩

theorem runPaper_ledger (actions : List PaperAction) :
    Ledger (runPaper actions) ∧ Untouched (runPaper actions) := by
  induction actions using List.reverseRecOn with
  | nil => exact empty_ledger
  | append_singleton actions action ih =>
      have hstep : runPaper (actions ++ [action]) = stepPaper (runPaper actions) action := by
        unfold runPaper
        rw [List.foldl_append]
        rfl
      rw [hstep]
      exact stepPaper_ledger _ action ih.1 ih.2

/-- **The paper ledger.** After any run the books are in balance, and an acceptance that is not
    filled changes no account and no position. -/
theorem paper_ledger (actions : List PaperAction) :
    Ledger (runPaper actions) ∧
      ∀ (observations : List (String × Quote)) (today : Date) (decisionId : String) (quantity : ℤ)
        (acceptedAt : Timestamp) (accountKey : String) (reasons tradability : List NonFillReason)
        (state' : PaperState),
        acceptPaperDecision (runPaper actions) observations today decisionId quantity acceptedAt
            accountKey = .ok (.nonFill reasons tradability, state') →
          state'.accounts = (runPaper actions).accounts ∧
            state'.positions = (runPaper actions).positions := by
  refine ⟨(runPaper_ledger actions).1, ?_⟩
  intro observations today decisionId quantity acceptedAt accountKey reasons tradability state' h
  rcases acceptPaperDecision_cases _ observations today decisionId quantity acceptedAt accountKey
    _ state' h with ⟨-, hsame⟩ | ⟨⟨_, _, _, hfilled⟩, -⟩
  · exact ⟨hsame.accounts, hsame.positions⟩
  · exact absurd hfilled (by simp)

/-- A buy of two lots, the roll to the next day, and a sell of one of them. -/
def buyThenSell : List PaperAction :=
  let proposed (direction : ℤ) : AList (fun _ : String => Decision) :=
    AList.singleton "d" { symbol := "600000.SH", direction := direction, status := .proposed }
  let quote (observedAt : Timestamp) (price : ℚ) : Quote :=
    { sourceName := "tencent_free", observedAt := observedAt, price := some price
      pctChange := some 1 }
  [.configure "default" 100000,
    .propose (proposed 1),
    .accept [("600000.SH", quote 0 10)] 0 "d" 250 1000000 "default",
    .roll 1,
    .propose (proposed (-1)),
    .accept [("600000.SH", quote 86400000000 11)] 1 "d" 100 86401000000 "default"]

example : heldQuantity (runPaper buyThenSell).positions "600000.SH" = 100 ∧
    (runPaper buyThenSell).fills.length = 2 := by decide +kernel

end TradingHarness
