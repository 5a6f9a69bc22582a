import TradingHarness.Paper.Execution

set_option autoImplicit false

/-! # What an acceptance answers

The gates of `accept_paper_decision`, each with what makes it fail. An answer is explained when a fill has no failed gate and a non-fill
names every one. The chain that looks at the quote subscripts the account in its last branch, so a buy at a fresh price raises when there is
no account; and the account's check constraint raises where the fees of a sale are more than it brings in and the account has. -/

namespace TradingHarness

/-! ## The gates -/

/-- What the gates look at. -/
structure GateInputs where
  ticket : Ticket
  quote : Option Quote
  sellable : ℤ
  account : Option Account
  acceptedAt : Timestamp
  today : Date

namespace GateInputs

variable (inputs : GateInputs)

def pricing : Pricing := priceTicket inputs.ticket inputs.quote

def flags : QuoteFlags := (inputs.quote.map (·.raw)).getD {}

def limits : LimitState := priceLimitState inputs.ticket.decision.symbol inputs.quote inputs.today

/-- There is a quote with a price. -/
def Priced : Prop := inputs.quote.isSome ∧ 0 < inputs.pricing.price

/-- The quote is older than a fill allows. -/
def Old : Prop := ∃ quote ∈ inputs.quote, maxFillQuoteAge < inputs.acceptedAt - quote.observedAt

/-- The price is one of the moment of acceptance. -/
def Fresh : Prop := inputs.Priced ∧ ¬inputs.Old

/-- A gate that fails, by its reason code. Cash is asked for at a fresh price alone. -/
def Fails : NonFillReason → Prop
  | .nonPositiveQuantity => inputs.ticket.requested ≤ 0
  | .suspended => inputs.flags.isSuspended = true
  | .tPlusOneOrInsufficientSellableQuantity => inputs.ticket.side = .sell ∧ inputs.sellable < inputs.ticket.requested
  | .limitUpNonFillRisk => inputs.ticket.side = .buy ∧ inputs.limits.atLimitUp = true ∧ inputs.flags.allowLimitFill = false
  | .limitDownNonFillRisk => inputs.ticket.side = .sell ∧ inputs.limits.atLimitDown = true ∧ inputs.flags.allowLimitFill = false
  | .paperAccountNotConfigured => inputs.account = none
  | .noUsableLocalQuote => ¬inputs.Priced
  | .localQuoteStale => inputs.Priced ∧ inputs.Old
  | .insufficientPaperCash => inputs.ticket.side = .buy ∧ inputs.Fresh ∧
      ∃ account ∈ inputs.account, account.cash < inputs.pricing.gross + inputs.pricing.fees

def tradability : List NonFillReason :=
  assessTradability inputs.ticket.side inputs.ticket.requested inputs.quote inputs.sellable inputs.ticket.decision.symbol inputs.today

theorem mem_tradability (reason : NonFillReason) :
    reason ∈ inputs.tradability ↔ inputs.Fails reason ∧
      reason ∈ [.nonPositiveQuantity, .suspended, .tPlusOneOrInsufficientSellableQuantity, .limitUpNonFillRisk, .limitDownNonFillRisk] := by
  unfold tradability assessTradability
  simp only [List.mem_append, List.mem_ite_nil_right, List.mem_singleton]
  cases reason <;> simp [Fails, flags, limits]

/-- The account's reason, then what the chain over the quote adds. -/
def further : Except PaperError (List NonFillReason) :=
  acceptanceReasons inputs.ticket inputs.pricing inputs.account inputs.acceptedAt

/-- A buy at a fresh price without an account. -/
def NoAccountToRead : Prop := inputs.ticket.side = .buy ∧ inputs.Fresh ∧ inputs.account = none

theorem mem_missingAccount (account : Option Account) (reason : NonFillReason) :
    reason ∈ missingAccount account ↔ account = none ∧ reason = .paperAccountNotConfigured := by
  cases account <;> simp [missingAccount]

theorem further_cases :
    (inputs.NoAccountToRead ∧ inputs.further = .error .typeError) ∨
      ¬inputs.NoAccountToRead ∧ ∃ reasons, inputs.further = .ok reasons ∧ ∀ reason, reason ∈ reasons ↔ inputs.Fails reason ∧
        reason ∈ [.paperAccountNotConfigured, .noUsableLocalQuote, .localQuoteStale, .insufficientPaperCash] := by
  obtain ⟨ticket, quote, sellable, account, acceptedAt, today⟩ := inputs
  rcases quote with _ | quote
  · -- no quote at all
    refine .inr ⟨?_, _, rfl, ?_⟩
    · rintro ⟨-, ⟨⟨hquote, -⟩, -⟩, -⟩
      exact absurd hquote (by simp)
    · intro reason
      rw [List.mem_append, mem_missingAccount]
      cases reason <;> simp [Fails, Priced, Fresh]
  have hfurther : further ⟨ticket, some quote, sellable, account, acceptedAt, today⟩ =
      acceptanceReasons ticket (priceTicket ticket (some quote)) account acceptedAt := rfl
  rw [hfurther]
  unfold acceptanceReasons
  simp only [show (priceTicket ticket (some quote)).quote = some quote from rfl]
  by_cases hprice : (priceTicket ticket (some quote)).price ≤ 0
  · rw [if_pos hprice]
    have hnone : ¬Priced ⟨ticket, some quote, sellable, account, acceptedAt, today⟩ := fun h => absurd h.2 (not_lt.mpr hprice)
    refine .inr ⟨fun h => hnone h.2.1.1, _, rfl, ?_⟩
    intro reason
    rw [List.mem_append, mem_missingAccount]
    cases reason <;> simp [Fails, Fresh, hnone]
  rw [if_neg hprice]
  have hpriced : Priced ⟨ticket, some quote, sellable, account, acceptedAt, today⟩ := ⟨rfl, not_le.mp hprice⟩
  by_cases hold : maxFillQuoteAge < acceptedAt - quote.observedAt
  · rw [if_pos hold]
    have hstale : Old ⟨ticket, some quote, sellable, account, acceptedAt, today⟩ := ⟨quote, rfl, hold⟩
    refine .inr ⟨fun h => h.2.1.2 hstale, _, rfl, ?_⟩
    intro reason
    rw [List.mem_append, mem_missingAccount]
    cases reason <;> simp [Fails, Fresh, hpriced, hstale]
  rw [if_neg hold]
  have hfresh : ¬Old ⟨ticket, some quote, sellable, account, acceptedAt, today⟩ := by
    rintro ⟨other, hother, hage⟩
    cases hother
    exact hold hage
  obtain ⟨decisionId, decision, side, requested⟩ := ticket
  cases side with
  | buy =>
      cases account with
      | none => exact .inl ⟨⟨rfl, ⟨hpriced, hfresh⟩, rfl⟩, rfl⟩
      | some account =>
          refine .inr ⟨fun h => absurd h.2.2 (by simp), _, rfl, ?_⟩
          intro reason
          rw [List.mem_ite_nil_right, List.mem_singleton]
          cases reason <;> simp [Fails, Fresh, hpriced, hfresh, pricing]
  | sell =>
      refine .inr ⟨fun h => absurd h.1 (by simp), _, rfl, ?_⟩
      intro reason
      rw [mem_missingAccount]
      cases reason <;> simp [Fails, Fresh, hpriced, hfresh]

theorem mem_reasons {reasons : List NonFillReason} (hreasons : ∀ reason, reason ∈ reasons ↔ inputs.Fails reason ∧
      reason ∈ [.paperAccountNotConfigured, .noUsableLocalQuote, .localQuoteStale, .insufficientPaperCash]) (reason : NonFillReason) :
    reason ∈ inputs.tradability ++ reasons ↔ inputs.Fails reason := by
  rw [List.mem_append, mem_tradability, hreasons]
  cases reason <;> simp

/-- A fill has no failed gate, and a non-fill has the reason codes of all that failed and no other. -/
def Explains : Acceptance → Prop
  | .filled _ _ _ => ∀ reason, ¬inputs.Fails reason
  | .nonFill reasons _ => (∃ reason, inputs.Fails reason) ∧ ∀ reason, reason ∈ reasons ↔ inputs.Fails reason

/-- A sale that every gate allows costs more than it brings in and the account has. -/
def FeesUncovered : Prop :=
  inputs.ticket.side = .sell ∧ (∀ reason, ¬inputs.Fails reason) ∧
    ∃ account ∈ inputs.account, account.cash + (inputs.pricing.gross - inputs.pricing.fees) < 0

end GateInputs

/-! ## Settling a fill -/

theorem updateCash_isOk_iff {accounts : AList (fun _ : String => Account)} {accountKey : String} {account : Account} {delta : ℚ}
    (haccount : accounts.lookup accountKey = some account) :
    (∃ updated, updateCash accounts accountKey delta = .ok updated) ↔ 0 ≤ account.cash + delta := by
  unfold updateCash
  simp only [haccount]
  by_cases hcash : account.cash + delta < 0
  · rw [if_pos hcash]
    simp [hcash]
  · rw [if_neg hcash]
    simp [not_lt.mp hcash]

variable (state : PaperState) (observations : List (String × Quote)) (today : Date) (decisionId : String)
  (decision : Decision) (quantity : ℤ) (acceptedAt : Timestamp)

/-- A bought fill is paid by the account, and a sold one is held: only the fees of a sale can be too much. -/
theorem settleFill_isOk_iff {ticket : Ticket} (pricing : Pricing) {accountKey : String} {account : Account}
    (acceptedAt : Timestamp) (haccount : state.accounts.lookup accountKey = some account) (hrequested : 0 < ticket.requested)
    (hcash : ticket.side = .buy → pricing.gross + pricing.fees ≤ account.cash)
    (hheld : ticket.side = .sell → ticket.requested ≤ ((state.positions.lookup ticket.decision.symbol).map (·.sellableQuantity)).getD 0) :
    (∃ settled, settleFill state ticket pricing accountKey acceptedAt = .ok settled) ↔
      ¬(ticket.side = .sell ∧ account.cash + (pricing.gross - pricing.fees) < 0) := by
  unfold settleFill
  rcases hside : ticket.side with _ | _
  · have hpaid : 0 ≤ account.cash + -(pricing.gross + pricing.fees) := by linarith [hcash hside]
    obtain ⟨updated, hupdated⟩ := (updateCash_isOk_iff haccount).mpr hpaid
    simp only [hupdated, bind, Except.bind, pure, Except.pure]
    simp
  · rcases hposition : state.positions.lookup ticket.decision.symbol with _ | position
    · -- nothing held covers no lot
      have hzero := hheld hside
      rw [hposition, Option.map_none, Option.getD_none] at hzero
      omega
    · have henough := hheld hside
      rw [hposition, Option.map_some, Option.getD_some] at henough
      simp only [hposition, if_neg (not_lt.mpr henough), true_and, not_lt]
      rw [← updateCash_isOk_iff haccount]
      rcases updateCash state.accounts accountKey (pricing.gross - pricing.fees) with error | updated
      · simp [bind, Except.bind]
      · simp [bind, Except.bind, pure, Except.pure]

/-! ## The answer -/

/-- The ticket of a proposed decision with a side. -/
def ticketOf : Ticket where
  decisionId := decisionId
  decision := decision
  side := if 0 < decision.direction then .buy else .sell
  requested := roundBoardLot quantity

theorem roundBoardLot_pos {quantity : ℤ} (h : lotSize ≤ quantity) : 0 < roundBoardLot quantity := by
  unfold roundBoardLot lotSize at *
  have hdiv : quantity.tdiv 100 = quantity / 100 := Int.tdiv_eq_ediv_of_nonneg (by omega)
  rw [hdiv]
  omega

theorem openTicket_eq {state : PaperState} {decisionId : String} {decision : Decision} {quantity : ℤ}
    (hdecision : state.decisions.lookup decisionId = some decision) (hproposed : decision.status = .proposed)
    (hdirection : decision.direction ≠ 0) (hquantity : lotSize ≤ quantity) :
    openTicket state decisionId quantity = .ok (ticketOf decisionId decision quantity) := by
  have hlots := not_le.mpr (roundBoardLot_pos hquantity)
  unfold openTicket
  simp only [hdecision, hproposed, ne_eq, not_true_eq_false, if_false]
  by_cases hbuy : 0 < decision.direction
  · simp only [sideOf, if_pos hbuy, if_neg hlots, ticketOf]
  · have hsell : decision.direction < 0 := lt_of_le_of_ne (not_lt.mp hbuy) hdirection
    simp only [sideOf, if_neg hbuy, if_pos hsell, if_neg hlots, ticketOf]

/-- What the gates of a call look at. -/
def gateInputs (accountKey : String) : GateInputs where
  ticket := ticketOf decisionId decision quantity
  quote := latestLocalQuote observations decision.symbol acceptedAt
  sellable := ((state.positions.lookup decision.symbol).map (·.sellableQuantity)).getD 0
  account := state.accounts.lookup accountKey
  acceptedAt := acceptedAt
  today := today

/-- **An acceptance answers with every failed gate, but for a buy at a fresh price without an account**, and for a sale whose fees
nothing covers: these raise. -/
theorem acceptPaperDecision_explains_iff (state : PaperState) (observations : List (String × Quote)) (today : Date) (decisionId : String)
    (decision : Decision) (quantity : ℤ) (acceptedAt : Timestamp) (accountKey : String)
    (hdecision : state.decisions.lookup decisionId = some decision) (hproposed : decision.status = .proposed)
    (hdirection : decision.direction ≠ 0) (hquantity : lotSize ≤ quantity) :
    (∃ answer state', acceptPaperDecision state observations today decisionId quantity acceptedAt accountKey = .ok (answer, state') ∧
        (gateInputs state observations today decisionId decision quantity acceptedAt accountKey).Explains answer) ↔
      ¬(gateInputs state observations today decisionId decision quantity acceptedAt accountKey).NoAccountToRead ∧
        ¬(gateInputs state observations today decisionId decision quantity acceptedAt accountKey).FeesUncovered := by
  generalize hinputs : gateInputs state observations today decisionId decision quantity acceptedAt accountKey = inputs
  have hopen := openTicket_eq hdecision hproposed hdirection hquantity
  have hrequested : 0 < inputs.ticket.requested := hinputs ▸ roundBoardLot_pos hquantity
  have haccounts : state.accounts.lookup accountKey = inputs.account := hinputs ▸ rfl
  have hsellable : ((state.positions.lookup inputs.ticket.decision.symbol).map (·.sellableQuantity)).getD 0 = inputs.sellable :=
    hinputs ▸ rfl
  have haccept : acceptPaperDecision state observations today decisionId quantity acceptedAt accountKey =
      (do
        let further ← inputs.further
        let reasons := inputs.tradability ++ further
        let order := orderOf inputs.ticket inputs.pricing reasons acceptedAt
        inputs.quote.elim (return (.nonFill reasons inputs.tradability, recordOrder state inputs.ticket order .blocked)) fun observed =>
          if reasons ≠ [] then
            return (.nonFill reasons inputs.tradability, recordOrder state inputs.ticket order .blocked)
          else do
            let settled ← settleFill { state with
              fills := state.fills ++ [fillOf inputs.ticket inputs.pricing observed acceptedAt] }
              inputs.ticket inputs.pricing accountKey acceptedAt
            return (.filled inputs.ticket.requested inputs.pricing.price inputs.pricing.fees,
              recordOrder settled inputs.ticket order .accepted)) := by
    subst hinputs
    unfold acceptPaperDecision
    rw [hopen]
    show ((gateInputs state observations today decisionId decision quantity acceptedAt accountKey).further >>= _) = _
    refine bind_congr fun further => ?_
    simp only [gateInputs, ticketOf]
    rcases Option.eq_none_or_eq_some (latestLocalQuote observations decision.symbol acceptedAt) with hquote | ⟨observed, hquote⟩
    · simp only [hquote]
      rfl
    · simp only [hquote]
      rfl
  rw [haccept]
  rcases inputs.further_cases with ⟨hread, hfurther⟩ | ⟨hread, reasons, hfurther, hreasons⟩
  · simp [hfurther, hread, bind, Except.bind]
  have hmem := inputs.mem_reasons hreasons
  simp only [hfurther, hread, not_false_eq_true, true_and, bind, Except.bind, pure, Except.pure]
  by_cases hclear : ∀ reason, ¬inputs.Fails reason
  · have hnil : inputs.tradability ++ reasons = [] := List.eq_nil_iff_forall_not_mem.mpr fun reason h => hclear reason ((hmem reason).mp h)
    have hpriced : inputs.Priced := not_not.mp (hclear .noUsableLocalQuote)
    obtain ⟨observed, hquote⟩ := Option.isSome_iff_exists.mp hpriced.1
    obtain ⟨account, haccount⟩ := Option.ne_none_iff_exists'.mp (hclear .paperAccountNotConfigured)
    have hsettle := settleFill_isOk_iff { state with
        fills := state.fills ++ [fillOf inputs.ticket inputs.pricing observed acceptedAt] }
      inputs.pricing acceptedAt (haccounts.trans haccount) hrequested
      (fun hside => not_lt.mp fun hless => hclear .insufficientPaperCash
        ⟨hside, ⟨hpriced, fun hold => hclear .localQuoteStale ⟨hpriced, hold⟩⟩, account, haccount, hless⟩)
      (fun hside => not_lt.mp fun hless => hclear .tPlusOneOrInsufficientSellableQuantity ⟨hside, hsellable ▸ hless⟩)
    have huncovered : inputs.FeesUncovered ↔
        inputs.ticket.side = .sell ∧ account.cash + (inputs.pricing.gross - inputs.pricing.fees) < 0 := by
      constructor
      · rintro ⟨hside, -, other, hother, hless⟩
        have heq : account = other := Option.some.inj (haccount.symm.trans hother)
        exact ⟨hside, heq ▸ hless⟩
      · rintro ⟨hside, hless⟩
        exact ⟨hside, hclear, account, haccount, hless⟩
    rw [huncovered, ← hsettle]
    simp only [hquote, hnil, ne_eq, not_true_eq_false, if_false, Option.elim_some]
    constructor
    · rintro ⟨answer, state', hanswer, -⟩
      split at hanswer
      · exact absurd hanswer (by simp)
      · next settled hsettled => exact ⟨settled, hsettled⟩
    · rintro ⟨settled, hsettled⟩
      simp only [hsettled]
      exact ⟨_, _, rfl, hclear⟩
  · -- some gate fails: the order is a non-fill with its reason
    obtain ⟨failed, hfailed⟩ := not_forall_not.mp hclear
    have hne : inputs.tradability ++ reasons ≠ [] := List.ne_nil_of_mem ((hmem failed).mpr hfailed)
    have hcovered : ¬inputs.FeesUncovered := fun h => hclear h.2.1
    simp only [hcovered, not_false_eq_true, iff_true]
    rcases inputs.quote with _ | observed
    · exact ⟨_, _, rfl, ⟨failed, hfailed⟩, hmem⟩
    · simp only [Option.elim_some, if_pos hne]
      exact ⟨_, _, rfl, ⟨failed, hfailed⟩, hmem⟩

/-- A proposed buy, with the accounts that there are. -/
def proposedBuy (accounts : AList (fun _ : String => Account)) : PaperState where
  accounts := accounts
  positions := ∅
  decisions := (∅ : AList (fun _ : String => Decision)).insert "d1" { symbol := "600000.SH", direction := 1, status := .proposed }
  orders := []
  fills := []

/-- A quote of ten, twenty seconds before the acceptance. -/
def freshTen : List (String × Quote) :=
  [("600000.SH", { sourceName := "tencent_free", observedAt := 0, price := some 10, pctChange := some 1 })]

theorem acceptPaperDecision_explains_iff_funded :
    ∃ answer state', acceptPaperDecision (proposedBuy ((∅ : AList (fun _ : String => Account)).insert "default"
        { initialCash := 1000000, cash := 1000000 })) freshTen 20721 "d1" 100 20000000 "default" = .ok (answer, state') ∧
      (gateInputs (proposedBuy ((∅ : AList (fun _ : String => Account)).insert "default" { initialCash := 1000000, cash := 1000000 }))
        freshTen 20721 "d1" { symbol := "600000.SH", direction := 1, status := .proposed } 100 20000000 "default").Explains answer := by
  refine (acceptPaperDecision_explains_iff _ freshTen 20721 "d1" { symbol := "600000.SH", direction := 1, status := .proposed } 100
    20000000 "default" rfl rfl (by decide) (by decide)).mpr ⟨?_, ?_⟩
  · rintro ⟨-, -, haccount⟩
    exact absurd haccount (by decide)
  · rintro ⟨hside, -⟩
    exact absurd hside (by decide)

/-- **A buy at a fresh price raises when no account is configured.** -/
theorem buy_without_account_raises :
    (proposedBuy ∅).decisions.lookup "d1" = some { symbol := "600000.SH", direction := 1, status := .proposed } ∧
      acceptPaperDecision (proposedBuy ∅) freshTen 20721 "d1" 100 20000000 "default" = .error .typeError := by
  refine ⟨rfl, ?_⟩
  rfl

end TradingHarness
