import TradingHarness.Library.Tables
import TradingHarness.Market.Reality

set_option autoImplicit false

/-! # Paper execution

`configure_paper_account`, `accept_paper_decision` and `roll_paper_positions_sellable`
(`paper_execution_service.py`) on the tables they read and write. A call runs in one transaction: an
exception leaves the tables as they were, so a function returns in `Except` and what was written
before it raised is lost. Amounts are exact rationals. -/

namespace TradingHarness

/-! ## The tables -/

/-- A row of `quant.paper_accounts`. -/
structure Account where
  initialCash : ℚ
  cash : ℚ

/-- A row of `quant.paper_positions`. -/
structure Position where
  quantity : ℤ
  sellableQuantity : ℤ
  averageCost : ℚ
  buyDate : Option Date
  realizedPnl : ℚ

inductive DecisionStatus
  | proposed
  | blocked
  | accepted
  | expired
  | cancelled
  deriving DecidableEq

/-- A row of `quant.paper_decisions`. -/
structure Decision where
  symbol : String
  direction : ℤ
  status : DecisionStatus

inductive OrderStatus
  | filled
  | nonFill

/-- A row of `quant.paper_orders`. -/
structure PaperOrder where
  decisionId : String
  symbol : String
  side : Side
  requestedQuantity : ℤ
  acceptedQuantity : ℤ
  filledQuantity : ℤ
  limitPrice : Option ℚ
  averageFillPrice : Option ℚ
  status : OrderStatus
  fees : ℚ
  slippage : ℚ
  submittedAt : Timestamp
  filledAt : Option Timestamp
  reasonCodes : List NonFillReason
  quoteSource : Option String

/-- A row of `quant.paper_order_fills`. -/
structure PaperFill where
  decisionId : String
  symbol : String
  side : Side
  quantity : ℤ
  price : ℚ
  fees : ℚ
  slippage : ℚ
  filledAt : Timestamp
  sourceName : String
  quoteObservedAt : Timestamp

structure PaperState where
  accounts : AList (fun _ : String => Account)
  positions : AList (fun _ : String => Position)
  decisions : AList (fun _ : String => Decision)
  orders : List PaperOrder
  fills : List PaperFill

/-- The exceptions, with the text of a `ValueError`. -/
inductive PaperError
  | valueError (message : String)
  | typeError
  | runtimeError
  | checkViolation

/-! ## Accounts and the T+1 roll -/

variable (state : PaperState) (observations : List (String × Quote)) (today : Date) (decisionId : String)
  (quantity : ℤ) (acceptedAt : Timestamp) (accountKey : String)

/-- `configure_paper_account`: a new account, or a new start of one while nothing was ever filled. -/
def configurePaperAccount (initialCash : ℚ) :
    Except PaperError PaperState :=
  if initialCash < 0 then .error (.valueError "initial_cash must be non-negative")
  else if (state.accounts.lookup accountKey).isSome ∧ state.fills ≠ [] then
    .error (.valueError "paper account has filled activity; cash reset is blocked")
  else .ok { state with
    accounts := state.accounts.insert accountKey { initialCash := initialCash, cash := initialCash } }

/-- The row of a position bought before the trading date. -/
def rollPosition (tradingDate : Date) (position : Position) : Position :=
  if position.sellableQuantity < position.quantity ∧
      position.buyDate.any (fun buyDate => decide (buyDate < tradingDate)) then
    { position with sellableQuantity := position.quantity }
  else position

def rollPaperPositionsSellable (tradingDate : Date) : PaperState :=
  { state with positions := Tables.mapValues (rollPosition tradingDate) state.positions }

/-! ## Quotes -/

/-- `MAX_FILL_QUOTE_AGE_SECONDS`, in microseconds. -/
def maxFillQuoteAge : ℤ := 300 * 1000000

/-- The sources a fill may be priced from. -/
def fillSources : List String := ["tencent_free", "tushare_super_get_rt_k"]

/-- `_latest_local_quote`: the newest observation of the symbol that existed by the given moment. -/
def latestLocalQuote (symbol : String)
    (atOrBefore : Timestamp) : Option Quote :=
  ((observations.filter (fun observation => decide (observation.1 = symbol ∧
    observation.2.observedAt ≤ atOrBefore ∧ observation.2.sourceName ∈ fillSources))).map
      Prod.snd).maxOn? (·.observedAt)

/-- `(moment AT TIME ZONE 'Asia/Shanghai')::date`. -/
def shanghaiDate (moment : Timestamp) : Date :=
  (moment + 8 * 3600 * 1000000) / (24 * 3600 * 1000000)

/-! ## Accepting a decision -/

/-- A proposed decision with its side and the whole lots asked for. -/
structure Ticket where
  decisionId : String
  decision : Decision
  side : Side
  requested : ℤ

def sideOf (direction : ℤ) : Option Side :=
  if 0 < direction then some .buy else if direction < 0 then some .sell else none

/-- The checks `accept_paper_decision` raises on. -/
def openTicket :
    Except PaperError Ticket :=
  match state.decisions.lookup decisionId with
  | none => .error (.valueError "paper decision was not found")
  | some decision =>
    if decision.status ≠ .proposed then
      .error (.valueError "only proposed paper decisions may be accepted")
    else
      match sideOf decision.direction with
      | none => .error (.valueError "watch decisions have no executable paper side")
      | some side =>
        if roundBoardLot quantity ≤ 0 then
          .error (.valueError "quantity must contain at least one A-share board lot")
        else .ok
          { decisionId := decisionId, decision := decision, side := side
            requested := roundBoardLot quantity }

/-- What the ticket would trade at. -/
structure Pricing where
  quote : Option Quote
  price : ℚ
  gross : ℚ
  fees : ℚ
  slippage : ℚ

variable (ticket : Ticket) (pricing : Pricing) (reasons : List NonFillReason)

def priceTicket (quote : Option Quote) : Pricing :=
  let price := (quote.bind (·.price)).getD 0
  let cost := estimateCost ticket.side ticket.requested price
  { quote := quote
    price := price
    gross := price * ticket.requested
    fees := if 0 < price then cost.totalCost else 0
    slippage := if 0 < price then cost.slippage else 0 }

def missingAccount : Option Account → List NonFillReason
  | none => [.paperAccountNotConfigured]
  | some _ => []

/-- The reasons beside the tradability gate. A buy on a usable quote subscripts the account, also when
    there is none. -/
def acceptanceReasons (account : Option Account)
    (acceptedAt : Timestamp) : Except PaperError (List NonFillReason) :=
  match pricing.quote with
  | none => .ok (missingAccount account ++ [.noUsableLocalQuote])
  | some quote =>
    if pricing.price ≤ 0 then .ok (missingAccount account ++ [.noUsableLocalQuote])
    else if maxFillQuoteAge < acceptedAt - quote.observedAt then
      .ok (missingAccount account ++ [.localQuoteStale])
    else
      match ticket.side, account with
      | .sell, _ => .ok (missingAccount account)
      | .buy, none => .error .typeError
      | .buy, some account =>
        .ok (if account.cash < pricing.gross + pricing.fees then [.insufficientPaperCash] else [])

/-- The order row of an acceptance. -/
def orderOf (acceptedAt : Timestamp) : PaperOrder where
  decisionId := ticket.decisionId
  symbol := ticket.decision.symbol
  side := ticket.side
  requestedQuantity := ticket.requested
  acceptedQuantity := if reasons = [] then ticket.requested else 0
  filledQuantity := if reasons = [] then ticket.requested else 0
  limitPrice := if 0 < pricing.price then some pricing.price else none
  averageFillPrice := if reasons = [] then some pricing.price else none
  status := if reasons = [] then .filled else .nonFill
  fees := if reasons = [] then pricing.fees else 0
  slippage := pricing.slippage
  submittedAt := acceptedAt
  filledAt := if reasons = [] then some acceptedAt else none
  reasonCodes := reasons
  quoteSource := pricing.quote.map (·.sourceName)

def fillOf (quote : Quote) (acceptedAt : Timestamp) :
    PaperFill where
  decisionId := ticket.decisionId
  symbol := ticket.decision.symbol
  side := ticket.side
  quantity := ticket.requested
  price := pricing.price
  fees := pricing.fees
  slippage := pricing.slippage
  filledAt := acceptedAt
  sourceName := quote.sourceName
  quoteObservedAt := quote.observedAt

/-- The order is inserted and the decision closed, in every acceptance. -/
def recordOrder (ticket : Ticket) (order : PaperOrder)
    (status : DecisionStatus) : PaperState :=
  { state with
    orders := state.orders ++ [order]
    decisions := state.decisions.insert ticket.decisionId { ticket.decision with status := status } }

/-- `UPDATE quant.paper_accounts SET cash=cash+delta`, under `CHECK (cash >= 0)`. -/
def updateCash (accounts : AList (fun _ : String => Account)) (accountKey : String) (delta : ℚ) :
    Except PaperError (AList (fun _ : String => Account)) :=
  match accounts.lookup accountKey with
  | none => .ok accounts
  | some account =>
    if account.cash + delta < 0 then .error .checkViolation
    else .ok (accounts.insert accountKey { account with cash := account.cash + delta })

/-- The position after a buy: fees are part of the average cost, and what is bought today is not
    sellable yet. A new row starts without sellable shares and without profit. -/
def boughtPosition (position : Option Position) (requested : ℤ) (gross fees : ℚ) (buyDate : Date) :
    Position :=
  let oldQuantity := (position.map (·.quantity)).getD 0
  let oldCost := (position.map (·.averageCost)).getD 0
  let totalQuantity := oldQuantity + requested
  { quantity := totalQuantity
    sellableQuantity := (position.map (·.sellableQuantity)).getD 0
    averageCost := (oldQuantity * oldCost + gross + fees) / totalQuantity
    buyDate := some buyDate
    realizedPnl := (position.map (·.realizedPnl)).getD 0 }

/-- The position after a sell: fees are charged to the realised profit. -/
def soldPosition (position : Position) (requested : ℤ) (price fees : ℚ) : Position :=
  { position with
    quantity := position.quantity - requested
    sellableQuantity := position.sellableQuantity - requested
    realizedPnl := position.realizedPnl + ((price - position.averageCost) * requested - fees) }

/-- The positions and the cash after a fill. -/
def settleFill (ticket : Ticket) (pricing : Pricing) (accountKey : String)
    (acceptedAt : Timestamp) : Except PaperError PaperState :=
  let symbol := ticket.decision.symbol
  let position := state.positions.lookup symbol
  match ticket.side with
  | .buy => do
      let bought := boughtPosition position ticket.requested pricing.gross pricing.fees
        (shanghaiDate acceptedAt)
      let accounts ← updateCash state.accounts accountKey (-(pricing.gross + pricing.fees))
      return { state with positions := state.positions.insert symbol bought, accounts := accounts }
  | .sell =>
      match position with
      | none => .error .runtimeError
      | some position =>
        if position.sellableQuantity < ticket.requested then .error .runtimeError
        else do
          let sold := soldPosition position ticket.requested pricing.price pricing.fees
          let accounts ← updateCash state.accounts accountKey (pricing.gross - pricing.fees)
          return { state with positions := state.positions.insert symbol sold, accounts := accounts }

/-- What `accept_paper_decision` answers. -/
inductive Acceptance
  | nonFill (reasons tradability : List NonFillReason)
  | filled (quantity : ℤ) (price fees : ℚ)

/-- `accept_paper_decision`: accept once, and fill only against a quote that existed by then. -/
def acceptPaperDecision :
    Except PaperError (Acceptance × PaperState) := do
  let ticket ← openTicket state decisionId quantity
  let symbol := ticket.decision.symbol
  let quote := latestLocalQuote observations symbol acceptedAt
  let sellable := ((state.positions.lookup symbol).map (·.sellableQuantity)).getD 0
  let tradability := assessTradability ticket.side ticket.requested quote sellable symbol today
  let pricing := priceTicket ticket quote
  let further ← acceptanceReasons ticket pricing (state.accounts.lookup accountKey) acceptedAt
  let reasons := tradability ++ further
  let order := orderOf ticket pricing reasons acceptedAt
  match quote with
  | none => return (.nonFill reasons tradability, recordOrder state ticket order .blocked)
  | some observed =>
    if reasons ≠ [] then
      return (.nonFill reasons tradability, recordOrder state ticket order .blocked)
    else do
      let settled ← settleFill { state with
        fills := state.fills ++ [fillOf ticket pricing observed acceptedAt] }
        ticket pricing accountKey acceptedAt
      return (.filled ticket.requested pricing.price pricing.fees,
        recordOrder settled ticket order .accepted)

end TradingHarness
