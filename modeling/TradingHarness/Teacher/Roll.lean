import TradingHarness.Teacher.Lifecycle
import TradingHarness.Library.Keyed
import TradingHarness.Library.Rounding
import Mathlib.Data.List.Sort

set_option autoImplicit false

/-! # The post-close roll

`teacher_review_service.roll` with `settle_pack` and `build_session_plans`, and the writes of
`teacher_review_repository`: the watch rows, and the stored settlements. -/

namespace TradingHarness.Teacher

/-! ## Packs -/

structure Stock where
  code : Code
  name : String
  stance : Stance
  playbook : Playbook
  params : Params
  validSessions : ℕ
deriving DecidableEq

structure Pack where
  packId : String
  reviewDate : Date
  stocks : List Stock
  supersedes : List String
deriving DecidableEq

/-- A stored pack. -/
structure Record where
  pack : Pack
  availableAt : Timestamp
deriving DecidableEq

/-- What `validate_pack` asks of the stocks. -/
structure Pack.Valid (pack : Pack) : Prop where
  sixDigits : ∀ stock ∈ pack.stocks, stock.code.length = 6
  window : ∀ stock ∈ pack.stocks, 1 ≤ stock.validSessions
  nodup : (pack.stocks.map Stock.code).Nodup

/-- Packs on file: valid, and one to an id since `import_pack` refuses an id it has. -/
structure PacksValid (packs : List Record) : Prop where
  valid : ∀ record ∈ packs, record.pack.Valid
  nodup : (packs.map (fun record => record.pack.packId)).Nodup

/-! ## Evidence -/

/-- What `plan_bars` has of a symbol, repaired where the data plane could. -/
structure StoredBars (β : Type) where
  isOk : Bool
  tradingDate : Option Date
  bars : List β

/-- A signal event of the session with its `teacher_review` condition. -/
structure Event where
  symbol : Symbol
  packId : String
  signalKey : String
  signalType : String
  state : String
  observedAt : Timestamp
  price : Option ℚ
  path : Option String

/-- What a roll reads beside the packs and the watch rows: the calendar, the session's bars and events, the bars a plan
    is frozen from with what `plan_stock` makes of them, and the settings. -/
structure Evidence (β : Type) where
  calendar : List Date
  sessionBar : Symbol → Option SessionBar
  firstLimitUp : Symbol → Option Timestamp
  xiaojieModes : Code → List String
  events : List Event
  planBars : Symbol → StoredBars β
  planStock : Stock → List β → Extra
  maxSymbols : ℕ
  reserve : ℕ
  lookbackDays : ℕ

/-- 09:15 in Shanghai, `_open_at`. -/
def openAt (session : Date) : Timestamp := (session * 86400 + 4500) * 1000000

/-- `open_sessions` with a count of one. -/
def nextSession (calendar : List Date) (after : Date) : Option Date :=
  (calendar.filter (fun day => decide (after < day))).head?

def sessionsBetween (calendar : List Date) (after through : Date) : List Date :=
  calendar.filter (fun day => decide (after < day) && decide (day ≤ through))

/-- `_eligible_session`, its index. -/
def eligibleIndex (sessions : List Date) (availableAt : Timestamp) : Option ℕ :=
  (sessions.findIdx? (fun session => decide (availableAt < openAt session))).map (· + 1)

/-! ## Watch rows -/

/-- A row of `intraday_watchlists`: whether its source is the teacher review, and its plan. -/
structure WatchRow where
  symbol : Symbol
  enabled : Bool
  ours : Bool
  plan : Option Plan

/-- A plan for the next session with its admission priority. -/
structure SessionPlan where
  symbol : Symbol
  priority : ℕ × ℕ × ℕ
  plan : Plan

/-- `_live_plans` -/
def livePlan (rows : List WatchRow) (symbol : Symbol) : Option Plan :=
  (Keyed.find WatchRow.symbol symbol rows).bind WatchRow.plan

/-- The outcome lists of `apply_session_plans`. -/
structure Applied where
  admitted : List Symbol
  merged : List Symbol
  overflow : List Symbol
  skipped : List Symbol
deriving DecidableEq

structure ApplyState where
  rows : List WatchRow
  headroom : ℕ
  applied : Applied

/-- The row of a symbol with the plan merged into it. -/
def mergePlan (plan : Plan) (row : WatchRow) : WatchRow :=
  { row with plan := some plan, enabled := row.enabled || row.ours }

def applyPlan (state : ApplyState) (plan : SessionPlan) : ApplyState :=
  match Keyed.find WatchRow.symbol plan.symbol state.rows with
  | some existing =>
      if !existing.enabled && !existing.ours then
        { state with applied := { state.applied with skipped := state.applied.skipped ++ [plan.symbol] } }
      else if !existing.enabled && decide (state.headroom = 0) then
        { state with applied := { state.applied with overflow := state.applied.overflow ++ [plan.symbol] } }
      else
        { rows := Keyed.update WatchRow.symbol plan.symbol (mergePlan plan.plan) state.rows
          headroom := if existing.enabled then state.headroom else state.headroom - 1
          applied := { state.applied with merged := state.applied.merged ++ [plan.symbol] } }
  | none =>
      if state.headroom = 0 then
        { state with applied := { state.applied with overflow := state.applied.overflow ++ [plan.symbol] } }
      else
        { rows := state.rows ++ [⟨plan.symbol, true, true, some plan.plan⟩]
          headroom := state.headroom - 1
          applied := { state.applied with admitted := state.applied.admitted ++ [plan.symbol] } }

/-- `max(0, max_symbols - reserve - enabled)` -/
def headroom (maxSymbols reserve : ℕ) (rows : List WatchRow) : ℕ := maxSymbols - reserve - rows.countP WatchRow.enabled

def applySessionPlans (maxSymbols reserve : ℕ) (plans : List SessionPlan) (rows : List WatchRow) : ApplyState :=
  plans.foldl applyPlan ⟨rows, headroom maxSymbols reserve rows, ⟨[], [], [], []⟩⟩

/-- What `retire_plans` makes of a row that it does not keep. -/
def retireRow (retiredAt : Timestamp) (row : WatchRow) : WatchRow :=
  match row.plan with
  | none => row
  | some plan =>
      if row.ours then { row with enabled := false, plan := some { plan with status := .expired, expiredAt := some retiredAt } }
      else { row with plan := none }

def retirePlans (keep : List Symbol) (retiredAt : Timestamp) (rows : List WatchRow) : List WatchRow :=
  rows.map (fun row => if keep.contains row.symbol then row else retireRow retiredAt row)

/-! ## Building plans -/

/-- A stock to plan, with the lifecycle record it carries. -/
structure CarryStock where
  stock : Stock
  lifecycle : Option Lifecycle

def Stance.rank : Stance → ℕ
  | .positive => 0
  | .watch => 1
  | .unknown => 2
  | .negative => 3

/-- `_complete` -/
def isComplete {β : Type} (entry : StoredBars β) (previousSession : Date) : Bool :=
  entry.isOk && decide (entry.tradingDate = some previousSession) && decide (20 ≤ entry.bars.length)

section Building

variable {β : Type} (evidence : Evidence β)

/-- The lifecycle record of a plan for a session. -/
def lifecycleOf (item : CarryStock) (session : Date) : Lifecycle := item.lifecycle.getD { state := .new, since := session }

/-- The metadata of one stock's plan, unless its bars do not reach the previous session. -/
def buildPlan (packId : String) (reviewDate session : Date) (sessionIndex : ℕ) (previousSession : Date) (item : CarryStock) :
    Option Plan :=
  if item.stock.playbook.kind = .record ∨ item.stock.validSessions < sessionIndex then none
  else if isComplete (evidence.planBars (tsCode item.stock.code)) previousSession then
    some
      { status := (lifecycleOf item session).state.status
        lifecycle := lifecycleOf item session
        packId := packId
        reviewDate := reviewDate
        sessionDate := session
        sessionIndex := sessionIndex
        validSessions := item.stock.validSessions
        code := item.stock.code
        name := item.stock.name
        stance := item.stock.stance
        playbook := item.stock.playbook
        params := item.stock.params
        extra := evidence.planStock item.stock (evidence.planBars (tsCode item.stock.code)).bars }
  else none

/-- `_priority`; observed names give way first. -/
def priorityOf (item : CarryStock) (order : ℕ) : ℕ × ℕ × ℕ :=
  (if item.lifecycle.any (fun lifecycle => decide (lifecycle.state = .observe)) then 2
    else if item.stock.playbook.kind = .relay then 0 else 1, item.stock.stance.rank, order)

def priorityLe (plan other : SessionPlan) : Bool :=
  decide (plan.priority.1 < other.priority.1) || (decide (plan.priority.1 = other.priority.1) &&
    (decide (plan.priority.2.1 < other.priority.2.1) || (decide (plan.priority.2.1 = other.priority.2.1) &&
      decide (plan.priority.2.2 ≤ other.priority.2.2))))

def sortPlans (plans : List SessionPlan) : List SessionPlan := plans.insertionSort (fun plan other => priorityLe plan other = true)

def buildSessionPlans (packId : String) (reviewDate session : Date) (sessionIndex : ℕ) (previousSession : Date)
    (items : List CarryStock) : List SessionPlan :=
  sortPlans (items.zipIdx.filterMap (fun entry =>
    (buildPlan evidence packId reviewDate session sessionIndex previousSession entry.1).map (fun plan =>
      ⟨tsCode entry.1.stock.code, priorityOf entry.1 entry.2, plan⟩)))

/-- The stocks whose plan `build_session_plans` reports as a failure. -/
def planFailures (sessionIndex : ℕ) (previousSession : Date) (items : List CarryStock) : List Code :=
  (items.filter (fun item => decide (item.stock.playbook.kind ≠ .record) && decide (sessionIndex ≤ item.stock.validSessions) &&
    !isComplete (evidence.planBars (tsCode item.stock.code)) previousSession)).map (fun item => item.stock.code)

/-- `round(float(high), 3)` -/
def roundThousandths (x : ℚ) : ℚ := (Rounding.halfEven (x * 1000) : ℚ) / 1000

def continuationStock (stock : Stock) (bar : SessionBar) : Stock :=
  { stock with
    stance := .positive
    playbook := .trendContinuation
    params := ⟨some (roundThousandths bar.high), none, some 5, some 10⟩ }

/-! ## Settling a pack -/

/-- `"teacher_review_invalid" in signal_key` -/
def isInvalidation (signalKey : String) : Bool :=
  signalKey.toList.tails.any (fun rest => "teacher_review_invalid".toList.isPrefixOf rest)

/-- `DELIVERED_STATES` -/
def isDelivered (event : Event) : Bool := event.state == "confirmed" || event.state == "alerted"

/-- The settlement row of a stock. -/
def settleStock (packId : String) (stock : Stock) : Fact :=
  let bar := evidence.sessionBar (tsCode stock.code)
  let stockEvents := evidence.events.filter (fun event => event.packId == packId && event.symbol.take 6 == stock.code)
  let delivered := stockEvents.filter isDelivered
  let entry := delivered.find? (fun event => event.signalType == "entry")
  let limit := bar.bind SessionBar.limitUpPrice
  { code := stock.code
    name := stock.name
    playbook := stock.playbook
    stance := stock.stance
    bar := bar
    closedAtLimit := bar.bind (fun bar => limit.map (fun limit => decide (limit - 5 / 1000 ≤ bar.close)))
    touchedLimit := bar.bind (fun bar => limit.map (fun limit => decide (limit - 5 / 1000 ≤ bar.high)))
    firstLimitUpAt := evidence.firstLimitUp (tsCode stock.code)
    entry := entry.map (fun event => ⟨event.observedAt, event.price, event.path⟩)
    invalidatedAt := (delivered.find? (fun event => isInvalidation event.signalKey)).map Event.observedAt
    xiaojieModes := evidence.xiaojieModes stock.code
    events := stockEvents.length }

/-- A stock of the pack that is settled on its own account: in its window, or recorded at the first session. -/
def inWindow (stock : Stock) (sessionIndex firstIndex : ℕ) : Bool :=
  (decide (firstIndex ≤ sessionIndex) && decide (sessionIndex ≤ stock.validSessions)) ||
    (decide (sessionIndex = firstIndex) && decide (stock.playbook.kind = .record))

structure PackSettlement where
  packId : String
  reviewDate : Date
  sessionIndex : ℕ
  stocks : List Fact
deriving DecidableEq

def settlePack (pack : Pack) (sessionIndex firstIndex : ℕ) (carried : List Code) : PackSettlement where
  packId := pack.packId
  reviewDate := pack.reviewDate
  sessionIndex := sessionIndex
  stocks := (pack.stocks.filter (fun stock => inWindow stock sessionIndex firstIndex || carried.contains stock.code)).map
    (settleStock evidence pack.packId)

end Building

/-! ## The roll -/

/-- An entry of the roll's lifecycle list. -/
structure LifecycleEntry where
  code : Code
  name : String
  state : State
  reason : Reason
  fromState : State
deriving DecidableEq

structure RollResult where
  tradeDate : Date
  nextSession : Option Date
  settledPacks : ℕ
  nextPlans : List Symbol
  lifecycle : List LifecycleEntry
  planFailures : List Code
  watchlist : Applied
  disabled : List Symbol
  stripped : List Symbol
deriving DecidableEq

/-- A stored settlement of a session. -/
structure Settlement where
  effectiveDate : Date
  availableAt : Timestamp
  packs : List PackSettlement
  roll : RollResult

/-- The packs on file by id, the watch rows and the stored settlements. -/
structure World where
  packs : List Record
  rows : List WatchRow
  settlements : List Settlement

def recordLe (record other : Record) : Bool :=
  decide (record.pack.reviewDate < other.pack.reviewDate) ||
    (decide (record.pack.reviewDate = other.pack.reviewDate) && decide (record.availableAt ≤ other.availableAt))

/-- The packs of the look-back that no other of them supersedes, oldest review first. -/
def recentRecords (packs : List Record) (tradeDate : Date) (lookbackDays : ℕ) : List Record :=
  let recent := packs.filter (fun record => decide (tradeDate - lookbackDays ≤ record.pack.reviewDate))
  let superseded := recent.flatMap (fun record => record.pack.supersedes)
  (recent.filter (fun record => !superseded.contains record.pack.packId)).insertionSort
    (fun record other => recordLe record other = true)

/-- The pack of the newest review that mentions a stock. -/
def owner (records : List Record) (code : Code) : Option String :=
  (records.reverse.find? (fun record => record.pack.stocks.any (fun stock => stock.code == code))).map
    (fun record => record.pack.packId)

section Rolling

variable {β : Type} (evidence : Evidence β) (tradeDate : Date)

/-- The stocks still live on the settled session under a pack. -/
def carriedCodes (rows : List WatchRow) (packId : String) : List Code :=
  (rows.filter (fun row => row.plan.any (fun plan => plan.packId == packId && decide (plan.sessionDate = tradeDate)))).map
    (fun row => row.symbol.take 6)

/-- The settlement of one pack, if the session is one of its review's. -/
def recordSettlement (rows : List WatchRow) (record : Record) : Option PackSettlement :=
  let sessions := sessionsBetween evidence.calendar record.pack.reviewDate tradeDate
  match eligibleIndex sessions record.availableAt with
  | some firstIndex =>
      if sessions.contains tradeDate then
        some (settlePack evidence record.pack (sessions.idxOf tradeDate + 1) firstIndex
          (carriedCodes tradeDate rows record.pack.packId))
      else none
  | none => none

/-- What the loop over a pack's stocks does with one of them. -/
inductive StockStep
  | nothing
  | reapply (plan : Plan)
  | decided (entry : LifecycleEntry) (carry : Option CarryStock)

/-- The record a decided plan carries on. -/
def stateRecord (plan : Plan) (stock : Stock) (outcome : Decision) : Lifecycle where
  state := outcome.state
  since := plan.lifecycle.since
  reason := some outcome.reason
  carried := outcome.carried
  decidedOn := some tradeDate
  teacherValidSessions := some stock.validSessions
  originalPlaybook := some (plan.lifecycle.originalPlaybook.getD stock.playbook)

/-- The stock that a decided plan is rebuilt from; a promoted one needs the session's bar. -/
def carryStock (plan : Plan) (stock : Stock) (fact : Option Fact) (nextIndex : ℕ) : Option CarryStock :=
  let outcome := decideNext plan fact
  let widened := fun base : Stock => { base with validSessions := max stock.validSessions nextIndex }
  match outcome.state with
  | .expired => none
  | .promoted => (barOf fact).map (fun bar =>
      ⟨widened (continuationStock stock bar), some (stateRecord tradeDate plan stock outcome)⟩)
  | _ => some ⟨widened stock, some (stateRecord tradeDate plan stock outcome)⟩

/-- The body of the loop over a pack's stocks. -/
def stockStep (rows : List WatchRow) (packId : String) (facts : List Fact) (next : Date) (nextIndex : ℕ) (stock : Stock) :
    StockStep :=
  if stock.playbook.kind = .record then .nothing
  else
    match livePlan rows (tsCode stock.code) with
    | none => .nothing
    | some plan =>
        if plan.packId ≠ packId then .nothing
        else if plan.sessionDate = next ∧ plan.lifecycle.decidedOn = some tradeDate then .reapply plan
        else if plan.sessionDate ≠ tradeDate then .nothing
        else
          let fact := facts.find? (fun fact => fact.code == stock.code)
          let outcome := decideNext plan fact
          .decided ⟨stock.code, stock.name, outcome.state, outcome.reason, plan.lifecycle.state⟩
            (carryStock tradeDate plan stock fact nextIndex)

def planFromRow (symbol : Symbol) (plan : Plan) : SessionPlan where
  symbol := symbol
  priority := (if plan.status = .observe then 2 else if plan.playbook.kind = .relay then 0 else 1, plan.stance.rank, 0)
  plan := plan

/-- What one pack adds to the roll. -/
structure RecordOutcome where
  plans : List SessionPlan
  failures : List Code
  lifecycle : List LifecycleEntry

/-- The stocks of a pack that it owns. -/
def mine (records : List Record) (pack : Pack) : List Stock :=
  pack.stocks.filter (fun stock => decide (owner records stock.code = some pack.packId))

/-- The body of the loop over the packs. -/
def rollRecord (rows : List WatchRow) (records : List Record) (record : Record) : RecordOutcome :=
  let sessions := sessionsBetween evidence.calendar record.pack.reviewDate tradeDate
  match nextSession evidence.calendar tradeDate with
  | none => ⟨[], [], []⟩
  | some next =>
      if openAt next ≤ record.availableAt then ⟨[], [], []⟩
      else
        let nextIndex := sessions.length + 1
        let stocks := mine records record.pack
        match eligibleIndex sessions record.availableAt with
        | none =>
            -- the review's first session: its plans as the teacher wrote them
            let items := stocks.map (fun stock => (⟨stock, none⟩ : CarryStock))
            ⟨buildSessionPlans evidence record.pack.packId record.pack.reviewDate next nextIndex tradeDate items,
              planFailures evidence nextIndex tradeDate items, []⟩
        | some _ =>
            let facts := ((recordSettlement evidence tradeDate rows record).map PackSettlement.stocks).getD []
            let steps := stocks.map (fun stock =>
              (stock, stockStep tradeDate rows record.pack.packId facts next nextIndex stock))
            let reapplied := steps.filterMap (fun entry =>
              match entry.2 with
              | .reapply plan => some (planFromRow (tsCode entry.1.code) plan)
              | _ => none)
            let carry := steps.filterMap (fun entry =>
              match entry.2 with
              | .decided _ carry => carry
              | _ => none)
            let lifecycle := steps.filterMap (fun entry =>
              match entry.2 with
              | .decided decision _ => some decision
              | _ => none)
            ⟨reapplied ++ buildSessionPlans evidence record.pack.packId record.pack.reviewDate next nextIndex tradeDate carry,
              planFailures evidence nextIndex tradeDate carry, lifecycle⟩

/-- The plans that a roll carries into the next session, in admission order. -/
def rollPlans (rows : List WatchRow) (records : List Record) : List SessionPlan :=
  sortPlans (records.flatMap (fun record => (rollRecord evidence tradeDate rows records record).plans))

/-- `persist_settlement`: a settlement that the session already has is not stored again. -/
def persistSettlement (settlement : Settlement) (settlements : List Settlement) : List Settlement :=
  if settlements.any (fun stored => decide (stored.effectiveDate = settlement.effectiveDate) &&
      decide (stored.packs = settlement.packs) && decide (stored.roll = settlement.roll)) then settlements
  else settlements ++ [settlement]

def roll (now : Timestamp) (world : World) : World :=
  let records := recentRecords world.packs tradeDate evidence.lookbackDays
  if records.isEmpty then world
  else
    let settlements := records.filterMap (recordSettlement evidence tradeDate world.rows)
    let outcomes := records.map (rollRecord evidence tradeDate world.rows records)
    let plans := rollPlans evidence tradeDate world.rows records
    let applied := applySessionPlans evidence.maxSymbols evidence.reserve plans world.rows
    let keep := plans.map SessionPlan.symbol
    let lifecycle := outcomes.flatMap RecordOutcome.lifecycle
    let retired := applied.rows.filter (fun row => row.plan.isSome && !keep.contains row.symbol)
    let result : RollResult :=
      { tradeDate := tradeDate
        nextSession := nextSession evidence.calendar tradeDate
        settledPacks := settlements.length
        nextPlans := keep
        lifecycle := lifecycle
        planFailures := outcomes.flatMap RecordOutcome.failures
        watchlist := applied.applied
        disabled := (retired.filter WatchRow.ours).map WatchRow.symbol
        stripped := (retired.filter (fun row => !row.ours)).map WatchRow.symbol }
    { world with
      rows := retirePlans keep now applied.rows
      settlements :=
        if settlements.isEmpty && lifecycle.isEmpty then world.settlements
        else persistSettlement ⟨tradeDate, now, settlements, result⟩ world.settlements }

end Rolling

end TradingHarness.Teacher
