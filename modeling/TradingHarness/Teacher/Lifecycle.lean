import TradingHarness.Market.Reality

set_option autoImplicit false

/-! # What happens to a teacher's plan after a session

`teacher_review_lifecycle.decide` and the vocabulary of `teacher_review_playbooks` it reads. -/

namespace TradingHarness.Teacher

/-! ## Playbooks -/

/-- The names of `CATALOG`. -/
inductive Playbook
  | relayOneWord | relayAcceleration | relayNoChase | relayExpectTouch | relayRace | relayFastSeal | relayBreakReseal
  | relayNewsConditional | trendPullbackRestart | leaderBenchmarkPullback | sympathyFollow | ma5ReclaimOrDivergence
  | trendContinuation | priorHighBreakout | platformBreakout | ma10SecondWave | doubleBottomPlatform | ma60Reclaim | rejected
deriving DecidableEq

inductive Kind
  | relay | trend | record
deriving DecidableEq

/-- `playbook_kind` -/
def Playbook.kind : Playbook → Kind
  | .relayOneWord | .relayAcceleration | .relayExpectTouch | .relayRace | .relayFastSeal | .relayBreakReseal
  | .relayNewsConditional | .sympathyFollow => .relay
  | .relayNoChase | .rejected => .record
  | _ => .trend

inductive Stance
  | positive | watch | unknown | negative
deriving DecidableEq

/-- A six-digit code, and a code with its exchange. -/
abbrev Code := List Char
abbrev Symbol := List Char

def tsCode (code : Code) : Symbol :=
  match code with
  | '6' :: _ | '9' :: _ => code ++ ['.', 'S', 'H']
  | '4' :: _ | '8' :: _ => code ++ ['.', 'B', 'J']
  | _ => code ++ ['.', 'S', 'Z']

/-! ## Plans -/

/-- The number parameters of a playbook; one that `float` cannot read is absent. -/
structure Params where
  priorHigh : Option ℚ
  platformHigh : Option ℚ
  holdMa : Option ℕ
  floorMa : Option ℕ
deriving DecidableEq

/-- The part of a frozen plan's `extra` that the close reads: sums of the last n - 1 closes, and levels. -/
structure Extra where
  prefix5 : Option ℚ
  prefix10 : Option ℚ
  platformUpper : Option ℚ
  ma60 : Option ℚ
deriving DecidableEq

inductive State
  | new | promoted | observe | expired
deriving DecidableEq

/-- Why a plan was decided as it was; the texts fill in the numbers. -/
inductive Reason
  /-- "当日行情缺失，保持原状态" -/
  | noBar
  /-- "收盘跌破MA10 …", or "盘中失效" without one -/
  | belowFloor (ma10 : Option ℚ)
  /-- "晋级延续已满5个交易日" -/
  | carryUsed
  /-- "收盘跌破MA5 …，转观察" -/
  | belowHold (ma5 : ℚ)
  /-- "守住MA5，继续晋级延续" -/
  | held
  /-- "封板晋级" -/
  | sealedBoard
  /-- "收盘站上 …" -/
  | closedAbove (trigger : ℚ)
  /-- "盘中触发且收盘守住 …" -/
  | entryHeld (price : ℚ)
  /-- "盘中失效" -/
  | invalidated
  /-- "观察期满（老师窗口 … 日 + 2 日）" -/
  | graceOver (valid : ℕ)
  /-- "尚未满足，转观察" -/
  | notYet
deriving DecidableEq

/-- The lifecycle record of a plan; a new plan has its state and first session only. -/
structure Lifecycle where
  state : State
  since : Date
  reason : Option Reason := none
  carried : ℕ := 0
  decidedOn : Option Date := none
  teacherValidSessions : Option ℕ := none
  originalPlaybook : Option Playbook := none
deriving DecidableEq

inductive PlanStatus
  | active | observe | expired
deriving DecidableEq

/-- `metadata.teacher_review` of a watch row. -/
structure Plan where
  status : PlanStatus
  lifecycle : Lifecycle
  packId : String
  reviewDate : Date
  sessionDate : Date
  sessionIndex : ℕ
  validSessions : ℕ
  code : Code
  name : String
  stance : Stance
  playbook : Playbook
  params : Params
  extra : Extra
  expiredAt : Option Timestamp := none
deriving DecidableEq

def promotedMaxCarry : ℕ := 5
def observeGraceSessions : ℕ := 2

/-- `STATUS`; an expired state has none. -/
def State.status : State → PlanStatus
  | .observe => .observe
  | _ => .active

/-! ## The close -/

/-- A settled bar. -/
structure SessionBar where
  openPrice : Option ℚ
  high : ℚ
  low : ℚ
  close : ℚ
  limitUpPrice : Option ℚ
deriving DecidableEq

structure Entry where
  observedAt : Timestamp
  price : Option ℚ
  path : Option String
deriving DecidableEq

/-- The settlement row of a stock. -/
structure Fact where
  code : Code
  name : String
  playbook : Playbook
  stance : Stance
  bar : Option SessionBar
  closedAtLimit : Option Bool
  touchedLimit : Option Bool
  firstLimitUpAt : Option Timestamp
  entry : Option Entry
  invalidatedAt : Option Timestamp
  xiaojieModes : List String
  events : ℕ
deriving DecidableEq

variable (plan : Plan) (close : ℚ) (fact : Fact)

def closeTrigger : Option ℚ :=
  match plan.playbook with
  | .priorHighBreakout | .trendContinuation | .ma5ReclaimOrDivergence => plan.params.priorHigh
  | .platformBreakout => plan.extra.platformUpper
  | .doubleBottomPlatform => plan.params.platformHigh
  | .ma60Reclaim => plan.extra.ma60
  | _ => none

/-- `ma_at_close` over 5 and 10 sessions. -/
def ma5AtClose : Option ℚ := plan.extra.prefix5.map (fun sum => (sum + close) / 5)
def ma10AtClose : Option ℚ := plan.extra.prefix10.map (fun sum => (sum + close) / 10)

structure Decision where
  state : State
  reason : Reason
  carried : ℕ

/-- `int(value or …)`: zero counts as missing. -/
def orElse (value : Option ℕ) (other : ℕ) : ℕ := if value.getD 0 = 0 then other else value.getD 0

/-- The teacher's window as `decide` reads it. -/
def teacherWindow : ℕ := orElse plan.lifecycle.teacherValidSessions (orElse (some plan.validSessions) 1)

/-- What `decide` makes of a promoted plan. -/
def decidePromoted (invalidated : Bool) : Decision :=
  let carried := plan.lifecycle.carried
  let ma5 := ma5AtClose plan close
  let ma10 := ma10AtClose plan close
  if invalidated || ma10.any (fun level => decide (close < level)) then ⟨.expired, .belowFloor ma10, carried⟩
  else if promotedMaxCarry ≤ carried + 1 then ⟨.expired, .carryUsed, carried + 1⟩
  else
    match ma5 with
    | some level => if close < level then ⟨.observe, .belowHold level, carried + 1⟩ else ⟨.promoted, .held, carried + 1⟩
    | none => ⟨.promoted, .held, carried + 1⟩

/-- What satisfies a plan that is new or observed. -/
def satisfied : Option Reason :=
  if plan.playbook.kind = .relay ∧ fact.closedAtLimit = some true then some .sealedBoard
  else
    match (closeTrigger plan).filter (fun trigger => decide (trigger < close)) with
    | some trigger => some (.closedAbove trigger)
    | none =>
        match (fact.entry.bind Entry.price).filter (fun price => fact.invalidatedAt.isNone && decide (price ≤ close)) with
        | some price => some (.entryHeld price)
        | none => none

/-- What `decide` makes of a plan that is new or observed. -/
def decideWaiting : Decision :=
  match satisfied plan close fact with
  | some reason => ⟨.promoted, reason, 0⟩
  | none =>
      if fact.invalidatedAt.isSome then ⟨.expired, .invalidated, 0⟩
      else
        let index := orElse (some plan.sessionIndex) 1
        if teacherWindow plan + observeGraceSessions ≤ index then ⟨.expired, .graceOver (teacherWindow plan), 0⟩
        else ⟨.observe, .notYet, 0⟩

/-- The bar of a settlement row, if there is one. -/
def barOf (fact : Option Fact) : Option SessionBar := fact.bind Fact.bar

/-- `decide` -/
def decideNext (fact : Option Fact) : Decision :=
  match fact with
  | none => ⟨if plan.lifecycle.state = .promoted then .promoted else .observe, .noBar, plan.lifecycle.carried⟩
  | some fact =>
      match fact.bar with
      -- no evidence for the session
      | none => ⟨if plan.lifecycle.state = .promoted then .promoted else .observe, .noBar, plan.lifecycle.carried⟩
      | some bar =>
          if plan.lifecycle.state = .promoted then decidePromoted plan bar.close fact.invalidatedAt.isSome
          else decideWaiting plan bar.close fact

end TradingHarness.Teacher
