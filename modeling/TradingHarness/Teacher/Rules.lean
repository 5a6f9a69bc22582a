import TradingHarness.Library.Rounding
import TradingHarness.Teacher.Lifecycle

set_option autoImplicit false

/-! # The rules of a teacher's plan

`teacher_review_rules.evaluate` for one snapshot of a scan, with the guard for missing inputs of `teacher_review_signals`. -/

namespace TradingHarness.Rules

open Teacher (Playbook)

/-! ## What a scan has -/

/-- What `_pick` takes. -/
abbrev Positive := {x : ℚ // 0 < x}

/-- What is read of `leader_latest`. -/
structure Leader where
  pct : Option ℚ
  sealed : Option Bool
  aboveVwap : Option Bool

/-- What `scan_features` collects. `bidOnly` is read from the order book, `divergenceLive` is `found` of the session's divergence; the
    clock is in minutes. -/
structure Features where
  price : ℚ
  preClose : Option Positive
  pctQuote : Option ℚ
  opened : Option Positive
  high : ℚ
  low : ℚ
  amount : Option Positive
  turnoverPct : Option Positive
  volumeRatio : Option Positive
  vwap : Option Positive
  bidOnly : Option Bool
  surge : Option Bool
  notFalling : Option Bool
  auctionSeal : Option ℚ
  auctionAtLimit : Option Bool
  sectorCounts : String → Option ℕ
  sectorPeaks : String → Option ℕ
  leader : Option Leader
  divergenceLive : Option Bool
  clock : ℕ
  sessionElapsedMin : ℕ

def volRatioMin : ℚ := 3 / 2

def centerFlatPct : ℚ := 1

def closeConfirmFrom : ℕ := 14 * 60 + 50

/-- `round(x, digits)` -/
def roundTo (digits : ℕ) (x : ℚ) : ℚ := Rounding.halfEven (x * Nat.pow 10 digits) / Nat.pow 10 digits

def orZero (x : Option Positive) : ℚ := x.elim 0 Subtype.val

section Derived

-- `limit_up_price` for the stock's code and name
variable (limitUp : Positive → ℚ) (f : Features)

def Features.pct : Option ℚ :=
  match f.preClose with
  | some close => some (roundTo 2 ((f.price / close.val - 1) * 100))
  | none => f.pctQuote

def Features.aboveVwap : Option Bool := f.vwap.map (fun vwap => decide (vwap.val ≤ f.price))

def Features.openGapPct : Option ℚ :=
  match f.opened, f.preClose with
  | some opened, some close => some (roundTo 2 ((opened.val / close.val - 1) * 100))
  | _, _ => none

def Features.limitUpPrice : Option ℚ := f.preClose.map limitUp

/-- The price has come up to `limit_up_price`, but for half a cent. -/
def Features.reaches (price : ℚ) : Bool := (f.limitUpPrice limitUp).any (fun limit => decide (limit ≠ 0) && decide (limit - 1 / 200 ≤ price))

def Features.sealed : Bool := f.bidOnly.getD false && f.reaches limitUp f.price

def Features.touchedLimit : Bool := f.reaches limitUp f.high

end Derived

/-! ## What a plan has -/

/-- A plan's playbook with its parameters. The sector is empty where there is none. -/
inductive Setup
  | relayOneWord (auctionAmountMin turnoverMaxPct priorHigh : ℚ)
  | relayAcceleration (entryLow entryHigh entryPctMin sealAmountMax failAmount : ℚ)
  | relayExpectTouch (entryPctMin : ℚ)
  | relayRace (sector : String) (sectorMinLimitUps : Option ℚ)
  | relayNewsConditional (sector : String) (sectorMinLimitUps : ℚ)
  | relayFastSeal (sealAmountMax failAmount : ℚ)
  | relayBreakReseal (reentryDiscountMaxPct failAmount : ℚ)
  | trendPullbackRestart (pullbackAmountMax : ℚ)
  | leaderBenchmarkPullback
  | sympathyFollow (leaderStrongPct leaderWeakPct : ℚ)
  | ma5ReclaimOrDivergence (invalidBelow : ℚ)
  | trendContinuation (priorHigh : ℚ)
  | priorHighBreakout (priorHigh : ℚ)
  | platformBreakout
  | ma10SecondWave (touchTolPct : ℚ)
  | doubleBottomPlatform (neckline platformHigh : ℚ)
  | ma60Reclaim (amountMult : ℚ) (volumeProfile : Option (List (ℕ × ℚ)))

def Setup.playbook : Setup → Playbook
  | .relayOneWord .. => .relayOneWord
  | .relayAcceleration .. => .relayAcceleration
  | .relayExpectTouch .. => .relayExpectTouch
  | .relayRace .. => .relayRace
  | .relayNewsConditional .. => .relayNewsConditional
  | .relayFastSeal .. => .relayFastSeal
  | .relayBreakReseal .. => .relayBreakReseal
  | .trendPullbackRestart .. => .trendPullbackRestart
  | .leaderBenchmarkPullback => .leaderBenchmarkPullback
  | .sympathyFollow .. => .sympathyFollow
  | .ma5ReclaimOrDivergence .. => .ma5ReclaimOrDivergence
  | .trendContinuation .. => .trendContinuation
  | .priorHighBreakout .. => .priorHighBreakout
  | .platformBreakout => .platformBreakout
  | .ma10SecondWave .. => .ma10SecondWave
  | .doubleBottomPlatform .. => .doubleBottomPlatform
  | .ma60Reclaim .. => .ma60Reclaim

/-- What is read of a plan's `extra`: which averages the plan means, and the levels frozen before the session. `frozenMa n` is `ma{n}`. -/
structure Extra where
  pullbackMa : Option ℕ := none
  trendFloorMa : Option ℕ := none
  holdMa : Option ℕ := none
  floorMa : Option ℕ := none
  invalidMa : Option ℕ := none
  invalidBufferPct : Option ℚ := none
  maPrefix : ℕ → Option ℚ := fun _ => none
  frozenMa : ℕ → Option ℚ := fun _ => none
  pullbackLevel : Option ℚ := none
  floorLevel : Option ℚ := none
  holdLevel : Option ℚ := none
  aLevel : Option ℚ := none
  platformUpper : Option ℚ := none
  platformLower : Option ℚ := none
  priorMid : Option ℚ := none
  amt20 : Option ℚ := none
  zone : Option (ℚ × ℚ) := none
  daysSincePeak : Option ℕ := none
  pulledBack : Option Bool := none
  touchedMa10 : Option Bool := none
  divergenceFound : Option Bool := none
  prevCloseBelowMa60 : Option Bool := none

structure Plan where
  setup : Setup
  extra : Extra

def liveMa (x : Extra) (n : Option ℕ) (price : ℚ) (frozen : Option ℚ) : Option ℚ :=
  match n with
  | some (k + 1) => (x.maPrefix (k + 1)).elim frozen (fun sum => some (roundTo 4 ((sum + price) / (k + 1))))
  | _ => frozen

/-! ## Missing inputs -/

inductive Input
  | preClose | turnoverPct | book | amount | vwap | surge | opened | volumeRatio | low | high | notFalling

def Features.has (f : Features) : Input → Bool
  | .preClose => f.preClose.isSome
  | .turnoverPct => f.turnoverPct.isSome
  | .book => f.bidOnly.isSome
  | .amount => f.amount.isSome
  | .vwap => f.vwap.isSome
  | .surge => f.surge.isSome
  | .opened => f.opened.isSome
  | .volumeRatio => f.volumeRatio.isSome
  | .low | .high => true
  | .notFalling => f.notFalling.isSome

def requiredInputs : Playbook → List Input
  | .relayOneWord => [.preClose, .turnoverPct, .book]
  | .relayAcceleration => [.preClose, .amount, .vwap]
  | .relayExpectTouch => [.preClose, .vwap, .surge]
  | .relayRace | .relayNewsConditional => [.preClose, .opened, .vwap, .surge]
  | .relayFastSeal => [.preClose, .opened, .amount, .book]
  | .relayBreakReseal => [.preClose, .vwap, .volumeRatio]
  | .trendPullbackRestart => [.preClose, .volumeRatio, .vwap]
  | .leaderBenchmarkPullback => [.low]
  | .sympathyFollow => [.preClose, .vwap, .surge]
  | .ma5ReclaimOrDivergence => [.volumeRatio, .vwap, .notFalling, .low]
  | .trendContinuation => [.high]
  | .priorHighBreakout | .platformBreakout | .doubleBottomPlatform => [.volumeRatio, .vwap, .notFalling]
  | .ma10SecondWave => [.high, .low, .vwap]
  | .ma60Reclaim => [.amount]
  | .relayNoChase | .rejected => []

def missingInputs (playbook : Playbook) (f : Features) : List Input := (requiredInputs playbook).filter (fun key => !f.has key)

/-! ## Signals -/

/-- A condition line, without its texts. -/
structure Sig where
  pass : Option Bool
  gating : Bool := true
  structural : Bool := false

inductive Action
  | entry | watch | invalid
deriving DecidableEq

structure Outcome where
  invalid : Bool
  signals : List Sig

def gates (signals : List Sig) : Bool :=
  !(signals.filter Sig.gating).isEmpty && (signals.filter Sig.gating).all (fun line => line.pass == some true)

/-- The end of `evaluate`. -/
def Outcome.action (outcome : Outcome) : Action :=
  if outcome.invalid then .invalid else if gates outcome.signals then .entry else .watch

def line (pass : Bool) : Sig := ⟨some pass, true, false⟩

def shown (pass : Option Bool) : Sig := ⟨pass, false, false⟩

section Evaluate

variable (limitUp : Positive → ℚ) (x : Extra) (f : Features)

/-- A breach counts at the close; before, it is a line of its own. `_close_breach` -/
def atClose (breach : Bool) (signals : List Sig) : Outcome :=
  if breach then
    if closeConfirmFrom ≤ f.clock then ⟨true, signals⟩ else ⟨false, signals ++ [shown (some false)]⟩
  else ⟨false, signals⟩

def breakout (level : Option ℚ) : List Sig :=
  [line (level.any (fun level => decide (level < f.price))), line (decide (volRatioMin ≤ orZero f.volumeRatio)),
    line (f.aboveVwap.getD false), line (f.notFalling.getD false)]

/-- The price has fallen below the last close. -/
def belowPreClose : Bool := decide (f.price < orZero f.preClose)

def relayOneWord (auctionAmountMin turnoverMaxPct priorHigh : ℚ) : Outcome where
  invalid := !f.sealed limitUp && (f.aboveVwap == some false || belowPreClose f)
  signals :=
    [⟨f.auctionSeal.map (fun sealAmount => decide (auctionAmountMin ≤ sealAmount) && f.auctionAtLimit.getD false), true, false⟩, shown none,
      line (decide (orZero f.turnoverPct ≤ turnoverMaxPct)), line (f.sealed limitUp), shown (some (decide (priorHigh < f.high)))]

def relayAcceleration (entryLow entryHigh entryPctMin sealAmountMax failAmount : ℚ) : Outcome where
  invalid := (decide (failAmount < orZero f.amount) && !f.sealed limitUp) || (f.aboveVwap == some false && !f.sealed limitUp)
  signals :=
    [line (decide (entryLow ≤ orZero f.amount) && decide (orZero f.amount ≤ entryHigh * (11 / 10)) &&
        decide (entryPctMin ≤ f.pct.getD 0) && f.aboveVwap.getD false),
      shown (some (f.sealed limitUp && decide (orZero f.amount ≤ sealAmountMax)))]

def relayExpectTouch (entryPctMin : ℚ) : Outcome where
  invalid := belowPreClose f
  signals := [line (decide (entryPctMin ≤ f.pct.getD 0) && f.surge.getD false && f.aboveVwap.getD false), shown (some (f.touchedLimit limitUp))]

/-- The limit-ups of a plan's sector. -/
def sectorCount (sector : String) : Option ℕ := if sector = "" then none else f.sectorCounts sector

/-- The lines that `relay_race` and `relay_news_conditional` share. -/
def raceLines : List Sig :=
  [line (f.openGapPct.all (fun gap => decide (0 ≤ gap))), line (f.surge.getD false || f.sealed limitUp),
    ⟨f.aboveVwap, true, false⟩, shown (some (f.sealed limitUp))]

def raceInvalid : Bool :=
  (f.openGapPct.any (fun gap => decide (gap < 0)) && f.aboveVwap == some false) || belowPreClose f

/-- The sector has had enough limit-ups today, and fewer than half of them are left. -/
def sectorFell (sector : String) (minimum : ℚ) (count : ℕ) : Bool :=
  let peak := (f.sectorPeaks sector).getD 0
  decide (minimum ≤ peak) && decide ((count : ℚ) < peak / 2)

def relayRace (sector : String) (sectorMinLimitUps : Option ℚ) : Outcome where
  invalid := raceInvalid f ||
    match sectorCount f sector, sectorMinLimitUps with
    | some count, some minimum => sectorFell f sector minimum count
    | _, _ => false
  signals :=
    (match sectorMinLimitUps with
      | some minimum => if sector = "" then [] else [shown ((sectorCount f sector).map (fun count => decide (minimum ≤ (count : ℚ))))]
      | none => []) ++ raceLines limitUp f

def relayNewsConditional (sector : String) (sectorMinLimitUps : ℚ) : Outcome where
  invalid := raceInvalid f
  signals := ⟨(sectorCount f sector).map (fun count => decide (sectorMinLimitUps ≤ (count : ℚ))), true, true⟩ :: raceLines limitUp f

def relayFastSeal (sealAmountMax failAmount : ℚ) : Outcome where
  invalid := (decide (failAmount ≤ orZero f.amount) && !f.sealed limitUp) || belowPreClose f
  signals :=
    [line (f.openGapPct.all (fun gap => decide (0 ≤ gap))), line (f.sealed limitUp && decide (orZero f.amount ≤ sealAmountMax))]

def relayBreakReseal (reentryDiscountMaxPct failAmount : ℚ) : Outcome where
  invalid := belowPreClose f || (decide (failAmount ≤ orZero f.amount) && !f.sealed limitUp)
  signals :=
    let limit := f.limitUpPrice limitUp
    let discount := limit.bind (fun limit => if limit ≠ 0 ∧ f.price ≠ 0 then some (roundTo 2 ((1 - f.price / limit) * 100)) else none)
    [⟨some (f.touchedLimit limitUp), true, true⟩,
      line (limit.any (fun limit => decide (limit ≠ 0) && decide (f.price < limit - 1 / 200)) && !f.sealed limitUp),
      line (discount.any (fun discount => decide (discount ≤ reentryDiscountMaxPct))), line (f.aboveVwap.getD false),
      line (decide (volRatioMin ≤ orZero f.volumeRatio)), shown (some (f.sealed limitUp))]

def trendPullbackRestart (pullbackAmountMax : ℚ) : Outcome :=
  let restart := decide (volRatioMin ≤ orZero f.volumeRatio) && decide (3 ≤ f.pct.getD 0) && f.aboveVwap.getD false
  let quietToday := f.amount.any (fun amount => decide (amount.val ≤ pullbackAmountMax))
  let touchedMa5 := (liveMa x (some 5) f.price (x.frozenMa 5)).any (fun ma5 => decide (ma5 ≠ 0) && decide (f.low ≤ ma5 * (102 / 100)))
  let ma10 := (liveMa x (some 10) f.price (x.frozenMa 10)).getD 0
  atClose f (decide (f.price < ma10))
    [line (decide (f.pct.getD 0 < 19 / 2)), line (x.pulledBack.getD false || quietToday || touchedMa5), line restart]

def leaderBenchmarkPullback : Outcome :=
  let level := (liveMa x x.pullbackMa f.price x.pullbackLevel).getD 0
  let floor := (liveMa x x.trendFloorMa f.price x.floorLevel).getD 0
  atClose f (decide (f.price < floor)) [line (decide (f.low ≤ level * (101 / 100))), line (decide (floor ≤ f.price))]

def Leader.strong (leader : Leader) (leaderStrongPct : ℚ) : Bool :=
  leader.sealed.getD false || (decide (leaderStrongPct ≤ leader.pct.getD 0) && leader.aboveVwap.getD false)

def sympathyFollow (leaderStrongPct leaderWeakPct : ℚ) : Outcome where
  invalid :=
    f.leader.any (fun leader => leader.pct.any (fun pct => decide (pct ≤ leaderWeakPct))) ||
      (f.leader.any (fun leader => !leader.strong leaderStrongPct) && belowPreClose f)
  signals :=
    [shown none, ⟨f.leader.map (fun leader => leader.strong leaderStrongPct), true, false⟩,
      line (f.surge.getD false && f.aboveVwap.getD false)]

/-- The higher of today's MA5 and MA10, of those there are; the level frozen before the session where there is none. -/
def shortLevel : Option ℚ :=
  let shortMas := [liveMa x (some 5) f.price none, liveMa x (some 10) f.price none].filterMap (fun ma => ma.filter (fun ma => decide (ma ≠ 0)))
  match shortMas with
  | [] => x.aLevel
  | ma :: rest => some (rest.foldl max ma)

/-- Path B: the zone, and a divergence. -/
def inZone : Bool :=
  let zone := x.zone.getD (0, 0)
  decide (zone.1 ≤ f.low) && decide (f.low ≤ zone.2)

def divergenceFound : Bool := (f.divergenceLive.or x.divergenceFound).getD false

def invalidLine (invalidBelow : ℚ) : ℚ :=
  match x.invalidMa with
  | some (k + 1) =>
      roundTo 3 ((liveMa x (some (k + 1)) f.price none).getD 0 * (1 - (x.invalidBufferPct.getD 3) / 100))
  | _ => invalidBelow

def pathA : Bool := (breakout f (shortLevel x f)).all (fun line => line.pass == some true)

def pathB : Bool := inZone x f && divergenceFound x f && f.aboveVwap.getD false

/-- The playbook that returns by itself. -/
def ma5ReclaimOrDivergence (invalidBelow : ℚ) : Action :=
  let outcome := atClose f (decide (f.price < invalidLine x f invalidBelow) && !divergenceFound x f)
    (breakout f (shortLevel x f) ++ [shown (some (inZone x f)), shown (some (divergenceFound x f))])
  if outcome.invalid then .invalid else if pathA x f || pathB x f then .entry else .watch

def trendContinuation (priorHigh : ℚ) : Outcome :=
  let hold := (liveMa x x.holdMa f.price x.holdLevel).getD 0
  let floor := (liveMa x x.floorMa f.price x.floorLevel).getD 0
  atClose f (decide (f.price < floor)) [line (decide (hold ≤ f.price)), line (decide (priorHigh < f.high))]

def priorHighBreakout (priorHigh : ℚ) : Outcome :=
  let floor := (liveMa x x.floorMa f.price x.floorLevel).getD 0
  atClose f (decide (f.price < floor)) (breakout f (some priorHigh))

/-- `first or second` -/
def orElse (first second : Option ℚ) : Option ℚ := if first.any (fun value => decide (value ≠ 0)) then first else second

def platformFloorMa : ℕ := if x.floorMa.getD 0 = 0 then 10 else x.floorMa.getD 0

def platformFloor : ℚ :=
  let maFloor := liveMa x (some (platformFloorMa x)) f.price (orElse (x.frozenMa (platformFloorMa x)) (x.frozenMa 10))
  min (x.platformLower.getD 0) ((orElse maFloor x.platformLower).getD 0)

def platformBreakout : Outcome :=
  atClose f (decide (f.price < platformFloor x f))
    (⟨some (decide (1 ≤ x.daysSincePeak.getD 0)), true, true⟩ :: breakout f x.platformUpper)

def ma10SecondWave (touchTolPct : ℚ) : Outcome :=
  let ma10 := (liveMa x (some 10) f.price (x.frozenMa 10)).getD 0
  let touched := x.touchedMa10.getD false || decide (f.low ≤ ma10 * (1 + touchTolPct / 100))
  let mid := (f.high + f.low) / 2
  let drift := (x.priorMid.filter (fun priorMid => decide (priorMid ≠ 0))).elim 0 (fun priorMid => (mid / priorMid - 1) * 100)
  atClose f (decide (f.price < ma10 * (97 / 100))) [line touched, line (decide (-centerFlatPct ≤ drift)), ⟨f.aboveVwap, true, false⟩]

def doubleBottomPlatform (neckline platformHigh : ℚ) : Outcome :=
  atClose f (decide (f.price < neckline)) (line (decide (neckline ≤ f.price)) :: breakout f (some platformHigh))

/-- Minutes of trading up to a minute of the day. -/
def tradingMinutes (stamp : ℕ) : ℚ := if stamp ≤ 690 then (stamp : ℚ) - 570 else 120 + (stamp - 780 : ℕ)

/-- The walk of `_session_share` over the points of a profile. -/
def shareAt (now : ℚ) : ℕ × ℚ → List (ℕ × ℚ) → ℚ
  | _, [] => 1
  | (left, shareLeft), (right, shareRight) :: rest =>
      if now ≤ tradingMinutes right then
        let fraction := if tradingMinutes right = tradingMinutes left then 0
          else max 0 ((now - tradingMinutes left) / (tradingMinutes right - tradingMinutes left))
        max (shareLeft + fraction * (shareRight - shareLeft)) (2 / 100)
      else shareAt now (right, shareRight) rest

/-- `_session_share`; the bars of a profile are in order. -/
def sessionShare (profile : Option (List (ℕ × ℚ))) : ℚ :=
  match profile with
  | none | some [] => (max f.sessionElapsedMin 1 : ℕ) / 240
  | some points => shareAt (if 570 ≤ f.clock then tradingMinutes f.clock else 0) (570, 0) points

def ma60Reclaim (amountMult : ℚ) (volumeProfile : Option (List (ℕ × ℚ))) : Outcome :=
  let projected := orZero f.amount / sessionShare f volumeProfile
  let ma60 := (liveMa x (some 60) f.price (x.frozenMa 60)).getD 0
  atClose f (decide (f.price < ma60 * (97 / 100)) && x.prevCloseBelowMa60.getD true)
    [line (decide (ma60 < f.price)), line (decide (amountMult * x.amt20.getD 0 ≤ projected))]

end Evaluate

def evaluate (limitUp : Positive → ℚ) (plan : Plan) (f : Features) : Action :=
  match plan.setup with
  | .relayOneWord auctionAmountMin turnoverMaxPct priorHigh => (relayOneWord limitUp f auctionAmountMin turnoverMaxPct priorHigh).action
  | .relayAcceleration entryLow entryHigh entryPctMin sealAmountMax failAmount =>
      (relayAcceleration limitUp f entryLow entryHigh entryPctMin sealAmountMax failAmount).action
  | .relayExpectTouch entryPctMin => (relayExpectTouch limitUp f entryPctMin).action
  | .relayRace sector sectorMinLimitUps => (relayRace limitUp f sector sectorMinLimitUps).action
  | .relayNewsConditional sector sectorMinLimitUps => (relayNewsConditional limitUp f sector sectorMinLimitUps).action
  | .relayFastSeal sealAmountMax failAmount => (relayFastSeal limitUp f sealAmountMax failAmount).action
  | .relayBreakReseal reentryDiscountMaxPct failAmount => (relayBreakReseal limitUp f reentryDiscountMaxPct failAmount).action
  | .trendPullbackRestart pullbackAmountMax => (trendPullbackRestart plan.extra f pullbackAmountMax).action
  | .leaderBenchmarkPullback => (leaderBenchmarkPullback plan.extra f).action
  | .sympathyFollow leaderStrongPct leaderWeakPct => (sympathyFollow f leaderStrongPct leaderWeakPct).action
  | .ma5ReclaimOrDivergence invalidBelow => ma5ReclaimOrDivergence plan.extra f invalidBelow
  | .trendContinuation priorHigh => (trendContinuation plan.extra f priorHigh).action
  | .priorHighBreakout priorHigh => (priorHighBreakout plan.extra f priorHigh).action
  | .platformBreakout => (platformBreakout plan.extra f).action
  | .ma10SecondWave touchTolPct => (ma10SecondWave plan.extra f touchTolPct).action
  | .doubleBottomPlatform neckline platformHigh => (doubleBottomPlatform f neckline platformHigh).action
  | .ma60Reclaim amountMult volumeProfile => (ma60Reclaim plan.extra f amountMult volumeProfile).action

/-- What `teacher_review_signals` makes of a scan of an active plan. -/
def reviewAction (limitUp : Positive → ℚ) (plan : Plan) (f : Features) : Action :=
  let result := evaluate limitUp plan f
  if !(missingInputs plan.setup.playbook f).isEmpty && result = .entry then .watch else result

end TradingHarness.Rules
