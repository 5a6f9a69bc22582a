import TradingHarness.Market.Reality
import TradingHarness.Library.Newest
import TradingHarness.Library.Rounding
import Mathlib.Algebra.BigOperators.Group.List.Basic

set_option autoImplicit false

/-! # Outcome reviews

`teacher_outcome_review.run` with `strategy_outcome_measures`: what a settled stock came to, what the last sessions add
up to for each playbook, and the archive where the next session completes a review's forward returns. -/

namespace TradingHarness.Outcomes

/-! ## Measures -/

/-- `round` to as many decimals as `scale` has zeros. -/
def roundTo (scale : ℕ) (x : ℚ) : ℚ := (Rounding.halfEven (x * scale) : ℚ) / scale

/-- `_mean` -/
def meanOf (scale : ℕ) (values : List ℚ) : Option ℚ :=
  if values.isEmpty then none else some (roundTo scale (values.sum / values.length))

/-- The bar of a session. -/
structure DayBar where
  openPrice : Option ℚ
  high : Option ℚ
  close : Option ℚ
  preClose : Option ℚ
  limitUpPrice : Option ℚ
  pct : Option ℚ
deriving DecidableEq

/-- A flagged entry, and whether the scan saw the board sealed. -/
structure EntryMark where
  price : Option ℚ
  isSealed : Option Bool
deriving DecidableEq

/-- What `measure` gives but the reason. -/
structure Measures where
  evaluable : Option Bool := none
  entryPrice : Option ℚ := none
  sessionReturn : Option ℚ := none
  entryToNextClose : Option ℚ := none
  nextOpenToClose : Option ℚ := none
  roundTripCost : Option ℚ := none
  netSessionReturn : Option ℚ := none
  netNextOpenToClose : Option ℚ := none
  nextOpenLocked : Option Bool := none
  excessSession : Option ℚ := none
  benchmarkSession : Option ℚ := none
deriving DecidableEq

/-- `returns`, one percentage of it. -/
def pctOf (target base : Option ℚ) : Option ℚ :=
  match target, base with
  | some value, some base => if base = 0 then none else some (roundTo 10000 ((value / base - 1) * 100))
  | _, _ => none

def lockedAt (price limitUp : Option ℚ) : Option Bool :=
  match price, limitUp with
  | some value, some limit => if limit ≤ 0 then none else some (decide (limit - 5 / 1000 ≤ value))
  | _, _ => none

def entryEvaluable (price limitUp : Option ℚ) (flaggedSealed : Option Bool) : Bool :=
  !(flaggedSealed.getD false || lockedAt price limitUp == some true)

/-- `measure`; a bar that is missing reads as one without values. -/
def measure (cost : ℚ) (entry : EntryMark) (bar nextBar : Option DayBar) (benchmark : Option ℚ) : Measures :=
  match entry.price with
  | none => {}
  | some price =>
      let session := pctOf (bar.bind DayBar.close) (some price)
      let openToClose := pctOf (nextBar.bind DayBar.close) (nextBar.bind DayBar.openPrice)
      { evaluable := some (entryEvaluable (some price) (bar.bind DayBar.limitUpPrice) entry.isSealed)
        entryPrice := some price
        sessionReturn := session
        entryToNextClose := pctOf (nextBar.bind DayBar.close) (some price)
        nextOpenToClose := openToClose
        roundTripCost := some (roundTo 10000 cost)
        netSessionReturn := session.map (fun value => roundTo 10000 (value - cost))
        netNextOpenToClose := openToClose.map (fun value => roundTo 10000 (value - cost))
        nextOpenLocked := lockedAt (nextBar.bind DayBar.openPrice) (nextBar.bind DayBar.limitUpPrice)
        excessSession := session.bind (fun value => benchmark.map (fun median => roundTo 10000 (value - median)))
        benchmarkSession := benchmark }

/-! ## Stocks -/

inductive Outcome
  | hit | triggeredFaded | missed | invalidated | filtered | unbuyable | avoidMissed | avoided | noData
deriving DecidableEq

/-- A stock as the settlement and the event log have it. -/
structure SettledStock where
  code : String
  playbook : String
  isRecord : Bool
  bar : Option DayBar
  closedAtLimit : Bool
  touchedLimit : Bool
  entry : Option EntryMark
  isInvalidated : Bool
  nextBar : Option DayBar := none

/-- A stock of a review. -/
structure Item where
  code : String
  playbook : String
  outcome : Outcome
  opportunityPct : Option ℚ
  entry : Option EntryMark
  bar : Option DayBar
  measures : Option Measures
deriving DecidableEq

def highPct (bar : DayBar) : Option ℚ :=
  match bar.high, bar.preClose with
  | some high, some preClose => if preClose = 0 then none else some (roundTo 100 ((high / preClose - 1) * 100))
  | _, _ => none

section Reviews

variable (cost : ℚ)

/-- `classify`, with the item that a review makes of it. -/
def reviewItem (benchmark : Option ℚ) (stock : SettledStock) : Item :=
  let item : Item := ⟨stock.code, stock.playbook, .noData, none, stock.entry, stock.bar, none⟩
  match stock.bar, (stock.bar.bind DayBar.pct).map (roundTo 100) with
  | some bar, some closePct =>
      let topPct := highPct bar
      let big := decide (5 ≤ closePct) || stock.closedAtLimit || topPct.any (fun top => decide (7 ≤ top)) || stock.touchedLimit
      let measured := stock.entry.map (fun entry => measure cost entry (some bar) stock.nextBar benchmark)
      let outcome : Outcome :=
        if stock.isRecord then if big then .avoidMissed else .avoided
        else
          match measured with
          | some measures =>
              if measures.evaluable = some false then .unbuyable
              else if 0 ≤ measures.netSessionReturn.getD (-1) then .hit
              else .triggeredFaded
          | none => if big then .missed else if stock.isInvalidated then .invalidated else .filtered
      { item with outcome := outcome, opportunityPct := some (topPct.getD closePct), measures := measured }
  | _, _ => item

/-- The place of an outcome in `LEARNING_OUTCOMES`. -/
def Outcome.rank : Outcome → ℕ
  | .hit => 0
  | .triggeredFaded => 1
  | .unbuyable => 2
  | .missed => 3
  | .avoidMissed => 4
  | .invalidated => 5
  | _ => 6

/-- `review_stocks`, in the order of the report. -/
def reviewStocks (benchmark : Option ℚ) (stocks : List SettledStock) : List Item :=
  (stocks.map (reviewItem cost benchmark)).insertionSort (fun item other =>
    item.outcome.rank < other.outcome.rank ∨
      (item.outcome.rank = other.outcome.rank ∧ other.opportunityPct.getD 0 ≤ item.opportunityPct.getD 0))

/-! ## Learning -/

/-- The counts of a playbook, those that a change may name. -/
structure PlaybookRow where
  playbook : String
  total : ℕ
  hitRate : Option ℚ
  missedRate : Option ℚ
  netMean : Option ℚ
  excessMean : Option ℚ
  netNextDayMean : Option ℚ
deriving DecidableEq

def Item.playbookName (item : Item) : String := if item.playbook = "" then "unknown" else item.playbook

def countOf (outcome : Outcome) (items : List Item) : ℕ := items.countP (fun item => decide (item.outcome = outcome))

/-- The values of a measure among the entries that held or faded. -/
def triggeredValues (read : Measures → Option ℚ) (items : List Item) : List ℚ :=
  items.filterMap (fun item =>
    if item.outcome = .hit ∨ item.outcome = .triggeredFaded then item.measures.bind read else none)

def playbookRow (playbook : String) (items : List Item) : PlaybookRow :=
  let actionable : ℤ := (items.length : ℤ) - countOf .avoided items - countOf .avoidMissed items - countOf .noData items -
    countOf .unbuyable items
  let rate := fun outcome => if actionable = 0 then none else some (roundTo 10 ((countOf outcome items : ℚ) / actionable * 100))
  { playbook := playbook
    total := items.length
    hitRate := rate .hit
    missedRate := rate .missed
    netMean := meanOf 100 (triggeredValues Measures.netSessionReturn items)
    excessMean := meanOf 100 (triggeredValues Measures.excessSession items)
    netNextDayMean := meanOf 100 (triggeredValues Measures.netNextOpenToClose items) }

/-- The playbook part of `learning` over the stocks of some reviews. -/
def learningRows (items : List Item) : List PlaybookRow :=
  ((items.map Item.playbookName).eraseDups.map (fun playbook =>
    playbookRow playbook (items.filter (fun item => item.playbookName == playbook)))).insertionSort
      (fun row other => other.total ≤ row.total)

/-! ## The archive -/

/-- An archived review; what no modelled function reads is in `extra`. -/
structure Review (ε : Type) where
  tradeDate : Date
  stocks : List Item
  benchmark : Option ℚ
  learning : List PlaybookRow
  completedOn : Option Date
  extra : ε
deriving DecidableEq

/-- An observation of the review capability. -/
structure ArchiveRow (ε : Type) where
  effectiveDate : Date
  availableAt : Timestamp
  payload : Review ε

variable {ε : Type} [DecidableEq ε]

/-- `persist_outcome_review`: a payload that the session has is not stored again. -/
def persistReview (row : ArchiveRow ε) (archive : List (ArchiveRow ε)) : List (ArchiveRow ε) :=
  if archive.any (fun stored => decide (stored.effectiveDate = row.effectiveDate) && decide (stored.payload = row.payload)) then archive
  else archive ++ [row]

/-- `recent_outcome_reviews` -/
def recentReviews (limit : ℕ) (archive : List (ArchiveRow ε)) : List (Review ε) :=
  (Newest.recent ArchiveRow.effectiveDate ArchiveRow.availableAt limit archive).map ArchiveRow.payload

/-- An entry whose return from the next open to the next close is missing, or zero. -/
def needsForward (item : Item) : Bool :=
  item.entry.isSome && (item.measures.bind Measures.nextOpenToClose).all (fun value => decide (value = 0))

def pendingReview (previous : List (Review ε)) : Option (Review ε) := previous.find? (fun review => review.stocks.any needsForward)

/-- A stock with an entry and a bar of the session. -/
def isFilled (bars : String → Option DayBar) (item : Item) : Bool := item.entry.isSome && (bars item.code).isSome

def fillForward (benchmark : Option ℚ) (bars : String → Option DayBar) (item : Item) : Item :=
  match item.entry, bars item.code with
  | some entry, some nextBar => { item with measures := some (measure cost entry item.bar (some nextBar) benchmark) }
  | _, _ => item

def completePrevious (previous : List (Review ε)) (tradeDate : Date) (bars : String → Option DayBar) (now : Timestamp)
    (archive : List (ArchiveRow ε)) : List (ArchiveRow ε) :=
  match pendingReview previous with
  | none => archive
  | some pending =>
      if pending.stocks.any (isFilled bars) then
        persistReview ⟨pending.tradeDate, now,
          { pending with
            stocks := pending.stocks.map (fillForward cost pending.benchmark bars)
            completedOn := some tradeDate }⟩ archive
      else archive

/-! ## The daily run -/

def learningSessions : ℕ := 20

/-- What one review reads beside the archive. -/
structure ReviewDay (ε : Type) where
  tradeDate : Date
  now : Timestamp
  stocks : List SettledStock
  benchmark : Option ℚ
  bars : String → Option DayBar
  extra : ε

/-- The archived reviews that a run reads. -/
def previousReviews (tradeDate : Date) (archive : List (ArchiveRow ε)) : List (Review ε) :=
  (recentReviews learningSessions archive).filter (fun review => decide (review.tradeDate ≠ tradeDate))

/-- The review of a session. -/
def reviewOf (day : ReviewDay ε) (archive : List (ArchiveRow ε)) : Review ε where
  tradeDate := day.tradeDate
  stocks := reviewStocks cost day.benchmark day.stocks
  benchmark := day.benchmark
  learning := learningRows (reviewStocks cost day.benchmark day.stocks ++ (previousReviews day.tradeDate archive).flatMap Review.stocks)
  completedOn := none
  extra := day.extra

/-- `run`, for a session that is settled. -/
def runReview (archive : List (ArchiveRow ε)) (day : ReviewDay ε) : List (ArchiveRow ε) :=
  persistReview ⟨day.tradeDate, day.now, reviewOf cost day archive⟩
    (completePrevious cost (previousReviews day.tradeDate archive) day.tradeDate day.bars day.now archive)

/-- The archive after some days. -/
def archiveAfter (days : List (ReviewDay ε)) : List (ArchiveRow ε) := days.foldl (runReview cost) []

end Reviews

end TradingHarness.Outcomes
