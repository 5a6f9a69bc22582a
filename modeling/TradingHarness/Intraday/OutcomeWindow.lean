import TradingHarness.Intraday.FlowMetrics

set_option autoImplicit false

/-! # The window of an intraday outcome

`intraday_clock.py`: where the price of an exit is looked for, so many trading minutes after the entry. -/

namespace TradingHarness

/-! ## The window -/

def clockTime (hour minute : ℤ) : ℤ := (hour * 3600 + minute * 60) * 1000000

def continuousAuctionSessions : List (ℤ × ℤ) :=
  [(clockTime 9 30, clockTime 11 30), (clockTime 13 0, clockTime 15 0)]

/-- `datetime.combine(date, clock, tzinfo=CN_TZ)` -/
def datetimeCombine (date clock : ℤ) : ℤ := date * clockTime 24 0 + clock - clockTime 8 0

def continuousAuctionBounds (value : Timestamp) : Option (Timestamp × Timestamp) :=
  (continuousAuctionSessions.find? (fun session =>
    decide (session.1 ≤ shanghaiClock value ∧ shanghaiClock value ≤ session.2))).map (fun session =>
      (datetimeCombine (shanghaiDate value) session.1, datetimeCombine (shanghaiDate value) session.2))

def afternoonTarget (entry sessionEnd minutes : ℤ) : Option ((Timestamp × Timestamp) × Timestamp) :=
  if shanghaiClock sessionEnd ≠ clockTime 11 30 then none
  else
    let remainder := entry + minutes * clockTime 0 1 - sessionEnd
    let start := datetimeCombine (shanghaiDate sessionEnd) (clockTime 13 0)
    let finish := datetimeCombine (shanghaiDate sessionEnd) (clockTime 15 0)
    if start + remainder ≤ finish then some ((start, finish), start + remainder) else none

inductive WindowStatus
  | pending
  | unavailable

inductive WindowReason
  | entryOutsideContinuousAuction
  | targetCrossesContinuousSessionBoundary
  | targetNotYetObservable
  | exitQuoteMissingWithinTolerance
  | awaitingExitQuoteWithinTolerance

structure OutcomeWindow where
  entryAt : Timestamp
  cutoff : Timestamp
  horizonMinutes : ℤ
  toleranceSeconds : ℤ
  session : Option (Timestamp × Timestamp) := none
  targetAt : Option Timestamp := none
  /-- The key `clock` is `trading_time_after_lunch`. -/
  afterLunch : Bool := false
  status : WindowStatus
  reason : WindowReason
  query : Option (Timestamp × Timestamp) := none
  toleranceEnd : Option Timestamp := none

def intradayOutcomeWindow (entry horizonMinutes cutoff toleranceSeconds : ℤ) (tradingTime : Bool) : OutcomeWindow :=
  let minutes := max 0 horizonMinutes
  let tolerance := max 0 toleranceSeconds
  match continuousAuctionBounds entry with
  | none =>
    { entryAt := entry, cutoff, horizonMinutes := minutes, toleranceSeconds := tolerance
      status := .unavailable, reason := .entryOutsideContinuousAuction }
  | some bounds =>
    let inSegment := entry + minutes * clockTime 0 1
    let afternoon :=
      if bounds.2 < inSegment ∧ tradingTime = true then afternoonTarget entry bounds.2 minutes else none
    let (session, target) := afternoon.getD (bounds, inSegment)
    let base : OutcomeWindow :=
      { entryAt := entry, cutoff, horizonMinutes := minutes, toleranceSeconds := tolerance
        session := some session, targetAt := some target, afterLunch := afternoon.isSome
        status := .unavailable, reason := .targetCrossesContinuousSessionBoundary }
    if session.2 < target then base
    else
      let toleranceEnd := min session.2 (target + tolerance * 1000000)
      if cutoff < target then
        { base with status := .pending, reason := .targetNotYetObservable, query := some (target, cutoff) }
      else if toleranceEnd < cutoff then
        { base with
          status := .unavailable, reason := .exitQuoteMissingWithinTolerance
          query := some (target, min cutoff toleranceEnd), toleranceEnd := some toleranceEnd }
      else
        { base with
          status := .pending, reason := .awaitingExitQuoteWithinTolerance
          query := some (target, min cutoff toleranceEnd), toleranceEnd := some toleranceEnd }

/-! ## Trading time -/

/-- The time of the day's continuous trading that has passed on the clock. -/
def tradedAt (clock : ℤ) : ℤ :=
  (continuousAuctionSessions.map (fun session => min session.2 (max session.1 clock) - session.1)).sum

def tradedToday (moment : Timestamp) : ℤ := tradedAt (shanghaiClock moment)

/-- Four hours less what has passed. -/
def leftToday (moment : Timestamp) : ℤ := clockTime 4 0 - tradedToday moment

/-- The segment of continuous trading of a day. -/
def IsSegment (date : Date) (segment : Timestamp × Timestamp) : Prop :=
  ∃ session ∈ continuousAuctionSessions, segment = (datetimeCombine date session.1, datetimeCombine date session.2)

def InSegment (segment : Timestamp × Timestamp) (moment : Timestamp) : Prop :=
  segment.1 ≤ moment ∧ moment ≤ segment.2

def IsTrading (moment : Timestamp) : Prop :=
  ∃ segment, IsSegment (shanghaiDate moment) segment ∧ InSegment segment moment

/-- The first moment at which so much has been traded since the entry, on the day of the entry. -/
structure IsTarget (entry duration target : Timestamp) : Prop where
  sameDay : shanghaiDate target = shanghaiDate entry
  traded : tradedToday target = tradedToday entry + duration
  first : ∀ moment, entry ≤ moment → moment < target → tradedToday moment < tradedToday entry + duration

/-- A window that begins at the target and that a later cutoff only lets grow. -/
structure WindowRight (target : Timestamp) (segment : Timestamp × Timestamp) (tolerance : ℤ)
    (window : ℤ → OutcomeWindow) : Prop where
  targetAt : ∀ cutoff, (window cutoff).targetAt = some target
  query : ∀ cutoff, ∃ finish, (window cutoff).query = some (target, finish)
    ∧ finish ≤ cutoff ∧ finish ≤ target + tolerance ∧ finish ≤ segment.2
  grows : ∀ cutoff later first last, cutoff ≤ later → (window cutoff).query = some (target, first) →
    (window later).query = some (target, last) → first ≤ last
  settles : ∀ cutoff later, cutoff ≤ later → (window cutoff).status = .unavailable →
    (window later).status = .unavailable

/-! ## Clock and date -/

variable {date clock : ℤ}

theorem shanghaiDate_eq (moment : ℤ) : shanghaiDate moment = (moment + clockTime 8 0) / clockTime 24 0 := rfl

theorem shanghaiClock_eq (moment : ℤ) : shanghaiClock moment = (moment + clockTime 8 0) % clockTime 24 0 := rfl

theorem datetimeCombine_eq (date clock : ℤ) : datetimeCombine date clock = date * clockTime 24 0 + clock - clockTime 8 0 := rfl

theorem clockTime_day : clockTime 24 0 = 86400000000 := rfl

theorem shanghaiDate_datetimeCombine (hclock : 0 ≤ clock ∧ clock < clockTime 24 0) :
    shanghaiDate (datetimeCombine date clock) = date := by
  rw [clockTime_day] at *
  rw [datetimeCombine_eq, shanghaiDate_eq, clockTime_day]
  show (_ : ℤ) = date
  omega

theorem shanghaiClock_datetimeCombine (hclock : 0 ≤ clock ∧ clock < clockTime 24 0) :
    shanghaiClock (datetimeCombine date clock) = clock := by
  rw [clockTime_day] at *
  rw [datetimeCombine_eq, shanghaiClock_eq, clockTime_day]
  omega

theorem exists_datetimeCombine (moment : ℤ) :
    ∃ date clock, (0 ≤ clock ∧ clock < clockTime 24 0) ∧ moment = datetimeCombine date clock := by
  refine ⟨shanghaiDate moment, shanghaiClock moment, ?_, ?_⟩
  · rw [shanghaiClock_eq, clockTime_day]
    omega
  · have hsplit : moment = (moment + clockTime 8 0) / clockTime 24 0 * clockTime 24 0
        + (moment + clockTime 8 0) % clockTime 24 0 - clockTime 8 0 := by
      rw [clockTime_day]
      omega
    exact hsplit

theorem datetimeCombine_add (date clock duration : ℤ) :
    datetimeCombine date clock + duration = datetimeCombine date (clock + duration) := by
  simp only [datetimeCombine_eq]
  omega

theorem datetimeCombine_le {other : ℤ} : datetimeCombine date clock ≤ datetimeCombine date other ↔ clock ≤ other := by
  simp only [datetimeCombine_eq]
  omega

theorem tradedAt_eq (clock : ℤ) :
    tradedAt clock = min (clockTime 11 30) (max (clockTime 9 30) clock) - clockTime 9 30
      + (min (clockTime 15 0) (max (clockTime 13 0) clock) - clockTime 13 0) := by
  simp [tradedAt, continuousAuctionSessions]

section

variable (hclock : 0 ≤ clock ∧ clock < clockTime 24 0)

include hclock

theorem tradedToday_datetimeCombine :
    tradedToday (datetimeCombine date clock) = tradedAt clock := by
  rw [tradedToday, shanghaiClock_datetimeCombine hclock]

/-! ## The segment and the target -/

theorem continuousAuctionBounds_datetimeCombine :
    continuousAuctionBounds (datetimeCombine date clock) =
      if clockTime 9 30 ≤ clock ∧ clock ≤ clockTime 11 30 then
        some (datetimeCombine date (clockTime 9 30), datetimeCombine date (clockTime 11 30))
      else if clockTime 13 0 ≤ clock ∧ clock ≤ clockTime 15 0 then
        some (datetimeCombine date (clockTime 13 0), datetimeCombine date (clockTime 15 0))
      else none := by
  unfold continuousAuctionBounds
  rw [shanghaiDate_datetimeCombine hclock, shanghaiClock_datetimeCombine hclock]
  unfold continuousAuctionSessions
  split
  next hmorning => simp [hmorning]
  next hmorning =>
    split
    next hafternoon => simp [hmorning, hafternoon]
    next hafternoon => simp [hmorning, hafternoon]

theorem isTrading_datetimeCombine :
    IsTrading (datetimeCombine date clock) ↔
      (clockTime 9 30 ≤ clock ∧ clock ≤ clockTime 11 30) ∨ (clockTime 13 0 ≤ clock ∧ clock ≤ clockTime 15 0) := by
  unfold IsTrading IsSegment InSegment continuousAuctionSessions
  rw [shanghaiDate_datetimeCombine hclock]
  simp [datetimeCombine_le]

end

/-- The afternoon goes on where the morning stopped. -/
theorem afternoonTarget_morning (date clock minutes : ℤ) :
    afternoonTarget (datetimeCombine date clock) (datetimeCombine date (clockTime 11 30)) minutes =
      if clock + minutes * clockTime 0 1 + clockTime 1 30 ≤ clockTime 15 0 then
        some ((datetimeCombine date (clockTime 13 0), datetimeCombine date (clockTime 15 0)),
          datetimeCombine date (clock + minutes * clockTime 0 1 + clockTime 1 30))
      else none := by
  have hnoon : 0 ≤ clockTime 11 30 ∧ clockTime 11 30 < clockTime 24 0 := by decide
  have hmoved : datetimeCombine date (clockTime 13 0) +
      (datetimeCombine date clock + minutes * clockTime 0 1 - datetimeCombine date (clockTime 11 30)) =
        datetimeCombine date (clock + minutes * clockTime 0 1 + clockTime 1 30) := by
    simp only [datetimeCombine_eq, clockTime]
    omega
  unfold afternoonTarget
  rw [shanghaiClock_datetimeCombine hnoon, shanghaiDate_datetimeCombine hnoon, if_neg (by simp)]
  dsimp only
  rw [hmoved]
  simp only [datetimeCombine_le]

theorem afternoonTarget_afternoon (entry date minutes : ℤ) :
    afternoonTarget entry (datetimeCombine date (clockTime 15 0)) minutes = none := by
  unfold afternoonTarget
  rw [shanghaiClock_datetimeCombine (by decide), if_pos (by decide)]

/-- The clock of the target: the lunch break does not count. -/
def targetClock (clock duration : ℤ) : ℤ :=
  if clock ≤ clockTime 11 30 ∧ clockTime 11 30 < clock + duration then clock + duration + clockTime 1 30 else clock + duration

theorem isTarget_targetClock {duration : ℤ} (hclock : 0 ≤ clock ∧ clock < clockTime 24 0)
    (htrading : IsTrading (datetimeCombine date clock)) (hduration : 0 ≤ duration)
    (hleft : duration ≤ leftToday (datetimeCombine date clock)) :
    IsTarget (datetimeCombine date clock) duration (datetimeCombine date (targetClock clock duration)) := by
  rw [isTrading_datetimeCombine hclock] at htrading
  rw [leftToday, tradedToday_datetimeCombine hclock, tradedAt_eq] at hleft
  have htarget : 0 ≤ targetClock clock duration ∧ targetClock clock duration < clockTime 24 0 := by
    simp only [targetClock, clockTime] at *
    omega
  refine ⟨?_, ?_, fun moment hfrom hbefore => ?_⟩
  · rw [shanghaiDate_datetimeCombine htarget, shanghaiDate_datetimeCombine hclock]
  · rw [tradedToday_datetimeCombine htarget, tradedToday_datetimeCombine hclock, tradedAt_eq, tradedAt_eq]
    simp only [targetClock, clockTime] at *
    omega
  · obtain ⟨day, reading, hreading, rfl⟩ := exists_datetimeCombine moment
    have hfrom : datetimeCombine date clock ≤ datetimeCombine day reading := hfrom
    have hbefore : datetimeCombine day reading < datetimeCombine date (targetClock clock duration) := hbefore
    -- the moment lies between two moments of the day
    obtain rfl : day = date := by
      simp only [datetimeCombine_eq, clockTime_day] at *
      omega
    rw [datetimeCombine_le] at hfrom
    rw [← not_le, datetimeCombine_le] at hbefore
    rw [tradedToday_datetimeCombine hreading, tradedToday_datetimeCombine hclock, tradedAt_eq, tradedAt_eq]
    simp only [targetClock, clockTime] at *
    omega

/-! ## The window -/

section Found

variable {entry horizon tolerance : ℤ} {bounds segment : Timestamp × Timestamp} {target : Timestamp}
  (hbounds : continuousAuctionBounds entry = some bounds)
  (hplace : (if bounds.2 < entry + max 0 horizon * clockTime 0 1 ∧ true = true then
      afternoonTarget entry bounds.2 (max 0 horizon) else none).getD (bounds, entry + max 0 horizon * clockTime 0 1) =
        (segment, target))

include hbounds hplace

theorem intradayOutcomeWindow_lost (hlost : segment.2 < target) (cutoff : ℤ) :
    (intradayOutcomeWindow entry horizon cutoff tolerance true).status = .unavailable ∧
      (intradayOutcomeWindow entry horizon cutoff tolerance true).query = none := by
  unfold intradayOutcomeWindow
  rw [hbounds]
  dsimp only
  rw [hplace]
  dsimp only
  rw [if_pos hlost]
  exact ⟨rfl, rfl⟩

theorem intradayOutcomeWindow_found (hin : target ≤ segment.2) (cutoff : ℤ) :
    (intradayOutcomeWindow entry horizon cutoff tolerance true).targetAt = some target ∧
      (intradayOutcomeWindow entry horizon cutoff tolerance true).query =
        some (target, min cutoff (min segment.2 (target + max 0 tolerance * 1000000))) ∧
      ((intradayOutcomeWindow entry horizon cutoff tolerance true).status = .unavailable ↔
        min segment.2 (target + max 0 tolerance * 1000000) < cutoff) := by
  have hopen : target ≤ min segment.2 (target + max 0 tolerance * 1000000) :=
    le_min hin (le_add_of_nonneg_right (mul_nonneg (le_max_left _ _) (by decide)))
  unfold intradayOutcomeWindow
  rw [hbounds]
  dsimp only
  rw [hplace]
  dsimp only
  rw [if_neg (not_lt.mpr hin)]
  split
  next hearly => exact ⟨rfl, by rw [min_eq_left (hearly.le.trans hopen)], iff_of_false (by simp) (not_lt.mpr (hearly.le.trans hopen))⟩
  next =>
    split
    next hlate => exact ⟨rfl, rfl, by simp [hlate]⟩
    next hlate => exact ⟨rfl, rfl, by simp [hlate]⟩

theorem windowRight_of_place (hin : target ≤ segment.2) :
    WindowRight target segment (max 0 tolerance * 1000000)
      (fun cutoff => intradayOutcomeWindow entry horizon cutoff tolerance true) where
  targetAt cutoff := (intradayOutcomeWindow_found hbounds hplace hin cutoff).1
  query cutoff := by
    refine ⟨_, (intradayOutcomeWindow_found hbounds hplace hin cutoff).2.1, min_le_left _ _, ?_, ?_⟩
    · exact (min_le_right _ _).trans (min_le_right _ _)
    · exact (min_le_right _ _).trans (min_le_left _ _)
  grows cutoff later first last hle hfirst hlast := by
    rw [(intradayOutcomeWindow_found hbounds hplace hin cutoff).2.1, Option.some.injEq, Prod.mk.injEq] at hfirst
    rw [(intradayOutcomeWindow_found hbounds hplace hin later).2.1, Option.some.injEq, Prod.mk.injEq] at hlast
    rw [← hfirst.2, ← hlast.2]
    exact min_le_min_right _ hle
  settles cutoff later hle hover := by
    rw [(intradayOutcomeWindow_found hbounds hplace hin cutoff).2.2] at hover
    exact (intradayOutcomeWindow_found hbounds hplace hin later).2.2.mpr (hover.trans_le hle)

end Found

/-- Where the exit is looked for: in the segment of the target, or nowhere. -/
theorem exists_place {minutes : ℤ} (hclock : 0 ≤ clock ∧ clock < clockTime 24 0)
    (htrading : IsTrading (datetimeCombine date clock)) (hminutes : 0 ≤ minutes) :
    ∃ bounds segment target, continuousAuctionBounds (datetimeCombine date clock) = some bounds ∧
      (if bounds.2 < datetimeCombine date clock + minutes * clockTime 0 1 ∧ true = true then
        afternoonTarget (datetimeCombine date clock) bounds.2 minutes else none).getD
          (bounds, datetimeCombine date clock + minutes * clockTime 0 1) = (segment, target) ∧
      IsSegment date segment ∧
      (minutes * clockTime 0 1 ≤ leftToday (datetimeCombine date clock) →
        target = datetimeCombine date (targetClock clock (minutes * clockTime 0 1)) ∧ InSegment segment target) ∧
      (leftToday (datetimeCombine date clock) < minutes * clockTime 0 1 → segment.2 < target) := by
  have hmorning : IsSegment date (datetimeCombine date (clockTime 9 30), datetimeCombine date (clockTime 11 30)) :=
    ⟨(clockTime 9 30, clockTime 11 30), by simp [continuousAuctionSessions], rfl⟩
  have hafternoon : IsSegment date (datetimeCombine date (clockTime 13 0), datetimeCombine date (clockTime 15 0)) :=
    ⟨(clockTime 13 0, clockTime 15 0), by simp [continuousAuctionSessions], rfl⟩
  have hduration : 0 ≤ minutes * clockTime 0 1 := mul_nonneg hminutes (by decide)
  rw [isTrading_datetimeCombine hclock] at htrading
  rw [leftToday, tradedToday_datetimeCombine hclock, tradedAt_eq, continuousAuctionBounds_datetimeCombine hclock, datetimeCombine_add]
  unfold InSegment
  rcases htrading with hin | hin
  · rw [if_pos hin]
    by_cases hfits : clock + minutes * clockTime 0 1 ≤ clockTime 11 30
    · refine ⟨_, _, _, rfl, by rw [if_neg (by simp [datetimeCombine_le, hfits])]; rfl, hmorning, fun _ => ⟨?_, ?_⟩, fun hleft => ?_⟩
      · rw [targetClock, if_neg (fun h => absurd h.2 (not_lt.mpr hfits))]
      · exact ⟨datetimeCombine_le.mpr (by omega), datetimeCombine_le.mpr hfits⟩
      · simp only [clockTime] at *
        omega
    · have hover : datetimeCombine date (clockTime 11 30) < datetimeCombine date (clock + minutes * clockTime 0 1) :=
        not_le.mp (fun h => hfits (datetimeCombine_le.mp h))
      by_cases hday : clock + minutes * clockTime 0 1 + clockTime 1 30 ≤ clockTime 15 0
      · refine ⟨_, _, _, rfl, by rw [if_pos ⟨hover, rfl⟩, afternoonTarget_morning, if_pos hday]; rfl, hafternoon,
          fun _ => ⟨?_, ?_⟩, fun hleft => ?_⟩
        · rw [targetClock, if_pos ⟨hin.2, not_le.mp hfits⟩]
        · refine ⟨datetimeCombine_le.mpr ?_, datetimeCombine_le.mpr hday⟩
          simp only [clockTime] at *
          omega
        · simp only [clockTime] at *
          omega
      · -- too late for the afternoon: the target stays behind the end of the morning
        refine ⟨_, _, _, rfl, by rw [if_pos ⟨hover, rfl⟩, afternoonTarget_morning, if_neg hday]; rfl, hmorning,
          fun hleft => absurd hleft ?_, fun _ => hover⟩
        simp only [clockTime] at *
        omega
  · rw [if_neg (by simp only [clockTime] at *; omega), if_pos hin]
    refine ⟨_, _, _, rfl, by rw [afternoonTarget_afternoon, ite_self]; rfl, hafternoon, fun hleft => ⟨?_, ?_⟩, fun hleft => ?_⟩
    · rw [targetClock, if_neg (fun h => absurd h.1 ?_)]
      simp only [clockTime] at *
      omega
    · refine ⟨datetimeCombine_le.mpr (by omega), datetimeCombine_le.mpr ?_⟩
      simp only [clockTime] at *
      omega
    · refine not_le.mp (fun h => absurd (datetimeCombine_le.mp h) ?_)
      simp only [clockTime] at *
      omega

/-- **The window of an outcome in trading time lies in the segment of the moment at which so much has been traded.**
There is none for an entry outside of trading, or with less than that left of the day. -/
theorem intradayOutcomeWindow_tradingTime (entry tolerance : ℤ) (minutes : ℕ) :
    (¬IsTrading entry ∨ leftToday entry < minutes * clockTime 0 1 →
      ∀ cutoff, (intradayOutcomeWindow entry minutes cutoff tolerance true).status = .unavailable ∧
        (intradayOutcomeWindow entry minutes cutoff tolerance true).query = none) ∧
    (IsTrading entry ∧ minutes * clockTime 0 1 ≤ leftToday entry →
      ∃ target segment, IsTarget entry (minutes * clockTime 0 1) target ∧ IsSegment (shanghaiDate entry) segment ∧
        InSegment segment target ∧ WindowRight target segment (max 0 tolerance * 1000000)
          (fun cutoff => intradayOutcomeWindow entry minutes cutoff tolerance true)) := by
  obtain ⟨date, clock, hclock, rfl⟩ := exists_datetimeCombine entry
  have hminutes : max 0 (minutes : ℤ) = minutes := max_eq_right (Int.natCast_nonneg _)
  rw [shanghaiDate_datetimeCombine hclock]
  constructor
  · rintro hno cutoff
    by_cases htrading : IsTrading (datetimeCombine date clock)
    · obtain ⟨bounds, segment, target, hbounds, hplace, -, -, hlost⟩ :=
        exists_place hclock htrading (Int.natCast_nonneg minutes)
      exact intradayOutcomeWindow_lost hbounds (by rw [hminutes]; exact hplace)
        (hlost (hno.resolve_left (not_not.mpr htrading))) cutoff
    · rw [isTrading_datetimeCombine hclock, not_or] at htrading
      unfold intradayOutcomeWindow
      rw [continuousAuctionBounds_datetimeCombine hclock, if_neg htrading.1, if_neg htrading.2]
      exact ⟨rfl, rfl⟩
  · rintro ⟨htrading, hleft⟩
    obtain ⟨bounds, segment, target, hbounds, hplace, hsegment, hfound, -⟩ :=
      exists_place hclock htrading (Int.natCast_nonneg minutes)
    obtain ⟨rfl, hin⟩ := hfound hleft
    have hduration : (0 : ℤ) ≤ minutes * clockTime 0 1 := mul_nonneg (Int.natCast_nonneg _) (by decide)
    refine ⟨_, segment, isTarget_targetClock hclock htrading hduration hleft, hsegment, hin, ?_⟩
    exact windowRight_of_place hbounds (by rw [hminutes]; exact hplace) hin.2

end TradingHarness
