import TradingHarness.Outcomes.DailyRuns
import TradingHarness.Library.Dict

set_option autoImplicit false

/-! # Changes against what was expected of them

`strategy_change_log.evaluate` as `run` calls it: the measure that a change names, before it and since. -/

namespace TradingHarness.Outcomes

/-! ## Changes -/

/-- `MEASURES` -/
inductive MeasureName
  | hitRate | missedRate | netMean | excessMean | netNextDayMean

inductive Direction
  | up | down
deriving DecidableEq

/-- `STATUSES` -/
inductive ChangeStatus
  | proposed | applied | reverted | superseded
deriving DecidableEq

/-- The fields of a recorded change that its evaluation reads. -/
structure Change where
  status : ChangeStatus
  scope : String
  measure : MeasureName
  direction : Direction
  reviewAfterSessions : ℕ
  appliedOn : Date

/-- What `validate` asks of them. -/
structure Change.Valid (change : Change) : Prop where
  scope : change.scope ≠ ""
  window : 1 ≤ change.reviewAfterSessions ∧ change.reviewAfterSessions ≤ 120

def PlaybookRow.value (measure : MeasureName) (row : PlaybookRow) : Option ℚ :=
  match measure with
  | .hitRate => row.hitRate
  | .missedRate => row.missedRate
  | .netMean => row.netMean
  | .excessMean => row.excessMean
  | .netNextDayMean => row.netNextDayMean

def measureFor {ε : Type} (scope : String) (measure : MeasureName) (review : Review ε) : Option ℚ :=
  if scope = "all" then meanOf 10000 (review.learning.filterMap (PlaybookRow.value measure))
  else (review.learning.find? (fun row => row.playbook == scope)).bind (PlaybookRow.value measure)

/-! ## Evaluation -/

inductive Significance
  | insufficientVariance | significant | inconclusive
deriving DecidableEq

/-- The variance of a sample around its mean. -/
def varianceOf (values : List ℚ) : ℚ :=
  let mean := values.sum / values.length
  (values.map (fun value => (value - mean) * (value - mean))).sum / (values.length - 1)

/-- `_difference_significance`; the standard error is compared by its square. -/
def differenceSignificance (before after : List ℚ) : Significance :=
  if before.length < 2 ∨ after.length < 2 then .insufficientVariance
  else
    let difference := after.sum / after.length - before.sum / before.length
    let squaredError := varianceOf before / before.length + varianceOf after / after.length
    if squaredError ≤ 0 then if difference ≠ 0 then .significant else .inconclusive
    else if 196 / 100 * (196 / 100) * squaredError ≤ difference * difference then .significant
    else .inconclusive

inductive Verdict
  | tooEarly | inconclusive | asExpected | againstExpectation
deriving DecidableEq

structure Evaluation where
  change : Change
  sessionsBefore : ℕ
  sessionsAfter : ℕ
  before : Option ℚ
  after : Option ℚ
  moved : Option ℚ
  verdict : Verdict
  significance : Significance

section Evaluate

variable {ε : Type}

/-- The reports by their date, where a later one of a date replaces an earlier one. -/
def byDate (reports : List (Review ε)) : List (Date × Review ε) :=
  Dict.update [] (reports.map (fun review => (review.tradeDate, review)))

/-- The values of a change's measure since it was applied, or before. -/
def sideValues (change : Change) (since : Bool) (reports : List (Review ε)) : List ℚ :=
  (byDate reports).filterMap (fun entry =>
    if decide (change.appliedOn ≤ entry.1) = since then measureFor change.scope change.measure entry.2 else none)

/-- The body of the loop over the changes. -/
def evaluateChange (reports : List (Review ε)) (change : Change) : Evaluation :=
  let before := sideValues change false reports
  let after := sideValues change true reports
  let beforeMean := meanOf 10000 before
  let afterMean := meanOf 10000 after
  let moved := beforeMean.bind (fun before => afterMean.map (fun after => roundTo 10000 (after - before)))
  let significance := if moved.isSome then differenceSignificance before after else .insufficientVariance
  { change := change
    sessionsBefore := before.length
    sessionsAfter := after.length
    before := beforeMean
    after := afterMean
    moved := moved
    verdict :=
      match moved with
      | none => .tooEarly
      | some moved =>
          if after.length < change.reviewAfterSessions then .tooEarly
          else if significance = .inconclusive then .inconclusive
          else if (0 < moved) ↔ (change.direction = .up) then .asExpected
          else .againstExpectation
    significance := significance }

def evaluate (changes : List Change) (reports : List (Review ε)) : List Evaluation :=
  (changes.filter (fun change => decide (change.status = .applied))).map (evaluateChange reports)

/-- What `run` feeds it: the session's report and those before it. -/
def reportsOn (cost : ℚ) (archive : List (ArchiveRow ε)) (today : ReviewDay ε) : List (Review ε) :=
  reviewOf cost today archive :: previousReviews today.tradeDate archive

/-! ## Verdicts -/

variable {reports : List (Review ε)} {change : Change}

theorem byDate_eq (hnodup : (reports.map Review.tradeDate).Nodup) :
    byDate reports = reports.map (fun review => (review.tradeDate, review)) := by
  unfold byDate
  rw [Dict.update_fresh _ _ ?_, List.nil_append]
  rw [List.nil_append, List.map_map]
  exact hnodup

theorem length_sideValues (hnodup : (reports.map Review.tradeDate).Nodup)
    (hcarries : ∀ review ∈ reports, (measureFor change.scope change.measure review).isSome = true) (since : Bool) :
    (sideValues change since reports).length =
      (reports.map Review.tradeDate).countP (fun date => decide (decide (change.appliedOn ≤ date) = since)) := by
  unfold sideValues
  rw [byDate_eq hnodup, List.filterMap_map, List.countP_map]
  clear hnodup
  induction reports with
  | nil => rfl
  | cons first rest ih =>
      have hrest := ih (fun review hreview => hcarries review (List.mem_cons_of_mem first hreview))
      obtain ⟨value, hvalue⟩ := Option.isSome_iff_exists.mp (hcarries first List.mem_cons_self)
      rw [List.filterMap_cons, List.countP_cons, ← hrest]
      by_cases hside : decide (change.appliedOn ≤ first.tradeDate) = since <;> simp [hside, hvalue]

theorem verdict_ne_tooEarly_iff (hwindow : 1 ≤ change.reviewAfterSessions) :
    (evaluateChange reports change).verdict ≠ .tooEarly ↔
      0 < (sideValues change false reports).length ∧ change.reviewAfterSessions ≤ (sideValues change true reports).length := by
  unfold evaluateChange
  dsimp only
  rcases hbefore : sideValues change false reports with _ | ⟨first, rest⟩
  · simp [meanOf]
  · rcases hafter : sideValues change true reports with _ | ⟨first', rest'⟩
    · have hpos : ¬ change.reviewAfterSessions ≤ 0 := by omega
      simp [meanOf]
      omega
    · simp only [meanOf, List.isEmpty_cons, Bool.false_eq_true, if_false, Option.bind_some, Option.map_some, List.length_cons,
        Nat.zero_lt_succ, true_and]
      by_cases hearly : rest'.length + 1 < change.reviewAfterSessions
      · rw [if_pos hearly]
        simp
        omega
      · rw [if_neg hearly]
        have hverdict : ∀ (unclear expected : Prop) [Decidable unclear] [Decidable expected],
            (if unclear then Verdict.inconclusive else if expected then .asExpected else .againstExpectation) ≠ .tooEarly := by
          intro unclear expected _ _
          split
          · simp
          · split <;> simp
        exact iff_of_true (hverdict _ _) (Nat.not_lt.mp hearly)

/-! ## Windows over sessions -/

theorem countP_take_desc {dates : List Date} (hdesc : dates.Pairwise (fun first second => second < first)) (day : Date) (limit : ℕ) :
    (dates.take limit).countP (fun date => decide (day ≤ date)) = min limit (dates.countP (fun date => decide (day ≤ date))) := by
  induction dates generalizing limit with
  | nil => simp
  | cons first rest ih =>
      rw [List.pairwise_cons] at hdesc
      cases limit with
      | zero => simp
      | succ limit =>
          rw [List.take_succ_cons, List.countP_cons, List.countP_cons, ih hdesc.2]
          by_cases hday : day ≤ first
          · simp [hday]
          · -- the others come before the first, so none is since
            have hnone : rest.countP (fun date => decide (day ≤ date)) = 0 := by
              rw [List.countP_eq_zero]
              intro date hdate hle
              exact hday (Int.le_trans (of_decide_eq_true hle) (Int.le_of_lt (hdesc.1 date hdate)))
            simp [hday, hnone]

/-- The reviews that a change has had since it was applied. -/
def sessionsSince (change : Change) (days : List (ReviewDay ε)) : ℕ :=
  days.countP (fun day => decide (change.appliedOn ≤ day.tradeDate))

theorem sessionsSince_append (days more : List (ReviewDay ε)) :
    sessionsSince change (days ++ more) = sessionsSince change days + sessionsSince change more := List.countP_append

/-- An evaluation of the change that is not too early. -/
def Judged (change : Change) (reports : List (Review ε)) : Prop :=
  ∃ evaluation ∈ evaluate [change] reports, evaluation.verdict ≠ .tooEarly

theorem judged_iff_verdict : Judged change reports ↔
    change.status = .applied ∧ (evaluateChange reports change).verdict ≠ .tooEarly := by
  unfold Judged evaluate
  by_cases happlied : change.status = .applied <;> simp [happlied]

theorem exists_before {earlier rest : List (ReviewDay ε)} {today : ReviewDay ε} (horder : InOrder (earlier ++ today :: rest))
    (hbefore : ∃ day ∈ earlier ++ today :: rest, day.tradeDate < change.appliedOn)
    (hsince : 1 ≤ sessionsSince change (earlier ++ [today])) : ∃ day ∈ earlier, day.tradeDate < change.appliedOn := by
  obtain ⟨before, hmem, hearly⟩ := hbefore
  obtain ⟨after, hafter, hlate⟩ := List.countP_pos_iff.mp hsince
  have hlate := of_decide_eq_true hlate
  have hdates := List.pairwise_map.mp horder.dates
  rw [List.pairwise_append, List.pairwise_cons] at hdates
  obtain ⟨-, ⟨htoday, -⟩, hacross⟩ := hdates
  rcases List.mem_append.mp hmem with hold | hnew
  · exact ⟨before, hold, hearly⟩
  · exfalso
    refine absurd (Int.le_trans hlate ?_) (Int.not_le.mpr hearly)
    rcases List.mem_append.mp hafter with hold | hlast
    · exact Int.le_of_lt (hacross after hold before hnew)
    · rw [List.mem_singleton.mp hlast]
      rcases List.mem_cons.mp hnew with rfl | hrest
      · exact Int.le_refl _
      · exact Int.le_of_lt (htoday before hrest)

variable [DecidableEq ε] {cost : ℚ}

theorem reportsOn_dates {days : List (ReviewDay ε)} {today : ReviewDay ε} (horder : InOrder (days ++ [today])) :
    (reportsOn cost (archiveAfter cost days) today).map Review.tradeDate =
      ((days ++ [today]).map ReviewDay.tradeDate).reverse.take (learningSessions + 1) := by
  unfold reportsOn
  rw [List.map_cons, previousReviews_dates (rowsOf_archiveAfter days) horder, List.map_append, List.reverse_append]
  rfl

/-- Every archived review carries the measure of the change. -/
def Carries (cost : ℚ) (change : Change) (days : List (ReviewDay ε)) : Prop :=
  ∀ row ∈ archiveAfter cost days, (measureFor change.scope change.measure row.payload).isSome = true

theorem subset_archiveAfter (days more : List (ReviewDay ε)) : archiveAfter cost days ⊆ archiveAfter cost (days ++ more) := by
  induction more using List.reverseRecOn with
  | nil => rw [List.append_nil]; exact fun _ h => h
  | append_singleton more last ih =>
      rw [← List.append_assoc, archiveAfter_concat]
      exact fun row hrow => subset_persistReview _ _ (subset_completePrevious _ _ _ _ _ (ih hrow))

theorem exists_row_of_report {days : List (ReviewDay ε)} {today : ReviewDay ε} {review : Review ε}
    (h : review ∈ reportsOn cost (archiveAfter cost days) today) :
    ∃ row ∈ archiveAfter cost (days ++ [today]), row.payload = review := by
  rcases List.mem_cons.mp h with rfl | hprevious
  · rw [archiveAfter_concat]
    unfold runReview persistReview
    split
    next hany =>
      obtain ⟨row, hrow, hsame⟩ := List.any_eq_true.mp hany
      rw [Bool.and_eq_true, decide_eq_true_eq, decide_eq_true_eq] at hsame
      exact ⟨row, hrow, hsame.2⟩
    next => exact ⟨_, List.mem_append_right _ (List.mem_singleton_self _), rfl⟩
  · obtain ⟨row, hrow, hpayload, -⟩ := mem_recentReviews (List.mem_filter.mp hprevious).1
    exact ⟨row, subset_archiveAfter days [today] hrow, hpayload⟩

/-- **On one day a change whose window is over is judged while a report from before it is among the newest.** -/
theorem verdict_on_day_iff {days : List (ReviewDay ε)} {today : ReviewDay ε} (horder : InOrder (days ++ [today]))
    (hvalid : change.Valid) (hcarries : Carries cost change (days ++ [today])) (hbefore : ∃ day ∈ days, day.tradeDate < change.appliedOn)
    (hwindow : change.reviewAfterSessions ≤ sessionsSince change (days ++ [today])) :
    (evaluateChange (reportsOn cost (archiveAfter cost days) today) change).verdict ≠ .tooEarly ↔
      sessionsSince change (days ++ [today]) ≤ learningSessions := by
  have hdates := @reportsOn_dates _ _ cost _ _ horder
  have hdesc : (((days ++ [today]).map ReviewDay.tradeDate).reverse).Pairwise (fun first second => second < first) :=
    List.pairwise_reverse.mpr horder.dates
  have hnodup : ((reportsOn cost (archiveAfter cost days) today).map Review.tradeDate).Nodup := by
    rw [hdates]
    exact (hdesc.imp (fun hlt => (Int.ne_of_lt hlt).symm)).sublist (List.take_sublist _ _)
  have hall : ∀ review ∈ reportsOn cost (archiveAfter cost days) today, (measureFor change.scope change.measure review).isSome = true := by
    intro review hreview
    obtain ⟨row, hrow, rfl⟩ := exists_row_of_report hreview
    exact hcarries row hrow
  -- the sessions since the change among all, and those before it
  have hsince : (((days ++ [today]).map ReviewDay.tradeDate).reverse).countP (fun date => decide (change.appliedOn ≤ date)) =
      sessionsSince change (days ++ [today]) := by
    rw [List.countP_reverse, List.countP_map]
    rfl
  have hless : sessionsSince change (days ++ [today]) < (days ++ [today]).length := by
    refine lt_of_le_of_ne List.countP_le_length (fun hall => ?_)
    obtain ⟨day, hday, hearly⟩ := hbefore
    have hlate := List.countP_eq_length.mp hall day (List.mem_append_left _ hday)
    exact absurd (of_decide_eq_true hlate) (Int.not_le.mpr hearly)
  have hcount := countP_take_desc hdesc change.appliedOn (learningSessions + 1)
  rw [hsince] at hcount
  have hsplit := @List.length_eq_countP_add_countP _ (fun date => decide (change.appliedOn ≤ date))
    (((days ++ [today]).map ReviewDay.tradeDate).reverse.take (learningSessions + 1))
  rw [hcount, List.length_take, List.length_reverse, List.length_map] at hsplit
  rw [verdict_ne_tooEarly_iff hvalid.window.1, length_sideValues hnodup hall, length_sideValues hnodup hall, hdates]
  have htrue : ∀ dates : List Date, dates.countP (fun date => decide (decide (change.appliedOn ≤ date) = true)) =
      dates.countP (fun date => decide (change.appliedOn ≤ date)) :=
    fun dates => List.countP_congr (fun date _ => by simp)
  have hfalse : ∀ dates : List Date, dates.countP (fun date => decide (decide (change.appliedOn ≤ date) = false)) =
      dates.countP (fun date => decide (¬ decide (change.appliedOn ≤ date) = true)) :=
    fun dates => List.countP_congr (fun date _ => by simp)
  rw [htrue, hfalse, hcount]
  unfold learningSessions at hsplit ⊢
  omega

/-- From the session on which its window is over, every evaluation of a change judges it. -/
def StaysJudged (cost : ℚ) (change : Change) (days : List (ReviewDay ε)) : Prop :=
  ∀ earlier today rest, days = earlier ++ today :: rest → change.reviewAfterSessions ≤ sessionsSince change (earlier ++ [today]) →
    Judged change (reportsOn cost (archiveAfter cost earlier) today)

/-- **A change stays judged as long as no more reports have come since than a run reads back.** -/
theorem stays_judged_iff {days : List (ReviewDay ε)} (horder : InOrder days) (hvalid : change.Valid) (hcarries : Carries cost change days)
    (hbefore : ∃ day ∈ days, day.tradeDate < change.appliedOn) :
    StaysJudged cost change days ↔ sessionsSince change days < change.reviewAfterSessions ∨
      (change.status = .applied ∧ sessionsSince change days ≤ learningSessions) := by
  have hpositive := hvalid.window.1
  constructor
  · intro hstays
    by_cases hover : sessionsSince change days < change.reviewAfterSessions
    · exact Or.inl hover
    · rw [Nat.not_lt] at hover
      obtain ⟨earlier, today, rfl⟩ := (List.eq_nil_or_concat' days).resolve_left (List.ne_nil_of_mem hbefore.choose_spec.1)
      obtain ⟨happlied, hverdict⟩ := judged_iff_verdict.mp (hstays earlier today [] rfl hover)
      have hbehind := exists_before horder hbefore (Nat.le_trans hpositive hover)
      exact Or.inr ⟨happlied, (verdict_on_day_iff horder hvalid hcarries hbehind hover).mp hverdict⟩
  · rintro hholds earlier today rest rfl hover
    have hsplit : earlier ++ today :: rest = (earlier ++ [today]) ++ rest := by simp
    have hcount := @sessionsSince_append _ change (earlier ++ [today]) rest
    rw [← hsplit] at hcount
    have hbehind := exists_before horder hbefore (Nat.le_trans hpositive hover)
    rw [hsplit] at horder hcarries
    have hcarries' : Carries cost change (earlier ++ [today]) := fun row hrow => hcarries row (subset_archiveAfter _ rest hrow)
    rcases hholds with hsoon | ⟨happlied, hfew⟩
    · omega
    · exact judged_iff_verdict.mpr ⟨happlied,
        (verdict_on_day_iff horder.left hvalid hcarries' hbehind hover).mpr (by omega)⟩

end Evaluate

/-! ## Witness and counterexample -/

/-- A session with one stock that rose without an entry. -/
def missedDay (date : Date) : ReviewDay Unit where
  tradeDate := date
  now := date
  stocks := [⟨"600176", "relay_race", false, some ⟨some 10, some 11, some 11, some 10, some 11, some 10⟩, true, true, none, false, none⟩]
  benchmark := none
  bars _ := none
  extra := ()

/-- A change of day 1 that is to lower the misses. -/
def fewerMisses (window : ℕ) : Change := ⟨.applied, "relay_race", .missedRate, .down, window, 1⟩

/-- A change with a window of two sessions, after the second. -/
theorem stays_judged_iff_short : StaysJudged 0 (fewerMisses 2) [missedDay 0, missedDay 1, missedDay 2] := by
  refine (stays_judged_iff ⟨by decide, by decide⟩ ⟨by decide, by decide⟩ ?_ ⟨missedDay 0, List.mem_cons_self, by decide⟩).mpr
    (Or.inr ⟨rfl, by decide⟩)
  unfold Carries
  decide +kernel

/-- A window of twenty-one sessions is over on the twenty-first, when no report from before is read. -/
theorem long_window_is_never_judged : ¬ ∀ (change : Change) (days : List (ReviewDay Unit)), InOrder days → change.Valid →
    Carries 0 change days → (∃ day ∈ days, day.tradeDate < change.appliedOn) → StaysJudged 0 change days := by
  intro h
  have hjudged := h (fewerMisses 21) (((List.range 21).map (fun n => missedDay n)) ++ [missedDay 21]) ⟨by decide +kernel, by decide +kernel⟩
    ⟨by decide, by decide⟩ (by unfold Carries; decide +kernel) 
    ⟨missedDay 0, List.mem_append_left _ (List.mem_map.mpr ⟨0, by decide, rfl⟩), by decide⟩ _ _ [] rfl
    (by decide +kernel)
  exact absurd (judged_iff_verdict.mp hjudged).2 (by decide +kernel)

end TradingHarness.Outcomes
