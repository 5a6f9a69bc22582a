import TradingHarness.Outcomes.Changes

set_option autoImplicit false

/-! # What counts as evidence for a change

Two histories of reviews that agree on the sessions since a change, and the measure that `evaluate` finds since then. A
report's measure is read from `learning`, which looks back over earlier sessions. -/

namespace TradingHarness.Outcomes

section Learned

variable {ε : Type} [DecidableEq ε] {cost : ℚ}

/-! ## What a report has learned -/

/-- The learning of a session's newest review. -/
def learnedOn (date : Date) (archive : List (ArchiveRow ε)) : Option (List PlaybookRow) :=
  (newestReview date archive).map Review.learning

variable {days : List (ReviewDay ε)} {today : ReviewDay ε}

theorem learnedOn_today (horder : InOrder (days ++ [today])) :
    learnedOn today.tradeDate (archiveAfter cost (days ++ [today])) = some (reviewOf cost today (archiveAfter cost days)).learning := by
  unfold learnedOn
  rw [archiveAfter_concat, newestReview_runReview (rowsOf_archiveAfter days) horder, if_pos rfl]
  rfl

theorem learnedOn_concat (horder : InOrder (days ++ [today])) {date : Date} (hdate : date ∈ days.map ReviewDay.tradeDate) :
    learnedOn date (archiveAfter cost (days ++ [today])) = learnedOn date (archiveAfter cost days) := by
  have hrows := @rowsOf_archiveAfter _ _ cost days
  unfold learnedOn
  rw [archiveAfter_concat, newestReview_runReview hrows horder, if_neg (Int.ne_of_lt (horder.date_lt hdate))]
  rcases hcompleted : completed cost (previousReviews today.tradeDate (archiveAfter cost days)) today.tradeDate today.bars with _ | review
  · rfl
  · by_cases hsame : review.tradeDate = date
    · obtain ⟨pending, hpending, -, hreview⟩ := of_completed hcompleted
      have hmem := List.mem_of_find?_eq_some hpending
      rw [previousReviews_eq hrows horder] at hmem
      obtain ⟨other, hother, hnewest⟩ := List.mem_filterMap.mp hmem
      obtain ⟨newest, hnewest', htrade⟩ := newestReview_isSome hrows (List.mem_reverse.mp (List.mem_of_mem_take hother))
      rw [hnewest] at hnewest'
      obtain rfl := Option.some.inj hnewest'
      have hdate' : other = date := by
        rw [← htrade, ← hsame, hreview]
      rw [Option.filter_some, if_pos (decide_eq_true hsame), Option.some_or, ← hdate', hnewest, Option.map_some, Option.map_some, hreview]
    · rw [Option.filter_some, if_neg (by simpa using hsame), Option.none_or]

/-- **What a session's report has learned stays.** -/
theorem learnedOn_session {earlier rest : List (ReviewDay ε)} (horder : InOrder (earlier ++ today :: rest)) :
    learnedOn today.tradeDate (archiveAfter cost (earlier ++ today :: rest)) =
      some (reviewOf cost today (archiveAfter cost earlier)).learning := by
  induction rest using List.reverseRecOn with
  | nil => exact learnedOn_today horder
  | append_singleton rest last ih =>
      rw [← List.cons_append, ← List.append_assoc] at horder ⊢
      rw [learnedOn_concat horder (List.mem_map.mpr ⟨today, by simp, rfl⟩)]
      exact ih horder.left

theorem reportsOn_learned (horder : InOrder (days ++ [today])) :
    (reportsOn cost (archiveAfter cost days) today).map (fun review => (review.tradeDate, some review.learning)) =
      (((days ++ [today]).map ReviewDay.tradeDate).reverse.take (learningSessions + 1)).map (fun date =>
        (date, learnedOn date (archiveAfter cost (days ++ [today])))) := by
  have hrows := @rowsOf_archiveAfter _ _ cost days
  have hdates : ((days ++ [today]).map ReviewDay.tradeDate).reverse.take (learningSessions + 1) =
      today.tradeDate :: (days.map ReviewDay.tradeDate).reverse.take learningSessions := by
    rw [List.map_append, List.reverse_append]
    rfl
  unfold reportsOn
  rw [hdates, List.map_cons, List.map_cons, learnedOn_today horder, previousReviews_eq hrows horder, List.map_filterMap]
  have hall : ∀ date ∈ (days.map ReviewDay.tradeDate).reverse.take learningSessions,
      (newestReview date (archiveAfter cost days)).map (fun review => (review.tradeDate, some review.learning)) =
        some (date, learnedOn date (archiveAfter cost (days ++ [today]))) := by
    intro date hdate
    have hmem := List.mem_reverse.mp (List.mem_of_mem_take hdate)
    obtain ⟨review, hnewest, htrade⟩ := newestReview_isSome hrows hmem
    rw [learnedOn_concat horder hmem]
    unfold learnedOn
    rw [hnewest, Option.map_some, Option.map_some, htrade]
  rw [List.filterMap_congr hall]
  exact congrArg (List.cons _) (congrFun List.filterMap_eq_map _)

/-! ## The measure since a change -/

/-- `_measure_for`, of what a report has learned. -/
def measureIn (scope : String) (measure : MeasureName) (rows : List PlaybookRow) : Option ℚ :=
  if scope = "all" then meanOf 10000 (rows.filterMap (PlaybookRow.value measure))
  else (rows.find? (fun row => row.playbook == scope)).bind (PlaybookRow.value measure)

/-- The reports that the evaluation of a history's last day sees. -/
def lastReports (cost : ℚ) (days : List (ReviewDay ε)) : List (Review ε) :=
  match days.getLast? with
  | none => []
  | some today => reportsOn cost (archiveAfter cost days.dropLast) today

theorem lastReports_concat : lastReports cost (days ++ [today]) = reportsOn cost (archiveAfter cost days) today := by
  unfold lastReports
  rw [List.getLast?_concat, List.dropLast_concat]

/-- What `evaluate` says of the sessions since the change. -/
def evidence (cost : ℚ) (change : Change) (days : List (ReviewDay ε)) : List (Option ℚ × ℕ) :=
  (evaluate [change] (lastReports cost days)).map (fun evaluation => (evaluation.after, evaluation.sessionsAfter))

variable {change : Change}

theorem evidence_eq (days : List (ReviewDay ε)) : evidence cost change days =
    if change.status = .applied then
      [(meanOf 10000 (sideValues change true (lastReports cost days)), (sideValues change true (lastReports cost days)).length)]
    else [] := by
  unfold evidence evaluate
  by_cases happlied : change.status = .applied
  · rw [if_pos happlied]
    simp [happlied, evaluateChange]
  · simp [happlied]

/-- **The values since the change are those of the last twenty-one sessions since.** -/
theorem sideValues_since {before since : List Date} (horder : InOrder (days ++ [today]))
    (hdates : (days ++ [today]).map ReviewDay.tradeDate = before ++ since) (hbefore : ∀ date ∈ before, date < change.appliedOn)
    (hsince : ∀ date ∈ since, change.appliedOn ≤ date) :
    sideValues change true (lastReports cost (days ++ [today])) =
      (since.reverse.take (learningSessions + 1)).filterMap (fun date =>
        (learnedOn date (archiveAfter cost (days ++ [today]))).bind (measureIn change.scope change.measure)) := by
  have hlearned := @reportsOn_learned _ _ cost _ _ horder
  have hnodup : ((lastReports cost (days ++ [today])).map Review.tradeDate).Nodup := by
    rw [lastReports_concat, reportsOn_dates horder]
    exact ((List.pairwise_reverse.mpr horder.dates).imp (fun hlt => (Int.ne_of_lt hlt).symm)).sublist (List.take_sublist _ _)
  unfold sideValues
  rw [byDate_eq hnodup, lastReports_concat, List.filterMap_map]
  -- each report is read by its date and what it has learned
  have hread : ∀ review ∈ reportsOn cost (archiveAfter cost days) today,
      ((fun entry : Date × Review ε => if decide (change.appliedOn ≤ entry.1) = true then measureFor change.scope change.measure entry.2
        else none) ∘ fun review => (review.tradeDate, review)) review =
      ((fun entry : Date × Option (List PlaybookRow) => if change.appliedOn ≤ entry.1 then
        entry.2.bind (measureIn change.scope change.measure) else none) ∘
        fun review => (review.tradeDate, some review.learning)) review := by
    intro review _
    simp only [Function.comp_apply, decide_eq_true_eq, Option.bind_some]
    rfl
  rw [List.filterMap_congr hread, ← List.filterMap_map, hlearned, List.filterMap_map, hdates, List.reverse_append, List.take_append,
    List.filterMap_append]
  have hnone : ∀ date ∈ before.reverse.take (learningSessions + 1 - since.reverse.length),
      ((fun entry : Date × Option (List PlaybookRow) => if change.appliedOn ≤ entry.1 then
        entry.2.bind (measureIn change.scope change.measure) else none) ∘
        fun date => (date, learnedOn date (archiveAfter cost (days ++ [today])))) date = none := by
    intro date hdate
    have hearly := hbefore date (List.mem_reverse.mp (List.mem_of_mem_take hdate))
    exact if_neg (Int.not_le.mpr hearly)
  rw [List.filterMap_eq_nil_iff.mpr hnone, List.append_nil]
  refine List.filterMap_congr (fun date hdate => ?_)
  exact if_pos (hsince date (List.mem_reverse.mp (List.mem_of_mem_take hdate)))

end Learned

/-! ## Two histories -/

section Histories

variable {ε : Type}

/-- Days whose reviews read the same outcomes and bars. -/
structure SameOutcomes (day other : ReviewDay ε) : Prop where
  tradeDate : day.tradeDate = other.tradeDate
  stocks : day.stocks = other.stocks
  benchmark : day.benchmark = other.benchmark
  bars : day.bars = other.bars

/-- Reviews with the same stocks. -/
structure SameStocks (review other : Review ε) : Prop where
  tradeDate : review.tradeDate = other.tradeDate
  stocks : review.stocks = other.stocks
  benchmark : review.benchmark = other.benchmark

theorem sameStocks_filterMap {read read' : Date → Option (Review ε)} {dates : List Date}
    (h : ∀ date ∈ dates, Option.Rel SameStocks (read date) (read' date)) :
    List.Forall₂ SameStocks (dates.filterMap read) (dates.filterMap read') := by
  induction dates with
  | nil => exact List.Forall₂.nil
  | cons first rest ih =>
      have hfirst := h first List.mem_cons_self
      have hrest := ih (fun date hdate => h date (List.mem_cons_of_mem first hdate))
      rw [List.filterMap_cons, List.filterMap_cons]
      generalize read first = review, read' first = other at hfirst
      cases hfirst with
      | none => exact hrest
      | some hsame => exact List.Forall₂.cons hsame hrest

theorem sameStocks_flatMap {reviews others : List (Review ε)} (h : List.Forall₂ SameStocks reviews others) :
    reviews.flatMap Review.stocks = others.flatMap Review.stocks := by
  induction h with
  | nil => rfl
  | cons hsame _ ih => rw [List.flatMap_cons, List.flatMap_cons, hsame.stocks, ih]

theorem sameStocks_pending {reviews others : List (Review ε)} (h : List.Forall₂ SameStocks reviews others) :
    Option.Rel SameStocks (pendingReview reviews) (pendingReview others) := by
  unfold pendingReview
  induction h with
  | nil => exact Option.Rel.none
  | cons hsame _ ih =>
      rw [List.find?_cons, List.find?_cons, hsame.stocks]
      split
      next => exact Option.Rel.some hsame
      next => exact ih

theorem pendingReview_append (newer older : List (Review ε)) :
    pendingReview (newer ++ older) = (pendingReview newer).or (pendingReview older) := List.find?_append

variable {cost : ℚ} {before before' : List (ReviewDay ε)} {pairs : List (ReviewDay ε × ReviewDay ε)}

/-- Two histories, the days since the change in pairs. -/
structure Histories (before before' : List (ReviewDay ε)) (pairs : List (ReviewDay ε × ReviewDay ε)) : Prop where
  order : InOrder (before ++ pairs.map Prod.fst)
  order' : InOrder (before' ++ pairs.map Prod.snd)
  same : ∀ pair ∈ pairs, SameOutcomes pair.1 pair.2

theorem Histories.dates (h : Histories before before' pairs) :
    (pairs.map Prod.snd).map ReviewDay.tradeDate = (pairs.map Prod.fst).map ReviewDay.tradeDate := by
  rw [List.map_map, List.map_map]
  exact List.map_congr_left (fun pair hpair => (h.same pair hpair).tradeDate.symm)

theorem Histories.left {more : List (ReviewDay ε × ReviewDay ε)} (h : Histories before before' (pairs ++ more)) :
    Histories before before' pairs := by
  have horder := h.order
  have horder' := h.order'
  rw [List.map_append, ← List.append_assoc] at horder horder'
  exact ⟨horder.left, horder'.left, fun pair hpair => h.same pair (List.mem_append_left more hpair)⟩

theorem sameStocks_completed {reviews others : List (Review ε)} (h : List.Forall₂ SameStocks reviews others) (tradeDate : Date)
    (bars : String → Option DayBar) :
    Option.Rel SameStocks (completed cost reviews tradeDate bars) (completed cost others tradeDate bars) := by
  unfold completed
  have hpending := sameStocks_pending h
  generalize pendingReview reviews = review, pendingReview others = other at hpending
  cases hpending with
  | none => exact Option.Rel.none
  | @some review other hsame =>
      rw [Option.bind_some, Option.bind_some, hsame.stocks, hsame.benchmark]
      split
      next => exact Option.Rel.some ⟨hsame.tradeDate, rfl, rfl⟩
      next => exact Option.Rel.none

theorem completed_newer {newer older : List (Review ε)} {date : Date} (h : ∀ review ∈ older, review.tradeDate ≠ date)
    (tradeDate : Date) (bars : String → Option DayBar) :
    (completed cost (newer ++ older) tradeDate bars).filter (fun review => decide (review.tradeDate = date)) =
      (completed cost newer tradeDate bars).filter (fun review => decide (review.tradeDate = date)) := by
  have happend := pendingReview_append newer older
  rcases hnewer : pendingReview newer with _ | pending
  · rw [hnewer, Option.none_or] at happend
    have hnone : completed cost newer tradeDate bars = none := by
      unfold completed
      rw [hnewer]
      rfl
    rw [hnone, Option.filter_none, Option.filter_eq_none_iff]
    intro review hreview
    obtain ⟨pending, hpending, -, rfl⟩ := of_completed hreview
    rw [happend] at hpending
    simpa using h pending (List.mem_of_find?_eq_some hpending)
  · unfold completed
    rw [happend, hnewer]
    rfl

theorem sameStocks_filter {review other : Option (Review ε)} (h : Option.Rel SameStocks review other) (date : Date) :
    Option.Rel SameStocks (review.filter (fun review => decide (review.tradeDate = date)))
      (other.filter (fun review => decide (review.tradeDate = date))) := by
  cases h with
  | none => exact Option.Rel.none
  | @some review other hsame =>
      rw [Option.filter_some, Option.filter_some, hsame.tradeDate]
      split
      next => exact Option.Rel.some hsame
      next => exact Option.Rel.none

theorem sameStocks_or {review other review' other' : Option (Review ε)} (h : Option.Rel SameStocks review other)
    (h' : Option.Rel SameStocks review' other') : Option.Rel SameStocks (review.or review') (other.or other') := by
  cases h with
  | none => exact h'
  | some hsame => exact Option.Rel.some hsame

variable [DecidableEq ε]

/-- Of each session since the change both archives have the same stocks. -/
def SameSince (cost : ℚ) (before before' : List (ReviewDay ε)) (pairs : List (ReviewDay ε × ReviewDay ε)) : Prop :=
  ∀ date ∈ (pairs.map Prod.fst).map ReviewDay.tradeDate,
    Option.Rel SameStocks (newestReview date (archiveAfter cost (before ++ pairs.map Prod.fst)))
      (newestReview date (archiveAfter cost (before' ++ pairs.map Prod.snd)))

/-- What a review reads: first the sessions since, then those before. -/
theorem previousReviews_since {days since : List (ReviewDay ε)} {today : ReviewDay ε} (horder : InOrder (days ++ since ++ [today])) :
    previousReviews today.tradeDate (archiveAfter cost (days ++ since)) =
      ((since.map ReviewDay.tradeDate).reverse.take learningSessions).filterMap
        (fun date => newestReview date (archiveAfter cost (days ++ since))) ++
      ((days.map ReviewDay.tradeDate).reverse.take (learningSessions - since.length)).filterMap
        (fun date => newestReview date (archiveAfter cost (days ++ since))) := by
  rw [previousReviews_eq (rowsOf_archiveAfter (days ++ since)) horder, List.map_append, List.reverse_append, List.take_append,
    List.filterMap_append, List.length_reverse, List.length_map]

theorem older_ne {days since : List (ReviewDay ε)} (horder : InOrder (days ++ since)) {limit : ℕ} {date : Date}
    (hdate : date ∈ since.map ReviewDay.tradeDate) {review : Review ε}
    (hreview : review ∈ ((days.map ReviewDay.tradeDate).reverse.take limit).filterMap
      (fun date => newestReview date (archiveAfter cost (days ++ since)))) : review.tradeDate ≠ date := by
  obtain ⟨other, hother, hnewest⟩ := List.mem_filterMap.mp hreview
  have hmem := List.mem_reverse.mp (List.mem_of_mem_take hother)
  obtain ⟨newest, hnewest', htrade⟩ := newestReview_isSome (@rowsOf_archiveAfter _ _ cost (days ++ since))
    (List.map_append ▸ List.mem_append_left _ hmem)
  rw [hnewest] at hnewest'
  obtain rfl := Option.some.inj hnewest'
  have hdates := horder.dates
  rw [List.map_append] at hdates
  rw [htrade]
  exact Int.ne_of_lt ((List.pairwise_append.mp hdates).2.2 other hmem date hdate)

/-- The reviews of the sessions since the change, as the next review reads them. -/
theorem sameStocks_newer (hsame : SameSince cost before before' pairs) (hpairs : Histories before before' pairs) :
    List.Forall₂ SameStocks
      ((((pairs.map Prod.fst).map ReviewDay.tradeDate).reverse.take learningSessions).filterMap
        (fun date => newestReview date (archiveAfter cost (before ++ pairs.map Prod.fst))))
      ((((pairs.map Prod.snd).map ReviewDay.tradeDate).reverse.take learningSessions).filterMap
        (fun date => newestReview date (archiveAfter cost (before' ++ pairs.map Prod.snd)))) := by
  rw [hpairs.dates]
  exact sameStocks_filterMap (fun date hdate => hsame date (List.mem_reverse.mp (List.mem_of_mem_take hdate)))

/-- **One more session since the change.** -/
theorem sameSince_concat {pair : ReviewDay ε × ReviewDay ε} (hpairs : Histories before before' (pairs ++ [pair]))
    (hsame : SameSince cost before before' pairs) : SameSince cost before before' (pairs ++ [pair]) := by
  have hpair := hpairs.same pair (List.mem_append_right _ (List.mem_singleton_self _))
  have hleft := hpairs.left
  have horder := hpairs.order
  have horder' := hpairs.order'
  rw [List.map_append, ← List.append_assoc, List.map_singleton] at horder horder'
  intro date hdate
  rw [List.map_append, List.map_append, List.map_singleton, List.map_singleton, ← List.append_assoc, ← List.append_assoc,
    archiveAfter_concat, archiveAfter_concat, newestReview_runReview (rowsOf_archiveAfter _) horder,
    newestReview_runReview (rowsOf_archiveAfter _) horder', ← hpair.tradeDate]
  by_cases htoday : date = pair.1.tradeDate
  · rw [if_pos htoday, if_pos htoday]
    refine Option.Rel.some ⟨hpair.tradeDate, ?_, hpair.benchmark⟩
    change reviewStocks cost _ _ = reviewStocks cost _ _
    rw [hpair.stocks, hpair.benchmark]
  · rw [if_neg htoday, if_neg htoday]
    have hold : date ∈ (pairs.map Prod.fst).map ReviewDay.tradeDate := by
      rw [List.map_append, List.map_append, List.mem_append] at hdate
      exact hdate.resolve_right (fun hlast => htoday (by simpa using hlast))
    have hold' : date ∈ (pairs.map Prod.snd).map ReviewDay.tradeDate := by
      rw [hleft.dates]
      exact hold
    -- the same one of the sessions since is completed, or none of them
    have hread := @previousReviews_since _ cost _ _ _ _ horder
    have hread' := @previousReviews_since _ cost _ _ _ _ horder'
    rw [← hpair.tradeDate] at hread'
    rw [hread, hread', completed_newer (fun review hreview => older_ne hleft.order hold hreview),
      completed_newer (fun review hreview => older_ne hleft.order' hold' hreview), hpair.bars]
    exact sameStocks_or (sameStocks_filter (sameStocks_completed (sameStocks_newer hsame hleft) _ _) date) (hsame date hold)

/-- **The stocks of the sessions since do not depend on those before.** -/
theorem sameSince (hpairs : Histories before before' pairs) : SameSince cost before before' pairs := by
  induction pairs using List.reverseRecOn with
  | nil => exact fun date hdate => absurd hdate List.not_mem_nil
  | append_singleton pairs pair ih => exact sameSince_concat hpairs (ih hpairs.left)

theorem sameLearning {pair : ReviewDay ε × ReviewDay ε} (hpairs : Histories before before' (pairs ++ [pair]))
    (hclear : learningSessions ≤ pairs.length ∨ (before = [] ∧ before' = [])) :
    (reviewOf cost pair.1 (archiveAfter cost (before ++ pairs.map Prod.fst))).learning =
      (reviewOf cost pair.2 (archiveAfter cost (before' ++ pairs.map Prod.snd))).learning := by
  have hpair := hpairs.same pair (List.mem_append_right _ (List.mem_singleton_self _))
  have horder := hpairs.order
  have horder' := hpairs.order'
  rw [List.map_append, ← List.append_assoc, List.map_singleton] at horder horder'
  have hnone : ∀ days : List (ReviewDay ε), learningSessions ≤ pairs.length ∨ days = [] →
      (days.map ReviewDay.tradeDate).reverse.take (learningSessions - pairs.length) = [] := by
    rintro days (hlong | rfl)
    · rw [Nat.sub_eq_zero_of_le hlong, List.take_zero]
    · rw [List.map_nil, List.reverse_nil, List.take_nil]
  have hread := @previousReviews_since _ cost _ _ _ _ horder
  have hread' := @previousReviews_since _ cost _ _ _ _ horder'
  rw [List.length_map, hnone _ (hclear.imp_right And.left), List.filterMap_nil, List.append_nil] at hread
  rw [List.length_map, hnone _ (hclear.imp_right And.right), List.filterMap_nil, List.append_nil] at hread'
  change learningRows _ = learningRows _
  rw [hread, hread', sameStocks_flatMap (sameStocks_newer (sameSince hpairs.left) hpairs.left), hpair.stocks, hpair.benchmark]

end Histories

end TradingHarness.Outcomes
