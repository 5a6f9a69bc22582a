import TradingHarness.Outcomes.Reviews

set_option autoImplicit false

/-! # One review a session

What the archive holds after sessions that are reviewed one after the other, and what the next review reads of it. -/

namespace TradingHarness.Outcomes

section Archive

variable {ε : Type}

/-- Sessions in order, each reviewed once, at later and later times. -/
structure InOrder (days : List (ReviewDay ε)) : Prop where
  dates : (days.map ReviewDay.tradeDate).Pairwise (· < ·)
  times : (days.map ReviewDay.now).Pairwise (· < ·)

theorem InOrder.left {days others : List (ReviewDay ε)} (h : InOrder (days ++ others)) : InOrder days := by
  refine ⟨?_, ?_⟩
  · have hdates := h.dates
    rw [List.map_append] at hdates
    exact (List.pairwise_append.mp hdates).1
  · have htimes := h.times
    rw [List.map_append] at htimes
    exact (List.pairwise_append.mp htimes).1

theorem InOrder.date_lt {days : List (ReviewDay ε)} {today : ReviewDay ε} (h : InOrder (days ++ [today])) {date : Date}
    (hdate : date ∈ days.map ReviewDay.tradeDate) : date < today.tradeDate := by
  have hdates := h.dates
  rw [List.map_append] at hdates
  exact (List.pairwise_append.mp hdates).2.2 date hdate _ (List.mem_singleton_self _)

theorem InOrder.now_lt {days : List (ReviewDay ε)} {today : ReviewDay ε} (h : InOrder (days ++ [today])) {now : Timestamp}
    (hnow : now ∈ days.map ReviewDay.now) : now < today.now := by
  have htimes := h.times
  rw [List.map_append] at htimes
  exact (List.pairwise_append.mp htimes).2.2 now hnow _ (List.mem_singleton_self _)

/-- What is known of the rows after some days. -/
structure RowsOf (days : List (ReviewDay ε)) (archive : List (ArchiveRow ε)) : Prop where
  dates : ∀ date, date ∈ days.map ReviewDay.tradeDate ↔ ∃ row ∈ archive, row.effectiveDate = date
  payload : ∀ row ∈ archive, row.payload.tradeDate = row.effectiveDate
  times : ∀ row ∈ archive, row.availableAt ∈ days.map ReviewDay.now
  completed : ∀ row ∈ archive, ∀ date, row.payload.completedOn = some date → date ∈ days.map ReviewDay.tradeDate

/-- The newest review of a date. -/
def newestReview (date : Date) (archive : List (ArchiveRow ε)) : Option (Review ε) :=
  (Newest.newest ArchiveRow.effectiveDate ArchiveRow.availableAt date archive).map ArchiveRow.payload

theorem mem_recentReviews {limit : ℕ} {archive : List (ArchiveRow ε)} {review : Review ε} (h : review ∈ recentReviews limit archive) :
    ∃ row ∈ archive, row.payload = review ∧ newestReview row.effectiveDate archive = some review := by
  unfold recentReviews Newest.recent at h
  obtain ⟨row, hrow, rfl⟩ := List.mem_map.mp h
  obtain ⟨date, -, hnewest⟩ := List.mem_filterMap.mp hrow
  obtain ⟨hmem, hdate⟩ := Newest.mem_of_newest hnewest
  refine ⟨row, hmem, rfl, ?_⟩
  unfold newestReview
  rw [hdate, hnewest]
  rfl

variable {days : List (ReviewDay ε)} {today : ReviewDay ε} {archive : List (ArchiveRow ε)}

theorem newestReview_isSome (hrows : RowsOf days archive) {date : Date} (hdate : date ∈ days.map ReviewDay.tradeDate) :
    ∃ review, newestReview date archive = some review ∧ review.tradeDate = date := by
  obtain ⟨row, hrow, rfl⟩ := (hrows.dates date).mp hdate
  obtain ⟨newest, hnewest⟩ := Option.isSome_iff_exists.mp
    (@Newest.newest_isSome _ _ _ ArchiveRow.effectiveDate ArchiveRow.availableAt _ _ hrow)
  obtain ⟨hmem, hkey⟩ := Newest.mem_of_newest hnewest
  refine ⟨newest.payload, ?_, (hrows.payload newest hmem).trans hkey⟩
  unfold newestReview
  rw [hnewest]
  rfl

theorem keysDesc_rows (hrows : RowsOf days archive) (horder : InOrder days) :
    Newest.keysDesc ArchiveRow.effectiveDate archive = (days.map ReviewDay.tradeDate).reverse := by
  refine Newest.keysDesc_eq (List.pairwise_reverse.mpr horder.dates) (fun date => ?_)
  rw [List.mem_reverse]
  exact hrows.dates date

/-! ## What the next review reads -/

theorem mem_previousReviews {review : Review ε} (h : review ∈ previousReviews today.tradeDate archive) (hrows : RowsOf days archive) :
    review.tradeDate ∈ days.map ReviewDay.tradeDate := by
  obtain ⟨row, hrow, rfl, -⟩ := mem_recentReviews (List.mem_filter.mp h).1
  rw [hrows.payload row hrow]
  exact (hrows.dates _).mpr ⟨row, hrow, rfl⟩

/-- **The next review reads the newest reviews of the last twenty sessions.** -/
theorem previousReviews_eq (hrows : RowsOf days archive) (horder : InOrder (days ++ [today])) :
    previousReviews today.tradeDate archive =
      ((days.map ReviewDay.tradeDate).reverse.take learningSessions).filterMap (fun date => newestReview date archive) := by
  have hrecent : recentReviews learningSessions archive =
      ((days.map ReviewDay.tradeDate).reverse.take learningSessions).filterMap (fun date => newestReview date archive) := by
    unfold recentReviews Newest.recent
    rw [keysDesc_rows hrows horder.left, List.map_filterMap]
    rfl
  unfold previousReviews
  rw [hrecent, List.filter_eq_self]
  intro review hreview
  obtain ⟨date, hdate, hnewest⟩ := List.mem_filterMap.mp hreview
  have hmem : date ∈ days.map ReviewDay.tradeDate := List.mem_reverse.mp (List.mem_of_mem_take hdate)
  obtain ⟨review', hnewest', htrade⟩ := newestReview_isSome hrows hmem
  rw [hnewest] at hnewest'
  rw [Option.some.inj hnewest', htrade]
  exact decide_eq_true (Int.ne_of_lt (horder.date_lt hmem))

theorem previousReviews_dates (hrows : RowsOf days archive) (horder : InOrder (days ++ [today])) :
    (previousReviews today.tradeDate archive).map Review.tradeDate = (days.map ReviewDay.tradeDate).reverse.take learningSessions := by
  rw [previousReviews_eq hrows horder, List.map_filterMap]
  have hall : ∀ date ∈ (days.map ReviewDay.tradeDate).reverse.take learningSessions,
      (newestReview date archive).map Review.tradeDate = some date := by
    intro date hdate
    obtain ⟨review, hnewest, htrade⟩ := newestReview_isSome hrows (List.mem_reverse.mp (List.mem_of_mem_take hdate))
    rw [hnewest, Option.map_some, htrade]
  rw [List.filterMap_congr hall, List.filterMap_some]

/-! ## Completing a review -/

/-- The payload that completing writes. -/
def completed (cost : ℚ) (previous : List (Review ε)) (tradeDate : Date) (bars : String → Option DayBar) : Option (Review ε) :=
  (pendingReview previous).bind (fun pending =>
    if pending.stocks.any (isFilled bars) then
      some { pending with
        stocks := pending.stocks.map (fillForward cost pending.benchmark bars)
        completedOn := some tradeDate }
    else none)

theorem of_completed {cost : ℚ} {previous : List (Review ε)} {tradeDate : Date} {bars : String → Option DayBar} {review : Review ε}
    (h : completed cost previous tradeDate bars = some review) :
    ∃ pending, pendingReview previous = some pending ∧ pending.stocks.any (isFilled bars) = true ∧
      review = { pending with
        stocks := pending.stocks.map (fillForward cost pending.benchmark bars)
        completedOn := some tradeDate } := by
  unfold completed at h
  obtain ⟨pending, hpending, hreview⟩ := Option.bind_eq_some_iff.mp h
  split at hreview
  next hfilled => exact ⟨pending, hpending, hfilled, (Option.some.inj hreview).symm⟩
  next => exact absurd hreview (by simp)

theorem newestReview_concat_self {date : Date} {now : Timestamp} {review : Review ε}
    (hlater : ∀ row ∈ archive, row.effectiveDate = date → row.availableAt < now) :
    newestReview date (archive ++ [⟨date, now, review⟩]) = some review := by
  have hnewest := @Newest.newest_concat_self _ _ _ ArchiveRow.effectiveDate ArchiveRow.availableAt archive ⟨date, now, review⟩ hlater
  unfold newestReview
  rw [hnewest]
  rfl

theorem newestReview_concat_ne {row : ArchiveRow ε} {date : Date} (hne : row.effectiveDate ≠ date) :
    newestReview date (archive ++ [row]) = newestReview date archive := by
  unfold newestReview
  rw [Newest.newest_concat_ne hne]

/-! ## The rows of a run -/

variable [DecidableEq ε] {cost : ℚ}

theorem archiveAfter_concat (days : List (ReviewDay ε)) (today : ReviewDay ε) :
    archiveAfter cost (days ++ [today]) = runReview cost (archiveAfter cost days) today := by
  unfold archiveAfter
  rw [List.foldl_append]
  rfl

theorem mem_persistReview {row other : ArchiveRow ε} {archive : List (ArchiveRow ε)} (h : other ∈ persistReview row archive) :
    other ∈ archive ∨ other = row := by
  unfold persistReview at h
  split at h
  next => exact Or.inl h
  next => exact (List.mem_append.mp h).imp_right List.mem_singleton.mp

theorem subset_persistReview (row : ArchiveRow ε) (archive : List (ArchiveRow ε)) : archive ⊆ persistReview row archive := by
  unfold persistReview
  split
  next => exact fun _ h => h
  next => exact List.subset_append_left archive [row]

theorem mem_completePrevious {previous : List (Review ε)} {row : ArchiveRow ε} {tradeDate : Date} {bars : String → Option DayBar}
    {now : Timestamp} (h : row ∈ completePrevious cost previous tradeDate bars now archive) :
    row ∈ archive ∨ ∃ pending ∈ previous, row.effectiveDate = pending.tradeDate ∧ row.availableAt = now ∧
      row.payload.tradeDate = pending.tradeDate ∧ row.payload.completedOn = some tradeDate := by
  unfold completePrevious at h
  split at h
  next => exact Or.inl h
  next pending hpending =>
    split at h
    next =>
      rcases mem_persistReview h with hold | rfl
      · exact Or.inl hold
      · exact Or.inr ⟨pending, List.mem_of_find?_eq_some hpending, rfl, rfl, rfl, rfl⟩
    next => exact Or.inl h

theorem subset_completePrevious (previous : List (Review ε)) (tradeDate : Date) (bars : String → Option DayBar) (now : Timestamp)
    (archive : List (ArchiveRow ε)) : archive ⊆ completePrevious cost previous tradeDate bars now archive := by
  unfold completePrevious
  split
  next => exact fun _ h => h
  next =>
    split
    next => exact subset_persistReview _ archive
    next => exact fun _ h => h

/-- **One day's review.** -/
theorem rowsOf_runReview (hrows : RowsOf days archive) : RowsOf (days ++ [today]) (runReview cost archive today) := by
  have hcases : ∀ row ∈ runReview cost archive today, row ∈ archive ∨
      (row.effectiveDate ∈ days.map ReviewDay.tradeDate ∧ row.availableAt = today.now ∧ row.payload.tradeDate = row.effectiveDate ∧
        row.payload.completedOn = some today.tradeDate) ∨
      (row.effectiveDate = today.tradeDate ∧ row.availableAt = today.now ∧ row.payload.tradeDate = today.tradeDate ∧
        row.payload.completedOn = none) := by
    intro row hrow
    rcases mem_persistReview hrow with hcompleted | rfl
    · rcases mem_completePrevious hcompleted with hold | ⟨pending, hpending, hdate, hnow, htrade, hon⟩
      · exact Or.inl hold
      · refine Or.inr (Or.inl ⟨?_, hnow, htrade.trans hdate.symm, hon⟩)
        rw [hdate]
        exact mem_previousReviews hpending hrows
    · exact Or.inr (Or.inr ⟨rfl, rfl, rfl, rfl⟩)
  refine ⟨fun date => ?_, fun row hrow => ?_, fun row hrow => ?_, fun row hrow date hdate => ?_⟩
  · rw [List.map_append, List.mem_append, List.map_singleton, List.mem_singleton]
    constructor
    · rintro (hold | rfl)
      · obtain ⟨row, hrow, hdate⟩ := (hrows.dates date).mp hold
        exact ⟨row, subset_persistReview _ _ (subset_completePrevious _ _ _ _ _ hrow), hdate⟩
      · unfold runReview persistReview
        split
        next hany =>
          obtain ⟨row, hrow, hsame⟩ := List.any_eq_true.mp hany
          rw [Bool.and_eq_true, decide_eq_true_eq] at hsame
          exact ⟨row, hrow, hsame.1⟩
        next => exact ⟨_, List.mem_append_right _ (List.mem_singleton_self _), rfl⟩
    · rintro ⟨row, hrow, rfl⟩
      rcases hcases row hrow with hold | hcompleted | hnew
      · exact Or.inl ((hrows.dates _).mpr ⟨row, hold, rfl⟩)
      · exact Or.inl hcompleted.1
      · exact Or.inr hnew.1
  · rcases hcases row hrow with hold | hcompleted | hnew
    · exact hrows.payload row hold
    · exact hcompleted.2.2.1
    · exact hnew.2.2.1.trans hnew.1.symm
  · rw [List.map_append, List.mem_append, List.map_singleton, List.mem_singleton]
    rcases hcases row hrow with hold | hcompleted | hnew
    · exact Or.inl (hrows.times row hold)
    · exact Or.inr hcompleted.2.1
    · exact Or.inr hnew.2.1
  · rw [List.map_append, List.mem_append, List.map_singleton, List.mem_singleton]
    rcases hcases row hrow with hold | hcompleted | hnew
    · exact Or.inl (hrows.completed row hold date hdate)
    · exact Or.inr (Option.some.inj (hdate.symm.trans hcompleted.2.2.2))
    · rw [hnew.2.2.2] at hdate
      exact absurd hdate (by simp)

/-- **The rows after some days.** -/
theorem rowsOf_archiveAfter (days : List (ReviewDay ε)) : RowsOf days (archiveAfter cost days) := by
  induction days using List.reverseRecOn with
  | nil => exact ⟨fun date => by simp [archiveAfter], by simp [archiveAfter], by simp [archiveAfter], by simp [archiveAfter]⟩
  | append_singleton days today ih =>
      rw [archiveAfter_concat]
      exact rowsOf_runReview ih

/-! ## The newest reviews after a day -/

theorem completePrevious_eq (previous : List (Review ε)) (tradeDate : Date) (bars : String → Option DayBar) (now : Timestamp) :
    completePrevious cost previous tradeDate bars now archive = (completed cost previous tradeDate bars).elim archive
      (fun review => persistReview ⟨review.tradeDate, now, review⟩ archive) := by
  unfold completePrevious completed
  split
  next hnone => rw [hnone]; rfl
  next pending hpending =>
    rw [hpending, Option.bind_some]
    by_cases hfilled : pending.stocks.any (isFilled bars) = true
    · rw [if_pos hfilled, if_pos hfilled]
      rfl
    · rw [if_neg hfilled, if_neg hfilled]
      rfl

theorem persistReview_fresh {date : Date} {now : Timestamp} {review : Review ε}
    (h : ∀ row ∈ archive, row.effectiveDate = date → row.payload ≠ review) :
    persistReview ⟨date, now, review⟩ archive = archive ++ [⟨date, now, review⟩] := by
  unfold persistReview
  rw [if_neg]
  intro hany
  obtain ⟨other, hother, hsame⟩ := List.any_eq_true.mp hany
  rw [Bool.and_eq_true, decide_eq_true_eq, decide_eq_true_eq] at hsame
  exact h other hother hsame.1 hsame.2

/-- **After a day's review each session's newest review is the day's own, the completed one, or what it was.** -/
theorem newestReview_runReview (hrows : RowsOf days archive) (horder : InOrder (days ++ [today])) (date : Date) :
    newestReview date (runReview cost archive today) =
      if date = today.tradeDate then some (reviewOf cost today archive)
      else ((completed cost (previousReviews today.tradeDate archive) today.tradeDate today.bars).filter
        (fun review => decide (review.tradeDate = date))).or (newestReview date archive) := by
  have hearlier : ∀ row ∈ archive, row.effectiveDate < today.tradeDate := fun row hrow =>
    horder.date_lt ((hrows.dates _).mpr ⟨row, hrow, rfl⟩)
  unfold runReview
  rw [completePrevious_eq]
  rcases hcompleted : completed cost (previousReviews today.tradeDate archive) today.tradeDate today.bars with _ | review
  · rw [Option.elim_none, persistReview_fresh (fun row hrow hdate => absurd hdate (Int.ne_of_lt (hearlier row hrow)))]
    by_cases hdate : date = today.tradeDate
    · rw [if_pos hdate, hdate]
      exact newestReview_concat_self (fun row hrow hsame => absurd hsame (Int.ne_of_lt (hearlier row hrow)))
    · rw [if_neg hdate, newestReview_concat_ne (fun hsame => hdate hsame.symm)]
      rfl
  · obtain ⟨pending, hpending, -, hreview⟩ := of_completed hcompleted
    have hmem := mem_previousReviews (List.mem_of_find?_eq_some hpending) hrows
    have htrade : review.tradeDate = pending.tradeDate := by rw [hreview]
    rw [← htrade] at hmem
    have hlt := horder.date_lt hmem
    have hon : review.completedOn = some today.tradeDate := by rw [hreview]
    -- no payload is stored that was completed on this day
    rw [Option.elim_some, @persistReview_fresh _ _ _ review.tradeDate today.now review ?_, persistReview_fresh ?_]
    · by_cases hdate : date = today.tradeDate
      · rw [if_pos hdate, hdate]
        refine newestReview_concat_self (fun row hrow hsame => ?_)
        rcases List.mem_append.mp hrow with hold | hnew
        · exact absurd hsame (Int.ne_of_lt (hearlier row hold))
        · rw [List.mem_singleton.mp hnew] at hsame
          exact absurd hsame (Int.ne_of_lt hlt)
      · rw [if_neg hdate, newestReview_concat_ne (fun hsame => hdate hsame.symm)]
        by_cases hsame : review.tradeDate = date
        · rw [Option.filter_some, if_pos (decide_eq_true hsame), Option.some_or, ← hsame]
          exact newestReview_concat_self (fun row hrow _ => horder.now_lt (hrows.times row hrow))
        · rw [newestReview_concat_ne hsame, Option.filter_some, if_neg (by simpa using hsame), Option.none_or]
    · intro row hrow hsame
      rcases List.mem_append.mp hrow with hold | hnew
      · exact absurd hsame (Int.ne_of_lt (hearlier row hold))
      · rw [List.mem_singleton.mp hnew] at hsame
        exact absurd hsame (Int.ne_of_lt hlt)
    · intro row hrow _ hpayload
      refine absurd (hrows.completed row hrow today.tradeDate ?_) (fun hdate => absurd rfl (Int.ne_of_lt (horder.date_lt hdate)))
      rw [hpayload]
      exact hon

end Archive

end TradingHarness.Outcomes
