import TradingHarness.Outcomes.Evidence

set_option autoImplicit false

/-! # When the sessions since a change alone count

The evaluation of a change sees twenty-one reports, each of which has learned from twenty sessions before it. -/

namespace TradingHarness.Outcomes

section Enough

variable {ε : Type} [DecidableEq ε] {cost : ℚ} {change : Change} {before before' : List (ReviewDay ε)}
  {pairs : List (ReviewDay ε × ReviewDay ε)}

theorem exists_split_of_mem_take_reverse {α β : Type} {read : α → β} {items : List α} {limit : ℕ} {value : β}
    (h : value ∈ (items.map read).reverse.take limit) :
    ∃ past item rest, items = past ++ item :: rest ∧ read item = value ∧ items.length ≤ past.length + limit := by
  rw [← List.map_reverse, ← List.map_take, List.take_reverse] at h
  obtain ⟨item, hitem, hread⟩ := List.mem_map.mp h
  obtain ⟨first, rest, hsplit⟩ := List.mem_iff_append.mp (List.mem_reverse.mp hitem)
  refine ⟨items.take (items.length - limit) ++ first, item, rest, ?_, hread, ?_⟩
  · rw [List.append_assoc, ← hsplit, List.take_append_drop]
  · rw [List.length_append, List.length_take]
    omega

theorem sideValues_days {days : List (ReviewDay ε)} {before since : List Date} (horder : InOrder days)
    (hdates : days.map ReviewDay.tradeDate = before ++ since) (hbefore : ∀ date ∈ before, date < change.appliedOn)
    (hsince : ∀ date ∈ since, change.appliedOn ≤ date) :
    sideValues change true (lastReports cost days) = (since.reverse.take (learningSessions + 1)).filterMap (fun date =>
      (learnedOn date (archiveAfter cost days)).bind (measureIn change.scope change.measure)) := by
  rcases List.eq_nil_or_concat' days with rfl | ⟨earlier, today, rfl⟩
  · obtain ⟨-, rfl⟩ := List.append_eq_nil_iff.mp hdates.symm
    rfl
  · exact sideValues_since horder hdates hbefore hsince

theorem sameLearned (hpairs : Histories before before' pairs)
    (hclear : 2 * learningSessions < pairs.length ∨ (before = [] ∧ before' = [])) {date : Date}
    (hdate : date ∈ ((pairs.map Prod.fst).map ReviewDay.tradeDate).reverse.take (learningSessions + 1)) :
    learnedOn date (archiveAfter cost (before ++ pairs.map Prod.fst)) =
      learnedOn date (archiveAfter cost (before' ++ pairs.map Prod.snd)) := by
  rw [List.map_map] at hdate
  obtain ⟨past, pair, rest, rfl, rfl, hlength⟩ := exists_split_of_mem_take_reverse hdate
  have hsplit : past ++ pair :: rest = (past ++ [pair]) ++ rest := by simp
  have hpair : pair.1.tradeDate = pair.2.tradeDate := (hpairs.same pair (by simp)).tradeDate
  have horder := hpairs.order
  have horder' := hpairs.order'
  rw [List.map_append, List.map_cons, ← List.append_assoc] at horder horder' ⊢
  have hlearned := @learnedOn_session _ _ cost _ _ _ horder
  have hlearned' := @learnedOn_session _ _ cost _ _ _ horder'
  rw [hsplit] at hpairs
  have hclear' : learningSessions ≤ past.length ∨ (before = [] ∧ before' = []) := by
    refine hclear.imp_left (fun hlong => ?_)
    unfold learningSessions at hlong hlength ⊢
    omega
  rw [Function.comp_apply, hlearned, List.map_append, List.map_cons, ← List.append_assoc, hpair, hlearned',
    sameLearning hpairs.left hclear']

/-- **Where no session before is in reach, the sessions since alone count.** -/
theorem evidence_same (hpairs : Histories before before' pairs)
    (hbefore : ∀ day ∈ before ++ before', day.tradeDate < change.appliedOn)
    (hsince : ∀ pair ∈ pairs, change.appliedOn ≤ pair.1.tradeDate)
    (hclear : (before = [] ∧ before' = []) ∨ pairs = [] ∨ 2 * learningSessions < pairs.length) :
    evidence cost change (before ++ pairs.map Prod.fst) = evidence cost change (before' ++ pairs.map Prod.snd) := by
  have hold : ∀ day ∈ before, day.tradeDate < change.appliedOn := fun day hday => hbefore day (List.mem_append_left _ hday)
  have hold' : ∀ day ∈ before', day.tradeDate < change.appliedOn := fun day hday => hbefore day (List.mem_append_right _ hday)
  have hnew : ∀ date ∈ (pairs.map Prod.fst).map ReviewDay.tradeDate, change.appliedOn ≤ date := by
    intro date hdate
    rw [List.map_map] at hdate
    obtain ⟨pair, hpair, rfl⟩ := List.mem_map.mp hdate
    exact hsince pair hpair
  have hdates' : (before' ++ pairs.map Prod.snd).map ReviewDay.tradeDate =
      before'.map ReviewDay.tradeDate ++ (pairs.map Prod.fst).map ReviewDay.tradeDate := by
    rw [List.map_append, hpairs.dates]
  have hside := @sideValues_days _ _ cost change _ _ _ hpairs.order List.map_append (by simpa using hold) hnew
  have hside' := @sideValues_days _ _ cost change _ _ _ hpairs.order' hdates' (by simpa using hold') hnew
  rw [evidence_eq, evidence_eq, hside, hside']
  have hsame : ∀ date ∈ ((pairs.map Prod.fst).map ReviewDay.tradeDate).reverse.take (learningSessions + 1),
      (learnedOn date (archiveAfter cost (before ++ pairs.map Prod.fst))).bind (measureIn change.scope change.measure) =
        (learnedOn date (archiveAfter cost (before' ++ pairs.map Prod.snd))).bind (measureIn change.scope change.measure) := by
    intro date hdate
    rcases hclear with hempty | rfl | hlong
    · rw [sameLearned hpairs (Or.inr hempty) hdate]
    · simp at hdate
    · rw [sameLearned hpairs (Or.inl hlong) hdate]
  rw [List.filterMap_congr hsame]

end Enough

/-! ## Settled histories -/

section Settled

variable {ε : Type} {cost : ℚ}

/-- The stocks of a day's report. -/
def stocksOf (cost : ℚ) (day : ReviewDay ε) : List Item := reviewStocks cost day.benchmark day.stocks

/-- Days whose reports need no completing. -/
def Settled (cost : ℚ) (days : List (ReviewDay ε)) : Prop := ∀ day ∈ days, ∀ item ∈ stocksOf cost day, needsForward item = false

theorem Settled.left {days more : List (ReviewDay ε)} (h : Settled cost (days ++ more)) : Settled cost days :=
  fun day hday => h day (List.mem_append_left more hday)

variable {days : List (ReviewDay ε)} {today : ReviewDay ε}

theorem InOrder.eq_of_date (horder : InOrder days) {day other : ReviewDay ε} (hday : day ∈ days) (hother : other ∈ days)
    (hdate : day.tradeDate = other.tradeDate) : day = other :=
  List.inj_on_of_nodup_map (horder.dates.imp Int.ne_of_lt) hday hother hdate

variable [DecidableEq ε]

/-- **The stocks of a settled history stay as their days' reviews had them.** -/
theorem stocks_settled (hsettled : Settled cost days) : ∀ row ∈ archiveAfter cost days,
    ∃ day ∈ days, row.effectiveDate = day.tradeDate ∧ row.payload.stocks = stocksOf cost day := by
  induction days using List.reverseRecOn with
  | nil => exact fun row hrow => absurd hrow List.not_mem_nil
  | append_singleton days today ih =>
      have ih := ih hsettled.left
      have hnone : pendingReview (previousReviews today.tradeDate (archiveAfter cost days)) = none := by
        refine List.find?_eq_none.mpr (fun review hreview hpending => ?_)
        obtain ⟨row, hrow, rfl, -⟩ := mem_recentReviews (List.mem_filter.mp hreview).1
        obtain ⟨day, hday, -, hstocks⟩ := ih row hrow
        obtain ⟨item, hitem, hneeds⟩ := List.any_eq_true.mp hpending
        rw [hstocks] at hitem
        rw [hsettled day (List.mem_append_left _ hday) item hitem] at hneeds
        exact absurd hneeds (by decide)
      intro row hrow
      rw [archiveAfter_concat] at hrow
      unfold runReview completePrevious at hrow
      rw [hnone] at hrow
      rcases mem_persistReview hrow with hold | rfl
      · obtain ⟨day, hday, hrest⟩ := ih row hold
        exact ⟨day, List.mem_append_left _ hday, hrest⟩
      · exact ⟨today, List.mem_append_right _ (List.mem_singleton_self _), rfl, rfl⟩

/-- **A settled history's report has learned from the twenty sessions before it.** -/
theorem learning_settled (hsettled : Settled cost days) (horder : InOrder (days ++ [today])) :
    (reviewOf cost today (archiveAfter cost days)).learning =
      learningRows (stocksOf cost today ++ (days.reverse.take learningSessions).flatMap (stocksOf cost)) := by
  have hrows := @rowsOf_archiveAfter _ _ cost days
  have hnewest : ∀ day ∈ days, ∃ review, newestReview day.tradeDate (archiveAfter cost days) = some review ∧
      review.stocks = stocksOf cost day := by
    intro day hday
    obtain ⟨review, hreview, -⟩ := newestReview_isSome hrows (List.mem_map.mpr ⟨day, hday, rfl⟩)
    have hreview' := hreview
    unfold newestReview at hreview'
    obtain ⟨row, hrow, rfl⟩ := Option.map_eq_some_iff.mp hreview'
    obtain ⟨hmem, hkey⟩ := Newest.mem_of_newest hrow
    obtain ⟨other, hother, hdate, hstocks⟩ := stocks_settled hsettled row hmem
    rw [horder.left.eq_of_date hother hday (hdate.symm.trans hkey)] at hstocks
    exact ⟨row.payload, hreview, hstocks⟩
  have hflat : ∀ some : List (ReviewDay ε), (∀ day ∈ some, day ∈ days) →
      (some.filterMap (fun day => newestReview day.tradeDate (archiveAfter cost days))).flatMap Review.stocks =
        some.flatMap (stocksOf cost) := by
    intro some hsome
    induction some with
    | nil => rfl
    | cons first rest ih =>
        obtain ⟨review, hreview, hstocks⟩ := hnewest first (hsome first List.mem_cons_self)
        rw [List.filterMap_cons, hreview, List.flatMap_cons, List.flatMap_cons, hstocks,
          ih (fun day hday => hsome day (List.mem_cons_of_mem first hday))]
  change learningRows (stocksOf cost today ++ _) = _
  rw [previousReviews_eq hrows horder, ← List.map_reverse, ← List.map_take, List.filterMap_map]
  exact congrArg (fun items => learningRows (stocksOf cost today ++ items))
    (hflat _ (fun day hday => List.mem_reverse.mp (List.mem_of_mem_take hday)))

end Settled

/-! ## Histories that agree since a day -/

section Agree

variable {ε : Type} {cost : ℚ} {change : Change}

/-- Histories whose sessions since a day have the same outcomes. -/
def AgreeSince (day : Date) (days others : List (ReviewDay ε)) : Prop :=
  List.Forall₂ SameOutcomes (days.filter (fun review => decide (day ≤ review.tradeDate)))
    (others.filter (fun review => decide (day ≤ review.tradeDate)))

theorem filter_since {day : Date} {dates since : List Date} {days : List (ReviewDay ε)} (hdays : days.map ReviewDay.tradeDate = dates ++ since)
    (hbefore : ∀ date ∈ dates, date < day) (hsince : ∀ date ∈ since, day ≤ date) :
    ∃ earlier, days = earlier ++ days.filter (fun review => decide (day ≤ review.tradeDate)) ∧
      earlier.map ReviewDay.tradeDate = dates ∧
      (days.filter (fun review => decide (day ≤ review.tradeDate))).map ReviewDay.tradeDate = since := by
  obtain ⟨earlier, later, rfl, hearlier, hlater⟩ := List.map_eq_append_iff.mp hdays
  have hnone : earlier.filter (fun review => decide (day ≤ review.tradeDate)) = [] := by
    rw [List.filter_eq_nil_iff]
    intro review hreview
    have hlt := hbefore review.tradeDate (hearlier ▸ List.mem_map.mpr ⟨review, hreview, rfl⟩)
    simpa using Int.not_le.mpr hlt
  have hall : later.filter (fun review => decide (day ≤ review.tradeDate)) = later := by
    rw [List.filter_eq_self]
    intro review hreview
    exact decide_eq_true (hsince review.tradeDate (hlater ▸ List.mem_map.mpr ⟨review, hreview, rfl⟩))
  refine ⟨earlier, ?_, hearlier, ?_⟩
  · rw [List.filter_append, hnone, hall, List.nil_append]
  · rw [List.filter_append, hnone, hall, List.nil_append, hlater]

/-- The sessions since the change alone decide what `evaluate` says of them, over all histories on some dates. -/
def SinceAlone (ε : Type) [DecidableEq ε] (cost : ℚ) (change : Change) (dates dates' : List Date) : Prop :=
  ∀ days days' : List (ReviewDay ε), InOrder days → InOrder days' → days.map ReviewDay.tradeDate = dates →
    days'.map ReviewDay.tradeDate = dates' → AgreeSince change.appliedOn days days' →
      evidence cost change days = evidence cost change days'

theorem SinceAlone.symm [DecidableEq ε] {dates dates' : List Date} (h : SinceAlone ε cost change dates dates') :
    SinceAlone ε cost change dates' dates := by
  intro days days' horder horder' hdates hdates' hagree
  refine (h days' days horder' horder hdates' hdates ?_).symm
  exact (hagree.imp (fun _ _ hsame => ⟨hsame.tradeDate.symm, hsame.stocks.symm, hsame.benchmark.symm, hsame.bars.symm⟩)).flip

end Agree

/-! ## One entry before the change -/

section Contaminated

variable {ε : Type} {cost : ℚ} {change : Change}

theorem inOrder_of_dates {days : List (ReviewDay ε)} (hnow : ∀ day ∈ days, day.now = day.tradeDate)
    (hdates : (days.map ReviewDay.tradeDate).Pairwise (· < ·)) : InOrder days :=
  ⟨hdates, List.map_congr_left hnow ▸ hdates⟩

variable [Inhabited ε]

/-- A session without stocks. -/
def quietDay (date : Date) : ReviewDay ε := ⟨date, date, [], some 0, fun _ => none, default⟩

/-- An entry whose every measure is known. -/
def heldStock (playbook : String) : SettledStock where
  code := "600176"
  playbook := playbook
  isRecord := false
  bar := some ⟨some 10, none, some 10, some 10, none, some 0⟩
  closedAtLimit := false
  touchedLimit := false
  entry := some ⟨some 10, none⟩
  isInvalidated := false
  nextBar := some ⟨some 10, none, some 11, some 10, none, some 10⟩

/-- A session with that stock alone. -/
def heldDay (playbook : String) (date : Date) : ReviewDay ε := ⟨date, date, [heldStock playbook], some 0, fun _ => none, default⟩

theorem stocksOf_quietDay (date : Date) : stocksOf cost (quietDay date : ReviewDay ε) = [] := rfl

theorem flatMap_quietDays (dates : List Date) (limit : ℕ) :
    (((dates.map (fun date => (quietDay date : ReviewDay ε))).reverse).take limit).flatMap (stocksOf cost) = [] := by
  rw [List.flatMap_eq_nil_iff]
  intro day hday
  obtain ⟨date, -, rfl⟩ := List.mem_map.mp (List.mem_reverse.mp (List.mem_of_mem_take hday))
  exact stocksOf_quietDay date

/-- The item of that stock. -/
def heldItem (cost : ℚ) (playbook : String) : Item := reviewItem cost (some 0) (heldStock playbook)

section

variable (playbook : String)

theorem stocksOf_heldDay (date : Date) :
    stocksOf cost (heldDay playbook date : ReviewDay ε) = [heldItem cost playbook] := rfl

theorem heldItem_outcome :
    (heldItem cost playbook).outcome = .hit ∨ (heldItem cost playbook).outcome = .triggeredFaded := by
  unfold heldItem reviewItem heldStock
  simp only [Option.bind_some, Option.map_some, Bool.false_eq_true, if_false, measure, entryEvaluable, lockedAt, Option.getD_none,
    Bool.false_or]
  split
  next h => exact absurd h (by decide)
  next =>
    split
    · exact Or.inl rfl
    · exact Or.inr rfl

theorem heldItem_needsForward : needsForward (heldItem cost playbook) = false := by
  have hreturn : pctOf (some 11) (some 10) = some 10 := by decide +kernel
  unfold needsForward heldItem reviewItem heldStock
  simp [measure, hreturn]

theorem playbookRow_held (measure : MeasureName) :
    ((playbookRow playbook [heldItem cost playbook]).value measure).isSome = true := by
  have houtcome := @heldItem_outcome cost playbook
  have hsession : pctOf (some 10) (some 10) = some 0 := by decide +kernel
  have hnext : pctOf (some 11) (some 10) = some 10 := by decide +kernel
  have hcount : ∀ outcome, outcome ≠ .hit → outcome ≠ .triggeredFaded → countOf outcome [heldItem cost playbook] = 0 := by
    intro outcome hhit hfaded
    rcases houtcome with h | h <;> simp [countOf, h, hhit.symm, hfaded.symm]
  -- the entry held or faded, and both count as triggered
  have htriggered : ∀ read : Measures → Option ℚ, ((heldItem cost playbook).measures.bind read).isSome = true →
      triggeredValues read [heldItem cost playbook] ≠ [] := by
    intro read hread
    obtain ⟨value, hvalue⟩ := Option.isSome_iff_exists.mp hread
    simp [triggeredValues, houtcome, hvalue]
  have hmean : ∀ values : List ℚ, values ≠ [] → (meanOf 100 values).isSome = true := by
    intro values hvalues
    simp [meanOf, hvalues]
  have hmeasures : (heldItem cost playbook).measures =
      some (Outcomes.measure cost ⟨some 10, none⟩ (heldStock playbook).bar (heldStock playbook).nextBar (some 0)) := by
    simp [heldItem, reviewItem, heldStock]
  cases measure with
  | hitRate => simp [PlaybookRow.value, playbookRow, hcount]
  | missedRate => simp [PlaybookRow.value, playbookRow, hcount]
  | netMean => exact hmean _ (htriggered _ (by rw [hmeasures]; simp [Outcomes.measure, heldStock, hsession]))
  | excessMean => exact hmean _ (htriggered _ (by rw [hmeasures]; simp [Outcomes.measure, heldStock, hsession]))
  | netNextDayMean => exact hmean _ (htriggered _ (by rw [hmeasures]; simp [Outcomes.measure, heldStock, hnext]))

end

/-- **The row that is learned from that stock carries every measure.** -/
theorem measureIn_held {scope : String} (hscope : scope ≠ "") (measure : MeasureName) :
    (measureIn scope measure (learningRows [heldItem cost scope])).isSome = true := by
  have hname : (heldItem cost scope).playbookName = scope := if_neg hscope
  have hrows : learningRows [heldItem cost scope] = [playbookRow scope [heldItem cost scope]] := by
    unfold learningRows
    rw [List.map_singleton, hname]
    change [playbookRow scope ([heldItem cost scope].filter (fun item => item.playbookName == scope))] = _
    simp [hname]
  have hvalue := @playbookRow_held cost scope measure
  obtain ⟨value, hvalue⟩ := Option.isSome_iff_exists.mp hvalue
  unfold measureIn
  rw [hrows]
  split
  · simp [hvalue, meanOf]
  · have hname : (playbookRow scope [heldItem cost scope]).playbook = scope := rfl
    simp [hname, hvalue]

variable [DecidableEq ε]

theorem sideValues_quiet {before since : List Date} (horder : (before ++ since).Pairwise (· < ·))
    (hbefore : ∀ date ∈ before, date < change.appliedOn) (hsince : ∀ date ∈ since, change.appliedOn ≤ date) :
    sideValues change true (lastReports cost ((before ++ since).map (fun date => (quietDay date : ReviewDay ε)))) = [] := by
  have hmap : ∀ dates : List Date, (dates.map (fun date => (quietDay date : ReviewDay ε))).map ReviewDay.tradeDate = dates := by
    intro dates
    rw [List.map_map]
    exact List.map_id dates
  have hin : InOrder ((before ++ since).map (fun date => (quietDay date : ReviewDay ε))) :=
    inOrder_of_dates (fun day hday => by obtain ⟨date, -, rfl⟩ := List.mem_map.mp hday; rfl) ((hmap _).symm ▸ horder)
  rw [sideValues_days hin (hmap _) hbefore hsince, List.filterMap_eq_nil_iff]
  intro date hdate
  obtain ⟨past, rest, hsplit⟩ := List.mem_iff_append.mp (List.mem_append_right before
    (List.mem_reverse.mp (List.mem_of_mem_take hdate)))
  rw [hsplit, List.map_append, List.map_cons] at hin ⊢
  have hsettled : Settled cost (past.map (fun date => (quietDay date : ReviewDay ε))) := by
    intro day hday item hitem
    obtain ⟨date, -, rfl⟩ := List.mem_map.mp hday
    exact absurd hitem List.not_mem_nil
  have hleft : InOrder (past.map (fun date => (quietDay date : ReviewDay ε)) ++ [quietDay date]) := by
    rw [List.append_cons] at hin
    exact hin.left
  have hlearned := @learnedOn_session _ _ cost _ _ _ hin
  rw [learning_settled hsettled hleft, flatMap_quietDays] at hlearned
  have hdate : (quietDay date : ReviewDay ε).tradeDate = date := rfl
  rw [hdate] at hlearned
  rw [hlearned]
  unfold measureIn
  split <;> rfl

/-- The history with an entry on the last session before the change, and nothing else. -/
def heldHistory (playbook : String) (earlier : List Date) (last : Date) (since : List Date) : List (ReviewDay ε) :=
  earlier.map quietDay ++ heldDay playbook last :: since.map quietDay

/-- **Up to forty sessions since, one of those that are evaluated has learned from the entry before.** -/
theorem sideValues_held (hvalid : change.Valid) {earlier since : List Date} {last : Date}
    (horder : (earlier ++ last :: since).Pairwise (· < ·)) (hbefore : ∀ date ∈ earlier ++ [last], date < change.appliedOn)
    (hsince : ∀ date ∈ since, change.appliedOn ≤ date) (hsome : since ≠ []) (hfew : since.length ≤ 2 * learningSessions) :
    0 < (sideValues change true (lastReports cost (heldHistory change.scope earlier last since : List (ReviewDay ε)))).length := by
  have hmap : ∀ dates : List Date, (dates.map (fun date => (quietDay date : ReviewDay ε))).map ReviewDay.tradeDate = dates := by
    intro dates
    rw [List.map_map]
    exact List.map_id dates
  have hdates : (heldHistory change.scope earlier last since : List (ReviewDay ε)).map ReviewDay.tradeDate =
      (earlier ++ [last]) ++ since := by
    unfold heldHistory
    rw [List.map_append, List.map_cons, hmap, hmap, List.append_cons]
    rfl
  have hin : InOrder (heldHistory change.scope earlier last since : List (ReviewDay ε)) := by
    refine inOrder_of_dates (fun day hday => ?_) (by rw [hdates, ← List.append_cons]; exact horder)
    unfold heldHistory at hday
    rcases List.mem_append.mp hday with hold | hnew
    · obtain ⟨date, -, rfl⟩ := List.mem_map.mp hold
      rfl
    · rcases List.mem_cons.mp hnew with rfl | hnew
      · rfl
      · obtain ⟨date, -, rfl⟩ := List.mem_map.mp hnew
        rfl
  -- the oldest of the sessions that are evaluated
  obtain ⟨date, rest, hrest⟩ : ∃ date rest, since.drop (since.length - (learningSessions + 1)) = date :: rest := by
    refine List.exists_cons_of_ne_nil (fun hempty => hsome ?_)
    rw [List.drop_eq_nil_iff] at hempty
    unfold learningSessions at hempty
    exact List.length_eq_zero_iff.mp (by omega)
  have hmem : date ∈ since.reverse.take (learningSessions + 1) := by
    rw [List.take_reverse, List.mem_reverse, hrest]
    exact List.mem_cons_self
  have hsplit : since = since.take (since.length - (learningSessions + 1)) ++ date :: rest := by
    rw [← hrest, List.take_append_drop]
  have hpast : (since.take (since.length - (learningSessions + 1))).length < learningSessions := by
    rw [List.length_take]
    unfold learningSessions at hfew ⊢
    omega
  generalize since.take (since.length - (learningSessions + 1)) = past at hsplit hpast
  have hvalue : ((learnedOn date (archiveAfter cost (heldHistory change.scope earlier last since : List (ReviewDay ε)))).bind
      (measureIn change.scope change.measure)).isSome = true := by
    have hhistory : (heldHistory change.scope earlier last since : List (ReviewDay ε)) =
        (earlier.map quietDay ++ heldDay change.scope last :: past.map quietDay) ++ quietDay date :: rest.map quietDay := by
      unfold heldHistory
      rw [hsplit, List.map_append, List.map_cons, List.append_assoc, List.cons_append]
    rw [hhistory] at hin ⊢
    have hsettled : Settled cost (earlier.map quietDay ++ heldDay change.scope last :: past.map quietDay : List (ReviewDay ε)) := by
      intro day hday item hitem
      rcases List.mem_append.mp hday with hold | hnew
      · obtain ⟨date, -, rfl⟩ := List.mem_map.mp hold
        exact absurd hitem List.not_mem_nil
      · rcases List.mem_cons.mp hnew with rfl | hnew
        · rw [stocksOf_heldDay] at hitem
          rw [List.mem_singleton.mp hitem]
          exact heldItem_needsForward change.scope
        · obtain ⟨date, -, rfl⟩ := List.mem_map.mp hnew
          exact absurd hitem List.not_mem_nil
    -- the entry is among the twenty sessions that it looks back on
    have hflat : (((earlier.map quietDay ++ heldDay change.scope last :: past.map quietDay : List (ReviewDay ε)).reverse).take
        learningSessions).flatMap (stocksOf cost) = [heldItem cost change.scope] := by
      obtain ⟨limit, hlimit⟩ := Nat.exists_eq_add_of_lt hpast
      rw [List.reverse_append, List.reverse_cons, List.append_assoc, List.take_append, List.flatMap_append, flatMap_quietDays,
        List.nil_append, List.length_reverse, List.length_map, hlimit, Nat.add_assoc, Nat.add_sub_cancel_left, List.singleton_append,
        List.take_succ_cons, List.flatMap_cons, flatMap_quietDays, List.append_nil, stocksOf_heldDay]
    have hlearned := @learnedOn_session _ _ cost _ _ _ hin
    rw [List.append_cons] at hin
    rw [learning_settled hsettled hin.left, hflat, stocksOf_quietDay, List.nil_append] at hlearned
    have hdate : (quietDay date : ReviewDay ε).tradeDate = date := rfl
    rw [hdate] at hlearned
    rw [hlearned]
    exact measureIn_held hvalid.scope change.measure
  rw [sideValues_days hin hdates hbefore hsince]
  obtain ⟨value, hvalue⟩ := Option.isSome_iff_exists.mp hvalue
  exact List.length_pos_of_mem (List.mem_filterMap.mpr ⟨date, hmem, hvalue⟩)

/-! ## When they count alone -/

variable {before before' since : List Date}

/-- A schedule where an entry before the change shows in what counts as evidence since. -/
theorem not_sinceAlone (hvalid : change.Valid) (happlied : change.status = .applied)
    (horder : (before ++ since).Pairwise (· < ·)) (horder' : (before' ++ since).Pairwise (· < ·))
    (hbefore : ∀ date ∈ before ++ before', date < change.appliedOn) (hsince : ∀ date ∈ since, change.appliedOn ≤ date)
    (hsome : since ≠ []) (hfew : since.length ≤ 2 * learningSessions) (hentry : before ≠ []) :
    ∃ days days' : List (ReviewDay ε), InOrder days ∧ InOrder days' ∧ days.map ReviewDay.tradeDate = before ++ since ∧
      days'.map ReviewDay.tradeDate = before' ++ since ∧ AgreeSince change.appliedOn days days' ∧
      evidence cost change days ≠ evidence cost change days' := by
  obtain ⟨earlier, last, rfl⟩ := (List.eq_nil_or_concat' before).resolve_left hentry
  have hmap : ∀ dates : List Date, (dates.map (fun date => (quietDay date : ReviewDay ε))).map ReviewDay.tradeDate = dates := by
    intro dates
    rw [List.map_map]
    exact List.map_id dates
  have hdates : (heldHistory change.scope earlier last since : List (ReviewDay ε)).map ReviewDay.tradeDate =
      (earlier ++ [last]) ++ since := by
    unfold heldHistory
    rw [List.map_append, List.map_cons, hmap, hmap, List.append_assoc]
    rfl
  have hnow : ∀ day ∈ (heldHistory change.scope earlier last since : List (ReviewDay ε)), day.now = day.tradeDate := by
    intro day hday
    unfold heldHistory at hday
    rcases List.mem_append.mp hday with hold | hnew
    · obtain ⟨date, -, rfl⟩ := List.mem_map.mp hold
      rfl
    · rcases List.mem_cons.mp hnew with rfl | hnew
      · rfl
      · obtain ⟨date, -, rfl⟩ := List.mem_map.mp hnew
        rfl
  have hnow' : ∀ day ∈ (before' ++ since).map (fun date => (quietDay date : ReviewDay ε)), day.now = day.tradeDate := by
    intro day hday
    obtain ⟨date, -, rfl⟩ := List.mem_map.mp hday
    rfl
  have hbefore' : ∀ date ∈ before', date < change.appliedOn := fun date hdate => hbefore date (List.mem_append_right _ hdate)
  have hheld := @sideValues_held ε cost change _ _ hvalid earlier since last (by rw [List.append_cons]; exact horder)
    (fun date hdate => hbefore date (List.mem_append_left _ hdate)) hsince hsome hfew
  have hquiet := @sideValues_quiet ε cost change _ _ before' since horder' hbefore' hsince
  refine ⟨_, _, inOrder_of_dates hnow (hdates ▸ horder), inOrder_of_dates hnow' ((hmap _).symm ▸ horder'), hdates, hmap _, ?_, ?_⟩
  · -- both are quiet since the change
    have hdays : ∀ (days : List (ReviewDay ε)) (dates : List Date), (∀ date ∈ dates, date < change.appliedOn) →
        days.map ReviewDay.tradeDate = dates →
        (days ++ since.map quietDay).filter (fun review => decide (change.appliedOn ≤ review.tradeDate)) = since.map quietDay := by
      rintro days dates hearly rfl
      rw [List.filter_append, List.filter_eq_nil_iff.mpr, List.nil_append, List.filter_eq_self]
      · intro review hreview
        obtain ⟨date, hdate, rfl⟩ := List.mem_map.mp hreview
        exact decide_eq_true (hsince date hdate)
      · intro review hreview
        simpa using Int.not_le.mpr (hearly _ (List.mem_map.mpr ⟨review, hreview, rfl⟩))
    unfold AgreeSince heldHistory
    rw [List.map_append, hdays _ before' hbefore' (hmap before'), List.append_cons,
      hdays _ (earlier ++ [last]) (fun date hdate => hbefore date (List.mem_append_left _ hdate))
        (by rw [List.map_append, hmap]; rfl)]
    exact List.forall₂_same.mpr (fun day _ => ⟨rfl, rfl, rfl, rfl⟩)
  · rw [evidence_eq, evidence_eq, if_pos happlied, if_pos happlied, hquiet]
    intro hsame
    have hlength := congrArg Prod.snd (List.cons.inj hsame).1
    exact absurd hlength (Nat.ne_of_gt hheld)

/-- **The sessions since a change alone count as evidence for it only without sessions before it, or after forty since.** -/
theorem since_alone_iff (hvalid : change.Valid)
    (horder : (before ++ since).Pairwise (· < ·)) (horder' : (before' ++ since).Pairwise (· < ·))
    (hbefore : ∀ date ∈ before ++ before', date < change.appliedOn) (hsince : ∀ date ∈ since, change.appliedOn ≤ date) :
    SinceAlone ε cost change (before ++ since) (before' ++ since) ↔
      change.status ≠ .applied ∨ (before = [] ∧ before' = []) ∨ since = [] ∨ 2 * learningSessions < since.length := by
  constructor
  · intro halone
    by_contra hnot
    simp only [not_or, not_not, not_and_or, Nat.not_lt] at hnot
    obtain ⟨happlied, hentry, hsome, hfew⟩ := hnot
    rcases hentry with hentry | hentry
    · obtain ⟨days, days', hin, hin', hdates, hdates', hagree, hdiffer⟩ :=
        @not_sinceAlone ε cost change _ _ _ _ _ hvalid happlied horder horder' hbefore hsince hsome hfew hentry
      exact hdiffer (halone days days' hin hin' hdates hdates' hagree)
    · have hbefore' : ∀ date ∈ before' ++ before, date < change.appliedOn :=
        fun date hdate => hbefore date ((List.mem_append.mp hdate).elim (List.mem_append_right _) (List.mem_append_left _))
      obtain ⟨days, days', hin, hin', hdates, hdates', hagree, hdiffer⟩ :=
        @not_sinceAlone ε cost change _ _ _ _ _ hvalid happlied horder' horder hbefore' hsince hsome hfew hentry
      exact hdiffer (halone.symm days days' hin hin' hdates hdates' hagree)
  · intro hclear days days' hin hin' hdates hdates' hagree
    obtain ⟨earlier, hdays, hearlier, hlater⟩ := filter_since hdates
      (fun date hdate => hbefore date (List.mem_append_left _ hdate)) hsince
    obtain ⟨earlier', hdays', hearlier', -⟩ := filter_since hdates'
      (fun date hdate => hbefore date (List.mem_append_right _ hdate)) hsince
    rcases hclear with hskipped | hclear
    · rw [evidence_eq, evidence_eq, if_neg hskipped, if_neg hskipped]
    · unfold AgreeSince at hagree
      generalize days.filter (fun review => decide (change.appliedOn ≤ review.tradeDate)) = later,
        days'.filter (fun review => decide (change.appliedOn ≤ review.tradeDate)) = later' at *
      subst hdays hdays' hearlier hearlier'
      have hlength := hagree.length_eq
      have hfst : (later.zip later').map Prod.fst = later := List.map_fst_zip hlength.le
      have hsnd : (later.zip later').map Prod.snd = later' := List.map_snd_zip hlength.ge
      have hsame : ∀ pair ∈ later.zip later', SameOutcomes pair.1 pair.2 :=
        fun pair hpair => (List.forall₂_iff_zip.mp hagree).2 hpair
      have hpairs : Histories earlier earlier' (later.zip later') := ⟨by rwa [hfst], by rwa [hsnd], hsame⟩
      have hevidence := @evidence_same ε _ cost change earlier earlier' (later.zip later') hpairs ?_ ?_ ?_
      · rwa [hfst, hsnd] at hevidence
      · intro day hday
        refine hbefore day.tradeDate ?_
        rw [← List.map_append]
        exact List.mem_map.mpr ⟨day, hday, rfl⟩
      · intro pair hpair
        refine hsince pair.1.tradeDate (hlater ▸ List.mem_map.mpr ⟨pair.1, ?_, rfl⟩)
        exact hfst ▸ List.mem_map.mpr ⟨pair, hpair, rfl⟩
      · rw [List.length_zip, ← hlength, Nat.min_self]
        rw [← hlater, List.length_map] at hclear
        rcases hclear with ⟨hnone, hnone'⟩ | hnone | hlong
        · exact Or.inl ⟨List.map_eq_nil_iff.mp hnone, List.map_eq_nil_iff.mp hnone'⟩
        · rw [List.map_eq_nil_iff.mp hnone, List.zip_nil_left]
          exact Or.inr (Or.inl rfl)
        · exact Or.inr (Or.inr hlong)

end Contaminated

/-! ## Witness and counterexample -/

/-- A change after one session, with forty-one since. -/
theorem since_alone_iff_old : SinceAlone Unit 0 (fewerMisses 2) ([0] ++ (List.range 41).map (fun n => (n : ℤ) + 1))
    ([0] ++ (List.range 41).map (fun n => (n : ℤ) + 1)) :=
  (since_alone_iff ⟨by decide, by decide⟩ (by decide +kernel) (by decide +kernel) (by decide) (by decide +kernel)).mpr
    (Or.inr (Or.inr (Or.inr (by decide +kernel))))

/-- A miss on the session before the change counts as evidence since. -/
theorem miss_before_counts_since : ¬ ∀ (change : Change) (days days' : List (ReviewDay Unit)), change.Valid → InOrder days →
    InOrder days' → AgreeSince change.appliedOn days days' → evidence 0 change days = evidence 0 change days' := by
  intro h
  have hsame := h (fewerMisses 2) [missedDay 0, quietDay 1] [quietDay 0, quietDay 1] ⟨by decide, by decide⟩ ⟨by decide, by decide⟩
    ⟨by decide, by decide⟩ (List.Forall₂.cons ⟨rfl, rfl, rfl, rfl⟩ List.Forall₂.nil)
  exact absurd hsame (by decide +kernel)

end TradingHarness.Outcomes
