import TradingHarness.Runtime.Folded

set_option autoImplicit false

/-! # An evening run and the run after it

A run folds every pick day at most once and in date order, accounts for every reading of the calendar
range, and closes no pick day too early. A second run on what it left folds the same history, but for
the late days the first one left to later runs. -/

namespace TradingHarness

/-! ## Outcomes of a closed day -/

theorem mapM_ok_mem {ε α β : Type} (f : α → Except ε β) (items : List α) (results : List β)
    (h : items.mapM f = .ok results) (item : α) (hmem : item ∈ items) :
    ∃ result ∈ results, f item = .ok result := by
  have hall : List.Forall₂ (fun result item => f item = .ok result) results items :=
    ((Runs.mapM_ok_iff f items results).mp h).flip
  exact Runs.exists_of_forall₂ hall hmem

theorem settledComplete_iff (evaluation : PickEvaluation) :
    settledComplete evaluation = true ↔ ∀ entry exit,
      (evaluation.entries entry exit).status = .settled ∨
        (evaluation.entries entry exit).status = .noTrade := by
  unfold settledComplete
  rw [List.all_eq_true]
  constructor
  · intro h entry exit
    exact of_decide_eq_true (List.all_eq_true.mp (h entry (mem_entries entry)) exit (mem_exits exit))
  · intro h entry _
    rw [List.all_eq_true]
    exact fun exit _ => decide_eq_true (h entry exit)

section Again

variable (desk : Desk) (asOf : Date) (store : Documents)

/-- Every row of a pick day is settled or not traded under every entry and sell rule. -/
def OutcomesSettled (slot : Slot) (day : Date) : Prop :=
  ∃ reading, storedReading store slot day = some reading ∧ ∀ row ∈ reading.rows, ∃ evaluation,
    settleRow desk.bars reading.rows slot day asOf row = .ok evaluation ∧
      ∀ entry exit, (evaluation.entries entry exit).status = .settled ∨
        (evaluation.entries entry exit).status = .noTrade

theorem outcomesSettled_of_settled (slot : Slot) (day : Date) (settled : SettledDay)
    (h : outcomesNow desk asOf store slot day = some settled) (hsettled : settled.settled = true) :
    OutcomesSettled desk asOf store slot day := by
  rcases reading_cases desk asOf store slot day with ⟨hreading, -⟩ |
    ⟨reading, error, hreading, herror⟩ | ⟨reading, settled', hreading, hok, hnow, -⟩
  · unfold outcomesNow at h
    rw [hreading] at h
    exact absurd h (by simp)
  · unfold outcomesNow at h
    rw [hreading, Option.bind_some, herror] at h
    exact absurd h (by simp [Except.toOption])
  · rw [h, Option.some.injEq] at hnow
    subst hnow
    obtain ⟨-, -, settledRows, hrows, hall⟩ := dayOutcomes_ok _ _ _ _ _ _ hok
    refine ⟨reading, hreading, ?_⟩
    intro row hmem
    obtain ⟨result, hresult, hrow⟩ := mapM_ok_mem _ _ _ hrows row hmem
    rcases hevaluation : settleRow desk.bars reading.rows slot day asOf row with error | evaluation
    · rw [hevaluation] at hrow
      exact absurd hrow (by simp [bind, Except.bind])
    · rw [hevaluation] at hrow
      have heq := Except.ok.inj hrow
      subst heq
      exact ⟨evaluation, rfl,
        (settledComplete_iff evaluation).mp (List.all_eq_true.mp (hall hsettled) _ hresult)⟩

variable (older : List Date) (span : Date × Date)

theorem closedPicks_cases (hbefore : ∀ day ∈ older, day < span.1) (pick : PickDay)
    (hmem : pick ∈ closedPicks desk asOf store older span) :
    pick.1 < span.1 ∨ pick.1 = span.1 ∨ OutcomesSettled desk asOf store pick.2 pick.1 := by
  rcases List.mem_append.mp hmem with hlate | hwindow
  · exact Or.inl (latePicks_before older span _ hbefore pick hlate)
  · right
    obtain ⟨slot, -, hpick⟩ := List.mem_flatMap.mp hwindow
    obtain ⟨hslot, hday⟩ := (mem_picksOn _ _ pick).mp hpick
    have hcloses := (List.mem_filter.mp hday).2
    unfold closesNow at hcloses
    obtain ⟨settled, hnow, hwhy⟩ :=
      (Option.any_eq_true _ _).mp (Bool.and_eq_true_iff.mp hcloses).2
    rcases Bool.or_eq_true_iff.mp hwhy with hsettled | holdest
    · rw [hslot]
      exact Or.inr (outcomesSettled_of_settled desk asOf store slot pick.1 settled hnow hsettled)
    · exact Or.inl (of_decide_eq_true holdest)

/-- What a run wrote: only digests of settled days, of the window's oldest day or of days before. -/
def WritesClosed (oldest : Date) (left : Documents) : Prop :=
  ∀ slot day, left.digests slot day ≠ store.digests slot day →
    day < oldest ∨ day = oldest ∨ OutcomesSettled desk asOf store slot day

theorem writesClosed_written (hbefore : ∀ day ∈ older, day < span.1) (closed : List PickDay)
    (hclosed : ∀ pick ∈ closed, pick ∈ closedPicks desk asOf store older span) :
    WritesClosed desk asOf store span.1 (written desk asOf store closed) := by
  intro slot day hne
  have hmem : (day, slot) ∈ closed := by
    by_contra hnot
    exact hne (closeIn_of_notMem closed _ _ slot day hnot)
  exact closedPicks_cases desk asOf store older span hbefore (day, slot) (hclosed _ hmem)

/-! ## The first run -/

theorem mem_currentReadings_session (apply : Bool) (pairFirst : Date) (summary : EveningSummary)
    (h : RunFolded desk asOf store older span apply pairFirst summary) (slot : Slot) (day : Date)
    (reading : ReadingDocument) (hspan : span.1 ≤ day ∧ day ≤ span.2)
    (hreading : storedReading store slot day = some reading) :
    ∃ digest, ((day, slot), digest) ∈ summary.digests := by
  have hentry := (mem_currentReadings store span slot (day, reading)).mpr ⟨hspan, hreading⟩
  have hnow : ∃ final, windowNow desk asOf store slot day = some final := by
    unfold windowNow
    rw [hreading]
    rcases hdigest : currentDigest desk store slot day with _ | digest <;>
      rcases hpair : currentPair desk store slot day with _ | pairs
    case some.some => exact ⟨_, rfl⟩
    all_goals
      refine documentsNow_isSome desk asOf store slot day reading hreading (h.canSettle _ ?_)
      refine Or.inr ⟨slot, mem_slots slot, rfl, (day, reading), hentry, rfl, Or.inl ?_⟩
      unfold isFinal
      rw [hdigest, hpair]
      rfl
  obtain ⟨final, hnow⟩ := hnow
  refine ⟨final.1, ?_⟩
  rw [h.digests]
  refine List.mem_append_right _ (List.mem_map.mpr ⟨((day, slot), final), ?_, rfl⟩)
  exact (mem_sortedFolded span _ _).mpr ⟨hspan, hnow⟩

theorem mem_partsOf (spans : List (Date × Date)) (part : Part) :
    part ∈ partsOf spans ↔ part.1 ∈ spans := by
  unfold partsOf
  rw [List.mem_flatMap]
  constructor
  · rintro ⟨chunk, hchunk, hmem⟩
    obtain ⟨slot, -, rfl⟩ := List.mem_map.mp hmem
    exact hchunk
  · intro hmem
    exact ⟨part.1, hmem, List.mem_map.mpr ⟨part.2, mem_slots _, rfl⟩⟩

/-- A digest of a day before the window is folded or stale. -/
theorem folded_or_stale (apply : Bool) (pairFirst : Date) (summary : EveningSummary)
    (h : RunFolded desk asOf store older span apply pairFirst summary) (slot : Slot) (day : Date)
    (chunk : Date × Date) (hchunk : chunk ∈ chunkSpans older)
    (hday : chunk.1 ≤ day ∧ day ≤ chunk.2) (digest : DigestDocument)
    (hdigest : (written desk asOf store (quota store older)).digests slot day = some digest) :
    (∃ digest, ((day, slot), digest) ∈ summary.digests) ∨ (day, slot) ∈ summary.stale := by
  have hpart : (chunk, slot) ∈ partsOf (chunkSpans older) := (mem_partsOf _ _).mpr hchunk
  by_cases hcurrent : digest.current desk = true
  · left
    refine ⟨digest, ?_⟩
    rw [h.digests]
    refine List.mem_append_left _ (List.mem_flatMap.mpr ⟨(chunk, slot), hpart, ?_⟩)
    exact (mem_currentEntries _ _ _ _ _).mpr ⟨rfl, hday, hdigest, hcurrent⟩
  · right
    rw [h.stale]
    refine List.mem_flatMap.mpr ⟨(chunk, slot), hpart, ?_⟩
    refine List.mem_map.mpr ⟨(day, digest), List.mem_filter.mpr ⟨?_, ?_⟩, rfl⟩
    · exact (mem_readRange _ _ _ _ _).mpr ⟨hday, hdigest⟩
    · rw [Bool.eq_false_iff.mpr hcurrent]
      rfl

/-- Every reading of the calendar range is folded or counted. -/
theorem accounted (apply : Bool) (pairFirst : Date) (summary : EveningSummary)
    (h : RunFolded desk asOf store older span apply pairFirst summary)
    (holder : older.Pairwise (· < ·)) (slot : Slot) (day : Date) (reading : ReadingDocument)
    (hreading : storedReading store slot day = some reading) (hmem : day ∈ older) :
    (∃ digest, ((day, slot), digest) ∈ summary.digests) ∨ (day, slot) ∈ summary.stale ∨
      (day, slot) ∈ summary.missing := by
  obtain ⟨chunk, hchunk, hday⟩ := exists_chunkSpan older holder day hmem
  obtain ⟨range, hrange⟩ := spanOf_isSome older day hmem
  have hinRange := spanOf_holds older range holder hrange day hmem
  have hstored : (store.readings slot day).isSome = true := by
    obtain ⟨hsome, -⟩ := Option.filter_eq_some_iff.mp hreading
    rw [hsome]
    rfl
  rcases hdigest : store.digests slot day with _ | digest
  · -- late: in the quota and closed, or left and counted
    have hlate : (day, slot) ∈ lateDays store older :=
      (mem_lateDays store older range hrange _).mpr ⟨hinRange, hstored, hdigest⟩
    rw [← List.take_append_drop lateDaysARun (lateDays store older)] at hlate
    rcases List.mem_append.mp hlate with hquota | hleft
    · change (day, slot) ∈ quota store older at hquota
      have hneeds : (day, slot) ∈ latePicks (quota store older) (chunk, slot) :=
        (mem_picksOn _ _ _).mpr ⟨rfl, (mem_lateIn _ _ _ _).mpr ⟨hday, hquota⟩⟩
      have hcan := h.canSettle (day, slot) (Or.inl (List.mem_flatMap.mpr
        ⟨(chunk, slot), (mem_partsOf _ _).mpr hchunk, hneeds⟩))
      obtain ⟨final, hnow⟩ := documentsNow_isSome desk asOf store slot day reading hreading hcan
      refine (folded_or_stale desk asOf store older span apply pairFirst summary h slot day chunk
        hchunk hday final.1 ?_).imp_right Or.inl
      show closeIn (quota store older) _ _ slot day = _
      rw [closeIn_of_mem _ _ _ _ _ hquota, digestNow_of_documents desk asOf store slot day final hnow]
      rfl
    · right
      right
      rw [h.missing]
      exact List.mem_append_left _ hleft
  · refine (folded_or_stale desk asOf store older span apply pairFirst summary h slot day chunk
      hchunk hday digest ?_).imp_right Or.inl
    show closeIn (quota store older) _ _ slot day = _
    refine (closeIn_of_notMem _ _ _ _ _ ?_).trans hdigest
    intro hquota
    have hnone := ((mem_lateDays store older range hrange (day, slot)).mp
      (List.mem_of_mem_take hquota)).2.2
    rw [show store.digests slot day = none from hnone] at hdigest
    exact absurd hdigest (by simp)

theorem inOrder_append {α : Type} (entries entries' : List (PickDay × α)) (h : InOrder entries)
    (h' : InOrder entries')
    (hbefore : ∀ entry ∈ entries, ∀ entry' ∈ entries', entry.1.1 < entry'.1.1) :
    InOrder (entries ++ entries') :=
  List.pairwise_append.mpr
    ⟨h, h', fun entry hmem entry' hmem' _ => hbefore entry hmem entry' hmem'⟩

theorem olderEntries_before {α : Type} (current : α → Bool) (table : Slot → Date → Option α)
    (hbefore : ∀ day ∈ older, day < span.1) (entry : PickDay × α)
    (hmem : entry ∈ olderEntries current table (partsOf (chunkSpans older))) :
    entry.1.1 < span.1 := by
  obtain ⟨part, hpart, hentry⟩ := List.mem_flatMap.mp hmem
  have hspan := ((mem_currentEntries _ _ _ _ _).mp hentry).2.1
  have hchunk := (mem_partsOf _ _).mp hpart
  exact lt_of_le_of_lt hspan.2 (hbefore _ (chunkSpan_mem older part.1 hchunk).2)

theorem windowEntries_from (entry : PickDay × (DigestDocument × PairDocument))
    (hmem : entry ∈ windowEntries desk asOf store span) : span.1 ≤ entry.1.1 :=
  ((mem_sortedFolded span _ entry).mp hmem).1.1

theorem windowNow_cases (slot : Slot) (day : Date) (final : DigestDocument × PairDocument)
    (h : windowNow desk asOf store slot day = some final) :
    (currentDigest desk store slot day = some final.1 ∧
      currentPair desk store slot day = some final.2) ∨
    documentsNow desk asOf store slot day = some final := by
  unfold windowNow at h
  rcases hreading : storedReading store slot day with _ | reading
  · rw [hreading] at h
    exact absurd h (by simp)
  · rcases hdigest : currentDigest desk store slot day with _ | digest <;>
      rcases hpair : currentPair desk store slot day with _ | pairs <;>
      rw [hreading, hdigest, hpair] at h
    case some.some =>
      have heq := Option.some.inj h
      subst heq
      exact Or.inl ⟨rfl, rfl⟩
    all_goals exact Or.inr h

theorem windowEntries_current (entry : PickDay × (DigestDocument × PairDocument))
    (hmem : entry ∈ windowEntries desk asOf store span) :
    entry.2.1.current desk = true ∧ entry.2.2.current desk = true := by
  have hnow := ((mem_sortedFolded span _ entry).mp hmem).2
  rcases windowNow_cases desk asOf store _ _ _ hnow with ⟨hdigest, hpair⟩ | hcomputed
  · exact ⟨(Option.filter_eq_some_iff.mp hdigest).2, (Option.filter_eq_some_iff.mp hpair).2⟩
  · exact documentsNow_current desk asOf store _ _ entry.2 hcomputed

/-- In order and current, over the older days and the window together. -/
theorem run_entries {α : Type} (current : α → Bool) (table : Slot → Date → Option α)
    (window : List (PickDay × α)) (holder : older.Pairwise (· < ·))
    (hbefore : ∀ day ∈ older, day < span.1) (hwindow : InOrder window)
    (hfrom : ∀ entry ∈ window, span.1 ≤ entry.1.1)
    (hcurrent : ∀ entry ∈ window, current entry.2 = true) :
    InOrder (olderEntries current table (partsOf (chunkSpans older)) ++ window) ∧
      ∀ entry ∈ olderEntries current table (partsOf (chunkSpans older)) ++ window,
        current entry.2 = true := by
  constructor
  · refine inOrder_append _ _ (olderEntries_inOrder current table _
      (partsOf_pairwise _ (chunkSpans_pairwise older holder))) hwindow ?_
    intro entry hmem entry' hmem'
    exact lt_of_lt_of_le (olderEntries_before older span current table hbefore entry hmem)
      (hfrom entry' hmem')
  · intro entry hmem
    rcases List.mem_append.mp hmem with hmem | hmem
    · obtain ⟨part, -, hentry⟩ := List.mem_flatMap.mp hmem
      exact ((mem_currentEntries _ _ _ _ _).mp hentry).2.2.2
    · exact hcurrent entry hmem

theorem windowDigests_inOrder : InOrder ((windowEntries desk asOf store span).map
    (fun entry => (entry.1, entry.2.1))) :=
  List.pairwise_map.mpr (sortedFolded_inOrder span _)

theorem windowPairs_inOrder (pairFirst : Date) : InOrder (((windowEntries desk asOf store span).filter
    (fun entry => decide (pairFirst ≤ entry.1.1))).map (fun entry => (entry.1, entry.2.2))) :=
  List.pairwise_map.mpr ((sortedFolded_inOrder span _).filter _)

theorem run_inOrder (apply : Bool) (pairFirst : Date) (summary : EveningSummary)
    (h : RunFolded desk asOf store older span apply pairFirst summary)
    (holder : older.Pairwise (· < ·)) (hbefore : ∀ day ∈ older, day < span.1) :
    (InOrder summary.digests ∧ ∀ entry ∈ summary.digests, entry.2.current desk = true) ∧
      (InOrder summary.pairs ∧ ∀ entry ∈ summary.pairs, entry.2.current desk = true) := by
  rw [h.digests, h.pairs]
  constructor
  · refine run_entries older span (·.current desk) _ _ holder hbefore
      (windowDigests_inOrder desk asOf store span) ?_ ?_
    · intro entry hmem
      obtain ⟨entry', hmem', rfl⟩ := List.mem_map.mp hmem
      exact windowEntries_from desk asOf store span entry' hmem'
    · intro entry hmem
      obtain ⟨entry', hmem', rfl⟩ := List.mem_map.mp hmem
      exact (windowEntries_current desk asOf store span entry' hmem').1
  · refine run_entries older span (·.current desk) _ _ holder hbefore
      (windowPairs_inOrder desk asOf store span pairFirst) ?_ ?_
    · intro entry hmem
      obtain ⟨entry', hmem', rfl⟩ := List.mem_map.mp hmem
      exact windowEntries_from desk asOf store span entry' (List.mem_of_mem_filter hmem')
    · intro entry hmem
      obtain ⟨entry', hmem', rfl⟩ := List.mem_map.mp hmem
      exact (windowEntries_current desk asOf store span entry' (List.mem_of_mem_filter hmem')).2

/-! ## The second run -/

theorem lateDays_written (closed : List PickDay) (pick : PickDay)
    (hmem : pick ∈ lateDays (written desk asOf store closed) older) :
    pick ∈ lateDays store older := by
  rcases hrange : spanOf older with _ | range
  · rw [lateDays_of_none _ older hrange] at hmem
    exact absurd hmem List.not_mem_nil
  · obtain ⟨hin, hreading, hdigest⟩ := (mem_lateDays _ older range hrange pick).mp hmem
    refine (mem_lateDays store older range hrange pick).mpr ⟨hin, hreading, ?_⟩
    have hclosed : closeIn closed (digestNow desk asOf store) store.digests pick.2 pick.1 = none :=
      hdigest
    unfold closeIn at hclosed
    split at hclosed
    · exact (Option.or_eq_none_iff.mp hclosed).2
    · exact hclosed

/-- A day before the window that the first run did not leave: after the second run's quota it is
    closed exactly if it was in the quota of the first. -/
theorem closed_again (apply : Bool) (hbefore : ∀ day ∈ older, day < span.1) (chunk : Date × Date)
    (hchunk : chunk ∈ chunkSpans older) (slot : Slot) (day : Date)
    (hday : chunk.1 ≤ day ∧ day ≤ chunk.2) (hleft : (day, slot) ∉ leftDays store older) :
    (day, slot) ∈ applied apply (closedPicks desk asOf store older span) ++
        quota (written desk asOf store (applied apply (closedPicks desk asOf store older span))) older
      ↔ (day, slot) ∈ quota store older := by
  have hlt : day < span.1 := lt_of_le_of_lt hday.2 (hbefore _ (chunkSpan_mem older chunk hchunk).2)
  constructor
  · intro hmem
    rcases List.mem_append.mp hmem with hclosed | hquota
    · rcases List.mem_append.mp (mem_applied apply _ _ hclosed) with hlate | hwindow
      · obtain ⟨part, -, hpick⟩ := List.mem_flatMap.mp hlate
        exact mem_latePicks _ part _ hpick
      · obtain ⟨slot', -, hpick⟩ := List.mem_flatMap.mp hwindow
        obtain ⟨entry, hentry, heq⟩ :=
          List.mem_map.mp (List.mem_filter.mp ((mem_picksOn _ _ _).mp hpick).2).1
        have hspan := ((mem_currentReadings store span slot' entry).mp hentry).1.1
        rw [show entry.1 = day from heq] at hspan
        exact absurd hspan (not_le.mpr hlt)
    · have hlate := lateDays_written desk asOf store older _ _ (List.mem_of_mem_take hquota)
      rw [← List.take_append_drop lateDaysARun (lateDays store older)] at hlate
      exact (List.mem_append.mp hlate).resolve_right hleft
  · intro hquota
    rcases apply with _ | _
    · -- nothing was written: the second quota is the first
      refine List.mem_append_right _ ?_
      rw [show applied false _ = [] from rfl, written_nil]
      exact hquota
    · refine List.mem_append_left _ (List.mem_append_left _ (List.mem_flatMap.mpr
        ⟨(chunk, slot), (mem_partsOf _ _).mpr hchunk, ?_⟩))
      exact (mem_picksOn _ _ _).mpr ⟨rfl, (mem_lateIn _ _ _ _).mpr ⟨hday, hquota⟩⟩

/-- What a window's day is folded with stays when the days the first run closed are closed. -/
theorem windowNow_written (closed : List PickDay) (hbefore : ∀ day ∈ older, day < span.1)
    (hclosed : ∀ pick ∈ closed, pick ∈ closedPicks desk asOf store older span) (slot : Slot)
    (day : Date) (hspan : span.1 ≤ day ∧ day ≤ span.2) :
    (isFinal desk store slot day = true →
      isFinal desk (written desk asOf store closed) slot day = true) ∧
    windowNow desk asOf (written desk asOf store closed) slot day
      = windowNow desk asOf store slot day := by
  by_cases hmem : (day, slot) ∈ closed
  · -- closed by the window: its documents are those computed now
    have hpicks : (day, slot) ∈ windowPicks desk asOf store span slot := by
      rcases List.mem_append.mp (hclosed _ hmem) with hlate | hwindow
      · exact absurd hspan.1 (not_le.mpr (latePicks_before older span _ hbefore _ hlate))
      · obtain ⟨slot', -, hpick⟩ := List.mem_flatMap.mp hwindow
        rwa [← ((mem_picksOn _ _ _).mp hpick).1] at hpick
    obtain ⟨hreadings, hcloses⟩ := List.mem_filter.mp ((mem_picksOn _ _ _).mp hpicks).2
    unfold closesNow at hcloses
    obtain ⟨hnotFinal, houtcomes⟩ := Bool.and_eq_true_iff.mp hcloses
    obtain ⟨settled, hnow, -⟩ := (Option.any_eq_true _ _).mp houtcomes
    have hdoc : documentsNow desk asOf store slot day
        = some (digestDocuments desk settled.day) := by
      unfold documentsNow
      rw [hnow]
      rfl
    obtain ⟨hcurrent, hcurrent'⟩ := documentsNow_current desk asOf store slot day _ hdoc
    have hfinal : isFinal desk store slot day = false := by
      simpa using hnotFinal
    have hdigest : currentDigest desk (written desk asOf store closed) slot day
        = some (digestDocuments desk settled.day).1 := by
      unfold currentDigest
      rw [show (written desk asOf store closed).digests slot day
        = some (digestDocuments desk settled.day).1 from by
          show closeIn closed _ _ slot day = _
          rw [closeIn_of_mem _ _ _ _ _ hmem,
            digestNow_of_documents desk asOf store slot day _ hdoc, Option.some_or]]
      exact Option.filter_some_pos hcurrent
    have hpair : currentPair desk (written desk asOf store closed) slot day
        = some (digestDocuments desk settled.day).2 := by
      unfold currentPair
      rw [show (written desk asOf store closed).pairs slot day
        = some (digestDocuments desk settled.day).2 from by
          show closeIn closed _ _ slot day = _
          rw [closeIn_of_mem _ _ _ _ _ hmem,
            pairsNow_of_documents desk asOf store slot day _ hdoc, Option.some_or]]
      exact Option.filter_some_pos hcurrent'
    obtain ⟨entry, hentry, heq⟩ := List.mem_map.mp hreadings
    have hreading := ((mem_currentReadings store span slot entry).mp hentry).2
    rw [show entry.1 = day from heq] at hreading
    refine ⟨fun htrue => absurd (hfinal.symm.trans htrue) Bool.false_ne_true, ?_⟩
    unfold windowNow
    rw [show storedReading (written desk asOf store closed) slot day
      = storedReading store slot day from rfl, hreading, hdigest, hpair]
    unfold isFinal at hfinal
    rcases hdigest' : currentDigest desk store slot day with _ | digest <;>
      rcases hpair' : currentPair desk store slot day with _ | pairs <;>
      rw [hdigest', hpair'] at hfinal
    case some.some => exact absurd hfinal.symm Bool.false_ne_true
    all_goals exact hdoc.symm
  · have hdigests : currentDigest desk (written desk asOf store closed) slot day
        = currentDigest desk store slot day := by
      unfold currentDigest
      rw [show (written desk asOf store closed).digests slot day = store.digests slot day from
        closeIn_of_notMem _ _ _ slot day hmem]
    have hpairs : currentPair desk (written desk asOf store closed) slot day
        = currentPair desk store slot day := by
      unfold currentPair
      rw [show (written desk asOf store closed).pairs slot day = store.pairs slot day from
        closeIn_of_notMem _ _ _ slot day hmem]
    constructor
    · intro hfinal
      unfold isFinal at hfinal ⊢
      rw [hdigests, hpairs]
      exact hfinal
    · unfold windowNow
      rw [hdigests, hpairs]
      rfl

/-- Entries of chunks whose tables agree on the days kept agree on the days kept. -/
theorem olderEntries_filter {α : Type} (current : α → Bool) (table table' : Slot → Date → Option α)
    (parts : List Part) (keep : PickDay → Bool)
    (h : ∀ part ∈ parts, ∀ day, part.1.1 ≤ day ∧ day ≤ part.1.2 → keep (day, part.2) = true →
      table part.2 day = table' part.2 day) :
    (olderEntries current table parts).filter (fun entry => keep entry.1)
      = (olderEntries current table' parts).filter (fun entry => keep entry.1) := by
  unfold olderEntries
  rw [List.filter_flatMap, List.filter_flatMap]
  refine List.flatMap_congr ?_
  intro part hpart
  unfold currentEntries readRange
  rw [List.filter_map, List.filter_map, List.filter_filter, List.filter_filter,
    List.filter_filterMap, List.filter_filterMap]
  congr 1
  refine List.filterMap_congr ?_
  intro day hday
  by_cases hkeep : keep (day, part.2) = true
  · rw [h part hpart day ((mem_daysBetween _ _ _).mp hday) hkeep]
  · rcases table part.2 day with _ | document <;> rcases table' part.2 day with _ | document' <;>
      simp [hkeep, Option.filter_some]

theorem leftDays_before (hbefore : ∀ day ∈ older, day < span.1) (pick : PickDay)
    (hmem : pick ∈ leftDays store older) : pick.1 < span.1 := by
  have hlate := List.mem_of_mem_drop hmem
  rcases hrange : spanOf older with _ | range
  · rw [lateDays_of_none store older hrange] at hlate
    exact absurd hlate List.not_mem_nil
  · have hin := ((mem_lateDays store older range hrange pick).mp hlate).1
    exact lt_of_le_of_lt hin.2 (hbefore _ (spanOf_mem older range hrange).2)

theorem needs_again (apply : Bool) (hbefore : ∀ day ∈ older, day < span.1) (pick : PickDay)
    (h : RunNeeds desk asOf
      (written desk asOf store (applied apply (closedPicks desk asOf store older span))) older span
      pick) :
    pick ∈ leftDays store older ∨ RunNeeds desk asOf store older span pick := by
  have hsame := windowNow_written desk asOf store older span
    (applied apply (closedPicks desk asOf store older span)) hbefore
    (fun pick hmem => mem_applied apply _ pick hmem)
  rcases h with hlate | ⟨slot, hslot, heq, entry, hentry, hday, hcase⟩
  · obtain ⟨part, hpart, hpick⟩ := List.mem_flatMap.mp hlate
    obtain ⟨hslot, hday⟩ := (mem_picksOn _ _ pick).mp hpick
    obtain ⟨hin, hquota⟩ := (mem_lateIn _ _ _ _).mp hday
    have hfirst := lateDays_written desk asOf store older _ _ (List.mem_of_mem_take hquota)
    rw [← hslot, ← List.take_append_drop lateDaysARun (lateDays store older)] at hfirst
    rcases List.mem_append.mp hfirst with hquota' | hleft
    · refine Or.inr (Or.inl (List.mem_flatMap.mpr ⟨part, hpart, ?_⟩))
      refine (mem_picksOn _ _ pick).mpr ⟨hslot, (mem_lateIn _ _ _ _).mpr ⟨hin, ?_⟩⟩
      rw [← hslot]
      exact hquota'
    · exact Or.inl hleft
  · right
    right
    refine ⟨slot, hslot, heq, entry, hentry, hday, ?_⟩
    rcases hcase with hnotFinal | hnewest
    · have hspan := ((mem_currentReadings store span slot entry).mp hentry).1
      left
      rw [← Bool.not_eq_true]
      intro hfinal
      exact absurd (hnotFinal.symm.trans ((hsame slot entry.1 hspan).1 hfinal)) Bool.false_ne_true
    · right
      rw [← hnewest]
      unfold newestNow
      congr 1
      refine List.filter_congr ?_
      intro entry' hentry'
      have hspan := ((mem_currentReadings store span slot entry').mp hentry').1
      unfold resolvedNow
      rw [(hsame slot entry'.1 hspan).2]

/-- What the second run folds, next to the first. -/
structure FoldsAgain (summary again : EveningSummary) (left : List PickDay) : Prop where
  digests : again.digests.filter (fun entry => decide (entry.1 ∉ left)) = summary.digests
  pairs : again.pairs.filter (fun entry => decide (entry.1 ∉ left))
    = summary.pairs.filter (fun entry => decide (entry.1 ∉ left))
  added : (again.digests.filter (fun entry => decide (entry.1 ∈ left))).length ≤ lateDaysARun
  same : left = [] → again.digests = summary.digests ∧ again.pairs = summary.pairs ∧
    again.history desk = summary.history desk

theorem digests_not_left (apply : Bool) (pairFirst : Date) (summary : EveningSummary)
    (h : RunFolded desk asOf store older span apply pairFirst summary)
    (hbefore : ∀ day ∈ older, day < span.1) (entry : PickDay × DigestDocument)
    (hmem : entry ∈ summary.digests) : entry.1 ∉ leftDays store older := by
  intro hleft
  rw [h.digests] at hmem
  rcases List.mem_append.mp hmem with hmem | hmem
  · obtain ⟨part, -, hentry⟩ := List.mem_flatMap.mp hmem
    obtain ⟨hslot, -, htable, -⟩ := (mem_currentEntries _ _ _ _ _).mp hentry
    have hlate := List.mem_of_mem_drop hleft
    have hnodup := lateDays_nodup store older
    rw [← List.take_append_drop lateDaysARun (lateDays store older), List.nodup_append] at hnodup
    have hquota : (entry.1.1, part.2) ∉ quota store older := by
      intro hquota
      rw [← hslot] at hquota
      exact hnodup.2.2 _ hquota _ hleft rfl
    have hnone : store.digests part.2 entry.1.1 = some entry.2 :=
      (closeIn_of_notMem _ _ _ _ _ hquota).symm.trans htable
    rcases hrange : spanOf older with _ | range
    · rw [lateDays_of_none store older hrange] at hlate
      exact absurd hlate List.not_mem_nil
    · have hdigest := ((mem_lateDays store older range hrange entry.1).mp hlate).2.2
      rw [hslot, hnone] at hdigest
      exact absurd hdigest (by simp)
  · obtain ⟨entry', hmem', rfl⟩ := List.mem_map.mp hmem
    exact absurd (windowEntries_from desk asOf store span entry' hmem')
      (not_le.mpr (leftDays_before store older span hbefore _ hleft))

theorem inOrder_keys_nodup {α : Type} (entries : List (PickDay × α)) (h : InOrder entries) :
    (entries.map (·.1)).Nodup := by
  unfold List.Nodup
  rw [List.pairwise_map]
  refine h.imp ?_
  intro entry entry' hlt heq
  exact absurd (hlt (congrArg Prod.snd heq)) (by rw [heq]; exact lt_irrefl _)

/-- A day the first run left and the second folds is in the quota of the second. -/
theorem added_in_quota (apply apply' : Bool) (pairFirst : Date) (again : EveningSummary)
    (h : RunFolded desk asOf
      (written desk asOf store (applied apply (closedPicks desk asOf store older span))) older span
      apply' pairFirst again)
    (hbefore : ∀ day ∈ older, day < span.1) (entry : PickDay × DigestDocument)
    (hmem : entry ∈ again.digests) (hleft : entry.1 ∈ leftDays store older) :
    entry.1 ∈ quota
      (written desk asOf store (applied apply (closedPicks desk asOf store older span))) older := by
  have hlt := leftDays_before store older span hbefore _ hleft
  by_contra hquota
  refine digests_not_left desk asOf _ older span apply' pairFirst again h hbefore entry hmem ?_
  -- it has no digest yet, so it is late again, and was left again
  have hlate := List.mem_of_mem_drop hleft
  rcases hrange : spanOf older with _ | range
  · rw [lateDays_of_none store older hrange] at hlate
    exact absurd hlate List.not_mem_nil
  · obtain ⟨hin, hreading, hdigest⟩ := (mem_lateDays store older range hrange entry.1).mp hlate
    have hnodup := lateDays_nodup store older
    rw [← List.take_append_drop lateDaysARun (lateDays store older), List.nodup_append] at hnodup
    have hnotClosed : (entry.1.1, entry.1.2)
        ∉ applied apply (closedPicks desk asOf store older span) := by
      intro hclosed
      rcases List.mem_append.mp (mem_applied apply _ _ hclosed) with hpicked | hwindow
      · obtain ⟨part, -, hpick⟩ := List.mem_flatMap.mp hpicked
        exact hnodup.2.2 _ (mem_latePicks _ part _ hpick) _ hleft rfl
      · obtain ⟨slot', -, hpick⟩ := List.mem_flatMap.mp hwindow
        obtain ⟨reading, hreading', heq⟩ :=
          List.mem_map.mp (List.mem_filter.mp ((mem_picksOn _ _ _).mp hpick).2).1
        have hspan := ((mem_currentReadings store span slot' reading).mp hreading').1.1
        rw [show reading.1 = entry.1.1 from heq] at hspan
        exact absurd hspan (not_le.mpr hlt)
    have hagain : entry.1 ∈ lateDays
        (written desk asOf store (applied apply (closedPicks desk asOf store older span))) older :=
      (mem_lateDays _ older range hrange entry.1).mpr
        ⟨hin, hreading, (closeIn_of_notMem _ _ _ _ _ hnotClosed).trans hdigest⟩
    rw [← List.take_append_drop lateDaysARun (lateDays _ older)] at hagain
    exact (List.mem_append.mp hagain).resolve_left hquota

theorem foldsAgain (apply apply' : Bool) (pairFirst : Date) (summary again : EveningSummary)
    (h : RunFolded desk asOf store older span apply pairFirst summary)
    (h' : RunFolded desk asOf summary.documents older span apply' pairFirst again)
    (holder : older.Pairwise (· < ·)) (hbefore : ∀ day ∈ older, day < span.1) :
    FoldsAgain desk summary again (leftDays store older) := by
  rw [h.documents] at h'
  have hclosed : ∀ pick ∈ applied apply (closedPicks desk asOf store older span),
      pick ∈ closedPicks desk asOf store older span := fun pick hmem => mem_applied apply _ pick hmem
  have hwindow : windowEntries desk asOf
      (written desk asOf store (applied apply (closedPicks desk asOf store older span))) span
      = windowEntries desk asOf store span :=
    sortedFolded_congr span _ _ (fun slot day hspan =>
      (windowNow_written desk asOf store older span _ hbefore hclosed slot day hspan).2)
  have htables : ∀ part ∈ partsOf (chunkSpans older), ∀ day, part.1.1 ≤ day ∧ day ≤ part.1.2 →
      decide ((day, part.2) ∉ leftDays store older) = true → ∀ {α : Type}
      (now table : Slot → Date → Option α),
      closeIn (quota (written desk asOf store
        (applied apply (closedPicks desk asOf store older span))) older) now
        (closeIn (applied apply (closedPicks desk asOf store older span)) now table) part.2 day
        = closeIn (quota store older) now table part.2 day := by
    intro part hpart day hday hkeep α now table
    rw [closeIn_append]
    refine closeIn_congr _ now table _ part.2 day (fun _ => ?_)
    exact closed_again desk asOf store older span apply hbefore part.1
      ((mem_partsOf _ _).mp hpart) part.2 day hday (of_decide_eq_true hkeep)
  have hdigests : again.digests.filter (fun entry => decide (entry.1 ∉ leftDays store older))
      = summary.digests := by
    have hkept : summary.digests.filter (fun entry => decide (entry.1 ∉ leftDays store older))
        = summary.digests := by
      refine List.filter_eq_self.mpr ?_
      intro entry hmem
      exact decide_eq_true
        (digests_not_left desk asOf store older span apply pairFirst summary h hbefore entry hmem)
    rw [← hkept, h'.digests, h.digests, List.filter_append, List.filter_append, hwindow]
    congr 1
    refine olderEntries_filter _ _ _ _ (fun pick => decide (pick ∉ leftDays store older)) ?_
    intro part hpart day hday hkeep
    exact htables part hpart day hday hkeep (digestNow desk asOf store) store.digests
  have hpairs : again.pairs.filter (fun entry => decide (entry.1 ∉ leftDays store older))
      = summary.pairs.filter (fun entry => decide (entry.1 ∉ leftDays store older)) := by
    rw [h'.pairs, h.pairs, List.filter_append, List.filter_append, hwindow]
    congr 1
    refine olderEntries_filter _ _ _ _ (fun pick => decide (pick ∉ leftDays store older)) ?_
    intro part hpart day hday hkeep
    unfold fromDay
    split
    · exact htables part hpart day hday hkeep (pairsNow desk asOf store) store.pairs
    · rfl
  refine ⟨hdigests, hpairs, ?_, ?_⟩
  · have hinOrder := (run_inOrder desk asOf _ older span apply' pairFirst again h' holder
      hbefore).1.1
    have hnodup := inOrder_keys_nodup _
      (hinOrder.filter (fun entry => decide (entry.1 ∈ leftDays store older)))
    have hsubset : (again.digests.filter
        (fun entry => decide (entry.1 ∈ leftDays store older))).map (·.1)
        ⊆ quota (written desk asOf store
          (applied apply (closedPicks desk asOf store older span))) older := by
      intro pick hpick
      obtain ⟨entry, hentry, rfl⟩ := List.mem_map.mp hpick
      obtain ⟨hmem, hleft⟩ := List.mem_filter.mp hentry
      exact added_in_quota desk asOf store older span apply apply' pairFirst again h' hbefore entry
        hmem (of_decide_eq_true hleft)
    have hlength := (List.subperm_of_subset hnodup hsubset).length_le
    rw [List.length_map] at hlength
    exact le_trans hlength (List.length_take_le _ _)
  · intro hnil
    rw [hnil] at hdigests hpairs
    have hall : ∀ {α : Type} (entries : List (PickDay × α)),
        entries.filter (fun entry => decide (entry.1 ∉ ([] : List PickDay))) = entries := by
      intro α entries
      exact List.filter_eq_self.mpr (fun entry _ => decide_eq_true List.not_mem_nil)
    rw [hall] at hdigests
    rw [hall, hall] at hpairs
    refine ⟨hdigests, hpairs, ?_⟩
    unfold EveningSummary.history
    rw [hdigests]

end Again

/-! ## A run and the run after it -/

/-- The late days a run leaves to later runs. -/
def leftToLater (desk : Desk) (asOf : Date) (store : Documents) : List PickDay :=
  leftDays store ((sessionsOf desk asOf).rdrop windowSessions)

/-- A run that completes. -/
structure SoundRun (desk : Desk) (apply : Bool) (asOf : Date) (store : Documents)
    (summary : EveningSummary) : Prop where
  digests : InOrder summary.digests ∧ ∀ entry ∈ summary.digests, entry.2.current desk = true
  pairs : InOrder summary.pairs ∧ ∀ entry ∈ summary.pairs, entry.2.current desk = true
  accounted : ∀ day ∈ sessionsOf desk asOf, ∀ slot reading,
    storedReading store slot day = some reading →
      (∃ digest, ((day, slot), digest) ∈ summary.digests) ∨ (day, slot) ∈ summary.stale ∨
        (day, slot) ∈ summary.missing
  writes : ∀ oldest, ((sessionsOf desk asOf).rtake windowSessions).head? = some oldest →
    WritesClosed desk asOf store oldest summary.documents
  dry : apply = false → summary.documents = store
  left : ∀ pick ∈ leftToLater desk asOf store, pick ∈ summary.missing
  again : ∀ apply', Runs.Ends
    (fun again => FoldsAgain desk summary again (leftToLater desk asOf store))
    (fun _ => ∃ pick ∈ leftToLater desk asOf store, ¬ CanSettle desk asOf store pick)
    (summarise desk apply' asOf summary.documents)

/-- **An evening run.** On any store, a run folds each pick day at most once, in date order within its
    slot and with current documents, accounts for every reading of its sessions, and stores a digest
    only for a settled day, the window's oldest or one before it, also when it stops. The run after it
    folds the same history, but for late days the first one counted as missing. -/
theorem evening_run (desk : Desk) (apply : Bool) (asOf : Date) (store : Documents) :
    Runs.Ends (SoundRun desk apply asOf store)
      (fun left => ∀ oldest, ((sessionsOf desk asOf).rtake windowSessions).head? = some oldest →
        WritesClosed desk asOf store oldest left.documents)
      (summarise desk apply asOf store) := by
  rcases sessions_cases (sessionsOf desk asOf) with hnil | ⟨pairFirst, span, hfirst, hspan⟩
  · rw [summarise_nil desk apply asOf store hnil]
    intro oldest _ slot day hne
    exact absurd rfl hne
  · have holder : ((sessionsOf desk asOf).rdrop windowSessions).Pairwise (· < ·) :=
      (sessionsOf_pairwise desk asOf).sublist (List.take_sublist _ _)
    have hbefore := older_before desk asOf span hspan
    have holdest : ∀ oldest, ((sessionsOf desk asOf).rtake windowSessions).head? = some oldest →
        oldest = span.1 := by
      intro oldest hhead
      rw [((spanOf_eq_some _ span).mp hspan).1] at hhead
      exact (Option.some.inj hhead).symm
    refine (summarise_spec desk apply asOf store pairFirst span hfirst hspan).imp ?_ ?_
    · intro summary h
      obtain ⟨hdigests, hpairs⟩ :=
        run_inOrder desk asOf store _ span apply pairFirst summary h holder hbefore
      refine ⟨hdigests, hpairs, ?_, ?_, ?_, ?_, ?_⟩
      · intro day hday slot reading hreading
        rw [← rdrop_append_rtake (sessionsOf desk asOf) windowSessions] at hday
        rcases List.mem_append.mp hday with hold | hwindow
        · exact accounted desk asOf store _ span apply pairFirst summary h holder slot day reading
            hreading hold
        · have hrecent : ((sessionsOf desk asOf).rtake windowSessions).Pairwise (· < ·) :=
            (sessionsOf_pairwise desk asOf).sublist (List.drop_sublist _ _)
          exact Or.inl (mem_currentReadings_session desk asOf store _ span apply pairFirst summary h
            slot day reading (spanOf_holds _ span hrecent hspan day hwindow) hreading)
      · intro oldest hhead
        rw [holdest oldest hhead, h.documents]
        exact writesClosed_written desk asOf store _ span hbefore _
          (fun pick hmem => mem_applied apply _ pick hmem)
      · rintro rfl
        rw [h.documents]
        exact written_nil desk asOf store
      · intro pick hmem
        rw [h.missing]
        exact List.mem_append_left _ hmem
      · intro apply'
        refine (summarise_spec desk apply' asOf summary.documents pairFirst span hfirst hspan).imp
          ?_ ?_
        · intro again h'
          exact foldsAgain desk asOf store _ span apply apply' pairFirst summary again h h' holder
            hbefore
        · rintro left ⟨-, pick, hneeds, hblocked⟩
          rw [h.documents] at hneeds hblocked
          rcases needs_again desk asOf store _ span apply hbefore pick hneeds with hleft | hfirstRun
          · exact ⟨pick, hleft, hblocked⟩
          · exact absurd (h.canSettle pick hfirstRun) hblocked
    · rintro left ⟨⟨closed, hclosed, hleft⟩, -⟩ oldest hhead
      rw [holdest oldest hhead, hleft]
      exact writesClosed_written desk asOf store _ span hbefore closed hclosed

/-- The pick days folded by a run, and by the run after it on what it left. -/
def runTwice (desk : Desk) (asOf : Date) (store : Documents) :
    Option (List PickDay × List PickDay) :=
  match summarise desk true asOf store with
  | .error _ => none
  | .ok summary =>
      match summarise desk true asOf summary.documents with
      | .error _ => none
      | .ok again => some (summary.digests.map (·.1), again.digests.map (·.1))

/-- Eighteen sessions, no bars. -/
def quietDesk : Desk where
  isOpen := fun day => decide (0 ≤ day)
  today := 17
  bars := fun _ => []
  tactics := []
  registry := "registry"

/-- Six sessions before the window have readings of both slots and no digest. -/
def missedEvenings : Documents where
  readings := fun _ day =>
    if 0 ≤ day ∧ day ≤ 5 then some { version := version, rows := [], day := {} } else none
  digests := fun _ _ => none
  pairs := fun _ _ => none

/-- Of twelve late days the first run closes ten, and the second run the other two. -/
theorem runTwice_missedEvenings :
    (runTwice quietDesk 17 missedEvenings).map (fun days => (days.1.length, days.2.length))
      = some (10, 12) := by
  decide +kernel

end TradingHarness
