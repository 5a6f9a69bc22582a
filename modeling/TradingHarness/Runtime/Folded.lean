import TradingHarness.Runtime.Window

set_option autoImplicit false

/-! # What a run folds

The spec of `summarise`: which documents a run that completes leaves, what it folded and in which order,
what it counted, and which pick days it had to settle. A run that stops wrote nothing else. -/

namespace TradingHarness

/-! ## The calendar -/

section

variable (days : List Date)

section

variable (span : Date × Date)

theorem spanOf_eq_some :
    spanOf days = some span ↔ days.head? = some span.1 ∧ days.getLast? = some span.2 := by
  unfold spanOf
  rcases days.head? with _ | first <;> rcases days.getLast? with _ | last <;>
    simp [Prod.ext_iff]

theorem spanOf_holds (hdays : days.Pairwise (· < ·))
    (hspan : spanOf days = some span) (day : Date) (hmem : day ∈ days) :
    span.1 ≤ day ∧ day ≤ span.2 := by
  obtain ⟨hhead, hlast⟩ := (spanOf_eq_some days span).mp hspan
  constructor
  · obtain ⟨rest, rfl⟩ := List.head?_eq_some_iff.mp hhead
    rcases List.mem_cons.mp hmem with heq | hrest
    · exact le_of_eq heq.symm
    · exact le_of_lt ((List.pairwise_cons.mp hdays).1 day hrest)
  · obtain ⟨front, rfl⟩ := List.getLast?_eq_some_iff.mp hlast
    rcases List.mem_append.mp hmem with hfront | heq
    · exact le_of_lt ((List.pairwise_append.mp hdays).2.2 day hfront span.2 (by simp))
    · exact le_of_eq (List.mem_singleton.mp heq)

theorem spanOf_mem (hspan : spanOf days = some span) :
    span.1 ∈ days ∧ span.2 ∈ days := by
  obtain ⟨hhead, hlast⟩ := (spanOf_eq_some days span).mp hspan
  exact ⟨List.mem_of_head? hhead, List.mem_of_getLast? hlast⟩

end

theorem spanOf_isSome (day : Date) (hmem : day ∈ days) :
    ∃ span, spanOf days = some span := by
  rcases days with _ | ⟨first, rest⟩
  · exact absurd hmem List.not_mem_nil
  · refine ⟨(first, (first :: rest).getLast (by simp)), ?_⟩
    exact (spanOf_eq_some _ _).mpr ⟨rfl, List.getLast?_eq_some_getLast (by simp)⟩

end

variable (store : Documents) (older : List Date) (span : Date × Date)

theorem exists_chunkSpan (holder : older.Pairwise (· < ·)) (day : Date)
    (hmem : day ∈ older) : ∃ span ∈ chunkSpans older, span.1 ≤ day ∧ day ≤ span.2 := by
  obtain ⟨chunk, hchunk, hday⟩ := Chunks.exists_mem chunkSessions (by decide) older day hmem
  obtain ⟨span, hspan⟩ := spanOf_isSome chunk day hday
  have hsorted := holder.sublist (Chunks.sublist_of_mem _ _ _ hchunk)
  exact ⟨span, List.mem_filterMap.mpr ⟨chunk, hchunk, hspan⟩,
    spanOf_holds chunk span hsorted hspan day hday⟩

theorem chunkSpan_mem (hspan : span ∈ chunkSpans older) :
    span.1 ∈ older ∧ span.2 ∈ older := by
  obtain ⟨chunk, hchunk, hspanOf⟩ := List.mem_filterMap.mp hspan
  have hsublist := Chunks.sublist_of_mem _ _ _ hchunk
  obtain ⟨hfirst, hlast⟩ := spanOf_mem chunk span hspanOf
  exact ⟨hsublist.subset hfirst, hsublist.subset hlast⟩

theorem chunkSpans_pairwise (holder : older.Pairwise (· < ·)) :
    (chunkSpans older).Pairwise (fun span span' => span.2 < span'.1) := by
  unfold chunkSpans
  refine (Chunks.chunks_pairwise (· < ·) chunkSessions older holder).filterMap _ ?_
  intro chunk chunk' hall span hspan span' hspan'
  exact hall _ (spanOf_mem chunk span hspan).2 _ (spanOf_mem chunk' span' hspan').1

theorem sessionsOf_pairwise (desk : Desk) (asOf : Date) :
    (sessionsOf desk asOf).Pairwise (· < ·) :=
  (daysBetween_pairwise _ _).filter _

theorem rdrop_append_rtake {α : Type} (items : List α) (n : ℕ) :
    items.rdrop n ++ items.rtake n = items :=
  List.take_append_drop _ _

theorem older_lt_window (sessions : List Date) (hsessions : sessions.Pairwise (· < ·)) (n : ℕ)
    (day day' : Date) (hday : day ∈ sessions.rdrop n) (hday' : day' ∈ sessions.rtake n) :
    day < day' := by
  rw [← rdrop_append_rtake sessions n, List.pairwise_append] at hsessions
  exact hsessions.2.2 day hday day' hday'

/-! ## The order of what is folded -/

/-- No pick day twice, and the days of each slot in date order. -/
def InOrder {α : Type} (entries : List (PickDay × α)) : Prop :=
  entries.Pairwise (fun entry entry' => entry.1.2 = entry'.1.2 → entry.1.1 < entry'.1.1)

theorem mem_currentEntries {α : Type} (current : α → Bool) (span : Date × Date) (slot : Slot)
    (table : Date → Option α) (entry : PickDay × α) :
    entry ∈ currentEntries current span slot table ↔
      entry.1.2 = slot ∧ (span.1 ≤ entry.1.1 ∧ entry.1.1 ≤ span.2) ∧
        table entry.1.1 = some entry.2 ∧ current entry.2 = true := by
  unfold currentEntries
  rw [List.mem_map]
  constructor
  · rintro ⟨⟨day, document⟩, hmem, rfl⟩
    obtain ⟨hread, hcurrent⟩ := List.mem_filter.mp hmem
    obtain ⟨hspan, htable⟩ := (mem_readRange _ _ _ _ _).mp hread
    exact ⟨rfl, hspan, htable, hcurrent⟩
  · rintro ⟨hslot, hspan, htable, hcurrent⟩
    refine ⟨(entry.1.1, entry.2), ?_, by rw [← hslot]⟩
    exact List.mem_filter.mpr ⟨(mem_readRange _ _ _ _ _).mpr ⟨hspan, htable⟩, hcurrent⟩

theorem readRange_pairwise {α : Type} (table : Date → Option α) (first last : Date) :
    (readRange table first last).Pairwise (fun entry entry' => entry.1 < entry'.1) := by
  unfold readRange
  refine (daysBetween_pairwise first last).filterMap _ ?_
  intro day day' hlt entry hentry entry' hentry'
  obtain ⟨document, -, rfl⟩ := Option.map_eq_some_iff.mp hentry
  obtain ⟨document', -, rfl⟩ := Option.map_eq_some_iff.mp hentry'
  exact hlt

theorem currentEntries_inOrder {α : Type} (current : α → Bool) (span : Date × Date) (slot : Slot)
    (table : Date → Option α) : InOrder (currentEntries current span slot table) := by
  unfold InOrder currentEntries
  rw [List.pairwise_map]
  refine ((readRange_pairwise table span.1 span.2).filter _).imp ?_
  intro entry entry' hlt _
  exact hlt

theorem partsOf_pairwise (spans : List (Date × Date))
    (hspans : spans.Pairwise (fun span span' => span.2 < span'.1)) :
    (partsOf spans).Pairwise (fun part part' => part.2 = part'.2 → part.1.2 < part'.1.1) := by
  unfold partsOf
  rw [List.pairwise_flatMap]
  constructor
  · intro span _
    rw [List.pairwise_map]
    have hnodup : slots.Nodup := by decide
    refine hnodup.imp ?_
    intro slot slot' hne heq
    exact absurd heq hne
  · refine hspans.imp ?_
    intro span span' hlt part hpart part' hpart' _
    obtain ⟨slot, -, rfl⟩ := List.mem_map.mp hpart
    obtain ⟨slot', -, rfl⟩ := List.mem_map.mp hpart'
    exact hlt

theorem olderEntries_inOrder {α : Type} (current : α → Bool) (table : Slot → Date → Option α)
    (parts : List Part)
    (hparts : parts.Pairwise (fun part part' => part.2 = part'.2 → part.1.2 < part'.1.1)) :
    InOrder (olderEntries current table parts) := by
  unfold InOrder olderEntries
  rw [List.pairwise_flatMap]
  refine ⟨fun part _ => currentEntries_inOrder _ _ _ _, hparts.imp ?_⟩
  intro part part' hlt entry hentry entry' hentry' hslot
  obtain ⟨hpart, hspan, -⟩ := (mem_currentEntries _ _ _ _ _).mp hentry
  obtain ⟨hpart', hspan', -⟩ := (mem_currentEntries _ _ _ _ _).mp hentry'
  rw [hpart, hpart'] at hslot
  exact lt_of_le_of_lt hspan.2 (lt_of_lt_of_le (hlt hslot) hspan'.1)

section

variable (folded : Slot → Date → Option (DigestDocument × PairDocument))

theorem mem_sortedFolded (entry : PickDay × (DigestDocument × PairDocument)) :
    entry ∈ sortedFolded span folded ↔
      (span.1 ≤ entry.1.1 ∧ entry.1.1 ≤ span.2) ∧ folded entry.1.2 entry.1.1 = some entry.2 := by
  have hslots : ∀ slot, slot ∈ sortedSlots := by
    intro slot
    rcases slot with _ | _ <;> decide
  unfold sortedFolded
  rw [List.mem_flatMap]
  constructor
  · rintro ⟨day, hday, hmem⟩
    obtain ⟨slot, -, hfound⟩ := List.mem_filterMap.mp hmem
    obtain ⟨documents, hfolded, rfl⟩ := Option.map_eq_some_iff.mp hfound
    exact ⟨(mem_daysBetween _ _ _).mp hday, hfolded⟩
  · rintro ⟨hspan, hfolded⟩
    refine ⟨entry.1.1, (mem_daysBetween _ _ _).mpr hspan, ?_⟩
    exact List.mem_filterMap.mpr ⟨entry.1.2, hslots _, by rw [hfolded]; rfl⟩

theorem sortedFolded_inOrder :
    InOrder (sortedFolded span folded) := by
  unfold InOrder sortedFolded
  rw [List.pairwise_flatMap]
  constructor
  · intro day _
    have hnodup : sortedSlots.Nodup := by decide
    refine List.Pairwise.filterMap _ ?_ hnodup
    intro slot slot' hne entry hentry entry' hentry' hslot
    obtain ⟨_, -, rfl⟩ := Option.map_eq_some_iff.mp hentry
    obtain ⟨_, -, rfl⟩ := Option.map_eq_some_iff.mp hentry'
    exact absurd hslot hne
  · refine (daysBetween_pairwise _ _).imp ?_
    intro day day' hlt entry hentry entry' hentry' _
    obtain ⟨_, -, hfound⟩ := List.mem_filterMap.mp hentry
    obtain ⟨_, -, hfound'⟩ := List.mem_filterMap.mp hentry'
    obtain ⟨_, -, rfl⟩ := Option.map_eq_some_iff.mp hfound
    obtain ⟨_, -, rfl⟩ := Option.map_eq_some_iff.mp hfound'
    exact hlt

end

/-! ## Late days -/

theorem mem_undigested (slot : Slot) (pick : PickDay) :
    pick ∈ undigested store span slot ↔ pick.2 = slot ∧ (span.1 ≤ pick.1 ∧ pick.1 ≤ span.2) ∧
      (store.readings slot pick.1).isSome = true ∧ store.digests slot pick.1 = none := by
  unfold undigested
  rw [List.mem_map]
  constructor
  · rintro ⟨day, hmem, rfl⟩
    obtain ⟨hday, hboth⟩ := List.mem_filter.mp hmem
    obtain ⟨hreading, hdigest⟩ := Bool.and_eq_true_iff.mp hboth
    exact ⟨rfl, (mem_daysBetween _ _ _).mp hday, hreading, Option.isNone_iff_eq_none.mp hdigest⟩
  · rintro ⟨hslot, hspan, hreading, hdigest⟩
    refine ⟨pick.1, List.mem_filter.mpr ⟨(mem_daysBetween _ _ _).mpr hspan, ?_⟩, by rw [← hslot]⟩
    rw [hreading, hdigest]
    rfl

theorem mem_slots (slot : Slot) : slot ∈ slots := by
  rcases slot with _ | _ <;> decide

theorem mem_lateDays (hspan : spanOf older = some span) (pick : PickDay) :
    pick ∈ lateDays store older ↔ (span.1 ≤ pick.1 ∧ pick.1 ≤ span.2) ∧
      (store.readings pick.2 pick.1).isSome = true ∧ store.digests pick.2 pick.1 = none := by
  unfold lateDays
  rw [hspan]
  show pick ∈ List.insertionSort sortsBefore _ ↔ _
  rw [List.mem_insertionSort, List.mem_flatMap]
  constructor
  · rintro ⟨slot, -, hmem⟩
    obtain ⟨hslot, hrest⟩ := (mem_undigested store span slot pick).mp hmem
    subst hslot
    exact hrest
  · intro hrest
    exact ⟨pick.2, mem_slots _, (mem_undigested store span _ pick).mpr ⟨rfl, hrest⟩⟩

theorem lateDays_of_none (hspan : spanOf older = none) :
    lateDays store older = [] := by
  unfold lateDays
  rw [hspan]

theorem lateDays_nodup : (lateDays store older).Nodup := by
  rcases hspan : spanOf older with _ | span
  · rw [lateDays_of_none store older hspan]
    exact List.nodup_nil
  · unfold lateDays
    rw [hspan]
    refine (List.perm_insertionSort sortsBefore _).nodup_iff.mpr (List.nodup_flatMap.mpr ⟨?_, ?_⟩)
    · intro slot _
      unfold undigested
      refine List.Nodup.map (fun a b hab => (Prod.mk.inj hab).1) (List.Nodup.filter _ ?_)
      exact (daysBetween_pairwise _ _).imp (fun hlt => ne_of_lt hlt)
    · have hnodup : slots.Nodup := by decide
      refine hnodup.imp ?_
      intro slot slot' hne pick hpick hpick'
      have hslot := ((mem_undigested store span slot pick).mp hpick).1
      have hslot' := ((mem_undigested store span slot' pick).mp hpick').1
      exact hne (hslot.symm.trans hslot')

/-! ## The run -/

section Run

variable (desk : Desk) (asOf : Date) (store : Documents) (older : List Date) (span : Date × Date)

/-- The late days a run closes, if it can. -/
def quota : List PickDay := (lateDays store older).take lateDaysARun

/-- The late days it leaves to later runs. -/
def leftDays : List PickDay := (lateDays store older).drop lateDaysARun

/-- The pick days a run closes: those of its quota, and those the window closes. -/
def closedPicks : List PickDay :=
  (partsOf (chunkSpans older)).flatMap (latePicks (quota store older)) ++
    slots.flatMap (windowPicks desk asOf store span)

/-- The pick days a run has to settle. -/
def RunNeeds (pick : PickDay) : Prop :=
  pick ∈ (partsOf (chunkSpans older)).flatMap (latePicks (quota store older)) ∨
    ∃ slot ∈ slots, WindowNeeds desk asOf store span slot pick

/-- What the window's pick days are folded with. -/
def windowEntries : List (PickDay × (DigestDocument × PairDocument)) :=
  sortedFolded span (windowNow desk asOf store)

/-- A run that completes, in terms of the documents it found. -/
structure RunFolded (apply : Bool) (pairFirst : Date) (summary : EveningSummary) : Prop where
  documents : summary.documents
    = written desk asOf store (applied apply (closedPicks desk asOf store older span))
  digests : summary.digests
    = olderEntries (·.current desk) (written desk asOf store (quota store older)).digests
        (partsOf (chunkSpans older)) ++
      (windowEntries desk asOf store span).map (fun entry => (entry.1, entry.2.1))
  pairs : summary.pairs
    = olderEntries (·.current desk)
        (fun slot => fromDay pairFirst ((written desk asOf store (quota store older)).pairs slot))
        (partsOf (chunkSpans older)) ++
      ((windowEntries desk asOf store span).filter
        (fun entry => decide (pairFirst ≤ entry.1.1))).map (fun entry => (entry.1, entry.2.2))
  stale : summary.stale = (partsOf (chunkSpans older)).flatMap (fun part =>
    staleDays desk part.1 part.2
      ((written desk asOf store (quota store older)).digests part.2))
  missing : summary.missing = leftDays store older ++
    (partsOf (chunkSpans older)).flatMap (fun part =>
      unreadable store part.2 (lateIn (quota store older) part.1 part.2))
  canSettle : ∀ pick, RunNeeds desk asOf store older span pick → CanSettle desk asOf store pick

theorem sortedFolded_congr (folded folded' : Slot → Date → Option (DigestDocument × PairDocument))
    (h : ∀ slot day, span.1 ≤ day ∧ day ≤ span.2 → folded slot day = folded' slot day) :
    sortedFolded span folded = sortedFolded span folded' := by
  unfold sortedFolded
  refine List.flatMap_congr ?_
  intro day hmem
  refine List.filterMap_congr ?_
  intro slot _
  rw [h slot day ((mem_daysBetween _ _ _).mp hmem)]

theorem latePicks_before (late : List PickDay)
    (hbefore : ∀ day ∈ older, day < span.1) (pick : PickDay)
    (hmem : pick ∈ (partsOf (chunkSpans older)).flatMap (latePicks late)) : pick.1 < span.1 := by
  obtain ⟨part, hpart, hpick⟩ := List.mem_flatMap.mp hmem
  obtain ⟨chunk, hchunk, hslot⟩ := List.mem_flatMap.mp hpart
  obtain ⟨slot, -, rfl⟩ := List.mem_map.mp hslot
  have hday := ((mem_picksOn _ _ pick).mp hpick).2
  have hspan := ((mem_lateIn _ _ _ _).mp hday).1
  exact lt_of_le_of_lt hspan.2 (hbefore _ (chunkSpan_mem older chunk hchunk).2)

/-- Folding the days before the window and then the window. -/
theorem foldRun_spec (apply : Bool) (pairFirst : Date) (hbefore : ∀ day ∈ older, day < span.1) :
    Runs.Ends (RunFolded desk asOf store older span apply pairFirst)
      (StoppedAt desk asOf store (· ∈ closedPicks desk asOf store older span)
        (RunNeeds desk asOf store older span))
      (do
        let run ← foldOlder desk apply asOf pairFirst store older
        let window ← foldWindow desk apply asOf run.documents span
        return eveningSummary pairFirst span run window) := by
  have hwindow : ∀ pick, (pick ∈ applied apply ((partsOf (chunkSpans older)).flatMap
        (latePicks (quota store older))) ∨
        ∃ slot ∈ slots, pick ∈ windowPicks desk asOf store span slot) →
      pick ∈ closedPicks desk asOf store older span := by
    rintro pick (hmem | hmem)
    · exact List.mem_append_left _ (mem_applied apply _ pick hmem)
    · exact List.mem_append_right _ (List.mem_flatMap.mpr hmem)
  refine Runs.Ends.bind ((foldOlder_spec desk asOf store apply pairFirst older).imp
    (fun _ h => h) ?_) ?_
  · intro left hstopped
    exact hstopped.mono desk asOf store (fun pick hmem => List.mem_append_left _ hmem)
      (fun pick hneeds => Or.inl hneeds)
  · intro run hrun
    rw [hrun.documents]
    refine Runs.Ends.bind ((foldWindow_spec desk asOf store span apply _ ?_).imp
      (fun _ h => h) ?_) ?_
    · intro pick hmem hspan
      have hlt := latePicks_before older span _ hbefore pick (mem_applied apply _ pick hmem)
      exact absurd hspan.1 (not_le.mpr hlt)
    · intro left hstopped
      exact hstopped.mono desk asOf store hwindow (fun pick hneeds => Or.inr hneeds)
    · intro window hfolded
      have hentries : sortedFolded span window.folded = windowEntries desk asOf store span := by
        refine sortedFolded_congr span _ _ ?_
        intro slot day hspan
        rw [hfolded.folded, if_pos ⟨mem_slots slot, hspan⟩]
      refine ⟨?_, ?_, ?_, hrun.stale, hrun.missing, ?_⟩
      · show window.documents = _
        unfold closedPicks
        rw [hfolded.documents, applied_append]
        rfl
      · show run.digests ++ _ = _
        rw [hrun.digests, hentries]
        rfl
      · show run.pairs ++ _ = _
        rw [hrun.pairs, hentries]
        rfl
      · rintro pick (hmem | ⟨slot, hslot, hneeds⟩)
        · obtain ⟨part, hpart, hpick⟩ := List.mem_flatMap.mp hmem
          exact hrun.canSettle part hpart pick hpick
        · exact hfolded.canSettle slot hslot pick hneeds

end Run

theorem sessions_cases (sessions : List Date) :
    sessions = [] ∨ ∃ pairFirst span, (sessions.rtake pairSessions).head? = some pairFirst ∧
      spanOf (sessions.rtake windowSessions) = some span := by
  have hrtake : ∀ n, 0 < n → sessions ≠ [] → sessions.rtake n ≠ [] := by
    intro n hn hne hnil
    have hlength := congrArg List.length hnil
    have hpos := List.length_pos_iff.mpr hne
    unfold List.rtake at hlength
    rw [List.length_drop, List.length_nil] at hlength
    omega
  by_cases hne : sessions = []
  · exact Or.inl hne
  · right
    obtain ⟨pairFirst, hpair⟩ := Option.ne_none_iff_exists'.mp
      (mt List.head?_eq_none_iff.mp (hrtake pairSessions (by decide) hne))
    obtain ⟨first, hfirst⟩ := List.exists_mem_of_ne_nil _ (hrtake windowSessions (by decide) hne)
    obtain ⟨span, hspan⟩ := spanOf_isSome _ first hfirst
    exact ⟨pairFirst, span, hpair, hspan⟩

theorem summarise_nil (desk : Desk) (apply : Bool) (asOf : Date) (store : Documents)
    (hnil : sessionsOf desk asOf = []) :
    summarise desk apply asOf store = .error { error := .indexError, documents := store } := by
  unfold summarise
  rw [hnil]
  rfl

theorem older_before (desk : Desk) (asOf : Date) (span : Date × Date)
    (hspan : spanOf ((sessionsOf desk asOf).rtake windowSessions) = some span) (day : Date)
    (hday : day ∈ (sessionsOf desk asOf).rdrop windowSessions) : day < span.1 :=
  older_lt_window _ (sessionsOf_pairwise desk asOf) windowSessions day span.1 hday
    (spanOf_mem _ span hspan).1

/-- **What a run folds.** A run completes as `RunFolded` says, or stops at a pick day it needs and
    cannot settle, having written nothing but days it closes. -/
theorem summarise_spec (desk : Desk) (apply : Bool) (asOf : Date) (store : Documents)
    (pairFirst : Date) (span : Date × Date)
    (hfirst : ((sessionsOf desk asOf).rtake pairSessions).head? = some pairFirst)
    (hspan : spanOf ((sessionsOf desk asOf).rtake windowSessions) = some span) :
    Runs.Ends
      (RunFolded desk asOf store ((sessionsOf desk asOf).rdrop windowSessions) span apply pairFirst)
      (StoppedAt desk asOf store
        (· ∈ closedPicks desk asOf store ((sessionsOf desk asOf).rdrop windowSessions) span)
        (RunNeeds desk asOf store ((sessionsOf desk asOf).rdrop windowSessions) span))
      (summarise desk apply asOf store) := by
  unfold summarise
  simp only
  rw [hfirst, hspan]
  exact foldRun_spec desk asOf store _ span apply pairFirst (older_before desk asOf span hspan)

end TradingHarness
