import TradingHarness.Relay.Positions

set_option autoImplicit false

/-! # Position gaps

The ranges that `position_gap_ranges` returns are the first of the maximal ranges of positions that nothing covers,
and the counts of the telemetry add them up, in every run of the four operations. -/

namespace TradingHarness

/-! ## Covered positions -/

variable (chatId : List Char) (spool : PositionSpool)

/-- The positions of a chat that a row covers. -/
def coveredPositions : Set ℤ :=
  {position | ∃ row ∈ spool.coverage, row.chatId = chatId ∧ row.position = position}

/-- The holes of a chat, in rising order. -/
def holesOf : List Holes.Hole :=
  Holes.holes (orderedPositions chatId spool.coverage)

theorem mem_orderedPositions {chatId : List Char} {coverage : List PositionCoverage} {position : ℤ} :
    position ∈ orderedPositions chatId coverage
      ↔ ∃ row ∈ coverage, row.chatId = chatId ∧ row.position = position := by
  simp [orderedPositions, List.mem_insertionSort, and_assoc]

theorem orderedPositions_rising (coverage : List PositionCoverage) :
    (orderedPositions chatId coverage).Pairwise (· < ·) := by
  unfold orderedPositions
  have hsorted := List.pairwise_insertionSort (α := ℤ) (· ≤ ·)
    ((coverage.filter (fun row => row.chatId == chatId)).map PositionCoverage.position).dedup
  have hnodup := (List.perm_insertionSort (α := ℤ) (· ≤ ·)
    ((coverage.filter (fun row => row.chatId == chatId)).map PositionCoverage.position).dedup).nodup_iff.mpr
      (List.nodup_dedup _)
  exact hsorted.imp₂ (fun _ _ hle hne => lt_of_le_of_ne hle hne) hnodup

/-- **The holes of a chat are the maximal ranges of positions that nothing covers.** -/
theorem maximal_holesOf :
    Holes.Maximal (coveredPositions chatId spool) (holesOf chatId spool) := by
  have hcovered : coveredPositions chatId spool
      = {position | position ∈ orderedPositions chatId spool.coverage} := by
    ext position
    exact mem_orderedPositions.symm
  rw [hcovered]
  exact Holes.maximal_holes (orderedPositions_rising chatId spool.coverage)

/-! ## The loop -/

/-- A hole as a range. -/
def gapRange (hole : Holes.Hole) : GapRange := ⟨hole.first, hole.last, hole.missing⟩

theorem scanGaps_eq (limit : ℕ) (ranges : List GapRange) (pairs : List (ℤ × ℤ)) (h : ranges.length < limit) :
    scanGaps limit ranges pairs = ranges
      ++ ((pairs.filterMap (fun pair => Holes.between pair.1 pair.2)).take (limit - ranges.length)).map gapRange := by
  induction pairs generalizing ranges with
  | nil => simp [scanGaps]
  | cons pair rest ih =>
      obtain ⟨previous, current⟩ := pair
      rw [scanGaps, List.filterMap_cons]
      by_cases hgap : 1 < current - previous
      · have hrange : gapRange ⟨previous + 1, current - 1, Holes.between_nonempty hgap⟩
            = ⟨previous + 1, current - 1, current - previous - 1⟩ := by
          simp only [gapRange, Holes.Hole.missing, GapRange.mk.injEq, true_and]
          omega
        rw [if_neg (by omega), Holes.between, dif_pos hgap]
        dsimp only
        rw [List.length_append, List.length_singleton]
        obtain ⟨more, hmore⟩ : ∃ more, limit - ranges.length = more + 1 := ⟨limit - ranges.length - 1, by omega⟩
        rw [hmore, List.take_succ_cons, List.map_cons, hrange]
        by_cases hfull : limit ≤ ranges.length + 1
        · have hnone : more = 0 := by omega
          rw [if_pos hfull, hnone, List.take_zero, List.map_nil]
        · rw [if_neg hfull, ih _ (by rw [List.length_append, List.length_singleton]; omega), List.length_append,
            List.length_singleton, List.append_assoc, List.singleton_append]
          congr 4
          omega
      · rw [if_pos (by omega), Holes.between, dif_neg hgap]
        exact ih ranges h

/-! ## What every run keeps -/

section Runs

variable (settings : SpoolSettings)

theorem strip_strip (text : List Char) : settings.strip (settings.strip text) = settings.strip text := by
  unfold SpoolSettings.strip
  have hkept : ((text.dropWhile settings.isspace).rdropWhile settings.isspace).dropWhile settings.isspace
      = (text.dropWhile settings.isspace).rdropWhile settings.isspace := by
    have hprefix := List.rdropWhile_prefix settings.isspace (text.dropWhile settings.isspace)
    rcases hshort : (text.dropWhile settings.isspace).rdropWhile settings.isspace with _ | ⟨first, rest⟩
    · rfl
    · -- the text begins with a character that is no blank
      rw [hshort] at hprefix
      obtain ⟨others, hothers⟩ := hprefix
      have hfirst := List.head?_dropWhile_not settings.isspace text
      rw [← hothers] at hfirst
      rw [List.dropWhile_cons, if_neg]
      simpa using hfirst
  rw [hkept, List.rdropWhile_idempotent]

/-- Rows cover positions of chats that have an identifier, and the rows of the telemetry are of stripped ones. -/
structure ChatsNamed (spool : PositionSpool) : Prop where
  coverage : ∀ row ∈ spool.coverage, row.chatId ≠ []
  stats : ∀ row ∈ spool.stats, settings.strip row.chatId = row.chatId

theorem recordCoverage_named (now : ℤ) (chatId : List Char) (position : Option ℤ) (coverageType : CoverageType)
    {coverage : List PositionCoverage} (h : ∀ row ∈ coverage, row.chatId ≠ []) :
    ∀ row ∈ recordCoverage now chatId position coverageType coverage, row.chatId ≠ [] := by
  intro row hrow
  unfold recordCoverage at hrow
  split at hrow
  · exact h row hrow
  · split_ifs at hrow with hnone hthere
    · exact h row hrow
    · exact h row hrow
    · rcases List.mem_append.mp hrow with hrow | hrow
      · exact h row hrow
      · rw [List.mem_singleton.mp hrow]
        exact fun hempty => hnone (Or.inl hempty)

variable {settings}

theorem stripped_update {chatId : List Char} {change : PositionStats → PositionStats} {stats : List PositionStats}
    (h : ∀ row ∈ stats, settings.strip row.chatId = row.chatId) (hchange : ∀ row, (change row).chatId = row.chatId) :
    ∀ row ∈ Keyed.update PositionStats.chatId chatId change stats, settings.strip row.chatId = row.chatId := by
  intro row hrow
  rcases Keyed.mem_update.mp hrow with ⟨old, hold, _, rfl⟩ | ⟨hrow, _⟩
  · rw [hchange]
    exact h old hold
  · exact h row hrow

theorem stripped_concat {stats : List PositionStats} {added : PositionStats} {text : List Char}
    (h : ∀ row ∈ stats, settings.strip row.chatId = row.chatId) (hadded : added.chatId = settings.strip text) :
    ∀ row ∈ stats ++ [added], settings.strip row.chatId = row.chatId := by
  intro row hrow
  rcases List.mem_append.mp hrow with hrow | hrow
  · exact h row hrow
  · rw [List.mem_singleton.mp hrow, hadded, strip_strip]

theorem recordPositionLocked_stripped {now : ℤ} {text : List Char} {position : Option ℤ}
    {stats : List PositionStats} (h : ∀ row ∈ stats, settings.strip row.chatId = row.chatId) :
    ∀ row ∈ (recordPositionLocked now (settings.strip text) position stats).2,
      settings.strip row.chatId = row.chatId := by
  unfold recordPositionLocked
  split
  · exact h
  · split
    · exact h
    · split
      · exact stripped_concat h rfl
      · dsimp only
        split
        · exact stripped_update h (fun _ => rfl)
        · split_ifs
          · exact stripped_update h (fun _ => rfl)
          · exact h
          · exact stripped_update h (fun _ => rfl)
          · exact stripped_update h (fun _ => rfl)

theorem countRecovery_stripped {now : ℤ} {text : List Char} {position : ℤ} {stats : List PositionStats}
    (h : ∀ row ∈ stats, settings.strip row.chatId = row.chatId) :
    ∀ row ∈ countRecovery now (settings.strip text) position stats, settings.strip row.chatId = row.chatId := by
  unfold countRecovery
  split
  · exact stripped_update h (fun _ => rfl)
  · exact stripped_concat h rfl

theorem chatsNamed_apply (op : ℤ × PositionOp) {spool : PositionSpool} (h : ChatsNamed settings spool) :
    ChatsNamed settings (applyPositionOp settings op spool) := by
  rcases op with ⟨now, ⟨eventId, payload, position, refresh, reopen⟩ | ⟨chatId, position⟩ | ⟨chatId, position⟩ | call⟩
  · unfold applyPositionOp enqueueAt
    dsimp only
    rcases enqueue settings now eventId payload refresh reopen spool.spool with text | ⟨status, events⟩
    · exact h
    · refine ⟨?_, h.stats⟩
      dsimp only
      split
      · exact recordCoverage_named _ _ _ _ h.coverage
      · exact h.coverage
  · exact ⟨recordCoverage_named _ _ _ _ h.coverage, recordPositionLocked_stripped h.stats⟩
  · unfold applyPositionOp recordRecoveredPosition
    dsimp only
    split
    · exact h
    next recovered =>
      split_ifs
      · exact h
      · exact h
      · exact ⟨recordCoverage_named now _ (some recovered) .recovered h.coverage, countRecovery_stripped h.stats⟩
  · unfold applyPositionOp recordFiltered
    dsimp only
    split_ifs
    · exact h
    · exact h
    · exact ⟨recordCoverage_named _ _ _ _ h.coverage, h.stats⟩
    · exact ⟨recordCoverage_named _ _ _ _ h.coverage, h.stats⟩

theorem chatsNamed_run (ops : List (ℤ × PositionOp)) : ChatsNamed settings (positionsAfter settings ops) := by
  induction ops using List.reverseRecOn with
  | nil => exact ⟨fun _ hrow => absurd hrow List.not_mem_nil, fun _ hrow => absurd hrow List.not_mem_nil⟩
  | append_singleton ops op ih =>
      rw [positionsAfter_concat]
      exact chatsNamed_apply op ih

/-! ## What is returned and reported -/

theorem positionGapRanges_eq {spool : PositionSpool} (h : ChatsNamed settings spool) (chatId : List Char)
    (limit : ℤ) : positionGapRanges settings chatId limit spool
      = ((holesOf (settings.strip chatId) spool).take (boundedGapLimit limit).toNat).map gapRange := by
  unfold positionGapRanges
  dsimp only
  split
  next hempty =>
    have hnone : orderedPositions (settings.strip chatId) spool.coverage = [] := by
      rw [List.eq_nil_iff_forall_not_mem]
      intro position hposition
      obtain ⟨row, hrow, hchat, _⟩ := mem_orderedPositions.mp hposition
      exact h.coverage row hrow (hchat.trans hempty)
    simp [holesOf, hnone, Holes.holes]
  next =>
    rw [scanGaps_eq _ _ _ (by unfold boundedGapLimit; simp), List.nil_append]
    rfl

/-- A count adds up the places that nothing covers, where the holes are no more than the limit that is the
    default. -/
theorem unresolvedPositionCount_eq {spool : PositionSpool} (h : ChatsNamed settings spool) {chatId : List Char}
    (hstripped : settings.strip chatId = chatId) (hfew : (holesOf chatId spool).length ≤ 32) :
    unresolvedPositionCount settings chatId spool = (Holes.inside (coveredPositions chatId spool)).ncard := by
  have hall : (boundedGapLimit 32).toNat = 32 := rfl
  rw [unresolvedPositionCount, positionGapRanges_eq h, hstripped, hall, List.take_of_length_le hfew, List.map_map,
    ← (maximal_holesOf chatId spool).sum_missing]
  rfl

end Runs

/-- **In every run `position_gap_ranges` returns the first ranges, as many as the limit between 1 and 128, of the
    maximal ranges of positions that nothing covers. The count of a chat that the telemetry has is the number of
    positions that nothing covers, where its holes are at most 32, and the summary adds up the chats that the
    telemetry has.** -/
theorem position_gaps_run (settings : SpoolSettings) (ops : List (ℤ × PositionOp)) :
    (∀ chatId limit,
      Holes.Maximal (coveredPositions (settings.strip chatId) (positionsAfter settings ops))
        (holesOf (settings.strip chatId) (positionsAfter settings ops))
      ∧ positionGapRanges settings chatId limit (positionsAfter settings ops)
        = ((holesOf (settings.strip chatId) (positionsAfter settings ops)).take
            (max 1 (min 128 limit)).toNat).map gapRange)
    ∧ (∀ row count, (row, count) ∈ positionStats settings (positionsAfter settings ops) →
      (holesOf row.chatId (positionsAfter settings ops)).length ≤ 32 →
        count = (Holes.inside (coveredPositions row.chatId (positionsAfter settings ops))).ncard)
    ∧ ((∀ row ∈ (positionsAfter settings ops).stats,
        (holesOf row.chatId (positionsAfter settings ops)).length ≤ 32) →
      (positionSummary settings (positionsAfter settings ops)).unresolvedPositionCount
        = ((positionsAfter settings ops).stats.map (fun row =>
          ((Holes.inside (coveredPositions row.chatId (positionsAfter settings ops))).ncard : ℤ))).sum) := by
  have h : ChatsNamed settings (positionsAfter settings ops) := chatsNamed_run ops
  refine ⟨fun chatId limit => ⟨maximal_holesOf _ _, positionGapRanges_eq h chatId limit⟩, ?_, ?_⟩
  · intro row count hitem hfew
    obtain ⟨other, hother, hsame⟩ := List.mem_map.mp hitem
    obtain ⟨rfl, rfl⟩ := Prod.mk.inj hsame
    exact unresolvedPositionCount_eq h (h.stats other ((List.mem_insertionSort _).mp hother)) hfew
  · intro hfew
    have hperm := List.perm_insertionSort
      (fun one other : PositionStats => textLe one.chatId other.chatId = true) (positionsAfter settings ops).stats
    simp only [positionSummary, positionStats, List.map_map]
    rw [(hperm.map _).sum_eq]
    congr 1
    refine List.map_congr_left (fun row hrow => ?_)
    exact unresolvedPositionCount_eq h (h.stats row hrow) (hfew row hrow)

/-! ## The bounds that the code sets -/

/-- Three positions of a chat that was observed. -/
def observedRun : List (ℤ × PositionOp) :=
  [(1, .recordPosition "767".toList (some 1)), (2, .recordPosition "767".toList (some 5)),
    (3, .recordPosition "767".toList (some 3))]

/-- Two positions of a chat of which only filtered messages came. -/
def filteredRun : List (ℤ × PositionOp) :=
  [(1, .recordFiltered { eventId := "e1".toList, chatId := "767".toList, position := some 1 }),
    (2, .recordFiltered { eventId := "e2".toList, chatId := "767".toList, position := some 3 })]

/-- A limit of nothing still returns one range, and a chat without a row of the telemetry is not counted. -/
theorem gaps_of_limit_zero_and_filtered_chat :
    positionGapRanges bridgeSettings "767".toList 0 (positionsAfter bridgeSettings observedRun)
        ≠ ((holesOf "767".toList (positionsAfter bridgeSettings observedRun)).take 0).map gapRange
      ∧ (positionSummary bridgeSettings (positionsAfter bridgeSettings filteredRun)).unresolvedPositionCount
        ≠ (Holes.inside (coveredPositions "767".toList (positionsAfter bridgeSettings filteredRun))).ncard := by
  constructor
  · decide +kernel
  · have hsummary : (positionSummary bridgeSettings
        (positionsAfter bridgeSettings filteredRun)).unresolvedPositionCount = 0 := by decide +kernel
    have hmissing : ((holesOf "767".toList (positionsAfter bridgeSettings filteredRun)).map
        Holes.Hole.missing).sum = 1 := by decide +kernel
    rw [hsummary, ← (maximal_holesOf _ _).sum_missing, hmissing]
    decide

end TradingHarness
