import TradingHarness.Runtime.Closing

set_option autoImplicit false

/-! # What the window folds

Every reading of the current version in the window is folded: with its final documents when both are
stored and current, else with the documents of its outcomes now (`windowNow`). The window writes a day
only when it had to settle it, and it was settled or is the window's oldest. -/

namespace TradingHarness

/-! ## The outcomes of a day -/

theorem dayOutcomes_ok (bars : String → List SettlementBar) (slot : Slot) (day : Date)
    (reading : ReadingDocument) (asOf : Date) (settled : SettledDay)
    (h : dayOutcomes bars slot day reading asOf = .ok settled) :
    settled.day.tradeDate = day ∧ settled.day.slot = slot ∧
      ∃ settledRows, reading.rows.mapM (fun row => do
          let evaluation ← settleRow bars reading.rows slot day asOf row
          return (row.symbol, evaluation)) = .ok settledRows ∧
        (settled.settled = true → settledRows.all (fun row => settledComplete row.2) = true) := by
  unfold dayOutcomes at h
  simp only at h
  rcases hrows : reading.rows.mapM (fun row => do
      let evaluation ← settleRow bars reading.rows slot day asOf row
      return (row.symbol, evaluation)) with error | settledRows
  · rw [hrows] at h
    exact absurd h (by simp [bind, Except.bind])
  · rw [hrows] at h
    have heq := Except.ok.inj h
    subst heq
    refine ⟨rfl, rfl, settledRows, hrows, ?_⟩
    intro hsettled
    exact (Bool.and_eq_true_iff.mp hsettled).1

section Window

variable (desk : Desk) (asOf : Date) (store : Documents) (span : Date × Date)

/-- The stored digest of a pick day, if it is current. -/
def currentDigest (slot : Slot) (day : Date) : Option DigestDocument :=
  (store.digests slot day).filter (·.current desk)

def currentPair (slot : Slot) (day : Date) : Option PairDocument :=
  (store.pairs slot day).filter (·.current desk)

/-- A pick day whose digest and pairs are both stored and current. -/
def isFinal (slot : Slot) (day : Date) : Bool :=
  (currentDigest desk store slot day).isSome && (currentPair desk store slot day).isSome

/-- What a pick day of the window is folded with. -/
def windowNow (slot : Slot) (day : Date) : Option (DigestDocument × PairDocument) :=
  match storedReading store slot day, currentDigest desk store slot day,
    currentPair desk store slot day with
  | none, _, _ => none
  | some _, some digest, some pairs => some (digest, pairs)
  | some _, _, _ => documentsNow desk asOf store slot day

/-- A pick day the window closes. -/
def closesNow (slot : Slot) (day : Date) : Bool :=
  !isFinal desk store slot day &&
    (outcomesNow desk asOf store slot day).any
      (fun settled => settled.settled || decide (day = span.1))

/-- A pick day with outcomes. -/
def resolvedNow (slot : Slot) (day : Date) : Bool :=
  (windowNow desk asOf store slot day).any (fun final => decide (final.1.digest.resolved ≠ 0))

/-- The pick days of a slot that the window closes. -/
def windowPicks (slot : Slot) : List PickDay :=
  picksOn slot (((currentReadings store span slot).map (·.1)).filter
    (closesNow desk asOf store span slot))

/-- The newest pick day of a slot with outcomes. -/
def newestNow (slot : Slot) : Option (Date × ReadingDocument) :=
  ((currentReadings store span slot).filter
    (fun entry => resolvedNow desk asOf store slot entry.1)).getLast?

/-- The pick days the window has to settle: those not final, and the newest with outcomes. -/
def WindowNeeds (slot : Slot) (pick : PickDay) : Prop :=
  pick.2 = slot ∧ ∃ entry ∈ currentReadings store span slot, entry.1 = pick.1 ∧
    (isFinal desk store slot entry.1 = false ∨ newestNow desk asOf store span slot = some entry)

theorem mem_currentReadings (slot : Slot) (entry : Date × ReadingDocument) :
    entry ∈ currentReadings store span slot ↔
      (span.1 ≤ entry.1 ∧ entry.1 ≤ span.2) ∧ storedReading store slot entry.1 = some entry.2 :=
  mem_readRange _ _ _ _ _

theorem canSettle_of_outcomes (slot : Slot) (day : Date) (settled : SettledDay)
    (h : outcomesNow desk asOf store slot day = some settled) :
    CanSettle desk asOf store (day, slot) := by
  rcases reading_cases desk asOf store slot day with ⟨hreading, -⟩ |
    ⟨reading, error, hreading, herror⟩ | ⟨reading, settled', hreading, hok, -, -⟩
  · unfold outcomesNow at h
    rw [hreading] at h
    exact absurd h (by simp)
  · unfold outcomesNow at h
    rw [hreading, Option.bind_some, herror] at h
    exact absurd h (by simp [Except.toOption])
  · exact canSettle_of_ok desk asOf store slot day reading settled' hreading hok

/-! ## One reading -/

/-- A reading of the window is final, or cannot be settled, or is settled now. -/
theorem windowDocuments_cases (final : Date → Option DigestDocument)
    (finals : Date → Option PairDocument) (slot : Slot) (day : Date) (reading : ReadingDocument)
    (hfinal : final day = currentDigest desk store slot day)
    (hpairs : finals day = currentPair desk store slot day)
    (hreading : storedReading store slot day = some reading) :
    (∃ documents, windowDocuments desk asOf final finals slot day reading = .ok (documents, none) ∧
      isFinal desk store slot day = true ∧
      windowNow desk asOf store slot day = some documents) ∨
    (∃ error, windowDocuments desk asOf final finals slot day reading = .error error ∧
      isFinal desk store slot day = false ∧
      dayOutcomes desk.bars slot day reading asOf = .error error) ∨
    (∃ settled, windowDocuments desk asOf final finals slot day reading
        = .ok (digestDocuments desk settled.day, some settled) ∧
      isFinal desk store slot day = false ∧
      dayOutcomes desk.bars slot day reading asOf = .ok settled ∧
      windowNow desk asOf store slot day = some (digestDocuments desk settled.day)) := by
  have hnow : ∀ settled, dayOutcomes desk.bars slot day reading asOf = .ok settled →
      documentsNow desk asOf store slot day = some (digestDocuments desk settled.day) := by
    intro settled hok
    unfold documentsNow outcomesNow
    rw [hreading, Option.bind_some, hok]
    rfl
  unfold windowDocuments isFinal windowNow
  rw [hfinal, hpairs, hreading]
  rcases currentDigest desk store slot day with _ | digest <;>
    rcases currentPair desk store slot day with _ | pairs
  case some.some => exact Or.inl ⟨(digest, pairs), rfl, rfl, rfl⟩
  all_goals
    right
    rcases hok : dayOutcomes desk.bars slot day reading asOf with error | settled
    · exact Or.inl ⟨error, rfl, rfl, rfl⟩
    · exact Or.inr ⟨settled, rfl, rfl, rfl, hnow settled hok⟩

/-- A slot of the window after some of its readings. -/
structure ReadingsFolded (apply : Bool) (slot : Slot) (closed : List PickDay) (start : WindowRun)
    (seen : List (Date × ReadingDocument)) (run : WindowRun) : Prop where
  documents : run.documents = written desk asOf store
    (closed ++ applied apply (picksOn slot ((seen.map (·.1)).filter
      (closesNow desk asOf store span slot))))
  folded : ∀ slot' day, run.folded slot' day
    = if slot' = slot ∧ day ∈ seen.map (·.1) then windowNow desk asOf store slot' day
      else start.folded slot' day
  newest : run.newestResolved
    = (seen.filter (fun entry => resolvedNow desk asOf store slot entry.1)).getLast?
  latest : ∀ slot' settled, run.latest slot' = some settled →
    outcomesNow desk asOf store slot' settled.day.tradeDate = some settled
  canSettle : ∀ entry ∈ seen, isFinal desk store slot entry.1 = false →
    CanSettle desk asOf store (entry.1, slot)

theorem putDocument_folded {α : Type} (now start folded : Slot → Date → Option α) (slot : Slot)
    (days : List Date) (day : Date) (value : α) (hnow : now slot day = some value)
    (h : ∀ slot' day', folded slot' day'
      = if slot' = slot ∧ day' ∈ days then now slot' day' else start slot' day')
    (slot' : Slot) (day' : Date) :
    putDocument folded slot day value slot' day'
      = if slot' = slot ∧ day' ∈ days ++ [day] then now slot' day' else start slot' day' := by
  unfold putDocument
  by_cases hkey : slot' = slot ∧ day' = day
  · obtain ⟨rfl, rfl⟩ := hkey
    rw [if_pos ⟨rfl, rfl⟩, if_pos ⟨rfl, by simp⟩, hnow]
  · rw [if_neg hkey, h]
    refine if_congr ?_ rfl rfl
    rw [List.mem_append, List.mem_singleton]
    tauto

theorem getLast?_filter_concat {α : Type} (p : α → Bool) (items : List α) (item : α) :
    ((items ++ [item]).filter p).getLast?
      = if p item then some item else (items.filter p).getLast? := by
  rw [List.filter_append]
  by_cases hp : p item
  · rw [List.filter_cons_of_pos hp, List.filter_nil, List.getLast?_concat, if_pos hp]
  · rw [List.filter_cons_of_neg hp, List.filter_nil, List.append_nil, if_neg hp]

theorem filter_map_concat (days : List Date) (day : Date) (p : Date → Bool) (slot : Slot) :
    picksOn slot ((days ++ [day]).filter p)
      = picksOn slot (days.filter p) ++ if p day then [(day, slot)] else [] := by
  rw [List.filter_append]
  by_cases hp : p day
  · rw [List.filter_cons_of_pos hp, List.filter_nil, picksOn_concat, if_pos hp]
  · rw [List.filter_cons_of_neg hp, List.filter_nil, List.append_nil, if_neg hp, List.append_nil]

/-- What `note` records does not touch the documents or the outcomes kept for the day section. -/
theorem note_spec (slot : Slot) (entry : Date × ReadingDocument)
    (final : DigestDocument × PairDocument) (run : WindowRun) (start : WindowRun)
    (seen : List (Date × ReadingDocument))
    (hnow : windowNow desk asOf store slot entry.1 = some final)
    (hfolded : ∀ slot' day, run.folded slot' day
      = if slot' = slot ∧ day ∈ seen.map (·.1) then windowNow desk asOf store slot' day
        else start.folded slot' day)
    (hnewest : run.newestResolved
      = (seen.filter (fun entry => resolvedNow desk asOf store slot entry.1)).getLast?) :
    (∀ slot' day, (run.note asOf slot entry final).folded slot' day
      = if slot' = slot ∧ day ∈ (seen ++ [entry]).map (·.1) then
          windowNow desk asOf store slot' day
        else start.folded slot' day) ∧
    (run.note asOf slot entry final).newestResolved
      = ((seen ++ [entry]).filter
          (fun entry => resolvedNow desk asOf store slot entry.1)).getLast? := by
  constructor
  · rw [List.map_append, List.map_singleton]
    exact putDocument_folded (windowNow desk asOf store) start.folded run.folded slot _ entry.1
      final hnow hfolded
  · have hresolved : resolvedNow desk asOf store slot entry.1
        = decide (final.1.digest.resolved ≠ 0) := by
      unfold resolvedNow
      rw [hnow]
      rfl
    rw [getLast?_filter_concat, hresolved, ← hnewest]
    show (if final.1.digest.resolved ≠ 0 then some entry else run.newestResolved) = _
    by_cases hzero : final.1.digest.resolved ≠ 0
    · rw [if_pos hzero, if_pos (decide_eq_true hzero)]
    · rw [if_neg hzero, if_neg (by simpa using hzero)]

/-- One more reading. -/
theorem foldReading_spec (apply : Bool) (slot : Slot) (closed : List PickDay) (start run : WindowRun)
    (seen : List (Date × ReadingDocument)) (entry : Date × ReadingDocument)
    (final : Date → Option DigestDocument) (finals : Date → Option PairDocument)
    (hfinal : final entry.1 = currentDigest desk store slot entry.1)
    (hpairs : finals entry.1 = currentPair desk store slot entry.1)
    (hreading : storedReading store slot entry.1 = some entry.2)
    (h : ReadingsFolded desk asOf store span apply slot closed start seen run) :
    Runs.Ends
      (ReadingsFolded desk asOf store span apply slot closed start (seen ++ [entry]))
      (StoppedAt desk asOf store
        (fun pick => pick ∈ closed ∨ pick ∈ picksOn slot ((seen.map (·.1)).filter
          (closesNow desk asOf store span slot)))
        (fun pick => pick = (entry.1, slot) ∧ isFinal desk store slot entry.1 = false))
      (foldReading desk apply asOf final finals span.1 slot run entry) := by
  have hpicks : picksOn slot (((seen ++ [entry]).map (·.1)).filter
        (closesNow desk asOf store span slot))
      = picksOn slot ((seen.map (·.1)).filter (closesNow desk asOf store span slot))
        ++ if closesNow desk asOf store span slot entry.1 then [(entry.1, slot)] else [] := by
    rw [List.map_append, List.map_singleton]
    exact filter_map_concat _ _ _ slot
  unfold foldReading
  rcases windowDocuments_cases desk asOf store final finals slot entry.1 entry.2 hfinal hpairs
    hreading with ⟨documents, hrun, hisFinal, hnow⟩ | ⟨error, hrun, hisFinal, herror⟩ |
    ⟨settled, hrun, hisFinal, hok, hnow⟩
  · rw [hrun]
    obtain ⟨hfolded, hnewest⟩ := note_spec desk asOf store slot entry documents run start seen hnow
      h.folded h.newest
    refine ⟨?_, hfolded, hnewest, h.latest, ?_⟩
    · have hopen : closesNow desk asOf store span slot entry.1 = false := by
        unfold closesNow
        rw [hisFinal]
        rfl
      rw [hpicks, hopen, if_neg (by decide), List.append_nil]
      exact h.documents
    · intro entry' hmem hnotFinal
      rcases List.mem_append.mp hmem with hmem | hmem
      · exact h.canSettle entry' hmem hnotFinal
      · rw [List.mem_singleton] at hmem
        subst hmem
        rw [hisFinal] at hnotFinal
        exact absurd hnotFinal (by decide)
  · rw [hrun]
    refine ⟨⟨_, ?_, h.documents⟩, (entry.1, slot), ⟨rfl, hisFinal⟩,
      not_canSettle desk asOf store slot entry.1 entry.2 error hreading herror⟩
    intro pick hmem
    rcases List.mem_append.mp hmem with hmem | hmem
    · exact Or.inl hmem
    · exact Or.inr (mem_applied apply _ pick hmem)
  · rw [hrun]
    have hoc : outcomesNow desk asOf store slot entry.1 = some settled := by
      unfold outcomesNow
      rw [hreading, Option.bind_some, hok]
      rfl
    have hdoc : documentsNow desk asOf store slot entry.1
        = some (digestDocuments desk settled.day) := by
      unfold documentsNow
      rw [hoc]
      rfl
    obtain ⟨hfolded, hnewest⟩ := note_spec desk asOf store slot entry
      (digestDocuments desk settled.day)
      (run.settle apply span.1 slot entry.1 settled (digestDocuments desk settled.day)) start seen
      hnow h.folded h.newest
    refine ⟨?_, hfolded, hnewest, ?_, ?_⟩
    · have hcloses : closesNow desk asOf store span slot entry.1
          = (settled.settled || decide (entry.1 = span.1)) := by
        unfold closesNow
        rw [hisFinal, hoc]
        rfl
      rw [hpicks, hcloses]
      show (if (settled.settled || decide (entry.1 = span.1)) = true then _ else _) = _
      split
      · rw [applied_append, ← List.append_assoc,
          ← storeIf_written desk asOf store apply _ slot entry.1 _ hdoc, ← h.documents]
      · rw [List.append_nil]
        exact h.documents
    · intro slot' settled' hlatest
      have hkept : (if (digestDocuments desk settled.day).1.digest.resolved ≠ 0 then
          Function.update run.latest slot (some settled) else run.latest) slot' = some settled' :=
        hlatest
      split at hkept
      · by_cases hslot : slot' = slot
        · subst hslot
          rw [Function.update_self, Option.some.injEq] at hkept
          subst hkept
          rw [(dayOutcomes_ok _ _ _ _ _ _ hok).1]
          exact hoc
        · rw [Function.update_of_ne hslot] at hkept
          exact h.latest slot' settled' hkept
      · exact h.latest slot' settled' hkept
    · intro entry' hmem hnotFinal
      rcases List.mem_append.mp hmem with hmem | hmem
      · exact h.canSettle entry' hmem hnotFinal
      · rw [List.mem_singleton] at hmem
        subst hmem
        exact canSettle_of_ok desk asOf store slot entry'.1 entry'.2 settled hreading hok

/-! ## One slot -/

/-- The day section of a slot: the newest resolved pick day was settled, here or before. -/
theorem settleNewest_spec (apply : Bool) (slot : Slot) (closed : List PickDay)
    (start run : WindowRun)
    (h : ReadingsFolded desk asOf store span apply slot closed start
      (currentReadings store span slot) run) :
    Runs.Ends
      (fun run' => run'.documents = run.documents ∧ run'.folded = run.folded ∧
        (∀ slot' settled, run'.latest slot' = some settled →
          outcomesNow desk asOf store slot' settled.day.tradeDate = some settled) ∧
        ∀ entry, newestNow desk asOf store span slot = some entry →
          CanSettle desk asOf store (entry.1, slot))
      (StoppedAt desk asOf store
        (fun pick => pick ∈ closed ∨ pick ∈ windowPicks desk asOf store span slot)
        (WindowNeeds desk asOf store span slot))
      (settleNewest desk asOf slot run) := by
  have hnewest : run.newestResolved = newestNow desk asOf store span slot := h.newest
  unfold settleNewest
  rw [hnewest]
  rcases hentry : newestNow desk asOf store span slot with _ | ⟨day, reading⟩
  · exact ⟨rfl, rfl, h.latest, fun entry hnone => absurd hnone (by simp)⟩
  · have hmem : (day, reading) ∈ currentReadings store span slot :=
      List.mem_of_mem_filter (List.mem_of_getLast? hentry)
    have hreading := ((mem_currentReadings store span slot _).mp hmem).2
    simp only
    split
    · next hlatest =>
        obtain ⟨settled, hsettled, hday⟩ := Option.map_eq_some_iff.mp hlatest
        refine ⟨rfl, rfl, h.latest, ?_⟩
        intro entry heq
        rw [Option.some.injEq] at heq
        subst heq
        have hoc := h.latest slot settled hsettled
        rw [hday] at hoc
        exact canSettle_of_outcomes desk asOf store slot day settled hoc
    · rcases hok : dayOutcomes desk.bars slot day reading asOf with error | settled
      · refine ⟨⟨_, ?_, h.documents⟩, (day, slot), ⟨rfl, (day, reading), hmem, rfl,
          Or.inr hentry⟩, not_canSettle desk asOf store slot day reading error hreading hok⟩
        intro pick hpick
        rcases List.mem_append.mp hpick with hpick | hpick
        · exact Or.inl hpick
        · exact Or.inr (mem_applied apply _ pick hpick)
      · refine ⟨rfl, rfl, ?_, ?_⟩
        · intro slot' settled' hlatest
          have hkept : Function.update run.latest slot (some settled) slot' = some settled' :=
            hlatest
          by_cases hslot : slot' = slot
          · subst hslot
            rw [Function.update_self, Option.some.injEq] at hkept
            subst hkept
            rw [(dayOutcomes_ok _ _ _ _ _ _ hok).1]
            unfold outcomesNow
            rw [hreading, Option.bind_some, hok]
            rfl
          · rw [Function.update_of_ne hslot] at hkept
            exact h.latest slot' settled' hkept
        · intro entry heq
          rw [Option.some.injEq] at heq
          subst heq
          exact canSettle_of_ok desk asOf store slot day reading settled hreading hok

/-- The window after some of its slots. -/
structure WindowFolded (apply : Bool) (closed : List PickDay) (seen : List Slot)
    (run : WindowRun) : Prop where
  documents : run.documents = written desk asOf store
    (closed ++ applied apply (seen.flatMap (windowPicks desk asOf store span)))
  folded : ∀ slot day, run.folded slot day
    = if slot ∈ seen ∧ span.1 ≤ day ∧ day ≤ span.2 then windowNow desk asOf store slot day
      else none
  latest : ∀ slot settled, run.latest slot = some settled →
    outcomesNow desk asOf store slot settled.day.tradeDate = some settled
  canSettle : ∀ slot ∈ seen, ∀ pick, WindowNeeds desk asOf store span slot pick →
    CanSettle desk asOf store pick

theorem windowNow_of_none (slot : Slot) (day : Date)
    (hreading : storedReading store slot day = none) :
    windowNow desk asOf store slot day = none := by
  unfold windowNow
  rw [hreading]

/-- What was closed elsewhere leaves the final documents of a slot's window as they are. -/
theorem finals_written (closed : List PickDay) (slot : Slot)
    (hclosed : ∀ pick ∈ closed, pick.2 = slot → ¬ (span.1 ≤ pick.1 ∧ pick.1 ≤ span.2)) (day : Date)
    (hspan : span.1 ≤ day ∧ day ≤ span.2) :
    finalDigests desk (written desk asOf store closed) span slot day
        = currentDigest desk store slot day ∧
      finalPairs desk (written desk asOf store closed) span slot day
        = currentPair desk store slot day := by
  have hnot : (day, slot) ∉ closed := fun hmem => hclosed (day, slot) hmem rfl hspan
  unfold finalDigests finalPairs currentDigest currentPair readCapability
  rw [if_pos hspan, if_pos hspan]
  constructor
  · rw [show (written desk asOf store closed).digests slot day = store.digests slot day from
      closeIn_of_notMem _ _ _ slot day hnot]
  · rw [show (written desk asOf store closed).pairs slot day = store.pairs slot day from
      closeIn_of_notMem _ _ _ slot day hnot]

/-- One more slot. -/
theorem foldSlot_spec (apply : Bool) (closed : List PickDay) (seen : List Slot) (slot : Slot)
    (run : WindowRun) (hclosed : ∀ pick ∈ closed, ¬ (span.1 ≤ pick.1 ∧ pick.1 ≤ span.2))
    (hslot : slot ∉ seen) (h : WindowFolded desk asOf store span apply closed seen run) :
    Runs.Ends
      (WindowFolded desk asOf store span apply closed (seen ++ [slot]))
      (StoppedAt desk asOf store
        (fun pick => pick ∈ closed ∨ ∃ slot' ∈ seen ++ [slot],
          pick ∈ windowPicks desk asOf store span slot')
        (WindowNeeds desk asOf store span slot))
      (foldSlot desk apply asOf span run slot) := by
  have hbefore : ∀ pick ∈ closed ++ applied apply
      (seen.flatMap (windowPicks desk asOf store span)),
      pick ∈ closed ∨ ∃ slot' ∈ seen, pick ∈ windowPicks desk asOf store span slot' := by
    intro pick hmem
    rcases List.mem_append.mp hmem with hmem | hmem
    · exact Or.inl hmem
    · exact Or.inr (List.mem_flatMap.mp (mem_applied apply _ pick hmem))
  have hallowed : ∀ pick, (pick ∈ closed ++ applied apply
        (seen.flatMap (windowPicks desk asOf store span)) ∨
        pick ∈ windowPicks desk asOf store span slot) →
      pick ∈ closed ∨ ∃ slot' ∈ seen ++ [slot],
        pick ∈ windowPicks desk asOf store span slot' := by
    rintro pick (hpick | hpick)
    · rcases hbefore pick hpick with hpick | ⟨slot', hslot', hpick⟩
      · exact Or.inl hpick
      · exact Or.inr ⟨slot', List.mem_append_left _ hslot', hpick⟩
    · exact Or.inr ⟨slot, by simp, hpick⟩
  have hfinals := finals_written desk asOf store span
    (closed ++ applied apply (seen.flatMap (windowPicks desk asOf store span))) slot
    (by
      intro pick hmem hpick
      rcases hbefore pick hmem with hmem | ⟨slot', hslot', hmem⟩
      · exact hclosed pick hmem
      · have heq := ((mem_picksOn _ _ pick).mp hmem).1
        rw [heq] at hpick
        subst hpick
        exact absurd hslot' hslot)
  unfold foldSlot
  rw [h.documents]
  refine Runs.Ends.bind (Runs.ends_foldlM _ _
    (ReadingsFolded desk asOf store span apply slot
      (closed ++ applied apply (seen.flatMap (windowPicks desk asOf store span)))
      { run with newestResolved := none })
    (currentReadings store span slot) _ ?_ ?_) ?_
  · refine ⟨?_, ?_, rfl, h.latest, ?_⟩
    · show written desk asOf store _ = written desk asOf store (_ ++ applied apply [])
      rw [show applied apply [] = [] from ite_self _, List.append_nil]
    · intro slot' day
      rw [if_neg (fun hday => absurd hday.2 List.not_mem_nil)]
    · intro entry hmem
      exact absurd hmem List.not_mem_nil
  · intro readings entry rest run' hsplit hrun'
    have hmem : entry ∈ currentReadings store span slot := by
      rw [hsplit]
      exact List.mem_append_right _ List.mem_cons_self
    obtain ⟨hspan, hreading⟩ := (mem_currentReadings store span slot entry).mp hmem
    obtain ⟨hfinal, hpairs⟩ := hfinals entry.1 hspan
    refine (foldReading_spec desk asOf store span apply slot _ _ run' readings entry _ _ hfinal
      hpairs hreading hrun').imp (fun _ h => h) ?_
    intro leftBehind hstopped
    refine hstopped.mono desk asOf store ?_ ?_
    · intro pick hpick
      refine hallowed pick (hpick.imp_right ?_)
      intro hpicks
      obtain ⟨heq, hday⟩ := (mem_picksOn _ _ pick).mp hpicks
      refine (mem_picksOn _ _ pick).mpr ⟨heq, ?_⟩
      rw [hsplit, List.map_append, List.filter_append]
      exact List.mem_append_left _ hday
    · rintro pick ⟨rfl, hnotFinal⟩
      exact ⟨rfl, entry, hmem, rfl, Or.inl hnotFinal⟩
  · intro read hread
    refine (settleNewest_spec desk asOf store span apply slot _ _ read hread).imp ?_ ?_
    · rintro run' ⟨hdocuments, hfolded, hlatest, hnewest⟩
      refine ⟨?_, ?_, hlatest, ?_⟩
      · rw [hdocuments, hread.documents, List.flatMap_append, List.flatMap_singleton,
          applied_append, List.append_assoc]
        rfl
      · intro slot' day
        rw [hfolded, hread.folded]
        by_cases hkey : slot' = slot
        · subst hkey
          by_cases hday : day ∈ (currentReadings store span slot').map (·.1)
          · obtain ⟨entry, hentry, rfl⟩ := List.mem_map.mp hday
            have hspan := ((mem_currentReadings store span slot' entry).mp hentry).1
            rw [if_pos ⟨rfl, hday⟩, if_pos ⟨by simp, hspan⟩]
          · rw [if_neg (fun hboth => hday hboth.2)]
            show run.folded slot' day = _
            rw [h.folded, if_neg (fun hboth => hslot hboth.1)]
            split
            · next hboth =>
                -- in the window, but without a reading
                rcases hreading : storedReading store slot' day with _ | reading
                · exact (windowNow_of_none desk asOf store slot' day hreading).symm
                · refine absurd (List.mem_map.mpr ⟨(day, reading), ?_, rfl⟩) hday
                  exact (mem_currentReadings store span slot' _).mpr ⟨hboth.2, hreading⟩
            · rfl
        · rw [if_neg (fun hboth => hkey hboth.1)]
          show run.folded slot' day = _
          rw [h.folded]
          refine if_congr ?_ rfl rfl
          rw [List.mem_append, List.mem_singleton]
          tauto
      · intro slot' hmem pick hneeds
        rcases List.mem_append.mp hmem with hmem | hmem
        · exact h.canSettle slot' hmem pick hneeds
        · rw [List.mem_singleton] at hmem
          subst hmem
          obtain ⟨heq, entry, hentry, hday, hcase⟩ := hneeds
          have hpick : pick = (entry.1, slot') := by rw [hday, ← heq]
          rw [hpick]
          rcases hcase with hnotFinal | hnew
          · exact hread.canSettle entry hentry hnotFinal
          · exact hnewest entry hnew
    · intro leftBehind hstopped
      exact hstopped.mono desk asOf store hallowed (fun _ hneeds => hneeds)

/-- The window. -/
theorem foldWindow_spec (apply : Bool) (closed : List PickDay)
    (hclosed : ∀ pick ∈ closed, ¬ (span.1 ≤ pick.1 ∧ pick.1 ≤ span.2)) :
    Runs.Ends
      (WindowFolded desk asOf store span apply closed slots)
      (StoppedAt desk asOf store
        (fun pick => pick ∈ closed ∨ ∃ slot ∈ slots, pick ∈ windowPicks desk asOf store span slot)
        (fun pick => ∃ slot ∈ slots, WindowNeeds desk asOf store span slot pick))
      (foldWindow desk apply asOf (written desk asOf store closed) span) := by
  unfold foldWindow
  refine Runs.ends_foldlM _ _ (WindowFolded desk asOf store span apply closed) _ _ ?_ ?_
  · refine ⟨?_, fun _ _ => rfl, fun _ _ hnone => absurd hnone (by simp), fun _ hmem =>
      absurd hmem List.not_mem_nil⟩
    show written desk asOf store closed = written desk asOf store (closed ++ applied apply [])
    rw [show applied apply [] = [] from ite_self _, List.append_nil]
  · intro seen slot rest run hsplit hrun
    have hnodup : slots.Nodup := by decide
    have hslot : slot ∉ seen := by
      rw [hsplit, List.nodup_append] at hnodup
      exact fun hmem => hnodup.2.2 slot hmem slot List.mem_cons_self rfl
    have hsub : ∀ slot' ∈ seen ++ [slot], slot' ∈ slots := by
      intro slot' hmem
      rw [hsplit]
      rcases List.mem_append.mp hmem with hmem | hmem
      · exact List.mem_append_left _ hmem
      · rw [List.mem_singleton] at hmem
        subst hmem
        exact List.mem_append_right _ List.mem_cons_self
    refine (foldSlot_spec desk asOf store span apply closed seen slot run hclosed hslot hrun).imp
      (fun _ h => h) ?_
    intro leftBehind hstopped
    refine hstopped.mono desk asOf store ?_ ?_
    · intro pick hpick
      refine hpick.imp_right ?_
      rintro ⟨slot', hmem, hpicks⟩
      exact ⟨slot', hsub slot' hmem, hpicks⟩
    · intro pick hneeds
      exact ⟨slot, hsub slot (by simp), hneeds⟩

end Window

end TradingHarness
