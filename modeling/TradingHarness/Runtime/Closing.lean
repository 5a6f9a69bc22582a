import TradingHarness.Library.Runs
import TradingHarness.Runtime.Summarise

set_option autoImplicit false

/-! # What a run writes

A run computes the documents of a pick day from its reading and the bars, which it never changes. So
whatever was closed before, the store is always the first store with some pick days written, each
with the documents of its outcomes now (`written`). `foldOlder` folds the days before the window as if
every late day of its quota had been written at once. -/

namespace TradingHarness

/-! ## Tables with some days closed -/

section Tables

variable {α : Type} (closed : List PickDay) (now table : Slot → Date → Option α)

/-- A table after some pick days were closed with their documents. A day without one stays as it is. -/
def closeIn : Slot → Date → Option α :=
  fun slot day =>
    if (day, slot) ∈ closed then (now slot day).or (table slot day) else table slot day

theorem closeIn_of_mem (slot : Slot) (day : Date) (hmem : (day, slot) ∈ closed) :
    closeIn closed now table slot day = (now slot day).or (table slot day) := if_pos hmem

theorem closeIn_of_notMem (slot : Slot) (day : Date) (hmem : (day, slot) ∉ closed) :
    closeIn closed now table slot day = table slot day := if_neg hmem

theorem closeIn_nil : closeIn [] now table = table := by
  funext slot day
  exact closeIn_of_notMem [] now table slot day List.not_mem_nil

theorem closeIn_congr (closed' : List PickDay) (slot : Slot) (day : Date)
    (h : now slot day ≠ none → ((day, slot) ∈ closed ↔ (day, slot) ∈ closed')) :
    closeIn closed now table slot day = closeIn closed' now table slot day := by
  rcases hnow : now slot day with _ | value
  · unfold closeIn
    rw [hnow, Option.none_or, ite_self, ite_self]
  · unfold closeIn
    rw [hnow] at h
    simp only [h (by simp)]

theorem putDocument_closeIn (slot : Slot) (day : Date) (value : α)
    (hnow : now slot day = some value) :
    putDocument (closeIn closed now table) slot day value
      = closeIn (closed ++ [(day, slot)]) now table := by
  funext slot' day'
  unfold putDocument
  by_cases hkey : slot' = slot ∧ day' = day
  · obtain ⟨rfl, rfl⟩ := hkey
    rw [if_pos ⟨rfl, rfl⟩, closeIn_of_mem _ _ _ _ _ (by simp), hnow, Option.some_or]
  · rw [if_neg hkey]
    refine closeIn_congr closed now table _ slot' day' (fun _ => ?_)
    simp only [List.mem_append, List.mem_singleton, Prod.mk.injEq]
    tauto

theorem closeIn_concat_none (slot : Slot) (day : Date) (hnow : now slot day = none) :
    closeIn (closed ++ [(day, slot)]) now table = closeIn closed now table := by
  funext slot' day'
  refine closeIn_congr _ now table _ slot' day' ?_
  intro hsome
  simp only [List.mem_append, List.mem_singleton, Prod.mk.injEq]
  have hkey : ¬ (day' = day ∧ slot' = slot) := by
    rintro ⟨rfl, rfl⟩
    exact hsome hnow
  tauto

theorem closeIn_append (later : List PickDay) :
    closeIn later now (closeIn closed now table) = closeIn (closed ++ later) now table := by
  funext slot day
  unfold closeIn
  rcases now slot day with _ | value
  · simp
  · by_cases hclosed : (day, slot) ∈ closed <;> by_cases hlater : (day, slot) ∈ later <;>
      simp [hclosed, hlater]

end Tables

section Now

variable (desk : Desk) (asOf : Date) (store : Documents)

/-- The outcomes of a pick day as the bars give them now. -/
def outcomesNow (slot : Slot) (day : Date) : Option SettledDay :=
  (storedReading store slot day).bind
    (fun reading => (dayOutcomes desk.bars slot day reading asOf).toOption)

/-- The digest and the pairs of a pick day as the bars give them now. -/
def documentsNow (slot : Slot) (day : Date) : Option (DigestDocument × PairDocument) :=
  (outcomesNow desk asOf store slot day).map (fun settled => digestDocuments desk settled.day)

def digestNow (slot : Slot) (day : Date) : Option DigestDocument :=
  (documentsNow desk asOf store slot day).map (·.1)

def pairsNow (slot : Slot) (day : Date) : Option PairDocument :=
  (documentsNow desk asOf store slot day).map (·.2)

/-- A pick day whose reading, if it has one, can be settled from the bars. -/
def CanSettle (pick : PickDay) : Prop :=
  ∀ reading, storedReading store pick.2 pick.1 = some reading →
    ∃ settled, dayOutcomes desk.bars pick.2 pick.1 reading asOf = .ok settled

/-- The store with some pick days closed. -/
def written (closed : List PickDay) : Documents where
  readings := store.readings
  digests := closeIn closed (digestNow desk asOf store) store.digests
  pairs := closeIn closed (pairsNow desk asOf store) store.pairs

/-! ## One pick day -/

section

variable (slot : Slot)

section

variable (day : Date)

/-- A pick day has no reading, or one that cannot be settled, or documents. -/
theorem reading_cases :
    (storedReading store slot day = none ∧ documentsNow desk asOf store slot day = none) ∨
    (∃ reading error, storedReading store slot day = some reading ∧
      dayOutcomes desk.bars slot day reading asOf = .error error) ∨
    (∃ reading settled, storedReading store slot day = some reading ∧
      dayOutcomes desk.bars slot day reading asOf = .ok settled ∧
      outcomesNow desk asOf store slot day = some settled ∧
      documentsNow desk asOf store slot day = some (digestDocuments desk settled.day)) := by
  unfold documentsNow outcomesNow
  rcases hreading : storedReading store slot day with _ | reading
  · exact Or.inl ⟨rfl, rfl⟩
  · right
    rcases houtcomes : dayOutcomes desk.bars slot day reading asOf with error | settled
    · exact Or.inl ⟨reading, error, rfl, houtcomes⟩
    · refine Or.inr ⟨reading, settled, rfl, houtcomes, ?_, ?_⟩
      · rw [Option.bind_some, houtcomes]
        rfl
      · rw [Option.bind_some, houtcomes]
        rfl

theorem not_canSettle (reading : ReadingDocument) (error : PyError)
    (hreading : storedReading store slot day = some reading)
    (herror : dayOutcomes desk.bars slot day reading asOf = .error error) :
    ¬ CanSettle desk asOf store (day, slot) := by
  intro hcan
  obtain ⟨settled, hok⟩ := hcan reading hreading
  rw [show dayOutcomes desk.bars slot day reading asOf = .error error from herror] at hok
  exact absurd hok (by simp)

theorem canSettle_of_ok (reading : ReadingDocument)
    (settled : SettledDay) (hreading : storedReading store slot day = some reading)
    (hok : dayOutcomes desk.bars slot day reading asOf = .ok settled) :
    CanSettle desk asOf store (day, slot) := by
  intro reading' hreading'
  rw [show storedReading store slot day = some reading' from hreading', Option.some.injEq]
    at hreading
  subst hreading
  exact ⟨settled, hok⟩

theorem documentsNow_current (final : DigestDocument × PairDocument)
    (hnow : documentsNow desk asOf store slot day = some final) :
    final.1.current desk = true ∧ final.2.current desk = true := by
  obtain ⟨settled, -, hfinal⟩ := Option.map_eq_some_iff.mp hnow
  subst hfinal
  constructor
  · exact decide_eq_true ⟨rfl, rfl⟩
  · exact decide_eq_true ⟨rfl, rfl⟩

theorem documentsNow_isSome (reading : ReadingDocument)
    (hreading : storedReading store slot day = some reading)
    (hcan : CanSettle desk asOf store (day, slot)) :
    ∃ final, documentsNow desk asOf store slot day = some final := by
  rcases reading_cases desk asOf store slot day with ⟨hnone, -⟩ | ⟨r, error, hr, herror⟩ |
    ⟨_, settled, -, -, -, hnow⟩
  · rw [hnone] at hreading
    exact absurd hreading (by simp)
  · exact absurd hcan (not_canSettle desk asOf store slot day r error hr herror)
  · exact ⟨_, hnow⟩

section

variable (final : DigestDocument × PairDocument)

theorem digestNow_of_documents (hnow : documentsNow desk asOf store slot day = some final) :
    digestNow desk asOf store slot day = some final.1 := by
  unfold digestNow
  rw [hnow, Option.map_some]

theorem pairsNow_of_documents (hnow : documentsNow desk asOf store slot day = some final) :
    pairsNow desk asOf store slot day = some final.2 := by
  unfold pairsNow
  rw [hnow, Option.map_some]

end

end

end

/-! ## Writing -/

theorem written_nil : written desk asOf store [] = store := by
  unfold written
  rw [closeIn_nil, closeIn_nil]

theorem storeFinal_written (closed : List PickDay) (slot : Slot) (day : Date)
    (final : DigestDocument × PairDocument)
    (hnow : documentsNow desk asOf store slot day = some final) :
    storeFinal (written desk asOf store closed) slot day final
      = written desk asOf store (closed ++ [(day, slot)]) := by
  unfold storeFinal written
  rw [← putDocument_closeIn closed _ _ slot day final.1
      (digestNow_of_documents desk asOf store slot day final hnow),
    ← putDocument_closeIn closed _ _ slot day final.2
      (pairsNow_of_documents desk asOf store slot day final hnow)]

/-- The days a run writes: none unless it applies them. -/
def applied (apply : Bool) (picks : List PickDay) : List PickDay :=
  if apply then picks else []

section

variable (apply : Bool)

theorem mem_applied (picks : List PickDay) (pick : PickDay)
    (hmem : pick ∈ applied apply picks) : pick ∈ picks := by
  unfold applied at hmem
  split at hmem
  · exact hmem
  · exact absurd hmem List.not_mem_nil

theorem applied_append (picks picks' : List PickDay) :
    applied apply (picks ++ picks') = applied apply picks ++ applied apply picks' := by
  unfold applied
  split
  · rfl
  · rfl

theorem storeIf_written (closed : List PickDay) (slot : Slot) (day : Date)
    (final : DigestDocument × PairDocument)
    (hnow : documentsNow desk asOf store slot day = some final) :
    storeIf apply (written desk asOf store closed) slot day final
      = written desk asOf store (closed ++ applied apply [(day, slot)]) := by
  unfold storeIf applied
  split
  · exact storeFinal_written desk asOf store closed slot day final hnow
  · rw [List.append_nil]

theorem written_concat_none (closed : List PickDay) (slot : Slot) (day : Date)
    (hnow : documentsNow desk asOf store slot day = none) :
    written desk asOf store (closed ++ applied apply [(day, slot)])
      = written desk asOf store closed := by
  unfold applied written
  split
  · rw [closeIn_concat_none closed (digestNow desk asOf store) _ slot day
        (by unfold digestNow; rw [hnow]; rfl),
      closeIn_concat_none closed (pairsNow desk asOf store) _ slot day
        (by unfold pairsNow; rw [hnow]; rfl)]
  · rw [List.append_nil]

end

/-! ## Late days -/

/-- A run that stopped: it wrote only allowed days, and a day it needed could not be settled. -/
structure StoppedAt (allowed needed : PickDay → Prop) (left : Interrupted) : Prop where
  documents : ∃ closed, (∀ pick ∈ closed, allowed pick) ∧
    left.documents = written desk asOf store closed
  blocked : ∃ pick, needed pick ∧ ¬ CanSettle desk asOf store pick

theorem StoppedAt.mono {allowed allowed' needed needed' : PickDay → Prop} {left : Interrupted}
    (h : StoppedAt desk asOf store allowed needed left)
    (hallowed : ∀ pick, allowed pick → allowed' pick)
    (hneeded : ∀ pick, needed pick → needed' pick) :
    StoppedAt desk asOf store allowed' needed' left := by
  obtain ⟨⟨closed, hclosed, hleft⟩, pick, hpick, hblocked⟩ := h
  exact ⟨⟨closed, fun pick hmem => hallowed pick (hclosed pick hmem), hleft⟩, pick,
    hneeded pick hpick, hblocked⟩

/-- The pick days of a slot. -/
def picksOn (slot : Slot) (days : List Date) : List PickDay :=
  days.map (fun day => (day, slot))

theorem mem_picksOn (slot : Slot) (days : List Date) (pick : PickDay) :
    pick ∈ picksOn slot days ↔ pick.2 = slot ∧ pick.1 ∈ days := by
  unfold picksOn
  rw [List.mem_map]
  constructor
  · rintro ⟨day, hmem, rfl⟩
    exact ⟨rfl, hmem⟩
  · rintro ⟨hslot, hmem⟩
    exact ⟨pick.1, hmem, by rw [← hslot]⟩

theorem picksOn_concat (slot : Slot) (days : List Date) (day : Date) :
    picksOn slot (days ++ [day]) = picksOn slot days ++ [(day, slot)] := by
  unfold picksOn
  rw [List.map_append]
  rfl

/-- The late days of a slot without a reading of the current version. -/
def unreadable (slot : Slot) (days : List Date) : List PickDay :=
  picksOn slot (days.filter (fun day => (storedReading store slot day).isNone))

/-- A chunk and slot after some of its late days. -/
structure LateClosed (apply : Bool) (pairFirst : Date) (slot : Slot) (closed : List PickDay)
    (read : Chunk) (days : List Date) (chunk : Chunk) : Prop where
  documents : chunk.documents
    = written desk asOf store (closed ++ applied apply (picksOn slot days))
  digests : chunk.digests
    = closeIn (picksOn slot days) (digestNow desk asOf store) (fun _ => read.digests) slot
  pairs : chunk.pairs
    = closeIn (picksOn slot (days.filter (fun day => decide (pairFirst ≤ day))))
        (pairsNow desk asOf store) (fun _ => read.pairs) slot
  missing : chunk.missing = read.missing ++ unreadable store slot days
  canSettle : ∀ day ∈ days, CanSettle desk asOf store (day, slot)

theorem update_closeIn {α : Type} (closed : List PickDay) (now table : Slot → Date → Option α)
    (slot : Slot) (day : Date) (value : α) (hnow : now slot day = some value) :
    Function.update (closeIn closed now table slot) day (some value)
      = closeIn (closed ++ [(day, slot)]) now table slot := by
  rw [← putDocument_closeIn closed now table slot day value hnow]
  funext day'
  unfold putDocument Function.update
  by_cases hday : day' = day
  · subst hday
    simp
  · simp [hday]

/-- Closing one more late day. -/
theorem closeLate_spec (apply : Bool) (pairFirst : Date) (slot : Slot) (closed : List PickDay)
    (read chunk : Chunk) (days : List Date) (day : Date)
    (h : LateClosed desk asOf store apply pairFirst slot closed read days chunk) :
    Runs.Ends
      (LateClosed desk asOf store apply pairFirst slot closed read (days ++ [day]))
      (StoppedAt desk asOf store (fun pick => pick ∈ closed ∨ pick ∈ picksOn slot days)
        (fun pick => pick = (day, slot)))
      (closeLate desk apply asOf pairFirst slot chunk day) := by
  have hstored : storedReading chunk.documents slot day = storedReading store slot day := by
    rw [h.documents]
    rfl
  unfold closeLate
  rw [hstored]
  rcases reading_cases desk asOf store slot day with ⟨hreading, hnow⟩ |
    ⟨reading, error, hreading, herror⟩ | ⟨reading, settled, hreading, hok, -, hnow⟩
  · rw [hreading]
    refine ⟨?_, ?_, ?_, ?_, ?_⟩
    · rw [picksOn_concat, applied_append, ← List.append_assoc,
        written_concat_none desk asOf store apply _ slot day hnow]
      exact h.documents
    · rw [picksOn_concat, closeIn_concat_none _ _ _ slot day (by unfold digestNow; rw [hnow]; rfl)]
      exact h.digests
    · rw [List.filter_append]
      by_cases hfirst : pairFirst ≤ day
      · rw [List.filter_cons_of_pos (by simpa using hfirst), List.filter_nil, picksOn_concat,
          closeIn_concat_none _ _ _ slot day (by unfold pairsNow; rw [hnow]; rfl)]
        exact h.pairs
      · rw [List.filter_cons_of_neg (by simpa using hfirst), List.filter_nil, List.append_nil]
        exact h.pairs
    · show chunk.missing ++ [(day, slot)] = _
      unfold unreadable
      rw [h.missing, List.filter_append, List.filter_cons_of_pos (by rw [hreading]; rfl),
        List.filter_nil, picksOn_concat, List.append_assoc]
      rfl
    · intro day' hmem
      rcases List.mem_append.mp hmem with hmem | hmem
      · exact h.canSettle day' hmem
      · rw [List.mem_singleton] at hmem
        subst hmem
        intro reading hreading'
        rw [show storedReading store slot day' = none from hreading] at hreading'
        exact absurd hreading' (by simp)
  · rw [hreading]
    simp only
    rw [herror]
    refine ⟨⟨closed ++ applied apply (picksOn slot days), ?_, h.documents⟩, (day, slot), rfl,
      not_canSettle desk asOf store slot day reading error hreading herror⟩
    intro pick hmem
    rcases List.mem_append.mp hmem with hmem | hmem
    · exact Or.inl hmem
    · exact Or.inr (mem_applied apply _ pick hmem)
  · rw [hreading]
    simp only
    rw [hok]
    refine ⟨?_, ?_, ?_, ?_, ?_⟩
    · rw [picksOn_concat, applied_append, ← List.append_assoc,
        ← storeIf_written desk asOf store apply _ slot day _ hnow, ← h.documents]
      rfl
    · rw [picksOn_concat, ← update_closeIn _ _ _ slot day _
        (digestNow_of_documents desk asOf store slot day _ hnow), ← h.digests]
      rfl
    · show (if _ then _ else _) = _
      rw [List.filter_append]
      by_cases hfirst : pairFirst ≤ day
      · rw [if_pos hfirst, List.filter_cons_of_pos (by simpa using hfirst), List.filter_nil,
          picksOn_concat, ← update_closeIn _ _ _ slot day _
            (pairsNow_of_documents desk asOf store slot day _ hnow), ← h.pairs]
      · rw [if_neg hfirst, List.filter_cons_of_neg (by simpa using hfirst), List.filter_nil,
          List.append_nil]
        exact h.pairs
    · show chunk.missing = _
      unfold unreadable
      rw [h.missing, List.filter_append, List.filter_cons_of_neg (by rw [hreading]; simp),
        List.filter_nil, List.append_nil]
      rfl
    · intro day' hmem
      rcases List.mem_append.mp hmem with hmem | hmem
      · exact h.canSettle day' hmem
      · rw [List.mem_singleton] at hmem
        subst hmem
        exact canSettle_of_ok desk asOf store slot day' reading settled hreading hok

/-! ## Chunks -/

/-- A chunk and a slot. -/
abbrev Part := (Date × Date) × Slot

/-- The chunks and slots in the order they are folded. -/
def partsOf (spans : List (Date × Date)) : List Part :=
  spans.flatMap (fun span => slots.map (fun slot => (span, slot)))

/-- The late days of a chunk and slot. -/
def latePicks (late : List PickDay) (part : Part) : List PickDay :=
  picksOn part.2 (lateIn late part.1 part.2)

/-- The pairs are asked for from the first of the last `PAIR_SESSIONS` sessions on. -/
def fromDay {α : Type} (first : Date) (table : Date → Option α) : Date → Option α :=
  fun day => if first ≤ day then table day else none

/-- The current documents of a table, by chunk and slot. -/
def olderEntries {α : Type} (current : α → Bool) (table : Slot → Date → Option α)
    (parts : List Part) : List (PickDay × α) :=
  parts.flatMap (fun part => currentEntries current part.1 part.2 (table part.2))

/-- The days before the window after some of their chunks and slots: folded as if the late days had
    been closed before. -/
structure OlderFolded (apply : Bool) (pairFirst : Date) (late left : List PickDay)
    (parts : List Part) (run : Run) : Prop where
  documents : run.documents
    = written desk asOf store (applied apply (parts.flatMap (latePicks late)))
  digests : run.digests
    = olderEntries (·.current desk) (written desk asOf store late).digests parts
  pairs : run.pairs = olderEntries (·.current desk)
    (fun slot => fromDay pairFirst ((written desk asOf store late).pairs slot)) parts
  stale : run.stale = parts.flatMap (fun part =>
    staleDays desk part.1 part.2 ((written desk asOf store late).digests part.2))
  missing : run.missing
    = left ++ parts.flatMap (fun part => unreadable store part.2 (lateIn late part.1 part.2))
  canSettle : ∀ part ∈ parts, ∀ pick ∈ latePicks late part, CanSettle desk asOf store pick

theorem mem_lateIn (late : List PickDay) (span : Date × Date) (slot : Slot) (day : Date) :
    day ∈ lateIn late span slot ↔ (span.1 ≤ day ∧ day ≤ span.2) ∧ (day, slot) ∈ late := by
  unfold lateIn
  rw [List.mem_filter, mem_daysBetween, decide_eq_true_eq]

theorem mem_latePicks (late : List PickDay) (part : Part) (pick : PickDay)
    (hmem : pick ∈ latePicks late part) : pick ∈ late := by
  obtain ⟨hslot, hday⟩ := (mem_picksOn _ _ pick).mp hmem
  have hlate := ((mem_lateIn late part.1 part.2 pick.1).mp hday).2
  rwa [← hslot] at hlate

theorem readRange_congr {α : Type} (table table' : Date → Option α) (first last : Date)
    (h : ∀ day, first ≤ day ∧ day ≤ last → table day = table' day) :
    readRange table first last = readRange table' first last := by
  unfold readRange
  refine List.filterMap_congr ?_
  intro day hmem
  rw [h day ((mem_daysBetween first last day).mp hmem)]

/-- A dict that was read when some of its days were already closed, once the others are closed too. -/
theorem closeIn_read {α : Type} (late closed : List PickDay) (now table : Slot → Date → Option α)
    (slot : Slot) (days : List Date) (read : Date → Option α) (day : Date)
    (hdays : day ∈ days ↔ (day, slot) ∈ late)
    (hclosed : (day, slot) ∈ closed → (day, slot) ∈ late)
    (hread : read day = closeIn closed now table slot day) :
    closeIn (picksOn slot days) now (fun _ => read) slot day
      = closeIn late now table slot day := by
  have hpicks : (day, slot) ∈ picksOn slot days ↔ (day, slot) ∈ late := by
    rw [mem_picksOn, ← hdays]
    exact and_iff_right rfl
  by_cases hlate : (day, slot) ∈ late
  · rw [closeIn_of_mem _ _ _ _ _ (hpicks.mpr hlate), closeIn_of_mem _ _ _ _ _ hlate, hread]
    unfold closeIn
    rcases now slot day with _ | value
    · simp
    · simp
  · rw [closeIn_of_notMem _ _ _ _ _ (fun h => hlate (hpicks.mp h)),
      closeIn_of_notMem _ _ _ _ _ hlate, hread,
      closeIn_of_notMem _ _ _ _ _ (fun h => hlate (hclosed h))]

theorem readChunk_pairs (pairFirst : Date) (span : Date × Date) (run : Run) (slot : Slot)
    (day : Date) (hspan : span.1 ≤ day ∧ day ≤ span.2) :
    (readChunk pairFirst span run slot).pairs day
      = fromDay pairFirst (run.documents.pairs slot) day := by
  unfold readChunk fromDay
  simp only
  by_cases hfirst : pairFirst ≤ day
  · rw [if_pos hfirst, if_neg (not_lt.mpr (le_trans hfirst hspan.2))]
    exact if_pos ⟨max_le hspan.1 hfirst, hspan.2⟩
  · rw [if_neg hfirst]
    split
    · rfl
    · exact if_neg (fun hday => hfirst (le_trans (le_max_right _ _) hday.1))

/-- One chunk and slot. -/
theorem foldChunk_spec (apply : Bool) (pairFirst : Date) (late left : List PickDay)
    (parts : List Part) (span : Date × Date) (slot : Slot) (run : Run)
    (h : OlderFolded desk asOf store apply pairFirst late left parts run) :
    Runs.Ends
      (OlderFolded desk asOf store apply pairFirst late left (parts ++ [(span, slot)]))
      (StoppedAt desk asOf store
        (fun pick => pick ∈ (parts ++ [(span, slot)]).flatMap (latePicks late))
        (fun pick => pick ∈ latePicks late (span, slot)))
      (foldChunk desk apply asOf pairFirst late span run slot) := by
  have hsingle : ∀ {α : Type} (f : Part → List α), (parts ++ [(span, slot)]).flatMap f
      = parts.flatMap f ++ f (span, slot) := by
    intro α f
    rw [List.flatMap_append, List.flatMap_singleton]
  have hlate : ∀ pick ∈ applied apply (parts.flatMap (latePicks late)), pick ∈ late := by
    intro pick hmem
    obtain ⟨part, -, hpick⟩ := List.mem_flatMap.mp (mem_applied apply _ pick hmem)
    exact mem_latePicks late part pick hpick
  unfold foldChunk
  have hloop := Runs.ends_foldlM (closeLate desk apply asOf pairFirst slot)
    (StoppedAt desk asOf store
      (fun pick => pick ∈ (parts ++ [(span, slot)]).flatMap (latePicks late))
      (fun pick => pick ∈ latePicks late (span, slot)))
    (LateClosed desk asOf store apply pairFirst slot
      (applied apply (parts.flatMap (latePicks late))) (readChunk pairFirst span run slot))
    (lateIn late span slot) (readChunk pairFirst span run slot) ?_ ?_
  · refine hloop.bind ?_
    intro chunk hchunk
    have hdigests : ∀ day, span.1 ≤ day ∧ day ≤ span.2 →
        chunk.digests day = (written desk asOf store late).digests slot day := by
      intro day hspan
      rw [hchunk.digests]
      refine closeIn_read late (applied apply (parts.flatMap (latePicks late))) _ _ slot _ _ day
        ?_ (hlate (day, slot)) ?_
      · rw [mem_lateIn]
        exact and_iff_right hspan
      · show readCapability (run.documents.digests slot) span.1 span.2 day = _
        unfold readCapability
        rw [if_pos hspan, h.documents]
        rfl
    have hpairs : ∀ day, span.1 ≤ day ∧ day ≤ span.2 →
        chunk.pairs day = fromDay pairFirst ((written desk asOf store late).pairs slot) day := by
      intro day hspan
      rw [hchunk.pairs]
      unfold fromDay
      by_cases hfirst : pairFirst ≤ day
      · rw [if_pos hfirst]
        refine closeIn_read late (applied apply (parts.flatMap (latePicks late))) _ _ slot _ _ day
          ?_ (hlate (day, slot)) ?_
        · rw [List.mem_filter, mem_lateIn, decide_eq_true_eq]
          exact ⟨fun h => h.1.2, fun h => ⟨⟨hspan, h⟩, hfirst⟩⟩
        · rw [readChunk_pairs pairFirst span run slot day hspan, h.documents]
          exact if_pos hfirst
      · rw [if_neg hfirst, closeIn_of_notMem]
        · rw [readChunk_pairs pairFirst span run slot day hspan]
          exact if_neg hfirst
        · rw [mem_picksOn, List.mem_filter, decide_eq_true_eq]
          exact fun hmem => hfirst hmem.2.2
    refine ⟨?_, ?_, ?_, ?_, ?_, ?_⟩
    · rw [hsingle, applied_append]
      exact hchunk.documents
    · unfold olderEntries
      rw [hsingle]
      refine Eq.trans ?_ (congrArg (· ++ _) h.digests)
      show run.digests ++ currentEntries _ span slot chunk.digests = _
      unfold currentEntries
      rw [readRange_congr _ _ span.1 span.2 hdigests]
    · unfold olderEntries
      rw [hsingle]
      refine Eq.trans ?_ (congrArg (· ++ _) h.pairs)
      show run.pairs ++ currentEntries _ span slot chunk.pairs = _
      unfold currentEntries
      rw [readRange_congr _ _ span.1 span.2 hpairs]
    · rw [hsingle, ← h.stale]
      show run.stale ++ staleDays desk span slot chunk.digests = _
      unfold staleDays
      rw [readRange_congr _ _ span.1 span.2 hdigests]
    · rw [hsingle, ← List.append_assoc, ← h.missing]
      exact hchunk.missing
    · intro part hpart pick hpick
      rcases List.mem_append.mp hpart with hpart | hpart
      · exact h.canSettle part hpart pick hpick
      · rw [List.mem_singleton] at hpart
        subst hpart
        obtain ⟨hslot, hday⟩ := (mem_picksOn _ _ pick).mp hpick
        have hcan := hchunk.canSettle pick.1 hday
        rwa [← show pick.2 = slot from hslot] at hcan
  · refine ⟨?_, ?_, ?_, ?_, ?_⟩
    · show run.documents = _
      rw [h.documents]
      unfold picksOn applied
      simp
    · exact (congrFun (closeIn_nil (digestNow desk asOf store)
        (fun _ => (readChunk pairFirst span run slot).digests)) slot).symm
    · exact (congrFun (closeIn_nil (pairsNow desk asOf store)
        (fun _ => (readChunk pairFirst span run slot).pairs)) slot).symm
    · exact (List.append_nil _).symm
    · intro day hmem
      exact absurd hmem List.not_mem_nil
  · intro seen day rest chunk hsplit hchunk
    refine (closeLate_spec desk asOf store apply pairFirst slot _ _ chunk seen day hchunk).imp
      (fun _ h => h) ?_
    intro leftBehind hstopped
    refine hstopped.mono desk asOf store ?_ ?_
    · intro pick hpick
      rw [hsingle, List.mem_append]
      rcases hpick with hpick | hpick
      · exact Or.inl (mem_applied apply _ pick hpick)
      · refine Or.inr ((mem_picksOn _ _ pick).mpr ?_)
        obtain ⟨hslot, hday⟩ := (mem_picksOn _ _ pick).mp hpick
        refine ⟨hslot, ?_⟩
        rw [hsplit]
        exact List.mem_append_left _ hday
    · intro pick hpick
      subst hpick
      refine (mem_picksOn _ _ _).mpr ⟨rfl, ?_⟩
      rw [hsplit]
      exact List.mem_append_right _ List.mem_cons_self

/-- The days before the window. -/
theorem foldOlder_spec (apply : Bool) (pairFirst : Date) (older : List Date) :
    Runs.Ends
      (OlderFolded desk asOf store apply pairFirst ((lateDays store older).take lateDaysARun)
        ((lateDays store older).drop lateDaysARun) (partsOf (chunkSpans older)))
      (StoppedAt desk asOf store
        (fun pick => pick ∈ (partsOf (chunkSpans older)).flatMap
          (latePicks ((lateDays store older).take lateDaysARun)))
        (fun pick => pick ∈ (partsOf (chunkSpans older)).flatMap
          (latePicks ((lateDays store older).take lateDaysARun))))
      (foldOlder desk apply asOf pairFirst store older) := by
  unfold foldOlder
  simp only
  generalize (lateDays store older).take lateDaysARun = late
  generalize (lateDays store older).drop lateDaysARun = left
  refine Runs.ends_foldlM _ _
    (fun seen => OlderFolded desk asOf store apply pairFirst late left (partsOf seen)) _ _ ?_ ?_
  · refine ⟨?_, rfl, rfl, rfl, (List.append_nil left).symm, ?_⟩
    · show store = written desk asOf store (applied apply [])
      unfold applied
      rw [ite_self, written_nil]
    · intro part hpart
      exact absurd hpart List.not_mem_nil
  · intro seen span rest run hsplit hrun
    have hparts : ∀ seenSlots restSlots, slots = seenSlots ++ restSlots →
        ∀ part ∈ partsOf seen ++ seenSlots.map (fun slot => (span, slot)),
          part ∈ partsOf (chunkSpans older) := by
      intro seenSlots restSlots hslots part hpart
      unfold partsOf
      rw [hsplit, List.flatMap_append, List.flatMap_cons, hslots, List.map_append]
      rcases List.mem_append.mp hpart with hpart | hpart
      · rw [← hslots]
        exact List.mem_append_left _ hpart
      · exact List.mem_append_right _ (List.mem_append_left _ (List.mem_append_left _ hpart))
    have hall : partsOf (seen ++ [span])
        = partsOf seen ++ slots.map (fun slot => (span, slot)) := by
      unfold partsOf
      rw [List.flatMap_append, List.flatMap_singleton]
    rw [hall]
    refine Runs.ends_foldlM _ _ (fun seenSlots => OlderFolded desk asOf store apply pairFirst late
      left (partsOf seen ++ seenSlots.map (fun slot => (span, slot)))) _ _ ?_ ?_
    · rw [List.map_nil, List.append_nil]
      exact hrun
    · intro seenSlots slot restSlots run' hslots hrun'
      rw [List.map_append, List.map_singleton, ← List.append_assoc]
      have hsub := hparts (seenSlots ++ [slot]) restSlots (by rw [hslots]; simp)
      rw [List.map_append, List.map_singleton, ← List.append_assoc] at hsub
      refine (foldChunk_spec desk asOf store apply pairFirst late left _ span slot run' hrun').imp
        (fun _ h => h) ?_
      intro leftBehind hstopped
      refine hstopped.mono desk asOf store ?_ ?_
      · intro pick hpick
        obtain ⟨part, hpart, hmem⟩ := List.mem_flatMap.mp hpick
        exact List.mem_flatMap.mpr ⟨part, hsub part hpart, hmem⟩
      · intro pick hpick
        exact List.mem_flatMap.mpr ⟨(span, slot), hsub _ (by simp), hpick⟩

end Now

end TradingHarness
