import TradingHarness.Library.Driven
import TradingHarness.Storage.RawOverflow

set_option autoImplicit false

/-! # What the overflow archive deletes

A batch is read behind the cursor, its rows are counted between its first and its last, and everything up to the
last is deleted. The three agree where no row comes in at or behind the cursor of its stream. -/

namespace TradingHarness

variable {ρ : Type} (config : RawOverflowConfig)

/-! ## Runs -/

/-- The tables, the clock, every row that was inserted, the batches handed out and those verified. -/
structure ArchiveWorld (ρ : Type) where
  tables : ArchiveTables ρ := {}
  now : ℤ := 0
  inserted : List (RawObservation ρ) := []
  offered : List (OfferedBatch ρ) := []
  acknowledged : List (OfferedBatch ρ) := []

/-- `batch` is the one that an acknowledgement is for: the payload does not have its rows. -/
inductive ArchiveOp (ρ : Type)
  | wait (duration : ℕ)
  | insert (row : RawObservation ρ)
  | read (stream : List Char) (limit : Option ℤ) (hotUsed hotBudget : ℤ)
  | acknowledge (batch : OfferedBatch ρ) (ack : ArchiveAck)
  | fail (stream error : List Char)

def archiveStep (op : ArchiveOp ρ) (world : ArchiveWorld ρ) : ArchiveWorld ρ :=
  match op with
  | .wait duration => { world with now := world.now + duration }
  | .insert row =>
    if row.observationId ∈ world.tables.rows.map RawObservation.observationId then world
    else { world with
      tables := { world.tables with rows := world.tables.rows ++ [row] }
      inserted := row :: world.inserted }
  | .read stream limit hotUsed hotBudget =>
    match nextBatch config world.now hotUsed hotBudget stream limit world.tables with
    | .ok (.ready _ _ batch, tables) => { world with tables := tables, offered := batch :: world.offered }
    | .ok (_, tables) => { world with tables := tables }
    | .error _ => world
  | .acknowledge batch ack =>
    match acknowledge config world.now ack world.tables with
    | .ok (.verified _ _ _, tables) => { world with tables := tables, acknowledged := batch :: world.acknowledged }
    | .ok (_, tables) => { world with tables := tables }
    | .error _ => world
  | .fail stream error =>
    match archiveFailure config stream error world.tables with
    | .ok tables => { world with tables := tables }
    | .error _ => world

/-- The payload speaks of the batch. -/
structure Acknowledges (batch : OfferedBatch ρ) (ack : ArchiveAck) : Prop where
  stream : ack.streamKey = batch.streamKey
  before : ack.before = batch.before
  first : ack.first = batch.rows.head?.map RawObservation.offset
  last : ack.last = batch.rows.getLast?.map RawObservation.offset
  rowCount : ack.rowCount = some batch.rows.length

/-- An acknowledgement is for a batch that was handed out: now or long ago, once or again, in any order. -/
def ArchiveHappens (world : ArchiveWorld ρ) : ArchiveOp ρ → Prop
  | .acknowledge batch ack => batch ∈ world.offered ∧ Acknowledges batch ack
  | _ => True

/-- No row comes in at or behind the cursor of its stream. -/
def InsertsAhead (world : ArchiveWorld ρ) : ArchiveOp ρ → Prop
  | .insert row => ∀ place, streamCursor (streamKey row.capability) world.tables = some place → place < row.offset
  | _ => True

def ArchiveRun (allowed : ArchiveWorld ρ → ArchiveOp ρ → Prop) : ArchiveWorld ρ → ArchiveWorld ρ → Prop :=
  Driven.Run (archiveStep config) (fun world op => ArchiveHappens world op ∧ allowed world op)

/-! ## What the calls do -/

variable {config} {tables : ArchiveTables ρ}

variable {capability : List Char}

theorem streamKey_injective {other : List Char} (h : streamKey capability = streamKey other) :
    capability = other := List.append_cancel_left h

theorem streamKey_of_capability {stream : List Char}
    (h : capabilityFromStream config stream = .ok capability) : stream = streamKey capability := by
  unfold capabilityFromStream at h
  split at h
  · exact absurd h (by simp)
  · split at h
    · exact absurd h (by simp)
    next hbegins _ =>
      obtain rfl := Except.ok.inj h
      have hbegins' : streamPrefix <+: stream := List.isPrefixOf_iff_prefix.mp (by simpa using hbegins)
      obtain ⟨rest, rfl⟩ := hbegins'
      unfold streamKey
      rw [List.drop_left]

theorem ensureOffset_rows (stream capability : List Char) (state : OverflowState) :
    (ensureOffset stream capability state tables).rows = tables.rows := by
  unfold ensureOffset
  split <;> rfl

theorem ensureOffset_batches (stream capability : List Char) (state : OverflowState) :
    (ensureOffset stream capability state tables).batches = tables.batches := by
  unfold ensureOffset
  split <;> rfl

theorem streamCursor_ensureOffset (stream other capability : List Char) (state : OverflowState) :
    streamCursor other (ensureOffset stream capability state tables) = streamCursor other tables := by
  unfold ensureOffset streamCursor
  split
  · rfl
  next hnone =>
    dsimp only
    rw [Dict.lookup_set]
    split
    next hsame =>
      have hlookup : tables.offsets.lookup stream = none := Option.not_isSome_iff_eq_none.mp hnone
      rw [eq_of_beq hsame, hlookup]
      rfl
    next => rfl

variable {rows : List (RawObservation ρ)} {row : RawObservation ρ}

theorem mem_coldRows {cutoff : ℤ} :
    row ∈ coldRows capability cutoff rows ↔ row ∈ rows ∧ row.capability = capability ∧ row.effectiveAt < cutoff := by
  unfold coldRows
  rw [List.mem_filter, decide_eq_true_iff]

theorem mem_rowsAfter {cursor : Option Offset} :
    row ∈ rowsAfter cursor rows ↔ row ∈ rows ∧ ∀ place, cursor = some place → place < row.offset := by
  unfold rowsAfter
  split
  next place =>
    rw [List.mem_filter, decide_eq_true_iff]
    exact and_congr_right (fun _ => ⟨fun h other hother => Option.some.inj hother ▸ h, fun h => h place rfl⟩)
  next => exact ⟨fun h => ⟨h, nofun⟩, And.left⟩

theorem mem_nextRows {cutoff : ℤ} {cursor : Option Offset} {count : ℕ}
    (h : row ∈ nextRows capability cutoff cursor count rows) :
    row ∈ rows ∧ row.capability = capability ∧ row.effectiveAt < cutoff ∧
      ∀ place, cursor = some place → place < row.offset := by
  obtain ⟨hcold, hafter⟩ := mem_rowsAfter.mp (Keyset.mem_of_mem_page h)
  obtain ⟨hmem, hcapability, hcutoff⟩ := mem_coldRows.mp hcold
  exact ⟨hmem, hcapability, hcutoff, hafter⟩

theorem offset_injective (h : (rows.map RawObservation.observationId).Nodup)
    {other : RawObservation ρ} (hrow : row ∈ rows) (hother : other ∈ rows) (hsame : row.offset = other.offset) :
    row = other := by
  refine List.inj_on_of_nodup_map h hrow hother ?_
  exact (Prod.mk.inj (toLex.injective hsame)).2

variable {after : ArchiveTables ρ}

/-- A batch that is handed out is the next page of its stream. -/
theorem nextBatch_ready {now hotUsed hotBudget : ℤ} {stream : List Char} {limit : Option ℤ} {state : OverflowState}
    {reasons : List String} {batch : OfferedBatch ρ}
    (h : nextBatch config now hotUsed hotBudget stream limit tables = .ok (.ready state reasons batch, after)) :
    capabilityFromStream config stream = .ok batch.capability ∧ batch.streamKey = stream ∧
      batch.before = streamCursor stream tables ∧ batch.rows ≠ [] ∧
      batch.rows = nextRows batch.capability (hotCutoff config now) batch.before
        (boundedInt limit config.batchRows 1 config.batchRows).toNat tables.rows := by
  unfold nextBatch at h
  split at h
  · exact absurd h (by simp)
  next capability hcapability =>
    dsimp only at h
    split at h
    · exact absurd (congrArg Prod.fst (Except.ok.inj h)) (by simp)
    · split at h
      · exact absurd (congrArg Prod.fst (Except.ok.inj h)) (by simp)
      · rw [streamCursor_ensureOffset, ensureOffset_rows] at h
        split at h
        · exact absurd (congrArg Prod.fst (Except.ok.inj h)) (by simp)
        next first rest hrows =>
          have hready := congrArg Prod.fst (Except.ok.inj h)
          obtain ⟨-, -, rfl⟩ := BatchAnswer.ready.inj hready
          exact ⟨hcapability, rfl, rfl, List.cons_ne_nil first rest, hrows.symm⟩

theorem nextBatch_tables {now hotUsed hotBudget : ℤ} {stream : List Char} {limit : Option ℤ}
    {answer : BatchAnswer ρ}
    (h : nextBatch config now hotUsed hotBudget stream limit tables = .ok (answer, after)) :
    after.rows = tables.rows ∧ after.batches = tables.batches ∧
      ∀ other, streamCursor other after = streamCursor other tables := by
  have hafter : after = tables ∨ ∃ capability state, after = ensureOffset stream capability state tables := by
    unfold nextBatch at h
    split at h
    · exact absurd h (by simp)
    next capability _ =>
      dsimp only at h
      split at h
      · exact Or.inl (congrArg Prod.snd (Except.ok.inj h)).symm
      · split at h
        · exact Or.inl (congrArg Prod.snd (Except.ok.inj h)).symm
        · split at h <;> exact Or.inr ⟨capability, _, (congrArg Prod.snd (Except.ok.inj h)).symm⟩
  rcases hafter with rfl | ⟨capability, state, rfl⟩
  · exact ⟨rfl, rfl, fun _ => rfl⟩
  · exact ⟨ensureOffset_rows _ _ _, ensureOffset_batches _ _ _, fun other => streamCursor_ensureOffset _ _ _ _⟩

theorem readAck_ok {ack : ArchiveAck} {batch : VerifiedBatch} (h : readAck config ack = .ok batch) :
    capabilityFromStream config ack.streamKey = .ok batch.capability ∧ batch.streamKey = ack.streamKey ∧
      ack.first = some batch.first ∧ ack.last = some batch.last ∧ batch.rowCount = boundedInt ack.rowCount 0 1 2000 := by
  unfold readAck at h
  split at h
  · exact absurd h (by simp)
  next capability hcapability =>
    dsimp only at h
    split at h
    · exact absurd h (by simp)
    · split at h
      next batchId first last _ hfirst hlast =>
        obtain rfl := Except.ok.inj h
        exact ⟨hcapability, rfl, hfirst, hlast, rfl⟩
      next => exact absurd h (by simp)
      next => exact absurd h (by simp)

/-- A verified acknowledgement: the cursor is the one it names, its first row is the next of the stream, and its
    range has as many rows as it says. -/
theorem acknowledge_verified {now : ℤ} {ack : ArchiveAck} {batchId count : ℕ} {last : Offset}
    (h : acknowledge config now ack tables = .ok (.verified batchId last count, after)) :
    ∃ batch batches, readAck config ack = .ok batch ∧ streamCursor batch.streamKey tables = ack.before ∧
      (nextRows batch.capability (hotCutoff config now) ack.before 1 tables.rows).head?.map RawObservation.offset
        = some batch.first ∧
      (rangeRows batch.capability (hotCutoff config now) batch.first batch.last tables.rows).length = batch.rowCount ∧
      recordBatch batch tables.batches = .ok batches ∧
      after = commitBatch batch (hotCutoff config now) batches
        (ensureOffset batch.streamKey batch.capability .cloudOverflow tables) := by
  unfold acknowledge at h
  split at h
  · exact absurd h (by simp)
  next batch hread =>
    dsimp only at h
    rw [streamCursor_ensureOffset, ensureOffset_batches] at h
    split at h
    · split at h
      · exact absurd (congrArg Prod.fst (Except.ok.inj h)) (by simp)
      · exact absurd h (by simp)
    next hcurrent =>
      have hcurrent : streamCursor batch.streamKey tables = ack.before := by simpa using hcurrent
      unfold verifyBatch at h
      rw [ensureOffset_rows, ensureOffset_batches, hcurrent] at h
      split at h
      · exact absurd h (by simp)
      next hfirst =>
        split at h
        · exact absurd h (by simp)
        next hcount =>
          split at h
          · exact absurd h (by simp)
          next batches hbatches =>
            exact ⟨batch, batches, hread, hcurrent, by simpa using hfirst, by simpa using hcount, hbatches,
              (congrArg Prod.snd (Except.ok.inj h)).symm⟩

/-! ## The invariant -/

/-- The batch lies ahead of the cursor it was read at, its rows are old, and they are still there unless the cursor
    has moved. -/
structure OfferedSound (config : RawOverflowConfig) (world : ArchiveWorld ρ) (batch : OfferedBatch ρ) : Prop where
  stream : batch.streamKey = streamKey batch.capability
  old : ∀ row ∈ batch.rows, row.capability = batch.capability ∧ row.effectiveAt < hotCutoff config world.now
  ahead : ∀ row ∈ batch.rows, ∀ place, batch.before = some place → place < row.offset
  last : ∀ last, batch.rows.getLast? = some last → ∀ row ∈ batch.rows, row.offset ≤ last.offset
  nodup : batch.rows.Nodup
  behind : ∀ place, batch.before = some place →
    ∃ cursor, streamCursor batch.streamKey world.tables = some cursor ∧ place ≤ cursor
  standing : streamCursor batch.streamKey world.tables = batch.before → ∀ row ∈ batch.rows, row ∈ world.tables.rows

/-- The row is in a batch of its stream that is recorded as verified. -/
def CountedIn (tables : ArchiveTables ρ) (batch : OfferedBatch ρ) (row : RawObservation ρ) : Prop :=
  row ∈ batch.rows ∧ batch.capability = row.capability ∧ ∃ record ∈ tables.batches,
    record.streamKey = batch.streamKey ∧ some record.first = batch.rows.head?.map RawObservation.offset ∧
    some record.last = batch.rows.getLast?.map RawObservation.offset ∧ record.rowCount = batch.rows.length

structure ArchiveSound (config : RawOverflowConfig) (world : ArchiveWorld ρ) : Prop where
  ids : (world.tables.rows.map RawObservation.observationId).Nodup
  ahead : ∀ row ∈ world.tables.rows, ∀ place,
    streamCursor (streamKey row.capability) world.tables = some place → place < row.offset
  offered : ∀ batch ∈ world.offered, OfferedSound config world batch
  recorded : ∀ record ∈ world.tables.batches,
    ∃ cursor, streamCursor record.streamKey world.tables = some cursor ∧ record.last ≤ cursor
  kept : ∀ row ∈ world.inserted, row ∈ world.tables.rows ∨
    ∃ batch ∈ world.acknowledged, CountedIn world.tables batch row

variable {world : ArchiveWorld ρ}

theorem archiveSound_empty (now : ℤ) : ArchiveSound (ρ := ρ) config { now := now } :=
  ⟨List.nodup_nil, nofun, nofun, nofun, nofun⟩

section

variable (h : ArchiveSound config world)

include h

theorem ArchiveSound.congr {tables : ArchiveTables ρ}
    (hrows : tables.rows = world.tables.rows) (hbatches : tables.batches = world.tables.batches)
    (hcursors : ∀ stream, streamCursor stream tables = streamCursor stream world.tables) :
    ArchiveSound config { world with tables := tables } := by
  refine ⟨by rw [hrows]; exact h.ids, ?_, ?_, ?_, ?_⟩
  · intro row hrow place hplace
    rw [hrows] at hrow
    rw [hcursors] at hplace
    exact h.ahead row hrow place hplace
  · intro batch hbatch
    have hsound := h.offered batch hbatch
    refine ⟨hsound.stream, hsound.old, hsound.ahead, hsound.last, hsound.nodup, ?_, ?_⟩
    · rw [hcursors]
      exact hsound.behind
    · rw [hcursors, hrows]
      exact hsound.standing
  · intro record hrecord
    rw [hbatches] at hrecord
    rw [hcursors]
    exact h.recorded record hrecord
  · unfold CountedIn
    rw [hrows, hbatches]
    exact h.kept

theorem archiveSound_wait (duration : ℕ) :
    ArchiveSound config { world with now := world.now + duration } := by
  refine ⟨h.ids, h.ahead, ?_, h.recorded, h.kept⟩
  intro batch hbatch
  have hsound := h.offered batch hbatch
  refine ⟨hsound.stream, ?_, hsound.ahead, hsound.last, hsound.nodup, hsound.behind, hsound.standing⟩
  intro row hrow
  obtain ⟨hcapability, hold⟩ := hsound.old row hrow
  refine ⟨hcapability, ?_⟩
  unfold hotCutoff at hold ⊢
  dsimp only
  omega

theorem archiveSound_insert (row : RawObservation ρ)
    (hahead : InsertsAhead world (.insert row)) : ArchiveSound config (archiveStep config (.insert row) world) := by
  unfold archiveStep
  dsimp only
  split
  · exact h
  next hfresh =>
    refine ⟨?_, ?_, ?_, h.recorded, ?_⟩
    · rw [List.map_append]
      refine List.nodup_append.mpr ⟨h.ids, List.nodup_singleton _, ?_⟩
      intro id hid other hother hsame
      rw [List.mem_singleton.mp hother] at hsame
      exact hfresh (hsame ▸ hid)
    · intro other hother
      rcases List.mem_append.mp hother with hold | hnew
      · exact h.ahead other hold
      · rw [List.mem_singleton.mp hnew]
        exact hahead
    · intro batch hbatch
      have hsound := h.offered batch hbatch
      exact ⟨hsound.stream, hsound.old, hsound.ahead, hsound.last, hsound.nodup, hsound.behind,
        fun hcursor other hother => List.mem_append_left _ (hsound.standing hcursor other hother)⟩
    · intro other hother
      rcases List.mem_cons.mp hother with rfl | hold
      · exact Or.inl (List.mem_append_right _ (List.mem_singleton_self other))
      · exact (h.kept other hold).imp_left (List.mem_append_left _)

theorem archiveSound_read (stream : List Char) (limit : Option ℤ)
    (hotUsed hotBudget : ℤ) : ArchiveSound config (archiveStep config (.read stream limit hotUsed hotBudget) world) := by
  unfold archiveStep
  dsimp only
  split
  next state reasons batch tables hnext =>
    obtain ⟨hrows, hbatches, hcursors⟩ := nextBatch_tables hnext
    obtain ⟨hcapability, rfl, hbefore, -, hpage⟩ := nextBatch_ready hnext
    have hkept := h.congr hrows hbatches hcursors
    refine ⟨hkept.ids, hkept.ahead, ?_, hkept.recorded, hkept.kept⟩
    intro other hother
    rcases List.mem_cons.mp hother with rfl | hold
    · have hmem : ∀ row ∈ other.rows, row ∈ world.tables.rows ∧ row.capability = other.capability ∧
          row.effectiveAt < hotCutoff config world.now ∧ ∀ place, other.before = some place → place < row.offset := by
        intro row hrow
        rw [hpage] at hrow
        exact mem_nextRows hrow
      refine ⟨streamKey_of_capability hcapability, ?_, ?_, ?_, ?_, ?_, ?_⟩
      · exact fun row hrow => ⟨(hmem row hrow).2.1, (hmem row hrow).2.2.1⟩
      · exact fun row hrow => (hmem row hrow).2.2.2
      · intro last hlast row hrow
        rw [hpage] at hlast hrow
        exact Keyset.le_last hlast hrow
      · rw [hpage]
        refine Keyset.nodup_page ?_
        unfold rowsAfter coldRows
        split
        · exact (List.Nodup.of_map _ h.ids).filter _ |>.filter _
        · exact (List.Nodup.of_map _ h.ids).filter _
      · intro place hplace
        refine ⟨place, ?_, le_refl place⟩
        rw [hcursors, ← hbefore, hplace]
      · intro _ row hrow
        rw [hrows]
        exact (hmem row hrow).1
    · have hsound := hkept.offered other hold
      exact ⟨hsound.stream, hsound.old, hsound.ahead, hsound.last, hsound.nodup, hsound.behind, hsound.standing⟩
  next hnext =>
    obtain ⟨hrows, hbatches, hcursors⟩ := nextBatch_tables hnext
    exact h.congr hrows hbatches hcursors
  next => exact h

theorem archiveSound_fail (stream error : List Char) :
    ArchiveSound config (archiveStep config (.fail stream error) world) := by
  unfold archiveStep archiveFailure
  dsimp only
  split
  next tables hfail =>
    split at hfail
    · exact absurd hfail (by simp)
    next capability _ =>
      obtain rfl := Except.ok.inj hfail
      refine h.congr rfl rfl (fun other => ?_)
      unfold streamCursor
      dsimp only
      rw [Dict.lookup_set]
      split
      next hsame =>
        rw [eq_of_beq hsame]
        rcases world.tables.offsets.lookup stream with _ | old <;> rfl
      next => rfl
  next => exact h

end

/-! ## An acknowledgement -/

theorem recordBatch_ok {batch : VerifiedBatch} {batches after : List VerifiedBatch}
    (h : recordBatch batch batches = .ok after) (hnew : ∀ other ∈ batches, sameRange batch other = false) :
    after = batches ++ [batch] := by
  unfold recordBatch at h
  rw [if_neg (by simpa using hnew)] at h
  split at h
  · exact absurd h (by simp)
  · exact (Except.ok.inj h).symm

theorem streamCursor_commitBatch (batch : VerifiedBatch) (cutoff : ℤ) (batches : List VerifiedBatch)
    (stream : List Char) :
    streamCursor stream (commitBatch batch cutoff batches tables)
      = if stream = batch.streamKey then some batch.last else streamCursor stream tables := by
  unfold streamCursor commitBatch
  dsimp only
  rw [Dict.lookup_set]
  by_cases hsame : stream = batch.streamKey
  · rw [if_pos (by simpa using hsame), if_pos hsame]
    rfl
  · rw [if_neg (by simpa using hsame), if_neg hsame]

/-- The first row behind the cursor bounds every old row of the stream. -/
theorem first_le_old (h : ArchiveSound config world) {before : Option Offset} {first : Offset}
    (hcurrent : streamCursor (streamKey capability) world.tables = before)
    (hfirst : (nextRows capability (hotCutoff config world.now) before 1 world.tables.rows).head?.map
      RawObservation.offset = some first)
    (hrow : row ∈ world.tables.rows) (hcapability : row.capability = capability)
    (hold : row.effectiveAt < hotCutoff config world.now) : first ≤ row.offset := by
  have hmem : row ∈ rowsAfter before (coldRows capability (hotCutoff config world.now) world.tables.rows) := by
    refine mem_rowsAfter.mpr ⟨mem_coldRows.mpr ⟨hrow, hcapability, hold⟩, fun place hplace => ?_⟩
    exact h.ahead row hrow place (by rw [hcapability, hcurrent, hplace])
  unfold nextRows at hfirst
  rcases hpage : Keyset.page RawObservation.offset 1 (rowsAfter before
    (coldRows capability (hotCutoff config world.now) world.tables.rows)) with _ | ⟨lowest, rest⟩
  · exact absurd hpage (Keyset.page_ne_nil Nat.zero_lt_one hmem)
  · rw [hpage] at hfirst
    rw [← Option.some.inj hfirst]
    exact Keyset.head_le hpage hmem

theorem mem_rangeRows {cutoff : ℤ} {first last : Offset}
    : row ∈ rangeRows capability cutoff first last rows ↔
      (row ∈ rows ∧ row.capability = capability ∧ row.effectiveAt < cutoff) ∧
        first ≤ row.offset ∧ row.offset ≤ last := by
  unfold rangeRows
  rw [List.mem_filter, mem_coldRows, decide_eq_true_iff]

/-- What the transaction of an acknowledgement knows of the batch it is for. -/
structure Confirms (config : RawOverflowConfig) (world : ArchiveWorld ρ) (offered : OfferedBatch ρ)
    (batch : VerifiedBatch) : Prop where
  handedOut : offered ∈ world.offered
  capability : offered.capability = batch.capability
  stream : batch.streamKey = offered.streamKey
  cursor : streamCursor batch.streamKey world.tables = offered.before
  first : offered.rows.head?.map RawObservation.offset = some batch.first
  last : offered.rows.getLast?.map RawObservation.offset = some batch.last
  count : batch.rowCount = offered.rows.length
  deleted : ∀ row ∈ world.tables.rows,
    isDeleted batch.capability (hotCutoff config world.now) batch.last row = true → row ∈ offered.rows

/-- **The count closes the gap**: as many rows as the batch has lie between its first and its last, so the rows that
    are deleted are the rows that were read. -/
theorem confirms_of_verified (h : ArchiveSound config world) {offered : OfferedBatch ρ} {ack : ArchiveAck}
    (hoffered : offered ∈ world.offered) (hack : Acknowledges offered ack) {batchId count : ℕ} {last : Offset}
    (hverified : acknowledge config world.now ack world.tables = .ok (.verified batchId last count, after)) :
    ∃ batch batches, Confirms config world offered batch ∧ recordBatch batch world.tables.batches = .ok batches ∧
      after = commitBatch batch (hotCutoff config world.now) batches
        (ensureOffset batch.streamKey batch.capability .cloudOverflow world.tables) := by
  obtain ⟨batch, batches, hread, hcurrent, hfirst, hcount, hbatches, rfl⟩ := acknowledge_verified hverified
  obtain ⟨hcapability, hstream, hackFirst, hackLast, hrowCount⟩ := readAck_ok hread
  have hsound := h.offered offered hoffered
  rw [hack.first] at hackFirst
  rw [hack.last] at hackLast
  rw [hack.before] at hcurrent hfirst
  have hkey : batch.streamKey = streamKey batch.capability := by rw [hstream, streamKey_of_capability hcapability]
  have hsame : offered.capability = batch.capability :=
    streamKey_injective (by rw [← hsound.stream, ← hack.stream, ← hstream, hkey])
  have hlow : ∀ row ∈ world.tables.rows, row.capability = batch.capability →
      row.effectiveAt < hotCutoff config world.now → batch.first ≤ row.offset :=
    fun row hrow => first_le_old h (hkey ▸ hcurrent) hfirst hrow
  have hrange : ∀ row ∈ offered.rows, row ∈ rangeRows batch.capability (hotCutoff config world.now) batch.first
      batch.last world.tables.rows := by
    intro row hrow
    have hstanding := hsound.standing (by rw [← hack.stream, ← hstream]; exact hcurrent) row hrow
    obtain ⟨hcap, hold⟩ := hsound.old row hrow
    rw [hsame] at hcap
    obtain ⟨lowest, hgetLast, hoffset⟩ := Option.map_eq_some_iff.mp hackLast
    refine mem_rangeRows.mpr ⟨⟨hstanding, hcap, hold⟩, hlow row hstanding hcap hold, ?_⟩
    rw [← hoffset]
    exact hsound.last lowest hgetLast row hrow
  have hatMost : offered.rows.length ≤ (rangeRows batch.capability (hotCutoff config world.now) batch.first
      batch.last world.tables.rows).length := (hsound.nodup.subperm hrange).length_le
  have hclamp : batch.rowCount = min 2000 (max 1 (offered.rows.length : ℤ)) := by
    rw [hrowCount, hack.rowCount]
    rfl
  have hpos : offered.rows ≠ [] := by
    intro hnil
    rw [hnil] at hackFirst
    exact absurd hackFirst (by simp)
  have hpos := List.length_pos_of_ne_nil hpos
  refine ⟨batch, batches, ⟨hoffered, hsame, by rw [hstream, hack.stream], hcurrent, hackFirst, hackLast, by omega,
    fun row hrow hdeleted => ?_⟩, hbatches, rfl⟩
  obtain ⟨hcap, hold, hup⟩ := of_decide_eq_true hdeleted
  exact Keyset.mem_of_subset hsound.nodup hrange (by omega)
    (mem_rangeRows.mpr ⟨⟨hrow, hcap, hold⟩, hlow row hrow hcap hold, hup⟩)

/-- The cursor moves up, and nothing of the stream stays at or behind it. -/
theorem archiveSound_commit (h : ArchiveSound config world) {offered : OfferedBatch ρ} {batch : VerifiedBatch}
    {batches : List VerifiedBatch} (hconfirms : Confirms config world offered batch)
    (hbatches : recordBatch batch world.tables.batches = .ok batches) {tables : ArchiveTables ρ}
    (hrows : tables.rows = world.tables.rows)
    (hcursors : ∀ stream, streamCursor stream tables = streamCursor stream world.tables) :
    ArchiveSound config { world with
      tables := commitBatch batch (hotCutoff config world.now) batches tables
      acknowledged := offered :: world.acknowledged } := by
  have hsound := h.offered offered hconfirms.handedOut
  have hkey : batch.streamKey = streamKey batch.capability := by
    rw [hconfirms.stream, hsound.stream, hconfirms.capability]
  obtain ⟨last, hgetLast, hlast⟩ := Option.map_eq_some_iff.mp hconfirms.last
  have hlastMem : last ∈ offered.rows := List.mem_of_getLast? hgetLast
  -- the cursor moves up
  have hmoves : ∀ cursor, streamCursor batch.streamKey world.tables = some cursor → cursor < batch.last := by
    intro cursor hcursor
    rw [← hlast]
    exact hsound.ahead last hlastMem cursor (by rw [← hconfirms.cursor, hcursor])
  have hnew : ∀ other ∈ world.tables.batches, sameRange batch other = false := by
    intro other hother
    by_contra hsame
    unfold sameRange at hsame
    simp only [Bool.not_eq_false, Bool.and_eq_true, beq_iff_eq, decide_eq_true_eq] at hsame
    obtain ⟨cursor, hcursor, hle⟩ := h.recorded other hother
    rw [← hsame.1.1] at hcursor
    exact absurd (hmoves cursor hcursor) (not_lt.mpr (by rw [hsame.1.2.2]; exact hle))
  obtain rfl := recordBatch_ok hbatches hnew
  have hcursor : ∀ stream, streamCursor stream
      (commitBatch batch (hotCutoff config world.now) (world.tables.batches ++ [batch]) tables)
        = if stream = batch.streamKey then some batch.last else streamCursor stream world.tables := by
    intro stream
    rw [streamCursor_commitBatch, hcursors]
  have hmem : ∀ row, row ∈ (commitBatch batch (hotCutoff config world.now) (world.tables.batches ++ [batch]) tables).rows ↔
      row ∈ world.tables.rows ∧ isDeleted batch.capability (hotCutoff config world.now) batch.last row = false := by
    intro row
    unfold commitBatch
    dsimp only
    rw [List.mem_filter, hrows, Bool.not_eq_true']
  refine ⟨?_, ?_, ?_, ?_, ?_⟩
  · unfold commitBatch
    dsimp only
    rw [hrows]
    exact h.ids.sublist (List.filter_sublist.map _)
  · intro row hrow place hplace
    obtain ⟨hold, hstays⟩ := (hmem row).mp hrow
    rw [hcursor] at hplace
    split at hplace
    next hstream =>
      obtain rfl := Option.some.inj hplace
      have hcapability : row.capability = batch.capability := streamKey_injective (by rw [hstream, hkey])
      unfold isDeleted at hstays
      by_contra hle
      have hle : row.offset ≤ last.offset := by rw [hlast]; exact not_lt.mp hle
      refine of_decide_eq_false hstays ⟨hcapability, ?_, by rw [← hlast]; exact hle⟩
      have hlastOld := (hsound.old last hlastMem).2
      rcases Prod.Lex.toLex_le_toLex.mp hle with hlt | ⟨heq, -⟩
      · exact lt_trans hlt hlastOld
      · exact lt_of_eq_of_lt heq hlastOld
    next => exact h.ahead row hold place hplace
  · intro other hother
    have hkept := h.offered other hother
    refine ⟨hkept.stream, hkept.old, hkept.ahead, hkept.last, hkept.nodup, ?_, ?_⟩
    · intro place hplace
      obtain ⟨cursor, hbehind, hle⟩ := hkept.behind place hplace
      rw [hcursor]
      split
      next hstream =>
        rw [hstream] at hbehind
        exact ⟨batch.last, rfl, hle.trans (hmoves cursor hbehind).le⟩
      next => exact ⟨cursor, hbehind, hle⟩
    · intro hstands row hrow
      rw [hcursor] at hstands
      split at hstands
      next hstream =>
        obtain ⟨cursor, hbehind, hle⟩ := hkept.behind batch.last hstands.symm
        rw [hstream] at hbehind
        exact absurd (hmoves cursor hbehind) (not_lt.mpr hle)
      next hstream =>
        refine (hmem row).mpr ⟨hkept.standing hstands row hrow, ?_⟩
        unfold isDeleted
        refine decide_eq_false (fun hdeleted => hstream ?_)
        rw [hkept.stream, hkey, ← (hkept.old row hrow).1, hdeleted.1]
  · intro record hrecord
    rw [hcursor]
    rcases List.mem_append.mp hrecord with hold | hrecorded
    · obtain ⟨cursor, hbehind, hle⟩ := h.recorded record hold
      split
      next hstream =>
        rw [hstream] at hbehind
        exact ⟨batch.last, rfl, hle.trans (hmoves cursor hbehind).le⟩
      next => exact ⟨cursor, hbehind, hle⟩
    · rw [List.mem_singleton.mp hrecorded, if_pos rfl]
      exact ⟨batch.last, rfl, le_refl _⟩
  · intro row hrow
    rcases h.kept row hrow with hold | ⟨other, hother, hmemOther, hcapability, record, hrecord, hcounted⟩
    · rcases hdeleted : isDeleted batch.capability (hotCutoff config world.now) batch.last row with _ | _
      · exact Or.inl ((hmem row).mpr ⟨hold, hdeleted⟩)
      · have hin := hconfirms.deleted row hold hdeleted
        refine Or.inr ⟨offered, List.mem_cons_self, hin, (hsound.old row hin).1.symm, batch,
          List.mem_append_right _ (List.mem_singleton_self batch), hconfirms.stream, ?_, ?_, hconfirms.count⟩
        · exact hconfirms.first.symm
        · exact hconfirms.last.symm
    · exact Or.inr ⟨other, List.mem_cons_of_mem _ hother, hmemOther, hcapability, record,
        List.mem_append_left _ hrecord, hcounted⟩

theorem acknowledge_already {now : ℤ} {ack : ArchiveAck} {batchId : ℕ} {cursor : Option Offset}
    (h : acknowledge config now ack tables = .ok (.alreadyVerified batchId cursor, after)) :
    ∃ stream capability, after = ensureOffset stream capability .cloudOverflow tables := by
  unfold acknowledge verifyBatch at h
  split at h
  · exact absurd h (by simp)
  next batch _ =>
    dsimp only at h
    split at h
    · split at h
      · exact ⟨_, _, (congrArg Prod.snd (Except.ok.inj h)).symm⟩
      · exact absurd h (by simp)
    · split at h
      · exact absurd h (by simp)
      · split at h
        · exact absurd h (by simp)
        · split at h
          · exact absurd h (by simp)
          · exact absurd (congrArg Prod.fst (Except.ok.inj h)) (by simp)

theorem archiveSound_acknowledge (h : ArchiveSound config world) (offered : OfferedBatch ρ) (ack : ArchiveAck)
    (hoffered : offered ∈ world.offered) (hack : Acknowledges offered ack) :
    ArchiveSound config (archiveStep config (.acknowledge offered ack) world) := by
  unfold archiveStep
  dsimp only
  split
  next hverified =>
    obtain ⟨batch, batches, hconfirms, hbatches, rfl⟩ := confirms_of_verified h hoffered hack hverified
    exact archiveSound_commit h hconfirms hbatches (ensureOffset_rows _ _ _)
      (fun stream => streamCursor_ensureOffset _ _ _ _)
  next answer tables hother hanswer =>
    rcases answer with ⟨batchId, cursor⟩ | ⟨batchId, last, count⟩
    · obtain ⟨stream, capability, rfl⟩ := acknowledge_already hanswer
      exact h.congr (ensureOffset_rows _ _ _) (ensureOffset_batches _ _ _)
        (fun other => streamCursor_ensureOffset _ _ _ _)
    · exact (hother batchId last count rfl).elim
  next => exact h

theorem archiveSound_step (h : ArchiveSound config world) (op : ArchiveOp ρ) (hhappens : ArchiveHappens world op)
    (hahead : InsertsAhead world op) : ArchiveSound config (archiveStep config op world) := by
  cases op with
  | wait duration => exact archiveSound_wait h duration
  | insert row => exact archiveSound_insert h row hahead
  | read stream limit hotUsed hotBudget => exact archiveSound_read h stream limit hotUsed hotBudget
  | acknowledge batch ack => exact archiveSound_acknowledge h batch ack hhappens.1 hhappens.2
  | fail stream error => exact archiveSound_fail h stream error

theorem archiveSound_run {now : ℤ} (hrun : ArchiveRun config InsertsAhead { now := now } world) :
    ArchiveSound config world :=
  hrun.keeps (archiveSound_empty now) (fun _ op hsound hallowed => archiveSound_step hsound op hallowed.1 hallowed.2)

end TradingHarness
