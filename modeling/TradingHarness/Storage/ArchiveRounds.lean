import TradingHarness.Storage.ArchiveRuns

set_option autoImplicit false

/-! # The rounds of the overflow archive

A round reads a batch and acknowledges it. Each round that does not hand out a waiting row brings the cursor nearer
to it. -/

namespace TradingHarness

variable {ρ : Type} (config : RawOverflowConfig)

/-- What the adapter brings to a round: the limit of its request, the verified copy, and the size of the database at
    the time. -/
structure Upload where
  limit : Option ℤ := none
  hotUsed : ℤ
  hotBudget : ℤ
  batchId : ℕ
  compressedBytes : Option ℤ
  sha256 : List Char

variable (stream : List Char) (world : ArchiveWorld ρ) (upload : Upload)

def Upload.ack (batch : OfferedBatch ρ) : ArchiveAck where
  streamKey := batch.streamKey
  before := batch.before
  first := batch.rows.head?.map RawObservation.offset
  last := batch.rows.getLast?.map RawObservation.offset
  rowCount := some batch.rows.length
  compressedBytes := upload.compressedBytes
  sha256 := upload.sha256
  batchId := some upload.batchId

def archiveRound : ArchiveWorld ρ :=
  let read := archiveStep config (.read stream upload.limit upload.hotUsed upload.hotBudget) world
  match nextBatch config world.now upload.hotUsed upload.hotBudget stream upload.limit world.tables with
  | .ok (.ready _ _ batch, _) => archiveStep config (.acknowledge batch (upload.ack batch)) read
  | _ => read

/-- The database is above a watermark, the batch id is new, and the metadata can be read. -/
structure Fits (world : ArchiveWorld ρ) (upload : Upload) : Prop where
  pressed : (classifyOverflow upload.hotUsed upload.hotBudget 0 0 config.enabled config.limits).1 ≠ .normal
  fresh : ∀ record ∈ world.tables.batches, record.batchId ≠ upload.batchId
  bytes : boundedInt upload.compressedBytes 0 1 config.limits.maxBatchBytes ≠ 0
  sha : isSha256 upload.sha256 = true

def FitUploads (stream : List Char) : ArchiveWorld ρ → List Upload → Prop
  | _, [] => True
  | world, upload :: rest => Fits config world upload ∧ FitUploads stream (archiveRound config stream world upload) rest

/-- The rows of its stream that a row waits for, itself included. -/
def waitsFor (row other : RawObservation ρ) : Bool :=
  decide (other.capability = row.capability ∧ other.offset ≤ row.offset)

variable {config} {world : ArchiveWorld ρ}

/-! ## A read -/

theorem boundedInt_le {value : Option ℤ} {default minimum maximum : ℤ} (h : default ≤ maximum) :
    boundedInt value default minimum maximum ≤ maximum := by
  unfold boundedInt
  split <;> omega

theorem le_boundedInt {value : Option ℤ} {default minimum maximum : ℤ} (h : minimum ≤ default)
    (h' : minimum ≤ maximum) : minimum ≤ boundedInt value default minimum maximum := by
  unfold boundedInt
  split <;> omega

/-- An allowlisted stream that has an old row gives a batch. -/
theorem nextBatch_gives (h : ArchiveSound config world) (henabled : config.enabled = true) {row : RawObservation ρ}
    (hrow : row ∈ world.tables.rows) (hallowed : row.capability ∈ config.capabilities)
    (hold : row.effectiveAt < hotCutoff config world.now) {hotUsed hotBudget : ℤ}
    (hpressed : (classifyOverflow hotUsed hotBudget 0 0 config.enabled config.limits).1 ≠ .normal)
    (limit : Option ℤ) :
    ∃ state reasons batch after, nextBatch config world.now hotUsed hotBudget (streamKey row.capability) limit
      world.tables = .ok (.ready state reasons batch, after) := by
  have hcapability : capabilityFromStream config (streamKey row.capability) = .ok row.capability := by
    unfold capabilityFromStream streamKey
    have hbegins : streamPrefix.isPrefixOf (streamPrefix ++ row.capability) = true :=
      List.isPrefixOf_iff_prefix.mpr (List.prefix_append _ _)
    rw [hbegins, List.drop_left, if_neg (by simp), List.contains_iff_mem.mpr hallowed]
    rfl
  unfold nextBatch
  rw [hcapability]
  dsimp only
  rw [henabled, if_neg (by simp), ← henabled, if_neg hpressed, streamCursor_ensureOffset, ensureOffset_rows]
  split
  next hnil =>
    have hbehind : row ∈ rowsAfter (streamCursor (streamKey row.capability) world.tables)
        (coldRows row.capability (hotCutoff config world.now) world.tables.rows) :=
      mem_rowsAfter.mpr ⟨mem_coldRows.mpr ⟨hrow, rfl, hold⟩, fun place hplace => h.ahead row hrow place hplace⟩
    refine absurd hnil (Keyset.page_ne_nil ?_ hbehind)
    have hone : (1 : ℤ) ≤ boundedInt limit config.batchRows 1 config.batchRows :=
      le_boundedInt (by exact_mod_cast config.batchRows_pos) (by exact_mod_cast config.batchRows_pos)
    omega
  next first rest _ => exact ⟨_, _, _, _, rfl⟩

/-! ## Its acknowledgement -/

theorem boundedInt_some {value default minimum maximum : ℤ} (h : minimum ≤ value) (h' : value ≤ maximum) :
    boundedInt (some value) default minimum maximum = value := by
  unfold boundedInt
  dsimp only
  omega

variable {batch : OfferedBatch ρ}

theorem readAck_upload {upload : Upload} (hfits : Fits config world upload)
    (hcapability : capabilityFromStream config batch.streamKey = .ok batch.capability) (hrows : batch.rows ≠ [])
    (hlength : batch.rows.length ≤ 2000) :
    ∃ record, readAck config (upload.ack batch) = .ok record ∧ record.batchId = upload.batchId ∧
      record.streamKey = batch.streamKey ∧ record.capability = batch.capability ∧
      batch.rows.head?.map RawObservation.offset = some record.first ∧
      batch.rows.getLast?.map RawObservation.offset = some record.last ∧ record.rowCount = batch.rows.length := by
  have hpos := List.length_pos_of_ne_nil hrows
  have hcount : boundedInt (some (batch.rows.length : ℤ)) 0 1 2000 = batch.rows.length :=
    boundedInt_some (by omega) (by omega)
  obtain ⟨first, hfirst⟩ : ∃ first, batch.rows.head?.map RawObservation.offset = some first := by
    rw [List.head?_eq_some_head hrows]
    exact ⟨_, rfl⟩
  obtain ⟨last, hlast⟩ : ∃ last, batch.rows.getLast?.map RawObservation.offset = some last := by
    rw [List.getLast?_eq_some_getLast hrows]
    exact ⟨_, rfl⟩
  unfold readAck Upload.ack
  dsimp only
  rw [hcapability]
  dsimp only
  rw [hcount, hfirst, hlast, hfits.sha]
  dsimp only
  rw [if_neg]
  · exact ⟨_, rfl, rfl, rfl, rfl, rfl, rfl, rfl⟩
  · rintro (hzero | hzero | hsha)
    · omega
    · exact hfits.bytes hzero
    · exact absurd hsha (by simp)

/-- Between the first and the last row of a page that begins at the cursor there are the rows of the page. -/
theorem rangeRows_length (h : ArchiveSound config world) {count : ℕ} {first last : Offset}
    (hcursor : streamCursor (streamKey batch.capability) world.tables = batch.before)
    (hrows : batch.rows = nextRows batch.capability (hotCutoff config world.now) batch.before count world.tables.rows)
    (hfirst : (nextRows batch.capability (hotCutoff config world.now) batch.before 1 world.tables.rows).head?.map
      RawObservation.offset = some first)
    (hlast : batch.rows.getLast?.map RawObservation.offset = some last) :
    (rangeRows batch.capability (hotCutoff config world.now) first last world.tables.rows).length
      = batch.rows.length := by
  have hids : (coldRows batch.capability (hotCutoff config world.now) world.tables.rows).Nodup :=
    (List.Nodup.of_map _ h.ids).filter _
  have hnodup : batch.rows.Nodup := by
    rw [hrows]
    refine Keyset.nodup_page ?_
    unfold rowsAfter
    split
    · exact hids.filter _
    · exact hids
  obtain ⟨top, htop, hoffset⟩ := Option.map_eq_some_iff.mp hlast
  have htopMem : top ∈ batch.rows := List.mem_of_getLast? htop
  refine List.Perm.length_eq ((List.perm_ext_iff_of_nodup (hids.filter _) hnodup).mpr (fun row => ?_))
  constructor
  · intro hrow
    obtain ⟨⟨hmem, hcapability, hold⟩, -, hup⟩ := mem_rangeRows.mp hrow
    have hafter : row ∈ rowsAfter batch.before
        (coldRows batch.capability (hotCutoff config world.now) world.tables.rows) := by
      refine mem_rowsAfter.mpr ⟨mem_coldRows.mpr ⟨hmem, hcapability, hold⟩, fun place hplace => ?_⟩
      exact h.ahead row hmem place (by rw [hcapability, hcursor, hplace])
    by_contra hout
    -- a row that the page leaves out lies above its last row, so it would be that row
    have habove : top.offset ≤ row.offset := by
      rw [hrows] at htopMem hout
      exact Keyset.le_of_not_mem_page htopMem hafter hout
    have hsame : row = top := by
      refine offset_injective h.ids hmem ?_ (le_antisymm (hoffset ▸ hup) habove)
      rw [hrows] at htopMem
      exact (mem_nextRows htopMem).1
    exact hout (hsame ▸ htopMem)
  · intro hrow
    have hpage := hrow
    rw [hrows] at hpage
    obtain ⟨hmem, hcapability, hold, -⟩ := mem_nextRows hpage
    refine mem_rangeRows.mpr ⟨⟨hmem, hcapability, hold⟩, first_le_old h hcursor hfirst hmem hcapability hold, ?_⟩
    rw [← hoffset]
    rw [hrows] at htop
    exact Keyset.le_last htop hpage

/-- The acknowledgement of a batch that was just read goes through. -/
theorem acknowledge_fits (h : ArchiveSound config world) {stream : List Char} {upload : Upload}
    (hfits : Fits config world upload) {hotUsed hotBudget : ℤ} {limit : Option ℤ} {state : OverflowState}
    {reasons : List String} {after : ArchiveTables ρ}
    (hnext : nextBatch config world.now hotUsed hotBudget stream limit world.tables
      = .ok (.ready state reasons batch, after)) :
    ∃ (record : VerifiedBatch) (batchId count : ℕ) (tables : ArchiveTables ρ), acknowledge config world.now (upload.ack batch) after
        = .ok (.verified batchId record.last count, tables) ∧
      record.capability = batch.capability ∧ batch.rows.getLast?.map RawObservation.offset = some record.last ∧
      tables.rows = world.tables.rows.filter
        (fun row => !isDeleted record.capability (hotCutoff config world.now) record.last row) := by
  obtain ⟨hrowsAfter, hbatchesAfter, hcursorsAfter⟩ := nextBatch_tables hnext
  obtain ⟨hcapability, hstream, hbefore, hne, hpage⟩ := nextBatch_ready hnext
  have hlimit : boundedInt limit config.batchRows 1 config.batchRows ≤ config.batchRows := boundedInt_le (le_refl _)
  have hone : (1 : ℤ) ≤ boundedInt limit config.batchRows 1 config.batchRows :=
    le_boundedInt (by exact_mod_cast config.batchRows_pos) (by exact_mod_cast config.batchRows_pos)
  have hrows2000 := config.batchRows_le
  have hlength : batch.rows.length ≤ 2000 := by
    rw [hpage]
    refine Keyset.length_page_le.trans ?_
    omega
  obtain ⟨record, hread, hbatchId, hrecordStream, hrecordCapability, hfirst, hlast, hcount⟩ :=
    readAck_upload hfits (hstream ▸ hcapability) hne hlength
  have hcursor : streamCursor (streamKey batch.capability) world.tables = batch.before := by
    rw [hbefore, ← streamKey_of_capability hcapability]
  have hhead : (nextRows batch.capability (hotCutoff config world.now) batch.before 1 world.tables.rows).head?.map
      RawObservation.offset = some record.first := by
    rw [← hfirst, hpage]
    exact congrArg (Option.map RawObservation.offset) (Keyset.head?_page (by omega)).symm
  have hnew : recordBatch record after.batches = .ok (after.batches ++ [record]) := by
    have hrecorded : ∀ other ∈ world.tables.batches, sameRange record other = false := by
      intro other hother
      by_contra hsame
      unfold sameRange at hsame
      simp only [Bool.not_eq_false, Bool.and_eq_true, beq_iff_eq, decide_eq_true_eq] at hsame
      obtain ⟨cursor, hbehind, hle⟩ := h.recorded other hother
      obtain ⟨top, htop, hoffset⟩ := Option.map_eq_some_iff.mp hlast
      have htopMem : top ∈ nextRows batch.capability (hotCutoff config world.now) batch.before
          (boundedInt limit config.batchRows 1 config.batchRows).toNat world.tables.rows := by
        rw [← hpage]
        exact List.mem_of_getLast? htop
      have hahead := (mem_nextRows htopMem).2.2.2 cursor
        (by rw [hbefore, ← hstream, ← hrecordStream, hsame.1.1, hbehind])
      rw [hoffset, hsame.1.2.2] at hahead
      exact absurd hahead (not_lt.mpr hle)
    unfold recordBatch
    rw [hbatchesAfter, if_neg (by simpa using hrecorded), if_neg]
    simp only [List.any_eq_true, beq_iff_eq, not_exists, not_and]
    exact fun other hother hid => hfits.fresh other hother (hid.trans hbatchId)
  have hcurrent : streamCursor record.streamKey
      (ensureOffset record.streamKey record.capability .cloudOverflow after) = batch.before := by
    rw [streamCursor_ensureOffset, hcursorsAfter, hrecordStream, hstream, ← hbefore]
  have hackBefore : (upload.ack batch).before = batch.before := rfl
  refine ⟨record, record.batchId, world.tables.rows.countP
    (fun row => isDeleted batch.capability (hotCutoff config world.now) record.last row), commitBatch record (hotCutoff config world.now) (after.batches ++ [record])
    (ensureOffset record.streamKey record.capability .cloudOverflow after), ?_, hrecordCapability, hlast, ?_⟩
  · unfold acknowledge
    rw [hread]
    dsimp only
    rw [hcurrent, hackBefore, if_neg (not_not.mpr rfl)]
    unfold verifyBatch
    rw [ensureOffset_rows, ensureOffset_batches, hrowsAfter, hrecordCapability]
    have hrange := rangeRows_length h hcursor hpage hhead hlast
    rw [hbatchesAfter] at hnew ⊢
    rw [if_neg (not_not.mpr hhead), if_neg (not_not.mpr (by rw [hrange, hcount])), hnew]
  · unfold commitBatch
    dsimp only
    rw [ensureOffset_rows, hrowsAfter]

/-! ## Rounds -/

theorem offered_subset_step (op : ArchiveOp ρ) (h : batch ∈ world.offered) :
    batch ∈ (archiveStep config op world).offered := by
  unfold archiveStep
  split
  · exact h
  · dsimp only
    split <;> exact h
  · split
    · exact List.mem_cons_of_mem _ h
    · exact h
    · exact h
  · split <;> exact h
  · split <;> exact h

theorem offered_subset_round (h : batch ∈ world.offered) : batch ∈ (archiveRound config stream world upload).offered := by
  unfold archiveRound
  dsimp only
  split
  · exact offered_subset_step _ (offered_subset_step _ h)
  · exact offered_subset_step _ h

theorem offered_subset_rounds (uploads : List Upload)
    (h : batch ∈ world.offered) : batch ∈ (uploads.foldl (archiveRound config stream) world).offered := by
  induction uploads generalizing world with
  | nil => exact h
  | cons upload rest ih => exact ih (offered_subset_round stream upload h)

/-- A round hands out the row, or takes away one of the rows it waits for. -/
theorem round_progress (h : ArchiveSound config world) (henabled : config.enabled = true) {row : RawObservation ρ}
    (hrow : row ∈ world.tables.rows) (hallowed : row.capability ∈ config.capabilities)
    (hold : row.effectiveAt < hotCutoff config world.now) {upload : Upload} (hfits : Fits config world upload) :
    (∃ batch ∈ (archiveRound config (streamKey row.capability) world upload).offered, row ∈ batch.rows) ∨
      ArchiveSound config (archiveRound config (streamKey row.capability) world upload) ∧
        (archiveRound config (streamKey row.capability) world upload).now = world.now ∧
        row ∈ (archiveRound config (streamKey row.capability) world upload).tables.rows ∧
        (archiveRound config (streamKey row.capability) world upload).tables.rows.countP (waitsFor row)
          < world.tables.rows.countP (waitsFor row) := by
  obtain ⟨state, reasons, batch, after, hnext⟩ :=
    nextBatch_gives h henabled hrow hallowed hold hfits.pressed upload.limit
  obtain ⟨hcapability, hstream, hbefore, hne, hpage⟩ := nextBatch_ready hnext
  obtain ⟨record, batchId, count, tables, hack, hrecord, hlast, hrows⟩ := acknowledge_fits h hfits hnext
  have hsame : batch.capability = row.capability :=
    (streamKey_injective (streamKey_of_capability hcapability)).symm
  have hread : archiveStep config (.read (streamKey row.capability) upload.limit upload.hotUsed upload.hotBudget) world
      = { world with tables := after, offered := batch :: world.offered } := by
    unfold archiveStep
    dsimp only
    rw [hnext]
  have hround : archiveRound config (streamKey row.capability) world upload
      = { world with
          tables := tables, offered := batch :: world.offered, acknowledged := batch :: world.acknowledged } := by
    unfold archiveRound
    rw [hread, hnext]
    dsimp only
    unfold archiveStep
    dsimp only
    rw [hack]
  by_cases hin : row ∈ batch.rows
  · rw [hround]
    exact Or.inl ⟨batch, List.mem_cons_self, hin⟩
  · refine Or.inr ⟨?_, ?_, ?_, ?_⟩
    · have hsoundRead := archiveSound_read h (streamKey row.capability) upload.limit upload.hotUsed upload.hotBudget
      have hsoundAck := archiveSound_acknowledge hsoundRead batch (upload.ack batch)
        (by rw [hread]; exact List.mem_cons_self) ⟨rfl, rfl, rfl, rfl, rfl⟩
      rw [hread] at hsoundAck
      unfold archiveStep at hsoundAck
      dsimp only at hsoundAck
      rw [hack] at hsoundAck
      rw [hround]
      exact hsoundAck
    · rw [hround]
    all_goals
      obtain ⟨top, htop, hoffset⟩ := Option.map_eq_some_iff.mp hlast
      have htopMem : top ∈ batch.rows := List.mem_of_getLast? htop
      have hafter : row ∈ rowsAfter batch.before
          (coldRows batch.capability (hotCutoff config world.now) world.tables.rows) := by
        refine mem_rowsAfter.mpr ⟨mem_coldRows.mpr ⟨hrow, hsame.symm, hold⟩, fun place hplace => ?_⟩
        exact h.ahead row hrow place (by rw [← hbefore, hplace])
      have habove : top.offset ≤ row.offset := by
        rw [hpage] at htopMem hin
        exact Keyset.le_of_not_mem_page htopMem hafter hin
      have htopFacts := htopMem
      rw [hpage] at htopFacts
      obtain ⟨htopRow, htopCapability, htopOld, -⟩ := mem_nextRows htopFacts
      rw [hround]
      dsimp only
      rw [hrows]
    · refine List.mem_filter.mpr ⟨hrow, ?_⟩
      rw [Bool.not_eq_true']
      refine decide_eq_false (fun hdeleted => hin ?_)
      have hequal : row = top :=
        offset_injective h.ids hrow htopRow (le_antisymm (hoffset ▸ hdeleted.2.2) habove)
      exact hequal ▸ htopMem
    · rw [List.countP_eq_countP_filter_add world.tables.rows (waitsFor row)
        (fun other => !isDeleted record.capability (hotCutoff config world.now) record.last other)]
      refine Nat.lt_add_of_pos_right (List.countP_pos_iff.mpr ⟨top, List.mem_filter.mpr ⟨htopRow, ?_⟩, ?_⟩)
      · rw [Bool.not_not]
        exact decide_eq_true ⟨htopCapability.trans hrecord.symm, htopOld, hoffset.le⟩
      · exact decide_eq_true ⟨htopCapability.trans hsame, habove⟩

/-- As many rounds as a row has rows to wait for hand it out. -/
theorem offered_of_rounds (h : ArchiveSound config world) (henabled : config.enabled = true) {row : RawObservation ρ}
    (hrow : row ∈ world.tables.rows) (hallowed : row.capability ∈ config.capabilities)
    (hold : row.effectiveAt < hotCutoff config world.now) (uploads : List Upload)
    (hfit : FitUploads config (streamKey row.capability) world uploads)
    (hmany : world.tables.rows.countP (waitsFor row) ≤ uploads.length) :
    ∃ batch ∈ (uploads.foldl (archiveRound config (streamKey row.capability)) world).offered, row ∈ batch.rows := by
  induction uploads generalizing world with
  | nil =>
      have hself : waitsFor row row = true := decide_eq_true ⟨rfl, le_refl _⟩
      have hpos : 0 < world.tables.rows.countP (waitsFor row) := List.countP_pos_iff.mpr ⟨row, hrow, hself⟩
      rw [List.length_nil] at hmany
      omega
  | cons upload rest ih =>
      rw [List.foldl_cons]
      rcases round_progress h henabled hrow hallowed hold hfit.1 with ⟨batch, hbatch, hin⟩ | ⟨hsound, hnow, hstays, hless⟩
      · exact ⟨batch, offered_subset_rounds _ rest hbatch, hin⟩
      · rw [List.length_cons] at hmany
        exact ih hsound hstays (by rw [hnow]; exact hold) hfit.2 (by omega)

/-- A row that was inserted is in the table or counted in a verified batch, and as many rounds as a row that has grown
    old has rows to wait for hand it out. -/
structure RowsKept (config : RawOverflowConfig) (world : ArchiveWorld ρ) : Prop where
  kept : ∀ row ∈ world.inserted, row ∈ world.tables.rows ∨
    ∃ batch ∈ world.acknowledged, CountedIn world.tables batch row
  offered : config.enabled = true → ∀ row ∈ world.tables.rows, row.capability ∈ config.capabilities →
    row.effectiveAt < hotCutoff config world.now → ∀ uploads,
    FitUploads config (streamKey row.capability) world uploads →
    world.tables.rows.countP (waitsFor row) ≤ uploads.length →
    ∃ batch ∈ (uploads.foldl (archiveRound config (streamKey row.capability)) world).offered, row ∈ batch.rows

/-- **No row disappears unarchived**, and every row that has grown old is handed out, where every row comes in ahead
    of the cursor of its stream. -/
theorem archive_keeps_rows {now : ℤ} (hrun : ArchiveRun config InsertsAhead { now := now } world) :
    RowsKept config world :=
  have hsound := archiveSound_run hrun
  ⟨hsound.kept, fun henabled _ hrow hallowed hold uploads hfit hmany =>
    offered_of_rounds hsound henabled hrow hallowed hold uploads hfit hmany⟩

/-! ## A row behind the cursor -/

def barConfig : RawOverflowConfig where
  enabled := true
  capabilities := [['b']]
  batchRows_pos := Nat.le_add_right 1 499
  batchRows_le := Nat.le_add_right 500 1500

def barRow (observationId : ℕ) (effectiveAt : ℤ) : RawObservation Unit := ⟨observationId, ['b'], effectiveAt, ()⟩

def barUpload (batchId : ℕ) : Upload where
  hotUsed := 10
  hotBudget := 10
  batchId := batchId
  compressedBytes := some 1
  sha256 := List.replicate 64 'a'

def barBatch (before : Option Offset) (row : RawObservation Unit) : OfferedBatch Unit :=
  ⟨streamKey ['b'], ['b'], before, [row]⟩

def readBarStream : ArchiveOp Unit := .read (streamKey ['b']) none 10 10

def acknowledgeBar (before : Option Offset) (row : RawObservation Unit) : ArchiveOp Unit :=
  .acknowledge (barBatch before row) ((barUpload row.observationId).ack (barBatch before row))

/-- A bar is archived, and then a later one. -/
def barsInOrder : List (ArchiveOp Unit) :=
  [.insert (barRow 1 100), readBarStream, acknowledgeBar none (barRow 1 100), .insert (barRow 3 200), readBarStream,
    acknowledgeBar (some (barRow 1 100).offset) (barRow 3 200)]

/-- The same with a bar in between that lies behind the cursor. -/
def barBehind : List (ArchiveOp Unit) :=
  [.insert (barRow 1 100), readBarStream, acknowledgeBar none (barRow 1 100), .insert (barRow 2 50), .insert (barRow 3 200),
    readBarStream, acknowledgeBar (some (barRow 1 100).offset) (barRow 3 200)]

def barStart : ArchiveWorld Unit := { now := 200000000000 }

theorem acknowledges_upload (batch : OfferedBatch ρ) : Acknowledges batch (upload.ack batch) :=
  ⟨rfl, rfl, rfl, rfl, rfl⟩

theorem archive_keeps_rows_in_order :
    RowsKept barConfig (Driven.afterwards (archiveStep barConfig) barsInOrder barStart) := by
  refine archive_keeps_rows (Driven.run_afterwards barsInOrder barStart ?_)
  have hcursor : streamCursor (streamKey ['b']) (Driven.afterwards (archiveStep barConfig) (barsInOrder.take 3)
      barStart).tables = some (barRow 1 100).offset := by
    decide +kernel
  refine ⟨⟨trivial, nofun⟩, ⟨trivial, trivial⟩, ⟨⟨?_, acknowledges_upload _ _⟩, trivial⟩, ⟨trivial, ?_⟩,
    ⟨trivial, trivial⟩, ⟨⟨?_, acknowledges_upload _ _⟩, trivial⟩, trivial⟩
  · decide +kernel
  · intro place hplace
    obtain rfl := Option.some.inj (hcursor.symm.trans hplace)
    decide +kernel
  · decide +kernel

/-- The row behind the cursor is deleted, and no batch ever had it. -/
theorem row_behind_is_deleted : ∃ world, ArchiveRun barConfig (fun _ _ => True) barStart world ∧
    ∃ row ∈ world.inserted, row ∉ world.tables.rows ∧ ∀ batch ∈ world.offered, row ∉ batch.rows := by
  refine ⟨Driven.afterwards (archiveStep barConfig) barBehind barStart, Driven.run_afterwards barBehind barStart ?_,
    barRow 2 50, by decide +kernel, by decide +kernel, by decide +kernel⟩
  refine ⟨⟨trivial, trivial⟩, ⟨trivial, trivial⟩, ⟨⟨?_, acknowledges_upload _ _⟩, trivial⟩, ⟨trivial, trivial⟩,
    ⟨trivial, trivial⟩, ⟨trivial, trivial⟩, ⟨⟨?_, acknowledges_upload _ _⟩, trivial⟩, trivial⟩
  · decide +kernel
  · decide +kernel

end TradingHarness
