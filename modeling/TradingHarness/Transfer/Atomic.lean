import TradingHarness.Transfer.Import

set_option autoImplicit false

/-! # What an import that raises leaves behind

A line that fails rolls the transaction back. A stream that ends without its checkpoint, or without its
metadata, is refused behind the commit, so its records stay. -/

namespace TradingHarness

open JsonText (Value)

variable (importer : Importer) (now : ℤ)

/-! ## Complete streams -/

def kindOfLine (line : List Char) : Option LineKind :=
  if importer.strip line = [] then none
  else
    match parseItem line with
    | .ok item => kindOf item
    | .error _ => none

variable (tables : Tables) (lines : List (List Char))

/-- The kinds of the lines, in order. -/
def kindsOf : List LineKind := lines.filterMap (kindOfLine importer)

/-- The metadata first, then the records, and the checkpoint last. -/
def Ordered (kinds : List LineKind) : Prop :=
  ∃ records checkpoints : ℕ, kinds =
    .metadata :: (List.replicate records .record ++ List.replicate (checkpoints + 1) .checkpoint)

/-- Validation fails at one of the lines. -/
def Fails : Prop :=
  ∃ before line after state error, lines = before ++ line :: after ∧
    before.foldlM (importLine importer now) { tables := tables } = .ok state ∧
    importLine importer now state line = .error error

/-- A stream that is neither truncated nor reordered, with no line that fails. -/
def Complete : Prop :=
  Ordered (kindsOf importer lines) ∧ ¬ Fails importer now tables lines

/-- The import raises and leaves the tables and the cursor as they were. -/
def Refused (target : Target) (lines : List (List Char)) : Prop :=
  (∃ error, (importJsonl importer now target lines).1 = .error error) ∧
    (importJsonl importer now target lines).2 = target

/-! ## The records of a stream -/

def recordOf (item : Columns) : Option (TransferTable × Columns) :=
  match tableNamed (String.ofList (importer.host.text (orElse (item.lookup "table".toList) (.str [])))),
      item.lookup "row".toList with
  | some table, some (.obj row) => some (table, row)
  | _, _ => none

def recordOfLine (line : List Char) : Option (TransferTable × Columns) :=
  if kindOfLine importer line = some .record then
    match parseItem line with
    | .ok item => recordOf importer item
    | .error _ => none
  else none

def applyRecord (record : TransferTable × Columns) : Tables :=
  Function.update tables record.1.name (upsert importer record.1 (tables record.1.name) record.2)

/-- The tables with the records of the lines. -/
def withRecords : Tables :=
  (lines.filterMap (recordOfLine importer)).foldl (applyRecord importer) tables

/-! ## One line -/

theorem importMetadata_ok {state next : ImportState} {item : Columns}
    (h : importMetadata importer now state item = .ok next) :
    next.metadataSeen = true ∧ next.checkpoint = state.checkpoint ∧ next.tables = state.tables := by
  unfold importMetadata at h
  dsimp only at h
  split at h
  · exact absurd h (by simp)
  · obtain ⟨remoteSequence, -, h⟩ := Runs.bind_eq_ok h
    obtain ⟨latest, -, h⟩ := Runs.bind_eq_ok h
    rw [← Except.ok.inj h]
    exact ⟨rfl, rfl, rfl⟩

theorem importCheckpoint_ok {state next : ImportState} {item : Columns}
    (h : importCheckpoint importer now state item = .ok next) :
    next.metadataSeen = state.metadataSeen ∧ next.checkpoint ≠ [] ∧ next.tables = state.tables := by
  unfold importCheckpoint at h
  obtain ⟨checkpoint, -, h⟩ := Runs.bind_eq_ok h
  obtain ⟨sequence, -, h⟩ := Runs.bind_eq_ok h
  obtain ⟨remoteSequence, -, h⟩ := Runs.bind_eq_ok h
  obtain ⟨latest, -, h⟩ := Runs.bind_eq_ok h
  rw [← Except.ok.inj h]
  exact ⟨rfl, importer.isoformat_ne_nil checkpoint, rfl⟩

theorem importRecord_ok {state next : ImportState} {item : Columns}
    (h : importRecord importer state item = .ok next) :
    ∃ record, recordOf importer item = some record ∧ validColumns record.1 record.2 = true ∧
      next.metadataSeen = state.metadataSeen ∧ next.checkpoint = state.checkpoint ∧
      next.tables = applyRecord importer state.tables record := by
  unfold importRecord at h
  split at h
  · exact absurd h (by simp)
  · split at h
    next table row htable hrow =>
      split at h
      · exact absurd h (by simp)
      next hvalid =>
        split at h
        · exact absurd h (by simp)
        · rw [← Except.ok.inj h]
          refine ⟨(table, row), ?_, by simpa using hvalid, rfl, rfl, rfl⟩
          unfold recordOf
          rw [htable, hrow]
    next => exact absurd h (by simp)

/-- What the variables say of the lines that have passed. -/
structure Follows (tables : Tables) (lines : List (List Char)) (state : ImportState) : Prop where
  metadata : state.metadataSeen = true ↔ LineKind.metadata ∈ kindsOf importer lines
  checkpoint : state.checkpoint = [] ↔ LineKind.checkpoint ∉ kindsOf importer lines
  tables : state.tables = withRecords importer tables lines
  valid : ∀ record ∈ lines.filterMap (recordOfLine importer), validColumns record.1 record.2 = true

variable (tables : Tables) (lines : List (List Char)) (line : List Char) (record : TransferTable × Columns)

theorem kindsOf_concat :
    kindsOf importer (lines ++ [line]) = kindsOf importer lines ++ (kindOfLine importer line).toList := by
  unfold kindsOf
  rw [List.filterMap_append]
  rcases hkind : kindOfLine importer line with _ | kind
  · rw [List.filterMap_cons_none hkind, List.filterMap_nil, Option.toList_none]
  · rw [List.filterMap_cons_some hkind, List.filterMap_nil, Option.toList_some]

theorem records_concat_none (h : recordOfLine importer line = none) :
    (lines ++ [line]).filterMap (recordOfLine importer) = lines.filterMap (recordOfLine importer) := by
  rw [List.filterMap_append, List.filterMap_cons_none h, List.filterMap_nil, List.append_nil]

theorem records_concat_some (h : recordOfLine importer line = some record) :
    (lines ++ [line]).filterMap (recordOfLine importer)
      = lines.filterMap (recordOfLine importer) ++ [record] := by
  rw [List.filterMap_append, List.filterMap_cons_some h, List.filterMap_nil]

theorem withRecords_concat_none (h : recordOfLine importer line = none) :
    withRecords importer tables (lines ++ [line]) = withRecords importer tables lines := by
  unfold withRecords
  rw [records_concat_none importer lines line h]

theorem withRecords_concat_some (h : recordOfLine importer line = some record) :
    withRecords importer tables (lines ++ [line])
      = applyRecord importer (withRecords importer tables lines) record := by
  unfold withRecords
  rw [records_concat_some importer lines line record h, List.foldl_append, List.foldl_cons,
    List.foldl_nil]

theorem importLine_follows {tables : Tables} {lines : List (List Char)} {state next : ImportState}
    {line : List Char} (hfollows : Follows importer tables lines state)
    (h : importLine importer now state line = .ok next) :
    Follows importer tables (lines ++ [line]) next := by
  unfold importLine at h
  by_cases hblank : importer.strip line = []
  · rw [if_pos hblank] at h
    obtain rfl := Except.ok.inj h
    have hkind : kindOfLine importer line = none := if_pos hblank
    have hrecord : recordOfLine importer line = none := if_neg (by rw [hkind]; simp)
    refine ⟨?_, ?_, ?_, by rw [records_concat_none importer lines line hrecord]; exact hfollows.valid⟩
    · rw [kindsOf_concat, hkind, Option.toList_none, List.append_nil, hfollows.metadata]
    · rw [kindsOf_concat, hkind, Option.toList_none, List.append_nil, hfollows.checkpoint]
    · rw [withRecords_concat_none importer tables lines line hrecord, hfollows.tables]
  · rw [if_neg hblank] at h
    obtain ⟨item, hitem, h⟩ := Runs.bind_eq_ok h
    have hkindOf : kindOfLine importer line = kindOf item := by
      unfold kindOfLine
      rw [if_neg hblank, hitem]
    unfold importItem at h
    rcases hkind : kindOf item with _ | kind
    · rw [hkind] at h
      exact absurd h (by simp)
    · rw [hkind] at h hkindOf
      have hkinds : kindsOf importer (lines ++ [line]) = kindsOf importer lines ++ [kind] := by
        rw [kindsOf_concat, hkindOf, Option.toList_some]
      cases kind with
      | metadata =>
          obtain ⟨hseen, hcheckpoint, htables⟩ := importMetadata_ok importer now h
          have hrecord : recordOfLine importer line = none := if_neg (by rw [hkindOf]; simp)
          refine ⟨?_, ?_, ?_, by rw [records_concat_none importer lines line hrecord]; exact hfollows.valid⟩
          · simp [hkinds, hseen]
          · simp [hkinds, hcheckpoint, hfollows.checkpoint]
          · rw [withRecords_concat_none importer tables lines line hrecord, htables, hfollows.tables]
      | checkpoint =>
          obtain ⟨hseen, hcheckpoint, htables⟩ := importCheckpoint_ok importer now h
          have hrecord : recordOfLine importer line = none := if_neg (by rw [hkindOf]; simp)
          refine ⟨?_, ?_, ?_, by rw [records_concat_none importer lines line hrecord]; exact hfollows.valid⟩
          · simp [hkinds, hseen, hfollows.metadata]
          · simp [hkinds, hcheckpoint]
          · rw [withRecords_concat_none importer tables lines line hrecord, htables, hfollows.tables]
      | record =>
          obtain ⟨record, hrecord, hvalid, hseen, hcheckpoint, htables⟩ := importRecord_ok importer h
          have hline : recordOfLine importer line = some record := by
            unfold recordOfLine
            rw [if_pos hkindOf, hitem]
            exact hrecord
          refine ⟨?_, ?_, ?_, ?_⟩
          · simp [hkinds, hseen, hfollows.metadata]
          · simp [hkinds, hcheckpoint, hfollows.checkpoint]
          · rw [withRecords_concat_some importer tables lines line record hline, htables, hfollows.tables]
          · intro other hother
            rw [records_concat_some importer lines line record hline, List.mem_append] at hother
            rcases hother with hother | hother
            · exact hfollows.valid other hother
            · rw [List.mem_singleton.mp hother]
              exact hvalid

/-! ## The whole stream -/

theorem follows_of_ok {tables : Tables} {lines : List (List Char)} {state : ImportState}
    (h : lines.foldlM (importLine importer now) { tables := tables } = .ok state) :
    Follows importer tables lines state := by
  have hends := Runs.ends_foldlM (importLine importer now) (fun _ => True) (Follows importer tables) lines
    { tables := tables } ⟨by simp [kindsOf], by simp [kindsOf], rfl, by simp⟩ ?_
  · rw [h] at hends
    exact hends
  · intro seen line rest state' _ hfollows
    rcases hline : importLine importer now state' line with error | next
    · trivial
    · exact importLine_follows importer now hfollows hline

theorem fails_iff :
    Fails importer now tables lines ↔
      ∃ error, lines.foldlM (importLine importer now) { tables := tables } = .error error := by
  rw [Runs.foldlM_error_iff]
  rfl

/-- **A stream that is not complete is refused without a trace exactly where a line of it fails, or where its
    records change nothing and it lacks its metadata or its checkpoint.** -/
theorem import_atomic_iff (target : Target) (lines : List (List Char)) :
    (¬ Complete importer now target.tables lines → Refused importer now target lines) ↔
      Complete importer now target.tables lines ∨ Fails importer now target.tables lines ∨
        ((LineKind.metadata ∉ kindsOf importer lines ∨ LineKind.checkpoint ∉ kindsOf importer lines) ∧
          withRecords importer target.tables lines = target.tables) := by
  by_cases hcomplete : Complete importer now target.tables lines
  · exact ⟨fun _ => Or.inl hcomplete, fun _ h => absurd hcomplete h⟩
  · rcases hresult : lines.foldlM (importLine importer now) { tables := target.tables } with error | state
    · have hfails := (fails_iff importer now target.tables lines).mpr ⟨error, hresult⟩
      refine ⟨fun _ => Or.inr (Or.inl hfails), fun _ _ => ?_⟩
      unfold Refused importJsonl
      rw [hresult]
      exact ⟨⟨error, rfl⟩, rfl⟩
    · have hpasses : ¬ Fails importer now target.tables lines := by
        rw [fails_iff, hresult]
        rintro ⟨error, h⟩
        exact absurd h (by simp)
      have hfollows := follows_of_ok importer now hresult
      have hends : Refused importer now target lines ↔
          (LineKind.metadata ∉ kindsOf importer lines ∨ LineKind.checkpoint ∉ kindsOf importer lines) ∧
            withRecords importer target.tables lines = target.tables := by
        unfold Refused importJsonl
        rw [hresult, ← hfollows.metadata, ← hfollows.checkpoint, ← hfollows.tables]
        unfold finishImport
        dsimp only
        by_cases hend : !state.metadataSeen || state.checkpoint.isEmpty
        · rw [if_pos hend]
          have hlacks : ¬ state.metadataSeen = true ∨ state.checkpoint = [] := by simpa using hend
          constructor
          · rintro ⟨-, htarget⟩
            exact ⟨hlacks, congrArg Target.tables htarget⟩
          · rintro ⟨-, htables⟩
            refine ⟨⟨_, rfl⟩, ?_⟩
            rw [htables]
        · rw [if_neg hend]
          constructor
          · rintro ⟨⟨error, h⟩, -⟩
            exact absurd h (by simp)
          · rintro ⟨hlacks, -⟩
            exact absurd (by simpa using hlacks) hend
      rw [hends]
      constructor
      · exact fun h => Or.inr (Or.inr (h hcomplete))
      · rintro (h | h | h)
        · exact absurd h hcomplete
        · exact absurd h hpasses
        · exact fun _ => h

/-! ## A truncated stream -/

/-- An importer whose clock stands still, for columns without defaults. -/
def plainImporter : Importer where
  host := {
    sha256 := fun _ => List.replicate 64 '0'
    sha256_hex := fun _ => ⟨List.length_replicate, by decide⟩
    str := fun _ => ['s']
    str_unbroken := fun _ => rfl
    isalnum := Char.isAlphanum
    isspace := Char.isWhitespace }
  isspace_digit := by
    intro char hdigit
    by_contra hspace
    have hcases : char = ' ' ∨ char = '\t' ∨ char = '\r' ∨ char = '\n' := by
      simp [Char.isWhitespace] at hspace
      tauto
    rcases hcases with rfl | rfl | rfl | rfl <;> exact absurd hdigit (by decide)
  int := fun value =>
    if JsonText.dumps value = ['1'] then some 1
    else if JsonText.dumps value = ['2'] then some 2
    else none
  fromisoformat := fun _ => some (some 0)
  isoformat := fun _ => ['t']
  isoformat_ne_nil := by simp
  defaults := fun _ => []
  rejects := fun _ _ _ => false

/-- The metadata and one record, without a checkpoint. -/
def truncatedStream : List (List Char) :=
  ["\x7b\"kind\":\"metadata\",\"version\":1\x7d".toList,
    "\x7b\"kind\":\"record\",\"table\":\"intraday_scan_runs\",\"row\":\x7b\"scan_id\":\"a\"\x7d\x7d".toList]

def emptyTarget : Target where
  tables := fun _ => []
  cursor := none

/-- The record is committed before the import raises. -/
theorem truncated_stream_is_applied :
    ¬ (¬ Complete plainImporter 0 emptyTarget.tables truncatedStream →
      Refused plainImporter 0 emptyTarget truncatedStream) := by
  intro h
  have hkinds : kindsOf plainImporter truncatedStream = [.metadata, .record] := by
    decide +kernel
  have hincomplete : ¬ Complete plainImporter 0 emptyTarget.tables truncatedStream := by
    rintro ⟨⟨records, checkpoints, hordered⟩, -⟩
    rw [hkinds] at hordered
    have hmem : LineKind.checkpoint ∈ [LineKind.metadata, LineKind.record] := by
      rw [hordered]
      simp
    exact absurd hmem (by decide)
  have hrow : ((importJsonl plainImporter 0 emptyTarget truncatedStream).2.tables
      "intraday_scan_runs").length = 1 := by
    decide +kernel
  rw [(h hincomplete).2] at hrow
  exact absurd hrow (by decide)

end TradingHarness
