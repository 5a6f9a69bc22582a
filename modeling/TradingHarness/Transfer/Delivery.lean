import TradingHarness.Transfer.Atomic

set_option autoImplicit false

/-! # A page and its import

The lines of a page, what their import leaves in the tables, and which row of a key is there afterwards. -/

namespace TradingHarness

open JsonText (Value canonical)

variable (importer : Importer) (now : ℤ)

/-! ## The lines of a page -/

/-- What a page says besides its rows. -/
structure Report where
  checkpoint : List Char
  remoteLatestChangedAt : Value
  edgeRuntime : Columns
  recordKey : Change → Value

def field (key : String) (value : Value) : List Char × Value := (key.toList, value)

def textValue (text : String) : Value := .str text.toList

def number (value : ℕ) : Value := .word (Nat.toDigits 10 value)

variable (report : Report) (batch : Batch)

def metadataItem : Columns :=
  [field "kind" (textValue "metadata"), field "version" (.word ['2']), field "mode" (textValue "change_journal"),
    field "requested_after_sequence" (number batch.requestedAfter),
    field "replay_from_sequence" (number (replayFrom batch.requestedAfter)),
    field "remote_sequence" (number batch.remoteSequence),
    field "remote_latest_changed_at" report.remoteLatestChangedAt,
    field "checkpoint" (.str report.checkpoint), field "scope" (textValue "research_evidence_only"),
    field "edge_runtime" (.obj report.edgeRuntime)]

def recordItem (change : Change) : Columns :=
  [field "kind" (textValue "record"), field "table" (textValue change.table), field "row" (.obj change.row),
    field "sequence_id" (number change.sequence), field "record_key" (report.recordKey change)]

def batchCounts : Columns :=
  transferTables.map (fun table =>
    field table.name (number (batch.rows.filter (fun change => change.table == table.name)).length))

def checkpointItem : Columns :=
  [field "kind" (textValue "checkpoint"), field "version" (.word ['2']),
    field "value" (.str report.checkpoint), field "sequence" (number batch.nextSequence),
    field "counts" (.obj (batchCounts batch)), field "remote_sequence" (number batch.remoteSequence),
    field "remote_latest_changed_at" report.remoteLatestChangedAt,
    field "has_more" (.word (if batch.hasMore then "true" else "false").toList)]

/-- What `export_changes` prints. -/
def batchItems : List Columns :=
  metadataItem report batch :: batch.rows.map (recordItem report) ++ [checkpointItem report batch]

/-- A line that `json.loads` reads as the object that was printed. -/
def Carries (line : List Char) (item : Columns) : Prop :=
  importer.strip line ≠ [] ∧ parseItem line = .ok item

/-! ## Numbers -/

theorem strip_digits (text : List Char) (h : text.all Char.isDigit = true) : importer.strip text = text := by
  have hspace : ∀ char ∈ text, importer.host.isspace char = false :=
    fun char hchar => importer.isspace_digit char (List.all_eq_true.mp h char hchar)
  have hdrop : text.dropWhile importer.host.isspace = text := by
    rcases text with _ | ⟨char, rest⟩
    · rfl
    · rw [List.dropWhile_cons_of_neg (by rw [hspace char List.mem_cons_self]; exact Bool.false_ne_true)]
  unfold Importer.strip
  rw [hdrop, List.rdropWhile_eq_self_iff]
  intro hne
  rw [hspace _ (List.getLast_mem hne)]
  exact Bool.false_ne_true

section

variable (value : ℕ)

theorem digits_toDigits : (Nat.toDigits 10 value).all Char.isDigit = true :=
  List.all_eq_true.mpr (fun _ hchar => Nat.isDigit_of_mem_toDigits (by decide) (by decide) hchar)

theorem digits_ne_word (word : List Char) (h : word.all Char.isDigit = false) :
    Nat.toDigits 10 value ≠ word := by
  rintro rfl
  rw [digits_toDigits] at h
  exact Bool.false_ne_true h.symm

theorem truthy_number (h : 0 < value) : truthy (number value) = true := by
  obtain ⟨digit, rest, hdigits, hne⟩ := JsonText.toDigits_head value h
  have hdigit : digit.isDigit = true := by
    have hall := digits_toDigits value
    rw [hdigits, List.all_cons, Bool.and_eq_true] at hall
    exact hall.1
  have hother : ∀ char : Char, char.isDigit = false → digit ≠ char := by
    rintro char hchar rfl
    rw [hdigit] at hchar
    exact Bool.false_ne_true hchar.symm
  have hzero : isZero (Nat.toDigits 10 value) = false := by
    unfold isZero
    have hplain : (digit != 'e' && digit != 'E') = true := by
      rw [Bool.and_eq_true, bne_iff_ne, bne_iff_ne]
      exact ⟨hother 'e' (by decide), hother 'E' (by decide)⟩
    rw [hdigits, List.takeWhile_cons, if_pos hplain, List.all_cons, Bool.and_eq_false_iff]
    exact Or.inl (decide_eq_false (by simp [hother '-' (by decide), hother '.' (by decide), hne]))
  unfold number truthy
  dsimp only
  rw [beq_eq_false_iff_ne.mpr (digits_ne_word value "null".toList (by decide)),
    beq_eq_false_iff_ne.mpr (digits_ne_word value "false".toList (by decide)), hzero]
  rfl

theorem parseSequence_number : parseSequence importer (some (number value)) = .ok value := by
  have hdigits := digits_toDigits value
  have hne : Nat.toDigits 10 value ≠ [] := Nat.toDigits_ne_nil
  have hword : ∀ word : List Char, word.all Char.isDigit = false → Nat.toDigits 10 value ≠ word :=
    fun word => digits_ne_word value word
  have htext : importer.host.text (number value) = Nat.toDigits 10 value := by
    unfold number Host.text
    dsimp only
    rw [if_neg (hword "null".toList (by decide)), if_neg (hword "true".toList (by decide)),
      if_neg (hword "false".toList (by decide)), if_neg (hword "NaN".toList (by decide)),
      if_neg (hword "Infinity".toList (by decide)), if_neg (hword "-Infinity".toList (by decide))]
  have hnull : ¬ isNull (number value) = true := by
    unfold number isNull
    rw [beq_iff_eq]
    exact hword "null".toList (by decide)
  unfold parseSequence
  dsimp only
  rw [htext, strip_digits importer _ hdigits, if_neg hnull, if_neg hne, if_pos hdigits,
    Nat.ofDigitChars_toDigits (by omega) (by omega)]

end

theorem parseSequence_checkpoint :
    parseSequence importer (orKey (checkpointItem report batch) "sequence" "journal_sequence")
      = .ok batch.nextSequence := by
  have hfirst : (checkpointItem report batch).lookup "sequence".toList = some (number batch.nextSequence) := rfl
  have hsecond : (checkpointItem report batch).lookup "journal_sequence".toList = none := rfl
  unfold orKey
  rw [hfirst, hsecond]
  dsimp only
  by_cases hzero : truthy (number batch.nextSequence)
  · rw [if_pos hzero, parseSequence_number]
  · rw [if_neg hzero]
    have hnext : batch.nextSequence = 0 := by
      by_contra hne
      exact hzero (truthy_number _ (by omega))
    rw [hnext]
    rfl

/-! ## The import of a page -/

/-- The row of a change is set in its table. -/
def applyChange (tables : Tables) (change : Change) : Tables :=
  match tableNamed change.table with
  | some table => applyRecord importer tables (table, change.row)
  | none => tables

theorem kindOf_metadataItem : kindOf (metadataItem report batch) = some .metadata := rfl

theorem kindOf_recordItem (change : Change) : kindOf (recordItem report change) = some .record := rfl

theorem kindOf_checkpointItem : kindOf (checkpointItem report batch) = some .checkpoint := rfl

theorem kindOfLine_carries {line : List Char} {item : Columns} (h : Carries importer line item) :
    kindOfLine importer line = kindOf item := by
  unfold kindOfLine
  rw [if_neg h.1, h.2]

theorem importLine_carries {line : List Char} {item : Columns} (h : Carries importer line item)
    (state : ImportState) : importLine importer now state line = importItem importer now state item := by
  unfold importLine
  rw [if_neg h.1, h.2]
  rfl

theorem foldlM_carries {lines : List (List Char)} {items : List Columns}
    (h : List.Forall₂ (Carries importer) lines items) (state : ImportState) :
    lines.foldlM (importLine importer now) state = items.foldlM (importItem importer now) state := by
  induction h generalizing state with
  | nil => rfl
  | @cons line item lines items hline _ ih =>
      rw [List.foldlM_cons, List.foldlM_cons, importLine_carries importer now hline]
      rcases importItem importer now state item with error | next
      · rfl
      · exact ih next

theorem carries_dumps {item : Columns} (hvalue : JsonText.isValue (.obj item) = true)
    (hbrace : importer.host.isspace '\x7b' = false) : Carries importer (JsonText.dumps (.obj item)) item := by
  constructor
  · intro hempty
    have hdumps : ∃ rest, JsonText.dumps (.obj item) = '\x7b' :: rest := by
      rw [JsonText.dumps]
      exact ⟨_, rfl⟩
    obtain ⟨rest, hrest⟩ := hdumps
    unfold Importer.strip at hempty
    rw [hrest, List.dropWhile_cons_of_neg (by rw [hbrace]; exact Bool.false_ne_true),
      List.rdropWhile_eq_nil_iff] at hempty
    rw [hempty _ List.mem_cons_self] at hbrace
    exact absurd hbrace (by simp)
  · unfold parseItem
    rw [JsonText.loads_dumps _ hvalue]

theorem recordOf_recordItem (change : Change) :
    recordOf importer (recordItem report change)
      = (tableNamed change.table).map (fun table => (table, change.row)) := by
  have htable : (recordItem report change).lookup "table".toList = some (textValue change.table) := rfl
  have hrow : (recordItem report change).lookup "row".toList = some (.obj change.row) := rfl
  have hname : importer.host.text (orElse (some (textValue change.table)) (.str []))
      = change.table.toList := by
    unfold orElse
    dsimp only
    split
    · rfl
    next hempty =>
      have hnil : change.table.toList = [] := by simpa [textValue, truthy] using hempty
      rw [hnil]
      rfl
  unfold recordOf
  rw [htable, hrow, hname, String.ofList_toList]
  rcases tableNamed change.table with _ | table
  · rfl
  · rfl

theorem recordOfLine_carries {line : List Char} {change : Change}
    (h : Carries importer line (recordItem report change)) :
    recordOfLine importer line = (tableNamed change.table).map (fun table => (table, change.row)) := by
  unfold recordOfLine
  rw [kindOfLine_carries importer h, kindOf_recordItem, if_pos rfl, h.2]
  exact recordOf_recordItem importer report change

theorem recordOfLine_other {line : List Char} {item : Columns} (h : Carries importer line item)
    (hkind : kindOf item ≠ some .record) : recordOfLine importer line = none := by
  unfold recordOfLine
  rw [kindOfLine_carries importer h, if_neg hkind]

theorem withRecords_rows (tables : Tables) {lines : List (List Char)} {rows : List Change}
    (h : List.Forall₂ (Carries importer) lines (rows.map (recordItem report))) :
    withRecords importer tables lines = rows.foldl (applyChange importer) tables := by
  rw [List.forall₂_map_right_iff] at h
  induction h generalizing tables with
  | nil => rfl
  | @cons line change lines rows hline _ ih =>
      have hrecord := recordOfLine_carries importer report hline
      unfold withRecords at ih ⊢
      rw [List.foldl_cons, ← ih]
      unfold applyChange
      rcases htable : tableNamed change.table with _ | table
      · rw [htable, Option.map_none] at hrecord
        rw [List.filterMap_cons_none hrecord]
      · rw [htable, Option.map_some] at hrecord
        rw [List.filterMap_cons_some hrecord, List.foldl_cons]

theorem batchLines_split {lines : List (List Char)}
    (h : List.Forall₂ (Carries importer) lines (batchItems report batch)) :
    ∃ first rows last, lines = first :: rows ++ [last] ∧ Carries importer first (metadataItem report batch) ∧
      List.Forall₂ (Carries importer) rows (batch.rows.map (recordItem report)) ∧
      Carries importer last (checkpointItem report batch) := by
  unfold batchItems at h
  obtain ⟨first, lines, hfirst, hrest, rfl⟩ := List.forall₂_cons_right_iff.mp h
  obtain ⟨rows, lasts, hrows, hlasts, rfl⟩ : ∃ rows lasts,
      List.Forall₂ (Carries importer) rows (batch.rows.map (recordItem report)) ∧
        List.Forall₂ (Carries importer) lasts [checkpointItem report batch] ∧ lines = rows ++ lasts :=
    ⟨_, _, List.forall₂_take_append _ _ _ hrest, List.forall₂_drop_append _ _ _ hrest,
      (List.take_append_drop _ _).symm⟩
  obtain ⟨last, others, hlast, hothers, rfl⟩ := List.forall₂_cons_right_iff.mp hlasts
  obtain rfl := List.forall₂_nil_right_iff.mp hothers
  exact ⟨first, rows, last, rfl, hfirst, hrows, hlast⟩

theorem importCheckpoint_sequence {state next : ImportState}
    (h : importCheckpoint importer now state (checkpointItem report batch) = .ok next) :
    next.sequence = batch.nextSequence := by
  unfold importCheckpoint at h
  obtain ⟨checkpoint, -, h⟩ := Runs.bind_eq_ok h
  obtain ⟨sequence, hsequence, h⟩ := Runs.bind_eq_ok h
  obtain ⟨remoteSequence, -, h⟩ := Runs.bind_eq_ok h
  obtain ⟨latest, -, h⟩ := Runs.bind_eq_ok h
  rw [parseSequence_checkpoint] at hsequence
  rw [← Except.ok.inj h]
  exact (Except.ok.inj hsequence).symm

/-- An import of a page that succeeds sets its rows in their order and moves the cursor to its end. -/
theorem import_batch {target next : Target} {cursor : Cursor} {lines : List (List Char)}
    (hlines : List.Forall₂ (Carries importer) lines (batchItems report batch))
    (h : importJsonl importer now target lines = (.ok cursor, next)) :
    next.tables = batch.rows.foldl (applyChange importer) target.tables ∧ next.cursor = some cursor ∧
      cursor.sequence = batch.nextSequence ∧
      ∀ change ∈ batch.rows, ∀ table, tableNamed change.table = some table →
        validColumns table change.row = true := by
  unfold importJsonl at h
  rcases hresult : lines.foldlM (importLine importer now) { tables := target.tables } with error | state
  · rw [hresult] at h
    exact absurd (congrArg Prod.fst h) (by simp [finishImport])
  rw [hresult] at h
  unfold finishImport at h
  dsimp only at h
  split at h
  · exact absurd (congrArg Prod.fst h) (by simp)
  obtain ⟨hcursor, hnext⟩ := Prod.mk.inj h
  have hfollows := follows_of_ok importer now hresult
  obtain ⟨first, rows, last, rfl, hfirst, hrows, hlast⟩ := batchLines_split importer report batch hlines
  have hrecords : ((first :: rows) ++ [last]).filterMap (recordOfLine importer)
      = rows.filterMap (recordOfLine importer) := by
    rw [records_concat_none importer _ _ (recordOfLine_other importer hlast (by
        rw [kindOf_checkpointItem]; simp)),
      List.filterMap_cons_none (recordOfLine_other importer hfirst (by rw [kindOf_metadataItem]; simp))]
  refine ⟨?_, ?_, ?_, ?_⟩
  · rw [← hnext, hfollows.tables, ← withRecords_rows importer report target.tables hrows]
    unfold withRecords
    rw [hrecords]
  · rw [← hnext, Except.ok.inj hcursor]
  · rw [List.foldlM_append] at hresult
    obtain ⟨before, -, hresult⟩ := Runs.bind_eq_ok hresult
    rw [List.foldlM_cons] at hresult
    obtain ⟨after, hafter, hresult⟩ := Runs.bind_eq_ok hresult
    obtain rfl := Except.ok.inj hresult
    rw [importLine_carries importer now hlast] at hafter
    unfold importItem at hafter
    rw [kindOf_checkpointItem] at hafter
    rw [← Except.ok.inj hcursor]
    exact importCheckpoint_sequence importer now report batch hafter
  · intro change hchange table htable
    rw [List.forall₂_map_right_iff] at hrows
    obtain ⟨line, hline, hcarries⟩ := Runs.exists_of_forall₂ hrows hchange
    have hrecord := recordOfLine_carries importer report hcarries
    rw [htable, Option.map_some] at hrecord
    refine hfollows.valid (table, change.row) ?_
    rw [hrecords]
    exact List.mem_filterMap.mpr ⟨line, hline, hrecord⟩

end TradingHarness
