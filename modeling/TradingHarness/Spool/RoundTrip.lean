import TradingHarness.Library.Runs
import TradingHarness.Spool.Segment

set_option autoImplicit false

/-! # Segments are read back

A sealed segment is read back as the observations that were written to it, unless the text of one of them
has a character that ends a line and that JSON does not escape. -/

namespace TradingHarness

open JsonText (Value canonical isValue sortKeys)
open JsonLines (isSeparator lineOf parseLines Whole)
open Lines (isBreak readText splitLines)

variable {host : Host}

/-! ## Records -/

/-- The record of an observation. -/
def Evidence.value (evidence : Evidence host) : Value := recordValue evidence.fields evidence.digest

variable (evidence : Evidence host)

theorem Evidence.isValue_fields : isValue (.obj evidence.fields) = true :=
  JsonText.isValue_of_wellFormed _ evidence.wellFormed

variable (moment : Moment) (segmentId : List Char) (fields : List (List Char × Value))

theorem isValue_obj_iff :
    isValue (.obj fields) = true ↔
      (∀ field ∈ fields, isValue field.2 = true) ∧ (fields.map Prod.fst).Nodup := by
  rw [isValue, Bool.and_eq_true, JsonText.isFields_iff, decide_eq_true_iff]

theorem isValue_str (text : List Char) : isValue (.str text) = true := by
  rw [isValue]

theorem Evidence.isValue_value : isValue evidence.value = true := by
  unfold Evidence.value recordValue
  rw [isValue_obj_iff]
  constructor
  · simp only [List.forall_mem_cons, List.not_mem_nil, false_imp_iff, implies_true, and_true]
    exact ⟨isValue_str _, isValue_str _, evidence.isValue_fields⟩
  · simp only [List.map_cons, List.map_nil]
    decide

theorem sha256_narrow (text : List Char) (char : Char) (h : 128 ≤ char.toNat) :
    char ∉ host.sha256 text := by
  intro hmem
  have hdigits : "0123456789abcdef".toList.all (fun other => decide (other.toNat < 128)) = true := by decide
  have hdigit := List.all_eq_true.mp (host.sha256_hex text).2 char hmem
  unfold isHexDigit at hdigit
  have hlt := of_decide_eq_true (List.all_eq_true.mp hdigits char (of_decide_eq_true hdigit))
  omega

theorem whole_digest (text : List Char) : Whole (.str (host.sha256 text)) := by
  rw [JsonLines.whole_str]
  intro char hchar
  rcases hsep : isSeparator char with _ | _
  · rfl
  · exact absurd hchar (sha256_narrow text char (JsonLines.isSeparator_wide char hsep))

theorem Evidence.whole_iff :
    Whole evidence.value ↔ Whole (.obj evidence.fields) := by
  have htype : Whole (.str "record".toList) := (JsonLines.whole_str _).mpr (JsonLines.unbroken _ (by decide))
  have hid : Whole (.str evidence.digest) := whole_digest _
  unfold Evidence.value recordValue
  rw [JsonLines.whole_obj _ (by simp only [List.map_cons, List.map_nil]; decide)]
  simp only [List.forall_mem_cons, List.not_mem_nil, false_imp_iff, implies_true, and_true, htype, hid,
    true_and]

/-! ## Headers -/

theorem isValue_fieldOf (key : String)
    (h : isValue (.obj fields) = true) : isValue (fieldOf fields key) = true := by
  unfold fieldOf
  rcases hlookup : fields.lookup key.toList with _ | value
  · decide
  · exact ((isValue_obj_iff fields).mp h).1 _ (Dict.mem_of_lookup fields _ value hlookup)

theorem whole_fieldOf (key : String) (h : Whole (.obj fields)) :
    Whole (fieldOf fields key) := by
  unfold fieldOf
  rcases hlookup : fields.lookup key.toList with _ | value
  · exact JsonLines.whole_word _ (by decide)
  · rw [JsonLines.whole_iff] at h ⊢
    intro char hsep hmem
    exact h char hsep ((JsonText.mem_canonical_obj char (JsonLines.isSeparator_wide char hsep) fields).mpr
      ⟨_, Dict.mem_of_lookup fields _ value hlookup, Or.inr hmem⟩)

theorem text_whole (value : Value) (hvalue : isValue value = true) (h : Whole value) :
    ∀ char ∈ host.text value, isSeparator char = false := by
  cases value with
  | word text =>
      simp only [Host.text]
      split_ifs
      · exact JsonLines.unbroken _ (by decide)
      · exact JsonLines.unbroken _ (by decide)
      · exact JsonLines.unbroken _ (by decide)
      · exact JsonLines.unbroken _ (by decide)
      · exact JsonLines.unbroken _ (by decide)
      · exact JsonLines.unbroken _ (by decide)
      · rw [isValue] at hvalue
        intro char hchar
        rcases hsep : isSeparator char with _ | _
        · rfl
        · exact absurd hchar (JsonText.not_mem_word char (JsonLines.isSeparator_wide char hsep) text hvalue)
  | str text => exact (JsonLines.whole_str text).mp h
  | arr items => exact JsonLines.unbroken _ (host.str_unbroken _)
  | obj fields => exact JsonLines.unbroken _ (host.str_unbroken _)

theorem tradeDate_whole (today : Stamp) (fields : List (List Char × Value))
    (hvalue : isValue (.obj fields) = true) (h : Whole (.obj fields)) :
    ∀ char ∈ tradeDate host today fields, isSeparator char = false := by
  have htext : ∀ char ∈ host.text (orElse (fields.lookup "effective_at".toList) (.str [])),
      isSeparator char = false := by
    have hraw := isValue_fieldOf fields "effective_at" hvalue
    have hwhole := whole_fieldOf fields "effective_at" h
    unfold fieldOf at hraw hwhole
    unfold orElse
    rcases hlookup : fields.lookup "effective_at".toList with _ | value
    · intro char hchar
      exact absurd hchar List.not_mem_nil
    · rw [hlookup] at hraw hwhole
      simp only
      split_ifs
      · exact text_whole value hraw hwhole
      · intro char hchar
        exact absurd hchar List.not_mem_nil
  unfold tradeDate
  dsimp only
  split_ifs
  · exact fun char hchar => htext char (List.mem_of_mem_take hchar)
  · exact JsonLines.unbroken _ today.property

theorem isValue_header (h : isValue (.obj fields) = true) :
    isValue (.obj (segmentHeader host moment segmentId fields)) = true := by
  unfold segmentHeader
  rw [isValue_obj_iff]
  constructor
  · simp only [List.forall_mem_cons, List.not_mem_nil, false_imp_iff, implies_true, and_true]
    exact ⟨isValue_str _, isValue_str _, isValue_str _, isValue_fieldOf fields _ h,
      isValue_fieldOf fields _ h, isValue_fieldOf fields _ h, isValue_str _, isValue_str _⟩
  · simp only [List.map_cons, List.map_nil]
    decide

theorem whole_header (hvalue : isValue (.obj fields) = true) (h : Whole (.obj fields)) :
    Whole (.obj (segmentHeader host moment (newSegmentId host moment fields) fields)) := by
  have hday : ∀ char ∈ tradeDate host moment.today fields, isSeparator char = false :=
    tradeDate_whole moment.today fields hvalue h
  have hid : ∀ char ∈ newSegmentId host moment fields, isSeparator char = false := by
    unfold newSegmentId
    intro char hchar
    rcases List.mem_append.mp hchar with hchar | hchar
    · exact hday char hchar
    · rcases List.mem_cons.mp hchar with rfl | hchar
      · decide
      · exact JsonLines.unbroken _ moment.uuid.property char hchar
  unfold segmentHeader
  rw [JsonLines.whole_obj _ (by simp only [List.map_cons, List.map_nil]; decide)]
  simp only [List.forall_mem_cons, List.not_mem_nil, false_imp_iff, implies_true, and_true,
    JsonLines.whole_str]
  exact ⟨JsonLines.unbroken _ (by decide), JsonLines.unbroken _ (by decide), hid, whole_fieldOf fields _ h, whole_fieldOf fields _ h,
    whole_fieldOf fields _ h, hday, JsonLines.unbroken _ moment.now.property⟩

/-! ## Sealing -/

def idValue (evidence : Option (Evidence host)) : Value :=
  match evidence with
  | some evidence => .str evidence.digest
  | none => nullWord

/-- The footer of the records. -/
def footerFields (records : List (Evidence host)) (count : ℕ) (closedAt : Stamp) : List (List Char × Value) :=
  [("type".toList, .str "footer".toList), ("row_count".toList, decimal count),
    ("first_record_id".toList, idValue records.head?), ("last_record_id".toList, idValue records.getLast?),
    ("content_sha256".toList, .str (contentHash host (records.map Evidence.value))),
    ("closed_at".toList, .str closedAt.val)]

/-- The text of an open segment. -/
def openText (header : List (List Char × Value)) (records : List (Evidence host)) : List Char :=
  (.obj header :: records.map Evidence.value).flatMap lineOf

theorem sortKeys_value : sortKeys evidence.value
    = .obj (sortedFields [("type".toList, .str "record".toList), ("record_id".toList, .str evidence.digest),
        ("observation".toList, .obj evidence.fields)]) := by
  unfold Evidence.value recordValue
  rw [sortKeys_obj]

theorem lookup_sortedFields (key : List Char)
    (h : (fields.map Prod.fst).Nodup) : (sortedFields fields).lookup key = (fields.lookup key).map sortKeys :=
  JsonText.lookup_sortKeys fields key h

theorem contentHash_sortKeys (values : List Value) (h : ∀ value ∈ values, isValue value = true) :
    contentHash host (values.map sortKeys) = contentHash host values := by
  unfold contentHash
  rw [List.flatMap_map]
  congr 1
  refine List.flatMap_congr (fun value hvalue => ?_)
  unfold lineOf
  rw [JsonText.canonical_sortKeys value (h value hvalue)]

/-- The fields of a record as it is read. -/
def recordFields (evidence : Evidence host) : List (List Char × Value) :=
  sortedFields [("type".toList, .str "record".toList), ("record_id".toList, .str evidence.digest),
    ("observation".toList, .obj evidence.fields)]

theorem recordFields_lookup :
    (recordFields evidence).lookup "record_id".toList = some (.str evidence.digest) ∧
      (recordFields evidence).lookup "observation".toList = some (.obj evidence.fields) := by
  unfold recordFields
  rw [lookup_sortedFields _ _ (by simp only [List.map_cons, List.map_nil]; decide),
    lookup_sortedFields _ _ (by simp only [List.map_cons, List.map_nil]; decide)]
  constructor
  · have hlookup : List.lookup "record_id".toList
        [("type".toList, Value.str "record".toList), ("record_id".toList, .str evidence.digest),
          ("observation".toList, .obj evidence.fields)] = some (.str evidence.digest) := rfl
    rw [hlookup, Option.map_some, sortKeys]
  · have hlookup : List.lookup "observation".toList
        [("type".toList, Value.str "record".toList), ("record_id".toList, .str evidence.digest),
          ("observation".toList, .obj evidence.fields)] = some (.obj evidence.fields) := rfl
    rw [hlookup, Option.map_some, JsonText.sortKeys_of_wellFormed _ evidence.wellFormed]

theorem recordIdOf_value :
    recordIdOf (some (sortKeys evidence.value)) = .ok (.str evidence.digest) := by
  rw [sortKeys_value]
  show Except.ok (fieldOf (recordFields evidence) "record_id") = _
  unfold fieldOf
  rw [(recordFields_lookup evidence).1]
  rfl

variable (name : String) (header : List (List Char × Value)) (records : List (Evidence host)) (count : ℕ)
  (closedAt : Stamp)

theorem sealFooter_whole (hvalue : isValue (.obj header) = true) (hheader : Whole (.obj header))
    (h : ∀ evidence ∈ records, Whole (.obj evidence.fields)) :
    sealFooter host name (some (openText header records)) count closedAt
      = .ok (.obj (footerFields records count closedAt)) := by
  have hvalues : ∀ value ∈ Value.obj header :: records.map Evidence.value, isValue value = true := by
    rw [List.forall_mem_cons, List.forall_mem_map]
    exact ⟨hvalue, fun evidence _ => evidence.isValue_value⟩
  have hwhole : ∀ value ∈ Value.obj header :: records.map Evidence.value, Whole value := by
    rw [List.forall_mem_cons, List.forall_mem_map]
    exact ⟨hheader, fun evidence hmem => evidence.whole_iff.mpr (h evidence hmem)⟩
  have hparse := JsonLines.parseLines_drop _ 1 hvalues hwhole
  rw [List.drop_succ_cons, List.drop_zero] at hparse
  have hid : ∀ record : Option (Evidence host),
      recordIdOf ((record.map Evidence.value).map sortKeys) = .ok (idValue record) := by
    intro record
    rcases record with _ | evidence
    · rfl
    · exact recordIdOf_value evidence
  unfold sealFooter openText
  rw [Option.bind_some, hparse]
  simp only [List.head?_map, List.getLast?_map, hid]
  unfold footerFields
  rw [contentHash_sortKeys _ (fun value hmem => hvalues value (List.mem_cons_of_mem _ hmem))]

theorem sealFooter_torn (hvalue : isValue (.obj header) = true) (evidence : Evidence host)
    (hmem : evidence ∈ records) (h : ¬ Whole (.obj evidence.fields)) :
    sealFooter host name (some (openText header records)) count closedAt
      = .error (.os ("cannot seal evidence segment " ++ name)) := by
  have hvalues : ∀ value ∈ records.map Evidence.value, isValue value = true := by
    rw [List.forall_mem_map]
    exact fun evidence _ => evidence.isValue_value
  have htorn : ¬ Whole evidence.value := fun hwhole => h (evidence.whole_iff.mp hwhole)
  have hparse := JsonLines.parseLines_torn (.obj header) (records.map Evidence.value) _ hvalue hvalues
    (List.mem_map_of_mem hmem) htorn
  unfold sealFooter openText
  rw [Option.bind_some, hparse]

/-! ## Reading -/

theorem isValue_decimal (number : ℕ) : isValue (decimal number) = true := by
  unfold decimal
  rw [isValue]
  exact JsonText.isWord_toDigits number

theorem isValue_footer :
    isValue (.obj (footerFields records count closedAt)) = true := by
  have hid : ∀ record : Option (Evidence host), isValue (idValue record) = true := by
    intro record
    rcases record with _ | evidence
    · show isValue nullWord = true
      decide
    · exact isValue_str _
  unfold footerFields
  rw [isValue_obj_iff]
  constructor
  · simp only [List.forall_mem_cons, List.not_mem_nil, false_imp_iff, implies_true, and_true]
    exact ⟨isValue_str _, isValue_decimal _, hid _, hid _, isValue_str _, isValue_str _⟩
  · simp only [List.map_cons, List.map_nil]
    decide

theorem whole_footer :
    Whole (.obj (footerFields records count closedAt)) := by
  have hid : ∀ record : Option (Evidence host), Whole (idValue record) := by
    intro record
    rcases record with _ | evidence
    · exact JsonLines.whole_word _ (by decide)
    · exact whole_digest _
  unfold footerFields
  rw [JsonLines.whole_obj _ (by simp only [List.map_cons, List.map_nil]; decide)]
  simp only [List.forall_mem_cons, List.not_mem_nil, false_imp_iff, implies_true, and_true]
  exact ⟨(JsonLines.whole_str _).mpr (JsonLines.unbroken _ (by decide)), JsonLines.whole_word _ (JsonText.isWord_toDigits count),
    hid _, hid _, whole_digest _, (JsonLines.whole_str _).mpr (JsonLines.unbroken _ closedAt.property)⟩

theorem Evidence.fields_ne_nil : evidence.fields ≠ [] := by
  intro h
  have hnormalised := evidence.normalised
  rw [h] at hnormalised
  unfold normaliseObservation at hnormalised
  dsimp only at hnormalised
  rw [if_pos (by decide)] at hnormalised
  exact absurd hnormalised (by simp)

theorem readRecord_value :
    readRecord host (sortKeys evidence.value) = .ok (evidence.envelope, evidence.digest) := by
  obtain ⟨hid, hobservation⟩ := recordFields_lookup evidence
  have htruthy : truthy (.obj evidence.fields) = true := by
    unfold truthy
    rw [Bool.not_eq_true', List.isEmpty_eq_false_iff]
    exact evidence.fields_ne_nil
  have hfields : observationFields ((recordFields evidence).lookup "observation".toList)
      = .ok evidence.fields := by
    rw [hobservation]
    unfold observationFields orElse
    simp only [if_pos htruthy]
  have htext : isText ((recordFields evidence).lookup "record_id".toList) evidence.digest = true := by
    rw [hid]
    unfold isText
    exact beq_self_eq_true _
  unfold readRecord
  rw [sortKeys_value]
  simp only [asObject, bind, Except.bind]
  unfold recordFields at hfields htext
  rw [hfields]
  simp only [evidence.envelope_eq, if_pos htext]

/-- What `read_segment` asks of a header. -/
structure IsHeader (header : List (List Char × Value)) : Prop where
  isValue : JsonText.isValue (.obj header) = true
  whole : Whole (.obj header)
  type : header.lookup "type".toList = some (.str "header".toList)
  schema : header.lookup "schema".toList = some (.str segmentSchema)

/-- The text of a sealed segment. -/
def sealedText (header : List (List Char × Value)) (records : List (Evidence host)) (count : ℕ)
    (closedAt : Stamp) : List Char :=
  openText header records ++ lineOf (Value.obj (footerFields records count closedAt))

theorem isText_sorted (key text : List Char)
    (hvalue : isValue (.obj fields) = true) (h : fields.lookup key = some (.str text)) :
    isText ((sortedFields fields).lookup key) text = true := by
  rw [lookup_sortedFields fields key ((isValue_obj_iff fields).mp hvalue).2, h, Option.map_some, sortKeys]
  unfold isText
  exact beq_self_eq_true text

/-- Reading lines whose header and footer are right. -/
theorem readSegment_lines (text : List Char) (header footer : List (List Char × Value))
    (records : List Value)
    (hparse : parseLines (splitLines (readText text)) = some (.obj header :: (records ++ [.obj footer])))
    (hne : records ≠ []) (htype : isText (header.lookup "type".toList) "header".toList = true)
    (hschema : isText (header.lookup "schema".toList) segmentSchema = true)
    (hfooter : isText (footer.lookup "type".toList) "footer".toList = true)
    (hcount : isNumber (footer.lookup "row_count".toList) records.length = true)
    (hcontent : isText (footer.lookup "content_sha256".toList) (contentHash host records) = true) :
    readSegment host name (some text) = records.mapM (readRecord host) := by
  have hlength : ¬ (Value.obj header :: (records ++ [.obj footer])).length < 3 := by
    have hpos := List.length_pos_iff.mpr hne
    rw [List.length_cons, List.length_append, List.length_singleton]
    omega
  have hrecords : ((Value.obj header :: (records ++ [.obj footer])).drop 1).dropLast = records := by
    rw [List.drop_succ_cons, List.drop_zero, List.dropLast_concat]
  have hlast : (Value.obj header :: (records ++ [.obj footer])).getLastD nullWord = .obj footer := by
    rw [← List.cons_append, List.getLastD_concat]
  unfold readSegment
  rw [Option.bind_some, hparse]
  simp only
  rw [if_neg hlength, hrecords, hlast, List.headD_cons]
  simp only [asObject, bind, Except.bind, htype, hschema, hfooter, hcount, hcontent, Bool.not_true,
    Bool.or_self, Bool.false_eq_true, if_false]

theorem readSegment_sealed (hheader : IsHeader header)
    (h : ∀ evidence ∈ records, Whole (.obj evidence.fields)) (hne : records ≠ []) :
    readSegment host name (some (sealedText header records records.length closedAt))
      = .ok (records.map (fun evidence => (evidence.envelope, evidence.digest))) := by
  have hvalues : ∀ value ∈ records.map Evidence.value, isValue value = true := by
    rw [List.forall_mem_map]
    exact fun evidence _ => evidence.isValue_value
  have hfooter := isValue_footer records records.length closedAt
  have hallValues : ∀ value ∈ Value.obj header :: (records.map Evidence.value
      ++ [Value.obj (footerFields records records.length closedAt)]), isValue value = true := by
    rw [List.forall_mem_cons, List.forall_mem_append, List.forall_mem_singleton]
    exact ⟨hheader.isValue, hvalues, hfooter⟩
  have hallWhole : ∀ value ∈ Value.obj header :: (records.map Evidence.value
      ++ [Value.obj (footerFields records records.length closedAt)]), Whole value := by
    rw [List.forall_mem_cons, List.forall_mem_append, List.forall_mem_singleton, List.forall_mem_map]
    exact ⟨hheader.whole, fun evidence hmem => evidence.whole_iff.mpr (h evidence hmem),
      whole_footer records records.length closedAt⟩
  have htext : sealedText header records records.length closedAt
      = (Value.obj header :: (records.map Evidence.value
        ++ [Value.obj (footerFields records records.length closedAt)])).flatMap lineOf := by
    unfold sealedText openText
    rw [← List.cons_append, List.flatMap_append, List.flatMap_singleton]
  have hparse := JsonLines.parseLines_drop _ 0 hallValues hallWhole
  rw [← htext, List.drop_zero, List.drop_zero, List.map_cons, List.map_append, List.map_singleton,
    sortKeys_obj, sortKeys_obj] at hparse
  have hnodup := ((isValue_obj_iff _).mp hfooter).2
  rw [readSegment_lines name _ _ _ _ hparse]
  · rw [Runs.mapM_ok_iff, List.forall₂_map_left_iff, List.forall₂_map_left_iff, List.forall₂_map_right_iff,
      List.forall₂_same]
    exact fun evidence _ => readRecord_value evidence
  · rw [List.map_map]
    exact fun hnil => hne (List.map_eq_nil_iff.mp hnil)
  · exact isText_sorted header _ _ hheader.isValue hheader.type
  · exact isText_sorted header _ _ hheader.isValue hheader.schema
  · exact isText_sorted _ _ _ hfooter rfl
  · rw [lookup_sortedFields _ _ hnodup]
    have hlookup : (footerFields records records.length closedAt).lookup "row_count".toList
        = some (decimal records.length) := rfl
    unfold decimal at hlookup
    rw [hlookup, Option.map_some, sortKeys, List.length_map, List.length_map]
    unfold isNumber
    exact beq_self_eq_true _
  · rw [contentHash_sortKeys _ hvalues]
    exact isText_sorted _ _ _ hfooter rfl

/-! ## Observations written to one segment -/

/-- The observations of those given to `write` that are written: a digest that is remembered is not written
    again. -/
def appended (config : SpoolConfig) (memory : List (List Char × Unit)) :
    List (Observation host) → List (Observation host)
  | [] => []
  | observation :: rest =>
    let digest := observation.evidence.digest
    if (memory.lookup digest).isSome then appended config memory rest
    else observation :: appended config (remember config.memoryItems memory digest ()) rest

theorem openText_concat (evidence : Evidence host) :
    openText header (records ++ [evidence])
      = openText header records ++ recordLine evidence.fields evidence.digest := by
  unfold openText
  rw [List.map_append, List.map_singleton, ← List.cons_append, List.flatMap_append, List.flatMap_singleton]
  rfl

/-- What a run of writes leaves in the file and in the table. -/
theorem foldl_write (config : SpoolConfig) (header : List (List Char × Value))
    (observations : List (Observation host)) (segment : OpenText) (records : List (Evidence host))
    (htext : segment.text = openText header records) (hcount : segment.records = records.length) :
    (observations.foldl (OpenText.write config) segment).text
        = openText header (records ++ (appended config segment.memory observations).map Observation.evidence) ∧
      (observations.foldl (OpenText.write config) segment).records
        = (records ++ (appended config segment.memory observations).map Observation.evidence).length := by
  induction observations generalizing segment records with
  | nil =>
      rw [List.foldl_nil, appended, List.map_nil, List.append_nil]
      exact ⟨htext, hcount⟩
  | cons observation rest ih =>
      rw [List.foldl_cons, appended]
      by_cases hknown : (segment.memory.lookup observation.evidence.digest).isSome = true
      · have hwrite : segment.write config observation = segment := if_pos hknown
        rw [if_pos hknown, hwrite]
        exact ih segment records htext hcount
      · have hwrite : segment.write config observation =
            { text := segment.text ++ recordLine observation.evidence.fields observation.evidence.digest,
              records := segment.records + 1,
              memory := remember config.memoryItems segment.memory observation.evidence.digest () } :=
          if_neg hknown
        rw [if_neg hknown, hwrite, List.map_cons, List.append_cons]
        refine ih _ (records ++ [observation.evidence]) ?_ ?_
        · rw [openText_concat, htext]
        · rw [List.length_append, List.length_singleton, hcount]

theorem appended_cons (config : SpoolConfig) (first : Observation host) (rest : List (Observation host)) :
    ∃ others, appended config [] (first :: rest) = first :: others := by
  rw [appended, if_neg (by simp)]
  exact ⟨_, rfl⟩

theorem whole_evidence (observation : Observation host) :
    Whole (.obj observation.evidence.fields) ↔ Whole (.obj observation.fields) := by
  have hsame : canonical (.obj observation.evidence.fields) = canonical (.obj observation.fields) := by
    have hsort := JsonText.canonical_sortKeys _ observation.isValue
    rw [sortKeys_obj] at hsort
    exact hsort
  unfold Whole
  rw [hsame]

theorem forall_whole_evidence (observations : List (Observation host)) :
    (∀ evidence ∈ observations.map Observation.evidence, Whole (.obj evidence.fields)) ↔
      ∀ observation ∈ observations, ∀ char ∈ canonical (.obj observation.fields),
        char.toNat ∉ [0x85, 0x2028, 0x2029] := by
  rw [List.forall_mem_map]
  refine forall₂_congr (fun observation _ => ?_)
  rw [whole_evidence]
  refine forall₂_congr (fun char _ => ?_)
  unfold isSeparator
  rw [decide_eq_false_iff_not]

theorem isHeader_header (evidence : Evidence host) (h : Whole (.obj evidence.fields)) :
    IsHeader (segmentHeader host moment (newSegmentId host moment evidence.fields) evidence.fields) where
  isValue := isValue_header moment _ _ evidence.isValue_fields
  whole := whole_header moment _ evidence.isValue_fields h
  type := rfl
  schema := rfl

/-- Sealing the segment succeeds, and `read_segment` gives the observations that were written, in order, with
    their record ids. -/
def SegmentReadsBack (config : SpoolConfig) (moment : Moment) (closedAt : Stamp) (name : String)
    (first : Observation host) (rest : List (Observation host)) : Prop :=
  ∃ text, (writeSegment config moment first rest).seal host name closedAt = .ok text ∧
    readSegment host name (some text) = .ok ((appended config [] (first :: rest)).map
      (fun observation => (observation.evidence.envelope, observation.evidence.digest)))

/-- **A segment is read back exactly where no text of an observation is torn** by a next-line character or
    by a line or paragraph separator. -/
theorem segment_reads_back_iff (config : SpoolConfig) (moment : Moment) (closedAt : Stamp) (name : String)
    (first : Observation host) (rest : List (Observation host)) :
    SegmentReadsBack config moment closedAt name first rest ↔
      ∀ observation ∈ appended config [] (first :: rest), ∀ char ∈ canonical (.obj observation.fields),
        char.toNat ∉ [0x85, 0x2028, 0x2029] := by
  obtain ⟨others, hothers⟩ := appended_cons config first rest
  have hfirst : first.evidence ∈ (appended config [] (first :: rest)).map Observation.evidence :=
    List.mem_map_of_mem (hothers ▸ List.mem_cons_self)
  obtain ⟨htext, hcount⟩ := foldl_write config _ (first :: rest) (OpenText.create moment first) []
    (List.flatMap_singleton _ _).symm rfl
  have hmemory : (OpenText.create moment first).memory = [] := rfl
  rw [List.nil_append, hmemory] at htext hcount
  have hheader : isValue (.obj (segmentHeader host moment
      (newSegmentId host moment first.evidence.fields) first.evidence.fields)) = true :=
    isValue_header moment _ _ first.evidence.isValue_fields
  rw [← forall_whole_evidence]
  constructor
  · rintro ⟨text, hseal, -⟩ evidence hmem
    by_contra htorn
    unfold OpenText.seal writeSegment at hseal
    rw [htext, sealFooter_torn name _ _ _ closedAt hheader evidence hmem htorn] at hseal
    exact absurd hseal (by simp [bind, Except.bind])
  · intro h
    have hopened := isHeader_header moment first.evidence (h _ hfirst)
    have hread := readSegment_sealed name _ _ closedAt hopened h (List.ne_nil_of_mem hfirst)
    rw [List.map_map] at hread
    refine ⟨_, ?_, hread⟩
    unfold OpenText.seal writeSegment
    rw [htext, hcount, sealFooter_whole name _ _ _ closedAt hheader hopened.whole h]
    rfl

/-! ## A payload with a line separator -/

/-- Digests as they are for the payload of the example. -/
def exampleHost : Host where
  sha256 text :=
    if text = ['"', 'a', Char.ofNat 0x2028, 'b', '"'] then
      "86217f48f4443207effcf94b7836440050401eca7c2b8ca40372f0d0eab8e905".toList
    else List.replicate 64 '0'
  sha256_hex text := by
    split_ifs
    · decide
    · decide
  str _ := []
  str_unbroken _ := rfl
  isalnum := Char.isAlphanum
  isspace := Char.isWhitespace

/-- An observation whose payload is the string `a`, a line separator and `b`. -/
def lineSeparatorObservation : Observation exampleHost where
  fields :=
    [("schema_version", "v1"), ("target_stream", "raw_market_observations"), ("batch_id", "1"),
      ("sequence", "0"), ("captured_at", "2026-10-16"), ("provider_key", "scan"), ("capability", "tape"),
      ("market", "cn"), ("symbol", "watch"), ("effective_at", "2026-10-16"), ("available_at", "2026-10-16"),
      ("payload_sha256", "86217f48f4443207effcf94b7836440050401eca7c2b8ca40372f0d0eab8e905"),
      ("normalized", "")].map (fun field => (field.1.toList, Value.str field.2.toList))
      ++ [("payload".toList, .str ['a', Char.ofNat 0x2028, 'b'])]
  isValue := by decide +kernel
  valid := by decide +kernel

def exampleMoment : Moment where
  today := ⟨"2026-10-16".toList, by decide⟩
  now := ⟨"2026-10-16T07:30:01+00:00".toList, by decide⟩
  uuid := ⟨"00000000000000000000000000000001".toList, by decide⟩

/-- Sealing the segment of this one observation fails. -/
theorem lineSeparator_not_read_back :
    ¬ SegmentReadsBack {} exampleMoment exampleMoment.now "segment" lineSeparatorObservation [] := by
  rintro ⟨text, hseal, -⟩
  have hfails : ((writeSegment {} exampleMoment lineSeparatorObservation []).seal exampleHost "segment"
      exampleMoment.now).isOk = false := by
    decide +kernel
  rw [hseal] at hfails
  exact Bool.false_ne_true hfails.symm

/-! ## One envelope for one observation -/

/-- **Mappings that agree but for the order of their fields, at any depth, have one envelope and one digest, or are refused
    alike; and the observation that an envelope holds has that envelope.** -/
theorem one_envelope (host : Host) (observation other : List (List Char × Value))
    (hvalue : JsonText.isValue (.obj observation) = true) (hother : JsonText.isValue (.obj other) = true)
    (hsame : JsonText.sortKeys (.obj observation) = JsonText.sortKeys (.obj other)) :
    envelope host observation = envelope host other ∧ ∀ body digest, envelope host observation = .ok (body, digest) →
      ∃ kept, body.lookup "observation".toList = some (.obj kept) ∧ envelope host kept = .ok (body, digest) := by
  rw [sortKeys_obj, sortKeys_obj] at hsame
  have hfields := Value.obj.inj hsame
  have hkeys : missingKeys (observation.map Prod.fst) = missingKeys (other.map Prod.fst) := by
    rw [← missingKeys_sortedFields, hfields, missingKeys_sortedFields]
  have hnormalised : normaliseObservation host observation = normaliseObservation host other := by
    rw [normaliseObservation_eq host _ hvalue, normaliseObservation_eq host _ hother, hkeys, hfields]
  refine ⟨by rw [envelope, hnormalised, envelope], fun body digest henvelope => ?_⟩
  rw [envelope] at henvelope
  rcases hresult : normaliseObservation host observation with error | kept
  · simp [hresult] at henvelope
  · rw [hresult] at henvelope
    obtain ⟨rfl, rfl⟩ := Prod.mk.inj (Except.ok.inj henvelope)
    exact ⟨kept, rfl, by rw [envelope, normaliseObservation_again host observation kept hvalue hresult]⟩

theorem one_envelope_reversed : envelope exampleHost lineSeparatorObservation.fields =
    envelope exampleHost lineSeparatorObservation.fields.reverse :=
  (one_envelope exampleHost _ _ lineSeparatorObservation.isValue (by decide +kernel) (by rfl)).1

end TradingHarness
