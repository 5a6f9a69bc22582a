import Mathlib
import TradingHarness.Library.Utf8
import TradingHarness.Spool.RoundTrip

set_option autoImplicit false

/-! # Recovery of open segments

A writer that stopped leaves its open segment, perhaps with a record of which only some bytes were written. The next
writer reads the whole file before it goes on with the segment: a record that is cut off costs all that were written
before it. -/

namespace TradingHarness

open JsonText (Value isValue canonical sortKeys)
open JsonLines (lineOf parseLines Whole)
open Lines (readText splitLines isBreak)

variable {host : Host}

/-! ## The recovery -/

/-- What `_discover_open_segments` makes of an open file: an entry of the table, with its key and its number of
    records, nothing, a file in quarantine, or an exception that leaves the method. -/
inductive Discovery
  | opened (key : List Char × List Char × List Char × List Char) (records : ℕ)
  | ignored
  | quarantined (envelope : List Char)
  | raised (error : String)

/-- The key of a segment, of its header. -/
def headerKey (host : Host) (header : List (List Char × Value)) :
    List Char × List Char × List Char × List Char :=
  (host.text (fieldOf header "trade_date"), safePart host (header.lookup "target_stream".toList),
    safePart host (header.lookup "provider_key".toList), safePart host (header.lookup "capability".toList))

/-- `_discover_open_segments`, of the bytes of one file. -/
def discoverOpenSegment (host : Host) (file : List UInt8) : Discovery :=
  match Utf8.decode file with
  | none => .raised "UnicodeDecodeError"
  | some text =>
    match parseLines (splitLines (readText text)) with
    | none => .quarantined text
    | some [] => .raised "IndexError"
    | some (header :: rest) =>
      match asObject header with
      | .error _ => .quarantined text
      | .ok fields =>
        if !isText (fields.lookup "type".toList) "header".toList
            || !isText (fields.lookup "schema".toList) segmentSchema || rest.isEmpty then .ignored
        else .opened (headerKey host fields) rest.length

/-- The recovery of a spool with one open file: it is discovered, sealed and read. What the pending segment returns,
    where there is one that can be read. -/
def recoverSegment (host : Host) (name : String) (closedAt : Stamp) (file : List UInt8) :
    Option (List (List (List Char × Value) × List Char)) :=
  match discoverOpenSegment host file with
  | .opened _ records =>
    match sealFooter host name (Utf8.decode file) records closedAt with
    | .ok footer => (readSegment host name (Utf8.decode (file ++ Utf8.encode (lineOf footer)))).toOption
    | .error _ => none
  | _ => none

/-- The bytes of an open segment: its header, the records that were written, and what was written of the last. -/
def tornFile (header : List (List Char × Value)) (written : List (Evidence host)) (torn : Evidence host)
    (cut : ℕ) : List UInt8 :=
  Utf8.encode (openText header written) ++ (Utf8.encode (recordLine torn.fields torn.digest)).take cut

theorem one_lt_length_recordLine (evidence : Evidence host) :
    1 < (Utf8.encode (recordLine evidence.fields evidence.digest)).length := by
  have hne := JsonLines.canonical_ne_nil evidence.value evidence.isValue_value
  unfold recordLine lineOf
  rw [Utf8.encode_append, List.length_append]
  have hrecord := List.length_pos_iff.mpr (Utf8.encode_ne_nil hne)
  have hnewline := List.length_pos_iff.mpr (Utf8.encode_ne_nil (List.cons_ne_nil '\n' []))
  unfold Evidence.value at hrecord
  omega

/-! ## Files that are not recovered -/

variable {name : String} {closedAt : Stamp}

theorem recoverSegment_of_parse {text : List Char}
    (h : parseLines (splitLines (readText text)) = none) :
    recoverSegment host name closedAt (Utf8.encode text) = none := by
  simp only [recoverSegment, discoverOpenSegment, Utf8.decode_encode, h]

theorem recoverSegment_of_decode {file : List UInt8}
    (h : Utf8.decode file = none) : recoverSegment host name closedAt file = none := by
  simp only [recoverSegment, discoverOpenSegment, h]

theorem sealFooter_object {file : Option (List Char)} {records : ℕ}
    {footer : Value} (h : sealFooter host name file records closedAt = .ok footer) :
    ∃ rest, lineOf footer = '{' :: rest := by
  unfold sealFooter at h
  split at h
  · cases h
  · split at h
    · rw [← Except.ok.inj h, lineOf, canonical, sortKeys, JsonText.dumps]
      exact ⟨_, rfl⟩
    · cases h
    · cases h

theorem recoverSegment_of_joined {text : List Char}
    (h : ∀ rest, parseLines (splitLines (readText (text ++ '{' :: rest))) = none) :
    recoverSegment host name closedAt (Utf8.encode text) = none := by
  unfold recoverSegment
  rw [Utf8.decode_encode]
  split
  · split
    next footer hfooter =>
      obtain ⟨rest, hrest⟩ := sealFooter_object hfooter
      rw [← Utf8.encode_append, Utf8.decode_encode, hrest]
      simp only [readSegment, Option.bind_some, h]
      rfl
    next => rfl
  · rfl

variable {header : List (List Char × Value)}

section

variable (hheader : isValue (.obj header) = true)

include hheader

theorem isValue_openText (written : List (Evidence host)) :
    ∀ value ∈ Value.obj header :: written.map Evidence.value, isValue value = true := by
  rw [List.forall_mem_cons, List.forall_mem_map]
  exact ⟨hheader, fun evidence _ => evidence.isValue_value⟩

/-- **Bytes of another record behind the records leave nothing to replay**: they end inside a character, or the last
    line does not parse, or the footer is joined to it. -/
theorem recoverSegment_torn (written : List (Evidence host)) (torn : Evidence host) {cut : ℕ}
    (hcut : cut < (Utf8.encode (recordLine torn.fields torn.digest)).length) (hsome : cut ≠ 0) :
    recoverSegment host name closedAt (tornFile header written torn cut) = none := by
  obtain ⟨before, after, hline, htake | ⟨char, rest, bytes, -, htorn, htake⟩⟩ :=
    Utf8.take_encode (recordLine torn.fields torn.digest) cut
  · -- the bytes are those of a beginning of the line
    have hbefore : before ≠ [] := by
      rintro rfl
      have hlength := congrArg List.length htake
      rw [List.length_take, show Utf8.encode [] = [] from rfl, List.length_nil] at hlength
      omega
    have hafter : after ≠ [] := by
      rintro rfl
      rw [List.append_nil] at hline
      have hlength := congrArg List.length htake
      rw [List.length_take, ← hline] at hlength
      omega
    obtain ⟨more, last, rfl⟩ := (List.eq_nil_or_concat' after).resolve_left hafter
    have htext : canonical torn.value = before ++ more := by
      unfold recordLine lineOf at hline
      rw [← List.append_assoc] at hline
      exact (List.append_inj' hline rfl).1
    rw [tornFile, htake, ← Utf8.encode_append]
    by_cases hparse : parseLines (splitLines (readText (openText header written ++ before))) = none
    · exact recoverSegment_of_parse hparse
    · obtain ⟨rfl, hplain⟩ := JsonLines.cut_of_parseLines _ _ before more (isValue_openText hheader written)
        torn.isValue_value htext hbefore hparse
      rw [List.append_nil] at htext
      refine recoverSegment_of_joined (fun rest => ?_)
      rw [List.append_assoc, ← htext]
      exact JsonLines.parseLines_joined _ _ rest (isValue_openText hheader written) torn.isValue_value
        (htext ▸ hplain)
  · refine recoverSegment_of_decode ?_
    rw [tornFile, htake, ← List.append_assoc, ← Utf8.encode_append]
    exact Utf8.decode_torn htorn _

theorem recoverSegment_separated {written : List (Evidence host)} {evidence : Evidence host}
    (hmem : evidence ∈ written) (h : ¬ Whole (.obj evidence.fields)) :
    recoverSegment host name closedAt (Utf8.encode (openText header written)) = none := by
  refine recoverSegment_of_parse (JsonLines.parseLines_none_of_drop _ 1 ?_)
  exact JsonLines.parseLines_torn (.obj header) (written.map Evidence.value) _ hheader
    (fun value hvalue => isValue_openText hheader written value (List.mem_cons_of_mem _ hvalue))
    (List.mem_map_of_mem hmem) (fun hwhole => h (evidence.whole_iff.mp hwhole))

end

/-! ## Files that are recovered -/

theorem recoverSegment_whole (hheader : IsHeader header) {written : List (Evidence host)} (hne : written ≠ [])
    (h : ∀ evidence ∈ written, Whole (.obj evidence.fields)) :
    recoverSegment host name closedAt (Utf8.encode (openText header written))
      = some (written.map (fun evidence => (evidence.envelope, evidence.digest))) := by
  have hvalues := isValue_openText hheader.isValue written
  have hwhole : ∀ value ∈ Value.obj header :: written.map Evidence.value, Whole value := by
    rw [List.forall_mem_cons, List.forall_mem_map]
    exact ⟨hheader.whole, fun evidence hmem => evidence.whole_iff.mpr (h evidence hmem)⟩
  have hparse := JsonLines.parseLines_drop _ 0 hvalues hwhole
  rw [List.drop_zero, List.drop_zero, List.map_cons, sortKeys_obj] at hparse
  have hrest : ((written.map Evidence.value).map sortKeys).isEmpty = false := by
    rw [List.isEmpty_eq_false_iff]
    exact fun hnil => hne (List.map_eq_nil_iff.mp (List.map_eq_nil_iff.mp hnil))
  have hdiscovered : discoverOpenSegment host (Utf8.encode (openText header written))
      = .opened (headerKey host (sortedFields header)) written.length := by
    simp only [discoverOpenSegment, Utf8.decode_encode, openText, hparse, asObject,
      isText_sorted header _ _ hheader.isValue hheader.type, isText_sorted header _ _ hheader.isValue hheader.schema,
      hrest, Bool.not_true, Bool.or_self, List.length_map]
    rfl
  have hsealed := readSegment_sealed name header written closedAt hheader h hne
  simp only [recoverSegment, hdiscovered, Utf8.decode_encode,
    sealFooter_whole name header written _ closedAt hheader.isValue hheader.whole h]
  rw [← Utf8.encode_append, Utf8.decode_encode]
  unfold sealedText at hsealed
  rw [hsealed]
  rfl

/-! ## The condition -/

/-- The header of a segment that was opened for an observation. -/
def openedHeader (host : Host) (moment : Moment) (first : Evidence host) : List (List Char × Value) :=
  segmentHeader host moment (newSegmentId host moment first.fields) first.fields

/-- Every record that was written is returned by the pending segment. -/
def KeepsWritten (moment : Moment) (name : String) (closedAt : Stamp) (written : List (Observation host))
    (torn : Observation host) (cut : ℕ) : Prop :=
  ∀ observation ∈ written, ∃ records, recoverSegment host name closedAt
      (tornFile (openedHeader host moment (written.headD torn).evidence) (written.map Observation.evidence)
        torn.evidence cut) = some records
    ∧ (observation.evidence.envelope, observation.evidence.digest) ∈ records

/-- **The records that were written are kept for the replay exactly where there is none, or where nothing of the
    last append was written and no text of them is torn by a separator.** -/
theorem torn_append_keeps_iff (moment : Moment) (name : String) (closedAt : Stamp)
    (written : List (Observation host)) (torn : Observation host) (cut : ℕ)
    (hcut : cut < (Utf8.encode (recordLine torn.evidence.fields torn.evidence.digest)).length) :
    KeepsWritten moment name closedAt written torn cut ↔
      written = [] ∨ cut = 0 ∧ ∀ observation ∈ written, ∀ char ∈ canonical (.obj observation.fields),
        char.toNat ∉ [0x85, 0x2028, 0x2029] := by
  have hvalue : isValue (.obj (openedHeader host moment (written.headD torn).evidence)) = true :=
    isValue_header moment _ _ (written.headD torn).evidence.isValue_fields
  rw [← forall_whole_evidence]
  rcases hwritten : written with _ | ⟨first, others⟩
  · exact iff_of_true (fun observation hmem => absurd hmem List.not_mem_nil) (Or.inl rfl)
  rw [← hwritten, or_iff_right (by rw [hwritten]; exact List.cons_ne_nil first others)]
  have hfirst : first ∈ written := hwritten ▸ List.mem_cons_self
  rcases Nat.eq_zero_or_pos cut with rfl | hpos
  · have hfile : tornFile (openedHeader host moment (written.headD torn).evidence)
        (written.map Observation.evidence) torn.evidence 0
        = Utf8.encode (openText (openedHeader host moment (written.headD torn).evidence)
          (written.map Observation.evidence)) := by
      rw [tornFile, List.take_zero, List.append_nil]
    unfold KeepsWritten
    rw [hfile]
    constructor
    · -- a record that is torn by a separator spoils the file that the first record stands in
      refine fun hkeeps => ⟨rfl, fun evidence hmem => ?_⟩
      by_contra htorn
      obtain ⟨records, hrecords, -⟩ := hkeeps first hfirst
      rw [recoverSegment_separated hvalue hmem htorn] at hrecords
      exact absurd hrecords (by simp)
    · rintro ⟨-, hall⟩ observation hmem
      have hheader : IsHeader (openedHeader host moment (written.headD torn).evidence) := by
        rw [hwritten]
        exact isHeader_header moment first.evidence (hall _ (List.mem_map_of_mem hfirst))
      refine ⟨_, recoverSegment_whole hheader (List.ne_nil_of_mem (List.mem_map_of_mem hmem)) hall, ?_⟩
      exact List.mem_map_of_mem (List.mem_map_of_mem hmem)
  · refine iff_of_false (fun hkeeps => ?_) (fun hcase => absurd hcase.1 (by omega))
    obtain ⟨records, hrecords, -⟩ := hkeeps first hfirst
    rw [recoverSegment_torn hvalue _ _ hcut (by omega)] at hrecords
    exact absurd hrecords (by simp)

/-! ## A record and one byte of the next -/

/-- An observation of the string `a`. -/
def letterFields (stream sequence : String) : List (List Char × Value) :=
  [("schema_version", "v1"), ("target_stream", stream), ("batch_id", "1"),
    ("sequence", sequence), ("captured_at", "2026-10-16"), ("provider_key", "scan"), ("capability", "tape"),
    ("market", "cn"), ("symbol", "watch"), ("effective_at", "2026-10-16"), ("available_at", "2026-10-16"),
    ("payload", "a"), ("payload_sha256", "ac8d8342bbb2362d13f0a559a3621bb407011368895164b628a54f7fc33fc43c"),
    ("normalized", "")].map (fun field => (field.1.toList, Value.str field.2.toList))

/-- Digests as they are for the payload and the observations of the examples. -/
def letterHost : Host := { exampleHost with
  sha256 := fun text =>
    if text = canonical (.str ['a']) then
      "ac8d8342bbb2362d13f0a559a3621bb407011368895164b628a54f7fc33fc43c".toList
    else if text = canonical (.obj (envelopeBody (sortedFields (letterFields "raw_market_observations" "0")))) then
      "14414ed6a177789f4b0627dbdfecd48627cfba3a80bc9bea32e608ce58e3ab41".toList
    else if text = canonical (.obj (envelopeBody (sortedFields (letterFields "raw_market_observations" "1")))) then
      "fa173b9a68861068a55280fec2cf70f5319f7caa9616490ae338c51b93703c03".toList
    else if text = canonical (.obj (envelopeBody (sortedFields (letterFields "intraday_board_flow_snapshots" "0")))) then
      "72bc993e0fb25ced3cc2aaa653540f073242c5183e54820112154ecd683ea071".toList
    else List.replicate 64 '0'
  sha256_hex := by
    intro text
    split_ifs
    · decide
    · decide
    · decide
    · decide
    · decide }

theorem isValue_letterFields (stream sequence : String) : isValue (.obj (letterFields stream sequence)) = true := by
  rw [isValue_obj_iff]
  constructor
  · intro field hfield
    obtain ⟨entry, -, rfl⟩ := List.mem_map.mp hfield
    exact isValue_str _
  · simp only [letterFields, List.map_cons, List.map_nil]
    decide

theorem normaliseObservation_letterFields (stream sequence : String) :
    normaliseObservation letterHost (letterFields stream sequence)
      = checkObservation letterHost (sortedFields (letterFields stream sequence)) := by
  rw [normaliseObservation_eq letterHost _ (isValue_letterFields stream sequence), if_neg]
  simp only [letterFields, List.map_cons, List.map_nil]
  decide

def letterObservation : Observation letterHost where
  fields := letterFields "raw_market_observations" "0"
  isValue := isValue_letterFields "raw_market_observations" "0"
  valid := by
    rw [normaliseObservation_letterFields]
    decide +kernel

theorem not_mem_of_ascii {text : List Char} (h : text.all (fun char => decide (char.toNat < 128)) = true) :
    ∀ char ∈ text, char.toNat ∉ [0x85, 0x2028, 0x2029] := by
  intro char hchar
  have hlt := of_decide_eq_true (List.all_eq_true.mp h char hchar)
  simp only [List.mem_cons, List.not_mem_nil, or_false]
  omega

theorem letter_separated : ∀ char ∈ canonical (.obj letterObservation.fields),
    char.toNat ∉ [0x85, 0x2028, 0x2029] := by
  refine not_mem_of_ascii ?_
  decide +kernel

def nextObservation : Observation letterHost where
  fields := letterFields "raw_market_observations" "1"
  isValue := isValue_letterFields "raw_market_observations" "1"
  valid := by
    rw [normaliseObservation_letterFields]
    decide +kernel

/-- Nothing of the next record was written. -/
theorem letter_kept : KeepsWritten exampleMoment "segment" exampleMoment.now [letterObservation]
    nextObservation 0 := by
  have hcut := one_lt_length_recordLine nextObservation.evidence
  refine (torn_append_keeps_iff exampleMoment "segment" exampleMoment.now [letterObservation] nextObservation 0
    (Nat.zero_lt_of_lt hcut)).mpr (Or.inr ⟨rfl, fun observation hmem => ?_⟩)
  rw [List.mem_singleton.mp hmem]
  exact letter_separated

/-- One byte of the next record was written. -/
theorem letter_lost : ¬ KeepsWritten exampleMoment "segment" exampleMoment.now [letterObservation]
    nextObservation 1 := by
  intro hkeeps
  obtain ⟨records, hrecords, -⟩ := hkeeps letterObservation List.mem_cons_self
  have hcut := one_lt_length_recordLine nextObservation.evidence
  have hvalue : isValue (.obj (openedHeader letterHost exampleMoment letterObservation.evidence)) = true :=
    isValue_header exampleMoment _ _ letterObservation.evidence.isValue_fields
  rw [List.headD_cons, recoverSegment_torn hvalue _ nextObservation.evidence hcut Nat.one_ne_zero] at hrecords
  exact absurd hrecords (by simp)

end TradingHarness
