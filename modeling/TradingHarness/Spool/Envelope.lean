import Mathlib.Data.List.DropRight
import TradingHarness.Library.JsonKeys
import TradingHarness.Library.Lines

set_option autoImplicit false

/-! # Evidence envelopes

An observation is normalised by writing it with sorted keys and reading it back, and its envelope carries
the digest of its text. Normalising once more changes nothing. -/

namespace TradingHarness

open JsonText (Value canonical loads)
open Lines (isBreak readText splitLines)

/-- Exceptions. `.other` are those that nothing here catches. -/
inductive SpoolError
  | value (message : String)
  | corrupt (message : String)
  | os (message : String)
  | other

/-- `0123456789abcdef` -/
def isHexDigit (char : Char) : Bool := char ∈ "0123456789abcdef".toList

/-- What the code takes from its language and libraries. -/
structure Host where
  /-- The hexadecimal digest of a text in UTF-8. -/
  sha256 : List Char → List Char
  sha256_hex : ∀ text, (sha256 text).length = 64 ∧ (sha256 text).all isHexDigit = true
  /-- `str` of a list or a mapping, where what is not printable is escaped. -/
  str : Value → List Char
  str_unbroken : ∀ value, (str value).all (fun char => !isBreak char) = true
  /-- Unicode's character classes. -/
  isalnum : Char → Bool
  isspace : Char → Bool

/-- A text from a clock or a counter, which stays on its line. -/
abbrev Stamp := { text : List Char // text.all (fun char => !isBreak char) = true }

/-- What the clock and `uuid4` give for one call. -/
structure Moment where
  today : Stamp
  now : Stamp
  uuid : Stamp

/-! ## Values of Python -/

/-- A number's text without its exponent has no digit but zero. -/
def isZero (text : List Char) : Bool :=
  (text.takeWhile (fun char => char != 'e' && char != 'E')).all (· ∈ ['-', '0', '.'])

/-- `bool(value)`. -/
def truthy : Value → Bool
  | .word text => !(text == "null".toList || text == "false".toList || isZero text)
  | .str text => !text.isEmpty
  | .arr items => !items.isEmpty
  | .obj fields => !fields.isEmpty

/-- `value or fallback`, where the value of a missing key is `None`. -/
def orElse (value : Option Value) (fallback : Value) : Value :=
  match value with
  | some value => if truthy value then value else fallback
  | none => fallback

variable (host : Host) (today : Stamp) (observation : List (List Char × Value))

/-- `str(value)`. -/
def Host.text : Value → List Char
  | .word text =>
    if text = "null".toList then "None".toList
    else if text = "true".toList then "True".toList
    else if text = "false".toList then "False".toList
    else if text = "NaN".toList then "nan".toList
    else if text = "Infinity".toList then "inf".toList
    else if text = "-Infinity".toList then "-inf".toList
    else text
  | .str text => text
  | value => host.str value

/-- `value == text`. -/
def isText (value : Option Value) (text : List Char) : Bool :=
  match value with
  | some (.str other) => other == text
  | _ => false

/-- The fields of a mapping. `.get` of anything else is an `AttributeError`. -/
def asObject : Value → Except SpoolError (List (List Char × Value))
  | .obj fields => .ok fields
  | _ => .error .other

/-! ## Parts of the key of a segment -/

def safePart (value : Option Value) : List Char :=
  let fallback := "unknown".toList
  let text := host.text (orElse value (.str fallback))
  let stripped := (text.dropWhile host.isspace).rdropWhile host.isspace
  let cleaned := stripped.map (fun char =>
    if host.isalnum char || char ∈ ['.', '_', '-'] then char else '_')
  if cleaned.take 120 = [] then fallback else cleaned.take 120

def tradeDate : List Char :=
  let text := host.text (orElse (observation.lookup "effective_at".toList) (.str []))
  if 10 ≤ text.length then text.take 10 else today.val

/-! ## Normalising -/

/-- `_REQUIRED_OBSERVATION_KEYS`, sorted. -/
def requiredObservationKeys : List String :=
  ["available_at", "batch_id", "capability", "captured_at", "effective_at", "market", "normalized",
    "payload", "payload_sha256", "provider_key", "schema_version", "sequence", "symbol", "target_stream"]

def evidenceStreams : List String :=
  ["raw_market_observations", "intraday_quote_observations", "intraday_board_flow_snapshots",
    "intraday_minute_sessions"]

/-- The required keys that are missing. -/
def missingKeys (keys : List (List Char)) : List String :=
  requiredObservationKeys.filter (fun key => !keys.contains key.toList)

def missingMessage (missing : List String) : String :=
  "spool observation missing fields: " ++ ",".intercalate missing

/-- The digest, as the observation names it. -/
def payloadDigest : List Char :=
  (host.text (orElse (observation.lookup "payload_sha256".toList) (.str []))).map Char.toLower

/-- The stream, as the observation names it. -/
def targetStream : List Char :=
  host.text (orElse (observation.lookup "target_stream".toList) (.str []))

def nullWord : Value := .word "null".toList

/-- The checks of `_normalise_observation` on what was read back. -/
def checkObservation (result : List (List Char × Value)) :
    Except SpoolError (List (List Char × Value)) :=
  let digest := payloadDigest host result
  if digest.length ≠ 64 ∨ ¬ digest.all isHexDigit then
    .error (.value "spool observation payload_sha256 is invalid")
  else if digest ≠ host.sha256 (canonical ((result.lookup "payload".toList).getD nullWord)) then
    .error (.value "spool observation payload_sha256 does not match payload")
  else if !(evidenceStreams.map String.toList).contains (targetStream host result) then
    .error (.value ("unknown evidence target stream: " ++ String.ofList (targetStream host result)))
  else .ok result

def normaliseObservation :
    Except SpoolError (List (List Char × Value)) :=
  let missing := missingKeys (observation.map Prod.fst)
  if missing ≠ [] then .error (.value (missingMessage missing))
  else
    match loads (canonical (.obj observation)) with
    | some (.obj result) => checkObservation host result
    | some _ => .error (.value "spool observation must be an object")
    | none => .error (.value "JSONDecodeError")

/-- `SCHEMA` -/
def spoolSchema : List Char := "intraday-evidence-spool-v1".toList

def recordType : List Char := "raw_market_observation".toList

def envelopeBody (normalized : List (List Char × Value)) : List (List Char × Value) :=
  [("schema".toList, .str spoolSchema), ("record_type".toList, .str recordType),
    ("observation".toList, .obj normalized)]

def envelopeDigest (normalized : List (List Char × Value)) : List Char :=
  host.sha256 (canonical (.obj (envelopeBody normalized)))

/-- `_envelope`: the envelope of an observation and its digest. -/
def envelope :
    Except SpoolError (List (List Char × Value) × List Char) :=
  match normaliseObservation host observation with
  | .error error => .error error
  | .ok normalized =>
    let digest := envelopeDigest host normalized
    .ok (envelopeBody normalized ++ [("sha256".toList, .str digest)], digest)

/-! ## Normalising once more -/

variable (host : Host) (observation result : List (List Char × Value))

theorem checkObservation_ok (other : List (List Char × Value))
    (h : checkObservation host result = .ok other) : other = result := by
  unfold checkObservation at h
  dsimp only at h
  split_ifs at h
  exact (Except.ok.inj h).symm

/-- The fields of a normalised mapping. -/
def sortedFields (observation : List (List Char × Value)) : List (List Char × Value) :=
  (JsonText.sortFields observation).insertionSort JsonText.keyLe

theorem sortKeys_obj :
    JsonText.sortKeys (.obj observation) = .obj (sortedFields observation) := by
  rw [JsonText.sortKeys]
  rfl

theorem missingKeys_perm (keys others : List (List Char)) (h : keys.Perm others) :
    missingKeys keys = missingKeys others := by
  unfold missingKeys
  refine List.filter_congr (fun key _ => ?_)
  rw [h.contains_eq]

theorem missingKeys_sortedFields :
    missingKeys ((sortedFields observation).map Prod.fst) = missingKeys (observation.map Prod.fst) := by
  refine missingKeys_perm _ _ ?_
  have hperm := (List.perm_insertionSort JsonText.keyLe (JsonText.sortFields observation)).map Prod.fst
  rw [JsonText.keys_sortFields] at hperm
  exact hperm

section

variable (hvalue : JsonText.isValue (.obj observation) = true)

include hvalue

/-- What normalising checks and gives, for a mapping of JSON values. -/
theorem normaliseObservation_eq :
    normaliseObservation host observation
      = if missingKeys (observation.map Prod.fst) ≠ [] then
          .error (.value (missingMessage (missingKeys (observation.map Prod.fst))))
        else checkObservation host (sortedFields observation) := by
  unfold normaliseObservation
  simp only [JsonText.loads_canonical _ hvalue, sortKeys_obj]

section

variable (h : normaliseObservation host observation = .ok result)

include h

theorem normaliseObservation_ok : result = sortedFields observation := by
  rw [normaliseObservation_eq host observation hvalue] at h
  split_ifs at h with hmissing
  exact checkObservation_ok host _ _ h

theorem normaliseObservation_again :
    normaliseObservation host result = .ok result := by
  obtain rfl := normaliseObservation_ok host observation result hvalue h
  have hwell : JsonText.wellFormed (.obj (sortedFields observation)) = true := by
    rw [← sortKeys_obj]
    exact JsonText.wellFormed_sortKeys _ hvalue
  have hsame : sortedFields (sortedFields observation) = sortedFields observation := by
    have hsort := JsonText.sortKeys_of_wellFormed _ hwell
    rw [sortKeys_obj] at hsort
    exact Value.obj.inj hsort
  rw [normaliseObservation_eq host _ (JsonText.isValue_of_wellFormed _ hwell), missingKeys_sortedFields,
    hsame]
  rw [normaliseObservation_eq host observation hvalue] at h
  exact h

end

end

/-! ## Evidence -/

/-- An observation that `_normalise_observation` accepts. -/
structure Observation (host : Host) where
  fields : List (List Char × Value)
  isValue : JsonText.isValue (.obj fields) = true
  valid : (normaliseObservation host fields).isOk = true

/-- A normalised observation. -/
structure Evidence (host : Host) where
  fields : List (List Char × Value)
  wellFormed : JsonText.wellFormed (.obj fields) = true
  normalised : normaliseObservation host fields = .ok fields

variable {host : Host}

theorem Observation.normalised (observation : Observation host) :
    normaliseObservation host observation.fields = .ok (sortedFields observation.fields) := by
  have hvalid := observation.valid
  rcases h : normaliseObservation host observation.fields with error | result
  · rw [h] at hvalid
    exact absurd hvalid Bool.false_ne_true
  · rw [normaliseObservation_ok host _ _ observation.isValue h]

/-- The observation, normalised. -/
def Observation.evidence (observation : Observation host) : Evidence host where
  fields := sortedFields observation.fields
  wellFormed := by
    rw [← sortKeys_obj]
    exact JsonText.wellFormed_sortKeys _ observation.isValue
  normalised := normaliseObservation_again host _ _ observation.isValue observation.normalised

/-- The id under which the observation is recorded. -/
def Evidence.digest (evidence : Evidence host) : List Char := envelopeDigest host evidence.fields

def Evidence.envelope (evidence : Evidence host) : List (List Char × Value) :=
  envelopeBody evidence.fields ++ [("sha256".toList, .str evidence.digest)]

theorem Evidence.envelope_eq (evidence : Evidence host) :
    TradingHarness.envelope host evidence.fields = .ok (evidence.envelope, evidence.digest) := by
  unfold TradingHarness.envelope
  rw [evidence.normalised]
  rfl

end TradingHarness
