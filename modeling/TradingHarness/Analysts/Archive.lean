import TradingHarness.Library.Keyed
import TradingHarness.Library.Newest
import TradingHarness.Market.Reality
import Mathlib.Data.Prod.Lex

set_option autoImplicit false

/-! # The remote archive

`remote_archive.py`: reports and messages of an analyst are imported as evidence, from which claims are drawn, and every
claim gets a revision that ties it to the one before. An import is one transaction. -/

namespace TradingHarness.Analysts

/-! ## Tables -/

inductive Scope
  | market | sector | theme | stock
deriving DecidableEq

/-- The report or message that evidence belongs to. -/
inductive Source
  | report (id : String)
  | message (id : String)
deriving DecidableEq

/-- What is unique of a row of `analyst_evidence`. -/
structure EvidenceKey where
  source : Source
  key : String
  contentSha256 : String
deriving DecidableEq

structure Evidence where
  key : EvidenceKey
  body : String
  availableAt : Timestamp

/-- What is unique of a row of `analyst_claims`. -/
structure ClaimKey where
  evidence : EvidenceKey
  scope : Scope
  subjectKey : String
  horizonDays : ℕ
  extractorVersion : String
deriving DecidableEq

structure Claim where
  key : ClaimKey
  analystId : String
  direction : ℤ
  strength : ℚ
  availableAt : Timestamp
  createdAt : Timestamp
deriving DecidableEq

/-- What a claim is about. -/
structure Subject where
  analystId : String
  scope : Scope
  subjectKey : String
deriving DecidableEq

def Claim.subject (claim : Claim) : Subject := ⟨claim.analystId, claim.key.scope, claim.key.subjectKey⟩

/-- The revision types that an import writes. -/
inductive RevisionType
  | new | confirm | reverse
deriving DecidableEq

/-- A row of `claim_revisions`; claims are named by their unique key. -/
structure Revision where
  priorClaim : Option ClaimKey
  claim : ClaimKey
  revisionType : RevisionType

structure Ledger where
  claims : List Claim := []
  revisions : List Revision := []

/-! ## Revisions -/

/-- `ORDER BY available_at DESC, created_at DESC` -/
def Claim.time (claim : Claim) : ℤ ×ₗ ℤ := toLex (claim.availableAt, claim.createdAt)

/-- The claim that `revision_type` finds: the newest of the subject from other evidence. -/
def priorClaim (claims : List Claim) (subject : Subject) (evidence : EvidenceKey) : Option Claim :=
  Newest.latest Claim.time (claims.filter (fun claim => decide (claim.subject = subject ∧ claim.key.evidence ≠ evidence)))

def revisionTypeOf (prior : Option Claim) (direction : ℤ) : RevisionType :=
  match prior with
  | none => .new
  | some prior => if prior.direction ≠ direction ∧ direction ≠ 0 then .reverse else .confirm

def persistClaimRevision (subject : Subject) (claim : ClaimKey) (direction : ℤ) (ledger : Ledger) : Ledger :=
  let prior := priorClaim ledger.claims subject claim.evidence
  let revision : Revision := ⟨prior.map Claim.key, claim, revisionTypeOf prior direction⟩
  if ledger.revisions.any (fun row => decide (row.claim = claim ∧ row.revisionType = revision.revisionType)) then ledger
  else { ledger with revisions := ledger.revisions ++ [revision] }

/-! ## Claims -/

/-- A claim that a text yields. -/
structure Draft where
  scope : Scope
  subjectKey : String
  horizonDays : ℕ
  extractorVersion : String
  direction : ℤ
  strength : ℚ

/-- A claim to be written. -/
structure Write where
  evidence : EvidenceKey
  draft : Draft

def Write.key (write : Write) : ClaimKey :=
  ⟨write.evidence, write.draft.scope, write.draft.subjectKey, write.draft.horizonDays, write.draft.extractorVersion⟩

def Write.subject (analystId : String) (write : Write) : Subject := ⟨analystId, write.draft.scope, write.draft.subjectKey⟩

/-- `INSERT INTO analyst_claims … ON CONFLICT … DO UPDATE` -/
def upsertClaim (now : Timestamp) (analystId : String) (availableAt : Timestamp) (write : Write) (claims : List Claim) : List Claim :=
  if claims.any (fun claim => decide (claim.key = write.key)) then
    Keyed.update Claim.key write.key
      (fun claim => { claim with direction := write.draft.direction, strength := write.draft.strength, availableAt := availableAt }) claims
  else claims ++ [⟨write.key, analystId, write.draft.direction, write.draft.strength, availableAt, now⟩]

/-- A claim with its revision. -/
def writeClaim (now : Timestamp) (analystId : String) (availableAt : Timestamp) (ledger : Ledger) (write : Write) : Ledger :=
  persistClaimRevision (write.subject analystId) write.key write.draft.direction
    { ledger with claims := upsertClaim now analystId availableAt write ledger.claims }

/-- Deleting a report's claims cascades to their revisions and clears where they are the prior claim. -/
def deleteClaims (source : Source) (ledger : Ledger) : Ledger where
  claims := ledger.claims.filter (fun claim => decide (claim.key.evidence.source ≠ source))
  revisions := (ledger.revisions.filter (fun revision => decide (revision.claim.evidence.source ≠ source))).map (fun revision =>
    { revision with priorClaim := revision.priorClaim.filter (fun prior => decide (prior.evidence.source ≠ source)) })

/-! ## Texts -/

/-- A security that `extract_signals` finds in a text. -/
structure Signal where
  symbol : String
  direction : ℤ
  strength : ℚ
  horizonDays : ℕ

/-- The text functions that an import calls, and the hash of a text. -/
structure Extraction where
  stripMediaReferences : String → String
  textHash : String → String
  extractSignals : String → List Signal
  classifyRemoteText : String → ℤ × ℚ
  horizonDays : String → ℕ
  isMarketOpinion : String → Bool
  extractTopics : String → List String
  normalizeTopicKey : String → String

/-- An analyst's report, its labels as texts. -/
structure Report where
  analystId : String
  reportId : String
  date : String
  version : String
  contentHash : String
  rawMarkdown : String
  summary : String
  sections : List (String × String)
  mentionedStocks : List String
  mentionedSectors : List String
  predictions : List String

/-- An analyst's message. -/
structure Message where
  messageId : String
  analystId : String
  sourceItemId : String
  version : String
  contentHash : String
  receivedAt : Option Timestamp
  strategyAvailableAt : Option Timestamp
  type : String
  statedPrecision : Option String
  content : String

section Texts

variable (x : Extraction)

def textOnlyRemoteReport (report : Report) : Report where
  analystId := x.stripMediaReferences report.analystId
  reportId := x.stripMediaReferences report.reportId
  date := x.stripMediaReferences report.date
  version := x.stripMediaReferences report.version
  contentHash := x.stripMediaReferences report.contentHash
  rawMarkdown := x.stripMediaReferences report.rawMarkdown
  summary := x.stripMediaReferences report.summary
  sections := report.sections.map (fun entry => (entry.1, x.stripMediaReferences entry.2))
  mentionedStocks := report.mentionedStocks.map x.stripMediaReferences
  mentionedSectors := report.mentionedSectors.map x.stripMediaReferences
  predictions := report.predictions.map x.stripMediaReferences

def textOnlyRemoteMessage (message : Message) : Message :=
  { message with
    messageId := x.stripMediaReferences message.messageId
    analystId := x.stripMediaReferences message.analystId
    sourceItemId := x.stripMediaReferences message.sourceItemId
    version := x.stripMediaReferences message.version
    contentHash := x.stripMediaReferences message.contentHash
    type := x.stripMediaReferences message.type
    statedPrecision := message.statedPrecision.map x.stripMediaReferences
    content := x.stripMediaReferences message.content }

/-- `evidence_fragments`: the key and the body of each. -/
def evidenceFragments (report : Report) : List (String × String) :=
  let report := textOnlyRemoteReport x report
  (if report.rawMarkdown ≠ "" then [("raw_markdown", report.rawMarkdown)] else []) ++
    (if report.summary ≠ "" ∧ report.summary ≠ report.rawMarkdown then [("summary", report.summary)] else []) ++
    (report.sections.filter (fun entry => decide (entry.2 ≠ ""))).map (fun entry => ("section:" ++ entry.1, entry.2))

def labels (values : List String) : List String := (values.filter (fun label => decide (label ≠ ""))).eraseDups

def reportTopicLabels (report : Report) (body : String) : List String :=
  labels (labels report.mentionedSectors ++ labels report.predictions ++ x.extractTopics report.summary ++ x.extractTopics body)

/-- The market claim of a text, if it holds one. -/
def marketDraft (extractorVersion body : String) : List Draft :=
  if x.isMarketOpinion body then
    [⟨.market, "CN_A_MARKET", x.horizonDays body, extractorVersion, (x.classifyRemoteText body).1, (x.classifyRemoteText body).2⟩]
  else []

def signalDrafts (extractorVersion body : String) : List Draft :=
  (x.extractSignals body).map (fun signal =>
    ⟨.stock, signal.symbol, signal.horizonDays, extractorVersion, signal.direction, signal.strength⟩)

/-- The claims of a label of a text as a whole. -/
def labelDraft (scope : Scope) (subjectKey extractorVersion body : String) : Draft :=
  ⟨scope, subjectKey, x.horizonDays body, extractorVersion, (x.classifyRemoteText body).1, (x.classifyRemoteText body).2⟩

/-- `_materialize_message_claims` -/
def messageDrafts (body : String) : List Draft :=
  signalDrafts x "remote-message-normalizer-v1" body ++
    (x.extractTopics body).map (fun label =>
      labelDraft x .theme (x.normalizeTopicKey label) "remote-message-topic-normalizer-v1" body) ++
    marketDraft x "remote-message-market-normalizer-v1" body

/-- The claims of a report's fragment; `resolve` is `resolve_instrument_symbol` on the instruments as they are. -/
def reportDrafts (resolve : String → Option String) (report : Report) (body : String) : List Draft :=
  signalDrafts x "remote-report-normalizer-v2" body ++
    (labels report.mentionedStocks).filterMap (fun label =>
      (resolve label).map (fun symbol => labelDraft x .stock symbol "remote-report-normalizer-v2" body)) ++
    (reportTopicLabels x report body).map (fun label =>
      labelDraft x .theme (x.normalizeTopicKey label) "remote-report-normalizer-v3" body) ++
    marketDraft x "remote-market-normalizer-v1" body

end Texts

/-! ## Imports -/

/-- A row of `remote_reports`. -/
structure ReportRow where
  reportId : String
  payload : Report

/-- A row of `remote_report_versions` or `remote_analyst_message_versions`. -/
structure VersionRow where
  source : Source
  version : String
  contentHash : String
  firstSeenAt : Timestamp

/-- A row of `remote_analyst_messages`. -/
structure MessageRow where
  messageId : String
  contentHash : String
  receivedAt : Timestamp
  payload : Message

structure Tables where
  reports : List ReportRow := []
  messages : List MessageRow := []
  versions : List VersionRow := []
  evidence : List Evidence := []
  ledger : Ledger := {}

/-- A version that is seen again keeps when it was seen first. -/
def seeVersion (row : VersionRow) (versions : List VersionRow) : List VersionRow :=
  if versions.any (fun seen => decide (seen.source = row.source ∧ seen.version = row.version ∧ seen.contentHash = row.contentHash)) then
    versions
  else versions ++ [row]

/-- `RETURNING first_seen_at` -/
def firstSeenAt (row : VersionRow) (versions : List VersionRow) : Timestamp :=
  ((versions.find? (fun seen =>
    decide (seen.source = row.source ∧ seen.version = row.version ∧ seen.contentHash = row.contentHash))).map
      VersionRow.firstSeenAt).getD row.firstSeenAt

def upsertEvidence (row : Evidence) (evidence : List Evidence) : List Evidence :=
  if evidence.any (fun stored => decide (stored.key = row.key)) then
    Keyed.update Evidence.key row.key (fun stored => { stored with availableAt := row.availableAt }) evidence
  else evidence ++ [row]

inductive Refusal
  | missingFields | strategyTime | invalidType | invalidPrecision | receivedAtChanged

section Imports

variable (x : Extraction)

/-- The evidence of a text with its claims. -/
def importFragment (now : Timestamp) (analystId : String) (availableAt : Timestamp) (key : EvidenceKey) (body : String)
    (drafts : List Draft) (tables : Tables) : Tables :=
  { tables with
    evidence := upsertEvidence ⟨key, body, availableAt⟩ tables.evidence
    ledger := (drafts.map (Write.mk key)).foldl (writeClaim now analystId availableAt) tables.ledger }

/-- The types of a message. -/
def messageTypes : List String := ["text", "url", "image_ocr", "audio", "video"]

/-- The checks of a message; its time of receipt. -/
def checkMessage (message : Message) : Except Refusal Timestamp :=
  match message.receivedAt with
  | none => .error .missingFields
  | some receivedAt =>
      if message.messageId = "" ∨ message.analystId = "" ∨ message.sourceItemId = "" ∨ message.version = "" ∨ message.contentHash = "" then
        .error .missingFields
      else if message.strategyAvailableAt ≠ some receivedAt then .error .strategyTime
      else if !messageTypes.contains (if message.type = "" then "text" else message.type) then .error .invalidType
      else if !(message.statedPrecision.all (fun precision => precision == "minute" || precision == "second")) then
        .error .invalidPrecision
      else .ok receivedAt

def findMessage (messageId : String) (tables : Tables) : Option MessageRow :=
  tables.messages.find? (fun row => decide (row.messageId = messageId))

def importRemoteAnalystMessage (now : Timestamp) (message : Message) (tables : Tables) : Except Refusal Tables := do
  let message := textOnlyRemoteMessage x message
  let receivedAt ← checkMessage message
  let seen := seeVersion ⟨.message message.messageId, message.version, message.contentHash, now⟩ tables.versions
  let key : EvidenceKey := ⟨.message message.messageId, "content", x.textHash message.content⟩
  let drafts := messageDrafts x message.content
  match findMessage message.messageId tables with
  | none => .ok (importFragment now message.analystId receivedAt key message.content drafts
      { tables with
        messages := tables.messages ++ [⟨message.messageId, message.contentHash, receivedAt, message⟩]
        versions := seen })
  | some previous =>
      if previous.receivedAt ≠ receivedAt then .error .receivedAtChanged
      else if previous.contentHash ≠ message.contentHash then .ok { tables with versions := seen }
      else .ok (importFragment now message.analystId receivedAt key message.content drafts
        { tables with
          messages := Keyed.update MessageRow.messageId message.messageId (fun row => { row with payload := message }) tables.messages
          versions := seen })

/-- Whether the stored sections or the markdown differ from the report's. -/
def sanitizedContentChanged (previous report : Report) : Bool :=
  !(previous.rawMarkdown == report.rawMarkdown && previous.sections.all report.sections.contains &&
    report.sections.all previous.sections.contains)

/-- The report as it is stored, with its version. -/
def storeReport (now : Timestamp) (report : Report) (tables : Tables) : Tables :=
  { tables with
    reports :=
      if tables.reports.any (fun row => decide (row.reportId = report.reportId)) then
        Keyed.update ReportRow.reportId report.reportId (fun row => { row with payload := report }) tables.reports
      else tables.reports ++ [⟨report.reportId, report⟩]
    versions := seeVersion ⟨.report report.reportId, report.version, report.contentHash, now⟩ tables.versions }

/-- `DELETE FROM analyst_claims …` and `DELETE FROM analyst_evidence …` -/
def deleteEvidence (source : Source) (tables : Tables) : Tables :=
  { tables with
    evidence := tables.evidence.filter (fun row => decide (row.key.source ≠ source))
    ledger := deleteClaims source tables.ledger }

/-- A required field of a report is missing. -/
def isIncomplete (report : Report) : Bool :=
  decide (report.analystId = "" ∨ report.reportId = "" ∨ report.date = "" ∨ report.version = "" ∨ report.contentHash = "")

def findReport (reportId : String) (tables : Tables) : Option Report :=
  (tables.reports.find? (fun row => decide (row.reportId = reportId))).map ReportRow.payload

/-- `sanitized_content_changed` -/
def sanitizedChanged (report : Report) (tables : Tables) : Bool :=
  (findReport report.reportId tables).any (fun previous => sanitizedContentChanged previous report)

/-- `changed` -/
def isChanged (report : Report) (tables : Tables) : Bool :=
  (findReport report.reportId tables).all (fun previous =>
    decide (previous.version ≠ report.version ∨ previous.contentHash ≠ report.contentHash)) || sanitizedChanged report tables

/-- When this version of a report was first seen. -/
def reportAvailableAt (now : Timestamp) (report : Report) (tables : Tables) : Timestamp :=
  firstSeenAt ⟨.report report.reportId, report.version, report.contentHash, now⟩ tables.versions

def importRemoteReport (now : Timestamp) (forceReprocess : Bool) (resolve : String → Option String) (report : Report)
    (tables : Tables) : Except Refusal Tables :=
  let report := textOnlyRemoteReport x report
  if isIncomplete report then .error .missingFields
  else
    let stored := storeReport now report tables
    let availableAt := reportAvailableAt now report tables
    if !isChanged report tables && !forceReprocess then .ok stored
    else
      let cleared := if forceReprocess || sanitizedChanged report tables then deleteEvidence (.report report.reportId) stored else stored
      .ok ((evidenceFragments x report).foldl (fun tables fragment =>
        importFragment now report.analystId availableAt ⟨.report report.reportId, fragment.1, x.textHash fragment.2⟩ fragment.2
          (reportDrafts x resolve report fragment.2) tables) cleared)

/-- An import. Reprocessing stored texts is importing their payloads, a report with `force_reprocess`. -/
inductive Op
  | message (now : Timestamp) (message : Message)
  | report (now : Timestamp) (forceReprocess : Bool) (resolve : String → Option String) (report : Report)

/-- An import that raises is rolled back. -/
def step (op : Op) (tables : Tables) : Tables :=
  match op with
  | .message now message => (importRemoteAnalystMessage x now message tables).toOption.getD tables
  | .report now force resolve report => (importRemoteReport x now force resolve report tables).toOption.getD tables

end Imports

end TradingHarness.Analysts
