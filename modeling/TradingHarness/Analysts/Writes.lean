import TradingHarness.Analysts.Archive

set_option autoImplicit false

/-! # What an import writes

Every import that passes its checks deletes the claims of its source or not, and then writes the claims of its texts one
after the other. -/

namespace TradingHarness.Analysts

/-- An import that gets to the claims. -/
structure Import where
  analystId : String
  source : Source
  availableAt : Timestamp
  deletes : Bool
  writes : List Write

section Plans

variable (x : Extraction)

def messageImport (message : Message) (tables : Tables) : Option Import :=
  let message := textOnlyRemoteMessage x message
  match checkMessage message with
  | .error _ => none
  | .ok receivedAt =>
      if (findMessage message.messageId tables).all (fun previous =>
          decide (previous.receivedAt = receivedAt ∧ previous.contentHash = message.contentHash)) then
        some ⟨message.analystId, .message message.messageId, receivedAt, false,
          (messageDrafts x message.content).map (Write.mk ⟨.message message.messageId, "content", x.textHash message.content⟩)⟩
      else none

/-- The claims of a report's fragments. -/
def reportWrites (resolve : String → Option String) (report : Report) : List Write :=
  (evidenceFragments x report).flatMap (fun fragment =>
    (reportDrafts x resolve report fragment.2).map (Write.mk ⟨.report report.reportId, fragment.1, x.textHash fragment.2⟩))

def reportImport (now : Timestamp) (forceReprocess : Bool) (resolve : String → Option String) (report : Report) (tables : Tables) :
    Option Import :=
  let report := textOnlyRemoteReport x report
  if isIncomplete report then none
  else if !isChanged report tables && !forceReprocess then none
  else some ⟨report.analystId, .report report.reportId, reportAvailableAt now report tables,
    forceReprocess || sanitizedChanged report tables, reportWrites x resolve report⟩

def Op.now : Op → Timestamp
  | .message now _ => now
  | .report now _ _ _ => now

/-- The import that an operation makes, unless it is refused or finds nothing changed. -/
def importOf (op : Op) (tables : Tables) : Option Import :=
  match op with
  | .message _ message => messageImport x message tables
  | .report now force resolve report => reportImport x now force resolve report tables

/-- The claims that an import leaves before it writes. -/
def Import.cleared (plan : Import) (ledger : Ledger) : Ledger := if plan.deletes then deleteClaims plan.source ledger else ledger

/-- What an import makes of the ledger. -/
def Import.apply (plan : Import) (now : Timestamp) (ledger : Ledger) : Ledger :=
  plan.writes.foldl (writeClaim now plan.analystId plan.availableAt) (plan.cleared ledger)

section

variable (now : Timestamp)

theorem ledger_importFragments (analystId : String) (availableAt : Timestamp) (key : String × String → EvidenceKey)
    (drafts : String × String → List Draft) (fragments : List (String × String)) (tables : Tables) :
    (fragments.foldl (fun tables fragment => importFragment now analystId availableAt (key fragment) fragment.2 (drafts fragment) tables)
      tables).ledger =
      (fragments.flatMap (fun fragment => (drafts fragment).map (Write.mk (key fragment)))).foldl
        (writeClaim now analystId availableAt) tables.ledger := by
  induction fragments generalizing tables with
  | nil => rfl
  | cons first rest ih =>
      rw [List.foldl_cons, ih, List.flatMap_cons, List.foldl_append]
      rfl

theorem ledger_message (message : Message) (tables : Tables) :
    (step x (.message now message) tables).ledger =
      (messageImport x message tables).elim tables.ledger (fun plan => plan.apply now tables.ledger) := by
  unfold step importRemoteAnalystMessage messageImport
  dsimp only
  rcases hcheck : checkMessage (textOnlyRemoteMessage x message) with error | receivedAt
  · rfl
  · simp only [bind, Except.bind]
    rcases hfind : findMessage (textOnlyRemoteMessage x message).messageId tables with _ | previous
    · rfl
    · dsimp only
      by_cases hreceived : previous.receivedAt = receivedAt
      · by_cases hhash : previous.contentHash = (textOnlyRemoteMessage x message).contentHash
        · rw [if_neg (not_not.mpr hreceived), if_neg (not_not.mpr hhash), if_pos (by simp [hreceived, hhash])]
          rfl
        · rw [if_neg (not_not.mpr hreceived), if_pos hhash, if_neg (by simp [hhash])]
          rfl
      · rw [if_pos hreceived, if_neg (by simp [hreceived])]
        rfl

theorem ledger_report (force : Bool) (resolve : String → Option String) (report : Report) (tables : Tables) :
    (step x (.report now force resolve report) tables).ledger =
      (reportImport x now force resolve report tables).elim tables.ledger (fun plan => plan.apply now tables.ledger) := by
  unfold step importRemoteReport reportImport
  dsimp only
  by_cases hincomplete : isIncomplete (textOnlyRemoteReport x report) = true
  · rw [if_pos hincomplete, if_pos hincomplete]
    rfl
  · rw [if_neg hincomplete, if_neg hincomplete]
    by_cases hskip : (!isChanged (textOnlyRemoteReport x report) tables && !force) = true
    · rw [if_pos hskip, if_pos hskip]
      rfl
    · rw [if_neg hskip, if_neg hskip]
      simp only [Except.toOption, Option.getD_some, Option.elim_some]
      rw [ledger_importFragments now _ _ (fun fragment =>
        ⟨.report (textOnlyRemoteReport x report).reportId, fragment.1, x.textHash fragment.2⟩)]
      unfold Import.apply Import.cleared reportWrites
      dsimp only
      split <;> rfl

end

/-- **A step writes what its import says, and nothing without one.** -/
theorem step_ledger (op : Op) (tables : Tables) :
    (step x op tables).ledger = (importOf x op tables).elim tables.ledger (fun plan => plan.apply op.now tables.ledger) := by
  cases op with
  | message now message => exact ledger_message x now message tables
  | report now force resolve report => exact ledger_report x now force resolve report tables

end Plans

end TradingHarness.Analysts
