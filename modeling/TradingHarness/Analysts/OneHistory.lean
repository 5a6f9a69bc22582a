import TradingHarness.Analysts.History

set_option autoImplicit false

/-! # Imports that keep the history

An import whose claims all come after what is known of their subjects leaves every claim with its one revision. -/

namespace TradingHarness.Analysts

section Imports

variable {now : Timestamp} {analystId : String} {ledger : Ledger}

/-- An import that comes in its turn. -/
structure Import.Fits (plan : Import) (ledger : Ledger) : Prop where
  free : plan.deletes = true → ∀ row ∈ ledger.revisions, row.claim.evidence.source ≠ plan.source →
    ∀ prior ∈ row.priorClaim, prior.evidence.source ≠ plan.source
  fits : ∀ write ∈ plan.writes, Analysts.Fits plan.analystId plan.availableAt (plan.cleared ledger).claims write
  oneEvidence : ∀ write ∈ plan.writes, ∀ other ∈ plan.writes,
    write.subject plan.analystId = other.subject plan.analystId → write.evidence = other.evidence
  oneType : ∀ write ∈ plan.writes, ∀ other ∈ plan.writes, write.key = other.key →
    revisionTypeOf (priorClaim (plan.cleared ledger).claims (write.subject plan.analystId) write.evidence) write.draft.direction =
      revisionTypeOf (priorClaim (plan.cleared ledger).claims (write.subject plan.analystId) write.evidence) other.draft.direction
  together : ∀ write ∈ plan.writes, ∀ claim ∈ (plan.cleared ledger).claims, claim.subject = write.subject plan.analystId →
    claim.key.evidence = write.evidence → claim.availableAt = plan.availableAt ∨ ∃ other ∈ plan.writes, other.key = claim.key

instance (analystId : String) (availableAt : Timestamp) (claims : List Claim) (write : Write) :
    Decidable (Fits analystId availableAt claims write) :=
  decidable_of_iff (_ ∧ _) ⟨fun h => ⟨h.1, h.2⟩, fun h => ⟨h.later, h.sameType⟩⟩

instance (plan : Import) (ledger : Ledger) : Decidable (plan.Fits ledger) :=
  decidable_of_iff (_ ∧ _ ∧ _ ∧ _ ∧ _) ⟨fun h => ⟨h.1, h.2.1, h.2.2.1, h.2.2.2.1, h.2.2.2.2⟩,
    fun h => ⟨h.free, h.fits, h.oneEvidence, h.oneType, h.together⟩⟩

variable {plan : Import}

/-- The ledger in the middle of an import. -/
structure Midway (plan : Import) (cleared : Ledger) (done : List Write) (ledger : Ledger) : Prop where
  told : Told plan.analystId ledger
  claims : ∀ claim ∈ ledger.claims, (claim ∈ cleared.claims ∧ ∀ write ∈ done, claim.key ≠ write.key) ∨
    ∃ write ∈ done, claim.key = write.key ∧ claim.direction = write.draft.direction ∧ claim.availableAt = plan.availableAt
  prior : ∀ write ∈ plan.writes, priorClaim ledger.claims (write.subject plan.analystId) write.evidence =
    priorClaim cleared.claims (write.subject plan.analystId) write.evidence

theorem fits_midway (hfits : plan.Fits ledger) {done : List Write} (hdone : ∀ write ∈ done, write ∈ plan.writes) {middle : Ledger}
    (hmiddle : Midway plan (plan.cleared ledger) done middle) {write : Write} (hwrite : write ∈ plan.writes) :
    Fits plan.analystId plan.availableAt middle.claims write := by
  have hfit := hfits.fits write hwrite
  refine ⟨fun other hother hsubject hne => ?_, fun claim hclaim hkey => ?_⟩
  · rcases hmiddle.claims other hother with ⟨hkept, -⟩ | ⟨before, hbefore, hkey, -, -⟩
    · obtain ⟨hlt, hstored⟩ := hfit.later other hkept hsubject hne
      refine ⟨hlt, fun claim hclaim hkey => ?_⟩
      rcases hmiddle.claims claim hclaim with ⟨hkept', -⟩ | ⟨-, -, -, -, havailable⟩
      · exact hstored claim hkept' hkey
      · rw [havailable]
        exact hlt
    · -- what the import has written of the subject is of the same evidence
      have hsame := hfits.oneEvidence before (hdone before hbefore) write hwrite
        ((subject_of_key hkey (hmiddle.told.analyst other hother)).symm.trans hsubject)
      exact absurd (by rw [hkey]; exact hsame) hne
  · rw [hmiddle.prior write hwrite]
    rcases hmiddle.claims claim hclaim with ⟨hkept, -⟩ | ⟨before, hbefore, hkey', hdirection, -⟩
    · exact hfit.sameType claim hkept hkey
    · rw [hdirection]
      exact hfits.oneType write hwrite before (hdone before hbefore) (hkey.symm.trans hkey')

theorem midway_write (hfits : plan.Fits ledger) {done : List Write} {write : Write}
    (hdone : ∀ other ∈ done ++ [write], other ∈ plan.writes) {middle : Ledger}
    (hmiddle : Midway plan (plan.cleared ledger) done middle) :
    Midway plan (plan.cleared ledger) (done ++ [write]) (writeClaim now plan.analystId plan.availableAt middle write) := by
  have hwrite := hdone write (List.mem_append_right _ (List.mem_singleton_self _))
  have hfit := fits_midway hfits (fun other hother => hdone other (List.mem_append_left _ hother)) hmiddle hwrite
  have hclaims : (writeClaim now plan.analystId plan.availableAt middle write).claims =
      upsertClaim now plan.analystId plan.availableAt write middle.claims := by
    unfold writeClaim persistClaimRevision
    dsimp only
    split <;> rfl
  refine ⟨told_writeClaim hmiddle.told hfit, fun claim hclaim => ?_, fun other hother => ?_⟩
  · rw [hclaims] at hclaim
    rcases mem_upsertClaim hclaim with ⟨hold, hne⟩ | ⟨hkey, hdirection, -, havailable, -⟩
    · rcases hmiddle.claims claim hold with ⟨hkept, hnone⟩ | ⟨before, hbefore, hrest⟩
      · refine Or.inl ⟨hkept, fun other hother => ?_⟩
        rcases List.mem_append.mp hother with hbefore | hlast
        · exact hnone other hbefore
        · rw [List.mem_singleton.mp hlast]
          exact hne
      · exact Or.inr ⟨before, List.mem_append_left _ hbefore, hrest⟩
    · exact Or.inr ⟨write, List.mem_append_right _ (List.mem_singleton_self _), hkey, hdirection, havailable⟩
  · rw [hclaims, ← hmiddle.prior other hother]
    refine priorClaim_upsert_of _ (fun claim hkey hsubject => hfits.oneEvidence write hwrite other hother ?_)
    exact (subject_of_key hkey (congrArg Subject.analystId hsubject)).symm.trans hsubject

/-- **An import that fits keeps the history.** -/
theorem told_apply (h : Told plan.analystId ledger) (htogether : Together ledger.claims) (hfits : plan.Fits ledger) :
    Told plan.analystId (plan.apply now ledger) ∧ Together (plan.apply now ledger).claims := by
  have hcleared : Told plan.analystId (plan.cleared ledger) := by
    unfold Import.cleared
    split
    next hdeletes => exact told_deleteClaims h (fun row hrow hsource prior hprior => hfits.free hdeletes row hrow hsource prior hprior)
    next => exact h
  have hsub : ∀ claim ∈ (plan.cleared ledger).claims, claim ∈ ledger.claims := by
    unfold Import.cleared
    split
    next => exact fun claim hclaim => (List.mem_filter.mp hclaim).1
    next => exact fun claim hclaim => hclaim
  have hmidway : ∀ done : List Write, (∀ write ∈ done, write ∈ plan.writes) → Midway plan (plan.cleared ledger) done
      (done.foldl (writeClaim now plan.analystId plan.availableAt) (plan.cleared ledger)) := by
    intro done
    induction done using List.reverseRecOn with
    | nil => exact fun _ => ⟨hcleared, fun claim hclaim => Or.inl ⟨hclaim, by simp⟩, fun _ _ => rfl⟩
    | append_singleton done last ih =>
        intro hdone
        rw [List.foldl_append, List.foldl_cons, List.foldl_nil]
        exact midway_write hfits hdone (ih (fun write hwrite => hdone write (List.mem_append_left _ hwrite)))
  have hall := hmidway plan.writes (fun write hwrite => hwrite)
  refine ⟨hall.told, fun claim hclaim other hother hsubject hevidence => ?_⟩
  -- claims of one subject and evidence: written or kept
  have hmixed : ∀ claim ∈ (plan.apply now ledger).claims, ∀ other ∈ (plan.apply now ledger).claims, claim.subject = other.subject →
      claim.key.evidence = other.key.evidence → (∃ write ∈ plan.writes, claim.key = write.key) →
      claim.availableAt = plan.availableAt → other ∈ (plan.cleared ledger).claims → (∀ write ∈ plan.writes, other.key ≠ write.key) →
      claim.availableAt = other.availableAt := by
    rintro claim hclaim other hother hsubject hevidence ⟨write, hwrite, hkey⟩ havailable hkept hnone
    have hsame := subject_of_key hkey (hall.told.analyst claim hclaim)
    rcases hfits.together write hwrite other hkept (hsubject.symm.trans hsame) (hevidence.symm.trans (by rw [hkey]; rfl)) with
      hat | ⟨write', hwrite', hkey'⟩
    · rw [havailable, hat]
    · exact absurd hkey'.symm (hnone write' hwrite')
  rcases hall.claims claim hclaim with ⟨hkept, hnone⟩ | ⟨write, hwrite, hkey, -, havailable⟩
  · rcases hall.claims other hother with ⟨hkept', -⟩ | ⟨write, hwrite, hkey, -, havailable⟩
    · exact htogether claim (hsub claim hkept) other (hsub other hkept') hsubject hevidence
    · exact (hmixed other hother claim hclaim hsubject.symm hevidence.symm ⟨write, hwrite, hkey⟩ havailable hkept hnone).symm
  · rcases hall.claims other hother with ⟨hkept', hnone⟩ | ⟨write', hwrite', hkey', -, havailable'⟩
    · exact hmixed claim hclaim other hother hsubject hevidence ⟨write, hwrite, hkey⟩ havailable hkept' hnone
    · rw [havailable, havailable']

end Imports

/-! ## Runs of imports -/

section Runs

variable {x : Extraction} {analystId : String} {tables : Tables}

/-- An import of the analyst whose claims come in their turn, or one that changes no claim. -/
def Allowed (x : Extraction) (analystId : String) (tables : Tables) (op : Op) : Prop :=
  ∀ plan ∈ importOf x op tables, plan.analystId = analystId ∧ plan.Fits tables.ledger

instance (x : Extraction) (analystId : String) (tables : Tables) (op : Op) : Decidable (Allowed x analystId tables op) :=
  inferInstanceAs (Decidable (∀ plan ∈ importOf x op tables, plan.analystId = analystId ∧ plan.Fits tables.ledger))

/-- **In every run of imports that come in their turn the claims of an analyst form one history.** -/
theorem claims_form_one_history (hrun : Driven.Run (step x) (Allowed x analystId) {} tables) : HistoryRight tables.ledger := by
  have hinv : Told analystId tables.ledger ∧ Together tables.ledger.claims := by
    refine @Driven.Run.keeps _ _ _ _ _ _ hrun (fun tables => Told analystId tables.ledger ∧ Together tables.ledger.claims)
      ⟨⟨by decide, by simp, by simp, by simp⟩, fun claim hclaim => absurd hclaim List.not_mem_nil⟩ ?_
    rintro tables op ⟨htold, htogether⟩ hallowed
    rw [step_ledger]
    rcases hplan : importOf x op tables with _ | plan
    · exact ⟨htold, htogether⟩
    · obtain ⟨rfl, hfits⟩ := hallowed plan hplan
      exact told_apply htold htogether hfits
  exact historyRight_of_told hinv.1 hinv.2

end Runs

/-! ## Witness and counterexample -/

/-- Texts that mention one stock, as the extractor reads them. -/
def stockTexts : Extraction where
  stripMediaReferences text := text
  textHash text := text
  extractSignals text :=
    if text = "看好600176" then [⟨"600176.SH", 1, 62 / 100, 20⟩]
    else if text = "看空600176" then [⟨"600176.SH", -1, 62 / 100, 20⟩]
    else []
  classifyRemoteText text := if text = "看好600176" then (1, 65 / 100) else if text = "看空600176" then (-1, 65 / 100) else (0, 1 / 2)
  horizonDays _ := 20
  isMarketOpinion _ := false
  extractTopics _ := []
  normalizeTopicKey label := "remote:" ++ label

def messageAt (messageId : String) (receivedAt : Timestamp) (content : String) : Message :=
  ⟨messageId, "a", messageId, "1", messageId, some receivedAt, some receivedAt, "text", none, content⟩

def importMessage (now : Timestamp) (messageId : String) (receivedAt : Timestamp) (content : String) : Op :=
  .message now (messageAt messageId receivedAt content)

/-- Two messages in turn, the second of them synchronised twice. -/
theorem claims_form_one_history_in_turn : HistoryRight (Driven.afterwards (step stockTexts)
    [importMessage 11 "m1" 1 "看好600176", importMessage 12 "m2" 2 "看空600176", importMessage 13 "m2" 2 "看空600176"] {}).ledger :=
  claims_form_one_history (@Driven.run_afterwards _ _ _ (Allowed stockTexts "a") _ _ (by decide +kernel))

/-- Whose report or message an import brings. -/
def Op.analystId : Op → String
  | .message _ text => text.analystId
  | .report _ _ _ text => text.analystId

/-- The first message, synchronised again after the second, gets a second revision. -/
theorem first_message_is_revised_twice : ¬ ∀ (x : Extraction) (analystId : String) (ops : List Op),
    (∀ op ∈ ops, op.analystId = analystId) → HistoryRight (Driven.afterwards (step x) ops {}).ledger := by
  intro h
  have hright := h stockTexts "a"
    [importMessage 11 "m1" 1 "看好600176", importMessage 12 "m2" 2 "看空600176", importMessage 13 "m1" 1 "看好600176"] (by decide)
  obtain ⟨claim, hclaim, htwice⟩ : ∃ claim ∈ (Driven.afterwards (step stockTexts)
      [importMessage 11 "m1" 1 "看好600176", importMessage 12 "m2" 2 "看空600176", importMessage 13 "m1" 1 "看好600176"] {}).ledger.claims,
      ((Driven.afterwards (step stockTexts)
        [importMessage 11 "m1" 1 "看好600176", importMessage 12 "m2" 2 "看空600176", importMessage 13 "m1" 1 "看好600176"]
        {}).ledger.revisions.filter (fun row => decide (row.claim = claim.key))).length = 2 := by
    decide +kernel
  obtain ⟨revision, hone, -⟩ := hright claim hclaim
  rw [hone] at htwice
  exact absurd htwice (by simp)

end TradingHarness.Analysts
