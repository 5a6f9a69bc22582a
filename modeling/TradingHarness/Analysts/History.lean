import TradingHarness.Analysts.Writes
import TradingHarness.Library.Driven

set_option autoImplicit false

/-! # The history of claims

Each claim's revision ties it to the latest claim of its subject before it. When that holds, and which imports keep it. -/

namespace TradingHarness.Analysts

/-! ## What a revision should say -/

/-- The latest claim of a subject that became available before a claim. -/
structure IsPrior (claims : List Claim) (claim prior : Claim) : Prop where
  mem : prior ∈ claims
  subject : prior.subject = claim.subject
  before : prior.availableAt < claim.availableAt
  latest : ∀ other ∈ claims, other.subject = claim.subject → other.availableAt < claim.availableAt → other.availableAt ≤ prior.availableAt

variable (claims : List Claim) (claim : Claim)

/-- A revision of a claim: what is before it, and what it makes of that. -/
def RevisionRight (revision : Revision) : Prop :=
  (revision.priorClaim = none ∧ revision.revisionType = .new ∧
    ∀ other ∈ claims, other.subject = claim.subject → ¬ other.availableAt < claim.availableAt) ∨
  ∃ prior, IsPrior claims claim prior ∧ revision.priorClaim = some prior.key ∧ revision.revisionType =
    if claim.direction ≠ 0 ∧ claim.direction ≠ prior.direction then .reverse else .confirm

/-- Every claim has one revision, and it is right. -/
def HistoryRight (ledger : Ledger) : Prop :=
  ∀ claim ∈ ledger.claims, ∃ revision,
    ledger.revisions.filter (fun row => decide (row.claim = claim.key)) = [revision] ∧ RevisionRight ledger.claims claim revision

/-! ## What the code's revision says -/

/-- The claim before a claim, from other evidence. -/
def priorOf : Option Claim :=
  Newest.latest Claim.time (claims.filter (fun other =>
    decide (other.subject = claim.subject ∧ other.key.evidence ≠ claim.key.evidence ∧ other.availableAt < claim.availableAt)))

def revisionOf : Revision :=
  ⟨(priorOf claims claim).map Claim.key, claim.key, revisionTypeOf (priorOf claims claim) claim.direction⟩

/-- Each claim of an analyst has the revision that ties it to other evidence before it. -/
structure Told (analystId : String) (ledger : Ledger) : Prop where
  nodup : (ledger.claims.map Claim.key).Nodup
  analyst : ∀ claim ∈ ledger.claims, claim.analystId = analystId
  told : ∀ claim ∈ ledger.claims,
    ledger.revisions.filter (fun row => decide (row.claim = claim.key)) = [revisionOf ledger.claims claim]
  known : ∀ row ∈ ledger.revisions, ∃ claim ∈ ledger.claims, claim.key = row.claim

/-- One evidence's claims of a subject became available together. -/
def Together : Prop :=
  ∀ claim ∈ claims, ∀ other ∈ claims, claim.subject = other.subject → claim.key.evidence = other.key.evidence →
    claim.availableAt = other.availableAt

theorem historyRight_of_told {analystId : String} {ledger : Ledger} (h : Told analystId ledger) (htogether : Together ledger.claims) :
    HistoryRight ledger := by
  intro claim hclaim
  refine ⟨_, h.told claim hclaim, ?_⟩
  -- what came before is from other evidence
  have hother : ∀ other ∈ ledger.claims, other.subject = claim.subject → other.availableAt < claim.availableAt →
      other.key.evidence ≠ claim.key.evidence := by
    intro other hmem hsubject hbefore hsame
    exact absurd (htogether other hmem claim hclaim hsubject hsame) (Int.ne_of_lt hbefore)
  unfold RevisionRight revisionOf
  rcases hprior : priorOf ledger.claims claim with _ | prior
  · refine Or.inl ⟨rfl, rfl, fun other hmem hsubject hbefore => ?_⟩
    unfold priorOf at hprior
    rw [Newest.latest_eq_none, List.filter_eq_nil_iff] at hprior
    exact hprior other hmem (decide_eq_true ⟨hsubject, hother other hmem hsubject hbefore, hbefore⟩)
  · obtain ⟨hmem, hmax⟩ := Newest.latest_spec hprior
    obtain ⟨hmem, hholds⟩ := List.mem_filter.mp hmem
    obtain ⟨hsubject, -, hbefore⟩ := of_decide_eq_true hholds
    refine Or.inr ⟨prior, ⟨hmem, hsubject, hbefore, fun other hother' hsubject' hbefore' => ?_⟩, rfl, ?_⟩
    · have hle := hmax other (List.mem_filter.mpr ⟨hother',
        decide_eq_true ⟨hsubject', hother other hother' hsubject' hbefore', hbefore'⟩⟩)
      exact (Prod.Lex.toLex_le_toLex.mp hle).elim Int.le_of_lt (fun heq => Int.le_of_eq heq.1)
    · unfold revisionTypeOf
      by_cases hzero : claim.direction = 0
      · simp [hzero]
      · simp [hzero, eq_comm]

/-! ## One claim -/

section Upsert

variable {now : Timestamp} {analystId : String} {availableAt : Timestamp} {write : Write} {claims : List Claim}

theorem upsertClaim_stored (h : ∃ claim ∈ claims, claim.key = write.key) : upsertClaim now analystId availableAt write claims =
    Keyed.update Claim.key write.key
      (fun claim => { claim with direction := write.draft.direction, strength := write.draft.strength, availableAt := availableAt })
      claims := by
  obtain ⟨claim, hclaim, hkey⟩ := h
  exact if_pos (List.any_eq_true.mpr ⟨claim, hclaim, decide_eq_true hkey⟩)

theorem upsertClaim_fresh (h : ∀ claim ∈ claims, claim.key ≠ write.key) : upsertClaim now analystId availableAt write claims =
    claims ++ [⟨write.key, analystId, write.draft.direction, write.draft.strength, availableAt, now⟩] := by
  refine if_neg (fun hany => ?_)
  obtain ⟨claim, hclaim, hkey⟩ := List.any_eq_true.mp hany
  exact h claim hclaim (of_decide_eq_true hkey)

/-- The claim of a write as it was, or as it is new. -/
theorem mem_upsertClaim {claim : Claim} (h : claim ∈ upsertClaim now analystId availableAt write claims) :
    (claim ∈ claims ∧ claim.key ≠ write.key) ∨
      (claim.key = write.key ∧ claim.direction = write.draft.direction ∧ claim.strength = write.draft.strength ∧
        claim.availableAt = availableAt ∧
        ((∃ old ∈ claims, old.key = write.key ∧ claim.analystId = old.analystId) ∨
          ((∀ old ∈ claims, old.key ≠ write.key) ∧ claim.analystId = analystId))) := by
  by_cases hstored : ∃ old ∈ claims, old.key = write.key
  · rw [upsertClaim_stored hstored] at h
    rcases Keyed.mem_update.mp h with ⟨old, hold, hkey, rfl⟩ | hrest
    · exact Or.inr ⟨hkey, rfl, rfl, rfl, Or.inl ⟨old, hold, hkey, rfl⟩⟩
    · exact Or.inl hrest
  · have hfresh : ∀ old ∈ claims, old.key ≠ write.key := fun old hold hkey => hstored ⟨old, hold, hkey⟩
    rw [upsertClaim_fresh hfresh] at h
    rcases List.mem_append.mp h with hold | hnew
    · exact Or.inl ⟨hold, hfresh claim hold⟩
    · rw [List.mem_singleton.mp hnew]
      exact Or.inr ⟨rfl, rfl, rfl, rfl, Or.inr ⟨hfresh, rfl⟩⟩

theorem mem_upsertClaim_of_ne {claim : Claim} (h : claim ∈ claims) (hne : claim.key ≠ write.key) :
    claim ∈ upsertClaim now analystId availableAt write claims := by
  by_cases hstored : ∃ old ∈ claims, old.key = write.key
  · rw [upsertClaim_stored hstored]
    exact Keyed.mem_update.mpr (Or.inr ⟨h, hne⟩)
  · rw [upsertClaim_fresh (fun old hold hkey => hstored ⟨old, hold, hkey⟩)]
    exact List.mem_append_left _ h

theorem exists_upsertClaim : ∃ claim ∈ upsertClaim now analystId availableAt write claims, claim.key = write.key := by
  by_cases hstored : ∃ old ∈ claims, old.key = write.key
  · rw [upsertClaim_stored hstored]
    obtain ⟨old, hold, hkey⟩ := hstored
    exact ⟨_, Keyed.mem_update.mpr (Or.inl ⟨old, hold, hkey, rfl⟩), hkey⟩
  · rw [upsertClaim_fresh (fun old hold hkey => hstored ⟨old, hold, hkey⟩)]
    exact ⟨_, List.mem_append_right _ (List.mem_singleton_self _), rfl⟩

theorem nodup_upsertClaim (h : (claims.map Claim.key).Nodup) : ((upsertClaim now analystId availableAt write claims).map Claim.key).Nodup := by
  by_cases hstored : ∃ old ∈ claims, old.key = write.key
  · rw [upsertClaim_stored hstored, Keyed.map_update]
    · exact h
    · exact fun _ _ _ => rfl
  · rw [upsertClaim_fresh (fun old hold hkey => hstored ⟨old, hold, hkey⟩), List.map_append, List.nodup_append]
    refine ⟨h, List.nodup_singleton _, fun key hkey other hother => ?_⟩
    rw [List.map_singleton, List.mem_singleton] at hother
    rw [hother]
    rintro rfl
    obtain ⟨old, hold, hkey⟩ := List.mem_map.mp hkey
    exact hstored ⟨old, hold, hkey⟩

theorem filter_upsertClaim {holds : Claim → Bool} (hold : ∀ claim ∈ claims, claim.key = write.key → holds claim = false)
    (hnew : ∀ claim : Claim, claim.key = write.key → claim.availableAt = availableAt → holds claim = false) :
    (upsertClaim now analystId availableAt write claims).filter holds = claims.filter holds := by
  by_cases hstored : ∃ old ∈ claims, old.key = write.key
  · rw [upsertClaim_stored hstored]
    exact Keyed.filter_update _ _ hold (fun row _ hkey => hnew _ hkey rfl)
  · rw [upsertClaim_fresh (fun old hold hkey => hstored ⟨old, hold, hkey⟩), List.filter_append,
      List.filter_cons_of_neg (by rw [hnew _ rfl rfl]; decide), List.filter_nil, List.append_nil]

end Upsert

/-! ## One claim with its revision -/

section Told

variable {now : Timestamp} {analystId : String} {availableAt : Timestamp} {write : Write} {ledger : Ledger}

/-- A write that comes after what other evidence says of its subject, and repeats the revision type if its claim is stored. -/
structure Fits (analystId : String) (availableAt : Timestamp) (claims : List Claim) (write : Write) : Prop where
  later : ∀ other ∈ claims, other.subject = write.subject analystId → other.key.evidence ≠ write.evidence →
    other.availableAt < availableAt ∧ ∀ claim ∈ claims, claim.key = write.key → other.availableAt < claim.availableAt
  sameType : ∀ claim ∈ claims, claim.key = write.key →
    revisionTypeOf (priorClaim claims (write.subject analystId) write.evidence) write.draft.direction =
      revisionTypeOf (priorClaim claims (write.subject analystId) write.evidence) claim.direction

theorem subject_of_key {claim : Claim} (hkey : claim.key = write.key) (hanalyst : claim.analystId = analystId) :
    claim.subject = write.subject analystId := by
  unfold Claim.subject Write.subject
  rw [hkey, hanalyst]
  rfl

theorem priorClaim_upsert_of (claims : List Claim) {subject : Subject} {evidence : EvidenceKey}
    (hown : ∀ claim : Claim, claim.key = write.key → claim.subject = subject → write.evidence = evidence) :
    priorClaim (upsertClaim now analystId availableAt write claims) subject evidence = priorClaim claims subject evidence := by
  unfold priorClaim
  have hout : ∀ claim : Claim, claim.key = write.key → decide (claim.subject = subject ∧ claim.key.evidence ≠ evidence) = false := by
    intro claim hkey
    rw [decide_eq_false_iff_not]
    rintro ⟨hsubject, hne⟩
    refine hne ?_
    rw [hkey]
    exact hown claim hkey hsubject
  rw [filter_upsertClaim (fun claim _ => hout claim) (fun claim hkey _ => hout claim hkey)]

theorem priorClaim_upsert (claims : List Claim) (subject : Subject) :
    priorClaim (upsertClaim now analystId availableAt write claims) subject write.evidence =
      priorClaim claims subject write.evidence := priorClaim_upsert_of claims (fun _ _ _ => rfl)

theorem priorOf_eq_priorClaim {claims : List Claim} {claim : Claim}
    (hlater : ∀ other ∈ claims, other.subject = claim.subject → other.key.evidence ≠ claim.key.evidence →
      other.availableAt < claim.availableAt) : priorOf claims claim = priorClaim claims claim.subject claim.key.evidence := by
  unfold priorOf priorClaim
  refine congrArg _ (List.filter_congr (fun other hother => ?_))
  rw [decide_eq_decide]
  constructor
  · rintro ⟨hsubject, hevidence, -⟩
    exact ⟨hsubject, hevidence⟩
  · rintro ⟨hsubject, hevidence⟩
    exact ⟨hsubject, hevidence, hlater other hother hsubject hevidence⟩

section

variable (h : Told analystId ledger)

include h

section

variable (hfits : Fits analystId availableAt ledger.claims write)

include hfits

theorem priorOf_upsert {claim : Claim}
    (hclaim : claim ∈ ledger.claims) : priorOf (upsertClaim now analystId availableAt write ledger.claims) claim = priorOf ledger.claims claim := by
  unfold priorOf
  -- the write is of the same evidence, or comes later
  have hout : ∀ other : Claim, other.key = write.key →
      (other.subject = claim.subject → other.key.evidence ≠ claim.key.evidence → claim.availableAt < other.availableAt) →
      decide (other.subject = claim.subject ∧ other.key.evidence ≠ claim.key.evidence ∧ other.availableAt < claim.availableAt) = false := by
    intro other _ hlt
    rw [decide_eq_false_iff_not]
    rintro ⟨hsubject, hevidence, hbefore⟩
    exact absurd hbefore (Int.not_lt.mpr (Int.le_of_lt (hlt hsubject hevidence)))
  have hlater : ∀ other : Claim, other.key = write.key → other.subject = claim.subject → other.key.evidence ≠ claim.key.evidence →
      claim.availableAt < availableAt ∧ ∀ stored ∈ ledger.claims, stored.key = write.key → claim.availableAt < stored.availableAt := by
    intro other hkey hsubject hevidence
    have hanalyst : other.analystId = analystId :=
      (congrArg Subject.analystId hsubject).trans (h.analyst claim hclaim)
    refine hfits.later claim hclaim (hsubject.symm.trans (subject_of_key hkey hanalyst)) (fun hsame => hevidence ?_)
    rw [hsame, hkey]
    rfl
  rw [filter_upsertClaim]
  · exact fun other hother hkey => hout other hkey (fun hsubject hevidence => (hlater other hkey hsubject hevidence).2 other hother hkey)
  · intro other hkey havailable
    refine hout other hkey (fun hsubject hevidence => ?_)
    rw [havailable]
    exact (hlater other hkey hsubject hevidence).1

theorem priorOf_stored {claim : Claim}
    (hclaim : claim ∈ ledger.claims) (hkey : claim.key = write.key) :
    priorOf ledger.claims claim = priorClaim ledger.claims (write.subject analystId) write.evidence := by
  have hsubject := subject_of_key hkey (h.analyst claim hclaim)
  have hevidence : claim.key.evidence = write.evidence := by rw [hkey]; rfl
  rw [priorOf_eq_priorClaim, hsubject, hevidence]
  intro other hother hsame hne
  exact (hfits.later other hother (hsame.trans hsubject) (hevidence ▸ hne)).2 claim hclaim hkey

end

theorem analyst_upsert : ∀ claim ∈ upsertClaim now analystId availableAt write ledger.claims,
    claim.analystId = analystId := by
  intro claim hclaim
  rcases mem_upsertClaim hclaim with ⟨hold, -⟩ | ⟨-, -, -, -, hanalyst⟩
  · exact h.analyst claim hold
  · rcases hanalyst with ⟨old, hold, -, hsame⟩ | ⟨-, hnew⟩
    · exact hsame.trans (h.analyst old hold)
    · exact hnew

section

variable (hfits : Fits analystId availableAt ledger.claims write)

include hfits

theorem priorOf_written {claim : Claim}
    (hclaim : claim ∈ upsertClaim now analystId availableAt write ledger.claims) (hkey : claim.key = write.key) :
    priorOf (upsertClaim now analystId availableAt write ledger.claims) claim =
      priorClaim ledger.claims (write.subject analystId) write.evidence := by
  have hsubject := subject_of_key hkey (analyst_upsert h claim hclaim)
  have hevidence : claim.key.evidence = write.evidence := by rw [hkey]; rfl
  have havailable : claim.availableAt = availableAt := by
    rcases mem_upsertClaim hclaim with ⟨-, hne⟩ | ⟨-, -, -, havailable, -⟩
    · exact absurd hkey hne
    · exact havailable
  rw [priorOf_eq_priorClaim, hsubject, hevidence, priorClaim_upsert]
  intro other hother hsame hne
  rcases mem_upsertClaim hother with ⟨hold, -⟩ | ⟨hkey', -⟩
  · rw [havailable]
    exact (hfits.later other hold (hsame.trans hsubject) (hevidence ▸ hne)).1
  · exact absurd (by rw [hkey', hkey]) hne

/-- **A claim that fits is told with its revision.** -/
theorem told_writeClaim :
    Told analystId (writeClaim now analystId availableAt ledger write) := by
  have hwritten := @priorOf_written now analystId availableAt write ledger h hfits
  have hothers := @priorOf_upsert now analystId availableAt write ledger h hfits
  unfold writeClaim persistClaimRevision
  dsimp only
  have hprior : priorClaim (upsertClaim now analystId availableAt write ledger.claims) (write.subject analystId) write.key.evidence =
      priorClaim ledger.claims (write.subject analystId) write.evidence := priorClaim_upsert _ _
  rw [hprior]
  -- what the revision of the written claim should be
  have hrevision : ∀ claim ∈ upsertClaim now analystId availableAt write ledger.claims, claim.key = write.key →
      revisionOf (upsertClaim now analystId availableAt write ledger.claims) claim =
        ⟨(priorClaim ledger.claims (write.subject analystId) write.evidence).map Claim.key, write.key,
          revisionTypeOf (priorClaim ledger.claims (write.subject analystId) write.evidence) write.draft.direction⟩ := by
    intro claim hclaim hkey
    unfold revisionOf
    rw [hwritten hclaim hkey, hkey]
    rcases mem_upsertClaim hclaim with ⟨-, hne⟩ | ⟨-, hdirection, -⟩
    · exact absurd hkey hne
    · rw [hdirection]
  have hkept : ∀ claim ∈ ledger.claims, revisionOf (upsertClaim now analystId availableAt write ledger.claims) claim =
      revisionOf ledger.claims claim := by
    intro claim hclaim
    unfold revisionOf
    rw [hothers hclaim]
  by_cases hstored : ∃ claim ∈ ledger.claims, claim.key = write.key
  · -- the claim is stored, and its revision is the one that is to be inserted
    obtain ⟨stored, hmem, hkey⟩ := hstored
    have htold := h.told stored hmem
    have hsame : revisionOf ledger.claims stored =
        ⟨(priorClaim ledger.claims (write.subject analystId) write.evidence).map Claim.key, write.key,
          revisionTypeOf (priorClaim ledger.claims (write.subject analystId) write.evidence) write.draft.direction⟩ := by
      unfold revisionOf
      rw [priorOf_stored h hfits hmem hkey, hfits.sameType stored hmem hkey, hkey]
    have hrow := List.mem_filter.mp (htold ▸ List.mem_singleton_self (revisionOf ledger.claims stored) :
      revisionOf ledger.claims stored ∈ ledger.revisions.filter (fun row => decide (row.claim = stored.key)))
    rw [if_pos (List.any_eq_true.mpr ⟨_, hrow.1, decide_eq_true ⟨by rw [hsame], by rw [hsame]⟩⟩)]
    refine ⟨nodup_upsertClaim h.nodup, analyst_upsert h, fun claim hclaim => ?_, fun row hknown => ?_⟩
    · rcases mem_upsertClaim hclaim with ⟨hold, -⟩ | ⟨hkey', -⟩
      · rw [hkept claim hold]
        exact h.told claim hold
      · rw [hrevision claim hclaim hkey', hkey', ← hkey, htold, hsame, hkey]
    · obtain ⟨claim, hclaim, hname⟩ := h.known row hknown
      by_cases hkey' : claim.key = write.key
      · obtain ⟨written, hwritten', hname'⟩ := @exists_upsertClaim now analystId availableAt write ledger.claims
        exact ⟨written, hwritten', hname'.trans (hkey'.symm.trans hname)⟩
      · exact ⟨claim, mem_upsertClaim_of_ne hclaim hkey', hname⟩
  · -- no revision names the claim yet
    have hfresh : ∀ claim ∈ ledger.claims, claim.key ≠ write.key := fun claim hclaim hkey => hstored ⟨claim, hclaim, hkey⟩
    have hnone : ∀ row ∈ ledger.revisions, row.claim ≠ write.key := by
      intro row hrow hkey
      obtain ⟨claim, hclaim, hname⟩ := h.known row hrow
      exact hfresh claim hclaim (hname.trans hkey)
    rw [if_neg (fun hany => by
      obtain ⟨row, hrow, hsame⟩ := List.any_eq_true.mp hany
      exact hnone row hrow (of_decide_eq_true hsame).1)]
    refine ⟨nodup_upsertClaim h.nodup, analyst_upsert h, fun claim hclaim => ?_, fun row hknown => ?_⟩
    · rw [List.filter_append]
      rcases mem_upsertClaim hclaim with ⟨hold, hne⟩ | ⟨hkey, -⟩
      · rw [hkept claim hold, h.told claim hold, List.filter_cons_of_neg (by simpa using hne.symm), List.filter_nil, List.append_nil]
      · rw [hrevision claim hclaim hkey, hkey, List.filter_eq_nil_iff.mpr (fun row hrow => by simpa using hnone row hrow),
          List.nil_append, List.filter_cons_of_pos (by simp), List.filter_nil]
    · rcases List.mem_append.mp hknown with hold | hnew
      · obtain ⟨claim, hclaim, hname⟩ := h.known row hold
        exact ⟨claim, mem_upsertClaim_of_ne hclaim (hfresh claim hclaim), hname⟩
      · rw [List.mem_singleton.mp hnew]
        exact exists_upsertClaim

end

/-! ## Deleted claims -/

/-- **Claims that are no other's prior may be deleted.** -/
theorem told_deleteClaims {source : Source}
    (hfree : ∀ row ∈ ledger.revisions, row.claim.evidence.source ≠ source → ∀ prior, row.priorClaim = some prior →
      prior.evidence.source ≠ source) : Told analystId (deleteClaims source ledger) := by
  have hkept : ∀ row ∈ ledger.revisions, row.claim.evidence.source ≠ source →
      ({ row with priorClaim := row.priorClaim.filter (fun prior => decide (prior.evidence.source ≠ source)) } : Revision) = row := by
    intro row hrow hsource
    rcases hprior : row.priorClaim with _ | prior
    · rw [Option.filter_none, ← hprior]
    · rw [Option.filter_some, if_pos (decide_eq_true (hfree row hrow hsource prior hprior)), ← hprior]
  have hrevisions : (deleteClaims source ledger).revisions =
      ledger.revisions.filter (fun row => decide (row.claim.evidence.source ≠ source)) := by
    unfold deleteClaims
    dsimp only
    rw [List.map_congr_left (g := id) (fun row hrow => ?_), List.map_id]
    obtain ⟨hmem, hsource⟩ := List.mem_filter.mp hrow
    exact hkept row hmem (of_decide_eq_true hsource)
  have hclaims : (deleteClaims source ledger).claims =
      ledger.claims.filter (fun claim => decide (claim.key.evidence.source ≠ source)) := rfl
  refine ⟨?_, fun claim hclaim => ?_, fun claim hclaim => ?_, fun row hrow => ?_⟩
  · rw [hclaims]
    exact h.nodup.sublist (List.filter_sublist.map _)
  · exact h.analyst claim (List.mem_filter.mp hclaim).1
  · obtain ⟨hmem, hsource⟩ := List.mem_filter.mp hclaim
    have hsource := of_decide_eq_true hsource
    have htold := h.told claim hmem
    rw [hrevisions, List.filter_filter]
    have hsame : ledger.revisions.filter (fun row => decide (row.claim = claim.key) && decide (row.claim.evidence.source ≠ source)) =
        ledger.revisions.filter (fun row => decide (row.claim = claim.key)) := by
      refine List.filter_congr (fun row _ => ?_)
      by_cases hkey : row.claim = claim.key
      · simp [hkey, hsource]
      · simp [hkey]
    rw [hsame, htold]
    -- the prior claim stays
    have hrow := (List.mem_filter.mp (htold ▸ List.mem_singleton_self (revisionOf ledger.claims claim) :
      revisionOf ledger.claims claim ∈ ledger.revisions.filter (fun row => decide (row.claim = claim.key)))).1
    have hprior : priorOf (deleteClaims source ledger).claims claim = priorOf ledger.claims claim := by
      have hcomm : (deleteClaims source ledger).claims.filter (fun other =>
          decide (other.subject = claim.subject ∧ other.key.evidence ≠ claim.key.evidence ∧ other.availableAt < claim.availableAt)) =
          (ledger.claims.filter (fun other =>
            decide (other.subject = claim.subject ∧ other.key.evidence ≠ claim.key.evidence ∧ other.availableAt < claim.availableAt))).filter
              (fun other => decide (other.key.evidence.source ≠ source)) := by
        rw [hclaims, List.filter_filter, List.filter_filter]
        exact List.filter_congr (fun other _ => Bool.and_comm _ _)
      unfold priorOf
      rw [hcomm]
      rcases hlatest : Newest.latest Claim.time (ledger.claims.filter (fun other =>
          decide (other.subject = claim.subject ∧ other.key.evidence ≠ claim.key.evidence ∧ other.availableAt < claim.availableAt)))
        with _ | prior
      · rw [Newest.latest_eq_none.mp hlatest, List.filter_nil]
        rfl
      · refine Newest.latest_filter hlatest (decide_eq_true (hfree _ hrow hsource prior.key ?_))
        change (priorOf ledger.claims claim).map Claim.key = some prior.key
        unfold priorOf
        rw [hlatest]
        rfl
    unfold revisionOf
    rw [hprior]
  · rw [hrevisions] at hrow
    obtain ⟨hmem, hsource⟩ := List.mem_filter.mp hrow
    obtain ⟨claim, hclaim, hkey⟩ := h.known row hmem
    exact ⟨claim, List.mem_filter.mpr ⟨hclaim, by rw [hkey]; exact hsource⟩, hkey⟩

end

end Told

end TradingHarness.Analysts
