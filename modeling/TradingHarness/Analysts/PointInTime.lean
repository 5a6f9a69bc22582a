import TradingHarness.Analysts.OneHistory
import TradingHarness.Library.Runs

set_option autoImplicit false

/-! # Point-in-time claims

Which claims of reports were usable at a moment, and which imports leave that as it was. -/

namespace TradingHarness.Analysts

/-- What is compared of a report's claims. -/
structure ClaimView where
  source : Source
  scope : Scope
  subjectKey : String
  direction : ℤ
  strength : ℚ
  horizonDays : ℕ
deriving DecidableEq

def Claim.view (claim : Claim) : ClaimView :=
  ⟨claim.key.evidence.source, claim.key.scope, claim.key.subjectKey, claim.direction, claim.strength, claim.key.horizonDays⟩

/-- A claim with these contents is available at a moment. -/
def Visible (moment : Timestamp) (ledger : Ledger) (view : ClaimView) : Prop :=
  ∃ claim ∈ ledger.claims, claim.availableAt ≤ moment ∧ claim.view = view

/-- The claims that an import deletes or writes over. -/
def Import.removed (plan : Import) (ledger : Ledger) : List Claim :=
  ledger.claims.filter (fun claim =>
    (plan.deletes && decide (claim.key.evidence.source = plan.source)) || plan.writes.any (fun write => decide (claim.key = write.key)))

/-- The claims that its texts yield on their own. -/
def Import.yields (plan : Import) : List Claim :=
  plan.writes.foldl (fun claims write => upsertClaim plan.availableAt plan.analystId plan.availableAt write claims) []

/-- An import that takes nothing away that was available before it, and adds nothing. -/
def Import.KeepsPast (plan : Import) (now : Timestamp) (ledger : Ledger) : Prop :=
  (now ≤ plan.availableAt ∧ ∀ claim ∈ plan.removed ledger, now ≤ claim.availableAt) ∨
    ((∀ claim ∈ plan.removed ledger, claim.availableAt = plan.availableAt) ∧
      (plan.removed ledger).map Claim.view ⊆ plan.yields.map Claim.view ∧
      plan.yields.map Claim.view ⊆ (plan.removed ledger).map Claim.view)

instance (plan : Import) (now : Timestamp) (ledger : Ledger) : Decidable (plan.KeepsPast now ledger) := by
  unfold Import.KeepsPast
  infer_instance

section Steps

variable {plan : Import} {now : Timestamp} {ledger : Ledger}

theorem claims_writes (writes : List Write) (ledger : Ledger) :
    (writes.foldl (writeClaim now plan.analystId plan.availableAt) ledger).claims =
      writes.foldl (fun claims write => upsertClaim now plan.analystId plan.availableAt write claims) ledger.claims := by
  induction writes generalizing ledger with
  | nil => rfl
  | cons first rest ih =>
      rw [List.foldl_cons, List.foldl_cons, ih]
      refine congrArg (fun claims => rest.foldl (fun claims write => upsertClaim now plan.analystId plan.availableAt write claims) claims) ?_
      unfold writeClaim persistClaimRevision
      dsimp only
      split <;> rfl

/-- Claims of one key with the same contents. -/
structure SameClaim (claim other : Claim) : Prop where
  key : claim.key = other.key
  direction : claim.direction = other.direction
  strength : claim.strength = other.strength

theorem SameClaim.view {claim other : Claim} (h : SameClaim claim other) : claim.view = other.view := by
  unfold Claim.view
  rw [h.key, h.direction, h.strength]

/-- The claims behind some writes: those that none of them touches, and what the writes yield. -/
structure Written (plan : Import) (writes : List Write) (before after yielded : List Claim) : Prop where
  cases : ∀ claim ∈ after, (claim ∈ before ∧ ∀ write ∈ writes, claim.key ≠ write.key) ∨
    (claim.availableAt = plan.availableAt ∧ ∃ own ∈ yielded, SameClaim claim own)
  kept : ∀ claim ∈ before, (∀ write ∈ writes, claim.key ≠ write.key) → claim ∈ after
  yielded : ∀ own ∈ yielded, ∃ claim ∈ after, claim.availableAt = plan.availableAt ∧ SameClaim claim own

theorem written_upsert {time : Timestamp} {writes : List Write} {write : Write} {before after yielded : List Claim}
    (h : Written plan writes before after yielded) :
    Written plan (writes ++ [write]) before (upsertClaim now plan.analystId plan.availableAt write after)
      (upsertClaim time plan.analystId plan.availableAt write yielded) := by
  -- the claim of the write itself, on both sides
  obtain ⟨claim, hclaim, hkey⟩ := @exists_upsertClaim now plan.analystId plan.availableAt write after
  obtain ⟨own, hown, hkey'⟩ := @exists_upsertClaim time plan.analystId plan.availableAt write yielded
  have hfields : ∀ (time : Timestamp) (claims : List Claim) (claim : Claim),
      claim ∈ upsertClaim time plan.analystId plan.availableAt write claims → claim.key = write.key →
      claim.direction = write.draft.direction ∧ claim.strength = write.draft.strength ∧ claim.availableAt = plan.availableAt := by
    intro time claims claim hmem hkey
    rcases mem_upsertClaim hmem with ⟨-, hne⟩ | ⟨-, hdirection, hstrength, havailable, -⟩
    · exact absurd hkey hne
    · exact ⟨hdirection, hstrength, havailable⟩
  obtain ⟨hdirection, hstrength, havailable⟩ := hfields now after claim hclaim hkey
  obtain ⟨hdirection', hstrength', -⟩ := hfields time yielded own hown hkey'
  refine ⟨fun other hother => ?_, fun other hother hnone => ?_, fun other hother => ?_⟩
  · rcases mem_upsertClaim hother with ⟨hold, hne⟩ | ⟨hkey'', hdirection'', hstrength'', havailable'', -⟩
    · rcases h.cases other hold with ⟨hbefore, hnone⟩ | ⟨hat, y, hy, hsame⟩
      · refine Or.inl ⟨hbefore, fun other' hother' => ?_⟩
        rcases List.mem_append.mp hother' with hwrites | hlast
        · exact hnone other' hwrites
        · rw [List.mem_singleton.mp hlast]
          exact hne
      · exact Or.inr ⟨hat, y, mem_upsertClaim_of_ne hy (hsame.key ▸ hne), hsame⟩
    · exact Or.inr ⟨havailable'', own, hown, ⟨hkey''.trans hkey'.symm, hdirection''.trans hdirection'.symm,
        hstrength''.trans hstrength'.symm⟩⟩
  · refine mem_upsertClaim_of_ne (h.kept other hother (fun write' hwrite' => hnone write' (List.mem_append_left _ hwrite'))) ?_
    exact hnone write (List.mem_append_right _ (List.mem_singleton_self _))
  · rcases mem_upsertClaim hother with ⟨hold, hne⟩ | ⟨hkey'', hdirection'', hstrength'', -, -⟩
    · obtain ⟨claim', hclaim', hat, hsame⟩ := h.yielded other hold
      exact ⟨claim', mem_upsertClaim_of_ne hclaim' (hsame.key ▸ hne), hat, hsame⟩
    · exact ⟨claim, hclaim, havailable, ⟨hkey.trans hkey''.symm, hdirection.trans hdirection''.symm, hstrength.trans hstrength''.symm⟩⟩

theorem written_writes (writes : List Write) (before : List Claim) : Written plan writes before
    (writes.foldl (fun claims write => upsertClaim now plan.analystId plan.availableAt write claims) before)
    (writes.foldl (fun claims write => upsertClaim plan.availableAt plan.analystId plan.availableAt write claims) []) := by
  induction writes using List.reverseRecOn with
  | nil => exact ⟨fun claim hclaim => Or.inl ⟨hclaim, by simp⟩, fun claim hclaim _ => hclaim, by simp⟩
  | append_singleton writes last ih =>
      rw [List.foldl_append, List.foldl_append]
      exact written_upsert ih

theorem mem_cleared_iff {claim : Claim} : (claim ∈ (plan.cleared ledger).claims ∧ ∀ write ∈ plan.writes, claim.key ≠ write.key) ↔
    claim ∈ ledger.claims ∧ claim ∉ plan.removed ledger := by
  unfold Import.cleared Import.removed
  rw [List.mem_filter, Bool.or_eq_true, List.any_eq_true]
  cases hdeletes : plan.deletes
  · rw [if_neg (by decide)]
    simp only [Bool.false_and, Bool.false_eq_true, false_or, not_and, decide_eq_true_eq]
    constructor
    · rintro ⟨hclaim, hnone⟩
      exact ⟨hclaim, fun _ ⟨write, hwrite, hkey⟩ => hnone write hwrite hkey⟩
    · rintro ⟨hclaim, hnone⟩
      exact ⟨hclaim, fun write hwrite hkey => hnone hclaim ⟨write, hwrite, hkey⟩⟩
  · rw [if_pos rfl]
    simp only [deleteClaims, List.mem_filter, Bool.true_and, decide_eq_true_eq, not_and, not_or]
    constructor
    · rintro ⟨⟨hclaim, hsource⟩, hnone⟩
      exact ⟨hclaim, fun _ => ⟨hsource, fun ⟨write, hwrite, hkey⟩ => hnone write hwrite hkey⟩⟩
    · rintro ⟨hclaim, hnone⟩
      exact ⟨⟨hclaim, (hnone hclaim).1⟩, fun write hwrite hkey => (hnone hclaim).2 ⟨write, hwrite, hkey⟩⟩

/-- **An import that keeps the past leaves what was available before it.** -/
theorem visible_apply (hkeeps : plan.KeepsPast now ledger) {moment : Timestamp} (hmoment : moment < now) (view : ClaimView) :
    Visible moment (plan.apply now ledger) view ↔ Visible moment ledger view := by
  have hwritten : Written plan plan.writes (plan.cleared ledger).claims (plan.apply now ledger).claims plan.yields := by
    unfold Import.apply
    rw [claims_writes]
    exact written_writes plan.writes _
  have hlate : ∀ claim : Claim, now ≤ claim.availableAt → ¬ claim.availableAt ≤ moment :=
    fun claim hnow => Int.not_le.mpr (Int.lt_of_lt_of_le hmoment hnow)
  constructor
  · rintro ⟨claim, hclaim, hat, rfl⟩
    rcases hwritten.cases claim hclaim with hkept | ⟨havailable, own, hown, hsame⟩
    · exact ⟨claim, (mem_cleared_iff.mp hkept).1, hat, rfl⟩
    · rcases hkeeps with ⟨hnow, -⟩ | ⟨hremoved, -, hback⟩
      · exact absurd hat (hlate claim (havailable ▸ hnow))
      · obtain ⟨old, hold, hview⟩ := List.mem_map.mp (hback (List.mem_map.mpr ⟨own, hown, rfl⟩))
        refine ⟨old, (List.mem_filter.mp hold).1, ?_, hview.trans hsame.view.symm⟩
        rw [hremoved old hold, ← havailable]
        exact hat
  · rintro ⟨claim, hclaim, hat, rfl⟩
    by_cases hremoved : claim ∈ plan.removed ledger
    · rcases hkeeps with ⟨-, hnow⟩ | ⟨hsame, hforth, -⟩
      · exact absurd hat (hlate claim (hnow claim hremoved))
      · obtain ⟨own, hown, hview⟩ := List.mem_map.mp (hforth (List.mem_map.mpr ⟨claim, hremoved, rfl⟩))
        obtain ⟨written, hmem, havailable, hsame'⟩ := hwritten.yielded own hown
        refine ⟨written, hmem, ?_, hsame'.view.trans hview⟩
        rw [havailable, ← hsame claim hremoved]
        exact hat
    · obtain ⟨hcleared, hnone⟩ := mem_cleared_iff.mpr ⟨hclaim, hremoved⟩
      exact ⟨claim, hwritten.kept claim hcleared hnone, hat, rfl⟩

end Steps

/-! ## Runs of report imports -/

/-- A call of `import_remote_report`. -/
structure ReportImport where
  now : Timestamp
  forceReprocess : Bool
  resolve : String → Option String
  report : Report

section Runs

variable (x : Extraction)

def afterReports (imports : List ReportImport) (tables : Tables) : Tables :=
  imports.foldl (fun tables call => step x (.report call.now call.forceReprocess call.resolve call.report) tables) tables

/-- A call that keeps what was available before it: it changes no claim, or keeps the past. -/
def KeepsPast (tables : Tables) (before : List ReportImport) (call : ReportImport) : Prop :=
  ∀ plan ∈ reportImport x call.now call.forceReprocess call.resolve call.report (afterReports x before tables),
    plan.KeepsPast call.now (afterReports x before tables).ledger

instance (tables : Tables) (before : List ReportImport) (call : ReportImport) : Decidable (KeepsPast x tables before call) := by
  unfold KeepsPast
  infer_instance

variable {x} {tables : Tables}

theorem afterReports_concat (imports : List ReportImport) (call : ReportImport) : afterReports x (imports ++ [call]) tables =
    step x (.report call.now call.forceReprocess call.resolve call.report) (afterReports x imports tables) := by
  unfold afterReports
  rw [List.foldl_append]
  rfl

theorem visible_later {moment : Timestamp} (view : ClaimView) {earlier later : List ReportImport}
    (hlater : ∀ call ∈ later, moment < call.now) (hkeeps : Runs.InTurn (KeepsPast x tables) (earlier ++ later)) :
    Visible moment (afterReports x (earlier ++ later) tables).ledger view ↔ Visible moment (afterReports x earlier tables).ledger view := by
  induction later using List.reverseRecOn with
  | nil => rw [List.append_nil]
  | append_singleton later last ih =>
      rw [← List.append_assoc] at hkeeps ⊢
      obtain ⟨hbefore, hlast⟩ := (Runs.inTurn_concat _ _ last).mp hkeeps
      rw [← ih (fun call hcall => hlater call (List.mem_append_left _ hcall)) hbefore, afterReports_concat, step_ledger]
      rcases hplan : importOf x (.report last.now last.forceReprocess last.resolve last.report)
        (afterReports x (earlier ++ later) tables) with _ | plan
      · rfl
      · exact visible_apply (hlast plan hplan) (hlater last (List.mem_append_right _ (List.mem_singleton_self _))) view

theorem filter_until {imports : List ReportImport} (hclock : (imports.map ReportImport.now).Pairwise (· ≤ ·)) (moment : Timestamp) :
    ∃ later, imports = imports.filter (fun call => decide (call.now ≤ moment)) ++ later ∧ ∀ call ∈ later, moment < call.now := by
  induction imports with
  | nil => exact ⟨[], rfl, by simp⟩
  | cons first rest ih =>
      rw [List.map_cons, List.pairwise_cons] at hclock
      by_cases hfirst : first.now ≤ moment
      · obtain ⟨later, hsplit, hlater⟩ := ih hclock.2
        refine ⟨later, ?_, hlater⟩
        rw [List.filter_cons_of_pos (by simpa using hfirst), List.cons_append, ← hsplit]
      · refine ⟨first :: rest, ?_, fun call hcall => ?_⟩
        · rw [List.filter_eq_nil_iff.mpr, List.nil_append]
          intro call hcall hbefore
          rcases List.mem_cons.mp hcall with rfl | hrest
          · exact hfirst (of_decide_eq_true hbefore)
          · exact hfirst (Int.le_trans (hclock.1 _ (List.mem_map.mpr ⟨call, hrest, rfl⟩)) (of_decide_eq_true hbefore))
        · rcases List.mem_cons.mp hcall with rfl | hrest
          · exact Int.not_le.mp hfirst
          · exact Int.lt_of_lt_of_le (Int.not_le.mp hfirst) (hclock.1 _ (List.mem_map.mpr ⟨call, hrest, rfl⟩))

/-- **In every run whose imports keep the past, the claims of every moment are those of the imports up to it.** -/
theorem claims_are_point_in_time {imports : List ReportImport} (hclock : (imports.map ReportImport.now).Pairwise (· ≤ ·))
    (hkeeps : Runs.InTurn (KeepsPast x tables) imports) (moment : Timestamp) (view : ClaimView) :
    Visible moment (afterReports x imports tables).ledger view ↔
      Visible moment (afterReports x (imports.filter (fun call => decide (call.now ≤ moment))) tables).ledger view := by
  obtain ⟨later, hsplit, hlater⟩ := filter_until hclock moment
  rw [hsplit] at hkeeps
  have hvisible := visible_later view hlater hkeeps
  rw [← hsplit] at hvisible
  exact hvisible

end Runs

/-! ## Witness and counterexample -/

def reportOf (version markdown : String) : Report := ⟨"a", "r", "2026-09-01", version, version, markdown, "", [], [], [], []⟩

/-- A call for a version of the report. -/
def callAt (now : Timestamp) (forceReprocess : Bool) (version markdown : String) : ReportImport :=
  ⟨now, forceReprocess, fun _ => none, reportOf version markdown⟩

/-- A report, synchronised again and reprocessed. -/
theorem claims_are_point_in_time_reprocessed :
    Visible 1 (afterReports stockTexts [callAt 1 false "1" "看好600176", callAt 2 false "1" "看好600176", callAt 3 true "1" "看好600176"]
      {}).ledger ⟨.report "r", .stock, "600176.SH", 1, 62 / 100, 20⟩ := by
  refine (claims_are_point_in_time (by decide) ?_ 1 _).mpr (by unfold Visible; decide +kernel)
  refine (Runs.inTurn_concat _ [_, _] _).mpr ⟨(Runs.inTurn_concat _ [_] _).mpr
    ⟨(Runs.inTurn_concat _ [] _).mpr ⟨Runs.inTurn_nil _, ?_⟩, ?_⟩, ?_⟩ <;> decide +kernel

/-- A correction takes the claim away that was usable before it. -/
theorem correction_removes_claim : ¬ ∀ (x : Extraction) (imports : List ReportImport),
    (imports.map ReportImport.now).Pairwise (· ≤ ·) → ∀ moment view, Visible moment (afterReports x imports {}).ledger view ↔
      Visible moment (afterReports x (imports.filter (fun call => decide (call.now ≤ moment))) {}).ledger view := by
  intro h
  have hsame := h stockTexts [callAt 1 false "1" "看好600176", callAt 2 false "2" "看空600176"] (by decide) 1
    ⟨.report "r", .stock, "600176.SH", 1, 62 / 100, 20⟩
  unfold Visible at hsame
  exact absurd (hsame.mpr (by decide +kernel)) (by decide +kernel)

end TradingHarness.Analysts
