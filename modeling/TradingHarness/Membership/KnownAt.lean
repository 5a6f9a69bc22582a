import TradingHarness.Membership.Sectors

set_option autoImplicit false

/-! # Sector membership as it was known

`known_at` keeps a row from the moments before it was written, but nothing keeps the end of a row from them. A write
leaves every date alone whose 17:00 has passed where the ends that it rewrites do not tell such dates apart. -/

namespace TradingHarness

variable {ρ : Type}

/-! ## Runs of the writers -/

inductive MembershipWrite (ρ : Type)
  | ths (taxonomyKey sectorKey : List Char) (rows : List (ThsRow ρ)) (providerKey : List Char) (observedAt : Timestamp)
  | observed (taxonomyKey sectorKey : List Char) (rows : List ρ) (providerKey : List Char) (observedAt : Timestamp)
    (memberSymbol : ρ → Option Symbol)
  | batched (taxonomyKey sectorKey : List Char) (members : List (Symbol × ρ)) (providerKey : List Char)
    (observedAt : Timestamp)
  | delta (taxonomyKey sectorKey : List Char) (members : List (Symbol × ρ)) (providerKey : List Char)
    (observedAt : Timestamp)

def MembershipWrite.observedAt : MembershipWrite ρ → Timestamp
  | .ths _ _ _ _ observedAt => observedAt
  | .observed _ _ _ _ observedAt _ => observedAt
  | .batched _ _ _ _ observedAt => observedAt
  | .delta _ _ _ _ observedAt => observedAt

variable (observedAt : Timestamp) (table : List (MembershipRow ρ))

def MembershipWrite.statements : MembershipWrite ρ → List (MembershipStatement ρ)
  | .ths taxonomyKey sectorKey rows providerKey observedAt =>
    (persistThsSnapshot taxonomyKey sectorKey rows providerKey observedAt).1
  | .observed taxonomyKey sectorKey rows providerKey observedAt memberSymbol =>
    (persistObservedSnapshot taxonomyKey sectorKey rows providerKey observedAt memberSymbol).1
  | .batched taxonomyKey sectorKey members providerKey observedAt =>
    (persistObservedSnapshotBatched taxonomyKey sectorKey members providerKey observedAt).1
  | .delta taxonomyKey sectorKey members providerKey observedAt =>
    (persistObservedSnapshotDelta taxonomyKey sectorKey members providerKey observedAt table).1

variable (date : Date) (write : MembershipWrite ρ)

def MembershipWrite.apply (table : List (MembershipRow ρ)) : List (MembershipRow ρ) :=
  Driven.afterwards executeMembership (write.statements table) table

/-! ## The condition -/

/-- The last date whose 17:00 has passed. -/
def settledDate : Date := (observedAt - 9 * 3600 * 1000000 - 1) / (24 * 3600 * 1000000)

/-- No date up to the last settled one tells the old row from the new one: it begins later, or was not known by then,
    or keeps its end, or both ends reach that date. -/
def KeepsPast (old new : MembershipRow ρ) : Prop :=
  settledDate observedAt < old.effectiveFrom ∨ membershipCutoff (settledDate observedAt) < old.knownAt ∨
    old.effectiveFromBasis.isPointInTime = new.effectiveFromBasis.isPointInTime ∧
      (old.effectiveTo = new.effectiveTo ∨
        lastsUntil (settledDate observedAt) old.effectiveTo = true ∧
          lastsUntil (settledDate observedAt) new.effectiveTo = true)

/-- Every row that the statement rewrites keeps the past. -/
def StatementKeepsPast (statement : MembershipStatement ρ) :
    Prop :=
  ∀ old ∈ table, ∀ new, statement.rewrite old = some new → KeepsPast observedAt old new

def WriteKeepsPast (write : MembershipWrite ρ) : Prop :=
  Driven.Follows executeMembership (StatementKeepsPast write.observedAt) (write.statements table) table

/-! ## One statement -/

theorem membershipCutoff_eq (date : ℤ) : membershipCutoff date = (date * 86400000000 + 32400000000 : ℤ) := by
  unfold membershipCutoff
  norm_num

theorem le_settledDate_iff {observedAt date : ℤ} : date ≤ settledDate observedAt ↔ membershipCutoff date < observedAt := by
  have hdate : settledDate observedAt = ((observedAt - 32400000000 - 1) / 86400000000 : ℤ) := by
    unfold settledDate
    norm_num
  rw [membershipCutoff_eq, hdate, Int.le_ediv_iff_mul_le (by norm_num)]
  constructor
  · intro h
    linarith
  · intro h
    linarith

theorem membershipCutoff_mono {date later : ℤ} (h : date ≤ later) : membershipCutoff date ≤ membershipCutoff later := by
  rw [membershipCutoff_eq, membershipCutoff_eq]
  linarith

theorem lastsUntil_mono {date later : Date} {last : Option Date} (h : date ≤ later)
    (hlasts : lastsUntil later last = true) : lastsUntil date last = true := by
  rcases last with _ | last
  · rfl
  · exact decide_eq_true (h.trans (of_decide_eq_true hlasts))

/-- What every statement of a write keeps of a row that it rewrites. -/
structure Rewritten (observedAt : Timestamp) (old new : MembershipRow ρ) : Prop where
  key : new.key = old.key
  known : new.knownAt = old.knownAt ∨ new.knownAt = min old.knownAt observedAt

/-- Statements that are dated by the observation. -/
def MembershipStatement.datedBy : MembershipStatement ρ → Prop
  | .upsert row => row.knownAt = observedAt
  | .close .. => True

theorem rewritten_of_rewrite {observedAt : Timestamp} {statement : MembershipStatement ρ}
    (hdated : statement.datedBy observedAt) {old new : MembershipRow ρ} (h : statement.rewrite old = some new) :
    Rewritten observedAt old new := by
  unfold MembershipStatement.rewrite at h
  split at h
  next row =>
    split at h
    next hkey =>
      obtain rfl := Option.some.inj h
      refine ⟨hkey.symm, Or.inr ?_⟩
      unfold MembershipStatement.datedBy at hdated
      rw [← hdated]
    next => exact absurd h (by simp)
  next =>
    split at h
    next =>
      obtain rfl := Option.some.inj h
      exact ⟨rfl, Or.inl rfl⟩
    next => exact absurd h (by simp)

theorem pointInTimeMember_keeps {observedAt : Timestamp} {old new : MembershipRow ρ}
    (hrewritten : Rewritten observedAt old new) (hkeeps : KeepsPast observedAt old new) {date : Date}
    (hdate : membershipCutoff date < observedAt) :
    pointInTimeMember date (membershipCutoff date) new = pointInTimeMember date (membershipCutoff date) old := by
  have hsettled := le_settledDate_iff.mpr hdate
  have hfrom : new.effectiveFrom = old.effectiveFrom := congrArg MembershipKey.effectiveFrom hrewritten.key
  have hknown : new.knownAt ≤ membershipCutoff date ↔ old.knownAt ≤ membershipCutoff date := by
    rcases hrewritten.known with hsame | hmin
    · rw [hsame]
    · rw [hmin, min_le_iff]
      exact or_iff_left (not_le.mpr hdate)
  unfold pointInTimeMember
  rw [hfrom, decide_eq_decide.mpr hknown]
  rcases hkeeps with hlater | hunknown | ⟨hbasis, hends⟩
  · have hbegins : ¬ old.effectiveFrom ≤ date := not_le.mpr (lt_of_le_of_lt hsettled hlater)
    rw [decide_eq_false hbegins]
    rfl
  · have hlate : ¬ old.knownAt ≤ membershipCutoff date :=
      not_le.mpr (lt_of_le_of_lt (membershipCutoff_mono hsettled) hunknown)
    rw [decide_eq_false hlate, Bool.and_false, Bool.and_false]
  · rw [hbasis]
    rcases hends with hsame | ⟨hold, hnew⟩
    · rw [hsame]
    · rw [lastsUntil_mono hsettled hold, lastsUntil_mono hsettled hnew]

/-- A statement leaves what is selected at a settled date. -/
theorem selectedAt_execute {observedAt : Timestamp} {statement : MembershipStatement ρ}
    (hdated : statement.datedBy observedAt) {table : List (MembershipRow ρ)}
    (hkeeps : StatementKeepsPast observedAt table statement) {date : Date} (hdate : membershipCutoff date < observedAt)
    (taxonomyKey sectorKey : List Char) (symbol : Symbol) :
    SelectedAt date (membershipCutoff date) (executeMembership statement table) taxonomyKey sectorKey symbol ↔
      SelectedAt date (membershipCutoff date) table taxonomyKey sectorKey symbol := by
  -- each stored row stands for its new version
  have hversion : ∀ old ∈ table, ((statement.rewrite old).getD old).key = old.key ∧
      pointInTimeMember date (membershipCutoff date) ((statement.rewrite old).getD old)
        = pointInTimeMember date (membershipCutoff date) old := by
    intro old hold
    rcases hrewrite : statement.rewrite old with _ | new
    · exact ⟨rfl, rfl⟩
    · have hrewritten := rewritten_of_rewrite hdated hrewrite
      exact ⟨hrewritten.key, pointInTimeMember_keeps hrewritten (hkeeps old hold new hrewrite) hdate⟩
  constructor
  · rintro ⟨row, hrow, htaxonomy, hsector, hsymbol, hmember⟩
    unfold executeMembership at hrow
    rcases List.mem_append.mp hrow with hstored | hinserted
    · obtain ⟨old, hold, rfl⟩ := List.mem_map.mp hstored
      obtain ⟨hkey, hsame⟩ := hversion old hold
      refine ⟨old, hold, ?_, ?_, ?_, hsame ▸ hmember⟩
      · rw [← htaxonomy]
        exact (congrArg MembershipKey.taxonomyKey hkey).symm
      · rw [← hsector]
        exact (congrArg MembershipKey.sectorKey hkey).symm
      · rw [← hsymbol]
        exact (congrArg MembershipKey.symbol hkey).symm
    · unfold MembershipStatement.inserts at hinserted
      split at hinserted
      next inserted =>
        split at hinserted
        next => exact absurd hinserted List.not_mem_nil
        next =>
          obtain rfl := List.mem_singleton.mp hinserted
          unfold MembershipStatement.datedBy at hdated
          unfold pointInTimeMember at hmember
          rw [Bool.and_eq_true] at hmember
          exact absurd (of_decide_eq_true hmember.2) (not_le.mpr (hdated ▸ hdate))
      next => exact absurd hinserted List.not_mem_nil
  · rintro ⟨old, hold, htaxonomy, hsector, hsymbol, hmember⟩
    obtain ⟨hkey, hsame⟩ := hversion old hold
    refine ⟨(statement.rewrite old).getD old, List.mem_append_left _ (List.mem_map.mpr ⟨old, hold, rfl⟩),
      ?_, ?_, ?_, hsame.symm ▸ hmember⟩
    · rw [← htaxonomy]
      exact congrArg MembershipKey.taxonomyKey hkey
    · rw [← hsector]
      exact congrArg MembershipKey.sectorKey hkey
    · rw [← hsymbol]
      exact congrArg MembershipKey.symbol hkey

/-! ## Writes -/

theorem datedBy_of_observed {taxonomyKey sectorKey providerKey : List Char} {observedAt : Timestamp}
    {written : List (Symbol × ρ)} {members : List Symbol} :
    ∀ statement ∈ observedStatements taxonomyKey sectorKey providerKey observedAt written members,
      statement.datedBy observedAt := by
  intro statement hstatement
  rcases List.mem_append.mp hstatement with hupsert | hclose
  · obtain ⟨member, -, rfl⟩ := List.mem_map.mp hupsert
    rfl
  · obtain rfl := List.mem_singleton.mp hclose
    trivial

theorem datedBy_statements (table : List (MembershipRow ρ)) :
    ∀ statement ∈ write.statements table, statement.datedBy write.observedAt := by
  intro statement hstatement
  cases write with
  | ths taxonomyKey sectorKey rows providerKey observedAt =>
      rcases List.mem_append.mp hstatement with hupsert | hclose
      · obtain ⟨row, -, hrow⟩ := List.mem_filterMap.mp hupsert
        obtain ⟨symbol, -, rfl⟩ := Option.map_eq_some_iff.mp hrow
        rfl
      · split at hclose
        next => exact absurd hclose List.not_mem_nil
        next =>
          obtain rfl := List.mem_singleton.mp hclose
          trivial
  | observed taxonomyKey sectorKey rows providerKey observedAt memberSymbol =>
      unfold MembershipWrite.statements persistObservedSnapshot at hstatement
      dsimp only at hstatement
      split at hstatement
      next => exact absurd hstatement List.not_mem_nil
      next => exact datedBy_of_observed statement hstatement
  | batched taxonomyKey sectorKey members providerKey observedAt =>
      unfold MembershipWrite.statements persistObservedSnapshotBatched at hstatement
      dsimp only at hstatement
      split at hstatement
      next => exact absurd hstatement List.not_mem_nil
      next => exact datedBy_of_observed statement hstatement
  | delta taxonomyKey sectorKey members providerKey observedAt =>
      unfold MembershipWrite.statements persistObservedSnapshotDelta at hstatement
      dsimp only at hstatement
      split at hstatement
      next => exact absurd hstatement List.not_mem_nil
      next => exact datedBy_of_observed statement hstatement

theorem selectedAt_apply {write : MembershipWrite ρ} {table : List (MembershipRow ρ)}
    (hkeeps : WriteKeepsPast table write) {date : Date} (hdate : membershipCutoff date < write.observedAt)
    (taxonomyKey sectorKey : List Char) (symbol : Symbol) :
    SelectedAt date (membershipCutoff date) (write.apply table) taxonomyKey sectorKey symbol ↔
      SelectedAt date (membershipCutoff date) table taxonomyKey sectorKey symbol := by
  have hdated := datedBy_statements write table
  unfold WriteKeepsPast at hkeeps
  unfold MembershipWrite.apply Driven.afterwards
  generalize write.statements table = statements at hdated hkeeps
  induction statements generalizing table with
  | nil => exact Iff.rfl
  | cons statement rest ih =>
      have htail := ih (fun other hother => hdated other (List.mem_cons_of_mem _ hother)) hkeeps.2
      exact htail.trans (selectedAt_execute (hdated statement List.mem_cons_self) hkeeps.1 hdate taxonomyKey sectorKey
        symbol)

theorem keepsPast_of_early {taxonomyKey sectorKey providerKey : List Char} {observedAt : Timestamp}
    {written : List (Symbol × ρ)} {members : List Symbol}
    (hearly : observedAt ≤ membershipCutoff (observedExchangeDate observedAt)) (table : List (MembershipRow ρ)) :
    Driven.Follows executeMembership (StatementKeepsPast observedAt)
      (observedStatements taxonomyKey sectorKey providerKey observedAt written members) table := by
  have hsettled : settledDate observedAt < observedExchangeDate observedAt := by
    rw [← not_le, le_settledDate_iff, not_lt]
    exact hearly
  unfold observedStatements
  induction written generalizing table with
  | nil =>
      refine ⟨fun old hold new hrewrite => ?_, trivial⟩
      unfold MembershipStatement.rewrite at hrewrite
      dsimp only at hrewrite
      split at hrewrite
      next hclosed =>
        obtain rfl := Option.some.inj hrewrite
        have hopen := (of_decide_eq_true hclosed).2.2.2.1
        refine Or.inr (Or.inr ⟨rfl, Or.inr ⟨by rw [hopen]; rfl, decide_eq_true ?_⟩⟩)
        exact Int.le_sub_one_of_lt hsettled
      next => exact absurd hrewrite (by simp)
  | cons member rest ih =>
      refine ⟨fun old hold new hrewrite => Or.inl ?_, ih _⟩
      unfold MembershipStatement.rewrite at hrewrite
      dsimp only at hrewrite
      split at hrewrite
      next hkey =>
        have hfrom : old.effectiveFrom = observedExchangeDate observedAt := congrArg MembershipKey.effectiveFrom hkey
        rw [hfrom]
        exact hsettled
      next => exact absurd hrewrite (by simp)

/-! ## Runs -/

/-- The write was observed by the cutoff of the date. -/
def MembershipWrite.isObservedBy : Bool :=
  decide (write.observedAt ≤ membershipCutoff date)

/-- **Membership as known at a date never changes afterwards**: after writes at nondecreasing times that all keep the
    past, the members selected for a date are those after the writes observed by its cutoff. -/
theorem known_membership_stays (writes : List (MembershipWrite ρ)) (table : List (MembershipRow ρ))
    (hsorted : writes.Pairwise (fun write later => write.observedAt ≤ later.observedAt))
    (hkeeps : Driven.Follows MembershipWrite.apply WriteKeepsPast writes table) (date : Date)
    (taxonomyKey sectorKey : List Char) (symbol : Symbol) :
    SelectedAt date (membershipCutoff date) (Driven.afterwards MembershipWrite.apply writes table) taxonomyKey
        sectorKey symbol ↔
      SelectedAt date (membershipCutoff date) (Driven.afterwards MembershipWrite.apply
        (writes.filter (MembershipWrite.isObservedBy date)) table) taxonomyKey sectorKey symbol := by
  induction writes generalizing table with
  | nil => exact Iff.rfl
  | cons write rest ih =>
      by_cases hearly : write.observedAt ≤ membershipCutoff date
      · have hkept : write.isObservedBy date = true := decide_eq_true hearly
        rw [List.filter_cons_of_pos hkept]
        exact ih _ (List.pairwise_cons.mp hsorted).2 hkeeps.2
      · -- neither this write nor any later one was observed by the cutoff
        have hrest : rest.filter (MembershipWrite.isObservedBy date) = [] := by
          refine List.filter_eq_nil_iff.mpr (fun later hlater => ?_)
          have hlate := lt_of_lt_of_le (not_le.mp hearly) ((List.pairwise_cons.mp hsorted).1 later hlater)
          exact fun hknown => absurd (of_decide_eq_true hknown) (not_le.mpr hlate)
        have hnone : ¬ write.isObservedBy date = true := fun h => hearly (of_decide_eq_true h)
        have htail := ih (write.apply table) (List.pairwise_cons.mp hsorted).2 hkeeps.2
        rw [List.filter_cons_of_neg hnone, hrest]
        rw [hrest] at htail
        exact htail.trans (selectedAt_apply hkeeps.1 (not_le.mp hearly) taxonomyKey sectorKey symbol)

/-! ## Ends that come late -/

/-- The hour of a day in Shanghai. -/
def shanghaiHour (hour : ℤ) : Timestamp := date * (24 * 3600 * 1000000) + (hour - 8) * 3600 * 1000000

def bankBoard (hour : ℤ) (symbols : List Symbol) : MembershipWrite Unit :=
  .batched ['t'] ['s'] (symbols.map (fun symbol => (symbol, ()))) ['p'] (shanghaiHour date hour)

/-- A symbol joins on one day and leaves on another, both seen in the morning. -/
def morningBoards : List (MembershipWrite Unit) := [bankBoard 1 10 [['a'], ['b']], bankBoard 2 10 [['b']]]

/-- It is seen to have left after 17:00. -/
def eveningBoards : List (MembershipWrite Unit) := [bankBoard 1 10 [['a'], ['b']], bankBoard 2 18 [['b']]]

def thsRefresh (outDate : Option Date) : MembershipWrite Unit :=
  .ths ['t'] ['s'] [⟨"600000.SH".toList, some 1, outDate, ()⟩] ['p'] (shanghaiHour date 10)

/-- A refresh on the fifth day says that the symbol left on the second. -/
def lateOutDate : List (MembershipWrite Unit) := [thsRefresh 1 none, thsRefresh 5 (some 2)]

instance decidableSelectedAt [DecidableEq ρ] (date : Date) (cutoff : Timestamp) (table : List (MembershipRow ρ))
    (taxonomyKey sectorKey : List Char) (symbol : Symbol) :
    Decidable (SelectedAt date cutoff table taxonomyKey sectorKey symbol) :=
  inferInstanceAs (Decidable (∃ row ∈ table, _))

theorem known_membership_stays_mornings :
    SelectedAt 1 (membershipCutoff 1) (Driven.afterwards MembershipWrite.apply morningBoards []) ['t'] ['s'] ['a'] ↔
      SelectedAt 1 (membershipCutoff 1) (Driven.afterwards MembershipWrite.apply
        (morningBoards.filter (MembershipWrite.isObservedBy 1)) []) ['t'] ['s'] ['a'] := by
  refine known_membership_stays morningBoards [] ?_ ⟨?_, ?_, trivial⟩ 1 ['t'] ['s'] ['a']
  · decide +kernel
  · exact keepsPast_of_early (by decide +kernel) _
  · exact keepsPast_of_early (by decide +kernel) _

/-- A closing after 17:00 takes a member from its own date, and a late `out_date` from dates long past. -/
theorem late_end_is_visible :
    (¬ SelectedAt 2 (membershipCutoff 2) (Driven.afterwards MembershipWrite.apply eveningBoards []) ['t'] ['s'] ['a'] ∧
      SelectedAt 2 (membershipCutoff 2) (Driven.afterwards MembershipWrite.apply
        (eveningBoards.filter (MembershipWrite.isObservedBy 2)) []) ['t'] ['s'] ['a']) ∧
    ¬ SelectedAt 3 (membershipCutoff 3) (Driven.afterwards MembershipWrite.apply lateOutDate []) ['t'] ['s']
        "600000.SH".toList ∧
      SelectedAt 3 (membershipCutoff 3) (Driven.afterwards MembershipWrite.apply
        (lateOutDate.filter (MembershipWrite.isObservedBy 3)) []) ['t'] ['s'] "600000.SH".toList := by
  decide +kernel

end TradingHarness
