import TradingHarness.Library.Runs
import TradingHarness.Tactics.LookBack
import TradingHarness.Tactics.Roles
import Mathlib.Data.Prod.Lex
import Mathlib.Data.String.Basic

set_option autoImplicit false

/-! # Roles against the sessions before

What the six roles mean that look back, on complete readings: a stock that is not in one did not seal on its day. The roles against yesterday's
leader and the rebound say so. The roles against the stock's own row of yesterday are unknown when there is no such row, as if there were
no reading. -/

namespace TradingHarness

/-! ## Dated rows -/

/-- A row has its boards and its first seal, as `build_trial_row` gives it. -/
structure Dated (row : RoleRow) : Prop where
  boards : ∃ boards, row.boards = some boards
  sealed : ∃ sealed, row.seal = some sealed

/-- The order of the leaders of a theme. -/
def leadKey (row : RoleRow) : ℚᵒᵈ ×ₗ (ℕ ×ₗ String) :=
  toLex (OrderDual.toDual (row.boards.getD 0), toLex (row.seal.getD 0, row.symbol))

/-- The order of the seals of a tier. -/
def sealKey (row : RoleRow) : ℕ ×ₗ String := toLex (row.seal.getD 0, row.symbol)

theorem sealsBefore_eq {a b : RoleRow} (ha : Dated a) (hb : Dated b) : sealsBefore a b = .ok (decide (sealKey a < sealKey b)) := by
  obtain ⟨s, hs⟩ := ha.sealed
  obtain ⟨t, ht⟩ := hb.sealed
  have hlt : sealKey a < sealKey b ↔ s < t ∨ s = t ∧ a.symbol < b.symbol := by
    rw [sealKey, sealKey, Prod.Lex.toLex_lt_toLex, hs, ht]
    rfl
  simp only [sealsBefore, hs, ht, hlt]
  by_cases heq : s = t
  · simp [heq]
  · simp [heq]

theorem leadsBefore_eq {a b : RoleRow} (ha : Dated a) (hb : Dated b) : leadsBefore a b = .ok (decide (leadKey a < leadKey b)) := by
  obtain ⟨x, hx⟩ := ha.boards
  obtain ⟨y, hy⟩ := hb.boards
  have hlt : leadKey a < leadKey b ↔ y < x ∨ x = y ∧ sealKey a < sealKey b := by
    rw [leadKey, leadKey, Prod.Lex.toLex_lt_toLex, hx, hy]
    rfl
  simp only [leadsBefore, hx, hy, hlt, present, bind, Except.bind, sealsBefore_eq ha hb, pure, Except.pure]
  by_cases heq : x = y
  · simp [heq]
  · simp [heq]

theorem minBy_spec {κ : Type} [LinearOrder κ] (key : RoleRow → κ) {before : RoleRow → RoleRow → Except RoleError Bool} (best : RoleRow)
    (rest : List RoleRow) (hbefore : ∀ a ∈ best :: rest, ∀ b ∈ best :: rest, before a b = .ok (decide (key a < key b))) :
    ∃ least, minBy before best rest = .ok least ∧ least ∈ best :: rest ∧ ∀ row ∈ best :: rest, key least ≤ key row := by
  induction rest generalizing best with
  | nil => exact ⟨best, rfl, List.mem_cons_self, by simp⟩
  | cons row rest ih =>
      have hfirst := hbefore row (by simp) best (by simp)
      by_cases hless : key row < key best
      · have hrow : ∀ a ∈ row :: rest, a ∈ best :: row :: rest := fun a ha => List.mem_cons_of_mem _ ha
        obtain ⟨least, hleast, hmem, hall⟩ := ih row fun a ha b hb => hbefore a (hrow a ha) b (hrow b hb)
        refine ⟨least, ?_, List.mem_cons_of_mem _ hmem, List.forall_mem_cons.mpr ⟨?_, hall⟩⟩
        · simpa only [minBy, hfirst, bind, Except.bind, hless, decide_true, if_true] using hleast
        · exact (hall row List.mem_cons_self).trans hless.le
      · have hbest : ∀ a ∈ best :: rest, a ∈ best :: row :: rest := by
          intro a ha
          rcases List.mem_cons.mp ha with rfl | hin
          · exact List.mem_cons_self
          · exact List.mem_cons_of_mem _ (List.mem_cons_of_mem _ hin)
        obtain ⟨least, hleast, hmem, hall⟩ := ih best fun a ha b hb => hbefore a (hbest a ha) b (hbest b hb)
        obtain ⟨hfirst', hrest⟩ := List.forall_mem_cons.mp hall
        refine ⟨least, ?_, hbest least hmem, List.forall_mem_cons.mpr ⟨hfirst', List.forall_mem_cons.mpr ⟨?_, hrest⟩⟩⟩
        · simpa only [minBy, hfirst, bind, Except.bind, hless, decide_false, Bool.false_eq_true, if_false] using hleast
        · exact hfirst'.trans (not_lt.mp hless)

/-- A leader of a theme of at least two stocks: none is before it. -/
structure IsLeader (rows : List RoleRow) (sector : Option String) (leader : RoleRow) : Prop where
  named : noSector sector = false
  two : 2 ≤ (themeOf rows sector).length
  mem : leader ∈ themeOf rows sector
  first : ∀ other ∈ themeOf rows sector, leadKey leader ≤ leadKey other

theorem IsLeader.agree {rows : List RoleRow} {sector : Option String} {leader other : RoleRow} (h : IsLeader rows sector leader)
    (hother : IsLeader rows sector other) (hdated : ∀ row ∈ rows, Dated row) :
    leader.symbol = other.symbol ∧ leader.boards = other.boards := by
  have hkey := le_antisymm (h.first other hother.mem) (hother.first leader h.mem)
  obtain ⟨x, hx⟩ := (hdated leader (List.mem_of_mem_filter h.mem)).boards
  obtain ⟨y, hy⟩ := (hdated other (List.mem_of_mem_filter hother.mem)).boards
  have hpair := toLex.injective hkey
  have hboards := (Prod.mk.inj hpair).1
  have hseals := (Prod.mk.inj (toLex.injective (Prod.mk.inj hpair).2)).2
  rw [hx, hy] at hboards ⊢
  exact ⟨hseals, congrArg some hboards⟩

theorem themeLeader_spec {rows : List RoleRow} (hdated : ∀ row ∈ rows, Dated row) (sector : Option String) :
    ∃ found, themeLeader rows sector = .ok found ∧ (∀ leader ∈ found, IsLeader rows sector leader) ∧
      (found = none → ∀ leader, ¬IsLeader rows sector leader) := by
  unfold themeLeader
  by_cases hsector : noSector sector = true
  · rw [if_pos hsector]
    refine ⟨none, rfl, by simp, fun _ leader h => ?_⟩
    rw [h.named] at hsector
    exact absurd hsector (by decide)
  rw [if_neg hsector]
  rcases htheme : themeOf rows sector with _ | ⟨first, _ | ⟨second, rest⟩⟩
  · refine ⟨none, rfl, by simp, fun _ leader h => ?_⟩
    have htwo := h.two
    rw [htheme] at htwo
    exact absurd htwo (by simp)
  · refine ⟨none, rfl, by simp, fun _ leader h => ?_⟩
    have htwo := h.two
    rw [htheme] at htwo
    exact absurd htwo (by simp)
  · have hin : ∀ row ∈ first :: second :: rest, Dated row := fun row hrow => hdated row (List.mem_of_mem_filter (htheme ▸ hrow))
    obtain ⟨least, hleast, hmem, hall⟩ := minBy_spec leadKey first (second :: rest)
      fun a ha b hb => leadsBefore_eq (hin a ha) (hin b hb)
    refine ⟨some least, ?_, ?_, by simp⟩
    · simp only [hleast, bind, Except.bind, pure, Except.pure]
    · rintro leader hleader
      cases hleader
      exact ⟨Bool.eq_false_iff.mpr hsector, by simp [htheme], htheme ▸ hmem, htheme ▸ hall⟩

/-! ## What the roles mean -/

/-- A streak of two boards or more. -/
def TwoBoards (row : RoleRow) : Prop := ∃ boards ∈ row.boards, 2 ≤ boards

/-- Sealed from 13:00 on, opened again, or sealed with less than twenty million. -/
def SealedWeakly (row : RoleRow) : Prop :=
  (∃ sealed ∈ row.seal, 13 * 3600 ≤ sealed) ∨ (∃ times ∈ row.reopened, times ≠ 0) ∨ ∃ money ∈ row.sealMoney, money < 20000000

section Meaning

variable (row : RoleRow) (rows yesterday before earlier : List RoleRow)

/-- Sealed before yesterday's leader of its theme, which sealed later today. -/
def KaweiLeader : Prop :=
  ∃ leader, IsLeader yesterday row.sector leader ∧ TwoBoards leader ∧ row.symbol ≠ leader.symbol ∧
    ∃ today ∈ rowFor rows leader.symbol, ∃ sealed ∈ row.seal, ∃ other ∈ today.seal, sealed < other

/-- Yesterday's leader did not seal, and this is the leader of the theme today. -/
def LeaderSwitch : Prop :=
  (∃ leader, IsLeader yesterday row.sector leader ∧ TwoBoards leader ∧ rowFor rows leader.symbol = none) ∧
    ∃ top, IsLeader rows row.sector top ∧ top.symbol = row.symbol

def WeakToStrong : Prop :=
  TwoBoards row ∧ (∃ sealed ∈ row.seal, sealed ≤ 9 * 3600 + 45 * 60) ∧ ∃ prior ∈ rowFor yesterday row.symbol, SealedWeakly prior

def DivergenceToConsensus : Prop :=
  row.oneWord = some true ∧
    ∃ prior ∈ rowFor yesterday row.symbol, (∃ times ∈ prior.reopened, times ≠ 0) ∨ ∃ vr ∈ prior.vr, 2 ≤ vr

def ConsensusToDivergence : Prop :=
  row.oneWord = some false ∧ ∃ prior ∈ rowFor yesterday row.symbol, prior.oneWord = some true

/-- A first board, one or two sessions after a streak ended. -/
def ReboundBoard : Prop :=
  row.boards = some 1 ∧ rowFor yesterday row.symbol = none ∧
    ((∃ prior ∈ rowFor before row.symbol, TwoBoards prior) ∨
      rowFor before row.symbol = none ∧ ∃ prior ∈ rowFor earlier row.symbol, TwoBoards prior)

end Meaning

/-- A role is known and says whether its definition holds. -/
def Decides (value : Option Bool) (definition : Prop) : Prop := value = some true ∧ definition ∨ value = some false ∧ ¬definition

theorem decides_some {value : Bool} {definition : Prop} (h : value = true ↔ definition) : Decides (some value) definition := by
  cases value with
  | true => exact .inl ⟨rfl, h.mp rfl⟩
  | false => exact .inr ⟨rfl, fun hdef => absurd (h.mpr hdef) (by decide)⟩

theorem not_decides_none (definition : Prop) : ¬Decides none definition := by
  rintro (⟨h, -⟩ | ⟨h, -⟩)
  · exact absurd h (by decide)
  · exact absurd h (by decide)

/-! ## The stock's own row -/

theorem truthyNumber_iff {value : Option ℚ} : truthyNumber value = true ↔ ∃ number ∈ value, number ≠ 0 := by
  rcases value with _ | number <;> simp [truthyNumber]

theorem weak_iff {prior : RoleRow} : weak prior = true ↔ SealedWeakly prior := by
  unfold weak SealedWeakly
  rw [Bool.or_eq_true, Bool.or_eq_true, truthyNumber_iff, or_assoc]
  rcases prior.seal with _ | sealed <;> rcases prior.sealMoney with _ | money <;> simp

section Own

variable {row : RoleRow} {yesterday : List RoleRow}

theorem weakToStrong_decides_iff (hrow : Dated row) :
    Decides (ownRoles row (rowFor yesterday row.symbol)).weakToStrong (WeakToStrong row yesterday) ↔
      (rowFor yesterday row.symbol).isSome := by
  obtain ⟨boards, hboards⟩ := hrow.boards
  obtain ⟨sealed, hsealed⟩ := hrow.sealed
  unfold WeakToStrong TwoBoards
  rcases rowFor yesterday row.symbol with _ | prior
  · simp [ownRoles, not_decides_none]
  · simp only [ownRoles, hsealed, hboards, Option.isSome_some, iff_true]
    refine decides_some ?_
    simp [← weak_iff]
    tauto

theorem divergenceToConsensus_decides_iff (hword : row.oneWord.isSome) :
    Decides (ownRoles row (rowFor yesterday row.symbol)).divergenceToConsensus (DivergenceToConsensus row yesterday) ↔
      (rowFor yesterday row.symbol).isSome := by
  obtain ⟨oneWord, hone⟩ := Option.isSome_iff_exists.mp hword
  unfold DivergenceToConsensus
  rcases rowFor yesterday row.symbol with _ | prior
  · simp [ownRoles, not_decides_none]
  · simp only [ownRoles, hone, Option.isSome_some, iff_true, Option.map_some]
    refine decides_some ?_
    rw [Bool.and_eq_true, Bool.or_eq_true, truthyNumber_iff]
    rcases hvr : prior.vr with _ | vr <;> simp [hvr, and_comm]

theorem consensusToDivergence_decides_iff (hword : row.oneWord.isSome)
    (hprior : ∀ prior ∈ rowFor yesterday row.symbol, prior.oneWord.isSome) :
    Decides (ownRoles row (rowFor yesterday row.symbol)).consensusToDivergence (ConsensusToDivergence row yesterday) ↔
      (rowFor yesterday row.symbol).isSome := by
  obtain ⟨oneWord, hone⟩ := Option.isSome_iff_exists.mp hword
  unfold ConsensusToDivergence
  rcases hfound : rowFor yesterday row.symbol with _ | prior
  · simp [ownRoles, not_decides_none]
  · obtain ⟨before, hbefore⟩ := Option.isSome_iff_exists.mp (hprior prior hfound)
    simp only [ownRoles, hone, hbefore, Option.isSome_some, iff_true]
    refine decides_some ?_
    cases oneWord <;> cases before <;> simp [hbefore]

end Own

/-! ## The rebound -/

theorem reboundCandidate_spec (row : RoleRow) (boards : ℚ) (histories : List (List RoleRow)) (index : ℕ)
    (hdated : ∀ prior ∈ histories.getD index [], Dated prior) :
    ∃ value, reboundCandidate row boards histories index = .ok value ∧
      (value = true ↔ boards = 1 ∧ (∃ prior ∈ rowFor (histories.getD index []) row.symbol, TwoBoards prior) ∧
        ∀ history ∈ histories.take index, rowFor history row.symbol = none) := by
  unfold reboundCandidate
  rcases hfound : rowFor (histories.getD index []) row.symbol with _ | prior
  · exact ⟨false, rfl, by simp⟩
  · obtain ⟨streak, hstreak⟩ := (hdated prior (List.mem_of_find?_eq_some hfound)).boards
    have htwo : (∃ other ∈ some prior, TwoBoards other) ↔ 2 ≤ streak := by
      simp [TwoBoards, hstreak]
    simp only [hstreak, present, bind, Except.bind, pure, Except.pure, htwo]
    by_cases hshort : streak < 2
    · exact ⟨false, by rw [if_pos hshort], by simp [hshort]⟩
    · refine ⟨_, by rw [if_neg hshort], ?_⟩
      simp [not_lt.mp hshort]

theorem reboundValue_decides {row : RoleRow} (hrow : Dated row) {first second third : Option CloseReading}
    {yesterday before earlier : List RoleRow} (hfirst : completeRows first = some yesterday) (hsecond : completeRows second = some before)
    (hthird : completeRows third = some earlier) (hbefore : ∀ prior ∈ before, Dated prior) (hearlier : ∀ prior ∈ earlier, Dated prior) :
    ∃ value, reboundValue row [first, second, third] = .ok value ∧ Decides value (ReboundBoard row yesterday before earlier) := by
  obtain ⟨boards, hboards⟩ := hrow.boards
  obtain ⟨two, htwo, htwo_iff⟩ := reboundCandidate_spec row boards [yesterday, before, earlier] 1 hbefore
  obtain ⟨three, hthree, hthree_iff⟩ := reboundCandidate_spec row boards [yesterday, before, earlier] 2 hearlier
  refine ⟨some (two || three), ?_, decides_some ?_⟩
  · simp only [reboundValue, hboards, List.length_cons, List.length_nil, List.take_succ_cons, List.take_zero, List.mapM_cons, List.mapM_nil,
      hfirst, hsecond, hthird, Option.bind_eq_bind, Option.bind_some, Option.pure_def]
    simp [htwo, hthree, bind, Except.bind, pure, Except.pure]
  · rw [Bool.or_eq_true, htwo_iff, hthree_iff, ReboundBoard, hboards]
    simp only [Option.some.injEq, List.getD_cons_succ, List.getD_cons_zero, List.take_succ_cons, List.take_zero, List.forall_mem_cons,
      List.not_mem_nil, false_implies, implies_true, and_true]
    constructor
    · rintro (⟨hone, hstreak, habsent⟩ | ⟨hone, hstreak, habsent, hgone⟩)
      · exact ⟨hone, habsent, .inl hstreak⟩
      · exact ⟨hone, habsent, .inr ⟨hgone, hstreak⟩⟩
    · rintro ⟨hone, habsent, hstreak | ⟨hgone, hstreak⟩⟩
      · exact .inl ⟨hone, hstreak, habsent⟩
      · exact .inr ⟨hone, hstreak, habsent, hgone⟩

theorem reboundValue_unknown (row : RoleRow) {first second third : Option CloseReading}
    (h : completeRows first = none ∨ completeRows second = none ∨ completeRows third = none) :
    reboundValue row [first, second, third] = .ok none := by
  unfold reboundValue
  rcases row.boards with _ | boards
  · rfl
  have hnone : ([first, second, third].take 3).mapM completeRows = none := by
    simp only [List.take_succ_cons, List.take_zero, List.mapM_cons, List.mapM_nil, Option.bind_eq_bind, Option.pure_def]
    rcases h with h | h | h
    · simp [h]
    · rcases completeRows first with _ | rows <;> simp [h]
    · rcases completeRows first with _ | rows <;> rcases completeRows second with _ | rows' <;> simp [h]
  simp only [hnone]
  rfl

/-! ## Yesterday's leader -/

section Leaders

variable {row : RoleRow} {rows yesterday : List RoleRow}

theorem leaderRoles_decides (hrow : Dated row) (hrows : ∀ other ∈ rows, Dated other) (hyesterday : ∀ prior ∈ yesterday, Dated prior)
    (hsector : noSector row.sector = false) {leader : Option RoleRow} (hleader : themeLeader rows row.sector = .ok leader) :
    ∃ roles, leaderRoles row rows leader (themeOf rows row.sector) (some yesterday) = .ok roles ∧
      Decides roles.kaweiLeader (KaweiLeader row rows yesterday) ∧ Decides roles.leaderSwitch (LeaderSwitch row rows yesterday) := by
  obtain ⟨prior, hprior, hsome, hnone⟩ := themeLeader_spec hyesterday row.sector
  obtain ⟨top, htop, htopSome, htopNone⟩ := themeLeader_spec hrows row.sector
  have hsame : leader = top := Except.ok.inj (hleader.symm.trans htop)
  subst hsame
  obtain ⟨sealed, hsealed⟩ := hrow.sealed
  have hno : ¬(noSector row.sector = true) := by simp [hsector]
  unfold leaderRoles
  simp only [hprior, bind, Except.bind, if_neg hno]
  rcases prior with _ | prior
  · -- no theme of two stocks yesterday
    refine ⟨_, rfl, .inr ⟨rfl, ?_⟩, .inr ⟨rfl, ?_⟩⟩
    · rintro ⟨other, hother, -⟩
      exact hnone rfl other hother
    · rintro ⟨⟨other, hother, -⟩, -⟩
      exact hnone rfl other hother
  have hlead := hsome prior rfl
  obtain ⟨boards, hboards⟩ := (hyesterday prior (List.mem_of_mem_filter hlead.mem)).boards
  have hagree : ∀ other, IsLeader yesterday row.sector other → other.symbol = prior.symbol ∧ (TwoBoards other ↔ 2 ≤ boards) := by
    intro other hother
    obtain ⟨hsymbol, hothers⟩ := hother.agree hlead hyesterday
    exact ⟨hsymbol, by simp [TwoBoards, hothers, hboards]⟩
  simp only [hboards, present_some]
  by_cases hshort : boards < 2
  · refine ⟨_, if_pos hshort, .inr ⟨rfl, ?_⟩, .inr ⟨rfl, ?_⟩⟩
    · rintro ⟨other, hother, htwo, -⟩
      exact absurd ((hagree other hother).2.mp htwo) (not_le.mpr hshort)
    · rintro ⟨⟨other, hother, htwo, -⟩, -⟩
      exact absurd ((hagree other hother).2.mp htwo) (not_le.mpr hshort)
  have htwo : TwoBoards prior := (hagree prior hlead).2.mpr (not_lt.mp hshort)
  have hkawei : KaweiLeader row rows yesterday ↔
      ∃ today ∈ rowFor rows prior.symbol, row.symbol ≠ prior.symbol ∧ ∃ other ∈ today.seal, sealed < other := by
    constructor
    · rintro ⟨other, hother, -, hne, today, htoday, sealed', hsealed', other', hother', hless⟩
      rw [(hagree other hother).1] at hne htoday
      rw [hsealed] at hsealed'
      cases hsealed'
      exact ⟨today, htoday, hne, other', hother', hless⟩
    · rintro ⟨today, htoday, hne, other, hother, hless⟩
      exact ⟨prior, hlead, htwo, hne, today, htoday, sealed, hsealed, other, hother, hless⟩
  have hswitch : LeaderSwitch row rows yesterday ↔
      rowFor rows prior.symbol = none ∧ ∃ top ∈ leader, top.symbol = row.symbol := by
    constructor
    · rintro ⟨⟨other, hother, -, hgone⟩, today, htoday, hsymbol⟩
      rw [(hagree other hother).1] at hgone
      rcases leader with _ | found
      · exact absurd htoday (htopNone rfl today)
      · exact ⟨hgone, found, rfl, ((htopSome found rfl).agree htoday hrows).1.trans hsymbol⟩
    · rintro ⟨hgone, found, hfound, hsymbol⟩
      exact ⟨⟨prior, hlead, htwo, hgone⟩, found, htopSome found hfound, hsymbol⟩
  simp only [if_neg hshort]
  rcases htoday : rowFor rows prior.symbol with _ | today
  · refine ⟨_, rfl, decides_some ?_, decides_some ?_⟩
    · rw [hkawei, htoday]
      simp
    · rw [hswitch, htoday]
      rcases leader with _ | found
      · simp
      · have hsize := (htopSome found rfl).two
        simp [hsize]
  · obtain ⟨other, hother⟩ := (hrows today (List.mem_of_find?_eq_some htoday)).sealed
    have hok : andAlso (decide (row.symbol ≠ prior.symbol)) ((present today.seal).map (fun other => decide (sealed < other))) =
        .ok (decide (row.symbol ≠ prior.symbol) && decide (sealed < other)) := by
      by_cases hne : row.symbol = prior.symbol
      · simp [andAlso, hne]
      · simp [andAlso, hne, hother, Except.map]
    simp only [hsealed, hok]
    refine ⟨_, rfl, decides_some ?_, decides_some ?_⟩
    · rw [hkawei, htoday]
      simp [hother]
    · rw [hswitch, htoday]
      simp

end Leaders

/-! ## A sample whose rows are dated -/

section Returns

variable {row : RoleRow} {rows : List RoleRow}

theorem tierFirstValue_returns (row : RoleRow) (hrows : ∀ other ∈ rows, Dated other) {tier : List RoleRow} (htier : ∀ other ∈ tier, other ∈ rows) :
    ∃ value, tierFirstValue row tier = .ok value := by
  unfold tierFirstValue
  split
  · next boards sealed first rest _ _ =>
      split
      · obtain ⟨least, hleast, -⟩ := minBy_spec sealKey first rest
          fun a ha b hb => sealsBefore_eq (hrows a (htier a ha)) (hrows b (htier b hb))
        simp only [hleast, bind, Except.bind, pure, Except.pure]
        exact ⟨_, rfl⟩
      · exact ⟨_, rfl⟩
  · exact ⟨_, rfl⟩
  · exact ⟨_, rfl⟩

theorem andAlso_returns (first : Bool) {second : Except RoleError Bool} (h : ∃ value, second = .ok value) :
    ∃ value, andAlso first second = .ok value := by
  cases first with
  | true => exact h
  | false => exact ⟨false, rfl⟩

theorem placeValues_returns (hrow : Dated row) {leader : Option RoleRow} (hleader : ∀ found ∈ leader, Dated found) :
    ∃ places, placeValues row leader = .ok places := by
  obtain ⟨boards, hboards⟩ := hrow.boards
  obtain ⟨sealed, hsealed⟩ := hrow.sealed
  unfold placeValues
  rcases leader with _ | found
  · exact ⟨_, rfl⟩
  · obtain ⟨leaderBoards, hleaderBoards⟩ := (hleader found rfl).boards
    obtain ⟨first, hfirst⟩ := (hleader found rfl).sealed
    simp only [hsealed, hboards, hleaderBoards, hfirst, present_some, Except.map, bind, Except.bind]
    obtain ⟨front, hfront⟩ := andAlso_returns (decide (boards < leaderBoards)) ⟨decide (sealed < first), rfl⟩
    obtain ⟨back, hback⟩ := andAlso_returns (decide (boards < leaderBoards)) ⟨decide (first < sealed), rfl⟩
    obtain ⟨assist, hassist⟩ := andAlso_returns (decide (boards = 1 ∧ 2 ≤ leaderBoards))
      ⟨decide (first ≤ sealed ∧ sealed - first ≤ 1800), rfl⟩
    simp only [hfront, hback, hassist, pure, Except.pure]
    exact ⟨_, rfl⟩

theorem rungs_return {theme : List RoleRow} (htheme : ∀ other ∈ theme, Dated other) :
    ∃ rungs, theme.mapM (fun item => do return rung (← present item.boards)) = (.ok rungs : Except RoleError (List ℕ)) := by
  induction theme with
  | nil => exact ⟨[], rfl⟩
  | cons item rest ih =>
      obtain ⟨boards, hboards⟩ := (htheme item List.mem_cons_self).boards
      obtain ⟨rungs, hrungs⟩ := ih fun other hother => htheme other (List.mem_cons_of_mem _ hother)
      refine ⟨rung boards :: rungs, ?_⟩
      rw [List.mapM_cons, hrungs, hboards]
      rfl

theorem ladderFullValue_returns (sector : Option String) {theme : List RoleRow} (htheme : ∀ other ∈ theme, Dated other) :
    ∃ value, ladderFullValue sector theme = .ok value := by
  obtain ⟨rungs, hrungs⟩ := rungs_return htheme
  unfold ladderFullValue
  rw [hrungs]
  simp only [bind, Except.bind]
  split
  · exact ⟨_, rfl⟩
  · exact ⟨_, rfl⟩

/-- Without a sector, or without a reading, nothing is said about yesterday's leader. -/
theorem leaderRoles_returns (hrow : Dated row) (hrows : ∀ other ∈ rows, Dated other) {leader : Option RoleRow}
    (hleader : themeLeader rows row.sector = .ok leader) {priorRows : Option (List RoleRow)}
    (hprior : ∀ prior ∈ priorRows, ∀ other ∈ prior, Dated other) :
    ∃ roles, leaderRoles row rows leader (themeOf rows row.sector) priorRows = .ok roles ∧
      ∀ yesterday ∈ priorRows, noSector row.sector = false →
        Decides roles.kaweiLeader (KaweiLeader row rows yesterday) ∧ Decides roles.leaderSwitch (LeaderSwitch row rows yesterday) := by
  rcases priorRows with _ | yesterday
  · exact ⟨_, rfl, by simp⟩
  have hyesterday := hprior yesterday rfl
  by_cases hsector : noSector row.sector = true
  · refine ⟨{ kaweiLeader := none, leaderSwitch := none }, ?_, ?_⟩
    · simp [leaderRoles, themeLeader, hsector, bind, Except.bind, pure, Except.pure]
    · intro other _ hnamed
      rw [hsector] at hnamed
      exact absurd hnamed (by decide)
  · obtain ⟨roles, hroles, hkawei, hswitch⟩ := leaderRoles_decides hrow hrows hyesterday (Bool.eq_false_iff.mpr hsector) hleader
    refine ⟨roles, hroles, ?_⟩
    intro other hother _
    cases hother
    exact ⟨hkawei, hswitch⟩

end Returns

/-! ## All six roles -/

/-- What the roles of a row say on three complete readings. -/
structure TwoValued (row : RoleRow) (rows yesterday before earlier : List RoleRow) (values : RoleValues) : Prop where
  kaweiLeader : noSector row.sector = false → Decides values.leaders.kaweiLeader (KaweiLeader row rows yesterday)
  leaderSwitch : noSector row.sector = false → Decides values.leaders.leaderSwitch (LeaderSwitch row rows yesterday)
  reboundBoard : Decides values.reboundBoard (ReboundBoard row yesterday before earlier)
  weakToStrong : Decides values.own.weakToStrong (WeakToStrong row yesterday) ↔ (rowFor yesterday row.symbol).isSome
  divergenceToConsensus : row.oneWord.isSome →
    (Decides values.own.divergenceToConsensus (DivergenceToConsensus row yesterday) ↔ (rowFor yesterday row.symbol).isSome)
  consensusToDivergence : row.oneWord.isSome → (∀ prior ∈ rowFor yesterday row.symbol, prior.oneWord.isSome) →
    (Decides values.own.consensusToDivergence (ConsensusToDivergence row yesterday) ↔ (rowFor yesterday row.symbol).isSome)

/-- No role that looks back is known without the readings it needs. -/
structure UnknownWithout (first second third : Option CloseReading) (values : RoleValues) : Prop where
  leaders : completeRows first = none → values.leaders = { kaweiLeader := none, leaderSwitch := none }
  own : completeRows first = none →
    values.own = { weakToStrong := none, divergenceToConsensus := none, consensusToDivergence := none }
  reboundBoard : completeRows first = none ∨ completeRows second = none ∨ completeRows third = none → values.reboundBoard = none

theorem roleValues_parts {row : RoleRow} {rows : List RoleRow} {previous : List (Option CloseReading)} {values : RoleValues}
    (h : roleValues row rows previous = .ok values) :
    ∃ leader, themeLeader rows row.sector = .ok leader ∧
      leaderRoles row rows leader (themeOf rows row.sector) (completeRows (previous.headD none)) = .ok values.leaders ∧
      values.own = ownRoles row ((completeRows (previous.headD none)).bind (fun prior => rowFor prior row.symbol)) ∧
      reboundValue row previous = .ok values.reboundBoard := by
  obtain ⟨leader, hleader, h⟩ := Runs.bind_eq_ok h
  obtain ⟨tierFirst, -, h⟩ := Runs.bind_eq_ok h
  obtain ⟨places, -, h⟩ := Runs.bind_eq_ok h
  obtain ⟨ladderFull, -, h⟩ := Runs.bind_eq_ok h
  obtain ⟨leaders, hleaders, h⟩ := Runs.bind_eq_ok h
  obtain ⟨rebound, hrebound, h⟩ := Runs.bind_eq_ok h
  cases h
  exact ⟨leader, hleader, hleaders, rfl, hrebound⟩

/-- **The roles that look back**: unknown without a reading they need; on complete readings what they mean, but for the three against the
stock's own row of yesterday, which are known exactly where there is such a row. -/
theorem roles_look_back (row : RoleRow) (rows : List RoleRow) (first second third : Option CloseReading) :
    (∀ values, roleValues row rows [first, second, third] = .ok values → UnknownWithout first second third values) ∧
      (Dated row → (∀ other ∈ rows, Dated other) →
        (∀ reading ∈ [first, second, third], ∀ prior ∈ completeRows reading, ∀ other ∈ prior, Dated other) →
        ∃ values, roleValues row rows [first, second, third] = .ok values ∧
          ∀ yesterday ∈ completeRows first, ∀ before ∈ completeRows second, ∀ earlier ∈ completeRows third,
            TwoValued row rows yesterday before earlier values) := by
  constructor
  · intro values h
    obtain ⟨leader, -, hleaders, hown, hrebound⟩ := roleValues_parts h
    refine { leaders := ?_, own := ?_, reboundBoard := ?_ }
    · intro hnone
      rw [List.headD_cons, hnone] at hleaders
      exact (Except.ok.inj hleaders).symm
    · intro hnone
      rw [List.headD_cons, hnone] at hown
      exact hown
    · intro hnone
      rw [reboundValue_unknown row hnone] at hrebound
      exact (Except.ok.inj hrebound).symm
  · intro hrow hrows hreadings
    obtain ⟨leader, hleader, hfound, -⟩ := themeLeader_spec hrows row.sector
    obtain ⟨tierFirst, htier⟩ : ∃ value, tierFirstValue row (rows.filter (fun item => decide (item.boards = row.boards))) = .ok value :=
      tierFirstValue_returns row hrows (fun other hother => List.mem_of_mem_filter hother)
    obtain ⟨places, hplaces⟩ := placeValues_returns hrow
      (fun found hmem => hrows found (List.mem_of_mem_filter (hfound found hmem).mem))
    obtain ⟨ladderFull, hladder⟩ : ∃ value, ladderFullValue row.sector (themeOf rows row.sector) = .ok value :=
      ladderFullValue_returns row.sector (fun other hother => hrows other (List.mem_of_mem_filter hother))
    obtain ⟨leaders, hleaders, hdecides⟩ := leaderRoles_returns hrow hrows hleader (hreadings first (by simp))
    have hrebound : ∃ value, reboundValue row [first, second, third] = .ok value ∧
        ∀ yesterday ∈ completeRows first, ∀ before ∈ completeRows second, ∀ earlier ∈ completeRows third,
          Decides value (ReboundBoard row yesterday before earlier) := by
      rcases hone : completeRows first with _ | yesterday
      · exact ⟨none, reboundValue_unknown row (.inl hone), by simp⟩
      rcases htwo : completeRows second with _ | before
      · exact ⟨none, reboundValue_unknown row (.inr (.inl htwo)), by simp⟩
      rcases hthree : completeRows third with _ | earlier
      · exact ⟨none, reboundValue_unknown row (.inr (.inr hthree)), by simp⟩
      obtain ⟨value, hvalue, hdecide⟩ := reboundValue_decides hrow hone htwo hthree (hreadings second (by simp) before htwo)
        (hreadings third (by simp) earlier hthree)
      refine ⟨value, hvalue, ?_⟩
      rintro _ ⟨⟩ _ ⟨⟩ _ ⟨⟩
      exact hdecide
    obtain ⟨rebound, hvalue, hreboundDecides⟩ := hrebound
    refine ⟨{ tierFirst := tierFirst, places := places, ladderFull := ladderFull, leaders := leaders, reboundBoard := rebound
              soleHighBoard := soleHighBoardValue row (rows.filter (fun item => decide (item.boards = row.boards)))
              own := ownRoles row ((completeRows first).bind (fun prior => rowFor prior row.symbol)) }, ?_, ?_⟩
    · simp only [roleValues, hleader, htier, hplaces, hladder, List.headD_cons, hleaders, hvalue, bind, Except.bind, pure, Except.pure]
    · intro yesterday hyesterday before hbefore earlier hearlier
      have hown : (completeRows first).bind (fun prior => rowFor prior row.symbol) = rowFor yesterday row.symbol := by
        rw [Option.mem_def.mp hyesterday, Option.bind_some]
      refine
        { kaweiLeader := fun hnamed => (hdecides yesterday hyesterday hnamed).1
          leaderSwitch := fun hnamed => (hdecides yesterday hyesterday hnamed).2
          reboundBoard := hreboundDecides yesterday hyesterday before hbefore earlier hearlier
          weakToStrong := ?_, divergenceToConsensus := ?_, consensusToDivergence := ?_ }
      · simp only [hown]
        exact weakToStrong_decides_iff hrow
      · intro hword
        simp only [hown]
        exact divergenceToConsensus_decides_iff hword
      · intro hword hprior
        simp only [hown]
        exact consensusToDivergence_decides_iff hword hprior

/-! ## The states of an evaluated row -/

/-- A first board. -/
def newBoard : RoleRow :=
  { symbol := "A", sector := some "Theme", boards := some 1, firstSealTime := some ⟨10, 0, 0⟩, sealMoney := some 50000000, reopened := some 0
    oneWord := some false, vr := some 1 }

/-- **A stock that did not seal yesterday**: it is not in the complete reading, its board count alone makes `weak_to_strong` false, and the
role is unknown. -/
theorem new_board_unknown :
    (evaluateLadderRoles [newBoard] [some ⟨true, []⟩, some ⟨true, []⟩, some ⟨true, []⟩]).toOption.map (·.map (·.unknown)) =
        some [["front_row", "assist", "back_row", "weak_to_strong", "divergence_to_consensus", "consensus_to_divergence"]] ∧
      ¬WeakToStrong newBoard [] := by
  refine ⟨by decide +kernel, ?_⟩
  rintro ⟨⟨boards, hboards, htwo⟩, -⟩
  cases hboards
  exact absurd htwo (by decide +kernel)

end TradingHarness
