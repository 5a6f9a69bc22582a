import TradingHarness.Teacher.SettledAgain
import TradingHarness.Library.Driven

set_option autoImplicit false

/-! # The life of a teacher's plan

One plan followed through the rolls of its sessions: what a session without a bar does to it, for how many
sessions it is carried as promoted, and when it is over. -/

namespace TradingHarness.Teacher

/-! ## The calendar -/

theorem countP_or {α : Type} (holds other : α → Bool) (entries : List α)
    (hone : ∀ entry ∈ entries, holds entry = true → other entry = false) :
    entries.countP (fun entry => holds entry || other entry) = entries.countP holds + entries.countP other := by
  induction entries with
  | nil => rfl
  | cons first rest ih =>
      have hrest := ih (fun entry hentry => hone entry (List.mem_cons_of_mem first hentry))
      rw [List.countP_cons, List.countP_cons, List.countP_cons, hrest]
      rcases hholds : holds first
      · simp [Nat.add_assoc]
      · simp [hone first List.mem_cons_self hholds]
        omega

section Calendar

variable {calendar : List Date} {day next : Date}

theorem nextSession_spec (hsorted : calendar.Pairwise (· < ·)) (h : nextSession calendar day = some next) :
    next ∈ calendar ∧ day < next ∧ ∀ other ∈ calendar, day < other → next ≤ other := by
  unfold nextSession at h
  obtain ⟨rest, hrest⟩ := List.head?_eq_some_iff.mp h
  have hmem : next ∈ calendar.filter (fun later => decide (day < later)) := by
    rw [hrest]
    exact List.mem_cons_self
  refine ⟨(List.mem_filter.mp hmem).1, of_decide_eq_true (List.mem_filter.mp hmem).2, fun other hother hlater => ?_⟩
  have hlater : other ∈ calendar.filter (fun later => decide (day < later)) := List.mem_filter.mpr ⟨hother, decide_eq_true hlater⟩
  have hpairs : (calendar.filter (fun later => decide (day < later))).Pairwise (· < ·) := hsorted.sublist List.filter_sublist
  rw [hrest] at hlater hpairs
  rcases List.mem_cons.mp hlater with rfl | hmem
  · exact Int.le_refl _
  · exact Int.le_of_lt ((List.pairwise_cons.mp hpairs).1 other hmem)

theorem length_sessionsBetween_next (hsorted : calendar.Pairwise (· < ·)) {after : Date} (hafter : after < day)
    (h : nextSession calendar day = some next) :
    (sessionsBetween calendar after next).length = (sessionsBetween calendar after day).length + 1 := by
  obtain ⟨hnext, hlater, hfirst⟩ := nextSession_spec hsorted h
  unfold sessionsBetween
  rw [← List.countP_eq_length_filter, ← List.countP_eq_length_filter]
  have hsplit : ∀ other ∈ calendar, (decide (after < other) && decide (other ≤ next)) =
      ((decide (after < other) && decide (other ≤ day)) || decide (other = next)) := by
    intro other hother
    rw [Bool.eq_iff_iff]
    simp only [Bool.and_eq_true, Bool.or_eq_true, decide_eq_true_eq]
    have hother' := hfirst other hother
    constructor
    · rintro ⟨hlow, hhigh⟩
      by_cases hday : other ≤ day
      · exact Or.inl ⟨hlow, hday⟩
      · exact Or.inr (Int.le_antisymm hhigh (hother' (Int.not_le.mp hday)))
    · rintro (⟨hlow, hhigh⟩ | rfl)
      · exact ⟨hlow, Int.le_trans hhigh (Int.le_of_lt hlater)⟩
      · exact ⟨Int.lt_trans hafter hlater, Int.le_refl _⟩
  rw [List.countP_congr (fun other hother => by rw [hsplit other hother])]
  have honce : calendar.countP (fun other => decide (other = next)) = 1 := by
    have hnodup : calendar.Nodup := hsorted.imp (fun hlt => Int.ne_of_lt hlt)
    have hcount := List.count_eq_one_of_mem hnodup hnext
    rw [List.count_eq_countP] at hcount
    refine Eq.trans (List.countP_congr (fun other _ => ?_)) hcount
    simp
  rw [countP_or _ _ calendar (fun other _ hother => ?_), honce]
  simp only [Bool.and_eq_true, decide_eq_true_eq] at hother
  exact decide_eq_false (Int.ne_of_lt (Int.lt_of_le_of_lt hother.2 hlater))

theorem openAt_lt {session later : Date} (h : session < later) : openAt session < openAt later := by
  have hscaled : ∀ day next : ℤ, day < next → (day * 86400 + 4500) * 1000000 < (next * 86400 + 4500) * 1000000 := by
    intro day next hlt
    omega
  exact hscaled session later h

theorem eligibleIndex_isSome {sessions : List Date} {availableAt : Timestamp} (hmem : day ∈ sessions)
    (hopen : availableAt < openAt day) : (eligibleIndex sessions availableAt).isSome = true := by
  unfold eligibleIndex
  rw [Option.isSome_map, List.findIdx?_isSome, List.any_eq_true]
  exact ⟨day, hmem, decide_eq_true hopen⟩

end Calendar

/-! ## One roll -/

variable {plan : Plan}

section Step

variable {β : Type} {evidence : Evidence β} {tradeDate : Date} {now : Timestamp} {world : World} {record : Record} {stock : Stock}

/-- The window fields a carried plan keeps. -/
structure CarriedFrom (plan : Plan) (stock : Stock) (outcome : Decision) (next : Date) (nextIndex : ℕ) : Prop where
  state : plan.lifecycle.state = outcome.state
  carried : plan.lifecycle.carried = outcome.carried
  window : plan.lifecycle.teacherValidSessions = some stock.validSessions
  session : plan.sessionDate = next
  index : plan.sessionIndex = nextIndex
  status : plan.status = outcome.state.status

theorem carryStock_spec {fact : Option Fact} {nextIndex : ℕ} {item : CarryStock}
    (h : carryStock tradeDate plan stock fact nextIndex = some item) :
    (decideNext plan fact).state ≠ .expired ∧ item.lifecycle = some (stateRecord tradeDate plan stock (decideNext plan fact)) := by
  unfold carryStock at h
  dsimp only at h
  split at h
  next => exact absurd h (by simp)
  next hstate =>
    obtain ⟨bar, -, rfl⟩ := Option.map_eq_some_iff.mp h
    rw [hstate]
    exact ⟨by decide, rfl⟩
  next hexpired _ =>
    rw [← Option.some.inj h]
    exact ⟨hexpired, rfl⟩

theorem buildPlan_spec {packId : String} {reviewDate session previous : Date} {index : ℕ} {item : CarryStock}
    (h : buildPlan evidence packId reviewDate session index previous item = some plan) :
    plan.sessionIndex = index ∧ plan.status = (lifecycleOf item session).state.status := by
  unfold buildPlan at h
  split at h
  next => exact absurd h (by simp)
  next =>
    split at h
    next =>
      rw [← Option.some.inj h]
      exact ⟨rfl, rfl⟩
    next => exact absurd h (by simp)

theorem carriedFrom {next : Date} {after : Plan} (hlater : tradeDate < next) (hdate : plan.sessionDate = tradeDate)
    (h : carriedPlan evidence tradeDate record next stock (some plan) = some after) :
    (decideNext plan (stockFact evidence tradeDate record stock)).state ≠ .expired ∧
      CarriedFrom after stock (decideNext plan (stockFact evidence tradeDate record stock)) next
        ((sessionsBetween evidence.calendar record.pack.reviewDate tradeDate).length + 1) := by
  unfold carriedPlan at h
  dsimp only at h
  split at h
  next => exact absurd h (by simp)
  next =>
    rw [if_neg (fun hagain => absurd (hdate.symm.trans hagain.1) (Int.ne_of_lt hlater)), if_neg (fun hne => hne hdate)] at h
    obtain ⟨item, hitem, hbuild⟩ := Option.bind_eq_some_iff.mp h
    obtain ⟨hlive, hrecord⟩ := carryStock_spec hitem
    obtain ⟨-, hsession, hlifecycle⟩ := buildPlan_fields hbuild
    obtain ⟨hindex, hstatus⟩ := buildPlan_spec hbuild
    have hstate : lifecycleOf item next = stateRecord tradeDate plan stock (decideNext plan (stockFact evidence tradeDate record stock)) := by
      unfold lifecycleOf
      rw [hrecord, Option.getD_some]
    rw [hstate] at hlifecycle hstatus
    exact ⟨hlive, ⟨by rw [hlifecycle]; rfl, by rw [hlifecycle]; rfl, by rw [hlifecycle]; rfl, hsession, hindex, hstatus⟩⟩

theorem carried_without_bar {next : Date} (hlater : tradeDate < next) (hdate : plan.sessionDate = tradeDate)
    (hkind : stock.playbook.kind ≠ .record) (hpack : plan.packId = record.pack.packId)
    (hbar : barOf (stockFact evidence tradeDate record stock) = none) (hstate : plan.lifecycle.state ≠ .promoted)
    (hcomplete : isComplete (evidence.planBars (tsCode stock.code)) tradeDate = true) :
    ∃ after, carriedPlan evidence tradeDate record next stock (some plan) = some after ∧ after.lifecycle.state = .observe := by
  have hdecision : decideNext plan (stockFact evidence tradeDate record stock) = ⟨.observe, .noBar, plan.lifecycle.carried⟩ := by
    unfold decideNext
    rcases hfact : stockFact evidence tradeDate record stock with _ | fact
    · simp [hstate]
    · rw [hfact] at hbar
      have hnone : fact.bar = none := hbar
      simp [hnone, hstate]
  unfold carriedPlan
  dsimp only
  rw [if_neg (by rw [not_or, not_ne_iff]; exact ⟨hkind, hpack⟩),
    if_neg (fun hagain => absurd (hdate.symm.trans hagain.1) (Int.ne_of_lt hlater)), if_neg (fun hne => hne hdate)]
  unfold carryStock
  rw [hdecision]
  dsimp only
  rw [Option.bind_some]
  unfold buildPlan
  have hwindow : ¬ (stock.playbook.kind = .record ∨
      max stock.validSessions ((sessionsBetween evidence.calendar record.pack.reviewDate tradeDate).length + 1) <
        (sessionsBetween evidence.calendar record.pack.reviewDate tradeDate).length + 1) := by
    rw [not_or]
    exact ⟨hkind, Nat.not_lt.mpr (Nat.le_max_right _ _)⟩
  dsimp only
  rw [if_neg hwindow, if_pos hcomplete]
  exact ⟨_, rfl, rfl⟩

end Step

/-! ## Bounds -/

/-- Where a plan stands with a window of `window` sessions that has been carried as promoted for `spent` sessions so far. -/
def WithinBounds (window spent : ℕ) (plan : Plan) : Prop :=
  match plan.lifecycle.state with
  | .new => spent = 0 ∧ plan.sessionIndex ≤ window
  | .observe => spent < promotedMaxCarry ∧ plan.sessionIndex ≤ window + observeGraceSessions + promotedMaxCarry
  | .promoted => plan.lifecycle.carried = spent ∧ spent < promotedMaxCarry ∧
      plan.sessionIndex ≤ window + observeGraceSessions + spent + 1
  | .expired => False

/-- The sessions carried as promoted once the plan's session is settled. -/
def spentAfter (plan : Plan) (spent : ℕ) : ℕ := spent + if plan.lifecycle.state = .promoted then 1 else 0

section Bounds

variable {window spent : ℕ} {plan : Plan}

theorem WithinBounds.index_le (h : WithinBounds window spent plan) :
    plan.sessionIndex ≤ window + observeGraceSessions + promotedMaxCarry := by
  unfold WithinBounds at h
  rcases hstate : plan.lifecycle.state <;> rw [hstate] at h
  · have hle : plan.sessionIndex ≤ window := h.2
    omega
  · have hlt : spent < promotedMaxCarry := h.2.1
    have hle : plan.sessionIndex ≤ window + observeGraceSessions + spent + 1 := h.2.2
    omega
  · exact h.2
  · exact h.elim

theorem WithinBounds.spentAfter_le (h : WithinBounds window spent plan) : spentAfter plan spent ≤ promotedMaxCarry := by
  unfold WithinBounds at h
  unfold spentAfter
  rcases hstate : plan.lifecycle.state <;> rw [hstate] at h
  · have hzero : spent = 0 := h.1
    simp [hzero]
  · have hlt : spent < promotedMaxCarry := h.2.1
    rw [if_pos rfl]
    exact hlt
  · have hlt : spent < promotedMaxCarry := h.1
    simpa using Nat.le_of_lt hlt
  · exact h.elim

theorem decidePromoted_cases (plan : Plan) (close : ℚ) (invalidated : Bool) :
    (decidePromoted plan close invalidated).state = .expired ∨
      (plan.lifecycle.carried + 1 < promotedMaxCarry ∧ (decidePromoted plan close invalidated).carried = plan.lifecycle.carried + 1 ∧
        ((decidePromoted plan close invalidated).state = .promoted ∨ (decidePromoted plan close invalidated).state = .observe)) := by
  unfold decidePromoted
  dsimp only
  split
  next => exact Or.inl rfl
  next =>
    split
    next => exact Or.inl rfl
    next hcarry =>
      have hlt := Nat.not_le.mp hcarry
      split
      next =>
        split
        next => exact Or.inr ⟨hlt, rfl, Or.inr rfl⟩
        next => exact Or.inr ⟨hlt, rfl, Or.inl rfl⟩
      next => exact Or.inr ⟨hlt, rfl, Or.inl rfl⟩

theorem decideWaiting_cases (plan : Plan) (close : ℚ) (fact : Fact) (hindex : 1 ≤ plan.sessionIndex) :
    ((decideWaiting plan close fact).state = .promoted ∧ (decideWaiting plan close fact).carried = 0 ∧ satisfied plan close fact ≠ none) ∨
      (decideWaiting plan close fact).state = .expired ∨
      ((decideWaiting plan close fact).state = .observe ∧ plan.sessionIndex < teacherWindow plan + observeGraceSessions) := by
  have hread : orElse (some plan.sessionIndex) 1 = plan.sessionIndex := by
    unfold orElse
    rw [Option.getD_some, if_neg (by omega)]
  unfold decideWaiting
  split
  next reason hreason => exact Or.inl ⟨rfl, rfl, by rw [hreason]; simp⟩
  next =>
    split
    next => exact Or.inr (Or.inl rfl)
    next =>
      dsimp only
      rw [hread]
      split
      next => exact Or.inr (Or.inl rfl)
      next hgrace => exact Or.inr (Or.inr ⟨rfl, Nat.not_le.mp hgrace⟩)

/-- What a roll may meet: no promoted plan without a bar, no observed one at its very end without one, and no promotion of
    an observed plan that was promoted before or whose grace is over. -/
structure Meets (window spent : ℕ) (plan : Plan) (fact : Fact) : Prop where
  noBar : fact.bar = none → plan.lifecycle.state ≠ .promoted ∧
    (plan.lifecycle.state = .observe → plan.sessionIndex < window + observeGraceSessions + promotedMaxCarry)
  once : ∀ bar, fact.bar = some bar → plan.lifecycle.state = .observe →
    0 < spent ∨ window + observeGraceSessions < plan.sessionIndex → satisfied plan bar.close fact = none

/-- **One settled session keeps a carried plan within its bounds.** -/
theorem bounds_step {nextIndex : ℕ} {after : Plan} {fact : Fact} {stock : Stock} {next : Date}
    (hbounds : WithinBounds window spent plan) (hwindow : teacherWindow plan = window) (hindex : 1 ≤ plan.sessionIndex)
    (hmeets : Meets window spent plan fact) (hlive : (decideNext plan (some fact)).state ≠ .expired)
    (hafter : CarriedFrom after stock (decideNext plan (some fact)) next nextIndex) (hnext : nextIndex = plan.sessionIndex + 1) :
    WithinBounds window (spentAfter plan spent) after := by
  have hindex' := hafter.index.trans hnext
  have hstate' := hafter.state
  have hcarried' := hafter.carried
  unfold WithinBounds spentAfter at *
  unfold decideNext at hlive hstate' hcarried'
  dsimp only at hlive hstate' hcarried'
  rcases hbar : fact.bar with _ | bar
  · -- without a bar the plan is observed
    obtain ⟨hnot, hearly⟩ := hmeets.noBar hbar
    simp only [hbar, if_neg hnot] at hstate'
    rw [hstate', hindex', if_neg hnot]
    rcases hstate : plan.lifecycle.state <;> rw [hstate] at hbounds
    · dsimp only at hbounds ⊢
      unfold observeGraceSessions promotedMaxCarry
      omega
    · exact absurd hstate hnot
    · have hearly := hearly hstate
      dsimp only at hbounds ⊢
      omega
    · exact hbounds.elim
  · simp only [hbar] at hlive hstate' hcarried'
    rcases hstate : plan.lifecycle.state <;> rw [hstate] at hbounds
    · simp only [hstate, reduceCtorEq, if_false] at hlive hstate' hcarried' ⊢
      rcases decideWaiting_cases plan bar.close fact hindex with ⟨hpromoted, hzero, -⟩ | hexpired | ⟨hobserve, hgrace⟩
      · rw [hstate', hpromoted, hcarried', hzero, hindex']
        unfold promotedMaxCarry observeGraceSessions
        dsimp only
        omega
      · exact absurd hexpired hlive
      · rw [hstate', hobserve, hindex']
        rw [hwindow] at hgrace
        unfold promotedMaxCarry
        dsimp only
        omega
    · simp only [hstate, if_true] at hlive hstate' hcarried' ⊢
      rcases decidePromoted_cases plan bar.close fact.invalidatedAt.isSome with hexpired | ⟨hlt, hcarry, hpromoted | hobserve⟩
      · exact absurd hexpired hlive
      · rw [hstate', hpromoted, hcarried', hcarry, hindex']
        dsimp only at hbounds ⊢
        omega
      · rw [hstate', hobserve, hindex']
        dsimp only at hbounds ⊢
        omega
    · simp only [hstate, reduceCtorEq, if_false] at hlive hstate' hcarried' ⊢
      rcases decideWaiting_cases plan bar.close fact hindex with ⟨hpromoted, hzero, hsatisfied⟩ | hexpired | ⟨hobserve, hgrace⟩
      · -- promoted out of the observation: for the first time, and within the grace
        have hfirst : ¬ (0 < spent ∨ window + observeGraceSessions < plan.sessionIndex) :=
          fun hlate => hsatisfied (hmeets.once bar hbar hstate hlate)
        rw [hstate', hpromoted, hcarried', hzero, hindex']
        unfold promotedMaxCarry
        dsimp only at hbounds ⊢
        omega
      · exact absurd hexpired hlive
      · rw [hstate', hobserve, hindex']
        rw [hwindow] at hgrace
        dsimp only at hbounds ⊢
        omega
    · exact hbounds.elim

end Bounds

/-! ## What a roll does to the row of a plan -/

section Rows

variable {β : Type} {evidence : Evidence β} {session : Date} {world : World} {record : Record} {stock : Stock}

theorem plannedFrom_packId {live : Option Plan} (h : plannedFrom evidence session record stock live = some plan) :
    plan.packId = record.pack.packId := by
  unfold plannedFrom at h
  dsimp only at h
  split at h
  next => exact absurd h (by simp)
  next =>
    split at h
    next => exact absurd h (by simp)
    next =>
      split at h
      next => exact (buildPlan_fields h).1
      next => exact (carriedPlan_fields h).2.1

theorem carriedPlan_of_earlier {next : Date} {live : Option Plan} (hlater : session < next)
    (h : ∀ plan, live = some plan → plan.packId = record.pack.packId → plan.sessionDate < session) :
    carriedPlan evidence session record next stock live = none := by
  unfold carriedPlan
  dsimp only
  rcases hlive : live with _ | plan
  · rfl
  · dsimp only
    split
    next => rfl
    next hours =>
      rw [not_or, not_ne_iff] at hours
      have hearlier := h plan hlive hours.2
      rw [if_neg (fun hagain => absurd hagain.1 (Int.ne_of_lt (Int.lt_trans hearlier hlater))), if_pos (Int.ne_of_lt hearlier)]

/-- A pack's own plan of one of its stocks, where the pack has been settled before. -/
def IsCarried (evidence : Evidence β) (session : Date) (world : World) (record : Record) (stock : Stock) (next : Date) (after : Plan) :
    Prop :=
  nextSession evidence.calendar session = some next ∧
    carriedPlan evidence session record next stock (livePlan world.rows (tsCode stock.code)) = some after

/-- **What a roll offers for the symbol of a pack's stock is what the pack carries, or a plan of another pack.** -/
theorem offered_cases (hpacks : PacksValid world.packs) (hrecord : record ∈ world.packs) (hstock : stock ∈ record.pack.stocks)
    (hsettled : (eligibleIndex (sessionsBetween evidence.calendar record.pack.reviewDate session) record.availableAt).isSome = true)
    {offered : SessionPlan} (hoffered : offered ∈ rolledPlans evidence session world) (hsymbol : offered.symbol = tsCode stock.code) :
    (∃ next, IsCarried evidence session world record stock next offered.plan) ∨ offered.plan.packId ≠ record.pack.packId := by
  by_cases hpack : offered.plan.packId = record.pack.packId
  · left
    have hvalid : PacksValid (rolledRecords evidence session world) := packsValid_recentRecords hpacks
    obtain ⟨record', hrecord', stock', hstock', hplanned, hcode⟩ :=
      (mem_rollPlans hvalid.valid).mp (List.mem_map_of_mem hoffered)
    have hrecords : record' = record :=
      record_eq_of_packId hpacks (mem_recentRecords hrecord') hrecord ((plannedFrom_packId hplanned).symm.trans hpack)
    subst hrecords
    have hstocks : stock' = stock :=
      stock_eq_of_code (hpacks.valid record' hrecord) (mem_mine.mp hstock').1 hstock (tsCode_injective (hcode.trans hsymbol))
    subst hstocks
    have hnext := plannedFrom_session hplanned
    obtain ⟨firstIndex, hfirst⟩ := Option.isSome_iff_exists.mp hsettled
    refine ⟨_, hnext, ?_⟩
    unfold plannedFrom at hplanned
    rw [hnext] at hplanned
    dsimp only at hplanned
    split at hplanned
    next => exact absurd hplanned (by simp)
    next =>
      rw [hfirst] at hplanned
      exact hplanned
  · exact Or.inr hpack

variable (record stock) in
/-- The plan of a pack for one of its stocks, until it is expired. -/
def heldPlan (world : World) : Option Plan :=
  (livePlan world.rows (tsCode stock.code)).filter (fun plan =>
    decide (plan.packId = record.pack.packId) && decide (plan.status ≠ .expired))

variable (record stock) in
/-- No plan of the pack is left in the stock's row but an expired one of an earlier session. -/
def Over (session : Date) (world : World) : Prop :=
  ∀ plan, livePlan world.rows (tsCode stock.code) = some plan → plan.packId = record.pack.packId →
    plan.status = .expired ∧ plan.sessionDate < session

theorem heldPlan_of_over (h : Over record stock session world) : heldPlan record stock world = none := by
  unfold heldPlan
  rcases hlive : livePlan world.rows (tsCode stock.code) with _ | plan
  · rfl
  · refine Option.filter_eq_none_iff.mpr (fun other hother => ?_)
    rw [Option.some.inj hother.symm]
    intro hheld
    rw [Bool.and_eq_true, decide_eq_true_eq, decide_eq_true_eq] at hheld
    exact hheld.2 (h plan hlive hheld.1).1

/-- The row of the stock that is watched under a plan. -/
structure Watched (stock : Stock) (world : World) (plan : Plan) : Prop where
  row : ∃ row, Keyed.find WatchRow.symbol (tsCode stock.code) world.rows = some row ∧ row.enabled = true ∧ row.plan = some plan

theorem Watched.livePlan (h : Watched stock world plan) : livePlan world.rows (tsCode stock.code) = some plan := by
  obtain ⟨row, hrow, -, hplan⟩ := h.row
  unfold Teacher.livePlan
  rw [hrow, Option.bind_some, hplan]

theorem Watched.heldPlan (h : Watched stock world plan) (hpack : plan.packId = record.pack.packId)
    (hlive : plan.status ≠ .expired) : heldPlan record stock world = some plan := by
  unfold Teacher.heldPlan
  rw [h.livePlan]
  exact Option.filter_some_pos (by simp [hpack, hlive])

theorem livePlan_retired {after : Plan} (now : Timestamp) (hlive : livePlan world.rows (tsCode stock.code) = some plan)
    (hsome : rolledRecords evidence session world ≠ [])
    (hout : tsCode stock.code ∉ (rolledPlans evidence session world).map SessionPlan.symbol)
    (hafter : livePlan (roll evidence session now world).rows (tsCode stock.code) = some after) : after = plan.expire now := by
  unfold livePlan at hlive hafter
  obtain ⟨row, hrow, hplan⟩ := Option.bind_eq_some_iff.mp hlive
  rw [find_roll_of_not_planned now hsome hout, hrow, Option.map_some, Option.bind_some] at hafter
  unfold retireRow at hafter
  rw [hplan] at hafter
  dsimp only at hafter
  split at hafter
  next => exact (Option.some.inj hafter).symm
  next => exact absurd hafter (by simp)

section

variable (hpacks : PacksValid world.packs)

include hpacks

theorem watched_of_offered (hwatched : Watched stock world plan)
    {offered : SessionPlan} (hoffered : offered ∈ rolledPlans evidence session world) (hsymbol : offered.symbol = tsCode stock.code)
    (now : Timestamp) : Watched stock (roll evidence session now world) offered.plan := by
  have hfind := find_roll_of_planned now hpacks hoffered
  rw [hsymbol] at hfind
  obtain ⟨row, hrow, henabled, -⟩ := hwatched.row
  have hwritten : isWritten (hasRoom evidence session world (tsCode stock.code)) (some row) = true := by
    simp [isWritten, henabled]
  obtain ⟨placedRow, hplaced, henabled', hplan'⟩ := placed_of_written offered hwritten
  rw [hrow, hplaced] at hfind
  exact ⟨placedRow, hfind, henabled', hplan'⟩

/-- **A watched plan is carried, or over once its session is rolled.** -/
theorem roll_watched (hrecord : record ∈ world.packs) (hstock : stock ∈ record.pack.stocks)
    (hsettled : (eligibleIndex (sessionsBetween evidence.calendar record.pack.reviewDate session) record.availableAt).isSome = true)
    (hsome : rolledRecords evidence session world ≠ []) (hwatched : Watched stock world plan) (now : Timestamp) :
    (∃ next after, IsCarried evidence session world record stock next after ∧ Watched stock (roll evidence session now world) after) ∨
      ∀ after, livePlan (roll evidence session now world).rows (tsCode stock.code) = some after →
        after.packId = record.pack.packId → after = plan.expire now := by
  by_cases hplanned : tsCode stock.code ∈ (rolledPlans evidence session world).map SessionPlan.symbol
  · obtain ⟨offered, hoffered, hsymbol⟩ := List.mem_map.mp hplanned
    have hafter := watched_of_offered hpacks hwatched hoffered hsymbol now
    rcases offered_cases hpacks hrecord hstock hsettled hoffered hsymbol with ⟨next, hcarried⟩ | hother
    · exact Or.inl ⟨next, offered.plan, hcarried, hafter⟩
    · refine Or.inr (fun after hlive hpack => ?_)
      rw [hafter.livePlan] at hlive
      exact absurd (Option.some.inj hlive ▸ hpack) hother
  · exact Or.inr (fun after hlive _ => livePlan_retired now hwatched.livePlan hsome hplanned hlive)

/-- **A plan that is over stays over.** -/
theorem roll_over (hrecord : record ∈ world.packs) (hstock : stock ∈ record.pack.stocks)
    (hsettled : (eligibleIndex (sessionsBetween evidence.calendar record.pack.reviewDate session) record.availableAt).isSome = true)
    (hover : Over record stock session world) {next : Date} (hnext : session < next) (now : Timestamp) :
    Over record stock next (roll evidence session now world) := by
  by_cases hsome : rolledRecords evidence session world = []
  · intro plan hlive hpack
    have hsame : roll evidence session now world = world := by
      unfold roll
      dsimp only
      unfold rolledRecords at hsome
      rw [hsome]
      rfl
    rw [hsame] at hlive
    obtain ⟨hexpired, hearlier⟩ := hover plan hlive hpack
    exact ⟨hexpired, Int.lt_trans hearlier hnext⟩
  · intro after hlive hpack
    by_cases hplanned : tsCode stock.code ∈ (rolledPlans evidence session world).map SessionPlan.symbol
    · obtain ⟨offered, hoffered, hsymbol⟩ := List.mem_map.mp hplanned
      have hother : offered.plan.packId ≠ record.pack.packId := by
        rcases offered_cases hpacks hrecord hstock hsettled hoffered hsymbol with ⟨later, hlater, hcarried⟩ | hother
        · rw [carriedPlan_of_earlier (lt_of_nextSession hlater) (fun plan hplan hpack => (hover plan hplan hpack).2)] at hcarried
          exact absurd hcarried (by simp)
        · exact hother
      have hfind := find_roll_of_planned now hpacks hoffered
      rw [hsymbol] at hfind
      unfold livePlan at hlive
      rw [hfind] at hlive
      rcases hwritten : isWritten (hasRoom evidence session world (tsCode stock.code))
        (Keyed.find WatchRow.symbol (tsCode stock.code) world.rows)
      · rw [placed_of_not_written hwritten] at hlive
        obtain ⟨hexpired, hearlier⟩ := hover after hlive hpack
        exact ⟨hexpired, Int.lt_trans hearlier hnext⟩
      · obtain ⟨placedRow, hplaced, -, hplan⟩ := placed_of_written offered hwritten
        rw [hplaced, Option.bind_some, hplan] at hlive
        exact absurd (Option.some.inj hlive ▸ hpack) hother
    · rcases hbefore : livePlan world.rows (tsCode stock.code) with _ | plan
      · -- a row without a plan gets none by being retired
        unfold livePlan at hbefore hlive
        rw [find_roll_of_not_planned now hsome hplanned] at hlive
        rcases hrow : Keyed.find WatchRow.symbol (tsCode stock.code) world.rows with _ | row
        · rw [hrow] at hlive
          exact absurd hlive (by simp)
        · rw [hrow, Option.bind_some] at hbefore
          rw [hrow, Option.map_some, Option.bind_some] at hlive
          unfold retireRow at hlive
          rw [hbefore] at hlive
          exact absurd (hbefore.symm.trans hlive) (by simp)
      · rw [livePlan_retired now hbefore hsome hplanned hlive] at hpack ⊢
        exact ⟨rfl, Int.lt_trans (hover plan hbefore hpack).2 hnext⟩

end

end Rows

/-! ## A plan's life -/

/-- The pool, the session that is settled next, and for how many sessions the plan has been carried as promoted. -/
structure Life where
  world : World
  session : Option Date
  promotedFor : ℕ

/-- One post-close roll. -/
structure RollOp (β : Type) where
  evidence : Evidence β
  now : Timestamp

section Lives

variable {β : Type} (record : Record) (stock : Stock)

/-- The post-close roll of the next session. -/
def lifeStep (op : RollOp β) (life : Life) : Life :=
  match life.session with
  | none => life
  | some session =>
      { world := roll op.evidence session op.now life.world
        session := nextSession op.evidence.calendar session
        promotedFor := (heldPlan record stock life.world).elim life.promotedFor (fun plan => spentAfter plan life.promotedFor) }

/-- What a roll of a session may meet while the plan is held. -/
structure Permits (evidence : Evidence β) (session : Date) (world : World) (plan : Plan) (spent : ℕ) : Prop where
  records : rolledRecords evidence session world ≠ []
  ownRecord : evidence.sessionBar (tsCode stock.code) = none → record ∈ rolledRecords evidence session world ∧
    owner (rolledRecords evidence session world) stock.code = some record.pack.packId
  follows : evidence.sessionBar (tsCode stock.code) = none → (nextSession evidence.calendar session).isSome = true ∧
    isComplete (evidence.planBars (tsCode stock.code)) session = true
  meets : Meets stock.validSessions spent plan (settleStock evidence record.pack.packId stock)

/-- The rolls that keep to the policy. -/
def Allowed (calendar : List Date) (life : Life) (op : RollOp β) : Prop :=
  op.evidence.calendar = calendar ∧ ∀ session plan, life.session = some session → heldPlan record stock life.world = some plan →
    Permits record stock op.evidence session life.world plan life.promotedFor

/-- A plan as the teacher wrote it, for a session of his window. -/
structure FirstPlan (calendar : List Date) (session : Date) (plan : Plan) : Prop where
  pack : plan.packId = record.pack.packId
  live : plan.status ≠ .expired
  date : plan.sessionDate = session
  state : plan.lifecycle.state = .new
  index : plan.sessionIndex = (sessionsBetween calendar record.pack.reviewDate session).length
  inWindow : plan.sessionIndex ≤ stock.validSessions
  window : plan.lifecycle.teacherValidSessions = none ∧ plan.validSessions = stock.validSessions

/-- A pack's stock that is watched under its first plan. -/
structure Started (calendar : List Date) (life : Life) : Prop where
  packs : PacksValid life.world.packs
  onFile : record ∈ life.world.packs
  hasStock : stock ∈ record.pack.stocks
  isWatched : stock.playbook.kind ≠ .record
  sorted : calendar.Pairwise (· < ·)
  promotedFor : life.promotedFor = 0
  watched : ∃ session ∈ calendar, life.session = some session ∧ record.pack.reviewDate < session ∧
    record.availableAt < openAt session ∧ ∃ plan, Watched stock life.world plan ∧ FirstPlan record stock calendar session plan

/-- A session without a bar neither ends nor promotes the plan. -/
def KeptWithoutBar (life : Life) (op : RollOp β) : Prop :=
  ∀ session plan, life.session = some session → heldPlan record stock life.world = some plan →
    op.evidence.sessionBar (tsCode stock.code) = none →
      ∃ after, heldPlan record stock (lifeStep record stock op life).world = some after ∧
        (lifeStep record stock op life).session = some after.sessionDate ∧
        after.lifecycle.state = if plan.lifecycle.state = .promoted then .promoted else .observe

/-- No plan is held past its window, its grace and its carry. -/
def EndsInTime (calendar : List Date) (life : Life) : Prop :=
  ∀ session plan, life.session = some session → heldPlan record stock life.world = some plan →
    (sessionsBetween calendar record.pack.reviewDate session).length ≤
      stock.validSessions + observeGraceSessions + promotedMaxCarry

/-- The plan is live for a session. -/
structure Alive (calendar : List Date) (session : Date) (spent : ℕ) (world : World) (plan : Plan) : Prop where
  watched : Watched stock world plan
  pack : plan.packId = record.pack.packId
  live : plan.status ≠ .expired
  date : plan.sessionDate = session
  index : plan.sessionIndex = (sessionsBetween calendar record.pack.reviewDate session).length
  window : teacherWindow plan = stock.validSessions
  bounds : WithinBounds stock.validSessions spent plan

/-- What a roll keeps of a plan's life. -/
structure Lives (calendar : List Date) (life : Life) : Prop where
  packs : PacksValid life.world.packs
  onFile : record ∈ life.world.packs
  promotedFor : life.promotedFor ≤ promotedMaxCarry
  standing : ∀ session, life.session = some session →
    (session ∈ calendar ∧ record.pack.reviewDate < session ∧ record.availableAt < openAt session) ∧
      ((∃ plan, Alive record stock calendar session life.promotedFor life.world plan) ∨ Over record stock session life.world)

variable {record stock} {calendar : List Date} {life : Life}

theorem teacherWindow_of_valid {valid : ℕ} (hvalid : 1 ≤ valid)
    (h : plan.lifecycle.teacherValidSessions = some valid ∨ (plan.lifecycle.teacherValidSessions = none ∧ plan.validSessions = valid)) :
    teacherWindow plan = valid := by
  unfold teacherWindow orElse
  rcases h with h | ⟨h, hplan⟩
  · rw [h, Option.getD_some, if_neg (by omega)]
  · rw [h, hplan, Option.getD_none, if_pos rfl, Option.getD_some, if_neg (by omega)]

theorem lives_start (h : Started record stock calendar life) : Lives record stock calendar life := by
  obtain ⟨session, hmem, hsession, hreview, hopen, plan, hwatched, hplan⟩ := h.watched
  have hzero := h.promotedFor
  refine ⟨h.packs, h.onFile, by omega, fun other hother => ?_⟩
  rw [hsession] at hother
  obtain rfl := Option.some.inj hother
  refine ⟨⟨hmem, hreview, hopen⟩, Or.inl ⟨plan, hwatched, hplan.pack, hplan.live, hplan.date, hplan.index, ?_, ?_⟩⟩
  · exact teacherWindow_of_valid ((h.packs.valid record h.onFile).window stock h.hasStock) (Or.inr hplan.window)
  · unfold WithinBounds
    rw [hplan.state]
    exact ⟨hzero, hplan.inWindow⟩

theorem Alive.heldPlan {session : Date} {spent : ℕ} {world : World}
    (h : Alive record stock calendar session spent world plan) : heldPlan record stock world = some plan :=
  h.watched.heldPlan h.pack h.live

/-- **One allowed roll keeps a plan's life.** -/
theorem lives_step {op : RollOp β} (hstock : stock ∈ record.pack.stocks) (hsorted : calendar.Pairwise (· < ·))
    (hlives : Lives record stock calendar life) (hallowed : Allowed record stock calendar life op) :
    Lives record stock calendar (lifeStep record stock op life) := by
  unfold lifeStep
  rcases hsession : life.session with _ | session
  · exact hlives
  · obtain ⟨hcalendar, hpermits⟩ := hallowed
    obtain ⟨⟨hmem, hreview, hopen⟩, hstanding⟩ := hlives.standing session hsession
    have hpacks' : (roll op.evidence session op.now life.world).packs = life.world.packs := roll_packs
    have hcontains : session ∈ sessionsBetween op.evidence.calendar record.pack.reviewDate session := by
      unfold sessionsBetween
      rw [hcalendar]
      exact List.mem_filter.mpr ⟨hmem, by simp [hreview]⟩
    have hsettled := eligibleIndex_isSome hcontains hopen
    have hfollowing : ∀ next, nextSession op.evidence.calendar session = some next →
        (next ∈ calendar ∧ record.pack.reviewDate < next ∧ record.availableAt < openAt next) := by
      intro next hnext
      rw [hcalendar] at hnext
      obtain ⟨hnextMem, hlater, -⟩ := nextSession_spec hsorted hnext
      exact ⟨hnextMem, Int.lt_trans hreview hlater, Int.lt_trans hopen (openAt_lt hlater)⟩
    rcases hstanding with ⟨plan, halive⟩ | hover
    · have hpermit := hpermits session plan hsession halive.heldPlan
      have hspent := halive.bounds.spentAfter_le
      rw [halive.heldPlan]
      refine ⟨by rw [hpacks']; exact hlives.packs, by rw [hpacks']; exact hlives.onFile, hspent, fun next hnext => ⟨hfollowing next hnext, ?_⟩⟩
      have hlater : session < next := lt_of_nextSession hnext
      rcases roll_watched hlives.packs hlives.onFile hstock hsettled hpermit.records halive.watched op.now with
        ⟨next', after, ⟨hnext', hcarried⟩, hwatched⟩ | hexpired
      · obtain rfl := Option.some.inj (hnext'.symm.trans hnext)
        rw [halive.watched.livePlan] at hcarried
        obtain ⟨hstillLive, hafter⟩ := carriedFrom hlater halive.date hcarried
        obtain ⟨-, hpack, hdate, -⟩ := carriedPlan_fields hcarried
        have hfact : stockFact op.evidence session record stock = some (settleStock op.evidence record.pack.packId stock) := by
          unfold stockFact
          dsimp only
          rw [hsettled, List.contains_iff_mem.mpr hcontains]
          rfl
        rw [hfact] at hstillLive hafter
        have hindex : 1 ≤ plan.sessionIndex := by
          rw [halive.index, ← hcalendar]
          exact List.length_pos_of_mem hcontains
        refine Or.inl ⟨after, hwatched, hpack, ?_, hdate, ?_, ?_, ?_⟩
        · rw [hafter.status]
          unfold State.status
          split <;> simp
        · rw [hafter.index, hcalendar]
          rw [hcalendar] at hnext
          exact (length_sessionsBetween_next hsorted hreview hnext).symm
        · exact teacherWindow_of_valid ((hlives.packs.valid record hlives.onFile).window stock hstock) (Or.inl hafter.window)
        · exact bounds_step halive.bounds halive.window hindex hpermit.meets hstillLive hafter (by rw [halive.index, hcalendar])
      · refine Or.inr (fun after hlive hpack => ?_)
        rw [hexpired after hlive hpack]
        have hearlier : plan.sessionDate < next := by
          rw [halive.date]
          exact hlater
        exact ⟨rfl, hearlier⟩
    · rw [heldPlan_of_over hover]
      refine ⟨by rw [hpacks']; exact hlives.packs, by rw [hpacks']; exact hlives.onFile, hlives.promotedFor,
        fun next hnext => ⟨hfollowing next hnext, ?_⟩⟩
      exact Or.inr (roll_over hlives.packs hlives.onFile hstock hsettled hover (lt_of_nextSession hnext) op.now)

/-- **A plan that is live is kept on a session without a bar.** -/
theorem keptWithoutBar {op : RollOp β} (hstock : stock ∈ record.pack.stocks) (hkind : stock.playbook.kind ≠ .record)
    (hlives : Lives record stock calendar life) (hallowed : Allowed record stock calendar life op) :
    KeptWithoutBar record stock life op := by
  intro session plan hsession hheld hbar
  obtain ⟨hcalendar, hpermits⟩ := hallowed
  obtain ⟨⟨hmem, hreview, hopen⟩, hstanding⟩ := hlives.standing session hsession
  have hpermit := hpermits session plan hsession hheld
  rcases hstanding with ⟨live, halive⟩ | hover
  · obtain rfl := Option.some.inj (halive.heldPlan.symm.trans hheld)
    obtain ⟨hfollowing, hcomplete⟩ := hpermit.follows hbar
    obtain ⟨hrolled, howner⟩ := hpermit.ownRecord hbar
    obtain ⟨next, hnext⟩ := Option.isSome_iff_exists.mp hfollowing
    have hlater : session < next := lt_of_nextSession hnext
    have hnot := (hpermit.meets.noBar hbar).1
    have hnoBar : barOf (stockFact op.evidence session record stock) = none := by
      unfold stockFact
      dsimp only
      split
      next => exact hbar
      next => rfl
    obtain ⟨after, hcarried, hstate⟩ := carried_without_bar hlater halive.date hkind halive.pack hnoBar hnot hcomplete
    have hcontains : session ∈ sessionsBetween op.evidence.calendar record.pack.reviewDate session := by
      unfold sessionsBetween
      rw [hcalendar]
      exact List.mem_filter.mpr ⟨hmem, by simp [hreview]⟩
    obtain ⟨firstIndex, hfirst⟩ := Option.isSome_iff_exists.mp (eligibleIndex_isSome hcontains hopen)
    have hnextOpen : ¬ openAt next ≤ record.availableAt := Int.not_le.mpr (Int.lt_trans hopen (openAt_lt hlater))
    have hplanned : plannedFrom op.evidence session record stock (livePlan life.world.rows (tsCode stock.code)) = some after := by
      unfold plannedFrom
      rw [hnext]
      dsimp only
      rw [if_neg hnextOpen, hfirst, halive.watched.livePlan]
      exact hcarried
    obtain ⟨offered, hoffered, hsymbol, rfl⟩ :=
      exists_rolledPlan hlives.packs hrolled (mem_mine.mpr ⟨hstock, howner⟩) hplanned
    have hwatched := watched_of_offered hlives.packs halive.watched hoffered hsymbol op.now
    obtain ⟨-, hpack, hdate, -⟩ := carriedPlan_fields hcarried
    obtain ⟨-, hafter⟩ := carriedFrom hlater halive.date hcarried
    have hlive : offered.plan.status ≠ .expired := by
      rw [hafter.status]
      unfold State.status
      split <;> simp
    unfold lifeStep
    rw [hsession]
    refine ⟨offered.plan, hwatched.heldPlan hpack hlive, hnext.trans (congrArg some hdate.symm), ?_⟩
    rw [if_neg hnot, hstate]
  · rw [heldPlan_of_over hover] at hheld
    exact absurd hheld (by simp)

/-- **In every run of rolls that keep to the policy, a session without a bar neither ends nor promotes the plan, it is
    carried as promoted for at most five sessions, and it ends in time.** -/
theorem plan_lives_by_policy {start : Life} (hstart : Started record stock calendar start)
    (hrun : Driven.Run (@lifeStep β record stock) (Allowed record stock calendar) start life) :
    (∀ op : RollOp β, Allowed record stock calendar life op → KeptWithoutBar record stock life op) ∧
      life.promotedFor ≤ promotedMaxCarry ∧ EndsInTime record stock calendar life := by
  have hlives : Lives record stock calendar life :=
    hrun.keeps (lives_start hstart) (fun _ _ hlives hallowed => lives_step hstart.hasStock hstart.sorted hlives hallowed)
  refine ⟨fun op hallowed => keptWithoutBar hstart.hasStock hstart.isWatched hlives hallowed, hlives.promotedFor, ?_⟩
  intro session plan hsession hheld
  rcases (hlives.standing session hsession).2 with ⟨live, halive⟩ | hover
  · rw [← halive.index]
    exact halive.bounds.index_le
  · rw [heldPlan_of_over hover] at hheld
    exact absurd hheld (by simp)

/-- The relay stock on its first session. -/
def relayLife : Life := ⟨relayWorld (relayPlan .new 1 1), some 1, 0⟩

/-- A roll of a session without a bar. -/
def gapRoll (session : Date) (now : Timestamp) : RollOp Unit := ⟨{ quietSession session with sessionBar := fun _ => none }, now⟩

theorem started_relay : Started relayRecord relayStock [1, 2, 3, 4, 5, 6, 7, 8, 9] relayLife where
  packs := relayPacks_valid
  onFile := List.mem_singleton.mpr rfl
  hasStock := List.mem_singleton.mpr rfl
  isWatched := by decide
  sorted := by decide
  promotedFor := rfl
  watched := ⟨1, by decide, rfl, by decide, by decide, relayPlan .new 1 1, ⟨_, rfl, rfl, rfl⟩,
    ⟨rfl, by decide, rfl, rfl, by decide, by decide, rfl, rfl⟩⟩

/-- A plan of the first session, rolled without a bar. -/
theorem plan_lives_by_policy_without_bar :
    KeptWithoutBar relayRecord relayStock relayLife (gapRoll 1 115200000000) ∧
      (lifeStep relayRecord relayStock (gapRoll 1 115200000000) relayLife).promotedFor ≤ promotedMaxCarry ∧
      EndsInTime relayRecord relayStock [1, 2, 3, 4, 5, 6, 7, 8, 9]
        (lifeStep relayRecord relayStock (gapRoll 1 115200000000) relayLife) := by
  have hheld : heldPlan relayRecord relayStock relayLife.world = some (relayPlan .new 1 1) := by decide +kernel
  have hallowed : Allowed relayRecord relayStock [1, 2, 3, 4, 5, 6, 7, 8, 9] relayLife (gapRoll 1 115200000000) := by
    refine ⟨rfl, fun session plan hsession hplan => ?_⟩
    obtain rfl := Option.some.inj hsession
    obtain rfl := Option.some.inj (hheld.symm.trans hplan)
    have hrecords : rolledRecords (gapRoll 1 115200000000).evidence 1 relayLife.world = [relayRecord] := by decide +kernel
    refine ⟨by rw [hrecords]; simp, fun _ => ⟨by rw [hrecords]; simp, by rw [hrecords]; decide +kernel⟩,
      fun _ => ⟨by decide, by decide⟩, ⟨fun _ => ⟨by decide, fun hobserve => absurd hobserve (by decide)⟩, fun bar hbar => ?_⟩⟩
    exact absurd hbar (by simp [settleStock, gapRoll])
  have hrun : Driven.Run (lifeStep relayRecord relayStock) (Allowed relayRecord relayStock [1, 2, 3, 4, 5, 6, 7, 8, 9]) relayLife
      (lifeStep relayRecord relayStock (gapRoll 1 115200000000) relayLife) :=
    Relation.ReflTransGen.single ⟨gapRoll 1 115200000000, hallowed, rfl⟩
  exact ⟨(plan_lives_by_policy started_relay Relation.ReflTransGen.refl).1 (gapRoll 1 115200000000) hallowed,
    (plan_lives_by_policy started_relay hrun).2⟩

/-- A promoted plan ends on a session without a bar. -/
theorem promoted_plan_ends_without_bar : ¬ ∀ (life start : Life) (op : RollOp Unit),
    Started relayRecord relayStock [1, 2, 3, 4, 5, 6, 7, 8, 9] start →
      Driven.Run (lifeStep relayRecord relayStock) (fun _ (op : RollOp Unit) => op.evidence.calendar = [1, 2, 3, 4, 5, 6, 7, 8, 9])
        start life → op.evidence.calendar = [1, 2, 3, 4, 5, 6, 7, 8, 9] → KeptWithoutBar relayRecord relayStock life op := by
  intro h
  -- sealed on the first session, without a bar on the second
  have hkept := h _ _ (gapRoll 2 201600000000) started_relay
    (Relation.ReflTransGen.single
      ⟨⟨{ quietSession 1 with sessionBar := fun _ => some ⟨some 10, 11, 10, 11, some 11⟩ }, 115200000000⟩, rfl, rfl⟩) rfl
  obtain ⟨after, hafter, -⟩ := hkept 2 _ rfl (Option.eq_some_of_isSome (by decide +kernel)) rfl
  have hsome := congrArg Option.isSome hafter
  rw [Option.isSome_some] at hsome
  exact absurd hsome (by decide +kernel)

end Lives

end TradingHarness.Teacher
