import Mathlib.Data.Int.Notation
import Mathlib.Data.Nat.Notation
import Mathlib.Logic.Relation

set_option autoImplicit false

/-! # Leased items

Workers lease an item for a time and report on it, in time or late. Where no report comes for an item that
another worker has or that is settled otherwise, one worker at a time has the item, and a settled one stays
settled until it is queued again. -/

namespace Leased

/-! ## One item -/

/-- What a table shows of an item: the state it is settled in, or the end of the lease under which it is in
    work. -/
structure Item (σ : Type) where
  settled : Option σ
  heldUntil : Option ℤ
  deriving DecidableEq

/-- What a worker has from a claim, until it reports. -/
structure Grant where
  worker : ℕ
  expiry : ℤ
  deriving DecidableEq

structure World (σ : Type) where
  item : Option (Item σ)
  now : ℤ
  grants : List Grant

section Item

variable {σ : Type}

/-- The worker has a lease that has not expired. -/
def Holds (world : World σ) (worker : ℕ) : Prop :=
  ∃ grant ∈ world.grants, grant.worker = worker ∧ world.now < grant.expiry

def Settled (world : World σ) (state : σ) : Prop := ∃ item, world.item = some item ∧ item.settled = some state

/-- No other worker has a lease that has not expired. -/
def Timely (world : World σ) (worker : ℕ) : Prop := ∀ other, Holds world other → other = worker

/-- The steps of an item. It is queued again only where `queues` says so, and then its leases are void. -/
inductive Step (queues : Prop) : World σ → World σ → Prop
  | keep (before after : World σ) (hitem : after.item = before.item) (hnow : before.now ≤ after.now)
      (hgrants : ∀ grant ∈ after.grants, grant ∈ before.grants) : Step queues before after
  | appear (before after : World σ) (hitem : before.item = none) (hnow : before.now ≤ after.now)
      (hgrants : ∀ grant ∈ after.grants, grant ∈ before.grants) : Step queues before after
  | queue (before after : World σ) (hqueues : queues) (hgrants : after.grants = []) : Step queues before after
  | claim (before after : World σ) (taken : Item σ) (granted : Grant)
      (hfree : ∀ item, before.item = some item →
        item.settled = none ∧ ∀ expiry, item.heldUntil = some expiry → expiry ≤ before.now)
      (hitem : after.item = some taken) (htaken : taken = ⟨none, some granted.expiry⟩)
      (hnow : after.now = before.now)
      (hgrants : ∀ grant ∈ after.grants, grant = granted ∨ grant ∈ before.grants) : Step queues before after
  | report (before after : World σ) (worker : ℕ) (hnow : after.now = before.now)
      (hsettled : ∀ state, Settled before state → Settled after state)
      (htimely : Timely before worker)
      (hgrants : ∀ grant ∈ after.grants, grant ∈ before.grants ∧ grant.worker ≠ worker) :
      Step queues before after

/-- An unexpired lease is the one under which the item is in work, and no two workers have one. -/
structure Sound (world : World σ) : Prop where
  standing : ∀ grant ∈ world.grants, world.now < grant.expiry → world.item = some ⟨none, some grant.expiry⟩
  unique : ∀ first ∈ world.grants, ∀ second ∈ world.grants, world.now < first.expiry →
    world.now < second.expiry → first.worker = second.worker

variable {queues : Prop} {before after : World σ}

theorem sound_of_expired (h : ∀ grant ∈ after.grants, ¬ after.now < grant.expiry) : Sound after :=
  ⟨fun grant hgrant hlive => absurd hlive (h grant hgrant),
    fun first hfirst _ _ hlive _ => absurd hlive (h first hfirst)⟩

theorem Sound.step (h : Sound before) (hstep : Step queues before after) : Sound after := by
  cases hstep with
  | keep hitem hnow hgrants =>
      refine ⟨?_, ?_⟩
      · intro grant hgrant hlive
        rw [hitem]
        exact h.standing grant (hgrants grant hgrant) (by omega)
      · intro first hfirst second hsecond hfirstLive hsecondLive
        exact h.unique first (hgrants first hfirst) second (hgrants second hsecond) (by omega) (by omega)
  | appear hitem hnow hgrants =>
      refine sound_of_expired (fun grant hgrant hlive => ?_)
      have hstanding := h.standing grant (hgrants grant hgrant) (by omega)
      exact Option.some_ne_none _ (hstanding.symm.trans hitem)
  | queue hqueues hgrants =>
      refine sound_of_expired (fun grant hgrant => ?_)
      rw [hgrants] at hgrant
      exact absurd hgrant List.not_mem_nil
  | claim taken granted hfree hitem htaken hnow hgrants =>
      -- an item that can be claimed is under no unexpired lease
      have hnone : ∀ grant ∈ before.grants, ¬ before.now < grant.expiry := by
        intro grant hgrant hlive
        have hexpired := (hfree _ (h.standing grant hgrant hlive)).2 grant.expiry rfl
        omega
      have hgranted : ∀ grant ∈ after.grants, after.now < grant.expiry → grant = granted := by
        intro grant hgrant hlive
        rw [hnow] at hlive
        exact (hgrants grant hgrant).resolve_right (fun hold => hnone grant hold hlive)
      refine ⟨?_, ?_⟩
      · intro grant hgrant hlive
        rw [hitem, htaken, hgranted grant hgrant hlive]
      · intro first hfirst second hsecond hfirstLive hsecondLive
        rw [hgranted first hfirst hfirstLive, hgranted second hsecond hsecondLive]
  | report worker hnow hsettled htimely hgrants =>
      refine sound_of_expired (fun grant hgrant hlive => ?_)
      obtain ⟨hold, hworker⟩ := hgrants grant hgrant
      rw [hnow] at hlive
      exact hworker (htimely grant.worker ⟨grant, hold, rfl, hlive⟩)

theorem Settled.step {state : σ} (h : Settled before state) (hstep : Step queues before after)
    (hqueues : ¬ queues) : Settled after state := by
  obtain ⟨item, hitem, hstate⟩ := h
  cases hstep with
  | keep hsame hnow hgrants => exact ⟨item, hsame.trans hitem, hstate⟩
  | appear hnone hnow hgrants => exact absurd (hitem.symm.trans hnone) (Option.some_ne_none item)
  | queue hqueued hgrants => exact absurd hqueued hqueues
  | claim taken granted hfree htaken hshape hnow hgrants =>
      exact absurd (hstate.symm.trans (hfree item hitem).1) (Option.some_ne_none state)
  | report worker hnow hsettled htimely hgrants => exact hsettled state ⟨item, hitem, hstate⟩

end Item

/-! ## Leases of many items -/

section Grants

variable {κ : Type} [DecidableEq κ]

/-- The leases of one item. -/
def grantsOf (item : κ) (grants : List (κ × Grant)) : List Grant :=
  (grants.filter (fun grant => decide (grant.1 = item))).map Prod.snd

/-- The leases of the others, behind a report. -/
def without (worker : ℕ) (item : κ) (grants : List (κ × Grant)) : List (κ × Grant) :=
  grants.filter (fun grant => !(decide (grant.1 = item) && grant.2.worker == worker))

variable {σ : Type} {item : κ} {grants : List (κ × Grant)}

theorem mem_grantsOf {grant : Grant} : grant ∈ grantsOf item grants ↔ (item, grant) ∈ grants := by
  constructor
  · intro h
    obtain ⟨⟨place, kept⟩, hmem, rfl⟩ := List.mem_map.mp h
    obtain ⟨hgrant, hplace⟩ := List.mem_filter.mp hmem
    obtain rfl := of_decide_eq_true hplace
    exact hgrant
  · intro h
    exact List.mem_map.mpr ⟨(item, grant), List.mem_filter.mpr ⟨h, decide_eq_true rfl⟩, rfl⟩

theorem mem_without {worker : ℕ} {grant : κ × Grant} :
    grant ∈ without worker item grants ↔ grant ∈ grants ∧ ¬ (grant.1 = item ∧ grant.2.worker = worker) := by
  unfold without
  rw [List.mem_filter, Bool.not_eq_true', ← Bool.not_eq_true, Bool.and_eq_true, decide_eq_true_iff, beq_iff_eq]

/-- A report on one item leaves the others. -/
theorem step_report {queues : Prop} (shown shown' : κ → Option (Item σ)) (now : ℤ) (worker : ℕ) (place : κ)
    (hothers : item ≠ place → shown' item = shown item)
    (hsettled : ∀ old state, shown place = some old → old.settled = some state →
      ∃ new, shown' place = some new ∧ new.settled = some state)
    (htimely : Timely ⟨shown place, now, grantsOf place grants⟩ worker) :
    Step queues ⟨shown item, now, grantsOf item grants⟩
      ⟨shown' item, now, grantsOf item (without worker place grants)⟩ := by
  by_cases hitem : item = place
  · subst hitem
    refine Step.report _ _ worker rfl ?_ htimely ?_
    · rintro state ⟨old, hold, hstate⟩
      exact hsettled old state hold hstate
    · intro grant hgrant
      obtain ⟨hold, hother⟩ := mem_without.mp (mem_grantsOf.mp hgrant)
      exact ⟨mem_grantsOf.mpr hold, fun hworker => hother ⟨rfl, hworker⟩⟩
  · refine Step.keep _ _ (hothers hitem) (Int.le_refl now) ?_
    intro grant hgrant
    exact mem_grantsOf.mpr (mem_without.mp (mem_grantsOf.mp hgrant)).1

end Grants

/-! ## A table of items -/

/-- A table as a system: what its operations do, the invariant of its rows, what they show of each item, and
    which items an operation queues or hands out. -/
structure System (ω ο κ σ : Type) where
  step : ο → ω → ω
  valid : ω → Prop
  view : κ → ω → World σ
  queues : κ → ω → ο → Prop
  handsOut : ο → ω → List κ

namespace System

variable {ω ο κ σ : Type} (system : System ω ο κ σ)

/-- The operation, where it is allowed, is a step of every item, and hands out no settled one. -/
def Refines (allowed : ω → ο → Prop) : Prop :=
  ∀ op world, system.valid world → allowed world op → system.valid (system.step op world) ∧
    ∀ item, Step (system.queues item world op) (system.view item world)
        (system.view item (system.step op world)) ∧
      (item ∈ system.handsOut op world → ∀ state, ¬ Settled (system.view item world) state)

def Run (allowed : ω → ο → Prop) : ω → ω → Prop :=
  Relation.ReflTransGen (fun before after => ∃ op, allowed before op ∧ after = system.step op before)

/-- At most one worker has an unexpired lease of the item, and it is the lease that stands in the table. -/
def Exclusive (world : ω) : Prop :=
  ∀ item, (∀ first second, Holds (system.view item world) first → Holds (system.view item world) second →
      first = second) ∧
    ∀ grant ∈ (system.view item world).grants, (system.view item world).now < grant.expiry →
      (system.view item world).item = some ⟨none, some grant.expiry⟩

/-- A settled item stays so, and is not handed out, in every run that does not queue it again. -/
def KeepsSettled (allowed : ω → ο → Prop) (world : ω) : Prop :=
  ∀ item state, Settled (system.view item world) state → ∀ later,
    system.Run (fun world op => allowed world op ∧ ¬ system.queues item world op) world later →
    Settled (system.view item later) state ∧ ∀ op, allowed later op → item ∉ system.handsOut op later

variable {system} {allowed : ω → ο → Prop} {start world : ω}

section

variable (hrefines : system.Refines allowed)

include hrefines

theorem valid_run (hstart : system.valid start)
    (hrun : system.Run allowed start world) : system.valid world := by
  induction hrun with
  | refl => exact hstart
  | tail _ hstep ih =>
      obtain ⟨op, hallowed, rfl⟩ := hstep
      exact (hrefines op _ ih hallowed).1

section

variable (hvalid : system.valid start)

include hvalid

theorem sound_run (hstart : ∀ item, Sound (system.view item start)) (hrun : system.Run allowed start world) (item : κ) :
    Sound (system.view item world) := by
  induction hrun with
  | refl => exact hstart item
  | tail hbefore hstep ih =>
      obtain ⟨op, hallowed, rfl⟩ := hstep
      exact ih.step ((hrefines op _ (valid_run hrefines hvalid hbefore) hallowed).2 item).1

/-- **The leases of a table whose operations are steps of its items are exclusive**, in every run. -/
theorem exclusive_run (hstart : ∀ item, Sound (system.view item start)) (hrun : system.Run allowed start world) :
    system.Exclusive world := by
  intro item
  have hsound := sound_run hrefines hvalid hstart hrun item
  refine ⟨?_, hsound.standing⟩
  rintro first second ⟨grant, hgrant, rfl, hlive⟩ ⟨other, hother, rfl, hotherLive⟩
  exact hsound.unique grant hgrant other hother hlive hotherLive

/-- **A settled item stays settled**, in every run whose operations are steps of the items. -/
theorem keepsSettled_run (hrun : system.Run allowed start world) : system.KeepsSettled allowed world := by
  intro item state hsettled later hlater
  have hboth : system.valid later ∧ Settled (system.view item later) state := by
    induction hlater with
    | refl => exact ⟨valid_run hrefines hvalid hrun, hsettled⟩
    | tail _ hstep ih =>
        obtain ⟨op, ⟨hallowed, hqueues⟩, rfl⟩ := hstep
        obtain ⟨hafter, hitems⟩ := hrefines op _ ih.1 hallowed
        exact ⟨hafter, ih.2.step (hitems item).1 hqueues⟩
  exact ⟨hboth.2, fun op hallowed hmem => ((hrefines op later hboth.1 hallowed).2 item).2 hmem state hboth.2⟩

end

end

end System

end Leased
