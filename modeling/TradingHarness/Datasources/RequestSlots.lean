import TradingHarness.Library.Rounding
import Mathlib.Tactic.Linarith
import Mathlib.Tactic.NormNum

set_option autoImplicit false

/-! # Slots of provider requests

`provider_rate_limits.py`: the moments at which the processes that share a provider may start a request. -/

namespace TradingHarness

/-! ## A reservation -/

def providerRequestSpacingSeconds (rateLimitPerMinute : ℤ) (minIntervalSeconds : ℚ) : ℚ :=
  max (60 / max 1 rateLimitPerMinute : ℚ) (max 0 minIntervalSeconds)

/-- `make_interval(secs => …)`, in microseconds -/
def makeInterval (seconds : ℚ) : ℤ := Rounding.halfEven (seconds * 1000000)

/-- The statement of `reserve_provider_rate_limit_slot` with the clock at `now`: the wait, and `next_allowed_at` behind
it. -/
def reserveProviderRateLimitSlot (nextAllowedAt : Option ℤ) (now : ℤ) (spacingSeconds maxWaitSeconds : ℚ) :
    Option ℤ × Option ℤ :=
  let spacing := makeInterval (max (1 / 100) (min 60 spacingSeconds))
  let maxWait := makeInterval (max 0 (min 30 maxWaitSeconds))
  match nextAllowedAt with
  | none => (some (max 0 (now + spacing - spacing - now)), some (now + spacing))
  | some next =>
    if next ≤ now + maxWait then
      (some (max 0 (max next now + spacing - spacing - now)), some (max next now + spacing))
    else (none, some next)

/-- A call with the queue before and behind it. -/
structure Reservation where
  now : ℤ
  maxWaitSeconds : ℚ
  before : Option ℤ
  wait : Option ℤ
  after : Option ℤ

/-- The calls of all processes, in the order of their statements. -/
def reservations (spacingSeconds : ℚ) : Option ℤ → List (ℤ × ℚ) → List Reservation
  | _, [] => []
  | nextAllowedAt, (now, maxWaitSeconds) :: rest =>
    let answer := reserveProviderRateLimitSlot nextAllowedAt now spacingSeconds maxWaitSeconds
    ⟨now, maxWaitSeconds, nextAllowedAt, answer.1, answer.2⟩ :: reservations spacingSeconds answer.2 rest

/-- When the request of a call starts. -/
def Reservation.start (reservation : Reservation) : Option ℤ := reservation.wait.map (reservation.now + ·)

/-! ## The queue -/

variable {spacingSeconds maxWaitSeconds : ℚ} {next now : ℤ} {nextAllowedAt : Option ℤ}

theorem makeInterval_nonneg {seconds : ℚ} (h : 0 ≤ seconds) : 0 ≤ makeInterval seconds := by
  have hle : (0 : ℚ) ≤ seconds * 1000000 := mul_nonneg h (by norm_num)
  exact (show (0 : ℤ) = Rounding.halfEven 0 by decide +kernel) ▸ Rounding.halfEven_mono hle

theorem makeInterval_mono {first second : ℚ} (h : first ≤ second) : makeInterval first ≤ makeInterval second :=
  Rounding.halfEven_mono (mul_le_mul_of_nonneg_right h (by norm_num))

/-- A grant starts when the queue allows it, and moves the queue by the spacing; a refusal does nothing. -/
theorem reserve_cases (nextAllowedAt : Option ℤ) (now : ℤ) (spacingSeconds maxWaitSeconds : ℚ) :
    (∃ wait, reserveProviderRateLimitSlot nextAllowedAt now spacingSeconds maxWaitSeconds
        = (some wait, some (now + wait + makeInterval (max (1 / 100) (min 60 spacingSeconds))))
      ∧ (∀ next, nextAllowedAt = some next → next ≤ now + wait) ∧ wait ≤ makeInterval (max 0 maxWaitSeconds))
    ∨ reserveProviderRateLimitSlot nextAllowedAt now spacingSeconds maxWaitSeconds = (none, nextAllowedAt) := by
  have hbudget : makeInterval (max 0 (min 30 maxWaitSeconds)) ≤ makeInterval (max 0 maxWaitSeconds) :=
    makeInterval_mono (max_le_max_left 0 (min_le_right _ _))
  have hnone : 0 ≤ makeInterval (max 0 (min 30 maxWaitSeconds)) := makeInterval_nonneg (le_max_left _ _)
  unfold reserveProviderRateLimitSlot
  cases nextAllowedAt with
  | none =>
      refine Or.inl ⟨0, ?_, by simp, hnone.trans hbudget⟩
      simp
  | some next =>
      dsimp only
      split
      next hroom =>
        refine Or.inl ⟨max next now - now, ?_, ?_, ?_⟩
        · rw [Prod.mk.injEq, Option.some.injEq, Option.some.injEq]
          constructor <;> omega
        · rintro _ ⟨⟩
          omega
        · omega
      next => exact Or.inr rfl

/-! ## Runs -/

theorem reservations_cons (nextAllowedAt : Option ℤ) (call : ℤ × ℚ) (rest : List (ℤ × ℚ)) :
    (∃ wait, (reservations spacingSeconds nextAllowedAt (call :: rest)).filterMap Reservation.start
        = (call.1 + wait) :: (reservations spacingSeconds
            (some (call.1 + wait + makeInterval (max (1 / 100) (min 60 spacingSeconds)))) rest).filterMap Reservation.start
      ∧ ∀ next, nextAllowedAt = some next → next ≤ call.1 + wait)
    ∨ (reservations spacingSeconds nextAllowedAt (call :: rest)).filterMap Reservation.start
        = (reservations spacingSeconds nextAllowedAt rest).filterMap Reservation.start := by
  rw [reservations]
  rcases reserve_cases nextAllowedAt call.1 spacingSeconds call.2 with ⟨wait, hgrant, hlater, -⟩ | hrefused
  · rw [hgrant]
    exact Or.inl ⟨wait, List.filterMap_cons_some rfl, hlater⟩
  · rw [hrefused]
    exact Or.inr (List.filterMap_cons_none rfl)

/-- Nothing starts before the queue allows it. -/
theorem next_le_start {calls : List (ℤ × ℚ)} {start : ℤ} (hnext : nextAllowedAt = some next)
    (h : start ∈ (reservations spacingSeconds nextAllowedAt calls).filterMap Reservation.start) : next ≤ start := by
  induction calls generalizing nextAllowedAt next with
  | nil => simp [reservations] at h
  | cons call rest ih =>
      rcases reservations_cons nextAllowedAt call rest with ⟨wait, hgrant, hlater⟩ | hrefused
      · rw [hgrant, List.mem_cons] at h
        have hallowed := hlater next hnext
        rcases h with rfl | h
        · exact hallowed
        · have hspacing : 0 ≤ makeInterval (max (1 / 100) (min 60 spacingSeconds)) :=
            makeInterval_nonneg (le_max_of_le_left (by norm_num))
          have hmoved := ih rfl h
          omega
      · exact ih hnext (hrefused ▸ h)

theorem starts_apart (calls : List (ℤ × ℚ)) (nextAllowedAt : Option ℤ) :
    ((reservations spacingSeconds nextAllowedAt calls).filterMap Reservation.start).Pairwise
      (fun first second => first + makeInterval (max (1 / 100) (min 60 spacingSeconds)) ≤ second) := by
  induction calls generalizing nextAllowedAt with
  | nil => exact List.Pairwise.nil
  | cons call rest ih =>
      rcases reservations_cons nextAllowedAt call rest with ⟨wait, hgrant, -⟩ | hrefused
      · rw [hgrant]
        exact List.pairwise_cons.mpr ⟨fun start hstart => next_le_start rfl hstart, ih _⟩
      · rw [hrefused]
        exact ih _

theorem reservation_bounded {calls : List (ℤ × ℚ)} {reservation : Reservation}
    (h : reservation ∈ reservations spacingSeconds nextAllowedAt calls) :
    (∀ wait, reservation.wait = some wait → wait ≤ makeInterval (max 0 reservation.maxWaitSeconds))
      ∧ (reservation.wait = none → reservation.after = reservation.before) := by
  induction calls generalizing nextAllowedAt with
  | nil => simp [reservations] at h
  | cons call rest ih =>
      rw [reservations, List.mem_cons] at h
      rcases h with rfl | h
      · rcases reserve_cases nextAllowedAt call.1 spacingSeconds call.2 with ⟨wait, hgrant, -, hbudget⟩ | hrefused
        · simp [hgrant, hbudget]
        · simp [hrefused]
      · exact ih h

/-- **The requests of a provider start a spacing apart, whatever the processes are willing to wait**, and a call that is
refused leaves the queue as it was. A spacing of more than a minute counts as a minute. -/
theorem reservations_paced (rateLimitPerMinute : ℤ) (minIntervalSeconds : ℚ) (nextAllowedAt : Option ℤ)
    (calls : List (ℤ × ℚ)) :
    let run := reservations (providerRequestSpacingSeconds rateLimitPerMinute minIntervalSeconds) nextAllowedAt calls
    let spacing := min 60 (max (60 / max 1 rateLimitPerMinute : ℚ) minIntervalSeconds)
    (run.filterMap Reservation.start).Pairwise (fun first second => first + makeInterval spacing ≤ second)
      ∧ ∀ reservation ∈ run,
        (∀ wait, reservation.wait = some wait → wait ≤ makeInterval (max 0 reservation.maxWaitSeconds))
          ∧ (reservation.wait = none → reservation.after = reservation.before) := by
  intro run spacing
  have hspacing : spacing
      ≤ max (1 / 100) (min 60 (providerRequestSpacingSeconds rateLimitPerMinute minIntervalSeconds)) :=
    le_max_of_le_right (min_le_min_left _ (max_le_max_left _ (le_max_right _ _)))
  refine ⟨(starts_apart calls nextAllowedAt).imp (fun {first second} happart => ?_), fun _ hmem => reservation_bounded hmem⟩
  have hinterval := makeInterval_mono hspacing
  omega

/-- A provider that may be asked every two minutes is asked twice a minute apart. -/
theorem two_minutes_clipped :
    ¬ ((reservations (providerRequestSpacingSeconds 1 120) none [(0, 30), (60000000, 30)]).filterMap
        Reservation.start).Pairwise (fun first second => first + makeInterval (max (60 / 1) 120) ≤ second) := by
  decide +kernel

end TradingHarness
