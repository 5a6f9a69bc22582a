import Mathlib.Logic.Function.Basic
import Mathlib.Data.List.Count

set_option autoImplicit false

/-! # One notice for each period

A row is claimed with a stamp by one of several parties, which then sends a notice and records it if its stamp is still there.
A renewal begins a new period and forgets the stamp. What keeps the parties from sending two notices in one period. -/

namespace Notices

/-! ## Parties -/

/-- How far a party is; a notice is sent in a period. -/
inductive Phase
  | waiting
  | sending (period : ℕ)
  | recording (period : ℕ)
  | releasing

/-- What a party has of the row: its stamp, the period of its claim, and whether its notices count. -/
structure Party (τ : Type) where
  stamp : τ
  period : ℕ
  counted : Bool
  phase : Phase

/-- The row, the party that has claimed it last, the parties, and the periods of the notices that count. -/
@[ext] structure State (τ δ : Type) where
  stamp : Option τ
  holder : Option ℕ
  done : Option δ
  period : ℕ
  parts : ℕ → Option (Party τ)
  noticed : List ℕ

inductive Act (τ δ : Type)
  | claim (n : ℕ) (stamp : τ) (counted : Bool)
  | start (n : ℕ)
  | succeed (n : ℕ)
  | fail (n : ℕ)
  | record (n : ℕ) (day : δ)
  | release (n : ℕ)
  | clear (n : ℕ)
  | renew

section Steps

variable {τ δ : Type} [DecidableEq τ]

def State.put (n : ℕ) (part : Option (Party τ)) (s : State τ δ) : State τ δ := { s with parts := Function.update s.parts n part }

/-- Nobody has claimed the row. -/
def State.free (s : State τ δ) : State τ δ := { s with stamp := none, holder := none }

def step (act : Act τ δ) (s : State τ δ) : State τ δ :=
  match act with
  | .claim n stamp counted => { s.put n (some ⟨stamp, s.period, counted, .waiting⟩) with stamp := some stamp, holder := some n }
  | .start n =>
      match s.parts n with
      | some ⟨stamp, period, counted, .waiting⟩ => s.put n (some ⟨stamp, period, counted, .sending s.period⟩)
      | _ => s
  | .succeed n =>
      match s.parts n with
      | some ⟨stamp, period, counted, .sending sent⟩ =>
          { s.put n (some ⟨stamp, period, counted, .recording sent⟩) with
            noticed := if counted then s.noticed ++ [sent] else s.noticed }
      | _ => s
  | .fail n =>
      match s.parts n with
      | some ⟨stamp, period, counted, .sending _⟩ => s.put n (some ⟨stamp, period, counted, .releasing⟩)
      | _ => s
  | .record n day =>
      match s.parts n with
      | some ⟨stamp, _, _, .recording _⟩ =>
          if s.stamp = some stamp then { (s.put n none).free with done := some day } else s.put n none
      | _ => s
  | .release n =>
      match s.parts n with
      | some ⟨stamp, _, _, .releasing⟩ => if s.stamp = some stamp then (s.put n none).free else s.put n none
      | _ => s
  | .clear n => (s.put n none).free
  | .renew => { s.free with done := none, period := s.period + 1 }

/-- A notice that counts is being sent or recorded under the stamp of the row. -/
def UnderWay (s : State τ δ) : Prop :=
  ∃ n part sent, s.parts n = some part ∧ part.counted = true ∧ (part.phase = .sending sent ∨ part.phase = .recording sent) ∧
    s.stamp = some part.stamp

/-- The steps that keep notices single: a claim or a clearing leaves no notice under way behind, a stamp is given once, and a notice
    that counts is started under the stamp of the row. -/
def Allowed (s : State τ δ) : Act τ δ → Prop
  | .claim n stamp counted =>
      s.parts n = none ∧ (counted = true → s.done = none) ∧ ¬UnderWay s ∧ ∀ m part, s.parts m = some part → part.stamp ≠ stamp
  | .start n => ∀ part, s.parts n = some part → part.counted = true → s.stamp = some part.stamp
  | .clear n => ¬UnderWay s ∧ ∀ part, s.parts n = some part → part.phase = .waiting
  | _ => True

/-! ## The invariant -/

structure Inv (s : State τ δ) : Prop where
  /-- A stamp is its party's, and the row of the last claim has its stamp. -/
  current : ∀ n part, s.parts n = some part → s.stamp = some part.stamp → s.holder = some n
  held : ∀ n part, s.parts n = some part → s.holder = some n → s.stamp = some part.stamp
  period : ∀ n part, s.parts n = some part → part.period ≤ s.period ∧ (s.holder = some n → part.period = s.period)
  unrecorded : ∀ n part, s.parts n = some part → part.counted = true → s.holder = some n → s.done = none
  /-- A notice of the present period is sent by the party of the last claim. -/
  sending : ∀ n part sent, s.parts n = some part → part.counted = true → part.phase = .sending sent ∨ part.phase = .recording sent →
    sent ≤ s.period ∧ (sent = s.period → s.holder = some n)
  fresh : ∀ n part sent, s.parts n = some part → part.counted = true → part.phase = .sending sent → sent ∉ s.noticed
  alone : ∀ n part m other sent, s.parts n = some part → s.parts m = some other → part.counted = true → other.counted = true →
    part.phase = .sending sent → other.phase = .sending sent → n = m
  once : ∀ sent, s.noticed.count sent ≤ 1
  bounded : ∀ sent ∈ s.noticed, sent ≤ s.period
  /-- What has been sent in the present period is recorded, or is about to be. -/
  recorded : s.period ∈ s.noticed →
    s.done ≠ none ∨ ∃ n part, s.parts n = some part ∧ part.counted = true ∧ part.phase = .recording s.period
  /-- A stamp is some party's, unless nobody has claimed the row in this period. -/
  claimed : ∀ stamp, s.stamp = some stamp →
    (∃ n part, s.parts n = some part ∧ part.stamp = stamp) ∨ ∀ n part, s.parts n = some part → part.period < s.period

omit [DecidableEq τ] in
theorem inv_start {s : State τ δ} (hparts : ∀ n, s.parts n = none) (hnoticed : s.noticed = []) : Inv s where
  current n part hpart := absurd hpart (by simp [hparts n])
  held n part hpart := absurd hpart (by simp [hparts n])
  period n part hpart := absurd hpart (by simp [hparts n])
  unrecorded n part hpart := absurd hpart (by simp [hparts n])
  sending n part sent hpart := absurd hpart (by simp [hparts n])
  fresh n part sent hpart := absurd hpart (by simp [hparts n])
  alone n part m other sent hpart := absurd hpart (by simp [hparts n])
  once sent := by simp [hnoticed]
  bounded sent hsent := absurd hsent (by simp [hnoticed])
  recorded hsent := absurd hsent (by simp [hnoticed])
  claimed stamp _ := Or.inr (fun n part hpart => absurd hpart (by simp [hparts n]))

/-! ## Parties that move -/

variable {s : State τ δ} {n m : ℕ} {part : Party τ}

omit [DecidableEq τ] in
@[simp] theorem put_self (now : Option (Party τ)) : (s.put n now).parts n = now := Function.update_self _ _ _

omit [DecidableEq τ] in
theorem put_ne (now : Option (Party τ)) (hne : m ≠ n) : (s.put n now).parts m = s.parts m := Function.update_of_ne hne _ _

omit [DecidableEq τ] in
theorem parts_put {now : Option (Party τ)} (h : (s.put n now).parts m = some part) :
    (m = n ∧ now = some part) ∨ (m ≠ n ∧ s.parts m = some part) := by
  by_cases hsame : m = n
  · subst hsame
    rw [put_self] at h
    exact Or.inl ⟨rfl, h⟩
  · rw [put_ne now hsame] at h
    exact Or.inr ⟨hsame, h⟩

section

variable (h : Inv s)

include h

section

variable (hpart : s.parts n = some part)

include hpart

omit [DecidableEq τ] in
theorem Inv.underWay {sent : ℕ} (hcounted : part.counted = true)
    (hphase : part.phase = .sending sent ∨ part.phase = .recording sent) (hsent : sent = s.period) :
    s.holder = some n ∧ UnderWay s := by
  have hholder := (h.sending n part sent hpart hcounted hphase).2 hsent
  exact ⟨hholder, n, part, sent, hpart, hcounted, hphase, h.held n part hpart hholder⟩

omit [DecidableEq τ] in
/-- A party moves on, and its notice, if it sends one, is the first of its period. -/
theorem Inv.move (phase : Phase)
    (hsending : ∀ sent, part.counted = true → phase = .sending sent ∨ phase = .recording sent →
      sent ≤ s.period ∧ (sent = s.period → s.holder = some n))
    (hfresh : ∀ sent, part.counted = true → phase = .sending sent → sent ∉ s.noticed ∧
      ∀ m other, m ≠ n → s.parts m = some other → other.counted = true → other.phase ≠ .sending sent)
    (hrecording : part.counted = true → part.phase ≠ .recording s.period) :
    Inv (s.put n (some { part with phase := phase })) where
  current m other hother hstamp := by
    rcases parts_put hother with ⟨rfl, heq⟩ | ⟨-, hold⟩
    · cases heq
      exact h.current m part hpart hstamp
    · exact h.current m other hold hstamp
  held m other hother hholder := by
    rcases parts_put hother with ⟨rfl, heq⟩ | ⟨-, hold⟩
    · cases heq
      exact h.held m part hpart hholder
    · exact h.held m other hold hholder
  period m other hother := by
    rcases parts_put hother with ⟨rfl, heq⟩ | ⟨-, hold⟩
    · cases heq
      exact h.period m part hpart
    · exact h.period m other hold
  unrecorded m other hother hcounted hholder := by
    rcases parts_put hother with ⟨rfl, heq⟩ | ⟨-, hold⟩
    · cases heq
      exact h.unrecorded m part hpart hcounted hholder
    · exact h.unrecorded m other hold hcounted hholder
  sending m other sent hother hcounted hphase := by
    rcases parts_put hother with ⟨rfl, heq⟩ | ⟨-, hold⟩
    · cases heq
      exact hsending sent hcounted hphase
    · exact h.sending m other sent hold hcounted hphase
  fresh m other sent hother hcounted hphase := by
    rcases parts_put hother with ⟨rfl, heq⟩ | ⟨-, hold⟩
    · cases heq
      exact (hfresh sent hcounted hphase).1
    · exact h.fresh m other sent hold hcounted hphase
  alone m other m' other' sent hother hother' hcounted hcounted' hphase hphase' := by
    rcases parts_put hother with ⟨rfl, heq⟩ | ⟨hne, hold⟩
    · rcases parts_put hother' with ⟨rfl, -⟩ | ⟨hne', hold'⟩
      · rfl
      · cases heq
        exact absurd hphase' ((hfresh sent hcounted hphase).2 m' other' hne' hold' hcounted')
    · rcases parts_put hother' with ⟨rfl, heq'⟩ | ⟨-, hold'⟩
      · cases heq'
        exact absurd hphase ((hfresh sent hcounted' hphase').2 m other hne hold hcounted)
      · exact h.alone m other m' other' sent hold hold' hcounted hcounted' hphase hphase'
  once := h.once
  bounded := h.bounded
  recorded hsent := by
    refine (h.recorded hsent).imp_right ?_
    rintro ⟨m, other, hother, hcounted, hphase⟩
    by_cases hsame : m = n
    · subst hsame
      rw [hpart] at hother
      cases hother
      exact absurd hphase (hrecording hcounted)
    · exact ⟨m, other, (put_ne _ hsame).trans hother, hcounted, hphase⟩
  claimed stamp hstamp := by
    rcases h.claimed stamp hstamp with ⟨m, other, hother, hsame⟩ | hnone
    · by_cases hmn : m = n
      · subst hmn
        rw [hpart] at hother
        cases hother
        exact Or.inl ⟨m, _, put_self _, hsame⟩
      · exact Or.inl ⟨m, other, (put_ne _ hmn).trans hother, hsame⟩
    · refine Or.inr (fun m other hother => ?_)
      rcases parts_put hother with ⟨rfl, heq⟩ | ⟨-, hold⟩
      · cases heq
        exact hnone m part hpart
      · exact hnone m other hold

omit [DecidableEq τ] in
theorem Inv.leave (hstamp : s.stamp ≠ some part.stamp) : Inv (s.put n none) where
  current m other hother := (parts_put hother).elim (fun hno => absurd hno.2 (by simp)) (fun hold => h.current m other hold.2)
  held m other hother := (parts_put hother).elim (fun hno => absurd hno.2 (by simp)) (fun hold => h.held m other hold.2)
  period m other hother := (parts_put hother).elim (fun hno => absurd hno.2 (by simp)) (fun hold => h.period m other hold.2)
  unrecorded m other hother := (parts_put hother).elim (fun hno => absurd hno.2 (by simp)) (fun hold => h.unrecorded m other hold.2)
  sending m other sent hother :=
    (parts_put hother).elim (fun hno => absurd hno.2 (by simp)) (fun hold => h.sending m other sent hold.2)
  fresh m other sent hother := (parts_put hother).elim (fun hno => absurd hno.2 (by simp)) (fun hold => h.fresh m other sent hold.2)
  alone m other m' other' sent hother hother' :=
    (parts_put hother).elim (fun hno => absurd hno.2 (by simp)) (fun hold =>
      (parts_put hother').elim (fun hno => absurd hno.2 (by simp)) (fun hold' => h.alone m other m' other' sent hold.2 hold'.2))
  once := h.once
  bounded := h.bounded
  recorded hsent := by
    refine (h.recorded hsent).imp_right ?_
    rintro ⟨m, other, hother, hcounted, hphase⟩
    refine ⟨m, other, (put_ne _ (fun hsame => hstamp ?_)).trans hother, hcounted, hphase⟩
    subst hsame
    rw [hpart] at hother
    cases hother
    exact h.held m part hpart (h.underWay hpart hcounted (Or.inr hphase) rfl).1
  claimed stamp hrow := by
    rcases h.claimed stamp hrow with ⟨m, other, hother, hsame⟩ | hnone
    · refine Or.inl ⟨m, other, (put_ne _ (fun hmn => hstamp ?_)).trans hother, hsame⟩
      subst hmn
      rw [hpart] at hother
      cases hother
      exact hrow.trans (congrArg some hsame.symm)
    · exact Or.inr (fun m other hother => (parts_put hother).elim (fun hno => absurd hno.2 (by simp)) (fun hold => hnone m other hold.2))

end

omit [DecidableEq τ] in
theorem Inv.leave_free (n : ℕ) (done : Option δ)
    (hquiet : ∀ m part sent, m ≠ n → s.parts m = some part → part.counted = true →
      part.phase = .sending sent ∨ part.phase = .recording sent → sent ≠ s.period)
    (hdone : s.period ∈ s.noticed → done ≠ none) : Inv { (s.put n none).free with done := done } where
  current m other _ hstamp := absurd hstamp (by simp [State.free])
  held m other _ hholder := absurd hholder (by simp [State.free])
  period m other hother :=
    (parts_put hother).elim (fun hno => absurd hno.2 (by simp))
      (fun hold => ⟨(h.period m other hold.2).1, fun hholder => absurd hholder (by simp [State.free])⟩)
  unrecorded m other _ _ hholder := absurd hholder (by simp [State.free])
  sending m other sent hother hcounted hphase := by
    rcases parts_put hother with ⟨-, hno⟩ | ⟨hne, hold⟩
    · exact absurd hno (by simp)
    · exact ⟨(h.sending m other sent hold hcounted hphase).1, fun hsent => absurd hsent (hquiet m other sent hne hold hcounted hphase)⟩
  fresh m other sent hother := (parts_put hother).elim (fun hno => absurd hno.2 (by simp)) (fun hold => h.fresh m other sent hold.2)
  alone m other m' other' sent hother hother' :=
    (parts_put hother).elim (fun hno => absurd hno.2 (by simp)) (fun hold =>
      (parts_put hother').elim (fun hno => absurd hno.2 (by simp)) (fun hold' => h.alone m other m' other' sent hold.2 hold'.2))
  once := h.once
  bounded := h.bounded
  recorded hsent := Or.inl (hdone hsent)
  claimed stamp hstamp := absurd hstamp (by simp [State.free])

/-! ## Every step -/

omit [DecidableEq τ] in
theorem Inv.others_quiet (hpart : s.parts n = some part) (hstamp : s.stamp = some part.stamp) (m : ℕ) (other : Party τ) (sent : ℕ)
    (hne : m ≠ n) (hother : s.parts m = some other) (hcounted : other.counted = true)
    (hphase : other.phase = .sending sent ∨ other.phase = .recording sent) : sent ≠ s.period := by
  intro hsent
  have hholder := (h.sending m other sent hother hcounted hphase).2 hsent
  rw [h.current n part hpart hstamp] at hholder
  exact hne (Option.some.inj hholder).symm

omit [DecidableEq τ] in
theorem inv_claim (n : ℕ) (stamp : τ) (counted : Bool) (hnone : s.parts n = none) (hdone : counted = true → s.done = none)
    (hunderWay : ¬UnderWay s) (hnew : ∀ m part, s.parts m = some part → part.stamp ≠ stamp) :
    Inv { s.put n (some ⟨stamp, s.period, counted, .waiting⟩) with stamp := some stamp, holder := some n } where
  current m other hother hstamp := by
    rcases parts_put hother with ⟨rfl, -⟩ | ⟨-, hold⟩
    · rfl
    · exact absurd (Option.some.inj hstamp).symm (hnew m other hold)
  held m other hother hholder := by
    rcases parts_put hother with ⟨-, heq⟩ | ⟨hne, -⟩
    · cases heq
      rfl
    · exact absurd (Option.some.inj hholder).symm hne
  period m other hother := by
    rcases parts_put hother with ⟨-, heq⟩ | ⟨hne, hold⟩
    · cases heq
      exact ⟨Nat.le_refl _, fun _ => rfl⟩
    · exact ⟨(h.period m other hold).1, fun hholder => absurd (Option.some.inj hholder).symm hne⟩
  unrecorded m other hother hcounted hholder := by
    rcases parts_put hother with ⟨-, heq⟩ | ⟨hne, -⟩
    · cases heq
      exact hdone hcounted
    · exact absurd (Option.some.inj hholder).symm hne
  sending m other sent hother hcounted hphase := by
    rcases parts_put hother with ⟨-, heq⟩ | ⟨-, hold⟩
    · cases heq
      exact absurd hphase (by simp)
    · refine ⟨(h.sending m other sent hold hcounted hphase).1, fun hsent => ?_⟩
      exact absurd (h.underWay hold hcounted hphase hsent).2 hunderWay
  fresh m other sent hother hcounted hphase := by
    rcases parts_put hother with ⟨-, heq⟩ | ⟨-, hold⟩
    · cases heq
      exact absurd hphase (by simp)
    · exact h.fresh m other sent hold hcounted hphase
  alone m other m' other' sent hother hother' hcounted hcounted' hphase hphase' := by
    rcases parts_put hother with ⟨-, heq⟩ | ⟨-, hold⟩
    · cases heq
      exact absurd hphase (by simp)
    · rcases parts_put hother' with ⟨-, heq'⟩ | ⟨-, hold'⟩
      · cases heq'
        exact absurd hphase' (by simp)
      · exact h.alone m other m' other' sent hold hold' hcounted hcounted' hphase hphase'
  once := h.once
  bounded := h.bounded
  recorded hsent := by
    refine (h.recorded hsent).imp_right ?_
    rintro ⟨m, other, hother, hcounted, hphase⟩
    exact absurd (h.underWay hother hcounted (Or.inr hphase) rfl).2 hunderWay
  claimed other hother := Or.inl ⟨n, _, put_self _, Option.some.inj hother⟩

omit [DecidableEq τ] in
theorem inv_noticed {stamp : τ} {period sent : ℕ} (hpart : s.parts n = some ⟨stamp, period, true, .sending sent⟩) :
    Inv { s.put n (some ⟨stamp, period, true, .recording sent⟩) with noticed := s.noticed ++ [sent] } := by
  have hsending := h.sending n _ sent hpart rfl (Or.inl rfl)
  have hmoved : Inv (s.put n (some { (⟨stamp, period, true, .sending sent⟩ : Party τ) with phase := .recording sent })) := by
    refine h.move hpart (.recording sent) (fun other _ hphase => ?_) (fun other _ hphase => absurd hphase (by simp)) (fun _ => by simp)
    rcases hphase with hphase | hphase
    · exact absurd hphase (by simp)
    · cases hphase
      exact hsending
  refine ⟨hmoved.current, hmoved.held, hmoved.period, hmoved.unrecorded, hmoved.sending, fun m other q hother hcounted hphase => ?_,
    hmoved.alone, fun q => ?_, fun q hq => ?_, fun hq => ?_, hmoved.claimed⟩
  · intro hq
    rcases List.mem_append.mp hq with hq | hq
    · exact hmoved.fresh m other q hother hcounted hphase hq
    · rw [List.mem_singleton] at hq
      subst hq
      rcases parts_put hother with ⟨-, heq⟩ | ⟨hne, hold⟩
      · cases heq
        exact absurd hphase (by simp)
      · exact hne (h.alone m other n _ q hold hpart hcounted rfl hphase rfl)
  · rw [List.count_append, List.count_singleton]
    by_cases hq : sent = q
    · subst hq
      rw [List.count_eq_zero_of_not_mem (h.fresh n _ sent hpart rfl rfl)]
      simp
    · simpa [hq] using h.once q
  · rcases List.mem_append.mp hq with hq | hq
    · exact h.bounded q hq
    · rw [List.mem_singleton.mp hq]
      exact hsending.1
  · rcases List.mem_append.mp hq with hq | hq
    · exact hmoved.recorded hq
    · rw [List.mem_singleton] at hq
      refine Or.inr ⟨n, _, put_self _, rfl, ?_⟩
      exact congrArg Phase.recording hq.symm

/-- **Every allowed step keeps notices single.** -/
theorem inv_step (act : Act τ δ) (hallowed : Allowed s act) : Inv (step act s) := by
  cases act with
  | claim n stamp counted =>
      obtain ⟨hnone, hdone, hunderWay, hnew⟩ := hallowed
      exact inv_claim h n stamp counted hnone hdone hunderWay hnew
  | start n =>
      unfold step
      dsimp only
      split
      next stamp period counted hpart =>
        have hcurrent : counted = true → s.holder = some n := fun hcounted => h.current n _ hpart (hallowed _ hpart hcounted)
        refine h.move hpart (.sending s.period) (fun sent hcounted hphase => ?_) (fun sent hcounted hphase => ?_) (fun _ => by simp)
        · rcases hphase with hphase | hphase
          · cases hphase
            exact ⟨Nat.le_refl _, fun _ => hcurrent hcounted⟩
          · exact absurd hphase (by simp)
        · cases hphase
          refine ⟨fun hsent => ?_, fun m other hne hother hother' hphase => ?_⟩
          · rcases h.recorded hsent with hdone | ⟨m, other, hother, hother', hphase⟩
            · exact hdone (h.unrecorded n _ hpart hcounted (hcurrent hcounted))
            · have hholder := (h.underWay hother hother' (Or.inr hphase) rfl).1
              rw [hcurrent hcounted] at hholder
              cases hholder
              rw [hpart] at hother
              cases hother
              exact absurd hphase (by simp)
          · have hholder := (h.underWay hother hother' (Or.inl hphase) rfl).1
            rw [hcurrent hcounted] at hholder
            exact hne (Option.some.inj hholder).symm
      next => exact h
  | succeed n =>
      unfold step
      dsimp only
      split
      next stamp period counted sent hpart =>
        cases counted with
        | true => exact inv_noticed h hpart
        | false =>
            exact h.move hpart (.recording sent) (fun _ hcounted => absurd hcounted (by simp)) (fun _ hcounted => absurd hcounted (by simp))
              (fun hcounted => absurd hcounted (by simp))
      next => exact h
  | fail n =>
      unfold step
      dsimp only
      split
      next hpart =>
        exact h.move hpart .releasing (fun sent _ hphase => absurd hphase (by simp)) (fun sent _ hphase => absurd hphase (by simp))
          (fun _ => by simp)
      next => exact h
  | record n day =>
      unfold step
      dsimp only
      split
      next hpart =>
        split
        next hstamp => exact h.leave_free n (some day) (h.others_quiet hpart hstamp) (fun _ => by simp)
        next hstamp => exact h.leave hpart hstamp
      next => exact h
  | release n =>
      unfold step
      dsimp only
      split
      next hpart =>
        split
        next hstamp =>
          refine h.leave_free n s.done (h.others_quiet hpart hstamp) (fun hsent => ?_)
          -- what is sent in this period is recorded: the party that would record it has not the last claim
          rcases h.recorded hsent with hdone | ⟨m, other, hother, hcounted, hphase⟩
          · exact hdone
          · by_cases hsame : m = n
            · subst hsame
              rw [hpart] at hother
              cases hother
              exact absurd hphase (by simp)
            · exact absurd rfl (h.others_quiet hpart hstamp m other _ hsame hother hcounted (Or.inr hphase))
        next hstamp => exact h.leave hpart hstamp
      next => exact h
  | clear n =>
      have hquiet : ∀ m part sent, s.parts m = some part → part.counted = true →
          part.phase = .sending sent ∨ part.phase = .recording sent → sent ≠ s.period := by
        intro m part sent hpart hcounted hphase hsent
        exact hallowed.1 (h.underWay hpart hcounted hphase hsent).2
      refine h.leave_free n s.done (fun m part sent _ => hquiet m part sent) (fun hsent => ?_)
      rcases h.recorded hsent with hdone | ⟨m, other, hother, hcounted, hphase⟩
      · exact hdone
      · exact absurd rfl (hquiet m other _ hother hcounted (Or.inr hphase))
  | renew =>
      refine ⟨fun _ _ _ hstamp => absurd hstamp (by simp [step, State.free]), fun _ _ _ hholder => absurd hholder (by simp [step, State.free]),
        fun m part hpart => ⟨Nat.le_succ_of_le (h.period m part hpart).1, fun hholder => absurd hholder (by simp [step, State.free])⟩,
        fun _ _ _ _ _ => rfl, fun m part sent hpart hcounted hphase => ?_, h.fresh, h.alone, h.once,
        fun sent hsent => Nat.le_succ_of_le (h.bounded sent hsent), fun hsent => ?_, fun _ hstamp => absurd hstamp (by simp [step, State.free])⟩
      · have hle := (h.sending m part sent hpart hcounted hphase).1
        exact ⟨Nat.le_succ_of_le hle, fun hsent => absurd hsent (Nat.ne_of_lt (Nat.lt_succ_of_le hle))⟩
      · exact absurd (h.bounded _ hsent) (Nat.not_succ_le_self _)

end

theorem recorded_step {act : Act τ δ} {day : δ} (hafter : (step act s).done = some day) (hbefore : s.done ≠ some day) :
    ∃ n part sent, act = .record n day ∧ s.parts n = some part ∧ part.phase = .recording sent ∧ s.stamp = some part.stamp := by
  cases act with
  | record n other =>
      unfold step at hafter
      dsimp only at hafter
      split at hafter
      next stamp period counted sent hpart =>
        split at hafter
        next hstamp =>
          cases hafter
          exact ⟨n, _, sent, rfl, hpart, rfl, hstamp⟩
        next => exact absurd hafter hbefore
      next => exact absurd hafter hbefore
  | renew => exact absurd hafter (by simp [step])
  | claim n stamp counted => exact absurd hafter hbefore
  | clear n => exact absurd hafter hbefore
  | start n =>
      unfold step at hafter
      dsimp only at hafter
      split at hafter
      next => exact absurd hafter hbefore
      next => exact absurd hafter hbefore
  | succeed n =>
      unfold step at hafter
      dsimp only at hafter
      split at hafter
      next => exact absurd hafter hbefore
      next => exact absurd hafter hbefore
  | fail n =>
      unfold step at hafter
      dsimp only at hafter
      split at hafter
      next => exact absurd hafter hbefore
      next => exact absurd hafter hbefore
  | release n =>
      unfold step at hafter
      dsimp only at hafter
      split at hafter
      next =>
        split at hafter
        next => exact absurd hafter hbefore
        next => exact absurd hafter hbefore
      next => exact absurd hafter hbefore

end Steps

end Notices
