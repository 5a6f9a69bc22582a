import Mathlib.Data.Int.Notation
import Mathlib.Data.List.Nodup

set_option autoImplicit false

/-! # Sliding windows

A log with dates, the newest entry first, whose entries are live until they are given up. An entry is admitted where
fewer than a limit of live entries lie within a span before it; then live entries never crowd a span. -/

namespace Windows

section Log

variable {α : Type} (date : α → ℤ) (span : ℤ) (limit : ℕ)

/-- The live entries since a date. -/
def liveSince (live : α → Bool) (since : ℤ) (log : List α) : ℕ :=
  log.countP (fun entry => live entry && decide (since ≤ date entry))

/-- Each live entry was admitted with room in the span before it, itself included. -/
def Kept (live : α → Bool) : List α → Prop
  | [] => True
  | entry :: earlier =>
    (live entry = true → liveSince date live (date entry - span) (entry :: earlier) ≤ limit) ∧ Kept live earlier

variable {date span limit} {live : α → Bool} {log : List α}

section

variable (h : Kept date span limit live log)

include h

theorem Kept.cons {entry : α}
    (hroom : live entry = true → liveSince date live (date entry - span) log < limit) :
    Kept date span limit live (entry :: log) := by
  refine ⟨fun hlive => ?_, h⟩
  have hcount := hroom hlive
  unfold liveSince at hcount ⊢
  rw [List.countP_cons]
  split
  next => exact hcount
  next => exact Nat.le_of_lt hcount

theorem Kept.map (change : α → α) (hdate : ∀ entry, date (change entry) = date entry)
    (hlive : ∀ entry ∈ log, live (change entry) = true → live entry = true) :
    Kept date span limit live (log.map change) := by
  induction log with
  | nil => trivial
  | cons entry earlier ih =>
      refine ⟨?_, ih h.2 (fun other hother => hlive other (List.mem_cons_of_mem entry hother))⟩
      intro hentry
      refine Nat.le_trans ?_ (h.1 (hlive entry List.mem_cons_self hentry))
      rw [← List.map_cons, hdate]
      unfold liveSince
      rw [List.countP_map]
      refine List.countP_mono_left (fun other hother hcounted => ?_)
      rw [Function.comp_apply, hdate, Bool.and_eq_true] at hcounted
      rw [Bool.and_eq_true]
      exact ⟨hlive other hother hcounted.1, hcounted.2⟩

/-- **Live entries that lie within a span of each other are at most the limit.** -/
theorem Kept.countP_le (chosen : α → Bool)
    (hlive : ∀ entry ∈ log, chosen entry = true → live entry = true)
    (hspan : ∀ entry ∈ log, ∀ other ∈ log, chosen entry = true → chosen other = true → date entry - span ≤ date other) :
    log.countP chosen ≤ limit := by
  induction log with
  | nil => exact Nat.zero_le limit
  | cons entry earlier ih =>
      by_cases hchosen : chosen entry = true
      · refine Nat.le_trans ?_ (h.1 (hlive entry List.mem_cons_self hchosen))
        refine List.countP_mono_left (fun other hother hcounted => ?_)
        rw [Bool.and_eq_true, decide_eq_true_iff]
        exact ⟨hlive other hother hcounted, hspan entry List.mem_cons_self other hother hchosen hcounted⟩
      · rw [List.countP_cons_of_neg hchosen]
        refine ih h.2 (fun other hother => hlive other (List.mem_cons_of_mem entry hother)) (fun one hone other hother => ?_)
        exact hspan one (List.mem_cons_of_mem entry hone) other (List.mem_cons_of_mem entry hother)

end

end Log

end Windows
