import TradingHarness.Teacher.Roll

set_option autoImplicit false

/-! # Where plans are placed

What `apply_session_plans` and `retire_plans` leave in the row of each symbol, and how many rows stay enabled. -/

namespace TradingHarness.Teacher

/-! ## One plan -/

/-- Whether a plan of the symbol takes a free place: it has no row, or a disabled one of ours. -/
def needsRoom (rows : List WatchRow) (symbol : Symbol) : Bool :=
  match Keyed.find WatchRow.symbol symbol rows with
  | none => true
  | some row => !row.enabled && row.ours

/-- The row of a plan's symbol once the plan has been offered to the pool. -/
def placed (hasRoom : Bool) (plan : SessionPlan) : Option WatchRow → Option WatchRow
  | none => if hasRoom then some ⟨plan.symbol, true, true, some plan.plan⟩ else none
  | some row => if row.enabled || (row.ours && hasRoom) then some (mergePlan plan.plan row) else some row

section Applying

variable {state : ApplyState} {plan : SessionPlan} {plans : List SessionPlan}

theorem find_applyPlan_of_ne {symbol : Symbol} (hne : symbol ≠ plan.symbol) :
    Keyed.find WatchRow.symbol symbol (applyPlan state plan).rows = Keyed.find WatchRow.symbol symbol state.rows := by
  unfold applyPlan
  split
  next existing hfind =>
    split
    next => rfl
    next =>
      split
      next => rfl
      next => exact Keyed.find_update_of_ne (mergePlan plan.plan) (fun _ => rfl) hne
  next hfind =>
    split
    next => rfl
    next =>
      have hfresh : Keyed.find WatchRow.symbol (WatchRow.symbol ⟨plan.symbol, true, true, some plan.plan⟩) state.rows = none :=
        hfind
      rw [Keyed.find_concat hfresh, if_neg hne]

theorem find_applyPlan_self : Keyed.find WatchRow.symbol plan.symbol (applyPlan state plan).rows =
    placed (decide (0 < state.headroom)) plan (Keyed.find WatchRow.symbol plan.symbol state.rows) := by
  unfold applyPlan
  split
  next existing hfind =>
    have hroom : decide (state.headroom = 0) = !decide (0 < state.headroom) := by
      by_cases h : 0 < state.headroom <;> simp [h] <;> omega
    have hupdate : Keyed.find WatchRow.symbol plan.symbol (Keyed.update WatchRow.symbol plan.symbol (mergePlan plan.plan) state.rows) =
        some (mergePlan plan.plan existing) := by
      rw [Keyed.find_update_self (mergePlan plan.plan) (fun _ => rfl), hfind, Option.map_some]
    rw [hroom, hfind]
    unfold placed
    rcases henabled : existing.enabled <;> rcases hours : existing.ours <;> rcases hfree : decide (0 < state.headroom) <;>
      simp [hfind, hupdate, henabled, hours]
  next hfind =>
    have hfresh : Keyed.find WatchRow.symbol (WatchRow.symbol ⟨plan.symbol, true, true, some plan.plan⟩) state.rows = none :=
      hfind
    by_cases hroom : state.headroom = 0
    · simp [hroom, hfind, placed]
    · simp only [if_neg hroom]
      rw [Keyed.find_concat hfresh, if_pos rfl]
      simp [hfind, placed, Nat.pos_of_ne_zero hroom]

theorem headroom_applyPlan : (applyPlan state plan).headroom =
    state.headroom - (if needsRoom state.rows plan.symbol then 1 else 0) := by
  unfold applyPlan needsRoom
  split
  next existing hfind =>
    rcases henabled : existing.enabled <;> rcases hours : existing.ours <;> by_cases hroom : state.headroom = 0 <;>
      simp [hfind, hroom, henabled, hours]
  next hfind =>
    by_cases hroom : state.headroom = 0 <;> simp [hfind, hroom]

theorem needsRoom_applyPlan_of_ne {symbol : Symbol} (hne : symbol ≠ plan.symbol) :
    needsRoom (applyPlan state plan).rows symbol = needsRoom state.rows symbol := by
  unfold needsRoom
  rw [find_applyPlan_of_ne hne]

theorem filter_applyPlan (holds : WatchRow → Bool) (hleft : ∀ row, row.symbol = plan.symbol → holds row = false) :
    (applyPlan state plan).rows.filter holds = state.rows.filter holds := by
  unfold applyPlan
  split
  next existing hfind =>
    split
    next => rfl
    next =>
      split
      next => rfl
      next => exact Keyed.filter_update (mergePlan plan.plan) holds (fun row _ => hleft row) (fun row _ hrow => hleft _ hrow)
  next hfind =>
    split
    next => rfl
    next => simp [List.filter_append, hleft]

theorem symbols_applyPlan (hnodup : (state.rows.map WatchRow.symbol).Nodup) :
    ((applyPlan state plan).rows.map WatchRow.symbol).Nodup := by
  unfold applyPlan
  split
  next existing hfind =>
    split
    next => exact hnodup
    next =>
      split
      next => exact hnodup
      next =>
        rw [Keyed.map_update (mergePlan plan.plan) WatchRow.symbol (fun _ _ _ => rfl)]
        exact hnodup
  next hfind =>
    split
    next => exact hnodup
    next =>
      have hfresh := Keyed.find_eq_none.mp hfind
      rw [List.map_append, List.nodup_append]
      refine ⟨hnodup, List.nodup_singleton _, fun symbol hsymbol other hother hsame => ?_⟩
      rw [List.map_singleton, List.mem_singleton] at hother
      rw [hsame, hother] at hsymbol
      exact hfresh hsymbol

theorem enabled_applyPlan (hnodup : (state.rows.map WatchRow.symbol).Nodup) :
    (applyPlan state plan).rows.countP WatchRow.enabled + (applyPlan state plan).headroom =
      state.rows.countP WatchRow.enabled + state.headroom := by
  unfold applyPlan
  split
  next existing hfind =>
    have hcount := Keyed.countP_update (mergePlan plan.plan) WatchRow.enabled hnodup hfind
    have hmerged : (mergePlan plan.plan existing).enabled = (existing.enabled || existing.ours) := rfl
    rw [hmerged] at hcount
    rcases henabled : existing.enabled <;> rcases hours : existing.ours
    · simp
    · by_cases hroom : state.headroom = 0
      · simp [hroom]
      · simp [henabled, hours, hroom] at hcount ⊢
        omega
    · simp [henabled, hours] at hcount ⊢
      omega
    · simp [henabled, hours] at hcount ⊢
      omega
  next hfind =>
    by_cases hroom : state.headroom = 0
    · simp [hroom]
    · simp [hroom]
      omega

/-! ## All plans -/

theorem find_applied_of_not_mem {symbol : Symbol} (hout : symbol ∉ plans.map SessionPlan.symbol) :
    Keyed.find WatchRow.symbol symbol (plans.foldl applyPlan state).rows = Keyed.find WatchRow.symbol symbol state.rows := by
  induction plans generalizing state with
  | nil => rfl
  | cons first rest ih =>
      rw [List.map_cons, List.mem_cons, not_or] at hout
      rw [List.foldl_cons, ih hout.2, find_applyPlan_of_ne hout.1]

/-- How many of the plans before one of a symbol take a free place. -/
def takenBefore (rows : List WatchRow) (symbol : Symbol) (plans : List SessionPlan) : ℕ :=
  (plans.takeWhile (fun plan => decide (plan.symbol ≠ symbol))).countP (fun plan => needsRoom rows plan.symbol)

theorem find_applied (hnodup : (plans.map SessionPlan.symbol).Nodup) (hplan : plan ∈ plans) :
    Keyed.find WatchRow.symbol plan.symbol (plans.foldl applyPlan state).rows =
      placed (decide (takenBefore state.rows plan.symbol plans < state.headroom)) plan
        (Keyed.find WatchRow.symbol plan.symbol state.rows) := by
  unfold takenBefore
  induction plans generalizing state with
  | nil => exact absurd hplan List.not_mem_nil
  | cons first rest ih =>
      rw [List.map_cons, List.nodup_cons] at hnodup
      rw [List.foldl_cons, List.takeWhile_cons]
      rcases List.mem_cons.mp hplan with rfl | hrest
      · rw [find_applied_of_not_mem hnodup.1, find_applyPlan_self]
        simp
      · have hne : first.symbol ≠ plan.symbol := fun hsame => hnodup.1 (hsame ▸ List.mem_map_of_mem hrest)
        have hcount : (rest.takeWhile (fun other => decide (other.symbol ≠ plan.symbol))).countP
              (fun other => needsRoom (applyPlan state first).rows other.symbol) =
            (rest.takeWhile (fun other => decide (other.symbol ≠ plan.symbol))).countP
              (fun other => needsRoom state.rows other.symbol) := by
          refine List.countP_congr (fun other hother => ?_)
          have hmem : other ∈ rest := (List.takeWhile_subset _) hother
          have hother : other.symbol ≠ first.symbol := fun hsame => hnodup.1 (hsame ▸ List.mem_map_of_mem hmem)
          rw [needsRoom_applyPlan_of_ne hother]
        rw [ih hnodup.2 hrest, hcount, find_applyPlan_of_ne (Ne.symm hne), headroom_applyPlan]
        simp only [decide_not, hne, decide_false, Bool.not_false, if_true, List.countP_cons]
        congr 2
        by_cases hneeds : needsRoom state.rows first.symbol
        · simp [hneeds]
          omega
        · simp [hneeds]

theorem takenBefore_lt {rows : List WatchRow} (hplan : plan ∈ plans) (hneeds : needsRoom rows plan.symbol = true) :
    takenBefore rows plan.symbol plans < plans.countP (fun plan => needsRoom rows plan.symbol) := by
  unfold takenBefore
  induction plans with
  | nil => exact absurd hplan List.not_mem_nil
  | cons first rest ih =>
      rw [List.takeWhile_cons, List.countP_cons]
      by_cases hsame : first.symbol = plan.symbol
      · simp [hsame, hneeds]
      · have hrest : plan ∈ rest := (List.mem_cons.mp hplan).resolve_left (fun h => hsame (h ▸ rfl))
        have hless := ih hrest
        simp only [hsame, ne_eq, not_false_eq_true, decide_true, if_true, List.countP_cons] at hless ⊢
        omega

section

variable (hnodup : (plans.map SessionPlan.symbol).Nodup)

include hnodup

theorem exists_first {rows : List WatchRow} (hplan : plan ∈ plans)
    (hneeds : needsRoom rows plan.symbol = true) :
    ∃ first ∈ plans, needsRoom rows first.symbol = true ∧ takenBefore rows first.symbol plans = 0 := by
  unfold takenBefore
  induction plans with
  | nil => exact absurd hplan List.not_mem_nil
  | cons head rest ih =>
      rw [List.map_cons, List.nodup_cons] at hnodup
      by_cases hhead : needsRoom rows head.symbol = true
      · exact ⟨head, List.mem_cons_self, hhead, by simp⟩
      · have hrest : plan ∈ rest := (List.mem_cons.mp hplan).resolve_left (fun h => hhead (h ▸ hneeds))
        obtain ⟨first, hfirst, hroom, hzero⟩ := ih hnodup.2 hrest
        have hne : head.symbol ≠ first.symbol := fun hsame => hnodup.1 (hsame ▸ List.mem_map_of_mem hfirst)
        refine ⟨first, List.mem_cons_of_mem head hfirst, hroom, ?_⟩
        rw [List.takeWhile_cons, if_pos (decide_eq_true hne), List.countP_cons, if_neg hhead, hzero]

theorem exists_left_out {rows : List WatchRow} {room : ℕ}
    (hmore : room < plans.countP (fun plan => needsRoom rows plan.symbol)) :
    ∃ last ∈ plans, needsRoom rows last.symbol = true ∧ room ≤ takenBefore rows last.symbol plans := by
  unfold takenBefore
  induction plans generalizing room with
  | nil => exact absurd hmore (Nat.not_lt_zero room)
  | cons head rest ih =>
      rw [List.map_cons, List.nodup_cons] at hnodup
      rw [List.countP_cons] at hmore
      by_cases hhead : needsRoom rows head.symbol = true
      · rw [if_pos hhead] at hmore
        cases room with
        | zero => exact ⟨head, List.mem_cons_self, hhead, Nat.zero_le _⟩
        | succ room =>
            obtain ⟨last, hlast, hroom, hle⟩ := ih hnodup.2 (Nat.lt_of_succ_lt_succ hmore)
            have hne : head.symbol ≠ last.symbol := fun hsame => hnodup.1 (hsame ▸ List.mem_map_of_mem hlast)
            refine ⟨last, List.mem_cons_of_mem head hlast, hroom, ?_⟩
            rw [List.takeWhile_cons, if_pos (decide_eq_true hne), List.countP_cons, if_pos hhead]
            exact Nat.succ_le_succ hle
      · rw [if_neg hhead, Nat.add_zero] at hmore
        obtain ⟨last, hlast, hroom, hle⟩ := ih hnodup.2 hmore
        have hne : head.symbol ≠ last.symbol := fun hsame => hnodup.1 (hsame ▸ List.mem_map_of_mem hlast)
        refine ⟨last, List.mem_cons_of_mem head hlast, hroom, ?_⟩
        rw [List.takeWhile_cons, if_pos (decide_eq_true hne), List.countP_cons, if_neg hhead]
        exact hle

theorem headroom_applied :
    (plans.foldl applyPlan state).headroom = state.headroom - plans.countP (fun plan => needsRoom state.rows plan.symbol) := by
  induction plans generalizing state with
  | nil => rfl
  | cons first rest ih =>
      rw [List.map_cons, List.nodup_cons] at hnodup
      have hcount : rest.countP (fun other => needsRoom (applyPlan state first).rows other.symbol) =
          rest.countP (fun other => needsRoom state.rows other.symbol) := by
        refine List.countP_congr (fun other hother => ?_)
        have hother : other.symbol ≠ first.symbol := fun hsame => hnodup.1 (hsame ▸ List.mem_map_of_mem hother)
        rw [needsRoom_applyPlan_of_ne hother]
      rw [List.foldl_cons, ih hnodup.2, hcount, headroom_applyPlan, List.countP_cons]
      by_cases hneeds : needsRoom state.rows first.symbol
      · simp [hneeds]
        omega
      · simp [hneeds]

end

theorem symbols_applied (hnodup : (state.rows.map WatchRow.symbol).Nodup) :
    ((plans.foldl applyPlan state).rows.map WatchRow.symbol).Nodup := by
  induction plans generalizing state with
  | nil => exact hnodup
  | cons first rest ih => exact ih (symbols_applyPlan hnodup)

theorem enabled_applied (hnodup : (state.rows.map WatchRow.symbol).Nodup) :
    (plans.foldl applyPlan state).rows.countP WatchRow.enabled + (plans.foldl applyPlan state).headroom =
      state.rows.countP WatchRow.enabled + state.headroom := by
  induction plans generalizing state with
  | nil => rfl
  | cons first rest ih => rw [List.foldl_cons, ih (symbols_applyPlan hnodup), enabled_applyPlan hnodup]

theorem filter_applied (holds : WatchRow → Bool) (hleft : ∀ row, row.symbol ∈ plans.map SessionPlan.symbol → holds row = false) :
    (plans.foldl applyPlan state).rows.filter holds = state.rows.filter holds := by
  induction plans generalizing state with
  | nil => rfl
  | cons first rest ih =>
      rw [List.foldl_cons, ih (fun row hrow => hleft row (List.mem_cons_of_mem _ hrow))]
      exact filter_applyPlan holds (fun row hrow => hleft row (hrow ▸ List.mem_cons_self))

end Applying

/-! ## Retiring -/

section Retiring

variable {keep : List Symbol} {now : Timestamp} {rows : List WatchRow}

theorem retireRow_symbol (row : WatchRow) : (retireRow now row).symbol = row.symbol := by
  unfold retireRow
  split
  next => rfl
  next => split <;> rfl

theorem find_retirePlans (symbol : Symbol) : Keyed.find WatchRow.symbol symbol (retirePlans keep now rows) =
    (Keyed.find WatchRow.symbol symbol rows).map (fun row => if keep.contains row.symbol then row else retireRow now row) := by
  refine Keyed.find_map _ (fun row => ?_)
  split
  · rfl
  · exact retireRow_symbol row

theorem symbols_retirePlans : (retirePlans keep now rows).map WatchRow.symbol = rows.map WatchRow.symbol := by
  unfold retirePlans
  rw [List.map_map]
  refine List.map_congr_left (fun row _ => ?_)
  rw [Function.comp_apply]
  split
  · rfl
  · exact retireRow_symbol row

/-- The enabled rows of ours that a roll retires. -/
def isGivenUp (keep : List Symbol) (row : WatchRow) : Bool :=
  row.enabled && row.ours && row.plan.isSome && !keep.contains row.symbol

theorem enabled_retirePlans :
    (retirePlans keep now rows).countP WatchRow.enabled + rows.countP (isGivenUp keep) = rows.countP WatchRow.enabled := by
  unfold retirePlans
  induction rows with
  | nil => rfl
  | cons row rest ih =>
      rw [List.map_cons, List.countP_cons, List.countP_cons, List.countP_cons]
      have hrow : (if (if keep.contains row.symbol then row else retireRow now row).enabled then 1 else 0) +
          (if isGivenUp keep row then 1 else 0) = (if row.enabled then 1 else 0) := by
        unfold isGivenUp retireRow
        rcases hkeep : keep.contains row.symbol <;> rcases hplan : row.plan with _ | plan <;> rcases hours : row.ours <;>
          simp
      omega

end Retiring

end TradingHarness.Teacher
