import Mathlib.Data.Int.Notation
import Mathlib.Data.List.Dedup
import Mathlib.Data.List.Induction
import Mathlib.Data.List.Sort

set_option autoImplicit false

/-! # The newest row of each key

A table where rows of one key supersede each other by their time: `SELECT DISTINCT ON (key) … ORDER BY key DESC,
time DESC`. -/

namespace Newest

section Rows

variable {α τ : Type} [LinearOrder τ] (key : α → ℤ) (time : α → τ)

/-- The later of two rows. -/
def later (best : Option α) (row : α) : Option α :=
  match best with
  | none => some row
  | some kept => if time kept < time row then some row else some kept

/-- The last row in time, of several the one that is stored first. -/
def latest (rows : List α) : Option α := rows.foldl (later time) none

/-- The newest row of a key. -/
def newest (place : ℤ) (rows : List α) : Option α := latest time (rows.filter (fun row => decide (key row = place)))

/-- The keys of a table, the last first. -/
def keysDesc (rows : List α) : List ℤ := ((rows.map key).dedup).insertionSort (fun first second => second ≤ first)

/-- `… LIMIT` -/
def recent (limit : ℕ) (rows : List α) : List α := ((keysDesc key rows).take limit).filterMap (fun place => newest key time place rows)

variable {key time} {rows : List α} {place : ℤ}

/-! ## The latest row -/

theorem latest_concat (row : α) : latest time (rows ++ [row]) = later time (latest time rows) row := by
  unfold latest
  rw [List.foldl_append]
  rfl

theorem latest_eq_none : latest time rows = none ↔ rows = [] := by
  induction rows using List.reverseRecOn with
  | nil => simp [latest]
  | append_singleton rest last ih =>
      rw [latest_concat]
      unfold later
      split
      next => simp
      next => split <;> simp

/-- **The latest row is one of the rows, and none is later.** -/
theorem latest_spec {row : α} (h : latest time rows = some row) : row ∈ rows ∧ ∀ other ∈ rows, time other ≤ time row := by
  induction rows using List.reverseRecOn generalizing row with
  | nil => exact absurd h (by simp [latest])
  | append_singleton rest last ih =>
      rw [latest_concat] at h
      unfold later at h
      split at h
      next hnone =>
        rw [latest_eq_none.mp hnone]
        obtain rfl := Option.some.inj h
        exact ⟨List.mem_singleton_self _, fun other hother => le_of_eq (by rw [List.mem_singleton.mp hother])⟩
      next kept hkept =>
        obtain ⟨hmem, hmax⟩ := ih hkept
        split at h
        next hlt =>
          obtain rfl := Option.some.inj h
          refine ⟨List.mem_append_right rest (List.mem_singleton_self _), fun other hother => ?_⟩
          rcases List.mem_append.mp hother with hrest | hlast
          · exact (hmax other hrest).trans hlt.le
          · rw [List.mem_singleton.mp hlast]
        next hge =>
          obtain rfl := Option.some.inj h
          refine ⟨List.mem_append_left _ hmem, fun other hother => ?_⟩
          rcases List.mem_append.mp hother with hrest | hlast
          · exact hmax other hrest
          · rw [List.mem_singleton.mp hlast]
            exact not_lt.mp hge

theorem latest_filter {row : α} {holds : α → Bool} (h : latest time rows = some row) (hholds : holds row = true) :
    latest time (rows.filter holds) = some row := by
  induction rows using List.reverseRecOn generalizing row with
  | nil => exact absurd h (by simp [latest])
  | append_singleton rest last ih =>
      rw [latest_concat] at h
      rw [List.filter_append]
      unfold later at h
      split at h
      next hnone =>
        obtain rfl := Option.some.inj h
        rw [latest_eq_none.mp hnone]
        simp [hholds, latest, later]
      next kept hkept =>
        split at h
        next hlt =>
          obtain rfl := Option.some.inj h
          have hlast : [last].filter holds = [last] := by simp [hholds]
          rw [hlast, latest_concat]
          rcases hrest : latest time (rest.filter holds) with _ | other
          · rfl
          · have hle := (latest_spec hkept).2 other (List.mem_filter.mp (latest_spec hrest).1).1
            exact if_pos (lt_of_le_of_lt hle hlt)
        next hge =>
          obtain rfl := Option.some.inj h
          have hkept := ih hkept hholds
          by_cases hlast : holds last = true
          · rw [List.filter_cons_of_pos hlast, List.filter_nil, latest_concat, hkept]
            exact if_neg hge
          · rw [List.filter_cons_of_neg hlast, List.filter_nil, List.append_nil, hkept]

/-! ## The newest row of a key -/

theorem newest_concat_ne {row : α} (hne : key row ≠ place) : newest key time place (rows ++ [row]) = newest key time place rows := by
  unfold newest
  rw [List.filter_append, List.filter_cons_of_neg (by simpa using hne), List.filter_nil, List.append_nil]

theorem newest_concat_self {row : α} (hlater : ∀ other ∈ rows, key other = key row → time other < time row) :
    newest key time (key row) (rows ++ [row]) = some row := by
  unfold newest
  rw [List.filter_append, List.filter_cons_of_pos (by simp), List.filter_nil, latest_concat]
  unfold later
  split
  next => rfl
  next kept hkept =>
    obtain ⟨hmem, hkey⟩ := List.mem_filter.mp (latest_spec hkept).1
    exact if_pos (hlater kept hmem (of_decide_eq_true hkey))

theorem mem_of_newest {row : α} (h : newest key time place rows = some row) : row ∈ rows ∧ key row = place := by
  obtain ⟨hmem, hkey⟩ := List.mem_filter.mp (latest_spec h).1
  exact ⟨hmem, of_decide_eq_true hkey⟩

theorem newest_isSome {row : α} (hrow : row ∈ rows) : (newest key time (key row) rows).isSome = true := by
  rw [Option.isSome_iff_ne_none]
  unfold newest
  rw [Ne, latest_eq_none, List.filter_eq_nil_iff]
  exact fun hnone => hnone row hrow (decide_eq_true rfl)

/-! ## The keys -/

theorem mem_keysDesc : place ∈ keysDesc key rows ↔ ∃ row ∈ rows, key row = place := by
  unfold keysDesc
  rw [(List.perm_insertionSort _ _).mem_iff, List.mem_dedup, List.mem_map]

theorem keysDesc_eq {places : List ℤ} (hdesc : places.Pairwise (fun first second => second < first))
    (hmem : ∀ place, place ∈ places ↔ ∃ row ∈ rows, key row = place) : keysDesc key rows = places := by
  have hsorted : (keysDesc key rows).Pairwise (fun first second => second ≤ first) := List.pairwise_insertionSort _ _
  have hnodup : (keysDesc key rows).Nodup := (List.perm_insertionSort _ _).nodup_iff.mpr (List.nodup_dedup _)
  have hperm : (keysDesc key rows).Perm places :=
    (List.perm_ext_iff_of_nodup hnodup (hdesc.imp (fun hlt => (Int.ne_of_lt hlt).symm))).mpr
      (fun place => mem_keysDesc.trans (hmem place).symm)
  exact hperm.eq_of_pairwise (fun _ _ _ _ hle hle' => Int.le_antisymm hle' hle) hsorted (hdesc.imp Int.le_of_lt)

end Rows

end Newest
