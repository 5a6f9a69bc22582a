import Mathlib.Data.List.Nodup

set_option autoImplicit false

/-! # Rows with a key

A table as the list of its rows, of which one has a key. An update changes the row of a key and leaves the
others. -/

namespace Keyed

section Rows

variable {κ α : Type} [DecidableEq κ] (key : α → κ)

/-- `UPDATE … WHERE key = …` -/
def update (place : κ) (change : α → α) (rows : List α) : List α :=
  rows.map (fun row => if key row = place then change row else row)

/-- `SELECT … WHERE key = …` -/
def find (place : κ) (rows : List α) : Option α := rows.find? (fun row => decide (key row = place))

variable {key} {place : κ} {change : α → α} {rows : List α}

theorem mem_update {row : α} : row ∈ update key place change rows ↔
    (∃ old ∈ rows, key old = place ∧ change old = row) ∨ (row ∈ rows ∧ key row ≠ place) := by
  unfold update
  rw [List.mem_map]
  constructor
  · rintro ⟨old, hold, rfl⟩
    by_cases hkey : key old = place
    · rw [if_pos hkey]
      exact Or.inl ⟨old, hold, hkey, rfl⟩
    · rw [if_neg hkey]
      exact Or.inr ⟨hold, hkey⟩
  · rintro (⟨old, hold, hkey, rfl⟩ | ⟨hrow, hkey⟩)
    · exact ⟨old, hold, if_pos hkey⟩
    · exact ⟨row, hrow, if_neg hkey⟩

theorem map_update {β : Type} (change : α → α) (read : α → β) (h : ∀ row ∈ rows, key row = place → read (change row) = read row) :
    (update key place change rows).map read = rows.map read := by
  unfold update
  rw [List.map_map]
  refine List.map_congr_left (fun row hrow => ?_)
  rw [Function.comp_apply]
  split
  next hkey => exact h row hrow hkey
  next => rfl

theorem update_of_find_none (change : α → α) (h : find key place rows = none) : update key place change rows = rows := by
  have hkeep : ∀ row ∈ rows, (if key row = place then change row else row) = id row := by
    intro row hrow
    have hne := List.find?_eq_none.mp h row hrow
    exact if_neg (by simpa using hne)
  unfold update
  rw [List.map_congr_left hkeep, List.map_id]

theorem mem_of_find {row : α} (h : find key place rows = some row) : row ∈ rows ∧ key row = place :=
  ⟨List.mem_of_find?_eq_some h, by simpa using List.find?_some h⟩

theorem filter_update (change : α → α) (holds : α → Bool) (hold : ∀ row ∈ rows, key row = place → holds row = false)
    (hnew : ∀ row ∈ rows, key row = place → holds (change row) = false) :
    (update key place change rows).filter holds = rows.filter holds := by
  unfold update
  induction rows with
  | nil => rfl
  | cons row rest ih =>
      rw [List.map_cons, List.filter_cons, List.filter_cons, ih (fun other hother => hold other (List.mem_cons_of_mem row hother))
        (fun other hother => hnew other (List.mem_cons_of_mem row hother))]
      by_cases hrow : key row = place
      · simp [hrow, hold row List.mem_cons_self hrow, hnew row List.mem_cons_self hrow]
      · rw [if_neg hrow]

theorem find_of_mem (hnodup : (rows.map key).Nodup) {row : α} (hrow : row ∈ rows) :
    find key (key row) rows = some row := by
  rcases hfind : find key (key row) rows with _ | other
  · have hnone := List.find?_eq_none.mp hfind row hrow
    simp at hnone
  · obtain ⟨hother, hkey⟩ := mem_of_find hfind
    rw [List.inj_on_of_nodup_map hnodup hother hrow hkey]

theorem find_eq_none : find key place rows = none ↔ place ∉ rows.map key := by
  unfold find
  rw [List.find?_eq_none, List.mem_map]
  simp

theorem find_map (change : α → α) (hkey : ∀ row, key (change row) = key row) :
    find key place (rows.map change) = (find key place rows).map change := by
  unfold find
  rw [List.find?_map]
  congr 2
  funext row
  rw [Function.comp_apply, hkey]

theorem find_filter (holds : α → Bool) (hnodup : (rows.map key).Nodup) :
    find key place (rows.filter holds) = (find key place rows).filter holds := by
  induction rows with
  | nil => rfl
  | cons row rest ih =>
      rw [List.map_cons, List.nodup_cons] at hnodup
      have ih := ih hnodup.2
      by_cases hrow : key row = place
      · have hrest : find key place rest = none := by
          rw [find_eq_none, ← hrow]
          exact hnodup.1
        rw [hrest] at ih
        have hself : find key place (row :: rest) = some row := by simp [find, hrow]
        rw [hself, List.filter_cons]
        by_cases hholds : holds row = true
        · rw [if_pos hholds, Option.filter_some_pos hholds]
          simp [find, hrow]
        · rw [if_neg hholds, ih, Option.filter_some_neg (by simpa using hholds)]
          rfl
      · have hother : find key place (row :: rest) = find key place rest := by simp [find, hrow]
        rw [hother, ← ih, List.filter_cons]
        split
        next => simp [find, hrow]
        next => rfl

theorem find_concat {row : α} (hfresh : find key (key row) rows = none) :
    find key place (rows ++ [row]) = if place = key row then some row else find key place rows := by
  unfold find at hfresh ⊢
  rw [List.find?_append]
  by_cases hplace : place = key row
  · rw [if_pos hplace, hplace, hfresh]
    simp
  · rw [if_neg hplace]
    have hlast : [row].find? (fun row => decide (key row = place)) = none := by
      simp [Ne.symm hplace]
    rw [hlast, Option.or_none]

section

variable (change : α → α)

theorem find_update_self (hkey : ∀ row, key (change row) = key row) :
    find key place (update key place change rows) = (find key place rows).map change := by
  induction rows with
  | nil => rfl
  | cons row rest ih =>
      unfold find update at ih ⊢
      rw [List.map_cons, List.find?_cons, List.find?_cons, ih]
      by_cases hrow : key row = place
      · rw [if_pos hrow, hkey, hrow]
        simp
      · rw [if_neg hrow]
        simp [hrow]

theorem find_update_of_ne {other : κ} (hkey : ∀ row, key (change row) = key row) (hne : other ≠ place) :
    find key other (update key place change rows) = find key other rows := by
  induction rows with
  | nil => rfl
  | cons row rest ih =>
      unfold find update at ih ⊢
      rw [List.map_cons, List.find?_cons, List.find?_cons, ih]
      by_cases hrow : key row = place
      · rw [if_pos hrow, hkey, hrow]
        simp [Ne.symm hne]
      · rw [if_neg hrow]

theorem countP_update (holds : α → Bool) (hnodup : (rows.map key).Nodup) {old : α}
    (hfind : find key place rows = some old) :
    (update key place change rows).countP holds + (holds old).toNat
      = rows.countP holds + (holds (change old)).toNat := by
  induction rows with
  | nil => exact absurd hfind (by simp [find])
  | cons row rest ih =>
      rw [List.map_cons, List.nodup_cons] at hnodup
      by_cases hrow : key row = place
      · have hold : row = old := by simpa [find, hrow] using hfind
        have hrest : find key place rest = none := by
          rw [find_eq_none, ← hrow]
          exact hnodup.1
        have hupdate : update key place change (row :: rest) = change row :: rest := by
          have htail := update_of_find_none change hrest
          unfold update at htail ⊢
          rw [List.map_cons, if_pos hrow, htail]
        rw [hupdate, List.countP_cons, List.countP_cons, hold]
        rcases holds old <;> rcases holds (change old) <;> simp
      · have hrest : find key place rest = some old := by simpa [find, hrow] using hfind
        have hupdate : update key place change (row :: rest) = row :: update key place change rest := by
          unfold update
          rw [List.map_cons, if_neg hrow]
        have hcount := ih hnodup.2 hrest
        rw [hupdate, List.countP_cons, List.countP_cons]
        omega

end

end Rows

end Keyed
