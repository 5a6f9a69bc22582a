import Mathlib.Data.List.Basic
import TradingHarness.Library.Dict

set_option autoImplicit false

/-! # Rows laid over a table

Each row goes, in turn, onto the entry of its key: it makes the entry anew from what was there, or leaves
it as it is. What a key's entry comes to depends on the rows of that key alone. -/

namespace Overlays

variable {κ α ρ : Type} [BEq κ] [LawfulBEq κ]

variable (key : ρ → κ) (step : Option α → ρ → Option α) (table : List (κ × α)) (row : ρ)

/-- One row laid over the table; `step` answers `none` where the row leaves the entry as it is. -/
def overlayRow : List (κ × α) :=
  match step (table.lookup (key row)) row with
  | some entry => Dict.set table (key row) entry
  | none => table

def overlay (rows : List ρ) : List (κ × α) :=
  rows.foldl (overlayRow key step) table

/-- What a row makes of one entry. -/
def onEntry (entry : Option α) (row : ρ) : Option α := (step entry row).or entry

variable (key : ρ → κ) (step : Option α → ρ → Option α) (table : List (κ × α)) (rows : List ρ)
  (taken : ρ → Bool) (k : κ)

theorem lookup_overlayRow (k : κ) :
    (overlayRow key step table row).lookup k
      = if key row == k then onEntry step (table.lookup k) row else table.lookup k := by
  unfold overlayRow onEntry
  by_cases hkey : key row == k
  · rw [if_pos hkey, eq_of_beq hkey]
    cases step (table.lookup k) row with
    | none => simp
    | some entry => rw [Dict.lookup_set_self, Option.some_or]
  · rw [if_neg hkey]
    have hne : k ≠ key row := fun h => hkey (by rw [h]; exact beq_self_eq_true _)
    cases step (table.lookup (key row)) row with
    | none => rfl
    | some entry => exact Dict.lookup_set_ne table (key row) entry k hne

/-- **The entry of a key is what the rows of that key, in turn, make of the entry that was there.** -/
theorem lookup_overlay :
    (overlay key step table rows).lookup k
      = (rows.filter (key · == k)).foldl (onEntry step) (table.lookup k) := by
  unfold overlay
  induction rows generalizing table with
  | nil => rfl
  | cons row rest ih =>
      rw [List.foldl_cons, ih, lookup_overlayRow, List.filter_cons]
      split <;> simp_all

/-! ## At most one row of a key -/

/-- The first row of the key. -/
def rowOf (key : ρ → κ) (rows : List ρ) (k : κ) : Option ρ := rows.find? (key · == k)

/-- No two rows are of the key. -/
def AtMostOne (key : ρ → κ) (rows : List ρ) (k : κ) : Prop := (rows.filter (key · == k)).length ≤ 1

instance (key : ρ → κ) (rows : List ρ) (k : κ) : Decidable (AtMostOne key rows k) :=
  inferInstanceAs (Decidable (_ ≤ _))

omit [LawfulBEq κ] in
theorem filter_of_atMostOne {key : ρ → κ} {rows : List ρ} {k : κ} (h : AtMostOne key rows k) :
    rows.filter (key · == k) = (rowOf key rows k).toList := by
  unfold rowOf
  rw [← List.head?_filter]
  unfold AtMostOne at h
  match hrows : rows.filter (key · == k), h with
  | [], _ => rfl
  | [row], _ => rfl

theorem lookup_overlay_one (h : AtMostOne key rows k) :
    (overlay key step table rows).lookup k = (rowOf key rows k).elim (table.lookup k) (onEntry step (table.lookup k)) := by
  rw [lookup_overlay, filter_of_atMostOne h]
  cases rowOf key rows k <;> rfl

theorem lookup_overlay_filter (h : AtMostOne key rows k) :
    (overlay key step table (rows.filter taken)).lookup k
      = ((rowOf key rows k).filter taken).elim (table.lookup k) (onEntry step (table.lookup k)) := by
  rw [lookup_overlay, List.filter_comm, filter_of_atMostOne h]
  cases rowOf key rows k with
  | none => rfl
  | some row =>
      cases htaken : taken row <;> simp [Option.filter, htaken]

omit [LawfulBEq κ] in
theorem overlay_congr {key other : ρ → κ} {step : Option α → ρ → Option α} {rows : List ρ} (h : ∀ row ∈ rows, key row = other row)
    (table : List (κ × α)) : overlay key step table rows = overlay other step table rows := by
  unfold overlay
  refine List.foldl_ext _ _ _ fun table row hmem => ?_
  unfold overlayRow
  rw [h row hmem]

/-! ## Tables changed entry by entry -/

/-- Every entry changed under its key. -/
def mapEntries {β : Type} (f : κ → α → β) (table : List (κ × α)) : List (κ × β) :=
  table.map (fun entry => (entry.1, f entry.1 entry.2))

theorem lookup_mapEntries {β : Type} (f : κ → α → β) (table : List (κ × α)) (k : κ) :
    (mapEntries f table).lookup k = (table.lookup k).map (f k) := by
  unfold mapEntries
  induction table with
  | nil => rfl
  | cons entry rest ih =>
      rw [List.map_cons, Dict.lookup_cons, Dict.lookup_cons, ih]
      by_cases hkey : k == entry.1
      · rw [if_pos hkey, if_pos hkey, eq_of_beq hkey]
        rfl
      · rw [if_neg hkey, if_neg hkey]

end Overlays
