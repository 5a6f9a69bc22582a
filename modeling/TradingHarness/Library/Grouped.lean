import Mathlib.Data.List.Sigma
import Mathlib.Data.List.Perm.Basic
import Mathlib.Data.List.Nodup

set_option autoImplicit false

/-! # Grouped items

Items put into the entries of their keys, one after the other: what stands in an entry, and that the groups hold every item once. -/

namespace Grouped

variable {ι κ α β : Type} [DecidableEq κ]

variable (key : ι → κ) (step : α → ι → α) (start : α) (table : List (Σ _ : κ, α)) (items : List ι)

/-- The items of one key. -/
def group (k : κ) (items : List ι) : List ι := items.filter (fun item => decide (key item = k))

/-- Put every item into the entry of its key, a new entry where there is none. -/
def collect : List (Σ _ : κ, α) :=
  items.foldl (fun t item => t.kinsert (key item) (step ((t.dlookup (key item)).getD start) item)) table

section Collect

variable (key : ι → κ) (step : α → ι → α) (start : α)

theorem dlookup_collect_eq_foldl (k : κ) :
    (collect key step start table items).dlookup k =
      (group key k items).foldl (fun found item => some (step (found.getD start) item)) (table.dlookup k) := by
  induction items generalizing table with
  | nil => rfl
  | cons item rest ih =>
      have hrest := ih (table.kinsert (key item) (step ((table.dlookup (key item)).getD start) item))
      rw [collect, List.foldl_cons]
      refine hrest.trans ?_
      unfold group
      by_cases hkey : key item = k
      · rw [List.filter_cons_of_pos (by simpa using hkey), List.foldl_cons, ← hkey, List.dlookup_kinsert]
      · rw [List.filter_cons_of_neg (by simpa using hkey), List.dlookup_kinsert_ne (Ne.symm hkey)]

omit [DecidableEq κ] in
theorem foldl_some (found : α) (items : List ι) :
    items.foldl (fun found item => some (step (found.getD start) item)) (some found) = some (items.foldl step found) := by
  induction items generalizing found with
  | nil => rfl
  | cons item rest ih => exact ih (step found item)

theorem dlookup_collect (k : κ) :
    (collect key step start [] items).dlookup k =
      if group key k items = [] then none else some ((group key k items).foldl step start) := by
  rw [dlookup_collect_eq_foldl, List.dlookup_nil]
  rcases group key k items with _ | ⟨item, rest⟩
  · rfl
  · rw [if_neg (by simp), List.foldl_cons, List.foldl_cons]
    exact foldl_some step start _ rest

theorem nodupKeys_collect {table : List (Σ _ : κ, α)} (h : table.NodupKeys) (items : List ι) :
    (collect key step start table items).NodupKeys := by
  induction items generalizing table with
  | nil => exact h
  | cons item rest ih => exact ih (List.kinsert_nodupKeys _ _ h)

end Collect

theorem flatMap_group_perm (key : ι → κ) {keys : List κ} (items : List ι) (hnodup : keys.Nodup) (hcover : ∀ item ∈ items, key item ∈ keys) :
    (keys.flatMap fun k => group key k items).Perm items := by
  induction keys generalizing items with
  | nil =>
      have hnil : items = [] := List.eq_nil_iff_forall_not_mem.mpr fun item hitem => by simpa using hcover item hitem
      rw [hnil]
      rfl
  | cons k rest ih =>
      obtain ⟨hfresh, hrest⟩ := List.nodup_cons.mp hnodup
      have hothers : (rest.flatMap fun k' => group key k' items) =
          rest.flatMap fun k' => group key k' (items.filter fun item => !decide (key item = k)) := by
        refine List.flatMap_congr fun k' hk' => ?_
        unfold group
        rw [List.filter_filter]
        refine List.filter_congr fun item _ => ?_
        by_cases hkey : key item = k'
        · have hne : key item ≠ k := fun h => hfresh (h ▸ hkey ▸ hk')
          simp [hkey, hkey ▸ hne]
        · simp [hkey]
      rw [List.flatMap_cons, hothers]
      have hperm := ih (items.filter fun item => !decide (key item = k)) hrest fun item hitem => by
        obtain ⟨hmem, hne⟩ := List.mem_filter.mp hitem
        exact (List.mem_cons.mp (hcover item hmem)).resolve_left (by simpa using hne)
      exact (hperm.append_left _).trans (List.filter_append_perm _ items)

theorem flatMap_group_filterMap_perm (key : ι → κ) (read : ι → Option β) {keys : List κ} (items : List ι) (hnodup : keys.Nodup)
    (hcover : ∀ item ∈ items, key item ∈ keys) :
    (keys.flatMap fun k => (group key k items).filterMap read).Perm (items.filterMap read) := by
  have h := (flatMap_group_perm key items hnodup hcover).filterMap read
  rwa [List.filterMap_flatMap] at h

end Grouped
