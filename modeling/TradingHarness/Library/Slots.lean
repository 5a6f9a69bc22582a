import Mathlib.Data.List.Dedup
import Mathlib.Data.List.Induction
import TradingHarness.Library.Dict

set_option autoImplicit false

/-! # Answers matched to their slots

Answers to a list of requests, matched by a position that only moves forward. A request that was made more
than once has the position of its last slot, so what can be matched is the list of requests in the order of
their last slots. -/

namespace Slots

variable {α ρ : Type}

section LastSlots

variable [DecidableEq α]

/-! ## The last slot of a request -/

/-- The position of the last occurrence, where there is one. -/
def lastSlot : List α → α → ℕ
  | [], _ => 0
  | _ :: rest, item => if item ∈ rest then lastSlot rest item + 1 else 0

theorem lastSlot_concat (requests : List α) (last item : α) :
    lastSlot (requests ++ [last]) item
      = if item = last then requests.length else lastSlot requests item := by
  induction requests with
  | nil => simp [lastSlot]
  | cons first rest ih =>
      simp only [List.cons_append, lastSlot, List.mem_append, List.mem_singleton, List.length_cons, ih]
      by_cases hlast : item = last
      · simp [hlast]
      · simp [hlast]

/-- The dictionary of the positions, in which a later slot overwrites an earlier one. -/
def positions (requests : List α) : List (α × ℕ) := Dict.update [] requests.zipIdx

/-- What the dictionary gives for an item. -/
def slot (requests : List α) (item : α) : Option ℕ := (positions requests).lookup item

theorem slot_eq (requests : List α) (item : α) :
    slot requests item
      = if item ∈ requests then some (lastSlot requests item) else none := by
  induction requests using List.reverseRecOn with
  | nil => simp [slot, positions, Dict.update]
  | append_singleton requests last ih =>
      have hset : positions (requests ++ [last]) = Dict.set (positions requests) last requests.length := by
        simp [positions, Dict.update, List.zipIdx_append, List.foldl_append]
      rw [slot, hset, Dict.lookup_set, ← slot, ih, lastSlot_concat]
      by_cases hlast : item = last
      · simp [hlast]
      · simp [hlast]

/-! ## The requests in the order of their last slots -/

end LastSlots

/-- Along the list the value strictly grows. -/
def Rising (value : α → ℕ) (items : List α) : Prop := items.Pairwise (fun first second => value first < value second)

theorem rising_dedup [DecidableEq α] (requests : List α) : Rising (lastSlot requests) requests.dedup := by
  induction requests with
  | nil => simp [Rising]
  | cons first rest ih =>
      have hrest : Rising (lastSlot (first :: rest)) rest.dedup := by
        refine List.Pairwise.imp_of_mem ?_ ih
        intro one other hone hother hlt
        rw [List.mem_dedup] at hone hother
        simp only [lastSlot, if_pos hone, if_pos hother]
        omega
      by_cases hmem : first ∈ rest
      · rw [List.dedup_cons_of_mem hmem]
        exact hrest
      · rw [List.dedup_cons_of_notMem hmem]
        refine List.pairwise_cons.mpr ⟨?_, hrest⟩
        intro other hother
        rw [List.mem_dedup] at hother
        simp only [lastSlot, if_neg hmem, if_pos hother]
        omega

theorem sublist_of_rising (value : α → ℕ) {some all : List α} (hall : Rising value all)
    (hsome : Rising value some) (hsub : some ⊆ all) : some.Sublist all := by
  induction all generalizing some with
  | nil => simp [List.eq_nil_of_subset_nil hsub]
  | cons first rest ih =>
      obtain ⟨hfirst, hrest⟩ := List.pairwise_cons.mp hall
      cases some with
      | nil => exact List.nil_sublist _
      | cons one others =>
          obtain ⟨hone, hothers⟩ := List.pairwise_cons.mp hsome
          by_cases hsame : one = first
          · -- the first items agree, and no later one is the first again
            subst hsame
            refine List.Sublist.cons_cons one (ih hrest hothers ?_)
            intro item hitem
            refine List.mem_of_ne_of_mem ?_ (hsub (List.mem_cons_of_mem one hitem))
            rintro rfl
            exact Nat.lt_irrefl _ (hone _ hitem)
          · refine List.Sublist.cons first (ih hrest hsome ?_)
            have hmem := List.mem_of_ne_of_mem hsame (hsub List.mem_cons_self)
            intro item hitem
            refine List.mem_of_ne_of_mem ?_ (hsub hitem)
            rintro rfl
            rcases List.mem_cons.mp hitem with hequal | hlater
            · exact hsame hequal.symm
            · exact Nat.lt_asymm (hfirst _ hmem) (hone _ hlater)

theorem sublist_dedup_iff [DecidableEq α] (requests items : List α) :
    items.Sublist requests.dedup ↔ items ⊆ requests ∧ Rising (lastSlot requests) items := by
  constructor
  · intro hsub
    exact ⟨fun item hitem => List.mem_dedup.mp (hsub.subset hitem), (rising_dedup requests).sublist hsub⟩
  · rintro ⟨hmem, hrising⟩
    exact sublist_of_rising _ (rising_dedup requests) hrising
      (fun item hitem => List.mem_dedup.mpr (hmem hitem))

/-! ## Keeping what is still to come -/

/-- The answers kept: those of a request whose position is not passed yet. -/
def keep (position : α → Option ℕ) (key : ρ → α) : ℕ → List ρ → List ρ
  | _, [] => []
  | following, row :: rows =>
    match position (key row) with
    | none => keep position key following rows
    | some index =>
      if index < following then keep position key following rows
      else row :: keep position key (index + 1) rows

variable (position : α → Option ℕ) (key : ρ → α)

section

variable (following : ℕ)

theorem keep_sublist (rows : List ρ) : (keep position key following rows).Sublist rows := by
  induction rows generalizing following with
  | nil => exact List.Sublist.slnil
  | cons row rows ih =>
      rw [keep]
      split
      · exact (ih following).cons row
      · split
        · exact (ih following).cons row
        · exact (ih _).cons_cons row

theorem keep_rising {position : α → Option ℕ} {slot : α → ℕ} (rows : List ρ)
    (hslot : ∀ item index, position item = some index → slot item = index) :
    (∀ row ∈ keep position key following rows, following ≤ slot (key row) ∧ (position (key row)).isSome)
      ∧ Rising slot ((keep position key following rows).map key) := by
  induction rows generalizing following with
  | nil => simp [keep, Rising]
  | cons row rows ih =>
      rw [keep]
      split
      · exact ih following
      · next index hindex =>
          split
          · exact ih following
          · next hcome =>
              obtain ⟨hmem, hrising⟩ := ih (index + 1)
              have hrow := hslot _ _ hindex
              constructor
              · intro other hother
                rcases List.mem_cons.mp hother with rfl | hlater
                · exact ⟨by omega, by rw [hindex]; rfl⟩
                · obtain ⟨hle, hsome⟩ := hmem other hlater
                  exact ⟨by omega, hsome⟩
              · refine List.pairwise_cons.mpr ⟨?_, hrising⟩
                intro item hitem
                obtain ⟨other, hother, rfl⟩ := List.mem_map.mp hitem
                have hle := (hmem other hother).1
                omega

theorem keep_eq_self {position : α → Option ℕ} {key : ρ → α} {slot : α → ℕ} (rows : List ρ)
    (hslot : ∀ row ∈ rows, position (key row) = some (slot (key row)))
    (hcome : ∀ row ∈ rows, following ≤ slot (key row)) (hrising : Rising slot (rows.map key)) :
    keep position key following rows = rows := by
  induction rows generalizing following with
  | nil => rfl
  | cons row rows ih =>
      obtain ⟨hlater, hrest⟩ := List.pairwise_cons.mp hrising
      have hrow := hcome row List.mem_cons_self
      rw [keep, hslot row List.mem_cons_self]
      simp only [if_neg (Nat.not_lt.mpr hrow)]
      rw [ih _ (fun other hother => hslot other (List.mem_cons_of_mem row hother)) _ hrest]
      intro other hother
      exact hlater _ (List.mem_map_of_mem hother)

end

/-- **What is kept are answers in the order of the last slots of their requests, each request once.** -/
theorem keep_positions_sublist [DecidableEq α] (requests : List α) (key : ρ → α) (rows : List ρ) :
    ((keep (slot requests) key 0 rows).map key).Sublist requests.dedup := by
  have hslot : ∀ item index, slot requests item = some index → lastSlot requests item = index := by
    intro item index hindex
    rw [slot_eq] at hindex
    split at hindex
    · exact Option.some.inj hindex
    · cases hindex
  obtain ⟨hmem, hrising⟩ := keep_rising key 0 rows hslot
  refine (sublist_dedup_iff _ _).mpr ⟨?_, hrising⟩
  intro item hitem
  obtain ⟨row, hrow, rfl⟩ := List.mem_map.mp hitem
  have hsome := (hmem row hrow).2
  rw [slot_eq] at hsome
  by_contra habsent
  rw [if_neg habsent] at hsome
  cases hsome

/-- **Every answer is kept exactly when the answers are in the order of the last slots of their requests.** -/
theorem keep_positions_eq_self_iff [DecidableEq α] (requests : List α) (key : ρ → α) (rows : List ρ) :
    keep (slot requests) key 0 rows = rows ↔ (rows.map key).Sublist requests.dedup := by
  constructor
  · intro hself
    rw [← hself]
    exact keep_positions_sublist requests key rows
  · intro hsub
    obtain ⟨hmem, hrising⟩ := (sublist_dedup_iff _ _).mp hsub
    refine keep_eq_self 0 rows ?_ (fun _ _ => Nat.zero_le _) hrising
    intro row hrow
    rw [slot_eq, if_pos (hmem (List.mem_map_of_mem hrow))]

end Slots
