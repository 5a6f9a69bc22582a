import TradingHarness.Library.Dict

set_option autoImplicit false

/-! # Read-through caches

A dictionary of answers read earlier, in front of a source that changes. Only keys without an answer are read
from the source, so an answer is right as long as no change of the source touched what its key reads. -/

namespace ReadThrough

section Cache

variable {κ α : Type} (read : κ → α)

/-- Every answer is the one the source gives. -/
def Fits (cached : List (κ × α)) : Prop := ∀ entry ∈ cached, entry.2 = read entry.1

/-- The keys without an answer. -/
def missing [BEq κ] (keys : List κ) (cached : List (κ × α)) : List κ :=
  keys.filter (fun key => (cached.lookup key).isNone)

variable {read} {cached entries : List (κ × α)} {keys : List κ}

theorem fits_nil : Fits read [] := fun _ hentry => absurd hentry List.not_mem_nil

theorem fits_answers (keys : List κ) : Fits read (keys.map (fun key => (key, read key))) := by
  intro entry hentry
  obtain ⟨key, -, rfl⟩ := List.mem_map.mp hentry
  rfl

theorem Fits.change {read' : κ → α} (h : Fits read cached) (hkeep : ∀ key ∈ cached.map Prod.fst, read' key = read key) :
    Fits read' cached := by
  intro entry hentry
  rw [h entry hentry, hkeep entry.1 (List.mem_map_of_mem hentry)]

theorem Fits.set [BEq κ] (h : Fits read cached) (key : κ) : Fits read (Dict.set cached key (read key)) := by
  induction cached with
  | nil => exact fits_answers [key]
  | cons entry rest ih =>
      have hrest : Fits read rest := fun other hother => h other (List.mem_cons_of_mem entry hother)
      unfold Dict.set
      split
      · intro other hother
        rcases List.mem_cons.mp hother with rfl | hother
        · rfl
        · exact hrest other hother
      · intro other hother
        rcases List.mem_cons.mp hother with rfl | hother
        · exact h _ List.mem_cons_self
        · exact ih hrest other hother

theorem Fits.update [BEq κ] (h : Fits read cached) (hentries : Fits read entries) : Fits read (Dict.update cached entries) := by
  unfold Dict.update
  induction entries generalizing cached with
  | nil => exact h
  | cons entry rest ih =>
      have hset : Fits read (Dict.set cached entry.1 entry.2) := by
        rw [hentries entry List.mem_cons_self]
        exact h.set entry.1
      exact ih hset (fun other hother => hentries other (List.mem_cons_of_mem entry hother))

variable [BEq κ] [LawfulBEq κ]

theorem Fits.lookup (h : Fits read cached) {key : κ} (hkey : key ∈ cached.map Prod.fst) :
    cached.lookup key = some (read key) := by
  rcases hlookup : cached.lookup key with _ | value
  · exact absurd hkey ((Dict.lookup_eq_none cached key).mp hlookup)
  · exact congrArg some (h (key, value) (Dict.mem_of_lookup cached key value hlookup))

theorem mem_keys_set_of_mem {key : κ} (place : κ) (value : α) (hkey : key = place ∨ key ∈ cached.map Prod.fst) :
    key ∈ (Dict.set cached place value).map Prod.fst := by
  by_contra hnone
  rw [← Dict.lookup_eq_none, Dict.lookup_set] at hnone
  by_cases hplace : key = place
  · simp [hplace] at hnone
  · rw [if_neg (by simpa using hplace), Dict.lookup_eq_none] at hnone
    exact hkey.elim hplace hnone

theorem mem_keys_update {key : κ} (hkey : key ∈ cached.map Prod.fst ∨ key ∈ entries.map Prod.fst) :
    key ∈ (Dict.update cached entries).map Prod.fst := by
  unfold Dict.update
  induction entries generalizing cached with
  | nil => simpa using hkey
  | cons entry rest ih =>
      refine ih ?_
      rcases hkey with hcached | hentry
      · exact Or.inl (mem_keys_set_of_mem entry.1 entry.2 (Or.inr hcached))
      · rcases List.mem_cons.mp hentry with hfirst | hrest
        · exact Or.inl (mem_keys_set_of_mem entry.1 entry.2 (Or.inl hfirst))
        · exact Or.inr hrest

/-- **Once the missing keys are read, each key has the answer that the source gives.** -/
theorem lookup_filled (h : Fits read cached) {asked : List κ} (hasked : ∀ key ∈ missing keys cached, key ∈ asked) {key : κ}
    (hkey : key ∈ keys) :
    (Dict.update cached (asked.map (fun key => (key, read key)))).lookup key = some (read key) := by
  refine (h.update (fits_answers asked)).lookup (mem_keys_update ?_)
  rcases hlookup : cached.lookup key with _ | value
  · have hmissing : key ∈ missing keys cached := List.mem_filter.mpr ⟨hkey, by rw [hlookup]; rfl⟩
    exact Or.inr (List.mem_map.mpr ⟨(key, read key), List.mem_map_of_mem (hasked key hmissing), rfl⟩)
  · exact Or.inl (List.mem_map.mpr ⟨(key, value), Dict.mem_of_lookup cached key value hlookup, rfl⟩)

end Cache

end ReadThrough
