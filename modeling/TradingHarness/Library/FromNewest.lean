import Mathlib.Data.List.Range
import Mathlib.Data.Nat.Init
import Mathlib.Order.Basic

set_option autoImplicit false

/-! # Pages counted from the newest end

A log that only grows is read in pages, each addressed by its distance from the newest entry of that moment,
until a page is short. Entries that arrive between two requests move every later page towards the new end.
What is read is the old log exactly once when nothing arrives before the last request, or when so much arrives
that the pages past the old log are filled with new entries alone. -/

namespace FromNewest

variable (size : ℕ) (length : ℕ → ℕ)

/-- Where the page of a request ends: the request passes over the newest entries, one page for every request
    before. -/
def upper (request : ℕ) : ℕ := length request - size * request

def lower (request : ℕ) : ℕ := upper size length request - size

/-- The positions of the page. -/
def window (request : ℕ) : List ℕ :=
  List.range' (lower size length request) (upper size length request - lower size length request)

/-- The positions of the pages from a request on, the older ones first, up to a short page. -/
def asked : ℕ → ℕ → List ℕ
  | 0, _ => []
  | remaining + 1, request =>
    if (window size length request).length < size then window size length request
    else asked remaining (request + 1) ++ window size length request

/-- How many requests are made from one on. -/
def requestCount : ℕ → ℕ → ℕ
  | 0, _ => 0
  | remaining + 1, request =>
    if (window size length request).length < size then 1
    else requestCount remaining (request + 1) + 1

/-! ## Windows -/

theorem mem_window (request position : ℕ) :
    position ∈ window size length request
      ↔ lower size length request ≤ position ∧ position < upper size length request := by
  have hle : lower size length request ≤ upper size length request := Nat.sub_le _ _
  rw [window, List.mem_range'_1]
  omega

theorem length_window_lt (request : ℕ) :
    (window size length request).length < size ↔ upper size length request < size := by
  rw [window, List.length_range', lower]
  omega

/-- The positions before the old end. -/
def old (count : ℕ) (positions : List ℕ) : List ℕ := positions.filter (fun position => position < count)

theorem old_append (count : ℕ) (first second : List ℕ) :
    old count (first ++ second) = old count first ++ old count second := List.filter_append ..

theorem old_eq_self {count : ℕ} {positions : List ℕ} (h : ∀ position ∈ positions, position < count) :
    old count positions = positions :=
  List.filter_eq_self.mpr (fun position hposition => decide_eq_true (h position hposition))

theorem old_eq_nil {count : ℕ} {positions : List ℕ} (h : ∀ position ∈ positions, count ≤ position) :
    old count positions = [] :=
  List.filter_eq_nil_iff.mpr (fun position hposition => by simpa using h position hposition)

theorem mem_old {count : ℕ} {positions : List ℕ} {position : ℕ} :
    position ∈ old count positions ↔ position ∈ positions ∧ position < count := by
  simp [old]

/-! ## Quiet requests -/

variable {size length}

variable {request : ℕ}

section

variable (hquiet : length request = length 0)

include hquiet

theorem range_append_window (hfull : ¬ upper size length request < size) :
    List.range (length 0 - size * (request + 1)) ++ window size length request
      = List.range (length 0 - size * request) := by
  have hupper : upper size length request = length 0 - size * request := by rw [upper, hquiet]
  have hlower : lower size length request = length 0 - size * (request + 1) := by
    rw [lower, hupper, Nat.mul_succ, Nat.sub_sub]
  rw [window, hupper, hlower, List.range_eq_range', List.range_eq_range']
  have happend := List.range'_append_1 (s := 0) (m := length 0 - size * (request + 1))
    (n := length 0 - size * request - (length 0 - size * (request + 1)))
  rw [Nat.zero_add] at happend
  rw [happend]
  congr 1
  rw [hupper] at hfull
  rw [Nat.mul_succ]
  omega

theorem old_window_of_quiet :
    old (length 0) (window size length request) = window size length request := by
  refine old_eq_self ?_
  intro position hposition
  obtain ⟨-, hlt⟩ := (mem_window size length request position).mp hposition
  rw [upper, hquiet] at hlt
  omega

theorem old_asked_succ_iff {remaining : ℕ}
    (hfull : ¬ upper size length request < size) :
    old (length 0) (asked size length (remaining + 1) request) = List.range (length 0 - size * request)
      ↔ old (length 0) (asked size length remaining (request + 1))
        = List.range (length 0 - size * (request + 1)) := by
  rw [asked, if_neg (by rwa [length_window_lt]), old_append, old_window_of_quiet hquiet,
    ← range_append_window hquiet hfull]
  exact List.append_left_inj _

theorem old_asked_of_short {remaining : ℕ}
    (hshort : upper size length request < size) :
    old (length 0) (asked size length (remaining + 1) request) = List.range (length 0 - size * request) := by
  rw [asked, if_pos (by rwa [length_window_lt]), old_window_of_quiet hquiet, window, lower,
    Nat.sub_eq_zero_of_le hshort.le, Nat.sub_zero, upper, hquiet, List.range_eq_range']

theorem not_short_of_quiet (hfull : size * (request + 1) ≤ length 0) : ¬ upper size length request < size := by
  rw [Nat.mul_succ] at hfull
  rw [upper, hquiet]
  omega

end

/-! ## Flooded requests -/

/-- From a request on, every page is past the old log. -/
def Flooded (size : ℕ) (length : ℕ → ℕ) (request most : ℕ) : Prop :=
  ∀ later, request ≤ later → later < most → length 0 + size * (later + 1) ≤ length later

variable {most : ℕ}

theorem le_lower_of_flooded (h : Flooded size length request most) (hlt : request < most) :
    length 0 ≤ lower size length request := by
  have hlength := h request le_rfl hlt
  rw [Nat.mul_succ] at hlength
  rw [lower, upper]
  omega

theorem old_asked_of_flooded (remaining request : ℕ) (h : Flooded size length request (request + remaining)) :
    old (length 0) (asked size length remaining request) = [] := by
  induction remaining generalizing request with
  | zero => rfl
  | succ remaining ih =>
      have hlower := le_lower_of_flooded h (by omega)
      have hwindow : old (length 0) (window size length request) = [] := by
        refine old_eq_nil ?_
        intro position hposition
        exact hlower.trans ((mem_window size length request position).mp hposition).1
      rw [asked]
      split
      · exact hwindow
      · rw [old_append, hwindow, List.append_nil]
        refine ih (request + 1) (fun later hle hlt => h later (by omega) (by omega))

theorem requestCount_of_flooded (hold : size ≤ length 0) (remaining request : ℕ)
    (h : Flooded size length request (request + remaining)) :
    requestCount size length remaining request = remaining := by
  induction remaining generalizing request with
  | zero => rfl
  | succ remaining ih =>
      have hlower := le_lower_of_flooded h (by omega)
      have hfull : ¬ upper size length request < size := by
        rw [lower] at hlower
        omega
      rw [requestCount, if_neg (by rwa [length_window_lt]),
        ih (request + 1) (fun later hle hlt => h later (by omega) (by omega))]

section

variable (hgrows : ∀ request, length request ≤ length (request + 1))

include hgrows

/-- Requests that read nothing of the newest old page, from one on that ends past the old log, are flooded:
    a page that reached below the old end would read the last old entry. -/
theorem flooded_of_spared (hold : size ≤ length 0)
    (hsize : 0 < size) (remaining request : ℕ) (hupper : length 0 ≤ upper size length request)
    (h : ∀ position ∈ old (length 0) (asked size length remaining request), position < length 0 - size) :
    Flooded size length request (request + remaining) := by
  induction remaining generalizing request with
  | zero =>
      intro later hle hlt
      omega
  | succ remaining ih =>
      have hlast : length 0 - 1 ∉ window size length request := by
        intro hmem
        have hread : length 0 - 1 ∈ asked size length (remaining + 1) request := by
          rw [asked]
          split
          · exact hmem
          · exact List.mem_append_right _ hmem
        have hlt := h _ (mem_old.mpr ⟨hread, by omega⟩)
        omega
      have hlower : length 0 ≤ lower size length request := by
        rw [mem_window] at hlast
        omega
      have hfull : ¬ upper size length request < size := by
        rw [lower] at hlower
        omega
      -- the next page ends where this one begins, or above
      have hnext : lower size length request ≤ upper size length (request + 1) := by
        have := hgrows request
        rw [lower, upper, upper, Nat.mul_succ]
        omega
      have hrest := ih (request + 1) (hlower.trans hnext) (by
        intro position hposition
        refine h position ?_
        rw [asked, if_neg (by rwa [length_window_lt]), old_append]
        exact List.mem_append_left _ hposition)
      intro later hle hlt
      rcases hle.eq_or_lt with rfl | hlater
      · rw [lower, upper] at hlower
        rw [Nat.mul_succ]
        omega
      · exact hrest later hlater (by omega)

/-- A request after full quiet pages that reads what is left of the old log is quiet, or flooded with nothing
    left to read. -/
theorem quiet_or_flooded (hsize : 0 < size)
    {remaining : ℕ} (hpast : length 0 ≤ length request) (hbefore : size * request ≤ length 0)
    (hrequest : 0 < request) (hremaining : 0 < remaining)
    (h : old (length 0) (asked size length remaining request) = List.range (length 0 - size * request)) :
    length request = length 0
      ∨ size * request = length 0 ∧ Flooded size length request (request + remaining) := by
  have hpage : size ≤ size * request := Nat.le_mul_of_pos_right size hrequest
  rcases hpast.eq_or_lt with hquiet | harrived
  · exact Or.inl hquiet.symm
  right
  have hspared : ∀ position ∈ old (length 0) (asked size length remaining request),
      position < length 0 - size * request := by
    intro position hposition
    rw [h, List.mem_range] at hposition
    exact hposition
  -- the newest entry of this page is past what is left, so it is a new one
  have hupper : length 0 ≤ upper size length request := by
    by_contra hless
    have hmem : upper size length request - 1 ∈ asked size length remaining request := by
      obtain ⟨rest, rfl⟩ := Nat.exists_eq_succ_of_ne_zero hremaining.ne'
      have hnewest : upper size length request - 1 ∈ window size length request := by
        rw [mem_window, lower, upper]
        omega
      rw [asked]
      split
      · exact hnewest
      · exact List.mem_append_right _ hnewest
    have hlt := hspared _ (mem_old.mpr ⟨hmem, by omega⟩)
    rw [upper] at hlt
    omega
  have hflooded := flooded_of_spared hgrows (hpage.trans hbefore) hsize remaining request hupper
    (fun position hposition => (hspared position hposition).trans_le (by omega))
  refine ⟨?_, hflooded⟩
  rw [old_asked_of_flooded remaining request hflooded] at h
  have hnone : length 0 - size * request = 0 := by
    by_contra hsome
    have hmem : 0 ∈ List.range (length 0 - size * request) := List.mem_range.mpr (Nat.pos_of_ne_zero hsome)
    rw [← h] at hmem
    simp at hmem
  omega

end

/-! ## The old log exactly once -/

/-- The last request that is made when nothing arrives. -/
def lastRequest (size count most : ℕ) : ℕ := min (most - 1) (count / size)

/-- Nothing arrives before the last request. -/
def Quiet (size : ℕ) (length : ℕ → ℕ) (most : ℕ) : Prop :=
  length (lastRequest size (length 0) most) = length 0

/-- The old log ends with a full page, nothing arrives before that page is read, and from then on every page is
    filled with new entries. -/
def FloodedAfter (size : ℕ) (length : ℕ → ℕ) (most : ℕ) : Prop :=
  ∃ request, 0 < request ∧ request < most ∧ size * request = length 0 ∧ length (request - 1) = length 0
    ∧ Flooded size length request most

section

variable (hgrows : ∀ request, length request ≤ length (request + 1))

include hgrows

theorem length_le {first second : ℕ}
    (h : first ≤ second) : length first ≤ length second := by
  induction h with
  | refl => exact le_rfl
  | step _ ih => exact ih.trans (hgrows _)

theorem quiet_before {first second : ℕ}
    (hle : first ≤ second) (h : length second = length 0) : length first = length 0 :=
  le_antisymm ((length_le hgrows hle).trans_eq h) (length_le hgrows (Nat.zero_le first))

end

/-- Quiet requests pass the reading on: all of the old log is read from the first request on exactly when the
    rest of it is from a later one on. -/
theorem old_asked_iff_later (hmost : request ≤ most) (hfull : size * request ≤ length 0)
    (hquiet : ∀ earlier, earlier < request → length earlier = length 0) :
    old (length 0) (asked size length most 0) = List.range (length 0)
      ↔ old (length 0) (asked size length (most - request) request)
        = List.range (length 0 - size * request) := by
  induction request with
  | zero => simp
  | succ request ih =>
      have hless : size * request ≤ length 0 := (Nat.mul_le_mul_left size (Nat.le_succ request)).trans hfull
      rw [ih (by omega) hless (fun earlier hlt => hquiet earlier (by omega)),
        show most - request = most - (request + 1) + 1 by omega]
      have hthis := hquiet request (Nat.lt_succ_self request)
      exact old_asked_succ_iff hthis (not_short_of_quiet hthis hfull)

theorem requestCount_later (hmost : request ≤ most) (hfull : size * request ≤ length 0)
    (hquiet : ∀ earlier, earlier < request → length earlier = length 0) :
    requestCount size length most 0 = request + requestCount size length (most - request) request := by
  induction request with
  | zero => simp
  | succ request ih =>
      have hless : size * request ≤ length 0 := (Nat.mul_le_mul_left size (Nat.le_succ request)).trans hfull
      have hthis := not_short_of_quiet (hquiet request (Nat.lt_succ_self request)) hfull
      rw [ih (by omega) hless (fun earlier hlt => hquiet earlier (by omega)),
        show most - request = most - (request + 1) + 1 by omega, requestCount,
        if_neg (by rwa [length_window_lt])]
      omega

theorem le_lastRequest (hsize : 0 < size) {count : ℕ}
    (h : request + 1 ≤ lastRequest size count most) : request + 1 < most ∧ size * (request + 1) ≤ count := by
  rw [lastRequest, Nat.le_min, Nat.le_div_iff_mul_le hsize, Nat.mul_comm] at h
  omega

theorem size_mul_lastRequest_le (hsize : 0 < size) (count most : ℕ) :
    size * lastRequest size count most ≤ count := by
  rw [Nat.mul_comm, ← Nat.le_div_iff_mul_le hsize]
  exact min_le_right _ _

theorem lastRequest_eq_of_full (hsize : 0 < size) (hquiet : Quiet size length most)
    (hfull : ¬ upper size length (lastRequest size (length 0) most) < size) :
    lastRequest size (length 0) most = most - 1 := by
  rcases Nat.lt_or_ge (length 0 / size) (most - 1) with hless | hmore
  · rw [upper, hquiet, lastRequest, min_eq_right hless.le] at hfull
    have hmod := Nat.mod_lt (length 0) hsize
    have hsplit := Nat.div_add_mod (length 0) size
    omega
  · exact min_eq_left hmore

section

variable (hgrows : ∀ request, length request ≤ length (request + 1))

include hgrows

theorem old_asked_of_quiet (hsize : 0 < size)
    (hmost : length 0 ≤ size * most) (hquiet : Quiet size length most) :
    old (length 0) (asked size length most 0) = List.range (length 0) := by
  rcases Nat.eq_zero_or_pos most with rfl | hpos
  · rw [Nat.mul_zero, Nat.le_zero] at hmost
    rw [hmost]
    rfl
  have hlast : lastRequest size (length 0) most ≤ most - 1 := min_le_left _ _
  have hearlier : ∀ earlier, earlier < lastRequest size (length 0) most → length earlier = length 0 :=
    fun earlier hlt => quiet_before hgrows hlt.le hquiet
  rw [old_asked_iff_later (by omega) (size_mul_lastRequest_le hsize _ _) hearlier,
    show most - lastRequest size (length 0) most = most - 1 - lastRequest size (length 0) most + 1 by omega]
  by_cases hshort : upper size length (lastRequest size (length 0) most) < size
  · exact old_asked_of_short hquiet hshort
  · rw [old_asked_succ_iff hquiet hshort, lastRequest_eq_of_full hsize hquiet hshort, Nat.sub_self,
      Nat.sub_add_cancel hpos, Nat.sub_eq_zero_of_le hmost]
    rfl

theorem requestCount_of_quiet (hsize : 0 < size)
    (hpos : 0 < most) (hquiet : Quiet size length most) :
    requestCount size length most 0 = lastRequest size (length 0) most + 1 := by
  have hlast : lastRequest size (length 0) most ≤ most - 1 := min_le_left _ _
  have hearlier : ∀ earlier, earlier < lastRequest size (length 0) most → length earlier = length 0 :=
    fun earlier hlt => quiet_before hgrows hlt.le hquiet
  rw [requestCount_later (by omega) (size_mul_lastRequest_le hsize _ _) hearlier,
    show most - lastRequest size (length 0) most = most - 1 - lastRequest size (length 0) most + 1 by omega,
    requestCount]
  by_cases hshort : upper size length (lastRequest size (length 0) most) < size
  · rw [if_pos (by rwa [length_window_lt])]
  · rw [if_neg (by rwa [length_window_lt]), lastRequest_eq_of_full hsize hquiet hshort, Nat.sub_self,
      requestCount]

theorem requestCount_of_floodedAfter (h : FloodedAfter size length most) :
    requestCount size length most 0 = most := by
  obtain ⟨request, hpos, hlt, hends, hquiet, hflooded⟩ := h
  have hold : size ≤ length 0 := (Nat.le_mul_of_pos_right size hpos).trans hends.le
  rw [requestCount_later hlt.le hends.le (fun earlier h => quiet_before hgrows (by omega) hquiet),
    requestCount_of_flooded hold _ request (by rwa [Nat.add_sub_cancel' hlt.le]),
    Nat.add_sub_cancel' hlt.le]

/-- **What was there at the first request is read exactly once, in its order, exactly when nothing arrives
    before the last request, or everything after the old log's last page is new.** -/
theorem old_asked_iff (hsize : 0 < size)
    (hmost : length 0 ≤ size * most) :
    old (length 0) (asked size length most 0) = List.range (length 0)
      ↔ Quiet size length most ∨ FloodedAfter size length most := by
  constructor
  · intro hall
    have hreached : ∀ request, request ≤ lastRequest size (length 0) most →
        length request = length 0 ∨ FloodedAfter size length most := by
      intro request
      induction request with
      | zero => exact fun _ => Or.inl rfl
      | succ request ih =>
          intro hle
          rcases ih (by omega) with hquiet | hflooded
          · obtain ⟨hlater, hbefore⟩ := le_lastRequest hsize hle
            have hrest := (old_asked_iff_later (by omega) hbefore
              (fun earlier hlt => quiet_before hgrows (by omega) hquiet)).mp hall
            have hcases := quiet_or_flooded hgrows hsize (length_le hgrows (Nat.zero_le _)) hbefore
              (Nat.succ_pos request) (by omega) hrest
            rw [Nat.add_sub_cancel' (by omega)] at hcases
            rcases hcases with hquiet' | ⟨hends, hflooded⟩
            · exact Or.inl hquiet'
            · exact Or.inr ⟨request + 1, Nat.succ_pos request, by omega, hends, hquiet, hflooded⟩
          · exact Or.inr hflooded
    exact hreached _ le_rfl
  · rintro (hquiet | ⟨request, hpos, hlt, hends, hquiet, hflooded⟩)
    · exact old_asked_of_quiet hgrows hsize hmost hquiet
    · rw [old_asked_iff_later hlt.le hends.le (fun earlier h => quiet_before hgrows (by omega) hquiet), hends,
        Nat.sub_self]
      refine old_asked_of_flooded _ request ?_
      rwa [Nat.add_sub_cancel' hlt.le]

end

end FromNewest
