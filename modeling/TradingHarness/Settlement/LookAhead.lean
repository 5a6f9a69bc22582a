import TradingHarness.Settlement.Settle
import Mathlib.Logic.Relation

set_option autoImplicit false

/-! # Later bars and the price basis

A path grows by one session at a time. Later bars reach a settled idea through one thing only: the
price basis of the walk is decided from every bar handed in. A session that keeps the basis changes
nothing, and so does a whole run of such sessions. -/

namespace TradingHarness

/-- One more session, whose bar does not flip the basis of the window that starts at `start`: the
    bar has a factor, or the window was on raw prices already. -/
def Grows (start : ℕ) (path path' : List SettlementBar) : Prop :=
  ∃ bar, path' = path ++ [bar] ∧ (pathAdjusted (path.drop start) = true → bar.hasFactor = true)

variable (path later : List SettlementBar) (symbol : String) (direction : Direction) (horizon : ℤ)
  (benchmarkReturn : Option (Date → Date → Option ℚ)) (cost : ℚ) (maxRoll : ℕ) (s : Settlement)

theorem pathAdjusted_append :
    pathAdjusted (path ++ later) = (pathAdjusted path && pathAdjusted later) := by
  unfold pathAdjusted
  exact List.all_append

/-- Bars that keep the basis. -/
def KeepsBasis (path later : List SettlementBar) : Prop :=
  pathAdjusted path = true → pathAdjusted later = true

theorem KeepsBasis.pathAdjusted_eq {path later : List SettlementBar} (h : KeepsBasis path later) :
    pathAdjusted (path ++ later) = pathAdjusted path := by
  rw [pathAdjusted_append]
  cases hp : pathAdjusted path with
  | false => rfl
  | true => rw [h hp]; rfl

theorem grows_run (start : ℕ) (path path' : List SettlementBar) (hstart : start ≤ path.length)
    (h : Relation.ReflTransGen (Grows start) path path') :
    ∃ later, path' = path ++ later ∧ KeepsBasis (path.drop start) later := by
  induction h with
  | refl => exact ⟨[], by simp, fun _ => rfl⟩
  | tail _ hstep ih =>
      obtain ⟨later, rfl, hkeeps⟩ := ih
      obtain ⟨bar, rfl, hbar⟩ := hstep
      refine ⟨later ++ [bar], by simp, ?_⟩
      intro hadjusted
      have hlater := hkeeps hadjusted
      have hbar' : bar.hasFactor = true := by
        apply hbar
        rw [List.drop_append_of_le_length hstart, pathAdjusted_append, hadjusted, hlater]
        rfl
      rw [pathAdjusted_append, hlater]
      simp [pathAdjusted, hbar']

theorem priceWindow_append (h : KeepsBasis path later) :
    priceWindow (path ++ later)
      = { bars := (priceWindow path).bars ++ later.map (priceBar (pathAdjusted path))
          basis := (priceWindow path).basis } := by
  unfold priceWindow
  rw [h.pathAdjusted_eq, List.map_append]

/-! ## Settled ideas -/

theorem rollPast_exitIndex_lt (left index : ℕ)
    (bars : List PricedBar) (i : ℕ)
    (h : (rollPast symbol direction left index bars).exitIndex? = some i) :
    i < index + bars.length := by
  induction bars generalizing left index with
  | nil => simp [rollPast, Walked.exitIndex?] at h
  | cons bar rest ih =>
      rw [rollPast_cons] at h
      rw [List.length_cons]
      split at h
      · simp only [Walked.exitIndex?, Option.some.injEq] at h
        omega
      · cases left with
        | zero =>
            simp only [valueAtClose_exitIndex?, Option.map_eq_some_iff] at h
            obtain ⟨-, -, hi⟩ := h
            omega
        | succ left =>
            have hi := ih left (index + 1) h
            omega

theorem walkIdea_index_lt (i : ℕ) (field : ExitField) (price : ℚ) (reason : Reason)
    (h : walkIdea path symbol direction horizon maxRoll = .settled i field price reason) :
    targetIndex horizon + i < path.length := by
  have hindex : (walkIdea path symbol direction horizon maxRoll).exitIndex? = some i := by
    rw [h]
    rfl
  rw [walkIdea_eq, sellAt_close_exitIndex?] at hindex
  have hlt := rollPast_exitIndex_lt symbol direction maxRoll 0 _ i hindex
  simp only [priceWindow, List.length_map, List.length_drop] at hlt
  omega

theorem walkIdea_append (i : ℕ) (field : ExitField) (price : ℚ)
    (reason : Reason) (hkeeps : KeepsBasis (path.drop (targetIndex horizon)) later)
    (h : walkIdea path symbol direction horizon maxRoll = .settled i field price reason) :
    walkIdea (path ++ later) symbol direction horizon maxRoll = .settled i field price reason := by
  have hlength := walkIdea_index_lt path symbol direction horizon maxRoll i field price reason h
  have hdrop : (path ++ later).drop (targetIndex horizon)
      = path.drop (targetIndex horizon) ++ later := List.drop_append_of_le_length (by omega)
  have hdecided : (walkIdea path symbol direction horizon maxRoll).decided = true := by
    rw [h]
    rfl
  rw [← h]
  unfold walkIdea walkExit at hdecided ⊢
  rw [hdrop, priceWindow_append _ later hkeeps]
  exact walkFrom_append symbol direction maxRoll sellAtClose _ 0 _ _ hdecided

/-- A settled idea keeps its whole settlement when bars that keep the basis are appended. -/
theorem settle_append (hkeeps : KeepsBasis (path.drop (targetIndex horizon)) later)
    (h : settle path symbol direction horizon benchmarkReturn cost maxRoll = .ok (.settled s)) :
    settle (path ++ later) symbol direction horizon benchmarkReturn cost maxRoll
      = .ok (.settled s) := by
  cases path with
  | nil => simp [settle] at h
  | cons entry rest =>
      unfold settle at h
      rw [List.cons_append]
      unfold settle
      cases hentry : entryBlockReason entry direction symbol with
      | some blocked => simp [hentry] at h
      | none =>
          simp only [hentry] at h ⊢
          split at h
          · simp at h
          · next hlength =>
              have hlonger : ¬ (entry :: (rest ++ later)).length ≤ targetIndex horizon := by
                simp only [List.length_cons, List.length_append] at hlength ⊢
                omega
              rw [if_neg hlonger]
              cases hw : walkIdea (entry :: rest) symbol direction horizon maxRoll with
              | pending reason => simp [hw] at h
              | settled i field price reason =>
                  have hw' := walkIdea_append (entry :: rest) later symbol direction horizon
                    maxRoll i field price reason hkeeps hw
                  have hlt := walkIdea_index_lt (entry :: rest) symbol direction horizon maxRoll
                    i field price reason hw
                  rw [List.cons_append] at hw'
                  simp only [hw] at h
                  simp only [hw']
                  -- the document is built from the bars up to the exit
                  have htake : (entry :: (rest ++ later)).take (targetIndex horizon + i + 1)
                      = (entry :: rest).take (targetIndex horizon + i + 1) := by
                    rw [← List.cons_append]
                    exact List.take_append_of_le_length (by omega)
                  rw [← h]
                  unfold settledDocument
                  dsimp only
                  rw [htake]

theorem settle_length (h : settle path symbol direction horizon benchmarkReturn cost maxRoll = .ok (.settled s)) :
    targetIndex horizon < path.length := by
  cases path with
  | nil => simp [settle] at h
  | cons entry rest =>
      unfold settle at h
      cases hentry : entryBlockReason entry direction symbol with
      | some blocked => simp [hentry] at h
      | none =>
          simp only [hentry] at h
          split at h
          · simp at h
          · next hlength => exact not_le.mp hlength

/-- **No look-ahead of `settle`.** Over every run of sessions that keep the basis, a settled idea
    keeps its settlement. -/
theorem settle_run (path' : List SettlementBar) (symbol : String) (direction : Direction)
    (horizon : ℤ) (benchmarkReturn : Option (Date → Date → Option ℚ)) (cost : ℚ) (maxRoll : ℕ)
    (s : Settlement)
    (h : settle path symbol direction horizon benchmarkReturn cost maxRoll = .ok (.settled s))
    (hrun : Relation.ReflTransGen (Grows (targetIndex horizon)) path path') :
    settle path' symbol direction horizon benchmarkReturn cost maxRoll = .ok (.settled s) := by
  have hlength := settle_length path symbol direction horizon benchmarkReturn cost maxRoll s h
  obtain ⟨later, rfl, hkeeps⟩ := grows_run (targetIndex horizon) path path' hlength.le hrun
  exact settle_append path later symbol direction horizon benchmarkReturn cost maxRoll s hkeeps h

end TradingHarness
