import Mathlib.Data.List.Basic

set_option autoImplicit false

/-! # Runs

A computation in `Except` either ends in a state or stops with what it left behind. `Ends` states a
postcondition for both ends at once; the rules below compose it along `bind` and along a loop whose
invariant speaks of the items already done. `InTurn` speaks of every step of a run and what came
before it. -/

namespace Runs

section Rules

variable {ε σ τ ι : Type}

/-- A result that satisfies `done` where it ended and `stopped` where it stopped. -/
def Ends (done : σ → Prop) (stopped : ε → Prop) : Except ε σ → Prop
  | .ok state => done state
  | .error left => stopped left

theorem Ends.imp {done done' : σ → Prop} {stopped stopped' : ε → Prop} {result : Except ε σ}
    (h : Ends done stopped result) (hdone : ∀ state, done state → done' state)
    (hstopped : ∀ left, stopped left → stopped' left) : Ends done' stopped' result := by
  rcases result with left | state
  · exact hstopped left h
  · exact hdone state h

theorem Ends.bind {done : σ → Prop} {done' : τ → Prop} {stopped : ε → Prop} {first : Except ε σ}
    {next : σ → Except ε τ} (h : Ends done stopped first)
    (hnext : ∀ state, done state → Ends done' stopped (next state)) :
    Ends done' stopped (first >>= next) := by
  rcases first with left | state
  · exact h
  · exact hnext state h

theorem ends_foldlM (step : σ → ι → Except ε σ) (stopped : ε → Prop) (Inv : List ι → σ → Prop)
    (items : List ι) (start : σ) (hstart : Inv [] start)
    (hstep : ∀ seen item rest state, items = seen ++ item :: rest → Inv seen state →
      Ends (Inv (seen ++ [item])) stopped (step state item)) :
    Ends (Inv items) stopped (items.foldlM step start) := by
  -- the items are split into those seen and those to come
  suffices h : ∀ rest seen state, items = seen ++ rest → Inv seen state →
      Ends (Inv items) stopped (rest.foldlM step state) from h items [] start rfl hstart
  intro rest
  induction rest with
  | nil =>
      intro seen state hsplit hinv
      rw [List.append_nil] at hsplit
      rw [hsplit]
      exact hinv
  | cons item rest ih =>
      intro seen state hsplit hinv
      rw [List.foldlM_cons]
      refine (hstep seen item rest state hsplit hinv).bind ?_
      intro state' hinv'
      refine ih (seen ++ [item]) state' ?_ hinv'
      rw [hsplit, List.append_assoc, List.singleton_append]

theorem bind_eq_ok {first : Except ε σ} {next : σ → Except ε τ} {result : τ}
    (h : first >>= next = .ok result) : ∃ state, first = .ok state ∧ next state = .ok result := by
  rcases first with left | state
  · exact absurd h (by simp [bind, Except.bind])
  · exact ⟨state, rfl, h⟩

theorem foldlM_error_iff (step : σ → ι → Except ε σ) (items : List ι) (start : σ) :
    (∃ left, items.foldlM step start = .error left) ↔
      ∃ before item after state left, items = before ++ item :: after ∧
        before.foldlM step start = .ok state ∧ step state item = .error left := by
  constructor
  · induction items generalizing start with
    | nil =>
        rintro ⟨left, h⟩
        exact absurd h (by simp [pure, Except.pure])
    | cons item rest ih =>
        rintro ⟨left, h⟩
        rw [List.foldlM_cons] at h
        rcases hstep : step start item with stopped | next
        · exact ⟨[], item, rest, start, stopped, rfl, rfl, hstep⟩
        · rw [hstep] at h
          obtain ⟨before, last, after, state, stopped, hsplit, hbefore, hlast⟩ := ih next ⟨left, h⟩
          refine ⟨item :: before, last, after, state, stopped, by rw [hsplit, List.cons_append], ?_, hlast⟩
          rw [List.foldlM_cons, hstep]
          exact hbefore
  · rintro ⟨before, item, after, state, left, rfl, hbefore, hitem⟩
    refine ⟨left, ?_⟩
    rw [List.foldlM_append, hbefore]
    change (item :: after).foldlM step state = .error left
    rw [List.foldlM_cons, hitem]
    rfl

theorem mapM_ok_iff (step : ι → Except ε σ) (items : List ι) (results : List σ) :
    items.mapM step = .ok results ↔
      List.Forall₂ (fun item result => step item = .ok result) items results := by
  induction items generalizing results with
  | nil =>
      rw [List.mapM_nil]
      constructor
      · intro h
        obtain rfl := Except.ok.inj h
        exact List.Forall₂.nil
      · rintro ⟨⟩
        rfl
  | cons item rest ih =>
      rw [List.mapM_cons]
      constructor
      · intro h
        rcases hstep : step item with error | result
        · rw [hstep] at h
          exact absurd h (by simp [bind, Except.bind])
        · rcases hrest : rest.mapM step with error | others
          · rw [hstep, hrest] at h
            exact absurd h (by simp [bind, Except.bind])
          · rw [hstep, hrest] at h
            obtain rfl : result :: others = results := Except.ok.inj h
            exact List.Forall₂.cons hstep ((ih others).mp hrest)
      · rintro (_ | ⟨hstep, hrest⟩)
        rw [hstep, (ih _).mpr hrest]
        rfl

theorem mapM_total (step : ι → Except ε σ) (items : List ι)
    (h : ∀ item ∈ items, ∃ result, step item = .ok result) : ∃ results, items.mapM step = .ok results := by
  induction items with
  | nil => exact ⟨[], rfl⟩
  | cons item rest ih =>
      obtain ⟨result, hresult⟩ := h item List.mem_cons_self
      obtain ⟨results, hresults⟩ := ih (fun other hother => h other (List.mem_cons_of_mem _ hother))
      refine ⟨result :: results, ?_⟩
      rw [List.mapM_cons, hresult, hresults]
      rfl

theorem exists_of_forall₂ {related : ι → σ → Prop} {items : List ι} {results : List σ}
    (h : List.Forall₂ related items results) {result : σ} (hmem : result ∈ results) :
    ∃ item ∈ items, related item result := by
  induction h with
  | nil => exact absurd hmem List.not_mem_nil
  | @cons item first items results hitem _ ih =>
      rcases List.mem_cons.mp hmem with rfl | hmem
      · exact ⟨item, List.mem_cons_self, hitem⟩
      · obtain ⟨other, hother, hrelated⟩ := ih hmem
        exact ⟨other, List.mem_cons_of_mem _ hother, hrelated⟩

/-- Every item of the list stands in the relation to the items before it. -/
def InTurn (holds : List ι → ι → Prop) (items : List ι) : Prop :=
  ∀ before item after, items = before ++ item :: after → holds before item

theorem inTurn_nil (holds : List ι → ι → Prop) : InTurn holds [] := by
  intro before item after h
  exact absurd h.symm (by simp)

theorem inTurn_concat (holds : List ι → ι → Prop) (items : List ι) (last : ι) :
    InTurn holds (items ++ [last]) ↔ InTurn holds items ∧ holds items last := by
  refine ⟨fun h => ⟨?_, h items last [] rfl⟩, ?_⟩
  · intro before item after hsplit
    refine h before item (after ++ [last]) ?_
    rw [hsplit, List.append_assoc, List.cons_append]
  · rintro ⟨hitems, hlast⟩ before item after hsplit
    rcases List.eq_nil_or_concat after with rfl | ⟨rest, other, rfl⟩
    · obtain ⟨rfl, hitem⟩ := List.append_inj' hsplit rfl
      obtain rfl := (List.cons.inj hitem).1
      exact hlast
    · rw [List.concat_eq_append, ← List.cons_append, ← List.append_assoc] at hsplit
      exact hitems before item rest (List.append_inj' hsplit rfl).1

theorem InTurn.left {holds : List ι → ι → Prop} {items others : List ι} (h : InTurn holds (items ++ others)) :
    InTurn holds items := by
  rintro before item after rfl
  exact h before item (after ++ others) (by rw [List.append_assoc, List.cons_append])

end Rules

end Runs
