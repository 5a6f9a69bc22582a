import TradingHarness.Market.Reality

set_option autoImplicit false

/-! # The triple barrier

`triple_barrier_label` (`paper_execution.py`): one loop over a price path leaves out what is not in the horizon, stops at the first barrier
that is touched, and otherwise judges by the last observation that it kept. -/

namespace TradingHarness

/-! ## The label -/

/-- A row of a price path. -/
structure PathRow where
  observedAt : Option Timestamp := none
  time : Option Timestamp := none
  close : Option ℚ := none
  price : Option ℚ := none

/-- What the labeller reads of a `LabelSpec`. -/
structure BarrierSpec where
  upperReturn : ℚ
  lowerReturn : ℚ
  maxHorizonMinutes : ℤ
  costBps : ℚ

inductive Barrier
  | upper
  | lower
  | time
  deriving DecidableEq

inductive BarrierLabel
  | matured (label : Barrier) (exitAt : Timestamp) (exitPrice netReturn grossReturn costBps : ℚ)
  | pending (lastAt : Timestamp) (lastPrice : ℚ)
  | unavailable (reason : String)
  deriving DecidableEq

inductive BarrierError
  | divisionByZero
  deriving DecidableEq

section Labelling

variable (entry : ℚ) (entryAt : Timestamp) (spec : BarrierSpec)

def upperBarrier : ℚ := entry * (1 + spec.upperReturn)

def lowerBarrier : ℚ := entry * (1 + spec.lowerReturn)

/-- The end of the horizon. -/
def barrierDeadline : Timestamp := entryAt + spec.maxHorizonMinutes * 60 * 1000000

/-- `matured`: the return subtracts the costs, and is a division by the entry. -/
def matured (label : Barrier) (moment : Timestamp) (close : ℚ) : Except BarrierError BarrierLabel :=
  if entry = 0 then .error .divisionByZero
  else
    let cost := max 0 spec.costBps
    let gross := close / entry - 1
    .ok (.matured label moment close (gross - cost / 10000) gross cost)

/-- `row.get("observed_at") or row.get("time")`. -/
def momentOf (row : PathRow) : Option Timestamp := row.observedAt.or row.time

/-- `row.get("close") or row.get("price") or 0`. -/
def closeOf (row : PathRow) : ℚ :=
  match row.close with
  | none => row.price.getD 0
  | some close => if close = 0 then row.price.getD 0 else close

/-- The loop, with the last observation it kept. -/
def labelPath : Option (Timestamp × ℚ) → List PathRow → Except BarrierError BarrierLabel
  | none, [] => .ok (.unavailable "no_point_in_time_path")
  | some (moment, close), [] =>
      if moment < barrierDeadline entryAt spec then .ok (.pending moment close) else matured entry spec .time moment close
  | last, row :: rest =>
      match momentOf row with
      | none => labelPath last rest
      | some moment =>
        if moment < entryAt ∨ barrierDeadline entryAt spec < moment then labelPath last rest
        else
          let close := closeOf row
          if close = 0 then labelPath last rest
          else if upperBarrier entry spec ≤ close then matured entry spec .upper moment close
          else if close ≤ lowerBarrier entry spec then matured entry spec .lower moment close
          else labelPath (some (moment, close)) rest

def tripleBarrierLabel (path : List PathRow) : Except BarrierError BarrierLabel := labelPath entry entryAt spec none path

/-! ## The observations of the horizon -/

/-- A row's observation, when it is in the horizon and has a price. -/
def observationOf (row : PathRow) : Option (Timestamp × ℚ) :=
  match momentOf row with
  | none => none
  | some moment =>
    if moment < entryAt ∨ barrierDeadline entryAt spec < moment ∨ closeOf row = 0 then none else some (moment, closeOf row)

def observations (path : List PathRow) : List (Timestamp × ℚ) := path.filterMap (observationOf entryAt spec)

/-- The barrier that a price touches; the upper one is looked at first. -/
def touched (close : ℚ) : Option Barrier :=
  if upperBarrier entry spec ≤ close then some .upper
  else if close ≤ lowerBarrier entry spec then some .lower
  else none

/-- The label of the last observation of a path that touched nothing. -/
def unlabelled : Option (Timestamp × ℚ) → Except BarrierError BarrierLabel
  | none => .ok (.unavailable "no_point_in_time_path")
  | some (moment, close) =>
      if moment < barrierDeadline entryAt spec then .ok (.pending moment close) else matured entry spec .time moment close

/-- The loop over observations alone. -/
def labelObservations : Option (Timestamp × ℚ) → List (Timestamp × ℚ) → Except BarrierError BarrierLabel
  | last, [] => unlabelled entry entryAt spec last
  | _, (moment, close) :: rest =>
      match touched entry spec close with
      | some barrier => matured entry spec barrier moment close
      | none => labelObservations (some (moment, close)) rest

section

variable (last : Option (Timestamp × ℚ))

theorem labelPath_eq (path : List PathRow) :
    labelPath entry entryAt spec last path = labelObservations entry entryAt spec last (observations entryAt spec path) := by
  induction path generalizing last with
  | nil => rcases last with _ | ⟨moment, close⟩ <;> rfl
  | cons row rest ih =>
      rw [labelPath, observations, List.filterMap_cons, observationOf]
      rcases momentOf row with _ | moment
      · exact ih last
      by_cases hout : moment < entryAt ∨ barrierDeadline entryAt spec < moment
      · have hskip : moment < entryAt ∨ barrierDeadline entryAt spec < moment ∨ closeOf row = 0 := by
          rcases hout with hearly | hlate
          · exact .inl hearly
          · exact .inr (.inl hlate)
        simp only [if_pos hout, if_pos hskip]
        exact ih last
      obtain ⟨hearly, hlate⟩ := not_or.mp hout
      by_cases hclose : closeOf row = 0
      · simp only [if_neg hout, if_pos hclose, if_pos (Or.inr (Or.inr hclose))]
        exact ih last
      · have hkeep : ¬(moment < entryAt ∨ barrierDeadline entryAt spec < moment ∨ closeOf row = 0) := by
          rintro (h | h | h)
          · exact hearly h
          · exact hlate h
          · exact hclose h
        simp only [if_neg hout, if_neg hclose, if_neg hkeep, labelObservations, touched]
        by_cases hupper : upperBarrier entry spec ≤ closeOf row
        · simp only [if_pos hupper]
        · simp only [if_neg hupper]
          by_cases hlower : closeOf row ≤ lowerBarrier entry spec
          · simp only [if_pos hlower]
          · simp only [if_neg hlower]
            exact ih _

/-! ## The first touch -/

theorem labelObservations_touched {before : List (Timestamp × ℚ)} {moment : Timestamp} {close : ℚ}
    {barrier : Barrier} (after : List (Timestamp × ℚ)) (hbefore : ∀ earlier ∈ before, touched entry spec earlier.2 = none)
    (htouch : touched entry spec close = some barrier) :
    labelObservations entry entryAt spec last (before ++ (moment, close) :: after) = matured entry spec barrier moment close := by
  induction before generalizing last with
  | nil => simp only [List.nil_append, labelObservations, htouch]
  | cons first rest ih =>
      simp only [List.cons_append, labelObservations, hbefore first List.mem_cons_self]
      exact ih _ (fun earlier hmem => hbefore earlier (List.mem_cons_of_mem _ hmem))

theorem labelObservations_untouched {items : List (Timestamp × ℚ)}
    (h : ∀ item ∈ items, touched entry spec item.2 = none) :
    labelObservations entry entryAt spec last items = unlabelled entry entryAt spec (items.getLast?.or last) := by
  induction items generalizing last with
  | nil => rfl
  | cons first rest ih =>
      simp only [labelObservations, h first List.mem_cons_self]
      rw [ih _ (fun item hmem => h item (List.mem_cons_of_mem _ hmem)), List.getLast?_cons]
      rcases rest.getLast? with _ | item <;> rfl

end

theorem touched_cases (items : List (Timestamp × ℚ)) :
    (∀ item ∈ items, touched entry spec item.2 = none) ∨
      ∃ before moment close after barrier, items = before ++ (moment, close) :: after ∧
        (∀ earlier ∈ before, touched entry spec earlier.2 = none) ∧ touched entry spec close = some barrier := by
  induction items with
  | nil => exact .inl (fun item hmem => absurd hmem List.not_mem_nil)
  | cons first rest ih =>
      rcases hfirst : touched entry spec first.2 with _ | barrier
      · rcases ih with hnone | ⟨before, moment, close, after, barrier, hsplit, hbefore, htouch⟩
        · exact .inl (List.forall_mem_cons.mpr ⟨hfirst, hnone⟩)
        · exact .inr ⟨first :: before, moment, close, after, barrier, by rw [hsplit, List.cons_append],
            List.forall_mem_cons.mpr ⟨hfirst, hbefore⟩, htouch⟩
      · exact .inr ⟨[], first.1, first.2, rest, barrier, rfl, fun earlier hmem => absurd hmem List.not_mem_nil, hfirst⟩

/-! ## Rows after the deadline -/

/-- No row of the list is at or before the deadline. -/
def AfterDeadline (rows : List PathRow) : Prop := ∀ row ∈ rows, ∀ moment, momentOf row = some moment → barrierDeadline entryAt spec < moment

theorem observations_late {rows : List PathRow} (h : AfterDeadline entryAt spec rows) : observations entryAt spec rows = [] := by
  refine List.filterMap_eq_nil_iff.mpr fun row hrow => ?_
  rw [observationOf]
  rcases hmoment : momentOf row with _ | moment
  · rfl
  · exact if_pos (.inr (.inl (h row hrow moment hmoment)))

theorem observations_append (first second : List PathRow) :
    observations entryAt spec (first ++ second) = observations entryAt spec first ++ observations entryAt spec second :=
  List.filterMap_append

theorem observationOf_eq_some {row : PathRow} {moment : Timestamp} {close : ℚ} :
    observationOf entryAt spec row = some (moment, close) ↔
      momentOf row = some moment ∧ closeOf row = close ∧ entryAt ≤ moment ∧ moment ≤ barrierDeadline entryAt spec ∧ close ≠ 0 := by
  rw [observationOf]
  rcases momentOf row with _ | found
  · simp
  · by_cases hout : found < entryAt ∨ barrierDeadline entryAt spec < found ∨ closeOf row = 0
    · simp only [if_pos hout, reduceCtorEq, false_iff, Option.some.injEq]
      rintro ⟨rfl, rfl, hentry, hdeadline, hclose⟩
      rcases hout with h | h | h
      · exact absurd h (not_lt.mpr hentry)
      · exact absurd h (not_lt.mpr hdeadline)
      · exact hclose h
    · simp only [if_neg hout, Option.some.injEq, Prod.mk.injEq]
      obtain ⟨hentry, hrest⟩ := not_or.mp hout
      obtain ⟨hdeadline, hclose⟩ := not_or.mp hrest
      constructor
      · rintro ⟨rfl, rfl⟩
        exact ⟨rfl, rfl, not_lt.mp hentry, not_lt.mp hdeadline, hclose⟩
      · rintro ⟨rfl, rfl, -⟩
        exact ⟨rfl, rfl⟩

theorem mem_observations {path : List PathRow} {moment : Timestamp} {close : ℚ} :
    (moment, close) ∈ observations entryAt spec path ↔
      ∃ row ∈ path, momentOf row = some moment ∧ closeOf row = close ∧ entryAt ≤ moment ∧ moment ≤ barrierDeadline entryAt spec ∧ close ≠ 0 := by
  rw [observations, List.mem_filterMap]
  exact exists_congr fun row => and_congr_right fun _ => observationOf_eq_some entryAt spec

/-- The rows of a path are in the order of their moments. -/
def TimeOrdered (path : List PathRow) : Prop := (path.filterMap momentOf).Pairwise (· ≤ ·)

instance (path : List PathRow) : Decidable (TimeOrdered path) := inferInstanceAs (Decidable (List.Pairwise _ _))

theorem observations_ordered {path : List PathRow} (h : TimeOrdered path) :
    (observations entryAt spec path).Pairwise (fun a b => a.1 ≤ b.1) := by
  refine List.pairwise_map.mp (List.Pairwise.sublist ?_ h)
  induction path with
  | nil => exact List.Sublist.slnil
  | cons row rest ih =>
      have hrest := ih (h.sublist ((List.sublist_cons_self row rest).filterMap momentOf))
      rw [observations, List.filterMap_cons, List.filterMap_cons, observationOf]
      rcases momentOf row with _ | moment
      · exact hrest
      · simp only
        split
        · next hnone => exact hrest.cons moment
        · next item hitem =>
            split at hitem
            · exact absurd hitem (by simp)
            · cases hitem
              exact hrest.cons_cons moment

/-- Every moment of the second list is after every moment of the first. -/
def Later (path more : List PathRow) : Prop :=
  ∀ row ∈ more, ∀ earlier ∈ path, ∀ moment moment', momentOf earlier = some moment → momentOf row = some moment' → moment < moment'

/-- **A label that has matured stays**: rows that come later do not change it. -/
theorem tripleBarrierLabel_append {path more : List PathRow} (hlater : Later path more) {label : Barrier} {exitAt : Timestamp}
    {exitPrice netReturn grossReturn costBps : ℚ}
    (h : tripleBarrierLabel entry entryAt spec path = .ok (.matured label exitAt exitPrice netReturn grossReturn costBps)) :
    tripleBarrierLabel entry entryAt spec (path ++ more) = tripleBarrierLabel entry entryAt spec path := by
  unfold tripleBarrierLabel at h ⊢
  rw [labelPath_eq, labelPath_eq, observations_append]
  rw [labelPath_eq] at h
  rcases touched_cases entry spec (observations entryAt spec path) with hnone | ⟨before, moment, close, after, barrier, hsplit, hbefore, htouch⟩
  · rw [labelObservations_untouched entry entryAt spec none hnone, Option.or_none] at h
    rcases hlast : (observations entryAt spec path).getLast? with _ | ⟨moment, close⟩
    · rw [hlast] at h
      exact absurd h (by simp [unlabelled])
    · -- the last observation is not before the deadline, so what comes later is after it
      rw [hlast, unlabelled] at h
      have hdeadline : barrierDeadline entryAt spec ≤ moment := by
        by_contra hbefore
        rw [if_pos (not_le.mp hbefore)] at h
        exact absurd h (by simp)
      obtain ⟨row, hrow, hmoment, -⟩ := (mem_observations entryAt spec).mp (List.mem_of_getLast? hlast)
      have hlate : AfterDeadline entryAt spec more := fun other hother moment' hmoment' =>
        lt_of_le_of_lt hdeadline (hlater other hother row hrow moment moment' hmoment hmoment')
      rw [observations_late entryAt spec hlate, List.append_nil]
  · rw [hsplit, List.append_assoc, List.cons_append, labelObservations_touched entry entryAt spec none _ hbefore htouch,
      labelObservations_touched entry entryAt spec none _ hbefore htouch]

/-- What the labeller says of every path in the order of time: the first barrier touched in the horizon; where none is, `time` if the last
observation of the horizon is at the deadline, and else nothing final. -/
structure PointInTime (path : List PathRow) : Prop where
  /-- The observations are the priced rows from the entry to the deadline; the first that touches a barrier is reported. -/
  touch : ∀ before moment close after barrier, observations entryAt spec path = before ++ (moment, close) :: after →
    (∀ earlier ∈ before, touched entry spec earlier.2 = none) → touched entry spec close = some barrier →
    tripleBarrierLabel entry entryAt spec path = matured entry spec barrier moment close ∧
      moment ≤ barrierDeadline entryAt spec ∧
      ∀ item ∈ observations entryAt spec path, touched entry spec item.2 ≠ none → moment ≤ item.1
  /-- Rows after the deadline never count, wherever they are. -/
  late : ∀ before rows after, path = before ++ rows ++ after → AfterDeadline entryAt spec rows →
    tripleBarrierLabel entry entryAt spec path = tripleBarrierLabel entry entryAt spec (before ++ after)
  untouched : (∀ item ∈ observations entryAt spec path, touched entry spec item.2 = none) →
    tripleBarrierLabel entry entryAt spec path = unlabelled entry entryAt spec (observations entryAt spec path).getLast?
  /-- `time` needs a priced row at the deadline itself. -/
  onTime : entry ≠ 0 → (∀ item ∈ observations entryAt spec path, touched entry spec item.2 = none) →
    ((∃ exitAt exitPrice netReturn grossReturn costBps,
        tripleBarrierLabel entry entryAt spec path = .ok (.matured .time exitAt exitPrice netReturn grossReturn costBps)) ↔
      ∃ row ∈ path, momentOf row = some (barrierDeadline entryAt spec) ∧ entryAt ≤ barrierDeadline entryAt spec ∧ closeOf row ≠ 0)
  final : ∀ more label exitAt exitPrice netReturn grossReturn costBps, Later path more →
    tripleBarrierLabel entry entryAt spec path = .ok (.matured label exitAt exitPrice netReturn grossReturn costBps) →
    tripleBarrierLabel entry entryAt spec (path ++ more) = tripleBarrierLabel entry entryAt spec path

theorem getLast?_at_deadline {path : List PathRow} (hordered : TimeOrdered path) :
    (∃ close, (observations entryAt spec path).getLast? = some (barrierDeadline entryAt spec, close)) ↔
      ∃ row ∈ path, momentOf row = some (barrierDeadline entryAt spec) ∧ entryAt ≤ barrierDeadline entryAt spec ∧ closeOf row ≠ 0 := by
  constructor
  · rintro ⟨close, hlast⟩
    obtain ⟨row, hrow, hmoment, rfl, hentry, -, hclose⟩ := (mem_observations entryAt spec).mp (List.mem_of_getLast? hlast)
    exact ⟨row, hrow, hmoment, hentry, hclose⟩
  · rintro ⟨row, hrow, hmoment, hentry, hclose⟩
    have hmem : (barrierDeadline entryAt spec, closeOf row) ∈ observations entryAt spec path :=
      (mem_observations entryAt spec).mpr ⟨row, hrow, hmoment, rfl, hentry, le_refl _, hclose⟩
    rcases hlast : (observations entryAt spec path).getLast? with _ | ⟨moment, close⟩
    · rw [List.getLast?_eq_none_iff.mp hlast] at hmem
      exact absurd hmem List.not_mem_nil
    · obtain ⟨init, hinit⟩ := List.getLast?_eq_some_iff.mp hlast
      obtain ⟨-, -, -, -, -, hbound, -⟩ := (mem_observations entryAt spec).mp (List.mem_of_getLast? hlast)
      have hsorted := observations_ordered entryAt spec hordered
      rw [hinit] at hsorted hmem
      refine ⟨close, ?_⟩
      rcases List.mem_append.mp hmem with hin | hin
      · have hle := (List.pairwise_append.mp hsorted).2.2 _ hin _ List.mem_cons_self
        rw [le_antisymm hbound hle]
      · rw [(Prod.mk.inj (List.mem_singleton.mp hin)).1]

end Labelling

/-- **Where no barrier is touched, a row at the deadline matures the label, and no row after it does.** -/
theorem tripleBarrierLabel_pointInTime (path : List PathRow) (entry : ℚ) (entryAt : Timestamp) (spec : BarrierSpec)
    (hordered : TimeOrdered path) : PointInTime entry entryAt spec path := by
  have huntouched : (∀ item ∈ observations entryAt spec path, touched entry spec item.2 = none) →
      tripleBarrierLabel entry entryAt spec path = unlabelled entry entryAt spec (observations entryAt spec path).getLast? := by
    intro hnone
    rw [tripleBarrierLabel, labelPath_eq, labelObservations_untouched entry entryAt spec none hnone, Option.or_none]
  refine { touch := ?_, late := ?_, untouched := huntouched, onTime := ?_, final := ?_ }
  · intro before moment close after barrier hsplit hbefore htouch
    have hsorted := observations_ordered entryAt spec hordered
    have hmem : (moment, close) ∈ observations entryAt spec path := hsplit ▸ List.mem_append_right _ List.mem_cons_self
    obtain ⟨-, -, -, -, -, hdeadline, -⟩ := (mem_observations entryAt spec).mp hmem
    refine ⟨?_, hdeadline, ?_⟩
    · rw [tripleBarrierLabel, labelPath_eq, hsplit, labelObservations_touched entry entryAt spec none after hbefore htouch]
    · intro item hitem hother
      rw [hsplit] at hsorted hitem
      rcases List.mem_append.mp hitem with hin | hin
      · exact absurd (hbefore item hin) hother
      · rcases List.mem_cons.mp hin with rfl | hin
        · exact le_refl _
        · exact (List.pairwise_cons.mp (List.pairwise_append.mp hsorted).2.1).1 item hin
  · rintro before rows after rfl hlate
    rw [tripleBarrierLabel, tripleBarrierLabel, labelPath_eq, labelPath_eq, observations_append, observations_append,
      observations_late entryAt spec hlate, List.append_nil, observations_append]
  · intro hentry hnone
    rw [← getLast?_at_deadline entryAt spec hordered, huntouched hnone]
    rcases hlast : (observations entryAt spec path).getLast? with _ | ⟨moment, close⟩
    · simp [unlabelled]
    · obtain ⟨-, -, -, -, -, hdeadline, -⟩ := (mem_observations entryAt spec).mp (List.mem_of_getLast? hlast)
      rw [unlabelled]
      by_cases hbefore : moment < barrierDeadline entryAt spec
      · rw [if_pos hbefore]
        simp [hbefore.ne]
      · rw [if_neg hbefore, matured, if_neg hentry]
        simp [le_antisymm hdeadline (not_lt.mp hbefore)]
  · intro more label exitAt exitPrice netReturn grossReturn costBps hlater h
    exact tripleBarrierLabel_append entry entryAt spec hlater h

/-- Thirty minutes, three percent up and two down. -/
def halfHour : BarrierSpec := { upperReturn := 3 / 100, lowerReturn := -2 / 100, maxHorizonMinutes := 30, costBps := 18 }

/-- A price ten minutes in, and the next one an hour after the deadline. -/
def sparsePath : List PathRow :=
  [{ observedAt := some 600000000, close := some (201 / 2) }, { observedAt := some 5400000000, close := some 10 }]

theorem tripleBarrierLabel_pointInTime_sparse : PointInTime 100 0 halfHour sparsePath :=
  tripleBarrierLabel_pointInTime sparsePath 100 0 halfHour (by decide +kernel)

/-- **A path that goes on after the deadline stays pending**: no barrier is touched by then, and a row is there after it. -/
theorem sparse_path_pending :
    TimeOrdered sparsePath ∧ (∀ item ∈ observations 0 halfHour sparsePath, touched 100 halfHour item.2 = none) ∧
      (∃ row ∈ sparsePath, ∃ moment ∈ momentOf row, barrierDeadline 0 halfHour ≤ moment) ∧
      tripleBarrierLabel 100 0 halfHour sparsePath = .ok (.pending 600000000 (201 / 2)) := by
  refine ⟨by decide +kernel, by decide +kernel, ?_, by decide +kernel⟩
  exact ⟨{ observedAt := some 5400000000, close := some 10 }, by simp [sparsePath], 5400000000, rfl, by decide +kernel⟩

end TradingHarness
