import Mathlib.Logic.Relation

set_option autoImplicit false

/-! # Driven runs

The runs of a system whose step is a function of an operation, where every operation is allowed in the state it
meets. What one allowed operation keeps, every run keeps. -/

namespace Driven

section System

variable {ω ο : Type} (step : ο → ω → ω) (allowed : ω → ο → Prop)

/-- Any number of allowed operations. -/
def Run : ω → ω → Prop := Relation.ReflTransGen (fun before after => ∃ op, allowed before op ∧ after = step op before)

/-- The state that a list of operations leads to. -/
def afterwards (ops : List ο) (world : ω) : ω := ops.foldl (fun world op => step op world) world

/-- Each operation of the list is allowed when its turn comes. -/
def Follows : List ο → ω → Prop
  | [], _ => True
  | op :: rest, world => allowed world op ∧ Follows rest (step op world)

instance decidableFollows [∀ world op, Decidable (allowed world op)] :
    ∀ (ops : List ο) (world : ω), Decidable (Follows step allowed ops world)
  | [], _ => isTrue trivial
  | op :: rest, world => @instDecidableAnd _ _ _ (decidableFollows rest (step op world))

variable {step allowed}

theorem afterwards_concat (ops : List ο) (op : ο) (world : ω) :
    afterwards step (ops ++ [op]) world = step op (afterwards step ops world) := by
  unfold afterwards
  rw [List.foldl_append, List.foldl_cons, List.foldl_nil]

theorem run_afterwards (ops : List ο) (world : ω) (h : Follows step allowed ops world) :
    Run step allowed world (afterwards step ops world) := by
  induction ops generalizing world with
  | nil => exact Relation.ReflTransGen.refl
  | cons op rest ih => exact Relation.ReflTransGen.head ⟨op, h.1, rfl⟩ (ih _ h.2)

theorem Run.keeps {start world : ω} (h : Run step allowed start world) {Inv : ω → Prop} (hstart : Inv start)
    (hstep : ∀ world op, Inv world → allowed world op → Inv (step op world)) : Inv world := by
  induction h with
  | refl => exact hstart
  | tail _ hlast ih =>
      obtain ⟨op, hallowed, rfl⟩ := hlast
      exact hstep _ op ih hallowed

end System

end Driven
