import Mathlib

/-- The states a deterministic machine can be in after finitely many inputs, where each
input is one that `allowed` admits in the state it arrives in. -/
inductive Reach {σ ι : Type*} (step : σ → ι → σ) (allowed : σ → ι → Prop) (start : σ) : σ → Prop
  | start : Reach step allowed start start
  | next {s : σ} {i : ι} : Reach step allowed start s → allowed s i → Reach step allowed start (step s i)

namespace Reach

variable {σ ι : Type*} {step : σ → ι → σ} {allowed : σ → ι → Prop} {start s : σ}

/-- What holds at the start and survives every admitted input holds in every state reached. -/
theorem invariant (inv : σ → Prop) (reach : Reach step allowed start s) (initial : inv start)
    (preserved : ∀ s i, inv s → allowed s i → inv (step s i)) : inv s := by
  induction reach with
  | start => exact initial
  | next _ admitted ih => exact preserved _ _ ih admitted

theorem mono {weaker : σ → ι → Prop} (reach : Reach step allowed start s)
    (implied : ∀ s i, allowed s i → weaker s i) : Reach step weaker start s := by
  induction reach with
  | start => exact .start
  | next _ admitted ih => exact .next ih (implied _ _ admitted)

theorem trans {middle : σ} (first : Reach step allowed start middle) (second : Reach step allowed middle s) :
    Reach step allowed start s := by
  induction second with
  | start => exact first
  | next _ admitted ih => exact .next ih admitted

end Reach
