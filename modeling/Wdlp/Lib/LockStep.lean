import Mathlib

/-!
# Machines in lock step

Two machines that take the same inputs, each with a state of its own, and answer every input. When a
relation between the states is kept by every input and makes the answers equal, the machines answer
every sequence of inputs alike.

## Main definitions

* `answersOf` — the answers of a machine to a sequence of inputs.

## Main results

* `answersOf_eq_of_lockStep` — related machines answer alike.
-/

namespace CrashSafe

variable {ι ο σ τ : Type}

/-- The answers of a machine to a sequence of inputs. -/
def answersOf (step : σ → ι → ο × σ) : σ → List ι → List ο
  | _, [] => []
  | s, i :: inputs => (step s i).1 :: answersOf step (step s i).2 inputs

/-- Machines whose states stay related under the inputs of a class answer them alike. -/
theorem answersOf_eq_of_lockStep {step : σ → ι → ο × σ} {step' : τ → ι → ο × τ}
    {Related : σ → τ → Prop} {Admitted : ι → Prop}
    (hstep : ∀ s t i, Admitted i → Related s t →
      (step s i).1 = (step' t i).1 ∧ Related (step s i).2 (step' t i).2) :
    (inputs : List ι) → (∀ i ∈ inputs, Admitted i) → {s : σ} → {t : τ} → Related s t →
      answersOf step s inputs = answersOf step' t inputs
  | [], _, _, _, _ => rfl
  | i :: inputs, hinputs, s, t, h => by
    obtain ⟨hanswer, hrelated⟩ := hstep s t i (hinputs i List.mem_cons_self) h
    rw [answersOf, answersOf, hanswer, answersOf_eq_of_lockStep hstep inputs
      (fun j hj => hinputs j (List.mem_cons_of_mem _ hj)) hrelated]

end CrashSafe
