/-!
# Runs of a system

A system takes an input at a time. A property that holds at every state of a run is compared with a
condition on the inputs, each at the moment when it comes: when inputs that meet the condition keep
an invariant, and any other input destroys the property at once, the property holds throughout a run
exactly if all its inputs meet the condition.

## Main definitions

* `Throughout` — a property holds at every state of a run.
* `Along` — a condition holds of every input of a run, at the moment when it comes.

## Main results

* `Along.foldl` — what admitted inputs keep.
* `throughout_iff_along_of`, `throughout_iff_along` — when the two are the same.
-/

namespace CrashSafe

variable {σ ι : Type} (step : σ → ι → σ)

/-- The property holds before and after every input. -/
def Throughout (I : σ → Prop) : σ → List ι → Prop
  | s, [] => I s
  | s, i :: inputs => I s ∧ Throughout I (step s i) inputs

/-- The condition holds of every input, at the moment when it comes. -/
def Along (R : σ → ι → Prop) : σ → List ι → Prop
  | _, [] => True
  | s, i :: inputs => R s i ∧ Along R (step s i) inputs

variable {step} {B I : σ → Prop} {R : σ → ι → Prop}

theorem Throughout.head : {inputs : List ι} → {s : σ} → Throughout step I s inputs → I s
  | [], _, h => h
  | _ :: _, _, h => h.1

theorem along_of_forall (h : ∀ s i, R s i) : (inputs : List ι) → {s : σ} → Along step R s inputs
  | [], _ => trivial
  | i :: inputs, s => ⟨h s i, along_of_forall h inputs⟩

/-- What every admitted input keeps holds after the run. -/
theorem Along.foldl (hkeep : ∀ s i, B s → R s i → B (step s i)) : (inputs : List ι) → {s : σ} →
    B s → Along step R s inputs → B (inputs.foldl step s)
  | [], _, hs, _ => hs
  | i :: inputs, s, hs, hall => Along.foldl hkeep inputs (hkeep s i hs hall.1) hall.2

/-- In a run whose inputs are all admitted, inputs that meet the condition keep an invariant from
which the property follows, and no other input keeps the property. -/
theorem throughout_iff_along_of {S : σ → ι → Prop} (hI : ∀ s, B s → I s)
    (hkeep : ∀ s i, B s → S s i → R s i → B (step s i))
    (hbreak : ∀ s i, B s → S s i → ¬R s i → ¬I (step s i)) : (inputs : List ι) → {s : σ} → B s →
    Along step S s inputs → (Throughout step I s inputs ↔ Along step R s inputs)
  | [], s, hs, _ => iff_of_true (hI s hs) trivial
  | i :: inputs, s, hs, hall => by
    have hrest : R s i →
        (Throughout step I (step s i) inputs ↔ Along step R (step s i) inputs) := fun hi =>
      throughout_iff_along_of hI hkeep hbreak inputs (hkeep s i hs hall.1 hi) hall.2
    refine ⟨fun h => ?_, fun h => ⟨hI s hs, (hrest h.1).mpr h.2⟩⟩
    have hi : R s i := Classical.not_not.mp fun hn => hbreak s i hs hall.1 hn h.2.head
    exact ⟨hi, (hrest hi).mp h.2⟩

/-- Inputs that meet the condition keep an invariant from which the property follows, and no other
input keeps the property. -/
theorem throughout_iff_along (hI : ∀ s, B s → I s) (hkeep : ∀ s i, B s → R s i → B (step s i))
    (hbreak : ∀ s i, B s → ¬R s i → ¬I (step s i)) (inputs : List ι) {s : σ} (hs : B s) :
    Throughout step I s inputs ↔ Along step R s inputs :=
  throughout_iff_along_of (S := fun _ _ => True) hI (fun s i hB _ => hkeep s i hB)
    (fun s i hB _ => hbreak s i hB) inputs hs (along_of_forall (fun _ _ => trivial) inputs)

end CrashSafe
