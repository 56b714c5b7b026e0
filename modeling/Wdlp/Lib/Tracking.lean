import Wdlp.Lib.Act

/-!
# Two runs of a program

Two programs, often one and the same, run from two states. They *track* each other when they end in
the same way, with the same value or the same error, in related states. The first run may also be
stopped, by one particular error; the second one then ends in a state that carries a mark.

## Main definitions

* `Act.Tracks` — two runs track each other.

## Main results

* `Act.Tracks.bind`, `Act.Tracks.forEach`, `Act.Tracks.foldlM` — tracking goes through sequences
  and loops, when what is marked stays marked.
-/

namespace CrashSafe

namespace Act

variable {σ ε α β : Type} {R R' : σ → σ → Prop} {e : ε} {M M' : σ → Prop}

/-- The runs end in the same way in related states, or the first one is stopped and the second one
ends in a state that is marked. -/
def Tracks (R : σ → σ → Prop) (e : ε) (M : σ → Prop) (p : Act σ ε α) (s : σ) (q : Act σ ε α)
    (t : σ) : Prop :=
  (∃ x s' t', p s = ofExcept x s' ∧ q t = ofExcept x t' ∧ R s' t') ∨
    ((∃ s', p s = .err e s') ∧ M (q t).state)

namespace Tracks

variable {p q : Act σ ε α} {s t : σ}

theorem of_ok {a : α} {s' t' : σ} (hp : p s = .ok a s') (hq : q t = .ok a t') (h : R s' t') :
    Tracks R e M p s q t :=
  .inl ⟨.ok a, s', t', hp, hq, h⟩

theorem pure {a : α} (h : R s t) : Tracks R e M (Pure.pure a : Act σ ε α) s (Pure.pure a) t :=
  of_ok rfl rfl h

theorem throw {e' : ε} (h : R s t) : Tracks R e M (throw e' : Act σ ε α) s (throw e') t :=
  .inl ⟨.error e', s, t, rfl, rfl, h⟩

theorem stopped {s' : σ} (hp : p s = .err e s') (h : M (q t).state) : Tracks R e M p s q t :=
  .inr ⟨⟨s', hp⟩, h⟩

/-- Programs that only read. -/
theorem of_alike (h : Alike p s q t) (hR : R s t) : Tracks R e M p s q t := by
  obtain ⟨x, hp, hq⟩ := h
  exact .inl ⟨x, s, t, hp, hq, hR⟩

theorem mono (h : Tracks R e M p s q t) (hR : ∀ s' t', R s' t' → R' s' t') (hM : ∀ t', M t' → M' t') :
    Tracks R' e M' p s q t := by
  rcases h with ⟨x, s', t', hp, hq, h⟩ | ⟨hp, h⟩
  · exact .inl ⟨x, s', t', hp, hq, hR s' t' h⟩
  · exact .inr ⟨hp, hM _ h⟩

variable {f g : α → Act σ ε β}

/-- A first part in which the first run is not stopped. -/
theorem bind_of_unstopped (h : Tracks R e (fun _ => False) p s q t)
    (hf : ∀ a s' t', p s = .ok a s' → q t = .ok a t' → R s' t' → Tracks R e M (f a) s' (g a) t') :
    Tracks R e M (p >>= f) s (q >>= g) t := by
  rcases h with ⟨x, s', t', hp, hq, h⟩ | ⟨-, h⟩
  · cases x with
    | ok a =>
      have hrest := hf a s' t' hp hq h
      unfold Tracks
      rw [bind_of_ok hp, bind_of_ok hq]
      exact hrest
    | error e' => exact .inl ⟨.error e', s', t', bind_of_err hp, bind_of_err hq, h⟩
  · exact h.elim

theorem bind (h : Tracks R e M p s q t)
    (hf : ∀ a s' t', p s = .ok a s' → q t = .ok a t' → R s' t' → Tracks R e M (f a) s' (g a) t')
    (hM : ∀ a t', M t' → M (g a t').state) : Tracks R e M (p >>= f) s (q >>= g) t := by
  rcases h with ⟨x, s', t', hp, hq, h⟩ | ⟨⟨s', hp⟩, h⟩
  · exact bind_of_unstopped (.inl ⟨x, s', t', hp, hq, h⟩) hf
  · refine stopped (bind_of_err hp) ?_
    cases hq : q t with
    | ok a t' =>
      rw [hq] at h
      rw [bind_of_ok hq]
      exact hM a t' h
    | err e' t' =>
      rw [hq] at h
      rwa [bind_of_err hq]
    | crash t' =>
      rw [hq] at h
      rwa [bind_of_crash hq]

theorem ite {c : Prop} [Decidable c] {p' q' : Act σ ε α} (hp : c → Tracks R e M p s q t)
    (hp' : ¬c → Tracks R e M p' s q' t) :
    Tracks R e M (if c then p else p') s (if c then q else q') t := by
  by_cases hc : c
  · rw [if_pos hc, if_pos hc]
    exact hp hc
  · rw [if_neg hc, if_neg hc]
    exact hp' hc

/-- A loop over the same list. -/
theorem forEach {f g : β → Act σ ε Unit} (hf : ∀ b s t, R s t → Tracks R e M (f b) s (g b) t)
    (hM : ∀ l t, M t → M (Act.forEach l g t).state) : (l : List β) →
    {s t : σ} → R s t → Tracks R e M (Act.forEach l f) s (Act.forEach l g) t
  | [], _, _, h => pure h
  | b :: l, s, t, h => bind (hf b s t h) (fun _ _ _ _ _ h' => forEach hf hM l h') fun _ => hM l

/-- A loop over the same list that carries a value. -/
theorem foldlM {f g : β → α → Act σ ε β} (hf : ∀ b a s t, R s t → Tracks R e M (f b a) s (g b a) t)
    (hM : ∀ l b t, M t → M (List.foldlM g b l t).state) : (l : List α) →
    {b : β} → {s t : σ} → R s t → Tracks R e M (List.foldlM f b l) s (List.foldlM g b l) t
  | [], _, _, _, h => pure h
  | a :: l, b, s, t, h => by
    rw [List.foldlM_cons, List.foldlM_cons]
    exact bind (hf b a s t h) (fun _ _ _ _ _ h' => foldlM hf hM l h') fun b' => hM l b'

end Tracks

end Act

end CrashSafe
