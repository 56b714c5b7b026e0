import Mathlib

/-!
# Programs that return, fail or are cut off

A program with effects on a state `σ` and errors in `ε` is a function from the state it starts in
to an `Outcome`: it returns a value, it returns an error, or the process running it is cut off.
In each case the state it leaves behind is kept: an error undoes nothing that was done before it,
and a crash leaves whatever the completed steps have made of the state.

Programs form a monad (`Act σ ε`), so that they are written in `do` notation. A program is
specified by its weakest precondition `Act.wp`, with one condition for each way of ending, and
`Act.wp_bind` splits a sequence into its parts.

## Main definitions

* `Outcome`, `Outcome.state` — how a program ends, and the state it leaves.
* `Act` — programs; `Act.attempt` and `Act.caught` read the error of a program as a value,
  `Act.orRollback` undoes a change of the state when a program fails, `Act.zoom` runs a program on a
  part of the state.
* `Act.forEach` — a loop over a list.
* `Act.wp`, `Act.Keeps` — weakest preconditions, and invariants kept however a program ends.
* `Act.Completes` — the program returns; `Act.Yields` — what it leaves if it returns.
* `Act.Reads` — the program changes nothing; `Act.Alike` — two programs that change nothing give
  the same answer.

## Main results

* `Act.wp_bind`, `Act.wp_seq`, `Act.wp_attempt`, `Act.wp_orRollback`, `Act.wp_forEach` — the rules
  for sequences, handled errors and loops.
* `except_bind_eq_ok`, `except_failIf_eq_ok` — when a sequence of checks without effects succeeds.
* `Act.Keeps.bind`, `Act.Keeps.forEach` — invariants of sequences and loops.
-/

namespace CrashSafe

/-- How a program ends: it returns a value, it returns an error, or it is cut off. -/
inductive Outcome (σ ε α : Type) where
  | ok (value : α) (state : σ)
  | err (error : ε) (state : σ)
  | crash (state : σ)
  deriving DecidableEq

namespace Outcome

variable {σ ε α : Type}

/-- The state a program leaves, however it ends. -/
def state : Outcome σ ε α → σ
  | ok _ s => s
  | err _ s => s
  | crash s => s

/-- The value, or the error, of a program that was not cut off. -/
def result? : Outcome σ ε α → Option (Except ε α)
  | ok a _ => some (.ok a)
  | err e _ => some (.error e)
  | crash _ => none

@[simp] theorem state_ok (a : α) (s : σ) : (ok a s : Outcome σ ε α).state = s := rfl

@[simp] theorem state_err (e : ε) (s : σ) : (err e s : Outcome σ ε α).state = s := rfl

@[simp] theorem state_crash (s : σ) : (crash s : Outcome σ ε α).state = s := rfl

@[simp] theorem result?_ok (a : α) (s : σ) : (ok a s : Outcome σ ε α).result? = some (.ok a) := rfl

@[simp] theorem result?_err (e : ε) (s : σ) :
    (err e s : Outcome σ ε α).result? = some (.error e) := rfl

@[simp] theorem result?_crash (s : σ) : (crash s : Outcome σ ε α).result? = none := rfl

variable {o : Outcome σ ε α}

theorem eq_ok {a : α} (h : o.result? = some (.ok a)) : o = .ok a o.state := by
  cases o <;> simp_all

theorem eq_err {e : ε} (h : o.result? = some (.error e)) : o = .err e o.state := by
  cases o <;> simp_all

theorem eq_crash (h : o.result?.isNone = true) : o = .crash o.state := by
  cases o <;> simp_all

/-- The conditions `Q`, `E` and `C` on a returned value, on an error and on a crash. -/
def Sat (o : Outcome σ ε α) (Q : α → σ → Prop) (E : ε → σ → Prop) (C : σ → Prop) : Prop :=
  match o with
  | ok a s => Q a s
  | err e s => E e s
  | crash s => C s

variable {Q : α → σ → Prop} {E : ε → σ → Prop}

@[simp] theorem sat_ok {C : σ → Prop} (a : α) (s : σ) :
    (ok a s : Outcome σ ε α).Sat Q E C ↔ Q a s := Iff.rfl

@[simp] theorem sat_err {C : σ → Prop} (e : ε) (s : σ) :
    (err e s : Outcome σ ε α).Sat Q E C ↔ E e s := Iff.rfl

@[simp] theorem sat_crash {C : σ → Prop} (s : σ) :
    (crash s : Outcome σ ε α).Sat Q E C ↔ C s := Iff.rfl

end Outcome

/-- Fail when a condition holds. -/
def failIf {ε : Type} {m : Type → Type} [Monad m] [MonadExceptOf ε m] (c : Prop) [Decidable c]
    (e : ε) : m Unit :=
  if c then throw e else pure ()

section Checks

variable {ε ε' α β : Type}

/-- A sequence of computations that succeeds. -/
theorem except_bind_eq_ok {x : Except ε α} {f : α → Except ε β} {b : β} :
    (x >>= f) = .ok b ↔ ∃ a, x = .ok a ∧ f a = .ok b := by
  cases x with
  | error e => exact ⟨fun h => (nomatch h), fun ⟨_, h, _⟩ => (nomatch h)⟩
  | ok a => exact ⟨fun h => ⟨a, rfl, h⟩, fun ⟨_, h, hf⟩ => by cases h; exact hf⟩

theorem except_pure_eq_ok {a b : α} : (pure a : Except ε α) = .ok b ↔ a = b :=
  ⟨Except.ok.inj, congrArg Except.ok⟩

/-- A check that succeeds. -/
theorem except_failIf_eq_ok {c : Prop} [Decidable c] {e : ε} {u : Unit} :
    (failIf c e : Except ε Unit) = .ok u ↔ ¬c := by
  unfold failIf
  split
  · next h => exact ⟨fun h' => (nomatch h'), fun h' => absurd h h'⟩
  · next h => exact ⟨fun _ => h, fun _ => rfl⟩

theorem except_mapError_eq_ok {x : Except ε α} {f : ε → ε'} {a : α} :
    x.mapError f = .ok a ↔ x = .ok a := by
  cases x with
  | error e => exact ⟨fun h => (nomatch h), fun h => (nomatch h)⟩
  | ok b => exact ⟨fun h => congrArg _ (Except.ok.inj h), fun h => congrArg _ (Except.ok.inj h)⟩

end Checks

/-- A program on the state `σ` with errors in `ε`. -/
def Act (σ ε α : Type) : Type := σ → Outcome σ ε α

namespace Act

variable {σ ε α β : Type}

instance : Monad (Act σ ε) where
  pure a := fun s => .ok a s
  bind p f := fun s =>
    match p s with
    | .ok a s' => f a s'
    | .err e s' => .err e s'
    | .crash s' => .crash s'

instance : MonadStateOf σ (Act σ ε) where
  get := fun s => .ok s s
  set s := fun _ => .ok () s
  modifyGet f := fun s => .ok (f s).1 (f s).2

instance : MonadExceptOf ε (Act σ ε) where
  throw e := fun s => .err e s
  tryCatch p handler := fun s =>
    match p s with
    | .ok a s' => .ok a s'
    | .err e s' => handler e s'
    | .crash s' => .crash s'

/-- The error of `p` as a value, as a caller that matches on the result of `p` sees it. -/
def attempt (p : Act σ ε α) : Act σ ε (Except ε α) := fun s =>
  match p s with
  | .ok a s' => .ok (.ok a) s'
  | .err e s' => .ok (.error e) s'
  | .crash s' => .crash s'

/-- The error of `p` as a value, in a program that has errors of another type. -/
def caught {ε' : Type} (p : Act σ ε α) : Act σ ε' (Except ε α) := fun s =>
  match p s with
  | .ok a s' => .ok (.ok a) s'
  | .err e s' => .ok (.error e) s'
  | .crash s' => .crash s'

/-- A value computed without effects, or its error. -/
def ofExcept : Except ε α → Act σ ε α
  | .ok a => fun s => .ok a s
  | .error e => fun s => .err e s

/-- The value of an option, or the given error. -/
def ofOption (x : Option α) (e : ε) : Act σ ε α := ofExcept (x.elim (.error e) .ok)

/-- Run `p`; when it returns an error, change the state by `undo` and return the error. -/
def orRollback (p : Act σ ε α) (undo : σ → σ) : Act σ ε α := fun s =>
  match p s with
  | .ok a s' => .ok a s'
  | .err e s' => .err e (undo s')
  | .crash s' => .crash s'

/-- Run a program on the part `part s` of a state, its errors translated by `error`. -/
def zoom {τ ε' : Type} (part : σ → τ) (update : τ → σ → σ) (error : ε' → ε) (p : Act τ ε' α) :
    Act σ ε α := fun s =>
  match p (part s) with
  | .ok a t => .ok a (update t s)
  | .err e t => .err (error e) (update t s)
  | .crash t => .crash (update t s)

/-- Run the program of every element of a list, in order, up to the first error. -/
def forEach : List β → (β → Act σ ε Unit) → Act σ ε Unit
  | [], _ => pure ()
  | b :: l, f => do
    f b
    forEach l f

section Apply

variable (s : σ)

@[simp] theorem pure_apply (a : α) : (pure a : Act σ ε α) s = .ok a s := rfl

@[simp] theorem get_apply : (get : Act σ ε σ) s = .ok s s := rfl

@[simp] theorem modify_apply (f : σ → σ) : (modify f : Act σ ε PUnit) s = .ok () (f s) := rfl

@[simp] theorem ofExcept_ok_apply (a : α) : (ofExcept (.ok a) : Act σ ε α) s = .ok a s := rfl

@[simp] theorem ofExcept_error_apply (e : ε) : (ofExcept (.error e) : Act σ ε α) s = .err e s := rfl

@[simp] theorem ofOption_some_apply (a : α) (e : ε) :
    (ofOption (some a) e : Act σ ε α) s = .ok a s := rfl

@[simp] theorem ofOption_none_apply (e : ε) : (ofOption none e : Act σ ε α) s = .err e s := rfl

theorem failIf_apply (c : Prop) [Decidable c] (e : ε) :
    (failIf c e : Act σ ε Unit) s = if c then .err e s else .ok () s := by
  unfold failIf
  split <;> rfl

theorem orRollback_apply (p : Act σ ε α) (undo : σ → σ) : orRollback p undo s = match p s with
      | .ok a s' => .ok a s'
      | .err e s' => .err e (undo s')
      | .crash s' => .crash s' := rfl

theorem zoom_apply {τ ε' : Type} (part : σ → τ) (update : τ → σ → σ)
    (error : ε' → ε) (p : Act τ ε' α) : zoom part update error p s = match p (part s) with
      | .ok a t => .ok a (update t s)
      | .err e t => .err (error e) (update t s)
      | .crash t => .crash (update t s) := rfl

theorem zoom_of_ok {τ ε' : Type} {part : σ → τ} {update : τ → σ → σ} {error : ε' → ε}
    {p : Act τ ε' α} {s : σ} {a : α} {t : τ} (h : p (part s) = .ok a t) :
    zoom part update error p s = .ok a (update t s) := by
  rw [zoom_apply, h]

variable {p : Act σ ε α} {t : σ}

theorem caught_of_ok {ε' : Type} {s : σ} {a : α} (h : p s = .ok a t) :
    (caught p : Act σ ε' (Except ε α)) s = .ok (.ok a) t := by
  rw [caught, h]

theorem caught_of_err {ε' : Type} {s : σ} {e : ε} (h : p s = .err e t) :
    (caught p : Act σ ε' (Except ε α)) s = .ok (.error e) t := by
  rw [caught, h]

theorem caught_eq_ok {ε' : Type} {s t : σ} {r : Except ε α} : (caught p : Act σ ε' (Except ε α))
    s = .ok r t ↔ (∃ a, r = .ok a ∧ p s = .ok a t) ∨ ∃ e, r = .error e ∧ p s = .err e t := by
  unfold caught
  cases p s <;> cases r <;> simp

theorem zoom_of_err {τ ε' : Type} {part : σ → τ} {update : τ → σ → σ} {error : ε' → ε}
    {p : Act τ ε' α} {s : σ} {e : ε'} {t : τ} (h : p (part s) = .err e t) :
    zoom part update error p s = .err (error e) (update t s) := by
  rw [zoom_apply, h]

theorem zoom_of_crash {τ ε' : Type} {part : σ → τ} {update : τ → σ → σ} {error : ε' → ε}
    {p : Act τ ε' α} {s : σ} {t : τ} (h : p (part s) = .crash t) :
    zoom part update error p s = .crash (update t s) := by
  rw [zoom_apply, h]

theorem zoom_eq_ok {τ ε' : Type} {part : σ → τ} {update : τ → σ → σ} {error : ε' → ε}
    {p : Act τ ε' α} {s s' : σ} {a : α} :
    zoom part update error p s = .ok a s' ↔ ∃ t, p (part s) = .ok a t ∧ update t s = s' := by
  rw [zoom_apply]
  cases p (part s) <;> simp

theorem bind_apply (p : Act σ ε α) (f : α → Act σ ε β) : (p >>= f) s = match p s with
      | .ok a s' => f a s'
      | .err e s' => .err e s'
      | .crash s' => .crash s' := rfl

theorem attempt_apply (p : Act σ ε α) : attempt p s = match p s with
      | .ok a s' => .ok (.ok a) s'
      | .err e s' => .ok (.error e) s'
      | .crash s' => .crash s' := rfl

variable {s} {f : α → Act σ ε β}

theorem bind_of_ok {a : α} {s' : σ} (h : p s = .ok a s') : (p >>= f) s = f a s' := by
  rw [bind_apply, h]

theorem bind_of_err {e : ε} {s' : σ} (h : p s = .err e s') : (p >>= f) s = .err e s' := by
  rw [bind_apply, h]

theorem bind_of_crash {s' : σ} (h : p s = .crash s') : (p >>= f) s = .crash s' := by
  rw [bind_apply, h]

theorem pure_eq_ok {a b : α} : (pure a : Act σ ε α) s = .ok b t ↔ a = b ∧ s = t := by
  rw [pure_apply, Outcome.ok.injEq]

theorem ofExcept_eq_ok {x : Except ε α} {a : α} : ofExcept x s = .ok a t ↔ x = .ok a ∧ s = t := by
  cases x <;> simp [ofExcept]

theorem ofOption_eq_ok {x : Option α} {e : ε} {a : α} :
    ofOption x e s = .ok a t ↔ x = some a ∧ s = t := by
  cases x <;> simp

theorem failIf_eq_ok {c : Prop} [Decidable c] {e : ε} {u : Unit} :
    (failIf c e : Act σ ε Unit) s = .ok u t ↔ ¬c ∧ s = t := by
  rw [failIf_apply]
  split <;> simp [*]

theorem forEach_append_of_ok {f : β → Act σ ε Unit} : (l : List β) → {l' : List β} →
    {s : σ} → forEach l f s = .ok () t → forEach (l ++ l') f s = forEach l' f t
  | [], _, _, h => by
    rw [(pure_eq_ok.mp h).2]
    rfl
  | b :: l, l', s, h => by
    rw [forEach, bind_apply] at h
    cases hb : f b s with
    | ok u s' =>
      rw [hb] at h
      rw [List.cons_append, forEach, bind_of_ok hb, forEach_append_of_ok l h]
    | err e s' => rw [hb] at h; cases h
    | crash s' => rw [hb] at h; cases h

/-- A sequence that returns has run both of its parts. -/
theorem bind_eq_ok {b : β} : (p >>= f) s = .ok b t ↔ ∃ a s', p s = .ok a s' ∧ f a s' = .ok b t := by
  rw [bind_apply]
  cases p s <;> simp

theorem attempt_eq_ok {r : Except ε α} : attempt p s = .ok r t ↔
      (∃ a, r = .ok a ∧ p s = .ok a t) ∨ ∃ e, r = .error e ∧ p s = .err e t := by
  rw [attempt_apply]
  cases p s <;> cases r <;> simp

end Apply

instance : LawfulMonad (Act σ ε) :=
  LawfulMonad.mk' _
    (fun p => funext fun s => by
      change (p >>= fun a => pure a) s = p s
      rw [bind_apply]
      cases p s <;> rfl)
    (fun _ _ => rfl)
    (fun p f g => funext fun s => by
      simp only [bind_apply]
      cases p s <;> rfl)

/-! ### Weakest preconditions -/

/-- Started in `s`, the program returns in `Q`, fails in `E` or is cut off in `C`. -/
def wp (p : Act σ ε α) (Q : α → σ → Prop) (E : ε → σ → Prop) (C : σ → Prop) (s : σ) : Prop :=
  (p s).Sat Q E C

variable {Q Q' : α → σ → Prop} {E E' : ε → σ → Prop} {C C' : σ → Prop} {s : σ} {p : Act σ ε α}

theorem wp_mono (h : p.wp Q E C s) (hQ : ∀ a t, Q a t → Q' a t)
    (hE : ∀ e t, E e t → E' e t) (hC : ∀ t, C t → C' t) : p.wp Q' E' C' s := by
  unfold wp at h ⊢
  cases hp : p s with
  | ok a t => rw [hp] at h; exact hQ a t h
  | err e t => rw [hp] at h; exact hE e t h
  | crash t => rw [hp] at h; exact hC t h

@[simp] theorem wp_pure (a : α) : (pure a : Act σ ε α).wp Q E C s ↔ Q a s := Iff.rfl

@[simp] theorem wp_throw (e : ε) : (throw e : Act σ ε α).wp Q E C s ↔ E e s := Iff.rfl

@[simp] theorem wp_get {R : σ → σ → Prop} : (get : Act σ ε σ).wp R E C s ↔ R s s := Iff.rfl

@[simp] theorem wp_modify {R : PUnit → σ → Prop} (f : σ → σ) :
    (modify f : Act σ ε PUnit).wp R E C s ↔ R () (f s) := Iff.rfl

variable {R : β → σ → Prop}

@[simp] theorem wp_bind (p : Act σ ε α) (f : α → Act σ ε β) :
    (p >>= f).wp R E C s ↔ p.wp (fun a t => (f a).wp R E C t) E C s := by
  unfold wp
  rw [bind_apply]
  cases p s <;> rfl

theorem wp_imp (h : p.wp Q E C s) (hQ : ∀ a t, Q a t → Q' a t) : p.wp Q' E C s :=
  wp_mono h hQ (fun _ _ => id) (fun _ => id)

/-- A sequence, through a condition on what its first part leaves. -/
theorem wp_seq {f : α → Act σ ε β} (hp : p.wp Q E C s)
    (hf : ∀ a t, Q a t → (f a).wp R E C t) : (p >>= f).wp R E C s :=
  (wp_bind p f).mpr (wp_imp hp hf)

/-- A program that can neither fail nor be cut off returns. -/
theorem exists_of_wp (h : p.wp Q (fun _ _ => False) (fun _ => False) s) :
    ∃ a t, p s = .ok a t ∧ Q a t := by
  unfold wp at h
  cases hp : p s with
  | ok a t => rw [hp] at h; exact ⟨a, t, rfl, h⟩
  | err e t => rw [hp] at h; exact h.elim
  | crash t => rw [hp] at h; exact h.elim

theorem wp_attempt {R : Except ε α → σ → Prop} (p : Act σ ε α) :
    (attempt p).wp R E C s ↔ p.wp (fun a t => R (.ok a) t) (fun e t => R (.error e) t) C s := by
  unfold wp
  rw [attempt_apply]
  cases p s <;> rfl

theorem wp_ofExcept (x : Except ε α) : (ofExcept x).wp Q E C s ↔ match x with
      | .ok a => Q a s
      | .error e => E e s := by
  cases x <;> rfl

theorem wp_ofOption (x : Option α) (e : ε) : (ofOption x e).wp Q E C s ↔ match x with
      | some a => Q a s
      | none => E e s := by
  cases x <;> rfl

theorem wp_failIf {R : Unit → σ → Prop} {c : Prop} [Decidable c] {e : ε} :
    (failIf c e : Act σ ε Unit).wp R E C s ↔ (c → E e s) ∧ (¬c → R () s) := by
  unfold wp
  rw [failIf_apply]
  split <;> simp [*]

theorem wp_orRollback (p : Act σ ε α) (undo : σ → σ) :
    (orRollback p undo).wp Q E C s ↔ p.wp Q (fun e t => E e (undo t)) C s := by
  unfold wp
  rw [orRollback_apply]
  cases p s <;> rfl

theorem wp_zoom {τ ε' : Type} {part : σ → τ} {update : τ → σ → σ} {error : ε' → ε}
    (p : Act τ ε' α) : (zoom part update error p).wp Q E C s ↔ p.wp (fun a t => Q a (update t s))
    (fun e t => E (error e) (update t s)) (fun t => C (update t s)) (part s) := by
  unfold wp
  rw [zoom_apply]
  cases p (part s) <;> rfl

theorem wp_ite {c : Prop} [Decidable c] {p q : Act σ ε α} :
    (if c then p else q).wp Q E C s ↔ (c → p.wp Q E C s) ∧ (¬c → q.wp Q E C s) := by
  split <;> simp [*]

theorem wp_of_ok {a : α} {t : σ} (hp : p s = .ok a t) (h : Q a t) : p.wp Q E C s := by
  unfold wp
  rw [hp]
  exact h

theorem ok_of_wp (h : p.wp Q E C s) {a : α} {t : σ} (hp : p s = .ok a t) : Q a t := by
  unfold wp at h
  rwa [hp] at h

theorem err_of_wp (h : p.wp Q E C s) {e : ε} {t : σ} (hp : p s = .err e t) : E e t := by
  unfold wp at h
  rwa [hp] at h

theorem crash_of_wp (h : p.wp Q E C s) {t : σ} (hp : p s = .crash t) : C t := by
  unfold wp at h
  rwa [hp] at h

/-- A condition on the state that holds however the program ends. -/
theorem state_of_wp {I : σ → Prop} (h : p.wp (fun _ => I) (fun _ => I) I s) : I (p s).state := by
  unfold wp at h
  cases hp : p s <;> rw [hp] at h <;> exact h

/-- A condition on the results holds along with what the program was seen to do. -/
theorem wp_eq (h : p.wp Q E C s) : p.wp (fun a t => p s = .ok a t ∧ Q a t)
    (fun e t => p s = .err e t ∧ E e t) (fun t => p s = .crash t ∧ C t) s := by
  unfold wp at h ⊢
  cases hp : p s <;> rw [hp] at h <;> exact ⟨rfl, h⟩

/-- A sequence whose first part is known to return. -/
theorem wp_bind_of_ok {f : α → Act σ ε β} {a : α} {t : σ}
    (hp : p s = .ok a t) (hf : (f a).wp R E C t) : (p >>= f).wp R E C s :=
  (wp_bind p f).mpr (wp_of_ok hp hf)

/-- A sequence that starts with a check. -/
theorem wp_bind_failIf {c : Prop} [Decidable c] {e : ε} {f : Unit → Act σ ε β} (herr : c → E e s)
    (hf : ¬c → (f ()).wp R E C s) : ((failIf c e : Act σ ε Unit) >>= f).wp R E C s :=
  (wp_bind _ f).mpr (wp_failIf.mpr ⟨herr, hf⟩)

/-- A loop: an invariant on the elements still to come and the state reached. -/
theorem wp_forEach {f : β → Act σ ε Unit} (I : List β → σ → Prop)
    (step : ∀ b l t, I (b :: l) t → (f b).wp (fun _ t' => I l t') E C t) :
    ∀ (l : List β) (s : σ), I l s → (forEach l f).wp (fun _ t => I [] t) E C s
  | [], _, h => h
  | b :: l, s, h => by
    rw [forEach, wp_bind]
    exact wp_imp (step b l s h) fun _ t ht => wp_forEach I step l t ht

/-- A fold: an invariant on the elements still to come, the value and the state reached. -/
theorem wp_foldlM {f : β → α → Act σ ε β} (I : List α → β → σ → Prop)
    (step : ∀ a l b t, I (a :: l) b t → (f b a).wp (fun b' t' => I l b' t') E C t) :
    ∀ (l : List α) (b : β) (s : σ), I l b s → (l.foldlM f b).wp (fun b' t => I [] b' t) E C s
  | [], _, _, h => h
  | a :: l, b, s, h => by
    rw [List.foldlM_cons]
    exact wp_seq (step a l b s h) fun b' t ht => wp_foldlM I step l b' t ht

/-! ### Programs that return -/

/-- Started in `s`, the program returns, and its result and the state it leaves are in `Q`. -/
def Completes (p : Act σ ε α) (Q : α → σ → Prop) (s : σ) : Prop := ∃ a t, p s = .ok a t ∧ Q a t

namespace Completes

variable {p : Act σ ε α} {Q : α → σ → Prop}

theorem of_ok {a : α} {t : σ} (hp : p s = .ok a t) (h : Q a t) : p.Completes Q s := ⟨a, t, hp, h⟩

theorem bind {f : α → Act σ ε β} {R : β → σ → Prop}
    (hp : p.Completes Q s) (hf : ∀ a t, Q a t → (f a).Completes R t) : (p >>= f).Completes R s := by
  obtain ⟨a, t, hp, hQ⟩ := hp
  obtain ⟨b, u, hb, hR⟩ := hf a t hQ
  exact ⟨b, u, (bind_of_ok hp).trans hb, hR⟩

theorem bind_of_ok {f : α → Act σ ε β} {R : β → σ → Prop} {a : α} {t : σ}
    (hp : p s = .ok a t) (hf : (f a).Completes R t) : (p >>= f).Completes R s := by
  obtain ⟨b, u, hb, hR⟩ := hf
  exact ⟨b, u, (Act.bind_of_ok hp).trans hb, hR⟩

/-- A loop whose steps return and keep an invariant. -/
theorem forEach {f : β → Act σ ε Unit} {I : σ → Prop}
    (hf : ∀ b t, I t → (f b).Completes (fun _ t' => I t') t) :
    (l : List β) → {s : σ} → I s → (forEach l f).Completes (fun _ t => I t) s
  | [], _, h => ⟨(), _, rfl, h⟩
  | b :: l, s, h => (hf b s h).bind fun _ _ ht => forEach hf l ht

theorem of_wp (h : p.wp Q (fun _ _ => False) (fun _ => False) s) : p.Completes Q s := exists_of_wp h

theorem mono {Q Q' : α → σ → Prop} (h : p.Completes Q s)
    (hQ : ∀ a t, Q a t → Q' a t) : p.Completes Q' s := by
  obtain ⟨a, t, hp, hq⟩ := h
  exact ⟨a, t, hp, hQ a t hq⟩

end Completes

/-! ### What a program yields -/

/-- If the program, started in `s`, returns, its result and the state it leaves are in `Q`. -/
def Yields (p : Act σ ε α) (Q : α → σ → Prop) (s : σ) : Prop := ∀ a t, p s = .ok a t → Q a t

namespace Yields

theorem mono {p : Act σ ε α} {Q Q' : α → σ → Prop} (h : p.Yields Q s)
    (hQ : ∀ a t, Q a t → Q' a t) : p.Yields Q' s :=
  fun a t hp => hQ a t (h a t hp)

variable {Q : α → σ → Prop}

theorem bind {p : Act σ ε α} {f : α → Act σ ε β} {R : β → σ → Prop}
    (hp : p.Yields Q s) (hf : ∀ a t, Q a t → (f a).Yields R t) : (p >>= f).Yields R s := by
  intro b u h
  obtain ⟨a, t, ha, hb⟩ := bind_eq_ok.mp h
  exact hf a t (hp a t ha) b u hb

theorem bind_of_ok {p : Act σ ε α} {f : α → Act σ ε β} {R : β → σ → Prop} {a : α} {t : σ}
    (h : p s = .ok a t) (hf : (f a).Yields R t) : (p >>= f).Yields R s := by
  intro b u hb
  rw [Act.bind_of_ok h] at hb
  exact hf b u hb

theorem pure {a : α} (h : Q a s) : (Pure.pure a : Act σ ε α).Yields Q s := by
  intro b t hb
  obtain ⟨rfl, rfl⟩ := pure_eq_ok.mp hb
  exact h

theorem throw (e : ε) : (throw e : Act σ ε α).Yields Q s := nofun

theorem ite {c : Prop} [Decidable c] {p q : Act σ ε α}
    (hp : c → p.Yields Q s) (hq : ¬c → q.Yields Q s) : (if c then p else q).Yields Q s := by
  split
  · next h => exact hp h
  · next h => exact hq h

theorem forEach {f : β → Act σ ε Unit} (I : List β → σ → Prop)
    (step : ∀ b l t, I (b :: l) t → (f b).Yields (fun _ t' => I l t') t) :
    (l : List β) → {s : σ} → I l s → (forEach l f).Yields (fun _ t => I [] t) s
  | [], _, h => pure h
  | b :: l, s, h => (step b l s h).bind fun _ _ ht => forEach I step l ht

theorem foldlM {f : β → α → Act σ ε β} (I : List α → β → σ → Prop)
    (step : ∀ a l b t, I (a :: l) b t → (f b a).Yields (fun b' t' => I l b' t') t) :
    (l : List α) → {b : β} → {s : σ} → I l b s → (l.foldlM f b).Yields (fun b' t => I [] b' t) s
  | [], _, _, h => pure h
  | a :: l, b, s, h => by
    rw [List.foldlM_cons]
    exact (step a l b s h).bind fun _ _ ht => foldlM I step l ht

end Yields

/-! ### Programs that change nothing -/

/-- Started in `s`, the program returns or fails, and leaves the state as it is. -/
def Reads (p : Act σ ε α) (s : σ) : Prop := ∃ x : Except ε α, p s = ofExcept x s

namespace Reads

theorem ofExcept (x : Except ε α) : Reads (ofExcept x) s := ⟨x, rfl⟩

theorem pure (a : α) : Reads (Pure.pure a : Act σ ε α) s := ⟨.ok a, rfl⟩

theorem failIf {c : Prop} [Decidable c] {e : ε} : Reads (failIf c e : Act σ ε Unit) s := by
  refine ⟨if c then .error e else .ok (), ?_⟩
  rw [failIf_apply]
  split <;> rfl

theorem bind {p : Act σ ε α} {f : α → Act σ ε β} (hp : Reads p s) (hf : ∀ a, Reads (f a) s) :
    Reads (p >>= f) s := by
  obtain ⟨x, hx⟩ := hp
  cases x with
  | error e => exact ⟨.error e, bind_of_err hx⟩
  | ok a =>
    obtain ⟨y, hy⟩ := hf a
    exact ⟨y, (bind_of_ok hx).trans hy⟩

theorem eq_ok {p : Act σ ε α} {a : α} (hp : Reads p s) (h : (p s).result? = some (.ok a)) :
    p s = .ok a s := by
  obtain ⟨x, hx⟩ := hp
  rw [hx] at h ⊢
  cases x with
  | ok b =>
    obtain rfl := Except.ok.inj (Option.some.inj h)
    rfl
  | error e => cases h

theorem attempt {p : Act σ ε α} (hp : Reads p s) : ∃ x, attempt p s = .ok x s := by
  obtain ⟨x, hx⟩ := hp
  refine ⟨x, ?_⟩
  rw [attempt_apply, hx]
  cases x <;> rfl

theorem zoom {τ ε' : Type} {part : σ → τ} {update : τ → σ → σ} {error : ε' → ε} {p : Act τ ε' α}
    (hp : Reads p (part s)) (hs : update (part s) s = s) : Reads (zoom part update error p) s := by
  obtain ⟨x, hx⟩ := hp
  refine ⟨x.mapError error, ?_⟩
  rw [zoom_apply, hx]
  cases x with
  | ok a => exact congrArg _ hs
  | error e => exact congrArg _ hs

end Reads

/-! ### Programs that give the same answer -/

/-- Started in `s` and in `t`, the two programs give the same answer and change nothing. -/
def Alike (p : Act σ ε α) (s : σ) (q : Act σ ε α) (t : σ) : Prop :=
  ∃ x : Except ε α, p s = ofExcept x s ∧ q t = ofExcept x t

namespace Alike

variable {p q : Act σ ε α} {t : σ}

theorem ofExcept (x : Except ε α) : Alike (ofExcept x) s (ofExcept x) t := ⟨x, rfl, rfl⟩

theorem pure (a : α) : Alike (Pure.pure a : Act σ ε α) s (Pure.pure a) t := ⟨.ok a, rfl, rfl⟩

theorem failIf {c : Prop} [Decidable c] {e : ε} :
    Alike (failIf c e : Act σ ε Unit) s (failIf c e) t := by
  refine ⟨if c then .error e else .ok (), ?_, ?_⟩ <;> (rw [failIf_apply]; split <;> rfl)

theorem bind {f g : α → Act σ ε β} (hp : Alike p s q t)
    (hf : ∀ a, p s = .ok a s → Alike (f a) s (g a) t) : Alike (p >>= f) s (q >>= g) t := by
  obtain ⟨x, hx, hy⟩ := hp
  cases x with
  | error e => exact ⟨.error e, bind_of_err hx, bind_of_err hy⟩
  | ok a =>
    obtain ⟨y, hfx, hgy⟩ := hf a hx
    exact ⟨y, (bind_of_ok hx).trans hfx, (bind_of_ok hy).trans hgy⟩

theorem attempt (h : Alike p s q t) : Alike (attempt p) s (attempt q) t := by
  obtain ⟨x, hx, hy⟩ := h
  refine ⟨.ok x, ?_, ?_⟩
  · rw [attempt_apply, hx]
    cases x <;> rfl
  · rw [attempt_apply, hy]
    cases x <;> rfl

theorem zoom {τ ε' : Type} {part : σ → τ} {update : τ → σ → σ} {error : ε' → ε} {p q : Act τ ε' α}
    (h : Alike p (part s) q (part t)) (hs : update (part s) s = s) (ht : update (part t) t = t) :
    Alike (zoom part update error p) s (zoom part update error q) t := by
  obtain ⟨x, hx, hy⟩ := h
  refine ⟨x.mapError error, ?_, ?_⟩
  · rw [zoom_apply, hx]
    cases x <;> exact congrArg _ hs
  · rw [zoom_apply, hy]
    cases x <;> exact congrArg _ ht

/-- The second program returns what the first one does. -/
theorem ok (h : Alike p s q t) {a : α} {s' : σ} (hp : p s = .ok a s') : q t = .ok a t := by
  obtain ⟨x, hx, hy⟩ := h
  cases x with
  | error e => cases hx.symm.trans hp
  | ok b =>
    obtain ⟨rfl, -⟩ := Outcome.ok.inj (hx.symm.trans hp)
    exact hy

end Alike

/-! ### Invariants -/

/-- However `p` ends, it leaves a state in `I` when it starts in one; what it returns is in `R`. -/
def Keeps (I : σ → Prop) (p : Act σ ε α) (R : α → Prop := fun _ => True) : Prop :=
  ∀ s, I s → p.wp (fun a t => I t ∧ R a) (fun _ => I) I s

namespace Keeps

variable {I : σ → Prop} {R : α → Prop} {R' : β → Prop} {p : Act σ ε α}

theorem state (h : Keeps I p R) (hs : I s) : I (p s).state :=
  state_of_wp (wp_imp (h s hs) fun _ _ ht => ht.1)

theorem of_ok (h : Keeps I p R) (hs : I s) {a : α} {t : σ} (hp : p s = .ok a t) : I t ∧ R a := by
  have hw := h s hs
  unfold wp at hw
  rw [hp] at hw
  exact hw

theorem of_crash (h : Keeps I p R) (hs : I s) {t : σ} (hp : p s = .crash t) : I t := by
  have hstate := h.state hs
  rwa [hp] at hstate

theorem of_state (h : ∀ s, I s → I (p s).state) : Keeps I p := by
  intro s hs
  have hp := h s hs
  unfold wp
  cases hps : p s with
  | ok a t => rw [hps] at hp; exact ⟨hp, trivial⟩
  | err e t => rw [hps] at hp; exact hp
  | crash t => rw [hps] at hp; exact hp

theorem mono {R₂ : α → Prop} (h : Keeps I p R) (hR : ∀ a, R a → R₂ a) : Keeps I p R₂ :=
  fun s hs => wp_imp (h s hs) fun a _ ha => ⟨ha.1, hR a ha.2⟩

theorem weaken (h : Keeps I p R) : Keeps I p := h.mono fun _ _ => trivial

theorem pure {a : α} (h : R a) : Keeps I (Pure.pure a : Act σ ε α) R := fun _ hs => ⟨hs, h⟩

theorem throw (e : ε) : Keeps I (throw e : Act σ ε α) R := fun _ h => h

theorem get : Keeps I (get : Act σ ε σ) I := fun _ h => ⟨h, h⟩

theorem modify {f : σ → σ} (hf : ∀ s, I s → I (f s)) : Keeps I (modify f : Act σ ε PUnit) :=
  fun s h => ⟨hf s h, trivial⟩

theorem ofExcept {x : Except ε α} : Keeps I (ofExcept x : Act σ ε α) fun a => x = .ok a := by
  intro s h
  rw [wp_ofExcept]
  cases x with
  | ok a => exact ⟨h, rfl⟩
  | error e => exact h

theorem ofOption {x : Option α} {e : ε} :
    Keeps I (ofOption x e : Act σ ε α) fun a => x = some a := by
  intro s h
  rw [wp_ofOption]
  cases x with
  | some a => exact ⟨h, rfl⟩
  | none => exact h

theorem failIf {c : Prop} [Decidable c] {e : ε} :
    Keeps I (failIf c e : Act σ ε Unit) fun _ => ¬c := by
  intro s h
  rw [wp_failIf]
  exact ⟨fun _ => h, fun hc => ⟨h, hc⟩⟩

theorem zoom {τ ε' : Type} {part : σ → τ} {update : τ → σ → σ} {error : ε' → ε} {p : Act τ ε' α}
    (h : ∀ s, I s → I (update (p (part s)).state s)) : Keeps I (zoom part update error p) := by
  refine of_state fun s hs => ?_
  have hu := h s hs
  rw [zoom_apply]
  cases hp : p (part s) <;> rw [hp] at hu <;> exact hu

theorem bind {f : α → Act σ ε β} (hp : Keeps I p R) (hf : ∀ a, R a → Keeps I (f a) R') :
    Keeps I (p >>= f) R' := by
  intro s h
  rw [wp_bind]
  exact wp_imp (hp s h) fun a t ha => hf a ha.2 t ha.1

theorem attempt (hp : Keeps I p R) : Keeps I (attempt p) fun r => ∀ a, r = .ok a → R a := by
  intro s h
  rw [wp_attempt]
  refine wp_mono (hp s h) (fun a t ha => ⟨ha.1, ?_⟩) (fun e t ht => ⟨ht, ?_⟩) (fun _ => id)
  · rintro _ ⟨⟩
    exact ha.2
  · rintro _ ⟨⟩

theorem orRollback {undo : σ → σ} (hp : Keeps I p R) (hundo : ∀ s, I s → I (undo s)) :
    Keeps I (orRollback p undo) R := by
  intro s h
  rw [wp_orRollback]
  exact wp_mono (hp s h) (fun _ _ => id) (fun _ t => hundo t) (fun _ => id)

theorem ite {c : Prop} [Decidable c] {q : Act σ ε α} (hp : c → Keeps I p R)
    (hq : ¬c → Keeps I q R) : Keeps I (if c then p else q) R := by
  split
  · next h => exact hp h
  · next h => exact hq h

theorem forEach {f : β → Act σ ε Unit} : (l : List β) → (hf : ∀ b ∈ l, Keeps I (f b)) →
    Keeps I (forEach l f)
  | [], _ => pure trivial
  | b :: l, hf => bind (hf b List.mem_cons_self) fun _ _ =>
      forEach l fun b hb => hf b (List.mem_cons_of_mem _ hb)

theorem foldlM {f : β → α → Act σ ε β} (hf : ∀ b a, Keeps I (f b a)) :
    (l : List α) → (b : β) → Keeps I (l.foldlM f b)
  | [], _ => pure trivial
  | a :: l, b => by
    rw [List.foldlM_cons]
    exact bind (hf b a) fun b' _ => foldlM hf l b'

end Keeps

section WpOfKeeps

variable {I : σ → Prop} {R : α → Prop} {p : Act σ ε α}

/-- What a program that keeps an invariant does, from what it returns. -/
theorem wp_of_keeps (h : Keeps I p R) (hs : I s) (hQ : ∀ a t, p s = .ok a t → I t → R a → Q a t)
    (hE : ∀ e t, I t → E e t) (hC : ∀ t, I t → C t) : p.wp Q E C s := by
  have hw := h s hs
  unfold wp at hw ⊢
  cases hp : p s with
  | ok a t => rw [hp] at hw; exact hQ a t hp hw.1 hw.2
  | err e t => rw [hp] at hw; exact hE e t hw
  | crash t => rw [hp] at hw; exact hC t hw

/-- A sequence whose first part keeps an invariant. -/
theorem wp_bind_of_keeps {R' : β → σ → Prop} {f : α → Act σ ε β} (h : Keeps I p R) (hs : I s)
    (hf : ∀ a t, p s = .ok a t → I t → R a → (f a).wp R' E C t) (hE : ∀ e t, I t → E e t)
    (hC : ∀ t, I t → C t) : (p >>= f).wp R' E C s :=
  (wp_bind p f).mpr (wp_of_keeps h hs hf hE hC)

end WpOfKeeps

end Act

end CrashSafe
