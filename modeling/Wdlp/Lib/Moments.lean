import Wdlp.Lib.FileSystem

/-!
# Moments of a program

Others may look at the files while a program is between two of its steps on a disk. What they find
there is what the program leaves when it is cut off at this point. For a relation `R` that every
step goes along, the files at a moment are in `R` to the files at every later moment of the same
run (`Climbs.moments`).

## Main definitions

* `DiskView` — the files of a state, and the state with other fates ahead.
* `Climbs` — the program goes along `R` from moment to moment.

## Main results

* `Climbs.bind`, `Climbs.attempt`, `Climbs.forEach`, `Climbs.step` — the rules for programs.
* `Climbs.moments` — a moment and a later one.
-/

namespace CrashSafe

variable {σ ε α β : Type}

/-- The outcome with another state. -/
def Outcome.mapState (f : σ → σ) : Outcome σ ε α → Outcome σ ε α
  | ok a s => ok a (f s)
  | err e s => err e (f s)
  | crash s => crash (f s)

@[simp] theorem Outcome.state_mapState (f : σ → σ) (o : Outcome σ ε α) :
    (o.mapState f).state = f o.state := by
  cases o <;> rfl

/-- How a state has a disk: its files, and the state with other fates ahead. -/
structure DiskView (σ : Type) where
  fs : σ → Fs
  facing : σ → List Fate → σ
  fs_facing : ∀ s fates, fs (facing s fates) = fs s
  facing_facing : ∀ s fates fates', facing (facing s fates) fates' = facing s fates'

/-- Where a run stands after the fates `a`: the program has ended, whatever fates follow, or it is
at a moment at which it can be cut off, and from which it goes along `R`. -/
def Stands (V : DiskView σ) (R : Fs → Fs → Prop) (p : Act σ ε α) (s : σ) (a : List Fate) : Prop :=
  (∃ (o : Outcome σ ε α) (c : List Fate), ∀ b,
    p (V.facing s (a ++ b)) = o.mapState (V.facing · (c ++ b))) ∨
  ∃ fs, (∀ b, ∃ t, p (V.facing s (a ++ .crash 0 :: b)) = .crash t ∧ V.fs t = fs) ∧
    ∀ b, R fs (V.fs (p (V.facing s (a ++ b))).state)

/-- The program goes along `R`, as a whole and from each moment on. -/
structure Climbs (V : DiskView σ) (R : Fs → Fs → Prop) (p : Act σ ε α) : Prop where
  rises : ∀ s, R (V.fs s) (V.fs (p s).state)
  stands : ∀ s a, Stands V R p s a

namespace Climbs

variable {V : DiskView σ} {R : Fs → Fs → Prop} {p : Act σ ε α}

section

variable (hrefl : ∀ fs, R fs fs)

include hrefl

/-- The files at a moment and at a later one. -/
theorem moments (h : Climbs V R p) {s : σ} {a a' : List Fate} (ha : a <+: a') :
    R (V.fs (p (V.facing s (a ++ [.crash 0]))).state)
      (V.fs (p (V.facing s (a' ++ [.crash 0]))).state) := by
  obtain ⟨b, rfl⟩ := ha
  rw [List.append_assoc]
  obtain ⟨o, c, hends⟩ | ⟨fs, hcut, hrest⟩ := h.stands s a
  · rw [hends, hends, Outcome.state_mapState, Outcome.state_mapState, V.fs_facing, V.fs_facing]
    exact hrefl _
  · obtain ⟨t, hcrash, rfl⟩ := hcut []
    rw [hcrash, Outcome.state_crash]
    exact hrest _

/-- A computation without effects. -/
theorem ofExcept (x : Except ε α) : Climbs V R (Act.ofExcept x) where
  rises s := by
    cases x <;> exact hrefl _
  stands s a := by
    refine .inl ⟨Act.ofExcept x s, a, fun b => ?_⟩
    cases x <;> rfl

theorem pure (a : α) : Climbs V R (Pure.pure a : Act σ ε α) :=
  ofExcept hrefl (.ok a)

theorem failIf {c : Prop} [Decidable c] {e : ε} : Climbs V R (failIf c e : Act σ ε Unit) := by
  by_cases hc : c
  · rw [CrashSafe.failIf, if_pos hc]
    exact ofExcept hrefl (.error e)
  · rw [CrashSafe.failIf, if_neg hc]
    exact pure hrefl ()

/-- A change of the state that leaves the disk alone. -/
theorem modify {f : σ → σ} (hfs : ∀ s, V.fs (f s) = V.fs s)
    (hf : ∀ s fates, f (V.facing s fates) = V.facing (f s) fates) :
    Climbs V R (modify f : Act σ ε PUnit) where
  rises s := by
    rw [Act.modify_apply, Outcome.state_ok, hfs]
    exact hrefl _
  stands s a := by
    refine .inl ⟨.ok () (f s), a, fun b => ?_⟩
    rw [Act.modify_apply, hf]
    rfl

end

/-- A program that looks at parts of the state other than the fates. -/
theorem get_bind {f : σ → Act σ ε β} (hf : ∀ s fates, f (V.facing s fates) = f s)
    (h : ∀ s, Climbs V R (f s)) : Climbs V R (get >>= f) where
  rises s := (h s).rises s
  stands s a := by
    have hget : ∀ fates, (get >>= f) (V.facing s fates) = f s (V.facing s fates) := by
      intro fates
      rw [Act.bind_of_ok (Act.get_apply _), hf]
    unfold Stands
    simp only [hget]
    exact (h s).stands s a

theorem bind (htrans : ∀ x y z, R x y → R y z → R x z) {f : α → Act σ ε β}
    (hp : Climbs V R p) (hf : ∀ a, Climbs V R (f a)) : Climbs V R (p >>= f) := by
  have hend : ∀ {fs s}, R fs (V.fs (p s).state) → R fs (V.fs ((p >>= f) s).state) := by
    intro fs s hfs
    rw [Act.bind_apply]
    cases hps : p s with
    | ok a t =>
      rw [hps] at hfs
      exact htrans _ _ _ hfs ((hf a).rises t)
    | err e t => rwa [hps] at hfs
    | crash t => rwa [hps] at hfs
  refine ⟨fun s => hend (hp.rises s), fun s a => ?_⟩
  obtain ⟨o, c, hends⟩ | ⟨fs, hcut, hrest⟩ := hp.stands s a
  · cases o with
    | ok x t =>
      have hbind : ∀ b, (p >>= f) (V.facing s (a ++ b)) = f x (V.facing t (c ++ b)) :=
        fun b => Act.bind_of_ok (hends b)
      unfold Stands
      simp only [hbind]
      exact (hf x).stands t c
    | err e t => exact .inl ⟨.err e t, c, fun b => Act.bind_of_err (hends b)⟩
    | crash t => exact .inl ⟨.crash t, c, fun b => Act.bind_of_crash (hends b)⟩
  · refine .inr ⟨fs, fun b => ?_, fun b => hend (hrest b)⟩
    obtain ⟨t, hcrash, hfs⟩ := hcut b
    exact ⟨t, Act.bind_of_crash hcrash, hfs⟩

theorem attempt (hp : Climbs V R p) : Climbs V R (Act.attempt p) := by
  have hstate : ∀ s, (Act.attempt p s).state = (p s).state := by
    intro s
    rw [Act.attempt_apply]
    cases p s <;> rfl
  refine ⟨fun s => hstate s ▸ hp.rises s, fun s a => ?_⟩
  obtain ⟨o, c, hends⟩ | ⟨fs, hcut, hrest⟩ := hp.stands s a
  · cases o with
    | ok x t =>
      exact .inl ⟨.ok (.ok x) t, c, fun b => by rw [Act.attempt_apply, hends]; rfl⟩
    | err e t =>
      exact .inl ⟨.ok (.error e) t, c, fun b => by rw [Act.attempt_apply, hends]; rfl⟩
    | crash t => exact .inl ⟨.crash t, c, fun b => by rw [Act.attempt_apply, hends]; rfl⟩
  · refine .inr ⟨fs, fun b => ?_, fun b => hstate _ ▸ hrest b⟩
    obtain ⟨t, hcrash, hfs⟩ := hcut b
    exact ⟨t, by rw [Act.attempt_apply, hcrash], hfs⟩

theorem forEach (hrefl : ∀ fs, R fs fs) (htrans : ∀ x y z, R x y → R y z → R x z)
    {f : β → Act σ ε Unit} (hf : ∀ b, Climbs V R (f b)) : (l : List β) →
    Climbs V R (Act.forEach l f)
  | [] => pure hrefl ()
  | b :: l => bind htrans (hf b) fun _ => forEach hrefl htrans hf l

/-- A program of one step. -/
theorem step (hrises : ∀ s, R (V.fs s) (V.fs (p s).state))
    (hstep : ∀ s fate, ∃ o : Outcome σ ε α, ∀ b,
      p (V.facing s (fate :: b)) = o.mapState (V.facing · b))
    (hcut : ∀ s, ∃ fs, (∀ b, ∃ t, p (V.facing s (.crash 0 :: b)) = .crash t ∧ V.fs t = fs) ∧
      ∀ b, R fs (V.fs (p (V.facing s b)).state)) : Climbs V R p where
  rises := hrises
  stands s a := by
    cases a with
    | nil => exact .inr (hcut s)
    | cons fate c =>
      obtain ⟨o, ho⟩ := hstep s fate
      exact .inl ⟨o, c, fun b => ho (c ++ b)⟩

end Climbs

end CrashSafe
