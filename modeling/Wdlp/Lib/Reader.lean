import Wdlp.Lib.Text

/-!
# Reading fields from a byte string

A `Reader` takes a value from the front of a byte string and leaves the rest, or fails. Readers
are sequenced in `do` notation; `Reader.bind_of_ok` runs the first of a sequence, so that the
reader of a format is run field by field on what its writer has written.

## Main definitions

* `Reader`, `Reader.take`, `Reader.word`, `Reader.beWord`, `Reader.field`, `Reader.repeatedly` —
  readers of bytes, of words, of bytes behind their length and of a number of equal fields.

## Main results

* `Reader.take_eq_ok`, `Reader.word_eq_ok`, `Reader.field_eq_ok` — each reads what was written, and
  nothing else; `Reader.repeatedly_append` and `Reader.repeatedly_eq_ok` for a number of fields.
* `Reader.Whole` — readers that accept no longer string than one they accept.
-/

namespace CrashSafe

/-- Take a value from the front of a byte string. -/
abbrev Reader (ε α : Type) := StateT Bytes (Except ε) α

namespace Reader

variable {ε α β : Type}

/-- The next `count` bytes, or the error `e` when there are fewer. -/
def take (e : ε) (count : ℕ) : Reader ε Bytes := fun rest =>
  if count ≤ rest.length then .ok (rest.take count, rest.drop count) else .error e

/-- The number of bytes left. -/
def remaining : Reader ε ℕ := fun rest => .ok (rest.length, rest)

/-- The next word of `width` bytes. -/
def word (e : ε) (width : ℕ) : Reader ε ℕ := do
  let raw ← take e width
  return ofLeBytes raw

/-- The next word of `width` bytes, the most significant first. -/
def beWord (e : ε) (width : ℕ) : Reader ε ℕ := do
  let raw ← take e width
  return ofBeBytes raw

/-- Bytes behind their length. -/
def field (e : ε) : Reader ε Bytes := do
  let length ← beWord e 4
  take e length

/-- A number of fields, one after the other. -/
def repeatedly (field : Reader ε α) : ℕ → Reader ε (List α)
  | 0 => pure []
  | count + 1 => do
    let a ← field
    let rest ← repeatedly field count
    return a :: rest

section Run

variable {e : ε} {s s' : Bytes} {f : α → Reader ε β} {x : Reader ε α}

theorem bind_of_ok {a : α} (h : x s = .ok (a, s')) : (x >>= f) s = f a s' := by
  change (x s >>= fun p => f p.1 p.2) = _
  rw [h]
  rfl

theorem bind_of_error (h : x s = .error e) : (x >>= f) s = .error e := by
  change (x s >>= fun p => f p.1 p.2) = _
  rw [h]
  rfl

@[simp] theorem pure_run (a : α) : (pure a : Reader ε α) s = .ok (a, s) := rfl

@[simp] theorem throw_run : (throw e : Reader ε α) s = .error e := rfl

@[simp] theorem remaining_run : (remaining : Reader ε ℕ) s = .ok (s.length, s) := rfl

variable {c : Prop}

theorem failIf_pos [Decidable c] (h : c) : (failIf c e : Reader ε Unit) s = .error e := by
  rw [failIf, if_pos h, throw_run]

theorem failIf_neg [Decidable c] (h : ¬c) : (failIf c e : Reader ε Unit) s = .ok ((), s) := by
  rw [failIf, if_neg h, pure_run]

@[simp] theorem pure_eq_ok {a b : α} : (pure a : Reader ε α) s = .ok (b, s') ↔ a = b ∧ s = s' := by
  rw [pure_run, Except.ok.injEq, Prod.mk.injEq]

@[simp] theorem failIf_eq_ok [Decidable c] {u : Unit} :
    (failIf c e : Reader ε Unit) s = .ok (u, s') ↔ ¬c ∧ s = s' := by
  by_cases h : c
  · simp [failIf_pos h, h]
  · simp [failIf_neg h, h]

@[simp] theorem remaining_eq_ok {n : ℕ} :
    (remaining : Reader ε ℕ) s = .ok (n, s') ↔ s.length = n ∧ s = s' := by
  rw [remaining_run, Except.ok.injEq, Prod.mk.injEq]

theorem bind_eq_ok {p : β × Bytes} :
    (x >>= f) s = .ok p ↔ ∃ a s', x s = .ok (a, s') ∧ f a s' = .ok p := by
  change (x s >>= fun q => f q.1 q.2) = _ ↔ _
  cases h : x s with
  | error e => simp [Bind.bind, Except.bind]
  | ok q =>
    obtain ⟨a, s'⟩ := q
    simp [Bind.bind, Except.bind]

/-- Bytes are taken from the front. -/
theorem take_eq_ok {count : ℕ} {x : Bytes} :
    (take e count : Reader ε Bytes) s = .ok (x, s') ↔ x.length = count ∧ s = x ++ s' := by
  unfold take
  constructor
  · intro h
    split_ifs at h with hle
    obtain ⟨rfl, rfl⟩ := Prod.mk.inj (Except.ok.inj h)
    exact ⟨by rw [List.length_take, Nat.min_eq_left hle], (List.take_append_drop _ _).symm⟩
  · rintro ⟨rfl, rfl⟩
    rw [if_pos (by simp), List.take_left, List.drop_left]

variable {width n : ℕ}

/-- A word is read where it was written, and only there. -/
theorem word_eq_ok : (word e width : Reader ε ℕ) s = .ok (n, s') ↔
      n < 256 ^ width ∧ s = leBytes width n ++ s' := by
  simp only [word, bind_eq_ok, take_eq_ok, pure_eq_ok]
  constructor
  · rintro ⟨raw, _, ⟨rfl, rfl⟩, rfl, rfl⟩
    exact ⟨ofLeBytes_lt raw, by rw [leBytes_ofLeBytes]⟩
  · rintro ⟨hn, rfl⟩
    exact ⟨_, _, ⟨length_leBytes width n, rfl⟩, ofLeBytes_leBytes width n hn, rfl⟩

theorem beWord_eq_ok : (beWord e width : Reader ε ℕ) s = .ok (n, s') ↔
      n < 256 ^ width ∧ s = beBytes width n ++ s' := by
  simp only [beWord, bind_eq_ok, take_eq_ok, pure_eq_ok]
  constructor
  · rintro ⟨raw, _, ⟨rfl, rfl⟩, rfl, rfl⟩
    exact ⟨ofBeBytes_lt raw, by rw [beBytes_ofBeBytes]⟩
  · rintro ⟨hn, rfl⟩
    exact ⟨_, _, ⟨length_beBytes width n, rfl⟩, ofBeBytes_beBytes width n hn, rfl⟩

/-- Bytes behind their length are read where they were written, and only there. -/
theorem field_eq_ok {x : Bytes} :
    (field e : Reader ε Bytes) s = .ok (x, s') ↔ x.length < 256 ^ 4 ∧ s = framed x ++ s' := by
  simp only [field, framed, bind_eq_ok, beWord_eq_ok, take_eq_ok]
  constructor
  · rintro ⟨_, _, ⟨hlength, rfl⟩, rfl, rfl⟩
    exact ⟨hlength, (List.append_assoc _ _ _).symm⟩
  · rintro ⟨hlength, rfl⟩
    exact ⟨_, _, ⟨hlength, List.append_assoc _ _ _⟩, rfl, rfl⟩

theorem take_append {count : ℕ} {x : Bytes} (h : x.length = count) :
    (take e count : Reader ε Bytes) (x ++ s) = .ok (x, s) :=
  take_eq_ok.mpr ⟨h, rfl⟩

theorem word_append (h : n < 256 ^ width) :
    (word e width : Reader ε ℕ) (leBytes width n ++ s) = .ok (n, s) :=
  word_eq_ok.mpr ⟨h, rfl⟩

theorem beWord_append (h : n < 256 ^ width) :
    (beWord e width : Reader ε ℕ) (beBytes width n ++ s) = .ok (n, s) :=
  beWord_eq_ok.mpr ⟨h, rfl⟩

theorem field_append {x : Bytes} (h : x.length < 256 ^ 4) :
    (field e : Reader ε Bytes) (framed x ++ s) = .ok (x, s) :=
  field_eq_ok.mpr ⟨h, rfl⟩

variable {field : Reader ε α} {write : α → Bytes}

/-- Equal fields are read back. -/
theorem repeatedly_append (h : ∀ a s, field (write a ++ s) = .ok (a, s)) : (l : List α) →
    repeatedly field l.length (l.flatMap write ++ s) = .ok (l, s)
  | [] => rfl
  | a :: l => by
    rw [List.length_cons, List.flatMap_cons, List.append_assoc, repeatedly, bind_of_ok (h a _),
      bind_of_ok (repeatedly_append h l), pure_run]

/-- Equal fields are read where they were written, and only there. -/
theorem repeatedly_eq_ok
    (h : ∀ s a s', field s = .ok (a, s') → s = write a ++ s') : (count : ℕ) → {l : List α} →
    {s s' : Bytes} → repeatedly field count s = .ok (l, s') →
    l.length = count ∧ s = l.flatMap write ++ s'
  | 0, l, s, s', hrun => by
    obtain ⟨rfl, rfl⟩ := pure_eq_ok.mp hrun
    exact ⟨rfl, rfl⟩
  | count + 1, l, s, s', hrun => by
    obtain ⟨a, s₁, ha, hrun⟩ := bind_eq_ok.mp hrun
    obtain ⟨rest, s₂, hrest, hrun⟩ := bind_eq_ok.mp hrun
    obtain ⟨rfl, rfl⟩ := pure_eq_ok.mp hrun
    obtain ⟨rfl, rfl⟩ := repeatedly_eq_ok h count hrest
    exact ⟨rfl, by rw [h s a _ ha, List.flatMap_cons, List.append_assoc]⟩

end Run

/-! ### Longer strings -/

/-- The reader does not look behind what it takes. -/
def Extends (x : Reader ε α) : Prop :=
  ∀ s a s' rest, x s = .ok (a, s') → x (s ++ rest) = .ok (a, s' ++ rest)

/-- The reader takes a string to its end: it accepts no longer one. -/
def Whole (x : Reader ε α) : Prop :=
  ∀ s rest p q, x s = .ok p → x (s ++ rest) = .ok q → rest = []

namespace Extends

variable {e : ε}

theorem pure (a : α) : Extends (Pure.pure a : Reader ε α) := by
  intro s b s' rest h
  obtain ⟨rfl, rfl⟩ := Prod.mk.inj (Except.ok.inj h)
  rfl

theorem throw : Extends (throw e : Reader ε α) := nofun

theorem bind {x : Reader ε α} {f : α → Reader ε β} (hx : Extends x) (hf : ∀ a, Extends (f a)) :
    Extends (x >>= f) := by
  intro s b s' rest h
  obtain ⟨a, s₁, hxs, hfa⟩ := bind_eq_ok.mp h
  exact bind_eq_ok.mpr ⟨a, s₁ ++ rest, hx s a s₁ rest hxs, hf a s₁ b s' rest hfa⟩

theorem take (count : ℕ) : Extends (take e count) := by
  intro s a s' rest h
  unfold Reader.take at h ⊢
  split_ifs at h with hle
  obtain ⟨rfl, rfl⟩ := Prod.mk.inj (Except.ok.inj h)
  rw [if_pos (by rw [List.length_append]; omega), List.take_append_of_le_length hle,
    List.drop_append_of_le_length hle]

theorem word (width : ℕ) : Extends (word e width) := bind (take width) fun _ => pure _

theorem failIf {c : Prop} [Decidable c] : Extends (failIf c e : Reader ε Unit) := by
  unfold CrashSafe.failIf
  split_ifs
  · exact throw
  · exact pure ()

theorem lift (x : Except ε α) : Extends (liftM x : Reader ε α) := by
  cases x with
  | ok a => exact pure a
  | error e => exact fun _ _ _ _ h => nomatch h

end Extends

variable {f : α → Reader ε β}

theorem Whole.bind {x : Reader ε α} (hx : Extends x) (hf : ∀ a, Whole (f a)) : Whole (x >>= f) := by
  intro s rest p q hp hq
  obtain ⟨a, s₁, hxs, hfa⟩ := bind_eq_ok.mp hp
  obtain ⟨a', s₁', hxs', hfa'⟩ := bind_eq_ok.mp hq
  obtain ⟨rfl, rfl⟩ := Prod.mk.inj (Except.ok.inj ((hx s a s₁ rest hxs).symm.trans hxs'))
  exact hf a s₁ rest p q hfa hfa'

/-- The number of bytes left is checked, and the check admits one number only. -/
theorem Whole.remaining {e : ε} {c : ℕ → Prop} [DecidablePred c] {f : ℕ → Reader ε β}
    (hc : ∀ m n, ¬c m → ¬c n → m = n) :
    Whole (do let n ← remaining; failIf (c n) e; f n : Reader ε β) := by
  intro s rest p q hp hq
  obtain ⟨m, s₁, hm, hp⟩ := bind_eq_ok.mp hp
  obtain ⟨rfl, rfl⟩ := remaining_eq_ok.mp hm
  obtain ⟨n, s₂, hn, hq⟩ := bind_eq_ok.mp hq
  obtain ⟨rfl, rfl⟩ := remaining_eq_ok.mp hn
  obtain ⟨_, _, hp, -⟩ := bind_eq_ok.mp hp
  obtain ⟨_, _, hq, -⟩ := bind_eq_ok.mp hq
  have hlength := hc _ _ (failIf_eq_ok.mp hp).1 (failIf_eq_ok.mp hq).1
  rw [List.length_append] at hlength
  exact List.length_eq_zero_iff.mp (by omega)

/-- What comes after a reader that takes the string to its end does not matter. -/
theorem Whole.andThen {x : Reader ε α} (hx : Whole x) : Whole (x >>= f) := by
  intro s rest p q hp hq
  obtain ⟨a, s₁, hxs, -⟩ := bind_eq_ok.mp hp
  obtain ⟨a', s₁', hxs', -⟩ := bind_eq_ok.mp hq
  exact hx s rest _ _ hxs hxs'

end Reader

end CrashSafe
