import Wdlp.Lib.Text

/-!
# Wildcard patterns

The drive filters a directory listing by a pattern in which `*` stands for any characters and `?`
for one. The matcher is one loop that goes back only to the last star it has seen. The source keeps
indices into the pattern and the name; here each index is the part of the string from there on.

Lower-casing a character is that of Unicode, which is a parameter (`LowerCase`) of which nothing is
used but that no other character becomes a star.

## Main definitions

* `matchLoop` — the loop, bounded by a number of rounds; `matchesPattern` — the matcher.
* `Glob` — what a pattern stands for.
* `Accepts` — what the loop has still to decide at a state.

## Main results

* `LoopState.decides` — with enough rounds the loop decides what it has to.
* `matchesPattern_exact` — the matcher terminates and is exact on names without a star.
-/

namespace Wdlp

open CrashSafe

/-- The lower case of the characters; only the star has a star in it. -/
structure LowerCase where
  toLowercase : Char → Text
  star_of_mem : ∀ c, '*' ∈ toLowercase c → c = '*'

namespace LowerCase

/-- Lower case for the ASCII letters only. -/
def ascii : LowerCase where
  toLowercase c := asciiLower [c]
  star_of_mem c h := by
    have hstar : c.toLower = '*' := (List.mem_singleton.mp h).symm
    exact eq_of_toLower_eq (by decide) hstar

/-- The characters of a string in lower case. -/
def fold (U : LowerCase) (t : Text) : Text := t.flatMap U.toLowercase

theorem star_notMem_fold (U : LowerCase) {t : Text} (h : '*' ∉ t) : '*' ∉ U.fold t := by
  intro hmem
  obtain ⟨c, hc, hstar⟩ := List.mem_flatMap.mp hmem
  exact h (U.star_of_mem c hstar ▸ hc)

end LowerCase

/-! ### The matcher -/

/-- The loop over the name: `pattern` and `name` are what is left of the two from the current
indices on, and `star` is what followed the last star and the name from `match_index` on. No rounds
left is `none`. -/
def matchLoop : (rounds : ℕ) → (pattern name : Text) → (star : Option (Text × Text)) → Option Bool
  | _, pattern, [], _ => some (pattern.dropWhile (· == '*')).isEmpty
  | 0, _, _ :: _, _ => none
  | rounds + 1, pattern, c :: name, star =>
    if pattern.head? = some c ∨ pattern.head? = some '?' then
      matchLoop rounds pattern.tail name star
    else if pattern.head? = some '*' then
      matchLoop rounds pattern.tail (c :: name) (some (pattern.tail, c :: name))
    else match star with
      | some (afterStar, matched) =>
        matchLoop rounds afterStar matched.tail (some (afterStar, matched.tail))
      | none => some false

theorem matchLoop_nil (rounds : ℕ) (pattern : Text) (star : Option (Text × Text)) :
    matchLoop rounds pattern [] star = some (pattern.dropWhile (· == '*')).isEmpty := by
  cases rounds <;> rfl

theorem matchLoop_cons (rounds : ℕ) (pattern name : Text) (c : Char)
    (star : Option (Text × Text)) : matchLoop (rounds + 1) pattern (c :: name) star =
      if pattern.head? = some c ∨ pattern.head? = some '?' then
        matchLoop rounds pattern.tail name star
      else if pattern.head? = some '*' then
        matchLoop rounds pattern.tail (c :: name) (some (pattern.tail, c :: name))
      else match star with
        | some (afterStar, matched) =>
          matchLoop rounds afterStar matched.tail (some (afterStar, matched.tail))
        | none => some false := rfl

/-- A bound on the rounds that the loop makes. -/
def roundsFor (pattern name : Text) : ℕ := (name.length + 2) * (name.length + pattern.length)

/-- `wildmatch::matches`. -/
def matchesPattern (U : LowerCase) (pattern name : Text) : Bool :=
  let pattern := U.fold pattern
  let name := U.fold name
  (matchLoop (roundsFor pattern name) pattern name none).getD false

/-! ### What a pattern stands for -/

/-- The names a pattern stands for. -/
inductive Glob : Text → Text → Prop
  | nil : Glob [] []
  | any {pattern name} (c : Char) (h : Glob pattern name) : Glob ('?' :: pattern) (c :: name)
  | char {pattern name} (c : Char) (hstar : c ≠ '*') (hany : c ≠ '?') (h : Glob pattern name) :
      Glob (c :: pattern) (c :: name)
  | star {pattern name} (skipped : Text) (h : Glob pattern name) :
      Glob ('*' :: pattern) (skipped ++ name)

namespace Glob

variable {pattern name before : Text} {q c : Char}

theorem nil_iff : Glob [] name ↔ name = [] := by
  constructor
  · rintro ⟨⟩
    rfl
  · rintro rfl
    exact .nil

/-- A star stands for any number of characters. -/
theorem star_iff : Glob ('*' :: pattern) name ↔ ∃ k, Glob pattern (name.drop k) := by
  constructor
  · intro h
    cases h with
    | char _ hstar => exact absurd rfl hstar
    | star skipped h => exact ⟨skipped.length, by rwa [List.drop_left]⟩
  · rintro ⟨k, h⟩
    rw [← List.take_append_drop k name]
    exact .star _ h

/-- Any other character of the pattern stands for one character. -/
theorem cons_iff (hq : q ≠ '*') : Glob (q :: pattern) name ↔ ∃ c
    rest, name = c :: rest ∧ (q = c ∨ q = '?') ∧ Glob pattern rest := by
  constructor
  · intro h
    cases h with
    | any c h => exact ⟨c, _, rfl, .inr rfl, h⟩
    | char _ _ _ h => exact ⟨q, _, rfl, .inl rfl, h⟩
    | star => exact absurd rfl hq
  · rintro ⟨c, rest, rfl, hqc, h⟩
    by_cases hany : q = '?'
    · subst hany
      exact .any c h
    · obtain rfl := hqc.resolve_right hany
      exact .char q hq hany h

/-- A part of the pattern without a star takes its length from the name. -/
theorem of_append (hbefore : '*' ∉ before) (h : Glob (before ++ pattern) name) :
    before.length ≤ name.length ∧ Glob pattern (name.drop before.length) := by
  induction before generalizing name with
  | nil => exact ⟨Nat.zero_le _, h⟩
  | cons q before ih =>
    rw [List.mem_cons, not_or] at hbefore
    obtain ⟨c, rest, rfl, -, h⟩ := (cons_iff (Ne.symm hbefore.1)).mp h
    obtain ⟨hlen, h⟩ := ih hbefore.2 h
    exact ⟨Nat.succ_le_succ hlen, h⟩

/-- A star also takes what was dropped before it. -/
theorem star_of_drop {k : ℕ} (h : Glob ('*' :: pattern) (name.drop k)) :
    Glob ('*' :: pattern) name := by
  obtain ⟨j, h⟩ := star_iff.mp h
  exact star_iff.mpr ⟨k + j, by rwa [List.drop_drop] at h⟩

/-- Nothing is left to match: the rest of the pattern is stars. -/
theorem on_nil : Glob pattern [] ↔ (pattern.dropWhile (· == '*')).isEmpty = true := by
  induction pattern with
  | nil => simp [nil_iff]
  | cons q pattern ih =>
    by_cases hq : q = '*'
    · subst hq
      simpa [star_iff] using ih
    · simp [cons_iff hq, hq]

end Glob

/-! ### Correctness of the loop -/

/-- What is to be decided at a state of the loop: the rest matches, or the last star can take at
least one more character. -/
def Accepts (pattern name : Text) (star : Option (Text × Text)) : Prop :=
  Glob pattern name ∨ ∃ afterStar matched, star = some (afterStar, matched) ∧
    ∃ k, 1 ≤ k ∧ Glob afterStar (matched.drop k)

/-- The states of the loop: since the last star only characters were matched one by one, and
`bound` bounds what can be left of the pattern and the name together. -/
structure LoopState (bound : ℕ) (pattern name : Text) (star : Option (Text × Text)) : Prop where
  plain : '*' ∉ name
  size : name.length + pattern.length ≤ bound
  since : ∀ afterStar matched, star = some (afterStar, matched) →
    '*' ∉ matched ∧ matched.length + afterStar.length ≤ bound ∧
      ∃ before, '*' ∉ before ∧ afterStar = before ++ pattern ∧
        before.length ≤ matched.length ∧ name = matched.drop before.length

/-- The rounds that are left at most. Going back makes the part from `match_index` on shorter. -/
def roundsLeft (bound : ℕ) (pattern name : Text) : Option (Text × Text) → ℕ
  | none => (name.length + 1) * bound + (name.length + pattern.length)
  | some (_, matched) => matched.length * bound + (name.length + pattern.length)

namespace LoopState

variable {bound : ℕ} {pattern name afterStar matched : Text} {star : Option (Text × Text)}
  {q c : Char}

/-- At the end of the name the last star has nothing more to offer. -/
theorem accepts_nil (h : LoopState bound pattern [] star) :
    Accepts pattern [] star ↔ Glob pattern [] := by
  refine ⟨fun haccepts => haccepts.elim id ?_, .inl⟩
  rintro ⟨afterStar, matched, rfl, k, hk, hglob⟩
  obtain ⟨-, -, before, hbefore, rfl, hlen, hnil⟩ := h.since _ _ rfl
  obtain ⟨htaken, hglob⟩ := Glob.of_append hbefore hglob
  rw [List.length_drop] at htaken
  have hmatched : matched.length ≤ before.length := List.drop_eq_nil_iff.mp hnil.symm
  have hzero : matched = [] := List.eq_nil_of_length_eq_zero (by omega)
  rwa [hzero, List.drop_nil, List.drop_nil] at hglob

/-- One character was matched. -/
theorem next (h : LoopState bound (q :: pattern) (c :: name) star) (hq : q ≠ '*') :
    LoopState bound pattern name star where
  plain := fun hmem => h.plain (List.mem_cons_of_mem c hmem)
  size := by
    have := h.size
    simp only [List.length_cons] at this
    omega
  since afterStar matched hstar := by
    obtain ⟨hplain, hsize, before, hbefore, hafter, hlen, hname⟩ := h.since _ _ hstar
    have hlonger : before.length < matched.length := by
      by_contra hnot
      rw [List.drop_eq_nil_iff.mpr (Nat.le_of_not_lt hnot)] at hname
      cases hname
    refine ⟨hplain, hsize, before ++ [q], ?_, ?_, ?_, ?_⟩
    · simpa [hbefore] using hq.symm
    · rw [hafter, List.append_assoc, List.singleton_append]
    · simpa using hlonger
    · rw [List.length_append, List.length_singleton, ← List.drop_drop, ← hname]
      rfl

theorem accepts_next (hq : q ≠ '*') (hqc : q = c ∨ q = '?') :
    Accepts (q :: pattern) (c :: name) star ↔ Accepts pattern name star := by
  have hglob : Glob (q :: pattern) (c :: name) ↔ Glob pattern name := by
    rw [Glob.cons_iff hq]
    constructor
    · rintro ⟨c', rest, hcons, -, h⟩
      cases hcons
      exact h
    · exact fun h => ⟨c, name, rfl, hqc, h⟩
  rw [Accepts, Accepts, hglob]

/-- A star was found. -/
theorem atStar (h : LoopState bound ('*' :: pattern) name star) :
    LoopState bound pattern name (some (pattern, name)) where
  plain := h.plain
  size := by
    have := h.size
    simp only [List.length_cons] at this
    omega
  since afterStar matched hstar := by
    cases hstar
    have := h.size
    simp only [List.length_cons] at this
    exact ⟨h.plain, by omega, [], List.not_mem_nil, rfl, Nat.zero_le _, rfl⟩

/-- With a new star the one before it need not be looked at again: whatever it would take more, the
new one can take. -/
theorem accepts_atStar (h : LoopState bound ('*' :: pattern) name star) :
    Accepts ('*' :: pattern) name star ↔ Accepts pattern name (some (pattern, name)) := by
  have hnew : Accepts pattern name (some (pattern, name)) ↔ Glob ('*' :: pattern) name := by
    rw [Glob.star_iff]
    constructor
    · rintro (hglob | ⟨afterStar, matched, hstar, k, -, hglob⟩)
      · exact ⟨0, hglob⟩
      · cases hstar
        exact ⟨k, hglob⟩
    · rintro ⟨k, hglob⟩
      rcases Nat.eq_zero_or_pos k with rfl | hk
      · exact .inl hglob
      · exact .inr ⟨pattern, name, rfl, k, hk, hglob⟩
  rw [hnew]
  refine ⟨fun haccepts => haccepts.elim id ?_, .inl⟩
  rintro ⟨afterStar, matched, rfl, k, -, hglob⟩
  obtain ⟨-, -, before, hbefore, rfl, -, rfl⟩ := h.since _ _ rfl
  have hrest := (Glob.of_append hbefore hglob).2
  rw [List.drop_drop, Nat.add_comm, ← List.drop_drop] at hrest
  exact hrest.star_of_drop

/-- The loop goes back to the last star. -/
theorem back (h : LoopState bound pattern (c :: name) (some (afterStar, matched))) :
    LoopState bound afterStar matched.tail (some (afterStar, matched.tail)) := by
  obtain ⟨hplain, hsize, -⟩ := h.since _ _ rfl
  have htail : '*' ∉ matched.tail := fun hmem => hplain (List.mem_of_mem_tail hmem)
  have hlen : matched.tail.length + afterStar.length ≤ bound := by
    rw [List.length_tail]
    omega
  refine ⟨htail, hlen, fun a m hstar => ?_⟩
  cases hstar
  exact ⟨htail, hlen, [], List.not_mem_nil, rfl, Nat.zero_le _, rfl⟩

theorem accepts_back (hno : ¬Glob pattern name) : Accepts pattern name (some (afterStar, matched)) ↔
    Accepts afterStar matched.tail (some (afterStar, matched.tail)) := by
  constructor
  · rintro (hglob | ⟨a, m, hstar, k, hk, hglob⟩)
    · exact absurd hglob hno
    cases hstar
    obtain ⟨k, rfl⟩ := Nat.exists_eq_add_of_le hk
    rw [Nat.add_comm, ← List.drop_tail] at hglob
    rcases Nat.eq_zero_or_pos k with rfl | hk'
    · exact .inl hglob
    · exact .inr ⟨_, _, rfl, k, hk', hglob⟩
  · rintro (hglob | ⟨a, m, hstar, k, hk, hglob⟩)
    · exact .inr ⟨_, _, rfl, 1, le_rfl, by rwa [List.drop_one]⟩
    cases hstar
    exact .inr ⟨_, _, rfl, k + 1, Nat.succ_pos k, by rwa [← List.drop_tail]⟩

/-- Where the pattern has neither the next character nor a wildcard, nothing matches. -/
theorem stuck (hchar : ¬(pattern.head? = some c ∨ pattern.head? = some '?'))
    (hstar : ¬pattern.head? = some '*') : ¬Glob pattern (c :: name) := by
  cases pattern with
  | nil => simp [Glob.nil_iff]
  | cons q pattern =>
    simp only [List.head?_cons, Option.some.injEq] at hchar hstar
    rw [Glob.cons_iff hstar]
    rintro ⟨c', rest, hcons, hqc, -⟩
    cases hcons
    exact hchar hqc

theorem matched_ne_nil (h : LoopState bound pattern (c :: name) (some (afterStar, matched))) :
    matched ≠ [] := by
  rintro rfl
  obtain ⟨-, -, before, -, -, -, hname⟩ := h.since _ _ rfl
  rw [List.drop_nil] at hname
  cases hname

/-- A round that matches a character or finds a star leaves fewer rounds. -/
theorem roundsLeft_next :
    roundsLeft bound pattern name star < roundsLeft bound (q :: pattern) (c :: name) star := by
  rcases star with _ | ⟨afterStar, matched⟩ <;>
    simp only [roundsLeft, List.length_cons, Nat.add_mul] <;> omega

theorem roundsLeft_atStar (h : LoopState bound ('*' :: pattern) name star) : roundsLeft
    bound pattern name (some (pattern, name)) < roundsLeft bound ('*' :: pattern) name star := by
  rcases star with _ | ⟨afterStar, matched⟩
  · simp only [roundsLeft, List.length_cons, Nat.add_mul]
    omega
  · obtain ⟨-, -, before, -, -, -, hname⟩ := h.since _ _ rfl
    have hle : name.length * bound ≤ matched.length * bound := by
      refine Nat.mul_le_mul_right bound ?_
      rw [hname, List.length_drop]
      omega
    simp only [roundsLeft, List.length_cons]
    omega

theorem roundsLeft_back (h : LoopState bound pattern (c :: name) (some (afterStar, matched))) :
    roundsLeft bound afterStar matched.tail (some (afterStar, matched.tail)) <
      roundsLeft bound pattern (c :: name) (some (afterStar, matched)) := by
  obtain ⟨-, hsize, -⟩ := h.since _ _ rfl
  obtain ⟨first, rest, rfl⟩ := List.exists_cons_of_ne_nil h.matched_ne_nil
  simp only [roundsLeft, List.tail_cons, List.length_cons, Nat.add_mul] at hsize ⊢
  omega

/-- With enough rounds the loop decides what it has to. -/
theorem decides {rounds : ℕ} (h : LoopState bound pattern name star)
    (hrounds : roundsLeft bound pattern name star ≤ rounds) : ∃ answer, matchLoop
    rounds pattern name star = some answer ∧ (answer = true ↔ Accepts pattern name star) := by
  induction rounds generalizing pattern name star with
  | zero =>
    cases name with
    | nil => exact ⟨_, matchLoop_nil .., by rw [h.accepts_nil, Glob.on_nil]⟩
    | cons c name =>
      rcases star with _ | ⟨afterStar, matched⟩ <;>
        simp only [roundsLeft, List.length_cons] at hrounds <;> omega
  | succ rounds ih =>
    cases name with
    | nil => exact ⟨_, matchLoop_nil .., by rw [h.accepts_nil, Glob.on_nil]⟩
    | cons c name =>
      rw [matchLoop_cons]
      split_ifs with hchar hstar
      · obtain ⟨q, pattern, rfl⟩ : ∃ q rest, pattern = q :: rest :=
          List.exists_cons_of_ne_nil (by rintro rfl; simp at hchar)
        simp only [List.head?_cons, Option.some.injEq] at hchar
        have hq : q ≠ '*' := by
          rintro rfl
          rcases hchar with rfl | hchar
          · exact h.plain List.mem_cons_self
          · exact absurd hchar (by decide)
        rw [accepts_next hq hchar]
        exact ih (h.next hq) (Nat.le_of_lt_succ (roundsLeft_next.trans_le hrounds))
      · obtain ⟨pattern, rfl⟩ : ∃ rest, pattern = '*' :: rest :=
          List.head?_eq_some_iff.mp hstar
        rw [h.accepts_atStar]
        exact ih h.atStar (Nat.le_of_lt_succ (h.roundsLeft_atStar.trans_le hrounds))
      · have hno : ¬Glob pattern (c :: name) := stuck hchar hstar
        rcases star with _ | ⟨afterStar, matched⟩
        · refine ⟨false, rfl, ?_⟩
          simp [Accepts, hno]
        · rw [accepts_back hno]
          exact ih h.back (Nat.le_of_lt_succ (h.roundsLeft_back.trans_le hrounds))

end LoopState

/-- The matcher terminates, whatever further rounds it is given, and is exact: for a name without
a star it answers whether the name in lower case can be split by the pattern in lower case. -/
theorem matchesPattern_exact (U : LowerCase) (pattern name : Text) (hname : '*' ∉ name) :
    (∀ rounds, roundsFor (U.fold pattern) (U.fold name) ≤ rounds →
      matchLoop rounds (U.fold pattern) (U.fold name) none =
        some (matchesPattern U pattern name)) ∧
    (matchesPattern U pattern name = true ↔ Glob (U.fold pattern) (U.fold name)) := by
  have hstart : LoopState ((U.fold name).length + (U.fold pattern).length) (U.fold pattern)
      (U.fold name) none :=
    ⟨U.star_notMem_fold hname, le_rfl, fun _ _ h => by cases h⟩
  have hleft : roundsLeft ((U.fold name).length + (U.fold pattern).length) (U.fold pattern)
      (U.fold name) none = roundsFor (U.fold pattern) (U.fold name) := by
    simp only [roundsLeft, roundsFor]
    ring
  have hdecides : ∀ rounds, roundsFor (U.fold pattern) (U.fold name) ≤ rounds →
      ∃ answer, matchLoop rounds (U.fold pattern) (U.fold name) none = some answer ∧
        (answer = true ↔ Glob (U.fold pattern) (U.fold name)) := by
    intro rounds hrounds
    obtain ⟨answer, hloop, hanswer⟩ := hstart.decides (hleft.trans_le hrounds)
    refine ⟨answer, hloop, hanswer.trans ?_⟩
    simp [Accepts]
  obtain ⟨answer, hloop, hanswer⟩ := hdecides _ le_rfl
  have hmatches : matchesPattern U pattern name = answer := by
    simp only [matchesPattern, hloop, Option.getD_some]
  refine ⟨fun rounds hrounds => ?_, hmatches ▸ hanswer⟩
  obtain ⟨other, hother, hsame⟩ := hdecides rounds hrounds
  rw [hother, hmatches, Option.some.injEq, Bool.eq_iff_iff, hsame, hanswer]

theorem matchesPattern_exact_sample :
    '*' ∉ "aab".toList ∧ matchesPattern .ascii "*A?".toList "aab".toList = true ∧
      Glob (LowerCase.ascii.fold "*A?".toList) (LowerCase.ascii.fold "aab".toList) :=
  ⟨by decide, by decide,
    (matchesPattern_exact .ascii "*A?".toList "aab".toList (by decide)).2.mp (by decide)⟩

end Wdlp
