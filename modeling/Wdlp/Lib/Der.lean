import Wdlp.Lib.Bytes

/-!
# DER integers

The content octets of a DER `INTEGER` are the shortest two's complement form of the number, the most
significant byte first. For a positive number given by its bytes this strips the leading zeros, and
puts one zero in front if the first byte would otherwise be read as a sign.

## Main results

* `derInteger_eq_self_iff` — the bytes that are their own encoding.
-/

namespace CrashSafe

/-- The content octets of the DER `INTEGER` with the value of the bytes, the most significant
first. -/
def derInteger (bytes : Bytes) : Bytes :=
  match bytes.dropWhile (· = 0) with
  | [] => [0]
  | first :: rest => if first < 0x80 then first :: rest else 0 :: first :: rest

/-- The first byte is neither redundant nor read as a sign. -/
def IsMinimal : Bytes → Prop
  | [] => False
  | [first] => first < 0x80
  | first :: second :: _ => (0 < first ∧ first < 0x80) ∨ (first = 0 ∧ 0x80 ≤ second)

instance : (bytes : Bytes) → Decidable (IsMinimal bytes)
  | [] => inferInstanceAs (Decidable False)
  | [_] => inferInstanceAs (Decidable (_ < _))
  | _ :: _ :: _ => inferInstanceAs (Decidable (_ ∨ _))

theorem derInteger_of_pos {first : UInt8} (h : 0 < first) (rest : Bytes) :
    derInteger (first :: rest) =
      if first < 0x80 then first :: rest else 0 :: first :: rest := by
  have hne : first ≠ 0 := fun heq => absurd (heq ▸ h) (by decide)
  simp [derInteger, hne]

@[simp] theorem derInteger_zero_cons (rest : Bytes) : derInteger (0 :: rest) = derInteger rest := by
  simp [derInteger]

/-- An encoding is never empty, and starts with a zero only in front of a large byte or alone. -/
theorem derInteger_cases (bytes : Bytes) : derInteger bytes = [0] ∨
    (∃ first rest, derInteger bytes = first :: rest ∧ 0 < first ∧ first < 0x80) ∨
    ∃ first rest, derInteger bytes = 0 :: first :: rest ∧ 0x80 ≤ first := by
  induction bytes with
  | nil => exact .inl rfl
  | cons first rest ih =>
    by_cases hzero : first = 0
    · rw [hzero, derInteger_zero_cons]
      exact ih
    · have hpos : 0 < first := UInt8.pos_iff_ne_zero.mpr hzero
      rw [derInteger_of_pos hpos]
      by_cases hsmall : first < 0x80
      · exact .inr (.inl ⟨first, rest, by rw [if_pos hsmall], hpos, hsmall⟩)
      · exact .inr (.inr ⟨first, rest, by rw [if_neg hsmall], UInt8.not_lt.mp hsmall⟩)

theorem isMinimal_derInteger (bytes : Bytes) : IsMinimal (derInteger bytes) := by
  rcases derInteger_cases bytes with h | ⟨first, rest, h, hpos, hsmall⟩ | ⟨first, rest, h, hlarge⟩
  · rw [h]
    decide
  · rw [h]
    cases rest with
    | nil => exact hsmall
    | cons => exact .inl ⟨hpos, hsmall⟩
  · rw [h]
    exact .inr ⟨rfl, hlarge⟩

/-- The bytes that are their own encoding are the minimal ones. -/
theorem derInteger_eq_self_iff (bytes : Bytes) : derInteger bytes = bytes ↔ IsMinimal bytes := by
  refine ⟨fun h => h ▸ isMinimal_derInteger bytes, fun h => ?_⟩
  match bytes, h with
  | [first], h =>
    by_cases hzero : first = 0
    · rw [hzero]
      rfl
    · have hsmall : first < 0x80 := h
      rw [derInteger_of_pos (UInt8.pos_iff_ne_zero.mpr hzero), if_pos hsmall]
  | first :: second :: rest, .inl ⟨hpos, hsmall⟩ => rw [derInteger_of_pos hpos, if_pos hsmall]
  | first :: second :: rest, .inr ⟨hzero, hlarge⟩ =>
    have hpos : 0 < second := UInt8.lt_of_lt_of_le (by decide) hlarge
    rw [hzero, derInteger_zero_cons, derInteger_of_pos hpos, if_neg (UInt8.not_lt.mpr hlarge)]

end CrashSafe
