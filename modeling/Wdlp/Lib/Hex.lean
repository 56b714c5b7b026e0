import Wdlp.Lib.Text

/-!
# Hexadecimal strings

A byte string is printed as two lower-case digits for each byte (`hexEncode`) and read back two
bytes at a time (`hexPairs`). The reader takes what a number parser of radix 16 takes: digits in
either case, and a plus sign in place of the first digit of a byte.

## Main results

* `hexPairs_hexEncode` — a byte string is read back.
* `hexEncode_inj`, `length_utf8_hexEncode` — the printed form tells byte strings apart, and has two
  bytes for each byte.
* `hexPairs_of_isHex`, `isHex_of_hexPairs` — without plus signs, what is read are the digits of an
  even number of characters, and they are the printed form up to letter case.
-/

namespace CrashSafe

/-- Two lower-case digits for each byte. -/
def hexEncode (bs : Bytes) : Text :=
  bs.flatMap fun b => [Nat.digitChar (b.toNat / 16), Nat.digitChar (b.toNat % 16)]

/-- The value of a digit. -/
def hexNibble (byte : UInt8) : Option ℕ :=
  if 48 ≤ byte ∧ byte ≤ 57 then some (byte.toNat - 48)
  else if 97 ≤ byte ∧ byte ≤ 102 then some (byte.toNat - 87)
  else if 65 ≤ byte ∧ byte ≤ 70 then some (byte.toNat - 55)
  else none

/-- The value of two digits, or of one behind a plus sign. -/
def hexByte (first second : UInt8) : Option UInt8 :=
  if first = 43 then (hexNibble second).map UInt8.ofNat
  else do
    let high ← hexNibble first
    let low ← hexNibble second
    return UInt8.ofNat (16 * high + low)

/-- The bytes printed two digits at a time. -/
def hexPairs : Bytes → Option Bytes
  | [] => some []
  | [_] => none
  | first :: second :: rest => do
    let byte ← hexByte first second
    let bytes ← hexPairs rest
    return byte :: bytes

/-- The byte of a digit. -/
private theorem utf8_digitChar (n : Fin 16) : ∃ byte,
    String.utf8EncodeChar (Nat.digitChar n) = [byte] ∧ hexNibble byte = some n.val ∧ byte ≠ 43 := by
  fin_cases n <;> exact ⟨_, rfl, by decide, by decide⟩

private theorem hexEncode_cons (b : UInt8) (bs : Bytes) : ∃ high low,
    utf8 (hexEncode (b :: bs)) = high :: low :: utf8 (hexEncode bs) ∧ hexByte high low = some b := by
  have hb := b.toNat_lt
  obtain ⟨high, hhigh, hvalue, hplus⟩ := utf8_digitChar ⟨b.toNat / 16, by omega⟩
  obtain ⟨low, hlow, hvalue', -⟩ := utf8_digitChar ⟨b.toNat % 16, by omega⟩
  refine ⟨high, low, ?_, ?_⟩
  · simp only [hexEncode, utf8, List.flatMap_cons, List.flatMap_append, List.flatMap_nil,
      List.append_nil] at hhigh hlow ⊢
    rw [hhigh, hlow]
    rfl
  · rw [hexByte, if_neg hplus, hvalue, hvalue']
    simp only [Option.bind_eq_bind, Option.bind_some, Option.pure_def, Option.some.injEq]
    rw [show 16 * (b.toNat / 16) + b.toNat % 16 = b.toNat by omega, UInt8.ofNat_toNat]

/-- A byte string is read back from its printed form. -/
theorem hexPairs_hexEncode (bs : Bytes) : hexPairs (utf8 (hexEncode bs)) = some bs := by
  induction bs with
  | nil => rfl
  | cons b bs ih =>
    obtain ⟨high, low, hcons, hbyte⟩ := hexEncode_cons b bs
    rw [hcons, hexPairs, hbyte, ih]
    rfl

theorem hexEncode_inj {x y : Bytes} (h : hexEncode x = hexEncode y) : x = y := by
  have hx := hexPairs_hexEncode x
  rw [h, hexPairs_hexEncode] at hx
  exact (Option.some.inj hx).symm

theorem length_utf8_hexEncode (bs : Bytes) : (utf8 (hexEncode bs)).length = 2 * bs.length := by
  induction bs with
  | nil => rfl
  | cons b bs ih =>
    obtain ⟨high, low, hcons, -⟩ := hexEncode_cons b bs
    rw [hcons, List.length_cons, List.length_cons, ih, List.length_cons]
    omega

/-! ### Digits -/

/-- The character is a digit, in either case. -/
def isHexDigit (c : Char) : Bool :=
  ('0' ≤ c && c ≤ '9') || ('a' ≤ c && c ≤ 'f') || ('A' ≤ c && c ≤ 'F')

/-- The string has digits only. -/
def IsHex (t : Text) : Prop := ∀ c ∈ t, isHexDigit c = true

instance (t : Text) : Decidable (IsHex t) := inferInstanceAs (Decidable (∀ c ∈ t, _))

theorem lt_of_hexNibble {byte : UInt8} (h : (hexNibble byte).isSome = true) : byte.toNat < 128 := by
  unfold hexNibble at h
  split_ifs at h with h₁ h₂ h₃
  · exact lt_of_le_of_lt (UInt8.le_iff_toNat_le.mp h₁.2) (by decide)
  · exact lt_of_le_of_lt (UInt8.le_iff_toNat_le.mp h₂.2) (by decide)
  · exact lt_of_le_of_lt (UInt8.le_iff_toNat_le.mp h₃.2) (by decide)
  · cases h

variable {c : Char}

theorem isHexDigit_iff : isHexDigit c = true ↔ (48 ≤ c.toNat ∧ c.toNat ≤ 57) ∨
    (97 ≤ c.toNat ∧ c.toNat ≤ 102) ∨ (65 ≤ c.toNat ∧ c.toNat ≤ 70) := by
  simp only [isHexDigit, Bool.or_eq_true, Bool.and_eq_true, decide_eq_true_eq, or_assoc]
  rfl

private theorem isHexDigit_spec_fin : ∀ n : Fin 128, isHexDigit (Char.ofNat n) = true →
    String.utf8EncodeChar (Char.ofNat n) = [UInt8.ofNat n] ∧ hexNibble (UInt8.ofNat n) = some
    ((hexNibble (UInt8.ofNat n)).getD 0) ∧ (hexNibble (UInt8.ofNat n)).getD 0 < 16 ∧ UInt8.ofNat
    n ≠ 43 ∧ (Char.ofNat n).toLower = Nat.digitChar ((hexNibble (UInt8.ofNat n)).getD 0) := by
  decide +kernel

/-- The byte of a digit, its value, and the digit in lower case. -/
theorem isHexDigit_spec (h : isHexDigit c = true) : ∃ (byte : UInt8) (n : ℕ),
    String.utf8EncodeChar c = [byte] ∧ hexNibble byte = some n ∧ n < 16 ∧ byte ≠ 43 ∧
      c.toLower = Nat.digitChar n := by
  have hlt : c.toNat < 128 := by
    have := isHexDigit_iff.mp h
    omega
  have hspec := isHexDigit_spec_fin ⟨c.toNat, hlt⟩
  rw [Char.ofNat_toNat] at hspec
  exact ⟨_, _, hspec h⟩

/-- A byte with the value of a digit belongs to a digit. -/
theorem isHexDigit_of_hexNibble {byte : UInt8} (hbyte : byte ∈ String.utf8EncodeChar c)
    (h : (hexNibble byte).isSome = true) : isHexDigit c = true := by
  rw [isHexDigit_iff, (utf8EncodeChar_of_mem hbyte (lt_of_hexNibble h)).1]
  unfold hexNibble at h
  split_ifs at h with h₁ h₂ h₃
  · exact .inl ⟨UInt8.le_iff_toNat_le.mp h₁.1, UInt8.le_iff_toNat_le.mp h₁.2⟩
  · exact .inr (.inl ⟨UInt8.le_iff_toNat_le.mp h₂.1, UInt8.le_iff_toNat_le.mp h₂.2⟩)
  · exact .inr (.inr ⟨UInt8.le_iff_toNat_le.mp h₃.1, UInt8.le_iff_toNat_le.mp h₃.2⟩)
  · cases h

theorem hexByte_eq_some {first second byte : UInt8} (h : hexByte first second = some byte) :
    (first = 43 ∨ (hexNibble first).isSome = true) ∧ (hexNibble second).isSome = true := by
  unfold hexByte at h
  split_ifs at h with hplus
  · obtain ⟨low, hlow, -⟩ := Option.map_eq_some_iff.mp h
    exact ⟨.inl hplus, by rw [hlow]; rfl⟩
  · obtain ⟨high, hhigh, h⟩ := Option.bind_eq_some_iff.mp h
    obtain ⟨low, hlow, -⟩ := Option.bind_eq_some_iff.mp h
    exact ⟨.inr (by rw [hhigh]; rfl), by rw [hlow]; rfl⟩

/-- Every byte that is read is a digit or a plus sign. -/
theorem hexNibble_of_hexPairs : (bytes : Bytes) → {bs : Bytes} → hexPairs bytes = some bs →
    ∀ byte ∈ bytes, byte = 43 ∨ (hexNibble byte).isSome = true
  | [], _, _ => nofun
  | [_], _, h => nomatch h
  | first :: second :: rest, _, h => by
    obtain ⟨byte, hbyte, h⟩ := Option.bind_eq_some_iff.mp h
    obtain ⟨bytes, hrest, -⟩ := Option.bind_eq_some_iff.mp h
    obtain ⟨hfirst, hsecond⟩ := hexByte_eq_some hbyte
    intro x hx
    rcases List.mem_cons.mp hx with rfl | hx
    · exact hfirst
    · rcases List.mem_cons.mp hx with rfl | hx
      · exact .inr hsecond
      · exact hexNibble_of_hexPairs rest hrest x hx

/-- Without plus signs, only digits are read. -/
theorem isHex_of_hexPairs {t : Text} {bs : Bytes} (h : hexPairs (utf8 t) = some bs)
    (hplus : '+' ∉ t) : IsHex t := by
  intro c hc
  obtain ⟨byte, hbyte⟩ := List.exists_mem_of_ne_nil _ (String.utf8EncodeChar_ne_nil (c := c))
  have hmem : byte ∈ utf8 t := List.mem_flatMap.mpr ⟨c, hc, hbyte⟩
  rcases hexNibble_of_hexPairs _ h byte hmem with rfl | hdigit
  · have hchar : c.toNat = 43 := (utf8EncodeChar_of_mem hbyte (by decide)).1
    have hc' : c = '+' := by
      rw [← Char.ofNat_toNat c, hchar]
    exact absurd (hc' ▸ hc) hplus
  · exact isHexDigit_of_hexNibble hbyte hdigit

/-- Pairs of digits are read, and printing what was read gives them back in lower case. -/
theorem hexPairs_of_isHex : (t : Text) → IsHex t → Even (utf8 t).length →
    ∃ bs, hexPairs (utf8 t) = some bs ∧ hexEncode bs = asciiLower t
  | [], _, _ => ⟨[], rfl, rfl⟩
  | [c], hhex, heven => by
    obtain ⟨byte, n, hbyte, -⟩ := isHexDigit_spec (hhex c List.mem_cons_self)
    rw [utf8_cons, hbyte, utf8_nil] at heven
    exact absurd (show Even 1 from heven) (by decide)
  | c :: d :: rest, hhex, heven => by
    obtain ⟨first, high, hfirst, hhigh, hhlt, hplus, hclower⟩ :=
      isHexDigit_spec (hhex c List.mem_cons_self)
    obtain ⟨second, low, hsecond, hlow, hllt, -, hdlower⟩ :=
      isHexDigit_spec (hhex d (List.mem_cons_of_mem _ List.mem_cons_self))
    have hutf8 : utf8 (c :: d :: rest) = first :: second :: utf8 rest := by
      rw [utf8_cons, utf8_cons, hfirst, hsecond]
      rfl
    have heven' : Even (utf8 rest).length := by
      rw [hutf8, List.length_cons, List.length_cons, add_assoc] at heven
      exact (Nat.even_add.mp heven).mpr (by decide)
    obtain ⟨bs, hbs, hlower⟩ := hexPairs_of_isHex rest (fun x hx =>
      hhex x (List.mem_cons_of_mem _ (List.mem_cons_of_mem _ hx))) heven'
    have hvalue : (UInt8.ofNat (16 * high + low)).toNat = 16 * high + low :=
      UInt8.toNat_ofNat_of_lt' (show 16 * high + low < 256 by omega)
    refine ⟨UInt8.ofNat (16 * high + low) :: bs, ?_, ?_⟩
    · rw [hutf8, hexPairs, hexByte, if_neg hplus, hhigh, hlow, hbs]
      rfl
    · have hdiv : (16 * high + low) / 16 = high := by omega
      have hmod : (16 * high + low) % 16 = low := by omega
      rw [hexEncode, List.flatMap_cons, hvalue, hdiv, hmod, ← hclower, ← hdlower]
      exact congrArg (fun t => c.toLower :: d.toLower :: t) hlower

end CrashSafe
