import Wdlp.Lib.Hex
import Wdlp.Service.Fingerprint

/-!
# Reading hexadecimal strings

The server reads the serial number of a credential that is to be replaced and the seed of its
signing key from hexadecimal strings, and the provisioning tool reads digests from them. Each reader
takes two bytes at a time and hands them to a number parser of radix 16. The first reader takes the
bytes themselves; the other two cut the string, which panics inside a character.

The number parser takes a plus sign in place of the first digit, and so do the readers. On all other
strings they read exactly the digits, except that a cut inside a character stops the latter two.

## Main definitions

* `decodePriorSerial`, `decodeSigningSeed`, `hexDecode` — the readers.
* `ReadsHex` — what is expected of a reader.
* `Signed`, `Torn` — the strings on which it does not hold.

## Main results

* `hex_decoders_exact_iff` — where the readers do what is expected.
-/

namespace Wdlp

open CrashSafe

/-! ### Cutting strings -/

/-- What a function that may panic does. -/
inductive Evaluation (α : Type) where
  | returns (result : α)
  | panics
  deriving DecidableEq

/-- The result, if there is one, put through a function. -/
def Evaluation.map {α β : Type} (f : α → β) : Evaluation α → Evaluation β
  | returns result => returns (f result)
  | panics => panics

/-- The byte offset lies between two characters, or at an end. -/
def isCharBoundary : Text → ℕ → Bool
  | _, 0 => true
  | [], _ + 1 => false
  | c :: t, offset + 1 => c.utf8Size ≤ offset + 1 && isCharBoundary t (offset + 1 - c.utf8Size)

/-- The bytes of a part of a string. -/
def strSlice (value : Text) (start stop : ℕ) : Evaluation Bytes :=
  if isCharBoundary value start && isCharBoundary value stop then
    .returns (((utf8 value).drop start).take (stop - start))
  else .panics

/-! ### Readers -/

/-- The number parser, on two bytes. -/
def fromStrRadix : Bytes → Option UInt8
  | [first, second] => hexByte first second
  | _ => none

/-- The bytes that a string stands for, two at a time from an offset on. The first pair that is
rejected ends the reading. -/
def decodeSlices (value : Text) : (count start : ℕ) → Evaluation (Option Bytes)
  | 0, _ => .returns (some [])
  | count + 1, start =>
    match strSlice value start (start + 2) with
    | .panics => .panics
    | .returns pair =>
      match fromStrRadix pair with
      | none => .returns none
      | some byte => (decodeSlices value count (start + 2)).map (Option.map (byte :: ·))

/-- The status that a request is answered with. -/
inductive StatusCode where
  | badRequest
  deriving DecidableEq

/-- The loop of `decode_prior_serial` over the pairs of bytes. -/
def serialPairs : Bytes → Except StatusCode Bytes
  | first :: second :: rest => do
    let pair ← (fromUtf8 [first, second]).elim (.error .badRequest) .ok
    let byte ← (fromStrRadix (utf8 pair)).elim (.error .badRequest) .ok
    let serial ← serialPairs rest
    return byte :: serial
  | _ => .ok []

/-- The lengths of a serial number that is taken. -/
def PriorSerialLength (length : ℕ) : Prop := ¬(length < 2 ∨ length > 40 ∨ length % 2 ≠ 0)

instance (length : ℕ) : Decidable (PriorSerialLength length) := inferInstanceAs (Decidable (¬_))

/-- `decode_prior_serial`. -/
def decodePriorSerial : (value : Option Text) → Except StatusCode (Option Bytes)
  | none => .ok none
  | some value =>
    if PriorSerialLength (utf8 value).length then (serialPairs (utf8 value)).map some
    else .error .badRequest

/-- The errors of the server at its start. -/
inductive ServerError where
  | missingProvider (provider : Text)
  deriving DecidableEq

/-- `decode_signing_seed`. -/
def decodeSigningSeed (value : Text) : Evaluation (Except ServerError Bytes) :=
  let missing := ServerError.missingProvider "configuration_signer".toList
  if (utf8 value).length ≠ 64 then .returns (.error missing)
  else (decodeSlices value 32 0).map fun seed => seed.elim (.error missing) .ok

/-- The string without its white space. -/
def compact (value : Text) : Text := value.filter fun c => !isWhitespace c

/-- `hex_decode`. -/
def hexDecode (value : Text) : Evaluation (Option Bytes) :=
  if (utf8 (compact value)).length % 2 ≠ 0 then .returns none
  else decodeSlices (compact value) ((utf8 (compact value)).length / 2) 0

/-! ### What is expected -/

/-- A reader returns. It takes the strings of the permitted lengths that have digits only, and the
bytes that it reads are printed as the string, up to letter case. -/
def ReadsHex (permitted : ℕ → Prop) (value : Text) (result : Evaluation (Option Bytes)) : Prop :=
  (permitted (utf8 value).length ∧ IsHex value →
    ∃ bytes, result = .returns (some bytes) ∧ hexEncode bytes = asciiLower value) ∧
  (¬(permitted (utf8 value).length ∧ IsHex value) → result = .returns none)

/-- The string is read, and has a plus sign. -/
def Signed (value : Text) : Prop := '+' ∈ value ∧ (hexPairs (utf8 value)).isSome = true

/-- After some pairs that are read, the next pair does not begin and end between characters. -/
def TornFrom (value : Text) (start : ℕ) : Prop :=
  ∃ k, start + 2 * k + 2 ≤ (utf8 value).length ∧
    (∀ j < k, (fromStrRadix (((utf8 value).drop (start + 2 * j)).take 2)).isSome = true) ∧
    (isCharBoundary value (start + 2 * k) && isCharBoundary value (start + 2 * k + 2)) = false

def Torn (value : Text) : Prop := TornFrom value 0

/-! ### Readers that cut the string -/

section Slices

variable {value : Text} {start : ℕ}

theorem tornFrom_iff (hlength : start + 2 ≤ (utf8 value).length) : TornFrom value start ↔
    (isCharBoundary value start && isCharBoundary value (start + 2)) = false ∨
      (fromStrRadix (((utf8 value).drop start).take 2)).isSome = true ∧
        TornFrom value (start + 2) := by
  constructor
  · rintro ⟨_ | k, hk, hread, hcut⟩
    · exact Or.inl hcut
    · refine Or.inr ⟨hread 0 k.succ_pos, k, by omega, fun j hj => ?_, ?_⟩
      · have hnext := hread (j + 1) (by omega)
        rwa [show start + 2 * (j + 1) = start + 2 + 2 * j by ring] at hnext
      · rwa [show start + 2 * (k + 1) = start + 2 + 2 * k by ring] at hcut
  · rintro (hcut | ⟨hfirst, k, hk, hread, hcut⟩)
    · exact ⟨0, hlength, nofun, hcut⟩
    · refine ⟨k + 1, by omega, fun j hj => ?_, ?_⟩
      · cases j with
        | zero => exact hfirst
        | succ j =>
          rw [show start + 2 * (j + 1) = start + 2 + 2 * j by ring]
          exact hread j (by omega)
      · rwa [show start + 2 * (k + 1) = start + 2 + 2 * k by ring]

/-- The next two bytes. -/
theorem drop_eq_cons_cons (bytes : Bytes) (start : ℕ) (h : start + 2 ≤ bytes.length) : ∃ first second,
    bytes.drop start = first :: second :: bytes.drop (start + 2) :=
  ⟨bytes[start], bytes[start + 1], by
    rw [List.drop_eq_getElem_cons (by omega), List.drop_eq_getElem_cons (by omega)]⟩

/-- The loop panics exactly on what is torn, and otherwise reads the bytes in pairs. -/
theorem decodeSlices_eq : (count start : ℕ) → start + 2 * count = (utf8 value).length →
    (TornFrom value start → decodeSlices value count start = .panics) ∧
      (¬TornFrom value start →
        decodeSlices value count start = .returns (hexPairs ((utf8 value).drop start)))
  | 0, start, hlength => by
    refine ⟨fun ⟨k, hk, _⟩ => by omega, fun _ => ?_⟩
    rw [List.drop_of_length_le (by omega)]
    rfl
  | count + 1, start, hlength => by
    obtain ⟨first, second, hdrop⟩ := drop_eq_cons_cons (utf8 value) start (by omega)
    have hpair : ((utf8 value).drop start).take 2 = [first, second] := by
      rw [hdrop]
      rfl
    have ih := decodeSlices_eq count (start + 2) (by omega)
    rw [tornFrom_iff (by omega), decodeSlices, strSlice, Nat.add_sub_cancel_left, hpair, hdrop,
      hexPairs]
    cases hcut : isCharBoundary value start && isCharBoundary value (start + 2) with
    | false => exact ⟨fun _ => rfl, fun h => absurd (Or.inl rfl) h⟩
    | true =>
      simp only [if_true, fromStrRadix, Bool.true_eq_false, false_or]
      cases hexByte first second with
      | none => exact ⟨fun h => absurd h.1 (by decide), fun _ => rfl⟩
      | some byte =>
        refine ⟨fun h => ?_, fun h => ?_⟩
        · simp only [ih.1 h.2, Evaluation.map]
        · simp only [ih.2 fun htorn => h ⟨rfl, htorn⟩, Evaluation.map]
          cases hexPairs ((utf8 value).drop (start + 2)) <;> rfl

end Slices

/-! ### The reader that takes the bytes -/

theorem exists_char : ∀ n : Fin 128, String.utf8EncodeChar (Char.ofNat n) = [UInt8.ofNat n] := by
  decide +kernel

/-- Two bytes that the number parser takes are a string. -/
theorem exists_pair {first second byte : UInt8} (h : hexByte first second = some byte) :
    ∃ pair, fromUtf8 [first, second] = some pair := by
  obtain ⟨hfirst, hsecond⟩ := hexByte_eq_some h
  have hlt : first.toNat < 128 := by
    rcases hfirst with rfl | hfirst
    · decide
    · exact lt_of_hexNibble hfirst
  have hone := exists_char ⟨first.toNat, hlt⟩
  have htwo := exists_char ⟨second.toNat, lt_of_hexNibble hsecond⟩
  rw [UInt8.ofNat_toNat] at hone htwo
  refine ⟨[Char.ofNat first.toNat, Char.ofNat second.toNat], fromUtf8_eq_some.mpr ?_⟩
  rw [utf8_cons, utf8_cons, hone, htwo]
  rfl

/-- Whether two bytes are a string makes no difference. -/
theorem serialPairs_cons (first second : UInt8) (rest : Bytes) :
    serialPairs (first :: second :: rest) = (hexByte first second).elim (.error .badRequest)
      fun byte => (serialPairs rest).map (byte :: ·) := by
  rw [serialPairs]
  cases hpair : fromUtf8 [first, second] with
  | none =>
    cases hbyte : hexByte first second with
    | none => rfl
    | some byte =>
      obtain ⟨pair, hsome⟩ := exists_pair hbyte
      cases hpair.symm.trans hsome
  | some pair =>
    change (fromStrRadix (utf8 pair)).elim (Except.error StatusCode.badRequest) Except.ok >>= _ = _
    rw [fromUtf8_eq_some.mp hpair, fromStrRadix]
    cases hexByte first second with
    | none => rfl
    | some byte => cases serialPairs rest <;> rfl

theorem serialPairs_eq : (bytes : Bytes) → Even bytes.length →
    serialPairs bytes = (hexPairs bytes).elim (.error .badRequest) .ok
  | [], _ => rfl
  | [_], h => absurd (show Even 1 from h) (by decide)
  | first :: second :: rest, heven => by
    have heven' : Even rest.length := by
      rw [List.length_cons, List.length_cons, add_assoc] at heven
      exact (Nat.even_add.mp heven).mpr (by decide)
    rw [serialPairs_cons, hexPairs, serialPairs_eq rest heven']
    cases hexByte first second with
    | none => rfl
    | some byte => cases hexPairs rest <;> rfl

/-! ### Where the readers do what is expected -/

/-- A reader that reads the bytes in pairs, unless it is stopped. -/
theorem readsHex_iff {permitted : ℕ → Prop} {value : Text}
    {result : Evaluation (Option Bytes)} (stopped : Prop) (heven : ∀ n, permitted n → Even n)
    (hother : ¬permitted (utf8 value).length → result = .returns none)
    (hstopped : permitted (utf8 value).length → stopped → result = .panics)
    (hread : permitted (utf8 value).length → ¬stopped → result = .returns (hexPairs (utf8 value))) :
    ReadsHex permitted value result ↔ ¬(permitted (utf8 value).length ∧ (Signed value ∨ stopped)) :=
    by
  by_cases hpermitted : permitted (utf8 value).length
  swap
  · exact iff_of_true ⟨fun h => absurd h.1 hpermitted, fun _ => hother hpermitted⟩
      fun h => hpermitted h.1
  by_cases hstop : stopped
  · refine iff_of_false (fun h => ?_) fun h => h ⟨hpermitted, Or.inr hstop⟩
    rw [hstopped hpermitted hstop] at h
    by_cases hhex : IsHex value
    · obtain ⟨bytes, hbytes, -⟩ := h.1 ⟨hpermitted, hhex⟩
      cases hbytes
    · cases h.2 fun hboth => hhex hboth.2
  · rw [hread hpermitted hstop]
    constructor
    · rintro h ⟨-, ⟨hplus, hsome⟩ | hs⟩
      · have hhex : ¬IsHex value := fun hhex => absurd (hhex '+' hplus) (by decide)
        have hnone := h.2 fun hboth => hhex hboth.2
        rw [(Evaluation.returns.inj hnone)] at hsome
        cases hsome
      · exact hstop hs
    · refine fun h => ⟨fun ⟨_, hhex⟩ => ?_, fun hnot => ?_⟩
      · obtain ⟨bytes, hbytes, hprinted⟩ := hexPairs_of_isHex value hhex (heven _ hpermitted)
        exact ⟨bytes, congrArg _ hbytes, hprinted⟩
      · cases hpairs : hexPairs (utf8 value) with
        | none => rfl
        | some bytes =>
          have hplus : '+' ∉ value := fun hplus =>
            h ⟨hpermitted, Or.inl ⟨hplus, by rw [hpairs]; rfl⟩⟩
          exact absurd ⟨hpermitted, isHex_of_hexPairs hpairs hplus⟩ hnot

theorem PriorSerialLength.even {n : ℕ} (h : PriorSerialLength n) : Even n := by
  unfold PriorSerialLength at h
  exact Nat.even_iff.mpr (by omega)

theorem decodePriorSerial_readsHex_iff (value : Text) :
    ReadsHex PriorSerialLength value (.returns (decodePriorSerial (some value)).toOption.join) ↔
      ¬(PriorSerialLength (utf8 value).length ∧ Signed value) := by
  rw [readsHex_iff False (fun _ => PriorSerialLength.even) ?_ (fun _ => False.elim) ?_, or_false]
  · intro h
    rw [decodePriorSerial, if_neg h]
    rfl
  · intro h _
    rw [decodePriorSerial, if_pos h, serialPairs_eq _ h.even]
    cases hexPairs (utf8 value) <;> rfl

theorem decodeSigningSeed_readsHex_iff (value : Text) :
    ReadsHex (· = 64) value ((decodeSigningSeed value).map Except.toOption) ↔
      ¬((utf8 value).length = 64 ∧ (Signed value ∨ Torn value)) := by
  refine readsHex_iff (Torn value) (fun n hn => hn ▸ by decide) (fun h => ?_) (fun h htorn => ?_)
    fun h htorn => ?_
  · rw [decodeSigningSeed, if_pos h]
    rfl
  · rw [decodeSigningSeed, if_neg (not_not.mpr h), (decodeSlices_eq 32 0 h.symm).1 htorn]
    rfl
  · rw [decodeSigningSeed, if_neg (not_not.mpr h), (decodeSlices_eq 32 0 h.symm).2 htorn,
      List.drop_zero]
    cases hexPairs (utf8 value) <;> rfl

theorem hexDecode_readsHex_iff (value : Text) : ReadsHex Even (compact value) (hexDecode value) ↔
    ¬(Even (utf8 (compact value)).length ∧ (Signed (compact value) ∨ Torn (compact value))) := by
  have hcount : Even (utf8 (compact value)).length →
      0 + 2 * ((utf8 (compact value)).length / 2) = (utf8 (compact value)).length := fun h => by
    rw [zero_add, Nat.two_mul_div_two_of_even h]
  refine readsHex_iff (Torn (compact value)) (fun _ => id) (fun h => ?_) (fun h htorn => ?_)
    fun h htorn => ?_
  · rw [hexDecode, if_pos fun hzero => h (Nat.even_iff.mpr hzero)]
  · rw [hexDecode, if_neg (not_not.mpr (Nat.even_iff.mp h)),
      (decodeSlices_eq _ 0 (hcount h)).1 htorn]
  · rw [hexDecode, if_neg (not_not.mpr (Nat.even_iff.mp h)),
      (decodeSlices_eq _ 0 (hcount h)).2 htorn, List.drop_zero]

/-- The readers do what is expected of them except on the strings of a permitted length that have a
plus sign in place of a digit or, for the two that cut the string, are cut inside a character. The
printed form of a serial number is read back, and what reads as the same bytes is the same up to
letter case. -/
theorem hex_decoders_exact_iff (value : Text) :
    (ReadsHex PriorSerialLength value (.returns (decodePriorSerial (some value)).toOption.join) ↔
      ¬(PriorSerialLength (utf8 value).length ∧ Signed value)) ∧
    (ReadsHex (· = 64) value ((decodeSigningSeed value).map Except.toOption) ↔
      ¬((utf8 value).length = 64 ∧ (Signed value ∨ Torn value))) ∧
    (ReadsHex Even (compact value) (hexDecode value) ↔
      ¬(Even (utf8 (compact value)).length ∧
        (Signed (compact value) ∨ Torn (compact value)))) ∧
    (∀ serial : Bytes, PriorSerialLength (2 * serial.length) →
      decodePriorSerial (some (hexEncode serial)) = .ok (some serial)) ∧
    ∀ (permitted : ℕ → Prop) (other : Text) (bytes : Bytes),
      ReadsHex permitted value (.returns (some bytes)) →
        ReadsHex permitted other (.returns (some bytes)) → asciiLower value = asciiLower other := by
  refine ⟨decodePriorSerial_readsHex_iff value, decodeSigningSeed_readsHex_iff value,
    hexDecode_readsHex_iff value, fun serial h => ?_, fun permitted other bytes h h' => ?_⟩
  · rw [← length_utf8_hexEncode] at h
    rw [decodePriorSerial, if_pos h, serialPairs_eq _ h.even, hexPairs_hexEncode]
    rfl
  · have hprinted : ∀ t, ReadsHex permitted t (.returns (some bytes)) →
        hexEncode bytes = asciiLower t := by
      intro t ht
      by_cases hboth : permitted (utf8 t).length ∧ IsHex t
      · obtain ⟨found, hfound, hlower⟩ := ht.1 hboth
        obtain rfl := Option.some.inj (Evaluation.returns.inj hfound)
        exact hlower
      · cases ht.2 hboth
    exact (hprinted value h).symm.trans (hprinted other h')

/-- A plus sign is read as a digit by all three, and a character of three bytes stops the two that
cut the string. -/
theorem signed_and_torn_strings :
    decodePriorSerial (some ['+', 'f']) = .ok (some [15]) ∧
      decodeSigningSeed ('+' :: List.replicate 63 'f') =
        .returns (.ok (15 :: List.replicate 31 255)) ∧
      hexDecode ['+', 'f'] = .returns (some [15]) ∧
      decodeSigningSeed ('€' :: List.replicate 61 'f') = .panics ∧
      hexDecode ['f', '€'] = .panics := by
  decide +kernel

end Wdlp
