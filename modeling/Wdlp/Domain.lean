import Wdlp.Lib.Text

/-!
# Identifiers

The typed identifiers of the domain crate: strings of at most 128 ASCII letters, digits, hyphens
and underscores, and for device identifiers inner dots. They are the only caller-chosen names that
reach the backing file system and the record headers.

## Main definitions

* `IdentifierKind`, `Identifier` — the five types of identifiers; `FileId`, `StoreId`, `UserSid`.
* `Identifier.parse` — the only way to make an identifier from a string.

## Main results

* `Identifier.parse_wire` — an identifier is read back from its wire form.
* `Identifier.not_mem_wire` — no identifier holds a tab, a line break or a slash.
-/

namespace Wdlp

open CrashSafe

/-- Why a domain value is rejected. -/
inductive DomainErrorKind where
  | emptyValue
  | invalidIdentifier
  | invalidPolicyInput
  deriving DecidableEq, Repr

/-- The types made by `typed_identifier!`. -/
inductive IdentifierKind where
  | deviceId
  | userSid
  | storeId
  | fileId
  | bundleVersion
  deriving DecidableEq, Repr

/-- Dots are allowed inside a device identifier only. -/
def IdentifierKind.allowDot : IdentifierKind → Bool
  | deviceId => true
  | userSid => false
  | storeId => false
  | fileId => false
  | bundleVersion => false

/-- The byte is an ASCII letter or digit. -/
def isAsciiAlphanumeric (byte : UInt8) : Bool :=
  (48 ≤ byte && byte ≤ 57) || (65 ≤ byte && byte ≤ 90) || (97 ≤ byte && byte ≤ 122)

/-- The bytes of an identifier: ASCII letters and digits, `-`, `_` and, where allowed, `.`. -/
def isIdentifierByte (allowDot : Bool) (byte : UInt8) : Bool :=
  isAsciiAlphanumeric byte || byte == 45 || byte == 95 || (allowDot && byte == 46)

/-- A string that is not too long, has only identifier bytes and, where dots are allowed, none at
either end and no two in a row. -/
def IsIdentifier (allowDot : Bool) (value : Text) : Prop :=
  (utf8 value).length ≤ 128 ∧ (utf8 value).all (isIdentifierByte allowDot) = true ∧
    ¬(allowDot = true ∧
      (value.head? = some '.' ∨ value.getLast? = some '.' ∨ ['.', '.'] <:+: value))

instance (allowDot : Bool) (value : Text) : Decidable (IsIdentifier allowDot value) :=
  inferInstanceAs (Decidable (_ ∧ _ ∧ ¬_))

/-- An identifier of the given kind, by its wire form. -/
structure Identifier (kind : IdentifierKind) where
  toWire : Text
  nonempty : toWire ≠ []
  valid : IsIdentifier kind.allowDot toWire
  deriving DecidableEq

abbrev UserSid := Identifier .userSid

abbrev StoreId := Identifier .storeId

abbrev FileId := Identifier .fileId

namespace Identifier

variable {kind : IdentifierKind}

/-- An identifier from a string, or why the string is not one. -/
def parse (kind : IdentifierKind) (value : Text) : Except DomainErrorKind (Identifier kind) :=
  if hne : value = [] then .error .emptyValue
  else if hv : IsIdentifier kind.allowDot value then .ok ⟨value, hne, hv⟩
  else .error .invalidIdentifier

@[ext] theorem ext {x y : Identifier kind} (h : x.toWire = y.toWire) : x = y := by
  cases x
  cases y
  cases h
  rfl

/-- An identifier is read back from its wire form. -/
@[simp] theorem parse_wire (x : Identifier kind) : parse kind x.toWire = .ok x := by
  rw [parse, dif_neg x.nonempty, dif_pos x.valid]

theorem toWire_of_parse {value : Text} {x : Identifier kind} (h : parse kind value = .ok x) :
    x.toWire = value := by
  unfold parse at h
  split_ifs at h
  cases h
  rfl

theorem length_utf8_toWire (x : Identifier kind) : (utf8 x.toWire).length < 2 ^ 16 :=
  lt_of_le_of_lt x.valid.1 (by norm_num)

/-- A character of one byte that is not an identifier byte is in no identifier. -/
theorem not_mem_wire (x : Identifier kind) {c : Char} {b : UInt8}
    (hc : String.utf8EncodeChar c = [b]) (hb : isIdentifierByte true b = false) : c ∉ x.toWire := by
  intro hmem
  have hall := List.all_eq_true.mp x.valid.2.1 b (mem_utf8 hc hmem)
  cases hdot : kind.allowDot with
  | true => rw [hdot, hb] at hall; exact absurd hall (by simp)
  | false =>
    rw [hdot] at hall
    simp only [isIdentifierByte, Bool.false_and, Bool.or_false, Bool.true_and] at hall hb
    simp [hall] at hb

end Identifier

end Wdlp
