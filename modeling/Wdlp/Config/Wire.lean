import Wdlp.Protocol

/-!
# The formats of the configuration cache

The agent's configuration cache stores signed configurations in a wire format of their own, which
is also what the server sends, and a small pointer record that names the current bundle and the
last one known to be good. Both are read strictly: a version byte, fields behind their lengths, and
nothing left over.

## Main definitions

* `CacheError`, `CachePointers` — the errors of the cache and its pointer record.
* `serializeSignedConfiguration`, `deserializeSignedConfiguration` — the wire format.
* `serializePointers`, `deserializePointers` — the pointer record.

## Main results

* `deserialize_serialize` — a configuration is read back from its wire form.
* `deserializePointers_serializePointers` — pointers are read back from their record.
-/

namespace Wdlp

open CrashSafe
open Reader (beWord_append bind_of_ok failIf_neg field_append take_append)

/-- Why a bundle cannot be staged, verified or activated. -/
inductive CacheError where
  | invalidSignature
  | invalidContentHash
  | unsupportedSchema
  | wrongAudience
  | wrongKeyId
  | staleVersion (received active : UInt64)
  | ioFailure
  | corruptPointer
  | missingBundle
  | invalidWireFormat
  deriving DecidableEq

/-! ### Configurations -/

def wireFormatVersion : UInt8 := 1

/-- `serialize_signed_configuration`; a signature whose length does not fit in 32 bits is a panic,
here nothing. -/
def serializeSignedConfiguration (sha256 : Bytes → Digest) (signed : SignedConfigurationV1) :
    Option Bytes :=
  if signed.signature.length < 256 ^ 4 then
    some ([wireFormatVersion] ++ (beBytes 2 apiVersionV1.toNat ++
      (beBytes 2 signed.envelope.schemaVersion.toNat ++ (framed (utf8 signed.keyId) ++
        (framed (utf8 signed.envelope.deviceId.toWire) ++
          (framed (utf8 signed.envelope.bundleVersion.toWire) ++
            (beBytes 8 signed.envelope.issuedAtEpochSeconds.toNat ++
              (framed (utf8 signed.envelope.payload) ++ (framed signed.signature ++
                ((signed.contentDigest sha256).val ++ []))))))))))
  else none

/-- The next string. -/
def readString : Reader CacheError Text := do
  let bytes ← Reader.field .invalidWireFormat
  match fromUtf8 bytes with
  | some text => return text
  | none => throw .invalidWireFormat

/-- The fields of the wire format, before they are validated. -/
structure RawConfiguration where
  schemaVersion : UInt16
  keyId : Text
  deviceId : Text
  bundleVersion : Text
  issuedAt : UInt64
  payload : Text
  signature : Bytes
  contentDigest : Bytes

/-- Read the fields of the wire format. -/
def readConfiguration : Reader CacheError RawConfiguration := do
  let formatVersion ← Reader.take .invalidWireFormat 1
  failIf (formatVersion ≠ [wireFormatVersion]) CacheError.invalidWireFormat
  let apiVersion ← Reader.beWord .invalidWireFormat 2
  failIf (apiVersion ≠ apiVersionV1.toNat) CacheError.invalidWireFormat
  let schemaVersion ← Reader.beWord .invalidWireFormat 2
  failIf (schemaVersion ≠ configurationSchemaVersionV1.toNat) CacheError.unsupportedSchema
  let keyId ← readString
  let deviceId ← readString
  let bundleVersion ← readString
  let issuedAt ← Reader.beWord .invalidWireFormat 8
  let payload ← readString
  let signature ← Reader.field .invalidWireFormat
  let contentDigest ← Reader.take .invalidWireFormat 32
  let left ← Reader.remaining
  failIf (left ≠ 0) CacheError.invalidWireFormat
  return ⟨.ofNat schemaVersion, keyId, deviceId, bundleVersion, .ofNat issuedAt, payload, signature,
    contentDigest⟩

/-- `deserialize_signed_configuration`. -/
def deserializeSignedConfiguration (sha256 : Bytes → Digest) (bytes : Bytes) :
    Except CacheError SignedConfigurationV1 := do
  let (raw, _) ← readConfiguration bytes
  let deviceId ← (Identifier.parse .deviceId raw.deviceId).mapError fun _ => .invalidWireFormat
  let bundleVersion ← (Identifier.parse .bundleVersion raw.bundleVersion).mapError
    fun _ => .invalidWireFormat
  let envelope ← (ConfigurationEnvelopeV1.new raw.schemaVersion deviceId bundleVersion raw.issuedAt
    raw.payload).mapError fun _ => .invalidWireFormat
  failIf ((sha256 envelope.canonicalBytes).val ≠ raw.contentDigest) CacheError.invalidContentHash
  (SignedConfigurationV1.new envelope raw.keyId raw.signature).mapError fun _ => .invalidWireFormat

section ReadBack

variable {s : Bytes}

theorem readString_append {text : Text} (h : (utf8 text).length < 256 ^ 4) :
    readString (framed (utf8 text) ++ s) = .ok (text, s) := by
  rw [readString, bind_of_ok (field_append h), fromUtf8_utf8]
  rfl

theorem IsField.length_lt {text : Text} (h : IsField text) : (utf8 text).length < 256 ^ 4 :=
  lt_of_le_of_lt h.2 (by norm_num)

variable {sha256 : Bytes → Digest} {signed : SignedConfigurationV1}

/-- The fields of a configuration are read back. -/
theorem readConfiguration_serialize
    {bytes : Bytes} (h : serializeSignedConfiguration sha256 signed = some bytes) :
    readConfiguration bytes = .ok (⟨configurationSchemaVersionV1, signed.keyId,
      signed.envelope.deviceId.toWire, signed.envelope.bundleVersion.toWire,
      signed.envelope.issuedAtEpochSeconds, signed.envelope.payload, signed.signature,
      (signed.contentDigest sha256).val⟩, []) := by
  unfold serializeSignedConfiguration at h
  split_ifs at h with hlength
  obtain rfl := Option.some.inj h
  unfold readConfiguration
  have hversion : [wireFormatVersion].length = 1 := rfl
  rw [bind_of_ok (take_append hversion),
    bind_of_ok (failIf_neg (by simp)),
    bind_of_ok (beWord_append (by decide)),
    bind_of_ok (failIf_neg (by simp)),
    bind_of_ok (beWord_append signed.envelope.schemaVersion.toNat_lt),
    bind_of_ok (failIf_neg (by simp [ConfigurationEnvelopeV1.schemaVersion])),
    bind_of_ok (readString_append signed.validKey.length_lt),
    bind_of_ok (readString_append (ConfigurationEnvelopeV1.length_wire_lt _)),
    bind_of_ok (readString_append (ConfigurationEnvelopeV1.length_wire_lt _)),
    bind_of_ok (beWord_append signed.envelope.issuedAtEpochSeconds.toNat_lt),
    bind_of_ok (readString_append signed.envelope.valid.length_lt),
    bind_of_ok (field_append hlength),
    bind_of_ok (take_append (signed.contentDigest sha256).property),
    bind_of_ok Reader.remaining_run, bind_of_ok (failIf_neg (by simp))]
  simp [ConfigurationEnvelopeV1.schemaVersion]

/-- A configuration is read back from its wire form. -/
theorem deserialize_serialize
    {bytes : Bytes} (h : serializeSignedConfiguration sha256 signed = some bytes) :
    deserializeSignedConfiguration sha256 bytes = .ok signed := by
  unfold deserializeSignedConfiguration
  rw [readConfiguration_serialize h]
  simp only [bind, Except.bind, Identifier.parse_wire, Except.mapError,
    ConfigurationEnvelopeV1.new_self, failIf, SignedConfigurationV1.contentDigest, ne_eq,
    not_true_eq_false, if_false, pure, Except.pure, SignedConfigurationV1.new_self]

end ReadBack

/-! ### Pointers -/

/-- The pointer record: the digests and versions of the current bundle and of the last one known to
be good. -/
structure CachePointers where
  currentDigest : Option Digest := none
  currentVersion : Option UInt64 := none
  lkgDigest : Option Digest := none
  lkgVersion : Option UInt64 := none
  deriving DecidableEq

def pointerMagic : Bytes := utf8 "dlp-ptr1".toList

def pointerSchemaVersion : ℕ := 1

/-- A digest behind a byte that says whether there is one. -/
def optionalDigest : Option Digest → Bytes
  | some digest => 1 :: digest.val
  | none => [0]

/-- A digest and, if there is one, its version. -/
def pointerEntry (digest : Option Digest) (version : Option UInt64) : Bytes :=
  optionalDigest digest ++ if digest.isSome then beBytes 8 (version.getD 0).toNat else []

/-- `serialize_pointers`. -/
def serializePointers (pointers : CachePointers) (generation : UInt64) : Bytes :=
  pointerMagic ++ (beBytes 8 pointerSchemaVersion ++ (beBytes 8 generation.toNat ++
    (pointerEntry pointers.currentDigest pointers.currentVersion ++
      (pointerEntry pointers.lkgDigest pointers.lkgVersion ++ []))))

/-- The next 32 bytes. -/
def readDigest : Reader CacheError Digest := fun rest =>
  if h : 32 ≤ rest.length then .ok (⟨rest.take 32, by simp [h]⟩, rest.drop 32)
  else .error .invalidWireFormat

/-- `read_optional_digest`. -/
def readOptionalDigest : Reader CacheError (Option Digest) := do
  let tag ← Reader.take .invalidWireFormat 1
  if tag = [0] then return none
  else if tag = [1] then
    let digest ← readDigest
    return some digest
  else throw .corruptPointer

/-- A version, or zero when too few bytes are left. -/
def readVersionOrZero : Reader CacheError UInt64 := fun rest =>
  match (Reader.beWord .invalidWireFormat 8 : Reader CacheError ℕ) rest with
  | .ok (version, rest') => .ok (.ofNat version, rest')
  | .error _ => .ok (0, rest)

/-- A digest and its version. -/
def readPointerEntry : Reader CacheError (Option Digest × Option UInt64) := do
  let digest ← readOptionalDigest
  match digest with
  | none => return (none, none)
  | some digest =>
    let version ← readVersionOrZero
    return (some digest, some version)

/-- The pointers behind the magic, in their record. -/
def readPointerRecord : Reader CacheError CachePointers := do
  let magic ← Reader.take .invalidWireFormat 8
  failIf (magic ≠ pointerMagic) CacheError.corruptPointer
  let schemaVersion ← Reader.beWord .invalidWireFormat 8
  failIf (schemaVersion ≠ pointerSchemaVersion) CacheError.corruptPointer
  let _ ← Reader.beWord .invalidWireFormat 8
  let (currentDigest, currentVersion) ← readPointerEntry
  let (lkgDigest, lkgVersion) ← readPointerEntry
  let left ← Reader.remaining
  failIf (left ≠ 0) CacheError.invalidWireFormat
  return ⟨currentDigest, currentVersion, lkgDigest, lkgVersion⟩

/-- `deserialize_pointers`. -/
def deserializePointers (bytes : Bytes) : Except CacheError CachePointers :=
  (readPointerRecord bytes).map (·.1)

/-- Each digest comes with its version. -/
def CachePointers.Paired (pointers : CachePointers) : Prop :=
  pointers.currentDigest.isSome = pointers.currentVersion.isSome ∧
    pointers.lkgDigest.isSome = pointers.lkgVersion.isSome

section ReadBack

variable {s : Bytes}

theorem readDigest_append (digest : Digest) : readDigest (digest.val ++ s) = .ok (digest, s) := by
  have hlength := digest.property
  have htake : (digest.val ++ s).take 32 = digest.val := List.take_left' hlength
  have hdrop : (digest.val ++ s).drop 32 = s := List.drop_left' hlength
  rw [readDigest, dif_pos (by simp [hlength])]
  simp only [htake, hdrop, Subtype.coe_eta]

theorem readVersionOrZero_append (version : UInt64) :
    readVersionOrZero (beBytes 8 version.toNat ++ s) = .ok (version, s) := by
  rw [readVersionOrZero, beWord_append version.toNat_lt]
  simp

theorem readPointerEntry_append {digest : Option Digest} {version : Option UInt64}
    (h : digest.isSome = version.isSome) :
    readPointerEntry (pointerEntry digest version ++ s) = .ok ((digest, version), s) := by
  unfold readPointerEntry
  cases digest with
  | none =>
    obtain rfl : version = none := by simpa using h.symm
    rfl
  | some digest =>
    obtain ⟨version, rfl⟩ := Option.isSome_iff_exists.mp h.symm
    have hsplit : pointerEntry (some digest) (some version) ++ s =
        [1] ++ (digest.val ++ (beBytes 8 version.toNat ++ s)) := by
      simp [pointerEntry, optionalDigest]
    have htag : [(1 : UInt8)].length = 1 := rfl
    have hdigest : readOptionalDigest (pointerEntry (some digest) (some version) ++ s) =
        .ok (some digest, beBytes 8 version.toNat ++ s) := by
      rw [hsplit, readOptionalDigest, bind_of_ok (take_append htag),
        if_neg (by decide), if_pos rfl, bind_of_ok (readDigest_append digest)]
      rfl
    rw [bind_of_ok hdigest]
    simp only
    rw [bind_of_ok (readVersionOrZero_append version)]
    rfl

/-- Pointers are read back from their record. -/
theorem deserializePointers_serializePointers {pointers : CachePointers} (h : pointers.Paired)
    (generation : UInt64) :
    deserializePointers (serializePointers pointers generation) = .ok pointers := by
  have hmagic : pointerMagic.length = 8 := by decide
  unfold deserializePointers readPointerRecord serializePointers
  rw [bind_of_ok (take_append hmagic),
    bind_of_ok (failIf_neg (by simp)),
    bind_of_ok (beWord_append (by decide)),
    bind_of_ok (failIf_neg (by simp)),
    bind_of_ok (beWord_append generation.toNat_lt),
    bind_of_ok (readPointerEntry_append h.1)]
  simp only
  rw [bind_of_ok (readPointerEntry_append h.2)]
  simp only
  rw [bind_of_ok Reader.remaining_run, bind_of_ok (failIf_neg (by simp))]
  rfl

end ReadBack

end Wdlp
