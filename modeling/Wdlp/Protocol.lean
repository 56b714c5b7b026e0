import Wdlp.Crypto
import Wdlp.Lib.Reader

/-!
# Signed configurations

The protocol crate's configuration contract. An envelope names the device it is for, a bundle
version, the time of issue and a payload; what is signed is its canonical byte string, a fixed
sequence of fields behind their lengths. A signed configuration adds the identifier of the key and
the signature, and is known by the SHA-256 digest of its canonical bytes.

The validated fields of the source's constructors are fields of the structures here, so that a
configuration that exists is one the constructors have accepted.

## Main definitions

* `ConfigurationEnvelopeV1`, `SignedConfigurationV1` — configurations; `canonicalBytes`,
  `contentDigest`.
* `ConfigurationEnvelopeV1.fromCanonicalBytes` — the strict decoder.
* `ConfigurationVerifier.verify` — the checks of a signature.

## Main results

* `ConfigurationEnvelopeV1.fromCanonicalBytes_canonicalBytes` — an envelope is read back from its
  canonical bytes.
* `ConfigurationEnvelopeV1.canonicalBytes_inj` — the canonical bytes tell envelopes apart.
-/

namespace Wdlp

open CrashSafe

abbrev DeviceId := Identifier .deviceId

abbrev BundleVersion := Identifier .bundleVersion

/-- A SHA-256 digest. -/
abbrev Digest := { bytes : Bytes // bytes.length = 32 }

def apiVersionV1 : UInt16 := 1

def configurationSchemaVersionV1 : UInt16 := 1

def configurationEnvelopePrefix : Bytes := utf8 "dlp-configuration-envelope/v1\x00".toList

/-- Why a message is rejected. -/
inductive ProtocolError where
  | unsupportedVersion (shape : Text) (received : UInt16)
  | invalidField (field : Text)
  deriving DecidableEq

/-- The text can be a field: it is not empty, and not longer than 65536 bytes. -/
def IsField (value : Text) : Prop := value ≠ [] ∧ (utf8 value).length ≤ 65536

instance (value : Text) : Decidable (IsField value) := inferInstanceAs (Decidable (_ ∧ _))

/-! ### Envelopes -/

/-- The signed fields of a configuration. Its API and schema version are always 1. -/
structure ConfigurationEnvelopeV1 where
  deviceId : DeviceId
  bundleVersion : BundleVersion
  issuedAtEpochSeconds : UInt64
  payload : Text
  valid : IsField payload
  deriving DecidableEq

namespace ConfigurationEnvelopeV1

/-- `ConfigurationEnvelopeV1::new`. -/
def new (schemaVersion : UInt16) (deviceId : DeviceId) (bundleVersion : BundleVersion)
    (issuedAtEpochSeconds : UInt64) (payload : Text) :
    Except ProtocolError ConfigurationEnvelopeV1 :=
  if schemaVersion ≠ configurationSchemaVersionV1 then
    .error (.unsupportedVersion "ConfigurationEnvelopeV1 schema".toList schemaVersion)
  else if hvalid : IsField payload then
    .ok ⟨deviceId, bundleVersion, issuedAtEpochSeconds, payload, hvalid⟩
  else .error (.invalidField "configuration payload".toList)

def schemaVersion (_ : ConfigurationEnvelopeV1) : UInt16 := configurationSchemaVersionV1

theorem new_self (envelope : ConfigurationEnvelopeV1) :
    new configurationSchemaVersionV1 envelope.deviceId envelope.bundleVersion
      envelope.issuedAtEpochSeconds envelope.payload = .ok envelope := by
  rw [new, if_neg (by simp), dif_pos envelope.valid]

/-- The fields behind the prefix. -/
def canonicalFields (envelope : ConfigurationEnvelopeV1) : Bytes :=
  beBytes 2 apiVersionV1.toNat ++ (beBytes 2 envelope.schemaVersion.toNat ++
    (framed (utf8 envelope.deviceId.toWire) ++ (framed (utf8 envelope.bundleVersion.toWire) ++
      (beBytes 8 envelope.issuedAtEpochSeconds.toNat ++ (framed (utf8 envelope.payload) ++ [])))))

/-- The only input of a signature. -/
def canonicalBytes (envelope : ConfigurationEnvelopeV1) : Bytes :=
  configurationEnvelopePrefix ++ envelope.canonicalFields

/-- The error for bytes that are not an envelope. -/
def malformed : ProtocolError := .invalidField "configuration envelope".toList

/-- The next field, as a string. -/
def readUtf8 (name : Text) : Reader ProtocolError Text := do
  let bytes ← Reader.field malformed
  match fromUtf8 bytes with
  | some text => return text
  | none => throw (.invalidField name)

/-- The fields of an envelope, before they are validated. -/
structure RawEnvelope where
  schemaVersion : UInt16
  deviceId : Text
  bundleVersion : Text
  issuedAtEpochSeconds : UInt64
  payload : Text

/-- Read the fields behind the prefix. -/
def readFields : Reader ProtocolError RawEnvelope := do
  let version ← Reader.beWord malformed 2
  failIf (UInt16.ofNat version ≠ apiVersionV1)
    (ProtocolError.unsupportedVersion "ConfigurationEnvelopeV1".toList (.ofNat version))
  let schemaVersion ← Reader.beWord malformed 2
  let deviceId ← readUtf8 "configuration device".toList
  let bundleVersion ← readUtf8 "configuration bundle version".toList
  let issuedAt ← Reader.beWord malformed 8
  let payload ← readUtf8 "configuration payload".toList
  let left ← Reader.remaining
  failIf (left ≠ 0) malformed
  return ⟨.ofNat schemaVersion, deviceId, bundleVersion, .ofNat issuedAt, payload⟩

/-- The bytes behind a prefix. -/
def stripPrefix (start bytes : Bytes) : Option Bytes :=
  if start <+: bytes then some (bytes.drop start.length) else none

/-- `ConfigurationEnvelopeV1::from_canonical_bytes`. -/
def fromCanonicalBytes (canonical : Bytes) : Except ProtocolError ConfigurationEnvelopeV1 := do
  match stripPrefix configurationEnvelopePrefix canonical with
  | none => throw malformed
  | some bytes =>
    let (raw, _) ← readFields bytes
    let deviceId ← (Identifier.parse .deviceId raw.deviceId).mapError
      fun _ => .invalidField "configuration device".toList
    let bundleVersion ← (Identifier.parse .bundleVersion raw.bundleVersion).mapError
      fun _ => .invalidField "configuration bundle version".toList
    let envelope ← new raw.schemaVersion deviceId bundleVersion raw.issuedAtEpochSeconds raw.payload
    failIf (envelope.canonicalBytes ≠ canonical) malformed
    return envelope

section ReadBack

variable (envelope : ConfigurationEnvelopeV1) {s : Bytes}

theorem stripPrefix_append (start rest : Bytes) : stripPrefix start (start ++ rest) = some rest := by
  rw [stripPrefix, if_pos (List.prefix_append _ _), List.drop_left]

theorem readUtf8_append {name text : Text} (h : (utf8 text).length < 256 ^ 4) :
    readUtf8 name (framed (utf8 text) ++ s) = .ok (text, s) := by
  rw [readUtf8, Reader.bind_of_ok (Reader.field_append h), fromUtf8_utf8]
  rfl

theorem length_payload_lt : (utf8 envelope.payload).length < 256 ^ 4 :=
  lt_of_le_of_lt envelope.valid.2 (by norm_num)

theorem length_wire_lt {kind : IdentifierKind} (x : Identifier kind) :
    (utf8 x.toWire).length < 256 ^ 4 :=
  lt_trans x.length_utf8_toWire (by norm_num)

theorem readFields_canonicalFields : readFields envelope.canonicalFields =
    .ok (⟨configurationSchemaVersionV1, envelope.deviceId.toWire, envelope.bundleVersion.toWire,
      envelope.issuedAtEpochSeconds, envelope.payload⟩, []) := by
  unfold readFields canonicalFields
  rw [Reader.bind_of_ok (Reader.beWord_append (by decide)),
    Reader.bind_of_ok (Reader.failIf_neg (by decide)),
    Reader.bind_of_ok (Reader.beWord_append envelope.schemaVersion.toNat_lt),
    Reader.bind_of_ok (readUtf8_append (length_wire_lt _)),
    Reader.bind_of_ok (readUtf8_append (length_wire_lt _)),
    Reader.bind_of_ok (Reader.beWord_append envelope.issuedAtEpochSeconds.toNat_lt),
    Reader.bind_of_ok (readUtf8_append envelope.length_payload_lt),
    Reader.bind_of_ok Reader.remaining_run, Reader.bind_of_ok (Reader.failIf_neg (by simp))]
  simp [schemaVersion]

/-- An envelope is read back from its canonical bytes. -/
theorem fromCanonicalBytes_canonicalBytes :
    fromCanonicalBytes envelope.canonicalBytes = .ok envelope := by
  unfold fromCanonicalBytes
  rw [canonicalBytes, stripPrefix_append]
  simp only [readFields_canonicalFields, Identifier.parse_wire, Except.mapError, new_self,
    bind, Except.bind, failIf, canonicalBytes, ne_eq, not_true_eq_false, if_false]
  rfl

end ReadBack

/-- The canonical bytes tell envelopes apart. -/
theorem canonicalBytes_inj {x y : ConfigurationEnvelopeV1}
    (h : x.canonicalBytes = y.canonicalBytes) : x = y := by
  have hx := x.fromCanonicalBytes_canonicalBytes
  rw [h, y.fromCanonicalBytes_canonicalBytes] at hx
  exact (Except.ok.inj hx).symm

end ConfigurationEnvelopeV1

/-! ### Signed configurations -/

/-- An envelope with a signature. Its audience is the device of the envelope. -/
structure SignedConfigurationV1 where
  envelope : ConfigurationEnvelopeV1
  keyId : Text
  signature : Bytes
  validKey : IsField keyId
  signed : signature ≠ []
  deriving DecidableEq

namespace SignedConfigurationV1

/-- `SignedConfigurationV1::new`. -/
def new (envelope : ConfigurationEnvelopeV1) (keyId : Text) (signature : Bytes) :
    Except ProtocolError SignedConfigurationV1 :=
  if hkey : IsField keyId then
    if hsigned : signature ≠ [] then .ok ⟨envelope, keyId, signature, hkey, hsigned⟩
    else .error (.invalidField "signature".toList)
  else .error (.invalidField "key identifier".toList)

def audience (configuration : SignedConfigurationV1) : DeviceId := configuration.envelope.deviceId

/-- The digest of the canonical bytes, under the given SHA-256. -/
def contentDigest (sha256 : Bytes → Digest) (configuration : SignedConfigurationV1) : Digest :=
  sha256 configuration.envelope.canonicalBytes

theorem new_self (configuration : SignedConfigurationV1) :
    new configuration.envelope configuration.keyId configuration.signature = .ok configuration := by
  rw [new, dif_pos configuration.validKey, dif_pos configuration.signed]

end SignedConfigurationV1

/-! ### Verification -/

/-- The errors of a verification. -/
inductive VerificationError where
  | unsupportedSchema (received : UInt16)
  | keyIdMismatch
  | invalidSignatureLength
  | signatureInvalid
  deriving DecidableEq

/-- A trusted key: its identifier, and the strict check of a message and a signature of 64 bytes. -/
structure ConfigurationVerifier where
  keyId : Text
  verifyStrict : (message signature : Bytes) → Bool

/-- `ConfigurationVerifier::verify`. -/
def ConfigurationVerifier.verify (verifier : ConfigurationVerifier) (schemaVersion : UInt16)
    (keyId : Text) (canonical signature : Bytes) : Except VerificationError Unit := do
  failIf (schemaVersion ≠ configurationSchemaVersionV1)
    (VerificationError.unsupportedSchema schemaVersion)
  failIf (keyId ≠ verifier.keyId) VerificationError.keyIdMismatch
  failIf (signature.length ≠ 64) VerificationError.invalidSignatureLength
  failIf (verifier.verifyStrict canonical signature = false) VerificationError.signatureInvalid

/-- The verification of a configuration. -/
def SignedConfigurationV1.verify (configuration : SignedConfigurationV1)
    (verifier : ConfigurationVerifier) : Except VerificationError Unit :=
  verifier.verify configuration.envelope.schemaVersion configuration.keyId
    configuration.envelope.canonicalBytes configuration.signature

end Wdlp
