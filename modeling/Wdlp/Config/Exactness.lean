import Wdlp.Config.Wire

/-!
# How exact the configuration formats are

The two formats of a signed configuration are read strictly: each decoder inverts its encoder and
accepts nothing but what the encoder writes. The pointer record of the cache is not: where too few
bytes are left for a version, the decoder takes zero for it and goes on at the same place, so that
a record without its last version, or without the version of its current bundle, is accepted.

## Main results

* `deserializeSignedConfiguration_eq_ok`, `configuration_formats_canonical` — the formats of a
  configuration are canonical.
* `readPointerEntry_eq_ok` — an entry of the pointer record is read in full or without its version.
* `pointers_complete_iff` — a pointer record that is accepted is complete exactly when it has one
  of three lengths.
-/

namespace Wdlp

open CrashSafe
open Reader (beWord_eq_ok bind_eq_ok failIf_eq_ok field_eq_ok pure_eq_ok take_eq_ok)

/-! ### Signed configurations -/

variable {s s' : Bytes}

theorem readString_eq_ok {text : Text} : readString s = .ok (text, s') ↔
      (utf8 text).length < 256 ^ 4 ∧ s = framed (utf8 text) ++ s' := by
  constructor
  · intro h
    simp only [readString, bind_eq_ok, field_eq_ok] at h
    obtain ⟨bytes, s₁, ⟨hlength, rfl⟩, h⟩ := h
    cases hdecoded : fromUtf8 bytes with
    | none =>
      rw [hdecoded] at h
      cases h
    | some decoded =>
      rw [hdecoded] at h
      obtain ⟨rfl, rfl⟩ := pure_eq_ok.mp h
      obtain rfl := fromUtf8_eq_some.mp hdecoded
      exact ⟨hlength, rfl⟩
  · rintro ⟨hlength, rfl⟩
    exact readString_append hlength

variable {envelope : ConfigurationEnvelopeV1}

theorem ConfigurationEnvelopeV1.eq_of_new {schemaVersion : UInt16} {deviceId : DeviceId}
    {bundleVersion : BundleVersion} {issuedAt : UInt64} {payload : Text}
    (h : ConfigurationEnvelopeV1.new schemaVersion deviceId bundleVersion issuedAt payload =
      .ok envelope) : schemaVersion = configurationSchemaVersionV1 ∧ envelope.deviceId = deviceId ∧
      envelope.bundleVersion = bundleVersion ∧ envelope.issuedAtEpochSeconds = issuedAt ∧
      envelope.payload = payload := by
  unfold ConfigurationEnvelopeV1.new at h
  split_ifs at h with hversion hpayload
  cases h
  exact ⟨not_not.mp hversion, rfl, rfl, rfl, rfl⟩

variable {signed : SignedConfigurationV1}

theorem SignedConfigurationV1.eq_of_new {keyId : Text} {signature : Bytes}
    (h : SignedConfigurationV1.new envelope keyId signature = .ok signed) :
    signed.envelope = envelope ∧ signed.keyId = keyId ∧ signed.signature = signature := by
  unfold SignedConfigurationV1.new at h
  split_ifs at h
  cases h
  exact ⟨rfl, rfl, rfl⟩

variable {bytes : Bytes}

/-- A configuration is read from its wire form and from nothing else. -/
theorem deserializeSignedConfiguration_eq_ok {sha256 : Bytes → Digest}
    : deserializeSignedConfiguration
    sha256 bytes = .ok signed ↔ serializeSignedConfiguration sha256 signed = some bytes := by
  refine ⟨fun h => ?_, deserialize_serialize⟩
  simp only [deserializeSignedConfiguration, except_bind_eq_ok, except_mapError_eq_ok,
    except_failIf_eq_ok, not_not] at h
  obtain ⟨⟨raw, rest⟩, hread, deviceId, hdevice, bundleVersion, hbundle, envelope, henvelope, _,
    hdigest, hsigned⟩ := h
  simp only [readConfiguration, bind_eq_ok, take_eq_ok, failIf_eq_ok,
    beWord_eq_ok, readString_eq_ok, field_eq_ok, Reader.remaining_eq_ok,
    pure_eq_ok, not_not] at hread
  obtain ⟨version, _, ⟨-, rfl⟩, _, _, ⟨hversion, rfl⟩, api, _, ⟨-, rfl⟩, _, _, ⟨hapi, rfl⟩, schema,
    _, ⟨-, rfl⟩, _, _, ⟨hschema, rfl⟩, keyId, _, ⟨-, rfl⟩, device, _, ⟨-, rfl⟩, bundle, _,
    ⟨-, rfl⟩, issuedAt, _, ⟨hissued, rfl⟩, payload, _, ⟨-, rfl⟩, signature, _,
    ⟨hlength, rfl⟩, digest, _, ⟨-, rfl⟩, _, _, ⟨rfl, rfl⟩, _, _, ⟨hleft, rfl⟩, rfl, rfl⟩ := hread
  obtain rfl := List.length_eq_zero_iff.mp hleft
  obtain ⟨-, hdeviceId, hbundleVersion, hissuedAt, hpayload⟩ :=
    ConfigurationEnvelopeV1.eq_of_new henvelope
  obtain ⟨rfl, rfl, rfl⟩ := SignedConfigurationV1.eq_of_new hsigned
  have hwire : signed.envelope.deviceId.toWire = device :=
    hdeviceId ▸ Identifier.toWire_of_parse hdevice
  have hbundleWire : signed.envelope.bundleVersion.toWire = bundle :=
    hbundleVersion ▸ Identifier.toWire_of_parse hbundle
  have hseconds : signed.envelope.issuedAtEpochSeconds.toNat = issuedAt := by
    rw [hissuedAt]
    exact UInt64.toNat_ofNat_of_lt' hissued
  rw [serializeSignedConfiguration, if_pos hlength, hversion, hapi, hschema, hwire, hbundleWire,
    hseconds, hpayload, SignedConfigurationV1.contentDigest, hdigest]
  rfl

/-- The formats of a signed configuration are canonical, under any digest function. -/
theorem configuration_formats_canonical (sha256 : Bytes → Digest) :
    (∀ envelope : ConfigurationEnvelopeV1,
      ConfigurationEnvelopeV1.fromCanonicalBytes envelope.canonicalBytes = .ok envelope) ∧
    (∀ bytes envelope, ConfigurationEnvelopeV1.fromCanonicalBytes bytes = .ok envelope →
      envelope.canonicalBytes = bytes) ∧
    (∀ signed bytes, serializeSignedConfiguration sha256 signed = some bytes →
      deserializeSignedConfiguration sha256 bytes = .ok signed) ∧
    (∀ bytes signed, deserializeSignedConfiguration sha256 bytes = .ok signed →
      serializeSignedConfiguration sha256 signed = some bytes) ∧
    (∀ x y : ConfigurationEnvelopeV1, x ≠ y → x.canonicalBytes ≠ y.canonicalBytes) ∧
    (∀ bytes altered signed, deserializeSignedConfiguration sha256 bytes = .ok signed →
      altered ≠ bytes → deserializeSignedConfiguration sha256 altered ≠ .ok signed) := by
  refine ⟨ConfigurationEnvelopeV1.fromCanonicalBytes_canonicalBytes, fun bytes envelope h => ?_,
    fun _ _ => deserialize_serialize, fun _ _ => deserializeSignedConfiguration_eq_ok.mp,
    fun x y hne heq => hne (ConfigurationEnvelopeV1.canonicalBytes_inj heq), ?_⟩
  · -- the decoder ends with this comparison
    unfold ConfigurationEnvelopeV1.fromCanonicalBytes at h
    split at h
    · cases h
    · simp only [except_bind_eq_ok, except_failIf_eq_ok, not_not, except_pure_eq_ok] at h
      obtain ⟨_, -, _, -, _, -, _, -, _, heq, rfl⟩ := h
      exact heq
  · intro bytes altered signed h hne h'
    rw [deserializeSignedConfiguration_eq_ok] at h h'
    exact hne (Option.some.inj (h'.symm.trans h))

/-! ### The pointer record -/

theorem readDigest_eq_ok {digest : Digest} :
    readDigest s = .ok (digest, s') ↔ s = digest.val ++ s' := by
  constructor
  · intro h
    unfold readDigest at h
    split_ifs at h with hle
    obtain ⟨rfl, rfl⟩ := Prod.mk.inj (Except.ok.inj h)
    exact (List.take_append_drop 32 s).symm
  · rintro rfl
    exact readDigest_append digest

variable {digest : Option Digest}

theorem readOptionalDigest_eq_ok
    (h : readOptionalDigest s = .ok (digest, s')) : s = optionalDigest digest ++ s' := by
  simp only [readOptionalDigest, bind_eq_ok, take_eq_ok] at h
  obtain ⟨tag, s₁, ⟨-, rfl⟩, h⟩ := h
  split_ifs at h with hnone hsome
  · obtain ⟨rfl, rfl⟩ := pure_eq_ok.mp h
    rw [hnone]
    rfl
  · simp only [bind_eq_ok, readDigest_eq_ok, pure_eq_ok] at h
    obtain ⟨digest, _, rfl, rfl, rfl⟩ := h
    rw [hsome]
    rfl
  · cases h

theorem readVersionOrZero_eq_ok {version : UInt64} (h : readVersionOrZero s = .ok (version, s')) :
    s = beBytes 8 version.toNat ++ s' ∨ (version = 0 ∧ s = s' ∧ s.length < 8) := by
  unfold readVersionOrZero at h
  split at h
  · next n rest hword =>
    obtain ⟨rfl, rfl⟩ := Prod.mk.inj (Except.ok.inj h)
    obtain ⟨hn, rfl⟩ := beWord_eq_ok.mp hword
    exact .inl (by rw [UInt64.toNat_ofNat_of_lt' hn])
  · next e hword =>
    obtain ⟨rfl, rfl⟩ := Prod.mk.inj (Except.ok.inj h)
    refine .inr ⟨rfl, rfl, ?_⟩
    by_contra hlong
    obtain ⟨front, back, hfront, rfl⟩ : ∃ front back, front.length = 8 ∧ s = front ++ back :=
      ⟨s.take 8, s.drop 8, List.length_take_of_le (not_lt.mp hlong),
        (List.take_append_drop 8 s).symm⟩
    have hread : Reader.beWord CacheError.invalidWireFormat 8 (front ++ back) =
        .ok (ofBeBytes front, back) := by
      refine beWord_eq_ok.mpr ⟨hfront ▸ ofBeBytes_lt front, ?_⟩
      rw [← hfront, beBytes_ofBeBytes]
    rw [hword] at hread
    cases hread

/-- An entry of the pointer record is read in full, or without its version as if that were zero. -/
theorem readPointerEntry_eq_ok {version : Option UInt64}
    (h : readPointerEntry s = .ok ((digest, version), s')) :
    (s = pointerEntry digest version ++ s') ∨
      (digest.isSome ∧ version = some 0 ∧ s = optionalDigest digest ++ s' ∧ s'.length < 8) := by
  simp only [readPointerEntry, bind_eq_ok] at h
  obtain ⟨found, s₁, hfound, h⟩ := h
  obtain rfl := readOptionalDigest_eq_ok hfound
  cases found with
  | none =>
    obtain ⟨hpair, rfl⟩ := pure_eq_ok.mp h
    obtain ⟨rfl, rfl⟩ := Prod.mk.inj hpair
    exact .inl (by simp [pointerEntry])
  | some found =>
    simp only [bind_eq_ok, pure_eq_ok, Prod.mk.injEq] at h
    obtain ⟨n, s₂, hversion, ⟨rfl, rfl⟩, rfl⟩ := h
    rcases readVersionOrZero_eq_ok hversion with rfl | ⟨rfl, rfl, hshort⟩
    · exact .inl (by simp [pointerEntry])
    · exact .inr ⟨rfl, rfl, rfl, hshort⟩

theorem length_optionalDigest (digest : Option Digest) :
    (optionalDigest digest).length = if digest.isSome then 33 else 1 := by
  cases digest with
  | none => rfl
  | some digest => simp [optionalDigest, digest.property]

theorem length_pointerEntry (digest : Option Digest) (version : Option UInt64) :
    (pointerEntry digest version).length = if digest.isSome then 41 else 1 := by
  rw [pointerEntry, List.length_append, length_optionalDigest]
  split_ifs <;> simp

/-- A complete record has one of three lengths. -/
theorem length_serializePointers (pointers : CachePointers) (generation : UInt64) :
    (serializePointers pointers generation).length = 26 ∨
      (serializePointers pointers generation).length = 66 ∨
      (serializePointers pointers generation).length = 106 := by
  have hmagic : pointerMagic.length = 8 := by decide
  simp only [serializePointers, List.length_append, hmagic, length_beBytes, length_pointerEntry,
    List.length_nil]
  split_ifs <;> omega

/-- The fields of a record in front of its entries. -/
def pointerHeader (generation : UInt64) : Bytes :=
  pointerMagic ++ (beBytes 8 pointerSchemaVersion ++ beBytes 8 generation.toNat)

variable {pointers : CachePointers}

/-- What is accepted: a header, and two entries of which the last is followed by nothing. -/
theorem deserializePointers_eq_ok (h : deserializePointers bytes = .ok pointers) :
    ∃ generation s s', bytes = pointerHeader generation ++ s ∧
      readPointerEntry s = .ok ((pointers.currentDigest, pointers.currentVersion), s') ∧
      readPointerEntry s' = .ok ((pointers.lkgDigest, pointers.lkgVersion), []) := by
  unfold deserializePointers at h
  cases hread : readPointerRecord bytes with
  | error e =>
    rw [hread] at h
    cases h
  | ok p =>
    obtain ⟨found, rest⟩ := p
    rw [hread] at h
    obtain rfl : found = pointers := Except.ok.inj h
    simp only [readPointerRecord, bind_eq_ok, take_eq_ok, failIf_eq_ok,
      beWord_eq_ok, Reader.remaining_eq_ok, pure_eq_ok, not_not] at hread
    obtain ⟨magic, _, ⟨-, rfl⟩, _, _, ⟨hmagic, rfl⟩, schema, _, ⟨-, rfl⟩, _, _, ⟨hschema, rfl⟩,
      generation, s, ⟨hgeneration, rfl⟩, ⟨currentDigest, currentVersion⟩, s', hcurrent,
      ⟨lkgDigest, lkgVersion⟩, _, hlkg, _, _, ⟨rfl, rfl⟩, _, _, ⟨hleft, rfl⟩, rfl, rfl⟩ := hread
    obtain rfl := List.length_eq_zero_iff.mp hleft
    refine ⟨.ofNat generation, s, s', ?_, hcurrent, hlkg⟩
    rw [pointerHeader, UInt64.toNat_ofNat_of_lt' hgeneration, hmagic, hschema, List.append_assoc,
      List.append_assoc]

/-- A record that is accepted is complete, or it lacks a version, which is read as zero. -/
theorem deserializePointers_cases (h : deserializePointers bytes = .ok pointers) :
    (∃ generation, serializePointers pointers generation = bytes) ∨
      ((bytes.length = 58 ∨ bytes.length = 98) ∧
        (pointers.currentVersion = some 0 ∨ pointers.lkgVersion = some 0)) := by
  obtain ⟨generation, s, s', rfl, hcurrent, hlkg⟩ := deserializePointers_eq_ok h
  have hheader : (pointerHeader generation).length = 24 := by
    simp only [pointerHeader, List.length_append, length_beBytes]
    decide
  rcases readPointerEntry_eq_ok hcurrent with rfl | ⟨hsome, hzero, rfl, hshort⟩
  · rcases readPointerEntry_eq_ok hlkg with rfl | ⟨hsome, hzero, rfl, -⟩
    · refine .inl ⟨generation, ?_⟩
      simp only [serializePointers, pointerHeader, List.append_assoc]
    · refine .inr ⟨?_, .inr hzero⟩
      simp only [List.length_append, hheader, length_pointerEntry, length_optionalDigest, hsome,
        List.length_nil]
      split_ifs <;> simp
  · -- too little is left for another digest, so that one byte says that there is none
    have hone : s'.length = 1 := by
      rcases readPointerEntry_eq_ok hlkg with rfl | ⟨hsome', -, rfl, -⟩
      · rw [List.append_nil, length_pointerEntry] at hshort ⊢
        split_ifs at hshort ⊢ <;> omega
      · rw [List.append_nil, length_optionalDigest, if_pos hsome'] at hshort
        omega
    refine .inr ⟨.inl ?_, .inl hzero⟩
    rw [List.length_append, List.length_append, hheader, length_optionalDigest, if_pos hsome, hone]

/-- A pointer record that is accepted is the record of the pointers that are returned exactly when it
has the length of a complete one; otherwise a version is read as zero that the record does not
hold. -/
theorem pointers_complete_iff (bytes : Bytes) (pointers : CachePointers)
    (h : deserializePointers bytes = .ok pointers) :
    ((∃ generation, serializePointers pointers generation = bytes) ↔
      bytes.length = 26 ∨ bytes.length = 66 ∨ bytes.length = 106) ∧
    ((¬∃ generation, serializePointers pointers generation = bytes) →
      pointers.currentVersion = some 0 ∨ pointers.lkgVersion = some 0) := by
  rcases deserializePointers_cases h with hwritten | ⟨hlength, hzero⟩
  · refine ⟨⟨fun _ => ?_, fun _ => hwritten⟩, fun hnot => absurd hwritten hnot⟩
    obtain ⟨generation, rfl⟩ := hwritten
    exact length_serializePointers pointers generation
  · refine ⟨⟨?_, fun hcomplete => by omega⟩, fun _ => hzero⟩
    rintro ⟨generation, rfl⟩
    exact length_serializePointers pointers generation

/-- A digest for examples. -/
def bundleDigest : Digest := ⟨List.replicate 32 7, by simp⟩

theorem pointers_complete_sample :
    (∃ generation, serializePointers ⟨some bundleDigest, some 7, none, none⟩ generation =
      serializePointers ⟨some bundleDigest, some 7, none, none⟩ 3) ↔
      (serializePointers ⟨some bundleDigest, some 7, none, none⟩ 3).length = 26 ∨
        (serializePointers ⟨some bundleDigest, some 7, none, none⟩ 3).length = 66 ∨
        (serializePointers ⟨some bundleDigest, some 7, none, none⟩ 3).length = 106 :=
  (pointers_complete_iff (serializePointers ⟨some bundleDigest, some 7, none, none⟩ 3)
    ⟨some bundleDigest, some 7, none, none⟩
    (deserializePointers_serializePointers ⟨rfl, rfl⟩ 3)).1

/-- A record without the version of its current bundle is accepted, with version zero, and so is the
beginning of a complete record that ends before the last version. -/
theorem incomplete_pointers_accepted :
    (deserializePointers (pointerHeader 3 ++ (optionalDigest (some bundleDigest) ++ [0])) =
        .ok ⟨some bundleDigest, some 0, none, none⟩ ∧
      ¬∃ pointers generation, serializePointers pointers generation =
        pointerHeader 3 ++ (optionalDigest (some bundleDigest) ++ [0])) ∧
    (deserializePointers ((serializePointers
        ⟨some bundleDigest, some 7, some bundleDigest, some 5⟩ 3).take 98) =
        .ok ⟨some bundleDigest, some 7, some bundleDigest, some 0⟩ ∧
      (serializePointers ⟨some bundleDigest, some 7, some bundleDigest, some 5⟩ 3).length =
        106) := by
  refine ⟨⟨by decide +kernel, ?_⟩, by decide +kernel, by decide +kernel⟩
  rintro ⟨pointers, generation, h⟩
  have hlength := length_serializePointers pointers generation
  have hshort : (pointerHeader 3 ++ (optionalDigest (some bundleDigest) ++ [0])).length = 58 := by
    decide +kernel
  rw [h, hshort] at hlength
  omega

end Wdlp
