import Wdlp.Config.Wire
import Wdlp.Lib.Hex

/-!
# The configuration cache

The durable cache of signed configurations. A bundle is staged in a file named by its content
digest, and the pointer record, replaced by an atomic rename, says which bundle is current and which
was current before. An activation verifies the bytes it is given, checks that their version is newer
than the current one, stages them, replaces the pointers and removes the staged bundles that are no
longer named.

Every call is a program on a disk whose steps can fail or be cut off. Two calls of the library are
modelled by what they promise: a rename that fails changes nothing, and a check for a path that
fails answers that nothing is there.

## Main definitions

* `CacheState`, `CacheOp` — the state of a cache object and its operations.
* `checkBundle`, `stageVerifyActivate`, `currentBundle`, `lkgBundle`, `cleanStaging`,
  `openCache` — the operations.

## Main results

* `writeFileAtomic_wp` — a file is replaced as a whole or not at all.
* `cleanStaging_keeps` — the cleanup touches no bundle that the pointers name.
-/

namespace Wdlp

open CrashSafe Act

/-! ### Files -/

def stagingName : Text := "staging".toList

def stagingDir : Path := [stagingName]

/-- The staged bundle of a digest. -/
def stagingPath (digest : Digest) : Path := [stagingName, hexEncode digest.val]

/-- The file that a bundle is written to before it is renamed. -/
def stagingTmp (digest : Digest) : Path := [stagingName, hexEncode digest.val ++ ".tmp".toList]

def pointersPath : Path := ["pointers".toList]

def tempPointersPath : Path := ["pointers.tmp".toList]

/-- `hex::parse`: the digest that a file name is the printed form of. -/
def hexParse (name : Text) : Option Digest :=
  if (utf8 name).length = 64 then
    (hexPairs (utf8 name)).bind fun bytes =>
      if h : bytes.length = 32 then some ⟨bytes, h⟩ else none
  else none

theorem hexParse_hexEncode (digest : Digest) : hexParse (hexEncode digest.val) = some digest := by
  rw [hexParse, if_pos (by rw [length_utf8_hexEncode, digest.property]), hexPairs_hexEncode,
    Option.bind_some, dif_pos digest.property]

theorem stagingPath_inj {x y : Digest} (h : stagingPath x = stagingPath y) : x = y :=
  Subtype.ext (hexEncode_inj (List.cons.inj (List.cons.inj h).2).1)

theorem stagingTmp_ne_stagingPath (x y : Digest) : stagingTmp x ≠ stagingPath y := by
  intro h
  have hname : hexEncode x.val ++ ".tmp".toList = hexEncode y.val :=
    (List.cons.inj (List.cons.inj h).2).1
  have hlength := congrArg (fun t => (utf8 t).length) hname
  simp only [utf8, List.flatMap_append, List.length_append] at hlength
  have hx := length_utf8_hexEncode x.val
  have hy := length_utf8_hexEncode y.val
  have htmp : (List.flatMap String.utf8EncodeChar ".tmp".toList).length = 4 := by decide
  simp only [utf8, x.property, y.property] at hx hy
  omega

theorem stagingPath_ne_pointersPath (digest : Digest) : stagingPath digest ≠ pointersPath := nofun

theorem stagingTmp_ne_pointersPath (digest : Digest) : stagingTmp digest ≠ pointersPath := nofun

theorem tempPointersPath_ne_stagingPath (digest : Digest) : tempPointersPath ≠ stagingPath digest :=
  nofun

theorem tempPointersPath_ne_pointersPath : tempPointersPath ≠ pointersPath := by decide

/-! ### Operations -/

/-- A cache object and the disk it works on. The generation counts the activations of the object. -/
structure CacheState where
  disk : Disk
  generation : UInt64

/-- The operations of the cache. -/
abbrev CacheOp := Act CacheState CacheError

/-- A step on the disk, its error reported as the given one. -/
def onDisk {α : Type} (error : CacheError) (p : Act Disk IoErrorKind α) : CacheOp α :=
  Act.zoom CacheState.disk (fun d s => { s with disk := d }) (fun _ => error) p

/-- `write_file_atomic`. -/
def writeFileAtomic (path temp : Path) (bytes : Bytes) : CacheOp Unit := do
  onDisk .ioFailure (Disk.perform (.create temp))
  onDisk .ioFailure (Disk.perform (.write temp bytes))
  onDisk .ioFailure (Disk.perform (.sync temp))
  onDisk .ioFailure (Disk.performAtomic (.rename temp path))

def writeStagedBundle (digest : Digest) (bytes : Bytes) : CacheOp Unit :=
  writeFileAtomic (stagingPath digest) (stagingTmp digest) bytes

def writePointers (pointers : CachePointers) (generation : UInt64) : CacheOp Unit :=
  writeFileAtomic pointersPath tempPointersPath (serializePointers pointers generation)

/-- `read_pointers`. -/
def readPointers : CacheOp CachePointers := do
  let present ← onDisk .ioFailure (Disk.pathExists pointersPath)
  if present = false then return {}
  else
    let bytes ← onDisk .ioFailure (Disk.readFile pointersPath)
    Act.ofExcept (deserializePointers bytes)

/-- `load_bundle_at_digest`. -/
def loadBundleAtDigest (sha256 : Bytes → Digest) (digest : Digest) :
    CacheOp (Option SignedConfigurationV1) := do
  let bytes ← onDisk .missingBundle (Disk.readFile (stagingPath digest))
  let signed ← Act.ofExcept (deserializeSignedConfiguration sha256 bytes)
  failIf (signed.contentDigest sha256 ≠ digest) CacheError.corruptPointer
  return some signed

/-- The bundle of a digest, if there is one. -/
def loadSelected (sha256 : Bytes → Digest) :
    Option Digest → CacheOp (Option SignedConfigurationV1)
  | some digest => loadBundleAtDigest sha256 digest
  | none => return none

/-- `current_bundle`. -/
def currentBundle (sha256 : Bytes → Digest) : CacheOp (Option SignedConfigurationV1) := do
  let pointers ← readPointers
  loadSelected sha256 pointers.currentDigest

/-- `lkg_bundle`. -/
def lkgBundle (sha256 : Bytes → Digest) : CacheOp (Option SignedConfigurationV1) := do
  let pointers ← readPointers
  loadSelected sha256 pointers.lkgDigest

/-- The digests that the pointers name. -/
def CachePointers.referenced (pointers : CachePointers) : List Digest :=
  pointers.currentDigest.toList ++ pointers.lkgDigest.toList

/-- Remove a staged file that is not named by the pointers; an error is ignored. -/
def cleanEntry (pointers : CachePointers) (name : Text) : CacheOp Unit :=
  match hexParse name with
  | some digest =>
    if digest ∈ pointers.referenced then pure ()
    else do
      let _ ← Act.attempt (onDisk .ioFailure (Disk.perform (.removeFile [stagingName, name])))
  | none => pure ()

/-- `clean_staging`. -/
def cleanStaging (pointers : CachePointers) : CacheOp Unit := do
  let names ← onDisk .ioFailure (Disk.listDir stagingDir)
  Act.forEach names (cleanEntry pointers)

/-- `map_crypto_error`. -/
def mapCryptoError : VerificationError → CacheError
  | .unsupportedSchema _ => .unsupportedSchema
  | .keyIdMismatch => .wrongKeyId
  | .invalidSignatureLength => .invalidSignature
  | .signatureInvalid => .invalidSignature

/-- `parse_bundle_version`. -/
def parseBundleVersion (version : BundleVersion) : Except CacheError UInt64 :=
  (parseU64 version.toWire).elim (.error .invalidWireFormat) .ok

/-- The checks of an activation that need no file: the configuration and its version. -/
def checkBundle (sha256 : Bytes → Digest) (deviceId : DeviceId) (bytes : Bytes)
    (verifier : ConfigurationVerifier) : Except CacheError (SignedConfigurationV1 × UInt64) := do
  let signed ← deserializeSignedConfiguration sha256 bytes
  failIf (signed.contentDigest sha256 ≠ sha256 signed.envelope.canonicalBytes)
    CacheError.invalidContentHash
  (signed.verify verifier).mapError mapCryptoError
  failIf (signed.audience ≠ deviceId) CacheError.wrongAudience
  let version ← parseBundleVersion signed.envelope.bundleVersion
  return (signed, version)

inductive ActivationOutcome where
  | activated (version : UInt64) (digest : Digest)
  | unchanged
  deriving DecidableEq

/-- The version is newer than the current one. -/
def requireNewer (version : UInt64) : Option UInt64 → CacheOp Unit
  | some current => failIf (version ≤ current) (CacheError.staleVersion version current)
  | none => pure ()

/-- `u64::saturating_add` of one. -/
def saturatingSucc (n : UInt64) : UInt64 := if n.toNat + 1 < 2 ^ 64 then n + 1 else n

/-- The pointers after an activation. -/
def CachePointers.advance (pointers : CachePointers) (digest : Digest) (version : UInt64) :
    CachePointers where
  currentDigest := some digest
  currentVersion := some version
  lkgDigest := pointers.currentDigest
  lkgVersion := pointers.currentVersion

/-- `stage_verify_activate`, once the activation lock is taken. -/
def stageVerifyActivate (sha256 : Bytes → Digest) (deviceId : DeviceId) (bytes : Bytes)
    (verifier : ConfigurationVerifier) : CacheOp ActivationOutcome := do
  let (signed, version) ← Act.ofExcept (checkBundle sha256 deviceId bytes verifier)
  let pointers ← readPointers
  requireNewer version pointers.currentVersion
  let digest := signed.contentDigest sha256
  writeStagedBundle digest bytes
  let generation := saturatingSucc (← get).generation
  let newPointers := pointers.advance digest version
  writePointers newPointers generation
  modify fun s => { s with generation := generation }
  let _ ← Act.attempt (cleanStaging newPointers)
  return .activated version digest

/-- `ConfigurationCache::open`. -/
def openCache : Act Disk CacheError Unit := do
  Act.zoom id (fun d _ => d) (fun _ => CacheError.ioFailure) (Disk.perform (.createDirAll []))
  Act.zoom id (fun d _ => d) (fun _ => CacheError.ioFailure) (Disk.perform (.createDirAll stagingDir))

/-! ### What the steps leave -/

/-- Nothing has changed but the temporary file. -/
def SameBut (temp : Path) (fs fs' : Fs) : Prop := ∀ q, q ≠ temp → fs'[q]? = fs[q]?

/-- The file has been replaced by the given bytes, through the temporary file. -/
def Replaced (path temp : Path) (bytes : Bytes) (fs fs' : Fs) : Prop :=
  ∀ q, q ≠ temp → fs'[q]? = if q = path then some (.file bytes true) else fs[q]?

section Steps

variable {s : CacheState} {error : CacheError}

theorem onDisk_perform_wp (op : FsOp) : (onDisk error (Disk.perform op)).wp
    (fun _ t => op.effect s.disk.fs = .ok t.disk.fs) (fun _ t => op.Leaves s.disk.fs t.disk.fs)
    (fun t => op.Leaves s.disk.fs t.disk.fs) s := by
  unfold onDisk
  rw [wp_zoom, Act.wp]
  rcases Disk.perform_cases op s.disk with ⟨fs, he, hp⟩ | ⟨kind, -, hp⟩ | ⟨kind, n, -, hp⟩ |
    ⟨n, -, hp⟩
  · rw [hp]
    exact he
  · rw [hp]
    exact .inr (.inr rfl)
  · rw [hp]
    exact .inr (.inl ⟨n, rfl⟩)
  · rw [hp]
    exact .inr (.inl ⟨n, rfl⟩)

theorem onDisk_performAtomic_wp (op : FsOp) : (onDisk error (Disk.performAtomic op)).wp
    (fun _ t => op.effect s.disk.fs = .ok t.disk.fs) (fun _ t => t.disk.fs = s.disk.fs)
    (fun t => op.Leaves s.disk.fs t.disk.fs) s := by
  unfold onDisk
  rw [wp_zoom, Act.wp]
  rcases Disk.performAtomic_cases op s.disk with ⟨fs, he, hp⟩ | ⟨kind, hp⟩ | ⟨n, hp⟩
  · rw [hp]
    exact he
  · rw [hp]
    rfl
  · rw [hp]
    exact .inr (.inl ⟨n, rfl⟩)

theorem onDisk_readFile_wp (path : Path) : (onDisk error (Disk.readFile path)).wp
    (fun bytes t => s.disk.fs.read? path = some bytes ∧ t.disk.fs = s.disk.fs)
    (fun _ t => t.disk.fs = s.disk.fs) (fun t => t.disk.fs = s.disk.fs) s := by
  unfold onDisk
  rw [wp_zoom, Act.wp]
  rcases Disk.readFile_cases path s.disk with ⟨bytes, hread, hp⟩ | ⟨kind, hp⟩ | hp
  · rw [hp]
    exact ⟨hread, rfl⟩
  · rw [hp]
    rfl
  · rw [hp]
    rfl

theorem onDisk_listDir_wp (path : Path) : (onDisk error (Disk.listDir path)).wp
    (fun _ t => t.disk.fs = s.disk.fs) (fun _ t => t.disk.fs = s.disk.fs)
    (fun t => t.disk.fs = s.disk.fs) s := by
  unfold onDisk
  rw [wp_zoom, Act.wp]
  unfold Disk.listDir
  split
  · split <;> rfl
  · rfl
  · rfl

/-- A step that touches the temporary file only. -/
theorem sameBut_of_leaves {op : FsOp} {temp : Path} {fs fs' : Fs} (h : op.Leaves fs fs')
    (htouch : ∀ q, op.Touches q → q = temp) : SameBut temp fs fs' :=
  fun q hq => h.get_eq fun ht => hq (htouch q ht)

theorem SameBut.trans {temp : Path} {fs fs' fs'' : Fs} (h : SameBut temp fs fs')
    (h' : SameBut temp fs' fs'') : SameBut temp fs fs'' :=
  fun q hq => (h' q hq).trans (h q hq)

/-- A file is replaced as a whole or not at all. -/
theorem writeFileAtomic_wp (path temp : Path) (bytes : Bytes) : (writeFileAtomic path temp bytes).wp
    (fun _ t => Replaced path temp bytes s.disk.fs t.disk.fs)
    (fun _ t => SameBut temp s.disk.fs t.disk.fs)
    (fun t => SameBut temp s.disk.fs t.disk.fs ∨ Replaced path temp bytes s.disk.fs t.disk.fs)
    s := by
  unfold writeFileAtomic
  -- Up to the rename only the temporary file changes; `hcreate`, `hwrite` and `hsync` say how.
  rw [wp_bind]
  refine wp_mono (onDisk_perform_wp (.create temp)) (fun _ t₁ h₁ => ?_)
    (fun _ t h => sameBut_of_leaves h fun _ => id)
    (fun t h => .inl (sameBut_of_leaves h fun _ => id))
  have hu₁ : SameBut temp s.disk.fs t₁.disk.fs := sameBut_of_leaves (.inl h₁) fun _ => id
  obtain ⟨-, hcreate⟩ := FsOp.effect_create.mp h₁
  rw [wp_bind]
  refine wp_mono (onDisk_perform_wp (.write temp bytes)) (fun _ t₂ h₂ => ?_)
    (fun _ t h => hu₁.trans (sameBut_of_leaves h fun _ => id))
    (fun t h => .inl (hu₁.trans (sameBut_of_leaves h fun _ => id)))
  have hu₂ := hu₁.trans (sameBut_of_leaves (.inl h₂) fun _ => id)
  obtain ⟨old, hold, hwrite⟩ := FsOp.effect_write.mp h₂
  rw [wp_bind]
  refine wp_mono (onDisk_perform_wp (.sync temp)) (fun _ t₃ h₃ => ?_)
    (fun _ t h => hu₂.trans (sameBut_of_leaves h fun _ => id))
    (fun t h => .inl (hu₂.trans (sameBut_of_leaves h fun _ => id)))
  have hu₃ := hu₂.trans (sameBut_of_leaves (.inl h₃) fun _ => id)
  obtain ⟨synced, hsynced, hsync⟩ := FsOp.effect_sync.mp h₃
  have htemp : t₃.disk.fs[temp]? = some (.file bytes true) := by
    have holdnil : old = [] := by
      rw [hcreate, Fs.read?, Map.get_insert_self] at hold
      exact (Option.some.inj hold).symm
    rw [hwrite, Fs.read?, Map.get_insert_self, holdnil] at hsynced
    rw [hsync, Map.get_insert_self, ← Option.some.inj hsynced]
    rfl
  have hreplaced : ∀ {fs}, (FsOp.rename temp path).effect t₃.disk.fs = .ok fs →
      Replaced path temp bytes s.disk.fs fs := by
    intro fs hrename q hq
    obtain ⟨bytes', synced', hfile, -, rfl⟩ := FsOp.effect_rename.mp hrename
    rw [htemp] at hfile
    obtain ⟨rfl, rfl⟩ := Node.file.inj (Option.some.inj hfile)
    rw [Map.get_insert]
    by_cases hqpath : path = q
    · rw [if_pos hqpath, if_pos hqpath.symm]
    · rw [if_neg hqpath, if_neg (Ne.symm hqpath), Map.get_erase_of_ne hq]
      exact hu₃ q hq
  refine wp_mono (onDisk_performAtomic_wp (.rename temp path)) (fun _ t h => hreplaced h)
    (fun _ t h => ?_) (fun t h => ?_)
  · rw [h]
    exact hu₃
  · obtain heq | heffect := h.of_atomic trivial
    · rw [heq]
      exact .inl hu₃
    · exact .inr (hreplaced heffect)

/-- The path of a staged file that the pointers do not name. -/
def Removable (pointers : CachePointers) (q : Path) : Prop :=
  ∃ name digest, q = [stagingName, name] ∧ hexParse name = some digest ∧
    digest ∉ pointers.referenced

/-- Only staged files that the pointers do not name differ. -/
def Cleaned (pointers : CachePointers) (fs fs' : Fs) : Prop :=
  ∀ q, ¬Removable pointers q → fs'[q]? = fs[q]?

theorem cleanEntry_keeps (pointers : CachePointers) (fs : Fs) (name : Text) :
    Act.Keeps (fun t : CacheState => Cleaned pointers fs t.disk.fs) (cleanEntry pointers name) := by
  unfold cleanEntry
  split
  · next digest hdigest =>
    refine .ite (fun _ => .pure trivial) fun hmem => ?_
    have hremove : Act.Keeps (fun t : CacheState => Cleaned pointers fs t.disk.fs)
        (onDisk .ioFailure (Disk.perform (.removeFile [stagingName, name]))) := by
      intro t ht
      have hframe : ∀ {fs'}, (FsOp.removeFile [stagingName, name]).Leaves t.disk.fs fs' →
          Cleaned pointers fs fs' := by
        intro fs' hleaves q hq
        rw [hleaves.get_eq, ht q hq]
        rintro rfl
        exact hq ⟨name, digest, rfl, hdigest, hmem⟩
      exact wp_mono (onDisk_perform_wp _) (fun _ _ h => ⟨hframe (.inl h), trivial⟩)
        (fun _ _ h => hframe h) (fun _ h => hframe h)
    exact .bind (.attempt hremove) fun _ _ => .pure trivial
  · exact .pure trivial

/-- The cleanup touches nothing but staged files that the pointers do not name. -/
theorem cleanStaging_keeps (pointers : CachePointers) (fs : Fs) :
    Act.Keeps (fun t : CacheState => Cleaned pointers fs t.disk.fs) (cleanStaging pointers) := by
  have hlist : Act.Keeps (fun t : CacheState => Cleaned pointers fs t.disk.fs)
      (onDisk .ioFailure (Disk.listDir stagingDir)) := by
    intro t ht
    have hsame : ∀ {t' : CacheState}, t'.disk.fs = t.disk.fs → Cleaned pointers fs t'.disk.fs := by
      intro t' h
      rw [h]
      exact ht
    exact wp_mono (onDisk_listDir_wp _) (fun _ _ h => ⟨hsame h, trivial⟩) (fun _ _ h => hsame h)
      (fun _ h => hsame h)
  exact .bind hlist fun names _ => .forEach names fun name _ => cleanEntry_keeps pointers fs name

end Steps

end Wdlp
