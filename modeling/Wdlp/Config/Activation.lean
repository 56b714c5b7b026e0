import Wdlp.Config.Cache

/-!
# Activations of the configuration cache

What the files of the cache say between calls: which bundle is current and which is the last one
known to be good (`ConfigurationCache.View`), the pointer record that names both, and the staged
bytes of each (`ConfigurationCache.Holds`). An activation turns a view into the one with the new
bundle in front; a call that fails leaves it as it was, and a call that is cut off leaves one or the
other.

The cleanup must never remove a bundle that is still named. That the new bundle is staged under a
name of its own rests on the digests: two bundles of one digest have one envelope, and the version
of the new one is newer.

## Main definitions

* `ConfigurationCache.Entry`, `ConfigurationCache.View`, `ConfigurationCache.Holds` — bundles, and
  what the files hold.
* `ConfigurationCache.CollisionFree` — no two of the bundles presented share a digest.

## Main results

* `ConfigurationCache.Holds.stageVerifyActivate_wp` — what one activation leaves, however it ends.
* `ConfigurationCache.Holds.currentBundle_eq`, `ConfigurationCache.Holds.lkgBundle_eq` — what the
  readers return between calls.
-/

namespace Wdlp

open CrashSafe Act

namespace ConfigurationCache

/-- A bundle with the verifier that accepted it, and what it was read as. -/
structure Entry where
  bytes : Bytes
  verifier : ConfigurationVerifier
  signed : SignedConfigurationV1
  version : UInt64

/-- The current bundle and the last one known to be good. -/
structure View where
  current : Option Entry := none
  lkg : Option Entry := none

namespace View

def entries (view : View) : List Entry := view.current.toList ++ view.lkg.toList

/-- The view after an activation. -/
def activate (view : View) (entry : Entry) : View := ⟨some entry, view.current⟩

/-- The pointer record of the view. -/
def pointers (sha256 : Bytes → Digest) (view : View) : CachePointers where
  currentDigest := view.current.map fun entry => entry.signed.contentDigest sha256
  currentVersion := view.current.map (·.version)
  lkgDigest := view.lkg.map fun entry => entry.signed.contentDigest sha256
  lkgVersion := view.lkg.map (·.version)

theorem paired_pointers (sha256 : Bytes → Digest) (view : View) :
    (view.pointers sha256).Paired := by
  cases view with
  | mk current lkg => cases current <;> cases lkg <;> exact ⟨rfl, rfl⟩

theorem pointers_activate (sha256 : Bytes → Digest) (view : View) (entry : Entry) :
    (view.activate entry).pointers sha256 =
      (view.pointers sha256).advance (entry.signed.contentDigest sha256) entry.version := rfl

theorem mem_referenced {sha256 : Bytes → Digest} {view : View} {digest : Digest} :
    digest ∈ (view.pointers sha256).referenced ↔
      ∃ entry ∈ view.entries, entry.signed.contentDigest sha256 = digest := by
  cases view with
  | mk current lkg =>
    cases current <;> cases lkg <;> simp [pointers, entries, CachePointers.referenced, eq_comm]

end View

section Holds

variable (sha256 : Bytes → Digest) (deviceId : DeviceId)
variable (presented : Set (Bytes × ConfigurationVerifier))

/-- The bundle was presented and passed every check for this device. -/
structure Entry.Accepted (entry : Entry) : Prop where
  checked : checkBundle sha256 deviceId entry.bytes entry.verifier =
    .ok (entry.signed, entry.version)
  given : (entry.bytes, entry.verifier) ∈ presented

/-- The files hold the view: the pointer record, the staged bytes of each bundle, and versions in
order. -/
structure Holds (fs : Fs) (view : View) : Prop where
  record : (view.current = none ∧ fs[pointersPath]? = none) ∨ (view.current.isSome = true ∧
    ∃ generation synced, fs[pointersPath]? =
      some (.file (serializePointers (view.pointers sha256) generation) synced))
  staged : ∀ entry ∈ view.entries, ∃ synced,
    fs[stagingPath (entry.signed.contentDigest sha256)]? = some (.file entry.bytes synced)
  accepted : ∀ entry ∈ view.entries, entry.Accepted sha256 deviceId presented
  behind : view.lkg.isSome = true → view.current.isSome = true
  ordered : ∀ current lkg, view.current = some current → view.lkg = some lkg →
    lkg.version < current.version

/-- No two of the bundles presented have one digest and different envelopes. -/
def CollisionFree : Prop :=
  ∀ given ∈ presented, ∀ given' ∈ presented, ∀ signed signed',
    deserializeSignedConfiguration sha256 given.1 = .ok signed →
    deserializeSignedConfiguration sha256 given'.1 = .ok signed' →
    sha256 signed.envelope.canonicalBytes = sha256 signed'.envelope.canonicalBytes →
      signed.envelope.canonicalBytes = signed'.envelope.canonicalBytes

end Holds

variable {sha256 : Bytes → Digest} {deviceId : DeviceId}
variable {presented : Set (Bytes × ConfigurationVerifier)}
variable {bytes : Bytes} {verifier : ConfigurationVerifier} {signed : SignedConfigurationV1}
variable {version : UInt64} {fs fs' : Fs} {view : View} {entry : Entry} {s : CacheState}

/-- The checks of an activation pass. -/
theorem checkBundle_eq_ok : checkBundle sha256 deviceId bytes verifier = .ok (signed, version) ↔
    deserializeSignedConfiguration sha256 bytes = .ok signed ∧ signed.verify verifier = .ok () ∧
      signed.audience = deviceId ∧ parseU64 signed.envelope.bundleVersion.toWire = some version := by
  have hparse : parseBundleVersion signed.envelope.bundleVersion = .ok version ↔
      parseU64 signed.envelope.bundleVersion.toWire = some version := by
    unfold parseBundleVersion
    cases parseU64 signed.envelope.bundleVersion.toWire <;> simp
  simp only [checkBundle, except_bind_eq_ok, except_failIf_eq_ok, except_mapError_eq_ok,
    except_pure_eq_ok, Prod.mk.injEq]
  constructor
  · rintro ⟨signed', hread, _, -, _, hverify, _, haudience, version', hversion, rfl, rfl⟩
    exact ⟨hread, hverify, not_not.mp haudience, hparse.mp hversion⟩
  · rintro ⟨hread, hverify, haudience, hversion⟩
    exact ⟨signed, hread, (), not_not.mpr rfl, (), hverify, (), not_not.mpr haudience, version,
      hparse.mpr hversion, rfl, rfl⟩

/-- One bundle, however often it is presented. -/
theorem CollisionFree.of_bytes_eq (bytes : Bytes) (h : ∀ given ∈ presented, given.1 = bytes) :
    CollisionFree sha256 presented := by
  intro given hmem given' hmem' signed signed' hread hread' _
  rw [h given hmem] at hread
  rw [h given' hmem', hread] at hread'
  rw [Except.ok.inj hread']

/-- Two bundles of one digest have one version. -/
theorem Entry.Accepted.version_eq (hfree : CollisionFree sha256 presented) {entry' : Entry}
    (h : entry.Accepted sha256 deviceId presented) (h' : entry'.Accepted sha256 deviceId presented)
    (hdigest : entry.signed.contentDigest sha256 = entry'.signed.contentDigest sha256) :
    entry.version = entry'.version := by
  obtain ⟨hread, -, -, hversion⟩ := checkBundle_eq_ok.mp h.checked
  obtain ⟨hread', -, -, hversion'⟩ := checkBundle_eq_ok.mp h'.checked
  have henvelope := ConfigurationEnvelopeV1.canonicalBytes_inj
    (hfree _ h.given _ h'.given _ _ hread hread' hdigest)
  rw [henvelope, hversion'] at hversion
  exact (Option.some.inj hversion).symm

/-- The version of the bundle is newer than the current one. -/
def Newer (view : View) (entry : Entry) : Prop :=
  ∀ current, view.current = some current → current.version < entry.version

section

variable (h : Holds sha256 deviceId presented fs view)

include h

/-- A newer bundle has a digest of its own. -/
theorem Holds.digest_ne
    (hfree : CollisionFree sha256 presented) (haccepted : entry.Accepted sha256 deviceId presented)
    (hnewer : Newer view entry) {other : Entry} (hother : other ∈ view.entries) :
    other.signed.contentDigest sha256 ≠ entry.signed.contentDigest sha256 := by
  intro hdigest
  have hversion := (h.accepted other hother).version_eq hfree haccepted hdigest
  obtain hcurrent | hlkg := List.mem_append.mp hother
  · have hlt := hnewer other (Option.mem_toList.mp hcurrent)
    rw [hversion] at hlt
    exact UInt64.lt_irrefl _ hlt
  · have hlkg := Option.mem_toList.mp hlkg
    obtain ⟨current, hcurrent⟩ := Option.isSome_iff_exists.mp (h.behind (by rw [hlkg]; rfl))
    have hlt := UInt64.lt_trans (h.ordered current other hcurrent hlkg) (hnewer current hcurrent)
    rw [hversion] at hlt
    exact UInt64.lt_irrefl _ hlt

/-! ### What keeps a view -/

/-- The view is held by any file system with the same pointer record and staged bundles. -/
theorem Holds.congr (hrecord : fs'[pointersPath]? = fs[pointersPath]?)
    (hstaged : ∀ entry ∈ view.entries, fs'[stagingPath (entry.signed.contentDigest sha256)]? =
      fs[stagingPath (entry.signed.contentDigest sha256)]?) :
    Holds sha256 deviceId presented fs' view where
  record := by
    rw [hrecord]
    exact h.record
  staged entry hentry := by
    rw [hstaged entry hentry]
    exact h.staged entry hentry
  accepted := h.accepted
  behind := h.behind
  ordered := h.ordered

theorem Holds.sameBut_staging {digest : Digest}
    (hfs : SameBut (stagingTmp digest) fs fs') : Holds sha256 deviceId presented fs' view :=
  h.congr (hfs _ (stagingTmp_ne_pointersPath digest).symm)
    fun _ _ => hfs _ (stagingTmp_ne_stagingPath digest _).symm

theorem Holds.sameBut_pointers
    (hfs : SameBut tempPointersPath fs fs') : Holds sha256 deviceId presented fs' view :=
  h.congr (hfs _ tempPointersPath_ne_pointersPath.symm)
    fun _ _ => hfs _ (tempPointersPath_ne_stagingPath _).symm

/-- Staging a bundle of a digest of its own. -/
theorem Holds.stage {digest : Digest}
    (hfresh : ∀ other ∈ view.entries, other.signed.contentDigest sha256 ≠ digest)
    (hfs : Replaced (stagingPath digest) (stagingTmp digest) bytes fs fs') :
    Holds sha256 deviceId presented fs' view := by
  refine h.congr ?_ fun other hother => ?_
  · rw [hfs _ (stagingTmp_ne_pointersPath digest).symm,
      if_neg (stagingPath_ne_pointersPath digest).symm]
  · rw [hfs _ (stagingTmp_ne_stagingPath digest _).symm, if_neg]
    exact fun heq => hfresh other hother (stagingPath_inj heq)

/-- Replacing the pointers activates a staged bundle. -/
theorem Holds.replace
    (haccepted : entry.Accepted sha256 deviceId presented) (hnewer : Newer view entry)
    (hstaged : ∃ synced, fs[stagingPath (entry.signed.contentDigest sha256)]? =
      some (.file entry.bytes synced)) {generation : UInt64}
    (hfs : Replaced pointersPath tempPointersPath
      (serializePointers ((view.activate entry).pointers sha256) generation) fs fs') :
    Holds sha256 deviceId presented fs' (view.activate entry) := by
  have hkept : ∀ digest, fs'[stagingPath digest]? = fs[stagingPath digest]? := by
    intro digest
    rw [hfs _ (tempPointersPath_ne_stagingPath digest).symm,
      if_neg (stagingPath_ne_pointersPath digest)]
  have hentries : ∀ other ∈ (view.activate entry).entries, other = entry ∨
      other ∈ view.entries := by
    intro other hother
    obtain hnew | hold := List.mem_append.mp hother
    · exact .inl (List.mem_singleton.mp hnew)
    · exact .inr (List.mem_append_left _ hold)
  refine ⟨.inr ⟨rfl, generation, true, ?_⟩, fun other hother => ?_, fun other hother => ?_,
    fun _ => rfl, ?_⟩
  · rw [hfs _ tempPointersPath_ne_pointersPath.symm, if_pos rfl]
  · rw [hkept]
    obtain rfl | hold := hentries other hother
    · exact hstaged
    · exact h.staged other hold
  · obtain rfl | hold := hentries other hother
    · exact haccepted
    · exact h.accepted other hold
  · rintro current lkg hcurrent hlkg
    obtain rfl := Option.some.inj hcurrent
    exact hnewer lkg hlkg

/-- The cleanup keeps the view that the pointers are of. -/
theorem Holds.cleaned
    (hfs : Cleaned (view.pointers sha256) fs fs') : Holds sha256 deviceId presented fs' view := by
  refine h.congr (hfs _ ?_) fun entry hentry => hfs _ ?_
  · rintro ⟨name, digest, hpath, -⟩
    exact absurd hpath (by simp [pointersPath])
  · rintro ⟨name, digest, hpath, hname, hunnamed⟩
    refine hunnamed (View.mem_referenced.mpr ⟨entry, hentry, ?_⟩)
    have hname' : hexEncode (entry.signed.contentDigest sha256).val = name :=
      (List.cons.inj (List.cons.inj hpath).2).1
    rw [← hname', hexParse_hexEncode] at hname
    exact Option.some.inj hname

end

/-! ### An activation -/

/-- The check for the pointer record does not fail. -/
def ChecksPointers (fates : List Fate) : Prop :=
  ∀ kind progress, fates.head? ≠ some (.fail kind progress)

instance (fates : List Fate) : Decidable (ChecksPointers fates) :=
  match fates with
  | [] => .isTrue fun _ _ => by simp
  | .ok :: _ => .isTrue fun _ _ => by simp
  | .fail kind progress :: _ => .isFalse fun h => h kind progress rfl
  | .crash _ :: _ => .isTrue fun _ _ => by simp

/-- Without a current bundle there is none known to be good, and the pointers are empty. -/
theorem Holds.pointers_of_none (h : Holds sha256 deviceId presented fs view)
    (hnone : view.current = none) : view.pointers sha256 = {} := by
  have hlkg : view.lkg = none := by
    by_contra hne
    have hcurrent := h.behind (Option.isSome_iff_ne_none.mpr hne)
    rw [hnone] at hcurrent
    exact absurd hcurrent (by simp)
  rw [View.pointers, hnone, hlkg]
  rfl

/-- The pointers are read back, or the call fails, or it is cut off. -/
theorem Holds.readPointers_wp (h : Holds sha256 deviceId presented s.disk.fs view)
    (hcheck : ChecksPointers s.disk.fates) :
    readPointers.wp (fun pointers t => pointers = view.pointers sha256 ∧ t.disk.fs = s.disk.fs)
      (fun _ t => t.disk.fs = s.disk.fs) (fun t => t.disk.fs = s.disk.fs) s := by
  have hexists : (onDisk CacheError.ioFailure (Disk.pathExists pointersPath)).wp
      (fun present t => present = s.disk.fs.present pointersPath ∧ t.disk.fs = s.disk.fs)
      (fun _ t => t.disk.fs = s.disk.fs) (fun t => t.disk.fs = s.disk.fs) s := by
    unfold onDisk
    rw [wp_zoom, Act.wp]
    unfold Disk.pathExists
    cases hfates : s.disk.fates with
    | nil => exact ⟨rfl, rfl⟩
    | cons fate fates =>
      cases fate with
      | ok => exact ⟨rfl, rfl⟩
      | fail kind progress => exact absurd (by rw [hfates]; rfl) (hcheck kind progress)
      | crash progress => rfl
  unfold readPointers
  refine wp_seq hexists fun present t ht => ?_
  obtain ⟨hpresent, hfs⟩ := ht
  rw [Fs.present_eq (by decide)] at hpresent
  obtain ⟨hnone, habsent⟩ | ⟨hsome, generation, synced, hrecord⟩ := h.record
  · rw [habsent] at hpresent
    subst hpresent
    exact ⟨(h.pointers_of_none hnone).symm, hfs⟩
  · rw [hrecord] at hpresent
    subst hpresent
    simp only [Option.isSome_some, Bool.true_eq_false, if_false]
    rw [wp_bind]
    refine wp_mono (onDisk_readFile_wp pointersPath) (fun bytes t' ht' => ?_)
      (fun _ t' ht' => ht'.trans hfs) (fun t' ht' => ht'.trans hfs)
    rw [hfs, Fs.read?, hrecord] at ht'
    obtain rfl := Option.some.inj ht'.1
    rw [deserializePointers_serializePointers (View.paired_pointers sha256 view)]
    exact ⟨rfl, ht'.2⟩

/-- The view has moved on to a bundle made of the bytes presented. -/
def Advanced (sha256 : Bytes → Digest) (deviceId : DeviceId)
    (presented : Set (Bytes × ConfigurationVerifier)) (bytes : Bytes)
    (verifier : ConfigurationVerifier) (view : View) (entry : Entry) (fs : Fs) : Prop :=
  entry.bytes = bytes ∧ entry.verifier = verifier ∧ Newer view entry ∧
    Holds sha256 deviceId presented fs (view.activate entry)

/-- What an activation leaves. It returns once the view has moved on to its bundle; when it fails,
the view is what it was; when it is cut off, it is one of the two. -/
theorem Holds.stageVerifyActivate_wp (h : Holds sha256 deviceId presented s.disk.fs view)
    (hfree : CollisionFree sha256 presented) (hgiven : (bytes, verifier) ∈ presented)
    (hcheck : ChecksPointers s.disk.fates) :
    (stageVerifyActivate sha256 deviceId bytes verifier).wp
      (fun outcome t => ∃ entry, outcome = .activated entry.version
          (entry.signed.contentDigest sha256) ∧
        Advanced sha256 deviceId presented bytes verifier view entry t.disk.fs)
      (fun _ t => Holds sha256 deviceId presented t.disk.fs view)
      (fun t => Holds sha256 deviceId presented t.disk.fs view ∨ ∃ entry,
        Advanced sha256 deviceId presented bytes verifier view entry t.disk.fs) s := by
  unfold stageVerifyActivate
  rw [wp_bind, wp_ofExcept]
  cases hchecked : checkBundle sha256 deviceId bytes verifier with
  | error e => exact h
  | ok result =>
    obtain ⟨signed, version⟩ := result
    let entry : Entry := ⟨bytes, verifier, signed, version⟩
    have haccepted : entry.Accepted sha256 deviceId presented := ⟨hchecked, hgiven⟩
    simp only
    rw [wp_bind]
    refine wp_mono (h.readPointers_wp hcheck) (fun pointers t₁ h₁ => ?_)
      (fun _ t ht => ht ▸ h) (fun t ht => .inl (ht ▸ h))
    obtain ⟨rfl, hfs₁⟩ := h₁
    have hholds₁ : Holds sha256 deviceId presented t₁.disk.fs view := hfs₁ ▸ h
    rw [wp_bind]
    -- The version check: what follows it runs only when the bundle is newer.
    have hrequire : (requireNewer version (view.pointers sha256).currentVersion).wp
        (fun _ t => Newer view entry ∧ t.disk.fs = t₁.disk.fs)
        (fun _ t => Holds sha256 deviceId presented t.disk.fs view) (fun _ => False) t₁ := by
      unfold requireNewer View.pointers
      cases hcurrent : view.current with
      | none => exact ⟨fun current hc => absurd (hcurrent.symm.trans hc) (by simp), rfl⟩
      | some current =>
        simp only [Option.map_some]
        rw [wp_failIf]
        refine ⟨fun _ => hholds₁, fun hlt => ⟨fun other hother => ?_, rfl⟩⟩
        obtain rfl := Option.some.inj (hcurrent.symm.trans hother)
        exact UInt64.not_le.mp hlt
    refine wp_mono hrequire (fun _ t₂ h₂ => ?_) (fun _ _ => id) (fun _ hf => hf.elim)
    obtain ⟨hnewer, hfs₂⟩ := h₂
    have hholds₂ : Holds sha256 deviceId presented t₂.disk.fs view := hfs₂ ▸ hholds₁
    have hfresh : ∀ other ∈ view.entries,
        other.signed.contentDigest sha256 ≠ signed.contentDigest sha256 :=
      fun other hother => hholds₂.digest_ne hfree haccepted hnewer hother
    rw [wp_bind]
    refine wp_mono (writeFileAtomic_wp _ _ bytes) (fun _ t₃ h₃ => ?_)
      (fun _ t ht => hholds₂.sameBut_staging ht)
      (fun t ht => .inl (ht.elim hholds₂.sameBut_staging (hholds₂.stage hfresh)))
    have hholds₃ := hholds₂.stage hfresh h₃
    have hstaged : ∃ synced, t₃.disk.fs[stagingPath (signed.contentDigest sha256)]? =
        some (.file bytes synced) :=
      ⟨true, by rw [h₃ _ (stagingTmp_ne_stagingPath _ _).symm, if_pos rfl]⟩
    rw [wp_bind, wp_get, wp_bind]
    have hadvanced : ∀ {fs'} {generation : UInt64}, Replaced pointersPath tempPointersPath
        (serializePointers ((view.pointers sha256).advance (signed.contentDigest sha256) version)
          generation) t₃.disk.fs fs' →
        Holds sha256 deviceId presented fs' (view.activate entry) :=
      fun hfs' => hholds₃.replace haccepted hnewer hstaged hfs'
    refine wp_mono (writeFileAtomic_wp _ _ _) (fun _ t₄ h₄ => ?_)
      (fun _ t ht => hholds₃.sameBut_pointers ht) (fun t ht => ?_)
    · have hholds₄ := hadvanced h₄
      rw [wp_bind, wp_modify, wp_bind, wp_attempt]
      -- The cleanup starts from the new view and keeps it, however it ends.
      have hclean := cleanStaging_keeps ((view.activate entry).pointers sha256) t₄.disk.fs
        { t₄ with generation := saturatingSucc t₃.generation } (fun _ _ => rfl)
      refine wp_mono hclean (fun _ t ht => ?_) (fun _ t ht => ?_) (fun t ht => ?_)
      · exact ⟨entry, rfl, rfl, rfl, hnewer, hholds₄.cleaned ht.1⟩
      · exact ⟨entry, rfl, rfl, rfl, hnewer, hholds₄.cleaned ht⟩
      · exact .inr ⟨entry, rfl, rfl, hnewer, hholds₄.cleaned ht⟩
    · obtain hsame | hreplaced := ht
      · exact .inl (hholds₃.sameBut_pointers hsame)
      · exact .inr ⟨entry, rfl, rfl, hnewer, hadvanced hreplaced⟩

/-! ### Readers -/

/-- What an operation answers on files that nothing goes wrong with. -/
def quietly {α : Type} (p : CacheOp α) (fs : Fs) : Option (Except CacheError α) :=
  (p ⟨⟨fs, []⟩, 0⟩).result?

section

variable (h : Holds sha256 deviceId presented fs view)

include h

/-- On files that nothing goes wrong with, the pointers of the view are read back. -/
theorem Holds.readPointers_eq (generation : UInt64) :
    readPointers ⟨⟨fs, []⟩, generation⟩ = .ok (view.pointers sha256) ⟨⟨fs, []⟩, generation⟩ := by
  have hexists : onDisk CacheError.ioFailure (Disk.pathExists pointersPath)
      ⟨⟨fs, []⟩, generation⟩ = .ok (fs.present pointersPath) ⟨⟨fs, []⟩, generation⟩ :=
    zoom_of_ok (Disk.pathExists_of_nil rfl)
  unfold readPointers
  rw [bind_of_ok hexists, Fs.present_eq (by decide)]
  obtain ⟨hnone, habsent⟩ | ⟨-, written, synced, hrecord⟩ := h.record
  · rw [habsent, h.pointers_of_none hnone]
    rfl
  · have hread : onDisk CacheError.ioFailure (Disk.readFile pointersPath)
        ⟨⟨fs, []⟩, generation⟩ = .ok (serializePointers (view.pointers sha256) written)
          ⟨⟨fs, []⟩, generation⟩ :=
      zoom_of_ok (Disk.readFile_of_nil rfl (Fs.read?_eq_some.mpr ⟨synced, hrecord⟩))
    simp only [hrecord, Option.isSome_some, Bool.true_eq_false, if_false]
    rw [bind_of_ok hread, deserializePointers_serializePointers (View.paired_pointers sha256 view)]
    rfl

/-- A bundle of the view is loaded by its digest. -/
theorem Holds.loadSelected_eq {selected : Option Entry}
    (hselected : ∀ entry, selected = some entry → entry ∈ view.entries) (generation : UInt64) :
    loadSelected sha256 (selected.map fun entry => entry.signed.contentDigest sha256)
    ⟨⟨fs, []⟩, generation⟩ = .ok (selected.map (·.signed)) ⟨⟨fs, []⟩, generation⟩ := by
  cases selected with
  | none => rfl
  | some entry =>
    obtain ⟨synced, hstaged⟩ := h.staged entry (hselected entry rfl)
    obtain ⟨hdecode, -, -, -⟩ := checkBundle_eq_ok.mp (h.accepted entry (hselected entry rfl)).checked
    have hread : onDisk CacheError.missingBundle
        (Disk.readFile (stagingPath (entry.signed.contentDigest sha256)))
        ⟨⟨fs, []⟩, generation⟩ = .ok entry.bytes ⟨⟨fs, []⟩, generation⟩ :=
      zoom_of_ok (Disk.readFile_of_nil rfl (Fs.read?_eq_some.mpr ⟨synced, hstaged⟩))
    simp only [Option.map_some, loadSelected, loadBundleAtDigest]
    rw [bind_of_ok hread, hdecode]
    simp only [bind_apply, ofExcept_ok_apply, failIf_apply, ne_eq, not_true_eq_false,
      if_false, pure_apply]

theorem Holds.currentBundle_eq (generation : UInt64) : currentBundle sha256 ⟨⟨fs, []⟩, generation⟩ =
      .ok (view.current.map (·.signed)) ⟨⟨fs, []⟩, generation⟩ := by
  unfold currentBundle
  rw [bind_of_ok (h.readPointers_eq generation)]
  exact h.loadSelected_eq (fun entry hentry => List.mem_append_left _ (by rw [hentry]; simp)) _

theorem Holds.lkgBundle_eq (generation : UInt64) : lkgBundle sha256 ⟨⟨fs, []⟩, generation⟩ =
      .ok (view.lkg.map (·.signed)) ⟨⟨fs, []⟩, generation⟩ := by
  unfold lkgBundle
  rw [bind_of_ok (h.readPointers_eq generation)]
  exact h.loadSelected_eq (fun entry hentry => List.mem_append_right _ (by rw [hentry]; simp)) _

end

/-! ### Calls that change nothing -/

theorem Holds.readPointers_of_quiet (h : Holds sha256 deviceId presented s.disk.fs view)
    (hquiet : s.disk.fates = []) : readPointers s = .ok (view.pointers sha256) s := by
  obtain ⟨⟨fs, fates⟩, generation⟩ := s
  obtain rfl : fates = [] := hquiet
  exact h.readPointers_eq generation

/-- A bundle that does not pass the checks changes nothing. -/
theorem stageVerifyActivate_of_rejected {e : CacheError}
    (hchecked : checkBundle sha256 deviceId bytes verifier = .error e) :
    stageVerifyActivate sha256 deviceId bytes verifier s = .err e s := by
  unfold stageVerifyActivate
  rw [hchecked]
  exact bind_of_err (ofExcept_error_apply ..)

/-- A bundle that is not newer changes nothing. -/
theorem Holds.stageVerifyActivate_of_stale (h : Holds sha256 deviceId presented s.disk.fs view)
    (hquiet : s.disk.fates = [])
    (hchecked : checkBundle sha256 deviceId bytes verifier = .ok (signed, version))
    {current : Entry} (hcurrent : view.current = some current) (hstale : version ≤ current.version) :
    stageVerifyActivate sha256 deviceId bytes verifier s =
      .err (.staleVersion version current.version) s := by
  unfold stageVerifyActivate
  rw [hchecked, bind_of_ok (ofExcept_ok_apply ..)]
  refine (bind_of_ok (h.readPointers_of_quiet hquiet)).trans (bind_of_err ?_)
  simp only [requireNewer, View.pointers, hcurrent, Option.map_some, failIf_apply]
  rw [if_pos hstale]

end ConfigurationCache

end Wdlp
