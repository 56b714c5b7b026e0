import Wdlp.Config.CacheRuns
import Wdlp.Lib.LockStep

/-!
# The configuration cache and the in-memory set

`ActiveConfigurationSet` keeps the current and the last known good configuration in memory. On a
disk where nothing goes wrong the cache accepts the serialized form of a configuration exactly when
the set accepts the configuration, and its readers then return what the set has.

## Main definitions

* `ActiveConfigurationSet`, `ActiveConfigurationSet.activate` — the set.
* `Delivery`, `cacheStep`, `setStep` — one configuration given to either.
* `ConfigurationCache.Laid` — the layout of the files of a cache, on a quiet disk.

## Main results

* `ConfigurationCache.Holds.stageVerifyActivate_completes` — a newer bundle that passes the checks
  is activated.
* `cache_agrees_with_set` — both accept the same configurations and select the same ones.
-/

namespace Wdlp

open CrashSafe Act

/-! ### The set -/

/-- The errors of the portable agent ports. -/
inductive AgentCoreError where
  | enrollmentRejected
  | configurationRejected
  | healthRejected
  | storageUnavailable
  deriving DecidableEq

/-- The current and the last known good configuration. -/
structure ActiveConfigurationSet where
  current : Option SignedConfigurationV1 := none
  lastKnownGood : Option SignedConfigurationV1 := none

namespace ActiveConfigurationSet

/-- `ActiveConfigurationSet::version`. -/
def version (configuration : SignedConfigurationV1) : Except AgentCoreError UInt64 :=
  (parseU64 configuration.envelope.bundleVersion.toWire).elim (.error .configurationRejected) .ok

/-- The current configuration is not older than the version, or its own version cannot be read. -/
def blocks (current : SignedConfigurationV1) (nextVersion : UInt64) : Bool :=
  match version current with
  | .ok currentVersion => decide (nextVersion ≤ currentVersion)
  | .error _ => true

/-- `ActiveConfigurationSet::activate`: the set afterwards, or why it stays as it is. -/
def activate (set : ActiveConfigurationSet) (configuration : SignedConfigurationV1)
    (verifier : ConfigurationVerifier) : Except AgentCoreError ActiveConfigurationSet := do
  (configuration.verify verifier).mapError fun _ => .configurationRejected
  let nextVersion ← version configuration
  failIf ((set.current.any (blocks · nextVersion)) = true) AgentCoreError.configurationRejected
  return { current := some configuration, lastKnownGood := set.current }

end ActiveConfigurationSet

/-! ### Calls on a quiet disk -/

namespace ConfigurationCache

/-- The staging directory is the only directory below the root. -/
def cacheKind (p : Path) : NodeKind := if p = stagingDir then .dir else .file

/-- The layout of the files of a cache, on a disk where nothing goes wrong. -/
structure Laid (s : CacheState) : Prop where
  fits : s.disk.fs.Fits cacheKind
  staging : s.disk.fs[stagingDir]? = some .dir
  quiet : s.disk.fates = []

/-- A path of a file in the root or in the staging directory. -/
def InCache (p : Path) : Prop :=
  p ≠ [] ∧ p ≠ stagingDir ∧ (p.dropLast = [] ∨ p.dropLast = stagingDir)

instance (p : Path) : Decidable (InCache p) := inferInstanceAs (Decidable (_ ∧ _ ∧ (_ ∨ _)))

variable {s : CacheState} {op : FsOp} {fs : Fs} {p path temp : Path} {error : CacheError}

theorem inCache_stagingPath (digest : Digest) : InCache (stagingPath digest) :=
  ⟨by simp [stagingPath], by simp [stagingPath, stagingDir], .inr rfl⟩

theorem inCache_stagingTmp (digest : Digest) : InCache (stagingTmp digest) :=
  ⟨by simp [stagingTmp], by simp [stagingTmp, stagingDir], .inr rfl⟩

section

variable (h : Laid s)

include h

theorem Laid.placeable (hp : InCache p) : FsOp.Placeable s.disk.fs p := by
  obtain ⟨hne, hdir, hparent⟩ := hp
  refine ⟨?_, h.fits.isDir_eq_false hne (if_neg hdir)⟩
  obtain hroot | hstaging := hparent
  · simp [Fs.isDir, hroot]
  · simp [Fs.isDir, hstaging, h.staging]

/-- The effect of a step on a file keeps the layout. -/
theorem Laid.effect (heffect : op.effect s.disk.fs = .ok fs)
    (hsuits : op.Suits cacheKind) (htouch : ¬op.Touches stagingDir) :
    Laid { s with disk := { s.disk with fs := fs } } where
  fits := h.fits.effect hsuits heffect
  staging := (FsOp.get_effect heffect htouch).trans h.staging
  quiet := h.quiet

/-- A step on a file of the cache that has an effect completes. -/
theorem Laid.perform_completes (heffect : op.effect s.disk.fs = .ok fs)
    (hsuits : op.Suits cacheKind) (htouch : ¬op.Touches stagingDir) :
    (onDisk error (Disk.perform op)).Completes (fun _ t => Laid t ∧ t.disk.fs = fs) s :=
  .of_ok (zoom_of_ok (Disk.perform_of_nil h.quiet heffect)) ⟨h.effect heffect hsuits htouch, rfl⟩

/-- A file is replaced. -/
theorem Laid.writeFileAtomic_completes (hpath : InCache path) (htemp : InCache temp)
    (bytes : Bytes) : (writeFileAtomic path temp bytes).Completes (fun _ t => Laid t) s := by
  have hkind : ∀ {p}, InCache p → cacheKind p = .file := fun hp => if_neg hp.2.1
  unfold writeFileAtomic
  refine (h.perform_completes (FsOp.effect_create.mpr ⟨h.placeable htemp, rfl⟩) (hkind htemp)
    htemp.2.1.symm).bind fun _ t₁ h₁ => ?_
  obtain ⟨hlaid₁, hfs₁⟩ := h₁
  refine (hlaid₁.perform_completes (FsOp.effect_write.mpr ⟨[], ?_, rfl⟩) (hkind htemp)
    htemp.2.1.symm).bind fun _ t₂ h₂ => ?_
  · rw [hfs₁, Fs.read?, Map.get_insert_self]
  obtain ⟨hlaid₂, hfs₂⟩ := h₂
  refine (hlaid₂.perform_completes (FsOp.effect_sync.mpr ⟨[] ++ bytes, ?_, rfl⟩) (hkind htemp)
    htemp.2.1.symm).bind fun _ t₃ h₃ => ?_
  · rw [hfs₂, Fs.read?, Map.get_insert_self]
  obtain ⟨hlaid₃, hfs₃⟩ := h₃
  have heffect : (FsOp.rename temp path).effect t₃.disk.fs =
      .ok ((t₃.disk.fs.erase temp).insert path (.file ([] ++ bytes) true)) :=
    FsOp.effect_rename.mpr ⟨_, _, by rw [hfs₃, Map.get_insert_self], hlaid₃.placeable hpath, rfl⟩
  have htouch : ¬(FsOp.rename temp path).Touches stagingDir := by
    rintro (heq | heq)
    · exact htemp.2.1 heq.symm
    · exact hpath.2.1 heq.symm
  exact .of_ok (zoom_of_ok ((Disk.performAtomic_of_nil hlaid₃.quiet).trans
    (Disk.perform_of_nil hlaid₃.quiet heffect))) (hlaid₃.effect heffect (hkind hpath) htouch)

/-- A step on a file whose error is ignored. -/
theorem Laid.attempt_completes (op : FsOp) (hsuits : op.Suits cacheKind)
    (htouch : ¬op.Touches stagingDir) :
    (Act.attempt (onDisk error (Disk.perform op))).Completes (fun _ t => Laid t) s := by
  cases heffect : op.effect s.disk.fs with
  | ok fs =>
    have hrun : onDisk error (Disk.perform op) s =
        .ok () { s with disk := { s.disk with fs := fs } } :=
      zoom_of_ok (Disk.perform_of_nil h.quiet heffect)
    exact ⟨.ok (), _, by rw [attempt_apply, hrun], h.effect heffect hsuits htouch⟩
  | error kind =>
    have hrun : onDisk error (Disk.perform op) s = .err error s :=
      zoom_of_err (Disk.perform_error_of_nil h.quiet heffect)
    exact ⟨.error error, s, by rw [attempt_apply, hrun], h⟩

theorem Laid.cleanEntry_completes (pointers : CachePointers) (name : Text) :
    (cleanEntry pointers name).Completes (fun _ t => Laid t) s := by
  have htouch : stagingDir ≠ [stagingName, name] := by simp [stagingDir]
  unfold cleanEntry
  split
  · split
    · exact .of_ok rfl h
    · exact (h.attempt_completes (.removeFile _) trivial htouch).bind fun _ t ht => .of_ok rfl ht
  · exact .of_ok rfl h

theorem Laid.cleanStaging_completes (pointers : CachePointers) :
    (cleanStaging pointers).Completes (fun _ t => Laid t) s := by
  have hlist : onDisk CacheError.ioFailure (Disk.listDir stagingDir) s =
      .ok (s.disk.fs.readDir stagingDir) s :=
    zoom_of_ok (Disk.listDir_of_nil h.quiet (by simp [Fs.isDir, h.staging]))
  exact .bind_of_ok hlist (.forEach (fun name t ht => ht.cleanEntry_completes pointers name) _ h)

end

section Calls

variable {sha256 : Bytes → Digest} {deviceId : DeviceId}
variable {presented : Set (Bytes × ConfigurationVerifier)}
variable {bytes : Bytes} {verifier : ConfigurationVerifier} {signed : SignedConfigurationV1}
variable {version : UInt64} {view : View}

/-- A newer bundle that passes the checks is activated. -/
theorem Holds.stageVerifyActivate_completes (h : Holds sha256 deviceId presented s.disk.fs view)
    (hlaid : Laid s) (hchecked : checkBundle sha256 deviceId bytes verifier = .ok (signed, version))
    (hnewer : ∀ current, view.current = some current → current.version < version) :
    (stageVerifyActivate sha256 deviceId bytes verifier).Completes (fun _ t => Laid t) s := by
  unfold stageVerifyActivate
  rw [hchecked]
  refine .bind_of_ok (ofExcept_ok_apply ..) (.bind_of_ok (h.readPointers_of_quiet hlaid.quiet) ?_)
  have hrequire : requireNewer version (view.pointers sha256).currentVersion s = .ok () s := by
    unfold requireNewer View.pointers
    cases hcurrent : view.current with
    | none => rfl
    | some current =>
      simp only [Option.map_some, failIf_apply]
      rw [if_neg (UInt64.not_le.mpr (hnewer current hcurrent))]
  refine .bind_of_ok hrequire ?_
  refine (hlaid.writeFileAtomic_completes (inCache_stagingPath _) (inCache_stagingTmp _) bytes).bind
    fun _ t₁ h₁ => .bind_of_ok (get_apply _) ?_
  refine (h₁.writeFileAtomic_completes (by decide) (by decide) _).bind fun _ t₂ h₂ => ?_
  refine .bind_of_ok (modify_apply ..) ?_
  obtain ⟨u, t₃, hclean, hlaid₃⟩ := Laid.cleanStaging_completes
    (s := { t₂ with generation := saturatingSucc t₁.generation }) ⟨h₂.fits, h₂.staging, h₂.quiet⟩
    ((view.pointers sha256).advance (signed.contentDigest sha256) version)
  exact .bind_of_ok (by rw [attempt_apply, hclean]) (.of_ok rfl hlaid₃)

end Calls

end ConfigurationCache

/-! ### Agreement -/

open ConfigurationCache

/-- A configuration with its serialized form, and the verifier it is given with. -/
structure Delivery where
  signed : SignedConfigurationV1
  bytes : Bytes
  verifier : ConfigurationVerifier

/-- What a caller sees after a delivery: whether it was accepted, and what is selected. -/
structure Observation where
  accepted : Bool
  current : Option (Except CacheError (Option SignedConfigurationV1))
  lastKnownGood : Option (Except CacheError (Option SignedConfigurationV1))

section Steps

variable (sha256 : Bytes → Digest) (deviceId : DeviceId)

/-- The serialized form is given to the cache. -/
def cacheStep (s : CacheState) (delivery : Delivery) : Observation × CacheState :=
  let outcome := stageVerifyActivate sha256 deviceId delivery.bytes delivery.verifier s
  ({ accepted := outcome.result?.any (·.isOk)
     current := quietly (currentBundle sha256) outcome.state.disk.fs
     lastKnownGood := quietly (lkgBundle sha256) outcome.state.disk.fs }, outcome.state)

/-- What is seen of the set. -/
def ActiveConfigurationSet.observe (set : ActiveConfigurationSet) (accepted : Bool) : Observation :=
  ⟨accepted, some (.ok set.current), some (.ok set.lastKnownGood)⟩

/-- The configuration is given to the set. -/
def setStep (set : ActiveConfigurationSet) (delivery : Delivery) :
    Observation × ActiveConfigurationSet :=
  match set.activate delivery.signed delivery.verifier with
  | .ok set' => (set'.observe true, set')
  | .error _ => (set.observe false, set)

/-- The cache as it is opened in an empty directory. -/
def openedCache : CacheState := ⟨(openCache ⟨∅, []⟩).state, 0⟩

variable (presented : Set (Bytes × ConfigurationVerifier))

/-- The delivery is the serialized form of a configuration for the device. -/
structure Delivery.Admitted (delivery : Delivery) : Prop where
  serialized : serializeSignedConfiguration sha256 delivery.signed = some delivery.bytes
  addressed : delivery.signed.audience = deviceId
  given : (delivery.bytes, delivery.verifier) ∈ presented

/-- The cache has selected what the set has. -/
def Agrees (s : CacheState) (set : ActiveConfigurationSet) : Prop :=
  ∃ view : View, Holds sha256 deviceId presented s.disk.fs view ∧ Laid s ∧
    set = ⟨view.current.map (·.signed), view.lkg.map (·.signed)⟩

end Steps

variable {sha256 : Bytes → Digest} {deviceId : DeviceId}
variable {presented : Set (Bytes × ConfigurationVerifier)} {s : CacheState}
variable {set : ActiveConfigurationSet} {delivery : Delivery} {version : UInt64} {view : View}

/-- The checks of the cache on a delivery, from those on its configuration. -/
theorem Delivery.Admitted.checkBundle_eq (h : delivery.Admitted sha256 deviceId presented) :
    checkBundle sha256 deviceId delivery.bytes delivery.verifier = (do
      (delivery.signed.verify delivery.verifier).mapError mapCryptoError
      let version ← parseBundleVersion delivery.signed.envelope.bundleVersion
      return (delivery.signed, version)) := by
  unfold checkBundle
  rw [deserialize_serialize h.serialized]
  simp only [bind, Except.bind, pure, Except.pure, SignedConfigurationV1.contentDigest, failIf,
    ne_eq, h.addressed, not_true_eq_false, if_false]

/-- The current configuration of the set blocks what is not newer than the current bundle. -/
theorem blocks_eq (hholds : Holds sha256 deviceId presented s.disk.fs view) {current : Entry}
    (hcurrent : view.current = some current) :
    ActiveConfigurationSet.blocks current.signed version = decide (version ≤ current.version) := by
  have hmem : current ∈ view.entries := by simp [View.entries, hcurrent]
  obtain ⟨-, -, -, hparse⟩ := checkBundle_eq_ok.mp (hholds.accepted current hmem).checked
  unfold ActiveConfigurationSet.blocks ActiveConfigurationSet.version
  rw [hparse]
  rfl

/-- A delivery that both reject. -/
theorem Agrees.rejected (h : Agrees sha256 deviceId presented s set)
    {e : CacheError} {e' : AgentCoreError}
    (hcache : stageVerifyActivate sha256 deviceId delivery.bytes delivery.verifier s = .err e s)
    (hset : set.activate delivery.signed delivery.verifier = .error e') :
    (cacheStep sha256 deviceId s delivery).1 = (setStep set delivery).1 ∧ Agrees sha256
    deviceId presented (cacheStep sha256 deviceId s delivery).2 (setStep set delivery).2 := by
  have hstate : (cacheStep sha256 deviceId s delivery).2 = s := by
    simp only [cacheStep, hcache, Outcome.state_err]
  have hset' : setStep set delivery = (set.observe false, set) := by
    unfold setStep
    rw [hset]
  rw [hstate, hset']
  refine ⟨?_, h⟩
  obtain ⟨view, hholds, hlaid, rfl⟩ := h
  simp only [cacheStep, hcache, Outcome.state_err, CacheSystem.quietly_currentBundle hholds,
    CacheSystem.quietly_lkgBundle hholds]
  rfl

/-- What the set answers, once the configuration is verified and its version is read. -/
theorem activate_of_verified (hverify : delivery.signed.verify delivery.verifier = .ok ())
    (hparse : parseU64 delivery.signed.envelope.bundleVersion.toWire = some version) :
    set.activate delivery.signed delivery.verifier =
      if set.current.any (ActiveConfigurationSet.blocks · version) = true then
        .error .configurationRejected
      else .ok ⟨some delivery.signed, set.current⟩ := by
  unfold ActiveConfigurationSet.activate ActiveConfigurationSet.version
  rw [hverify, hparse]
  by_cases hblocked : set.current.any (ActiveConfigurationSet.blocks · version) = true
  · rw [if_pos hblocked]
    simp only [Except.mapError, Option.elim_some, bind, Except.bind, failIf, if_pos hblocked]
    rfl
  · rw [if_neg hblocked]
    simp only [Except.mapError, Option.elim_some, bind, Except.bind, failIf, if_neg hblocked]
    rfl

/-- A delivery that both accept. -/
theorem Agrees.accepted (hfree : CollisionFree sha256 presented)
    (hdelivery : delivery.Admitted sha256 deviceId presented)
    (hholds : Holds sha256 deviceId presented s.disk.fs view) (hlaid : Laid s)
    (hchecked : checkBundle sha256 deviceId delivery.bytes delivery.verifier =
      .ok (delivery.signed, version))
    (hnewer : ∀ current, view.current = some current → current.version < version)
    (hset : set.activate delivery.signed delivery.verifier =
      .ok ⟨some delivery.signed, view.current.map (·.signed)⟩) :
    (cacheStep sha256 deviceId s delivery).1 = (setStep set delivery).1 ∧
      Agrees sha256 deviceId presented (cacheStep sha256 deviceId s delivery).2
        (setStep set delivery).2 := by
  obtain ⟨result, t, hrun, hlaid'⟩ :=
    hholds.stageVerifyActivate_completes hlaid hchecked hnewer
  have hcheck : ChecksPointers s.disk.fates := by
    rw [hlaid.quiet]
    exact fun _ _ => by simp
  obtain ⟨entry, -, hbytes, hverifier, -, hholds'⟩ :=
    ok_of_wp (hholds.stageVerifyActivate_wp hfree hdelivery.given hcheck) hrun
  have hsigned : entry.signed = delivery.signed := by
    have haccepted := (hholds'.accepted entry (by simp [View.entries, View.activate])).checked
    rw [hbytes, hverifier, hchecked] at haccepted
    exact (Prod.mk.inj (Except.ok.inj haccepted)).1.symm
  have hset' : setStep set delivery = (ActiveConfigurationSet.observe
      ⟨some delivery.signed, view.current.map (·.signed)⟩ true,
      ⟨some delivery.signed, view.current.map (·.signed)⟩) := by
    unfold setStep
    rw [hset]
  have hview : (view.activate entry).current.map (·.signed) = some delivery.signed :=
    congrArg some hsigned
  rw [hset']
  simp only [cacheStep, hrun, Outcome.state_ok, CacheSystem.quietly_currentBundle hholds',
    CacheSystem.quietly_lkgBundle hholds', hview]
  exact ⟨rfl, view.activate entry, hholds', hlaid', by rw [hview]; rfl⟩

/-- One delivery. -/
theorem Agrees.step (hfree : CollisionFree sha256 presented)
    (hdelivery : delivery.Admitted sha256 deviceId presented)
    (h : Agrees sha256 deviceId presented s set) :
    (cacheStep sha256 deviceId s delivery).1 = (setStep set delivery).1 ∧ Agrees sha256
    deviceId presented (cacheStep sha256 deviceId s delivery).2 (setStep set delivery).2 := by
  have hchecks := hdelivery.checkBundle_eq
  cases hverify : delivery.signed.verify delivery.verifier with
  | error e =>
    rw [hverify] at hchecks
    have hset : set.activate delivery.signed delivery.verifier = .error .configurationRejected := by
      unfold ActiveConfigurationSet.activate
      rw [hverify]
      rfl
    exact h.rejected (stageVerifyActivate_of_rejected hchecks) hset
  | ok u =>
    rw [hverify] at hchecks
    cases hparse : parseU64 delivery.signed.envelope.bundleVersion.toWire with
    | none =>
      rw [parseBundleVersion, hparse] at hchecks
      have hset : set.activate delivery.signed delivery.verifier =
          .error .configurationRejected := by
        unfold ActiveConfigurationSet.activate ActiveConfigurationSet.version
        rw [hverify, hparse]
        rfl
      exact h.rejected (stageVerifyActivate_of_rejected hchecks) hset
    | some version =>
      rw [parseBundleVersion, hparse] at hchecks
      have hset := @activate_of_verified set _ _ hverify hparse
      obtain ⟨view, hholds, hlaid, rfl⟩ := h
      cases hcurrent : view.current with
      | none =>
        rw [hcurrent] at hset
        exact Agrees.accepted hfree hdelivery hholds hlaid hchecks
          (fun current hc => absurd (hcurrent.symm.trans hc) (by simp)) (by rw [hset, hcurrent]; rfl)
      | some current =>
        rw [hcurrent] at hset
        simp only [Option.map_some, Option.any_some, blocks_eq hholds hcurrent,
          decide_eq_true_eq] at hset
        by_cases hstale : version ≤ current.version
        · rw [if_pos hstale] at hset
          rw [← hcurrent]
          exact Agrees.rejected ⟨view, hholds, hlaid, rfl⟩
            (hholds.stageVerifyActivate_of_stale hlaid.quiet hchecks hcurrent hstale)
            (by rw [hcurrent]; exact hset)
        · rw [if_neg hstale] at hset
          refine Agrees.accepted hfree hdelivery hholds hlaid hchecks (fun other hother => ?_)
            (by rw [hcurrent]; exact hset)
          obtain rfl := Option.some.inj (hcurrent.symm.trans hother)
          exact UInt64.not_le.mp hstale

/-- The opened cache and the empty set. -/
theorem agrees_opened : Agrees sha256 deviceId presented openedCache {} := by
  have hopen : (openCache ⟨∅, []⟩).state = ⟨((∅ : Fs).insertDirs []).insertDirs [stagingDir], []⟩ := by
    rfl
  refine ⟨{}, ?_, ⟨?_, ?_, ?_⟩, rfl⟩
  · exact CacheSystem.holds_empty.congr (CacheSystem.openCache_state _ _ (by decide))
      fun _ _ => CacheSystem.openCache_state _ _ (by simp [stagingPath, stagingDir])
  · rw [openedCache, hopen]
    refine (Fs.Fits.empty.insertDirs fun _ hp => absurd hp (by simp)).insertDirs fun p hp => ?_
    rw [List.mem_singleton.mp hp]
    rfl
  · rw [openedCache, hopen, Fs.get_insertDirs, if_pos (List.mem_singleton_self _)]
  · rw [openedCache, hopen]

/-- The cache accepts exactly the serialized forms of the configurations that the set accepts, and
after every one of them its readers return what the set has. -/
theorem cache_agrees_with_set (sha256 : Bytes → Digest) (deviceId : DeviceId)
    (deliveries : List Delivery)
    (hserialized : ∀ delivery ∈ deliveries,
      serializeSignedConfiguration sha256 delivery.signed = some delivery.bytes)
    (haddressed : ∀ delivery ∈ deliveries, delivery.signed.audience = deviceId)
    (hfree : CollisionFree sha256 { given | ∃ delivery ∈ deliveries, delivery.bytes = given.1 }) :
    answersOf (cacheStep sha256 deviceId) openedCache deliveries = answersOf setStep {} deliveries :=
  answersOf_eq_of_lockStep (fun _ _ _ hdelivery h => h.step hfree hdelivery) deliveries
    (fun delivery hmem => ⟨hserialized delivery hmem, haddressed delivery hmem,
      delivery, hmem, rfl⟩) agrees_opened

/-- Version 1 of the sample configuration. -/
def sampleDelivery : Delivery :=
  let version : Fin 10 := ⟨1, by decide⟩
  ⟨CacheSystem.sampleConfiguration version, CacheSystem.sampleBytes version,
    CacheSystem.sampleVerifier⟩

/-- A version is accepted once; given again, it is not newer. -/
theorem cache_agrees_with_set_sample :
    answersOf (cacheStep CacheSystem.sampleDigest CacheSystem.sampleDevice) openedCache
        [sampleDelivery, sampleDelivery] = answersOf setStep {} [sampleDelivery, sampleDelivery] := by
  refine cache_agrees_with_set CacheSystem.sampleDigest CacheSystem.sampleDevice
    [sampleDelivery, sampleDelivery] (by decide +kernel) (by decide) (.of_bytes_eq sampleDelivery.bytes ?_)
  rintro given ⟨delivery, hdelivery, hbytes⟩
  simp only [List.mem_cons, List.not_mem_nil, or_false, or_self] at hdelivery
  rw [← hbytes, hdelivery]

end Wdlp
