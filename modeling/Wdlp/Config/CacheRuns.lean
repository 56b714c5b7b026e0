import Wdlp.Config.Activation

/-!
# Runs of the configuration cache

A cache is opened and given bytes to activate, again and again, on a disk whose steps can fail or be
cut off. The lock of the cache object makes the activations of all threads follow one another; a
crash ends the object, and the next opening starts from the files.

In every such run the cache moves forward and has its bundles, as long as no check for the pointer
record fails. The code takes a failed check for a missing record: it then activates any version, and
forgets the bundle that was current.

## Main definitions

* `CacheEvent`, `CacheSystem.after`, `CacheSystem.run` — runs of openings and activations.
* `CacheSystem.HasBundles`, `CacheSystem.MovesForward` — what a reader finds between calls, and what
  a call does to it.

## Main results

* `CacheSystem.activations_move_forward` — the cache over every run whose checks do not fail.
* `CacheSystem.activation_moves_backward` — a run with a failed check.
-/

namespace Wdlp

open CrashSafe

/-! ### Events -/

/-- What happens to a cache: it is opened, or it is given bytes to activate. The fates are those of
the file operations of the call. -/
inductive CacheEvent where
  | reopen (fates : List Fate)
  | activate (bytes : Bytes) (verifier : ConfigurationVerifier) (fates : List Fate)

/-- The check for the pointer record does not fail in the call. -/
def CacheEvent.Checks : CacheEvent → Prop
  | reopen _ => True
  | activate _ _ fates => ConfigurationCache.ChecksPointers fates

/-- The files of a cache, with the generation of the object that works on them, if one is open. -/
structure CacheSystem where
  fs : Fs := ∅
  generation : Option UInt64 := none

namespace CacheSystem

open ConfigurationCache

variable (sha256 : Bytes → Digest) (deviceId : DeviceId)

/-- The cache after one event. The lock of the object makes activations follow one another; a crash
ends the object. -/
def after (system : CacheSystem) : CacheEvent → CacheSystem
  | .reopen fates =>
    match openCache ⟨system.fs, fates⟩ with
    | .ok _ disk => ⟨disk.fs, some 0⟩
    | .err _ disk => ⟨disk.fs, none⟩
    | .crash disk => ⟨disk.fs, none⟩
  | .activate bytes verifier fates =>
    match system.generation with
    | none => system
    | some generation =>
      match stageVerifyActivate sha256 deviceId bytes verifier ⟨⟨system.fs, fates⟩, generation⟩ with
      | .ok _ s => ⟨s.disk.fs, some s.generation⟩
      | .err _ s => ⟨s.disk.fs, some s.generation⟩
      | .crash s => ⟨s.disk.fs, none⟩

/-- The cache after a run that starts without any file. -/
def run (events : List CacheEvent) : CacheSystem := events.foldl (after sha256 deviceId) {}

/-- The bytes given in a run, with the verifier they were given with. -/
def presentedIn (events : List CacheEvent) : Set (Bytes × ConfigurationVerifier) :=
  { given | ∃ fates, .activate given.1 given.2 fates ∈ events }

/-- A recorded digest and version: a reader returns a bundle of this digest, which was given with a
verifier and passed the checks for the device with this version. -/
def Resolves (presented : Set (Bytes × ConfigurationVerifier)) (fs : Fs)
    (reader : CacheOp (Option SignedConfigurationV1)) : Option Digest → Option UInt64 → Prop
  | some digest, some version => ∃ signed, quietly reader fs = some (.ok (some signed)) ∧
      signed.contentDigest sha256 = digest ∧
      ∃ given ∈ presented, checkBundle sha256 deviceId given.1 given.2 = .ok (signed, version)
  | none, none => quietly reader fs = some (.ok none)
  | _, _ => False

/-- The pointers can be read, name two different digests, and both resolve. -/
def HasBundles (presented : Set (Bytes × ConfigurationVerifier)) (fs : Fs) : Prop :=
  ∃ pointers, quietly readPointers fs = some (.ok pointers) ∧
    (∀ digest, pointers.currentDigest = some digest → pointers.lkgDigest ≠ some digest) ∧
    Resolves sha256 deviceId presented fs (currentBundle sha256) pointers.currentDigest
      pointers.currentVersion ∧
    Resolves sha256 deviceId presented fs (lkgBundle sha256) pointers.lkgDigest pointers.lkgVersion

/-- The version is newer than the current one, it is the current one afterwards, and what was
current is the last one known to be good. -/
def Activated (before after : Fs) (version : UInt64) (digest : Digest) : Prop :=
  ∃ pointers, quietly readPointers before = some (.ok pointers) ∧
    (∀ current, pointers.currentVersion = some current → current < version) ∧
    quietly readPointers after = some (.ok (pointers.advance digest version)) ∧
    quietly (lkgBundle sha256) after = quietly (currentBundle sha256) before

/-- Readers find the same pointers and the same bundles. -/
def Unchanged (before after : Fs) : Prop :=
  quietly readPointers after = quietly readPointers before ∧
    quietly (currentBundle sha256) after = quietly (currentBundle sha256) before ∧
    quietly (lkgBundle sha256) after = quietly (lkgBundle sha256) before

/-- A call that returns has activated its bundle, one that fails has changed nothing, and one that
is cut off has done one or the other. -/
def MovesForward (before : Fs) (outcome : Outcome CacheState CacheError ActivationOutcome) : Prop :=
  outcome.Sat
    (fun result t => ∃ version digest, result = .activated version digest ∧
      Activated sha256 before t.disk.fs version digest)
    (fun _ t => Unchanged sha256 before t.disk.fs)
    (fun t => Unchanged sha256 before t.disk.fs ∨ ∃ version digest,
      Activated sha256 before t.disk.fs version digest)

variable {sha256 deviceId}
variable {presented : Set (Bytes × ConfigurationVerifier)} {fs fs' : Fs} {view view' : View}
variable {system : CacheSystem} {entry : Entry}

section Readers

variable (h : Holds sha256 deviceId presented fs view)
include h

theorem quietly_readPointers : quietly readPointers fs = some (.ok (view.pointers sha256)) := by
  rw [quietly, h.readPointers_eq, Outcome.result?_ok]

theorem quietly_currentBundle :
    quietly (currentBundle sha256) fs = some (.ok (view.current.map (·.signed))) := by
  rw [quietly, h.currentBundle_eq, Outcome.result?_ok]

theorem quietly_lkgBundle :
    quietly (lkgBundle sha256) fs = some (.ok (view.lkg.map (·.signed))) := by
  rw [quietly, h.lkgBundle_eq, Outcome.result?_ok]

/-- A bundle of the view resolves. -/
theorem resolves_of_holds {selected : Option Entry} {reader : CacheOp (Option SignedConfigurationV1)}
    (hselected : ∀ entry, selected = some entry → entry ∈ view.entries)
    (hreader : quietly reader fs = some (.ok (selected.map (·.signed)))) :
    Resolves sha256 deviceId presented fs reader
      (selected.map fun entry => entry.signed.contentDigest sha256)
      (selected.map (·.version)) := by
  cases selected with
  | none => exact hreader
  | some entry =>
    have haccepted := h.accepted entry (hselected entry rfl)
    exact ⟨entry.signed, hreader, rfl, _, haccepted.given, haccepted.checked⟩

theorem hasBundles_of_holds (hfree : CollisionFree sha256 presented) :
    HasBundles sha256 deviceId presented fs := by
  refine ⟨_, quietly_readPointers h, fun digest hcurrent hlkg => ?_,
    resolves_of_holds h (fun entry hentry => List.mem_append_left _ (by rw [hentry]; simp))
      (quietly_currentBundle h),
    resolves_of_holds h (fun entry hentry => List.mem_append_right _ (by rw [hentry]; simp))
      (quietly_lkgBundle h)⟩
  obtain ⟨current, hview, rfl⟩ := Option.map_eq_some_iff.mp hcurrent
  obtain ⟨lkg, hviewlkg, hdigest⟩ := Option.map_eq_some_iff.mp hlkg
  have hmem : ∀ entry, view.current = some entry ∨ view.lkg = some entry →
      entry ∈ view.entries := by
    intro entry hentry
    rcases hentry with hentry | hentry <;> simp [View.entries, hentry]
  have hversion := (h.accepted lkg (hmem lkg (.inr hviewlkg))).version_eq hfree
    (h.accepted current (hmem current (.inl hview))) hdigest
  have hlt := h.ordered current lkg hview hviewlkg
  rw [hversion] at hlt
  exact UInt64.lt_irrefl _ hlt

theorem unchanged_of_holds (h' : Holds sha256 deviceId presented fs' view) :
    Unchanged sha256 fs fs' := by
  refine ⟨?_, ?_, ?_⟩
  · rw [quietly_readPointers h, quietly_readPointers h']
  · rw [quietly_currentBundle h, quietly_currentBundle h']
  · rw [quietly_lkgBundle h, quietly_lkgBundle h']

theorem activated_of_holds (hnewer : Newer view entry)
    (h' : Holds sha256 deviceId presented fs' (view.activate entry)) :
    Activated sha256 fs fs' entry.version (entry.signed.contentDigest sha256) := by
  refine ⟨_, quietly_readPointers h, fun current hcurrent => ?_, ?_, ?_⟩
  · obtain ⟨old, hold, rfl⟩ := Option.map_eq_some_iff.mp hcurrent
    exact hnewer old hold
  · rw [quietly_readPointers h', View.pointers_activate]
  · rw [quietly_lkgBundle h', quietly_currentBundle h]
    rfl

end Readers

/-- Opening touches the staging directory only. -/
theorem openCache_state (disk : Disk) (q : Path) (hq : q ≠ stagingDir) :
    (openCache disk).state.fs[q]? = disk.fs[q]? := by
  have htouch : ∀ {q}, q ≠ stagingDir → ¬(FsOp.createDirAll stagingDir).Touches q := by
    rintro q hq ⟨hne, hpre⟩
    rcases List.prefix_cons_iff.mp hpre with rfl | ⟨rest, rfl, hrest⟩
    · exact hne rfl
    · exact hq (by rw [List.prefix_nil.mp hrest]; rfl)
  have hkeeps : Act.Keeps (fun d : Disk => d.fs[q]? = disk.fs[q]?) openCache := by
    have hstep : ∀ op : FsOp, ¬op.Touches q → Act.Keeps (fun d : Disk => d.fs[q]? = disk.fs[q]?)
        (Act.zoom id (fun d _ => d) (fun _ => CacheError.ioFailure) (Disk.perform op)) := by
      intro op hop
      refine .zoom fun d hd => ?_
      obtain ⟨fs, hleaves, hstate⟩ := Disk.perform_state op d
      rw [id_eq, hstate, Disk.next_fs, hleaves.get_eq hop, hd]
    exact .bind (hstep _ fun ⟨hne, hpre⟩ => hne (List.prefix_nil.mp hpre)) fun _ _ =>
      hstep _ (htouch hq)
  exact hkeeps.state rfl

/-- Every event leaves a view. -/
theorem holds_after (hfree : CollisionFree sha256 presented)
    (h : Holds sha256 deviceId presented system.fs view) {event : CacheEvent}
    (hchecks : event.Checks) (hgiven : presentedIn [event] ⊆ presented) :
    ∃ view', Holds sha256 deviceId presented (system.after sha256 deviceId event).fs view' := by
  cases event with
  | reopen fates =>
    have hfs : (system.after sha256 deviceId (.reopen fates)).fs =
        (openCache ⟨system.fs, fates⟩).state.fs := by
      simp only [after]
      cases openCache ⟨system.fs, fates⟩ <;> rfl
    rw [hfs]
    exact ⟨view, h.congr (openCache_state _ _ (by decide))
      fun entry _ => openCache_state _ _ (by simp [stagingPath, stagingDir])⟩
  | activate bytes verifier fates =>
    unfold after
    cases system.generation with
    | none => exact ⟨view, h⟩
    | some generation =>
      have hwp := h.stageVerifyActivate_wp (s := ⟨⟨system.fs, fates⟩, generation⟩) hfree
        (hgiven ⟨fates, List.mem_singleton_self _⟩) hchecks
      simp only
      cases hrun : stageVerifyActivate sha256 deviceId bytes verifier
          ⟨⟨system.fs, fates⟩, generation⟩ with
      | ok result s =>
        obtain ⟨entry, -, -, -, -, hholds⟩ := Act.ok_of_wp hwp hrun
        exact ⟨_, hholds⟩
      | err e s => exact ⟨view, Act.err_of_wp hwp hrun⟩
      | crash s =>
        obtain hholds | ⟨entry, -, -, -, hholds⟩ := Act.crash_of_wp hwp hrun
        · exact ⟨view, hholds⟩
        · exact ⟨_, hholds⟩

/-- The files hold a view after every run whose checks for the pointer record do not fail. -/
theorem holds_foldl (hfree : CollisionFree sha256 presented) : (events : List CacheEvent) →
    (∀ event ∈ events, event.Checks) → presentedIn events ⊆ presented → {system : CacheSystem} →
    {view : View} → Holds sha256 deviceId presented system.fs view →
    ∃ view', Holds sha256 deviceId presented (events.foldl (after sha256 deviceId) system).fs view'
  | [], _, _, _, view, h => ⟨view, h⟩
  | event :: events, hchecks, hgiven, _, _, h => by
    obtain ⟨view', h'⟩ := holds_after hfree h (hchecks event List.mem_cons_self)
      fun given ⟨fates, hmem⟩ => hgiven ⟨fates, by rw [List.mem_singleton.mp hmem]; simp⟩
    exact holds_foldl hfree events (fun event hevent => hchecks event (.tail _ hevent))
      (fun given ⟨fates, hmem⟩ => hgiven ⟨fates, .tail _ hmem⟩) h'

/-- Without any file nothing is current. -/
theorem holds_empty : Holds sha256 deviceId presented ∅ {} where
  record := .inl ⟨rfl, Map.get_empty⟩
  staged := nofun
  accepted := nofun
  behind := nofun
  ordered := nofun

/-- After every run with crashes and failed file operations, in which no check for the pointer
record fails, the pointers name two bundles that are there and passed the checks; and the next call
activates a newer bundle, keeping the current one as the last one known to be good, or changes
nothing. -/
theorem activations_move_forward (sha256 : Bytes → Digest) (deviceId : DeviceId)
    (events : List CacheEvent) (bytes : Bytes) (verifier : ConfigurationVerifier)
    (fates : List Fate) (generation : UInt64)
    (hchecks : ∀ event ∈ events ++ [.activate bytes verifier fates], event.Checks)
    (hfree : CollisionFree sha256 (presentedIn (events ++ [.activate bytes verifier fates]))) :
    HasBundles sha256 deviceId (presentedIn (events ++ [.activate bytes verifier fates]))
      (run sha256 deviceId events).fs ∧
    MovesForward sha256 (run sha256 deviceId events).fs
      (stageVerifyActivate sha256 deviceId bytes verifier
        ⟨⟨(run sha256 deviceId events).fs, fates⟩, generation⟩) := by
  have hempty : Holds sha256 deviceId (presentedIn (events ++ [.activate bytes verifier fates]))
      ({} : CacheSystem).fs {} := holds_empty
  obtain ⟨view, hholds⟩ := holds_foldl hfree events
    (fun event hevent => hchecks event (List.mem_append_left _ hevent))
    (fun given ⟨fates, hmem⟩ => ⟨fates, List.mem_append_left _ hmem⟩) hempty
  refine ⟨hasBundles_of_holds hholds hfree, ?_⟩
  have hwp := hholds.stageVerifyActivate_wp
    (s := ⟨⟨(run sha256 deviceId events).fs, fates⟩, generation⟩) hfree
    ⟨fates, List.mem_append_right _ (List.mem_singleton_self _)⟩
    (hchecks _ (List.mem_append_right _ (List.mem_singleton_self _)))
  refine Act.wp_mono hwp (fun result t ht => ?_) (fun _ t ht => unchanged_of_holds hholds ht)
    (fun t ht => ?_)
  · obtain ⟨entry, hresult, -, -, hnewer, hholds'⟩ := ht
    exact ⟨_, _, hresult, activated_of_holds hholds hnewer hholds'⟩
  · obtain hsame | ⟨entry, -, -, hnewer, hholds'⟩ := ht
    · exact .inl (unchanged_of_holds hholds hsame)
    · exact .inr ⟨_, _, activated_of_holds hholds hnewer hholds'⟩

/-! ### Two versions for one device -/

/-- A digest that keeps the last bytes. -/
def sampleDigest (bytes : Bytes) : Digest :=
  ⟨(bytes.reverse ++ List.replicate 32 0).take 32, by simp⟩

def sampleDevice : DeviceId := ⟨"pc".toList, by decide, by decide⟩

def sampleVerifier : ConfigurationVerifier := ⟨"key".toList, fun _ _ => true⟩

/-- The configuration of the device with a version of one digit, which is its payload as well. -/
def sampleConfiguration (digit : Fin 10) : SignedConfigurationV1 where
  envelope :=
    { deviceId := sampleDevice
      bundleVersion := ⟨[Char.ofNat (48 + digit)], by revert digit; decide, by revert digit; decide⟩
      issuedAtEpochSeconds := 0
      payload := [Char.ofNat (48 + digit)]
      valid := by revert digit; decide }
  keyId := "key".toList
  signature := List.replicate 64 0
  validKey := by decide
  signed := by decide

def sampleBytes (digit : Fin 10) : Bytes :=
  (serializeSignedConfiguration sampleDigest (sampleConfiguration digit)).getD []

/-- Open the cache and activate a version. -/
def sampleRun (digit : Fin 10) : List CacheEvent :=
  [.reopen [], .activate (sampleBytes digit) sampleVerifier []]

/-- The first activation of a cache. -/
theorem activations_move_forward_sample :
    HasBundles sampleDigest sampleDevice
        (presentedIn ([.reopen []] ++ [.activate (sampleBytes 1) sampleVerifier []]))
        (run sampleDigest sampleDevice [.reopen []]).fs ∧
      MovesForward sampleDigest (run sampleDigest sampleDevice [.reopen []]).fs
        (stageVerifyActivate sampleDigest sampleDevice (sampleBytes 1) sampleVerifier
          ⟨⟨(run sampleDigest sampleDevice [.reopen []]).fs, []⟩, 0⟩) := by
  refine activations_move_forward sampleDigest sampleDevice [.reopen []] (sampleBytes 1)
    sampleVerifier [] 0 ?_ ?_
  · rintro event hevent
    rcases List.mem_cons.mp hevent with rfl | hevent
    · trivial
    · rw [List.mem_singleton.mp hevent]
      exact fun _ _ => by simp
  · refine .of_bytes_eq (sampleBytes 1) ?_
    rintro given ⟨fates, hmem⟩
    simp only [List.cons_append, List.nil_append, List.mem_cons, reduceCtorEq, List.not_mem_nil,
      or_false, false_or, CacheEvent.activate.injEq] at hmem
    exact hmem.1

/-- A call that activates a version that is not newer. -/
theorem not_movesForward {outcome : Outcome CacheState CacheError ActivationOutcome}
    {version current : UInt64} {digest : Digest} {pointers : CachePointers}
    (hresult : outcome.result? = some (.ok (.activated version digest)))
    (hread : quietly readPointers fs = some (.ok pointers))
    (hcurrent : pointers.currentVersion = some current) (hstale : ¬current < version) :
    ¬MovesForward sha256 fs outcome := by
  rw [MovesForward, Outcome.eq_ok hresult, Outcome.sat_ok]
  rintro ⟨version', digest', hactivated, pointers', hpointers, hnewer, -⟩
  obtain ⟨rfl, -⟩ := ActivationOutcome.activated.inj hactivated
  obtain rfl : pointers = pointers' :=
    Except.ok.inj (Option.some.inj (hread.symm.trans hpointers))
  exact hstale (hnewer current hcurrent)

/-- The pointers once version 2 is active. -/
def samplePointers : CachePointers where
  currentDigest := some ((sampleConfiguration 2).contentDigest sampleDigest)
  currentVersion := some 2

/-- The check for the pointer record of a call fails, so that the call takes the cache for empty and
activates version 1 over version 2. -/
theorem activation_moves_backward :
    quietly readPointers (run sampleDigest sampleDevice (sampleRun 2)).fs =
        some (.ok samplePointers) ∧
      ¬MovesForward sampleDigest (run sampleDigest sampleDevice (sampleRun 2)).fs
        (stageVerifyActivate sampleDigest sampleDevice (sampleBytes 1) sampleVerifier
          ⟨⟨(run sampleDigest sampleDevice (sampleRun 2)).fs, [.fail .other 0]⟩, 1⟩) := by
  have hread : quietly readPointers (run sampleDigest sampleDevice (sampleRun 2)).fs =
      some (.ok samplePointers) := by decide +kernel
  have hresult : (stageVerifyActivate sampleDigest sampleDevice (sampleBytes 1) sampleVerifier
      ⟨⟨(run sampleDigest sampleDevice (sampleRun 2)).fs, [.fail .other 0]⟩, 1⟩).result? =
      some (.ok (.activated 1 ((sampleConfiguration 1).contentDigest sampleDigest))) := by
    decide +kernel
  have hcurrent : samplePointers.currentVersion = some 2 := rfl
  exact ⟨hread, not_movesForward hresult hread hcurrent (by decide)⟩

/-! ### A cache where version 1 is active -/

/-- The bytes of the sample configurations, with any verifier. -/
def samplePresented : Set (Bytes × ConfigurationVerifier) :=
  { given | ∃ digit, given.1 = sampleBytes digit }

theorem collisionFree_sample : CollisionFree sampleDigest samplePresented := by
  have hread : ∀ digit, deserializeSignedConfiguration sampleDigest (sampleBytes digit) =
      .ok (sampleConfiguration digit) := by decide +kernel
  have hdigest : ∀ digit digit', sampleDigest (sampleConfiguration digit).envelope.canonicalBytes =
      sampleDigest (sampleConfiguration digit').envelope.canonicalBytes → digit = digit' := by
    decide +kernel
  rintro given ⟨digit, hgiven⟩ given' ⟨digit', hgiven'⟩ signed signed' h h' heq
  rw [hgiven, hread] at h
  rw [hgiven', hread] at h'
  obtain rfl := Except.ok.inj h
  obtain rfl := Except.ok.inj h'
  rw [hdigest digit digit' heq]

/-- Version 1 of the sample configuration, as it was accepted. -/
def sampleEntry : Entry := ⟨sampleBytes 1, sampleVerifier, sampleConfiguration 1, 1⟩

def sampleView : View := { current := some sampleEntry }

def sampleFs : Fs :=
  (((∅ : Fs).insert stagingDir .dir).insert pointersPath
    (.file (serializePointers (sampleView.pointers sampleDigest) 1) true)).insert
      (stagingPath (sampleEntry.signed.contentDigest sampleDigest))
      (.file sampleEntry.bytes true)

theorem holds_sampleFs : Holds sampleDigest sampleDevice samplePresented sampleFs sampleView where
  record := .inr ⟨rfl, 1, true, by decide +kernel⟩
  staged other hother := by
    obtain rfl : other = sampleEntry := by simpa [View.entries, sampleView] using hother
    exact ⟨true, by decide +kernel⟩
  accepted other hother := by
    obtain rfl : other = sampleEntry := by simpa [View.entries, sampleView] using hother
    exact ⟨by decide +kernel, 1, rfl⟩
  behind := nofun
  ordered := nofun

end CacheSystem

end Wdlp
