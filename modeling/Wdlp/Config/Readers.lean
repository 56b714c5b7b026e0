import Wdlp.Config.CacheRuns
import Wdlp.Lib.Moments

/-!
# Readers of the cache beside activations

`current_bundle` and `lkg_bundle` take no lock. They look for the pointer record, read it and then
read the bundle that it names, while activations in other threads replace the pointers and remove
the bundles that are no longer named. The activations follow one another under the lock of the
cache, so that a moment is given by the number of completed calls and the steps of the next one that
are done.

A reader returns a bundle that was selected while it ran as long as the digest it has read is still
named when it reads the bundle. Two activations in between are enough to remove a current bundle,
and one to remove the last known good one; the reader then reports it as missing.

## Main definitions

* `readSelected` — a reader, with what other threads do between its steps.
* `ActivationCall`, `Moment`, `fsAt` — the files at each moment of a sequence of activations.

## Main results

* `reader_returns_selected` — a reader whose digest is still named.
* `reader_misses_bundle` — a reader between two activations.
-/

namespace Wdlp

open CrashSafe Act ConfigurationCache

/-! ### Readers -/

/-- The bundle that a reader is after. -/
inductive Selector where
  | current
  | lkg

namespace Selector

def digest : Selector → CachePointers → Option Digest
  | current => CachePointers.currentDigest
  | lkg => CachePointers.lkgDigest

def reader (sha256 : Bytes → Digest) : Selector → CacheOp (Option SignedConfigurationV1)
  | current => currentBundle sha256
  | lkg => lkgBundle sha256

/-- The selected bundle of a view. -/
def entry : Selector → View → Option Entry
  | current => View.current
  | lkg => View.lkg

theorem digest_pointers (selector : Selector) (sha256 : Bytes → Digest) (view : View) :
    selector.digest (view.pointers sha256) =
      (selector.entry view).map fun entry => entry.signed.contentDigest sha256 := by
  cases selector <;> rfl

theorem mem_entries {selector : Selector} {view : View} {e : Entry}
    (h : selector.entry view = some e) : e ∈ view.entries := by
  cases selector with
  | current => exact List.mem_append_left _ (Option.mem_toList.mpr h)
  | lkg => exact List.mem_append_right _ (Option.mem_toList.mpr h)

end Selector

/-- A reader; `first` and `second` are what other threads do before it reads the pointers and before
it reads the bundle. -/
def readSelected (sha256 : Bytes → Digest) (selector : Selector) (first second : CacheOp Unit) :
    CacheOp (Option SignedConfigurationV1) := do
  let present ← onDisk .ioFailure (Disk.pathExists pointersPath)
  let pointers ← (if present = false then pure {} else do
    first
    let bytes ← onDisk .ioFailure (Disk.readFile pointersPath)
    Act.ofExcept (deserializePointers bytes))
  second
  loadSelected sha256 (selector.digest pointers)

/-- The files are what other threads have made of them. -/
def filesBecome (fs : Fs) : CacheOp Unit :=
  modify fun s => { s with disk := { s.disk with fs := fs } }

theorem filesBecome_apply (fs : Fs) (s : CacheState) :
    filesBecome fs s = .ok () { s with disk := { s.disk with fs := fs } } := rfl

/-- What a reader answers whose three steps find the given files. -/
def readAcross (sha256 : Bytes → Digest) (selector : Selector) (fs₀ fs₁ fs₂ : Fs) :
    Option (Except CacheError (Option SignedConfigurationV1)) :=
  quietly (readSelected sha256 selector (filesBecome fs₁) (filesBecome fs₂)) fs₀

/-! ### Moments -/

/-- An activation, with the fates of its file operations. -/
structure ActivationCall where
  bytes : Bytes
  verifier : ConfigurationVerifier
  fates : List Fate

/-- The disk of a cache. -/
def cacheDisk : DiskView CacheState where
  fs s := s.disk.fs
  facing s fates := ⟨⟨s.disk.fs, fates⟩, s.generation⟩
  fs_facing _ _ := rfl
  facing_facing _ _ _ := rfl

/-- A moment: some calls are completed, and some steps of the next one are done. -/
structure Moment where
  calls : ℕ
  steps : ℕ

/-- The moment is not after another. -/
def Moment.Precedes (m m' : Moment) : Prop :=
  m.calls < m'.calls ∨ (m.calls = m'.calls ∧ m.steps ≤ m'.steps)

namespace ActivationCall

variable (sha256 : Bytes → Digest) (deviceId : DeviceId)

/-- The call, with other fates. -/
def runWith (call : ActivationCall) (s : CacheState) (fates : List Fate) :
    Outcome CacheState CacheError ActivationOutcome :=
  stageVerifyActivate sha256 deviceId call.bytes call.verifier (cacheDisk.facing s fates)

def run (call : ActivationCall) (s : CacheState) :
    Outcome CacheState CacheError ActivationOutcome :=
  call.runWith sha256 deviceId s call.fates

/-- The fates of the first steps. -/
def upTo (call : ActivationCall) (steps : ℕ) : List Fate :=
  (call.fates ++ List.replicate steps Fate.ok).take steps

/-- Every call returns. -/
def AllSucceed : CacheState → List ActivationCall → Prop
  | _, [] => True
  | s, call :: calls =>
    (∃ outcome, (call.run sha256 deviceId s).result? = some (.ok outcome)) ∧
      AllSucceed (call.run sha256 deviceId s).state calls

/-- The files at a moment. -/
def fsAt : CacheState → List ActivationCall → Moment → Fs
  | s, [], _ => s.disk.fs
  | s, call :: _, ⟨0, steps⟩ =>
    (call.runWith sha256 deviceId s (call.upTo steps ++ [.crash 0])).state.disk.fs
  | s, call :: calls, ⟨k + 1, steps⟩ =>
    fsAt (call.run sha256 deviceId s).state calls ⟨k, steps⟩

/-- The fates up to a moment are those up to a later one, cut off. -/
theorem upTo_prefix (call : ActivationCall) {n n' : ℕ} (h : n ≤ n') :
    call.upTo n <+: call.upTo n' := by
  have hreplicate : List.replicate n Fate.ok <+: List.replicate n' Fate.ok :=
    List.prefix_replicate_iff.mpr ⟨by simpa using h, by simp⟩
  obtain ⟨rest, hrest⟩ := hreplicate
  unfold upTo
  rw [← hrest, ← List.append_assoc]
  have htake : (call.fates ++ List.replicate n Fate.ok ++ rest).take n =
      (call.fates ++ List.replicate n Fate.ok).take n :=
    List.take_append_of_le_length (by simp)
  rw [← htake]
  exact List.take_prefix_take_left h

/-- The check for the pointer record does not fail up to a moment. -/
theorem checks_upTo {call : ActivationCall} (h : ChecksPointers call.fates) (n : ℕ) :
    ChecksPointers (call.upTo n ++ [.crash 0]) := by
  intro kind progress
  unfold upTo
  cases n with
  | zero => simp
  | succ n =>
    cases hfates : call.fates with
    | nil => simp [List.replicate_succ]
    | cons fate fates =>
      have hfate := h kind progress
      rw [hfates] at hfate
      simpa using hfate

end ActivationCall

/-! ### The pointer record does not go away -/

/-- Where there was a pointer record, there is one. -/
def KeepsRecord (fs fs' : Fs) : Prop :=
  fs[pointersPath]?.isSome = true → fs'[pointersPath]?.isSome = true

theorem KeepsRecord.refl (fs : Fs) : KeepsRecord fs fs := id

theorem KeepsRecord.trans (fs fs' fs'' : Fs) (h : KeepsRecord fs fs') (h' : KeepsRecord fs' fs'') :
    KeepsRecord fs fs'' := h' ∘ h

theorem KeepsRecord.of_eq {fs fs' : Fs} (h : fs'[pointersPath]? = fs[pointersPath]?) :
    KeepsRecord fs fs' := by
  rw [KeepsRecord, h]
  exact id

/-- The program never removes the pointer record. -/
abbrev ClimbsRecord {α : Type} (p : CacheOp α) : Prop := Climbs cacheDisk KeepsRecord p

section Climbs

variable {op : FsOp} {error : CacheError}

/-- The step never removes the pointer record. -/
def SparesRecord (op : FsOp) : Prop :=
  ∀ fs fs', op.Leaves fs fs' → KeepsRecord fs fs' ∧ KeepsRecord (op.interrupted 0 fs) fs'

theorem sparesRecord_of_not_touches (h : ¬op.Touches pointersPath) : SparesRecord op := by
  intro fs fs' hleaves
  refine ⟨.of_eq (hleaves.get_eq h), .of_eq ?_⟩
  rw [hleaves.get_eq h, FsOp.get_interrupted 0 h]

theorem sparesRecord_rename : SparesRecord (.rename tempPointersPath pointersPath) := by
  intro fs fs' hleaves
  have hkeeps : KeepsRecord fs fs' := by
    obtain rfl | heffect := hleaves.of_atomic trivial
    · exact .refl _
    · obtain ⟨bytes, synced, -, -, rfl⟩ := FsOp.effect_rename.mp heffect
      intro _
      rw [Map.get_insert_self]
      rfl
  exact ⟨hkeeps, hkeeps⟩

/-- A step on the disk; `cut` is what it leaves of the files when it is cut off at its start. -/
theorem climbsRecord_onDisk {α : Type} {q : Act Disk IoErrorKind α} (cut : Fs → Fs)
    (hends : ∀ d, KeepsRecord d.fs (q d).state.fs ∧ KeepsRecord (cut d.fs) (q d).state.fs)
    (hcrash : ∀ fs fates, q ⟨fs, .crash 0 :: fates⟩ = .crash ⟨cut fs, fates⟩)
    (hfates : ∀ fs fate, ∃ o : Outcome Disk IoErrorKind α, ∀ fates,
      q ⟨fs, fate :: fates⟩ = o.mapState fun d => ⟨d.fs, fates⟩) :
    ClimbsRecord (onDisk error q) := by
  have hstate : ∀ s : CacheState, (onDisk error q s).state.disk.fs = (q s.disk).state.fs := by
    intro s
    rw [onDisk, zoom_apply]
    cases q s.disk <;> rfl
  refine .step (fun s => ?_) (fun s fate => ?_) fun s => ⟨cut s.disk.fs, fun b => ?_, fun b => ?_⟩
  · have hrises := (hends s.disk).1
    rw [← hstate s] at hrises
    exact hrises
  · obtain ⟨o, ho⟩ := hfates s.disk.fs fate
    cases o with
    | ok a d => exact ⟨.ok a ⟨d, s.generation⟩, fun b => zoom_of_ok (ho b)⟩
    | err e d => exact ⟨.err error ⟨d, s.generation⟩, fun b => zoom_of_err (ho b)⟩
    | crash d => exact ⟨.crash ⟨d, s.generation⟩, fun b => zoom_of_crash (ho b)⟩
  · exact ⟨⟨⟨_, b⟩, s.generation⟩, zoom_of_crash (hcrash _ b), rfl⟩
  · have hcut := (hends ⟨s.disk.fs, b⟩).2
    rw [← hstate ⟨⟨s.disk.fs, b⟩, s.generation⟩] at hcut
    exact hcut

theorem climbsRecord_perform (hop : SparesRecord op) :
    ClimbsRecord (onDisk error (Disk.perform op)) := by
  refine climbsRecord_onDisk (op.interrupted 0) (fun d => hop _ _ ?_) (fun _ _ => rfl) fun fs fate => ?_
  · obtain ⟨fs, hleaves, hstate⟩ := Disk.perform_state op d
    rw [hstate]
    exact hleaves
  · refine ⟨Disk.perform op ⟨fs, [fate]⟩, fun fates => ?_⟩
    unfold Disk.perform
    cases fate with
    | ok => cases op.effect fs <;> simp [Disk.next, Outcome.mapState]
    | fail kind progress => rfl
    | crash progress => rfl

theorem climbsRecord_performAtomic (hop : SparesRecord op) :
    ClimbsRecord (onDisk error (Disk.performAtomic op)) := by
  refine climbsRecord_onDisk (op.interrupted 0) (fun d => hop _ _ ?_) (fun _ _ => rfl) fun fs fate => ?_
  · rcases Disk.performAtomic_cases op d with ⟨fs, he, hp⟩ | ⟨kind, hp⟩ | ⟨n, hp⟩
    · rw [hp]
      exact .inl he
    · rw [hp]
      exact .inr (.inr rfl)
    · rw [hp]
      exact .inr (.inl ⟨n, rfl⟩)
  · refine ⟨Disk.performAtomic op ⟨fs, [fate]⟩, fun fates => ?_⟩
    unfold Disk.performAtomic Disk.perform
    cases fate with
    | ok => cases op.effect fs <;> simp [Disk.next, Outcome.mapState]
    | fail kind progress => rfl
    | crash progress => rfl

/-- A query leaves the files as they are. -/
theorem climbsRecord_query {α : Type} {q : Act Disk IoErrorKind α}
    (hfs : ∀ d, (q d).state.fs = d.fs)
    (hcrash : ∀ fs fates, q ⟨fs, .crash 0 :: fates⟩ = .crash ⟨fs, fates⟩)
    (hfates : ∀ fs fate, ∃ o : Outcome Disk IoErrorKind α, ∀ fates,
      q ⟨fs, fate :: fates⟩ = o.mapState fun d => ⟨d.fs, fates⟩) :
    ClimbsRecord (onDisk error q) := by
  refine climbsRecord_onDisk id (fun d => ?_) hcrash hfates
  rw [hfs]
  exact ⟨.refl _, .refl _⟩

theorem climbsRecord_pathExists (p : Path) : ClimbsRecord (onDisk error (Disk.pathExists p)) := by
  refine climbsRecord_query (fun d => ?_) (fun _ _ => rfl)
    fun fs fate => ⟨Disk.pathExists p ⟨fs, [fate]⟩, fun fates => by cases fate <;> rfl⟩
  unfold Disk.pathExists
  split <;> rfl

theorem climbsRecord_readFile (p : Path) : ClimbsRecord (onDisk error (Disk.readFile p)) := by
  refine climbsRecord_query (fun d => ?_) (fun _ _ => rfl)
    fun fs fate => ⟨Disk.readFile p ⟨fs, [fate]⟩, fun fates => ?_⟩
  · rcases Disk.readFile_cases p d with ⟨bytes, -, h⟩ | ⟨kind, h⟩ | h <;> rw [h] <;> rfl
  · unfold Disk.readFile
    cases fate with
    | ok =>
      cases fs[p]? with
      | none => simp [Disk.advance, Outcome.mapState]
      | some node => cases node <;> simp [Disk.advance, Outcome.mapState]
    | fail kind progress => rfl
    | crash progress => rfl

theorem climbsRecord_listDir (p : Path) : ClimbsRecord (onDisk error (Disk.listDir p)) := by
  refine climbsRecord_query (fun d => ?_) (fun _ _ => rfl)
    fun fs fate => ⟨Disk.listDir p ⟨fs, [fate]⟩, fun fates => ?_⟩
  · unfold Disk.listDir
    split
    · split <;> rfl
    · rfl
    · rfl
  · unfold Disk.listDir
    cases fate with
    | ok => cases fs.isDir p <;> simp [Disk.advance, Outcome.mapState]
    | fail kind progress => rfl
    | crash progress => rfl

theorem climbsRecord_writeFileAtomic {path temp : Path} (bytes : Bytes) (htemp : temp ≠ pointersPath)
    (hrename : SparesRecord (.rename temp path)) :
    ClimbsRecord (writeFileAtomic path temp bytes) :=
  .bind .trans (climbsRecord_perform (sparesRecord_of_not_touches htemp.symm)) fun _ =>
    .bind .trans (climbsRecord_perform (sparesRecord_of_not_touches htemp.symm)) fun _ =>
      .bind .trans (climbsRecord_perform (sparesRecord_of_not_touches htemp.symm)) fun _ =>
        climbsRecord_performAtomic hrename

theorem climbsRecord_cleanStaging (pointers : CachePointers) :
    ClimbsRecord (cleanStaging pointers) := by
  refine .bind .trans (climbsRecord_listDir _) fun names => .forEach .refl .trans (fun name => ?_) _
  have htouch : pointersPath ≠ [stagingName, name] := nofun
  unfold cleanEntry
  split
  · split
    · exact .pure .refl _
    · exact .bind .trans (.attempt (climbsRecord_perform (sparesRecord_of_not_touches htouch)))
        fun _ => .pure .refl _
  · exact .pure .refl _

theorem climbsRecord_readPointers : ClimbsRecord readPointers := by
  refine .bind .trans (climbsRecord_pathExists _) fun present => ?_
  split
  · exact .pure .refl _
  · exact .bind .trans (climbsRecord_readFile _) fun _ => .ofExcept .refl _

/-- An activation never removes the pointer record. -/
theorem climbsRecord_stageVerifyActivate (sha256 : Bytes → Digest) (deviceId : DeviceId)
    (bytes : Bytes) (verifier : ConfigurationVerifier) :
    ClimbsRecord (stageVerifyActivate sha256 deviceId bytes verifier) := by
  refine .bind .trans (.ofExcept .refl _) fun ⟨signed, version⟩ => ?_
  refine .bind .trans climbsRecord_readPointers fun pointers => ?_
  have hrequire : ClimbsRecord (requireNewer version pointers.currentVersion) := by
    unfold requireNewer
    split
    · exact .failIf .refl
    · exact .pure .refl _
  refine .bind .trans hrequire fun _ => ?_
  have hstaged : SparesRecord (.rename (stagingTmp (signed.contentDigest sha256))
      (stagingPath (signed.contentDigest sha256))) := by
    refine sparesRecord_of_not_touches ?_
    rintro (h | h)
    · exact stagingTmp_ne_pointersPath _ h.symm
    · exact stagingPath_ne_pointersPath _ h.symm
  refine .bind .trans (climbsRecord_writeFileAtomic _ (stagingTmp_ne_pointersPath _) hstaged)
    fun _ => .get_bind (fun _ _ => rfl) fun s => ?_
  refine .bind .trans (climbsRecord_writeFileAtomic _ tempPointersPath_ne_pointersPath
    sparesRecord_rename) fun _ => ?_
  refine .bind .trans (.modify .refl (fun _ => rfl) fun _ _ => rfl) fun _ => ?_
  exact .bind .trans (.attempt (climbsRecord_cleanStaging _)) fun _ => .pure .refl _

end Climbs

/-! ### Views at each moment -/

open ActivationCall

variable {sha256 : Bytes → Digest} {deviceId : DeviceId}
variable {presented : Set (Bytes × ConfigurationVerifier)} {s : CacheState} {view : View}
variable {call : ActivationCall} {calls : List ActivationCall}

/-- A bundle is determined by its bytes and the verifier. -/
theorem ConfigurationCache.Entry.Accepted.eq {e e' : Entry}
    (h : e.Accepted sha256 deviceId presented) (h' : e'.Accepted sha256 deviceId presented)
    (hbytes : e.bytes = e'.bytes) (hverifier : e.verifier = e'.verifier) : e = e' := by
  have hchecked := h.checked
  rw [hbytes, hverifier, h'.checked] at hchecked
  obtain ⟨hsigned, hversion⟩ := Prod.mk.inj (Except.ok.inj hchecked)
  cases e
  cases e'
  simp_all

/-- At each moment of a call the files hold the view from before it or the one after it. -/
theorem holds_runWith (hholds : Holds sha256 deviceId presented s.disk.fs view)
    (hfree : CollisionFree sha256 presented) (hgiven : (call.bytes, call.verifier) ∈ presented)
    {fates : List Fate} (hcheck : ChecksPointers fates) :
    Holds sha256 deviceId presented (call.runWith sha256 deviceId s fates).state.disk.fs view ∨
      ∃ entry, Advanced sha256 deviceId presented call.bytes call.verifier view entry
        (call.runWith sha256 deviceId s fates).state.disk.fs := by
  have hwp := Holds.stageVerifyActivate_wp (s := cacheDisk.facing s fates) hholds hfree hgiven hcheck
  unfold runWith
  cases hrun : stageVerifyActivate sha256 deviceId call.bytes call.verifier
      (cacheDisk.facing s fates) with
  | ok outcome t =>
    obtain ⟨entry, -, hadvanced⟩ := ok_of_wp hwp hrun
    exact .inr ⟨entry, hadvanced⟩
  | err e t => exact .inl (err_of_wp hwp hrun)
  | crash t => exact crash_of_wp hwp hrun

/-- A call that returns has moved the view on. -/
theorem advanced_run (hholds : Holds sha256 deviceId presented s.disk.fs view)
    (hfree : CollisionFree sha256 presented) (hgiven : (call.bytes, call.verifier) ∈ presented)
    (hcheck : ChecksPointers call.fates) {outcome : ActivationOutcome}
    (hsucceeds : (call.run sha256 deviceId s).result? = some (.ok outcome)) :
    ∃ entry, Advanced sha256 deviceId presented call.bytes call.verifier view entry
      (call.run sha256 deviceId s).state.disk.fs := by
  have hwp := Holds.stageVerifyActivate_wp (s := cacheDisk.facing s call.fates) hholds hfree hgiven
    hcheck
  obtain ⟨entry, -, hadvanced⟩ := ok_of_wp hwp (Outcome.eq_ok hsucceeds)
  exact ⟨entry, hadvanced⟩

/-- The bundles of a view and those activated later, the oldest first. -/
def Chronicle (view : View) (later : List Entry) : List Entry :=
  view.lkg.toList ++ (view.current.toList ++ later)

/-- The versions of a chronicle grow, also when a bundle is activated at its start. -/
theorem pairwise_chronicle (hholds : Holds sha256 deviceId presented s.disk.fs view) {entry : Entry}
    {later : List Entry}
    (h : (Chronicle (view.activate entry) later).Pairwise (·.version < ·.version)) :
    (Chronicle view (entry :: later)).Pairwise (·.version < ·.version) := by
  have hactivate : Chronicle (view.activate entry) later = view.current.toList ++ entry :: later :=
    rfl
  rw [hactivate] at h
  unfold Chronicle
  cases hlkg : view.lkg with
  | none => exact h
  | some lkg =>
    obtain ⟨current, hcurrent⟩ := Option.isSome_iff_exists.mp (hholds.behind (by rw [hlkg]; rfl))
    rw [hcurrent] at h ⊢
    have hlt := hholds.ordered current lkg hcurrent hlkg
    refine List.pairwise_cons.mpr ⟨fun e he => ?_, h⟩
    obtain rfl | he := List.mem_cons.mp he
    · exact hlt
    · exact UInt64.lt_trans hlt ((List.pairwise_cons.mp h).1 e he)

/-- The bundles of a view, without any activated later. -/
theorem pairwise_chronicle_nil (hholds : Holds sha256 deviceId presented s.disk.fs view) :
    (Chronicle view []).Pairwise (·.version < ·.version) := by
  unfold Chronicle
  cases hcurrent : view.current with
  | none => cases view.lkg <;> simp
  | some current =>
    cases hlkg : view.lkg with
    | none => simp
    | some lkg => simpa using hholds.ordered current lkg hcurrent hlkg

theorem entries_subset_chronicle (later : List Entry) : view.entries ⊆ Chronicle view later := by
  intro e he
  obtain hcurrent | hlkg := List.mem_append.mp he
  · exact List.mem_append_right _ (List.mem_append_left _ hcurrent)
  · exact List.mem_append_left _ hlkg

/-- At every moment of a sequence of activations the files hold a view, and all the bundles of these
views are in one chronicle. -/
theorem exists_chronicle (hfree : CollisionFree sha256 presented) : (calls : List ActivationCall) →
    (∀ call ∈ calls, ChecksPointers call.fates) →
    (∀ call ∈ calls, (call.bytes, call.verifier) ∈ presented) →
    {s : CacheState} → {view : View} → Holds sha256 deviceId presented s.disk.fs view → AllSucceed
    sha256 deviceId s calls → ∃ later, (Chronicle view later).Pairwise (·.version < ·.version) ∧
    ∀ m, ∃ v, Holds sha256 deviceId presented (fsAt sha256 deviceId s calls m)
    v ∧ v.entries ⊆ Chronicle view later ∧ (view.current.isSome = true → v.current.isSome = true)
  | [], _, _, s, view, hholds, _ => by
    refine ⟨[], pairwise_chronicle_nil hholds, fun m => ⟨view, ?_, entries_subset_chronicle _, id⟩⟩
    rw [fsAt]
    exact hholds
  | call :: calls, hchecks, hgiven, s, view, hholds, hsucceed => by
    obtain ⟨⟨outcome, hcall⟩, hrest⟩ := hsucceed
    have hgivenCall := hgiven call List.mem_cons_self
    have hcheckCall := hchecks call List.mem_cons_self
    obtain ⟨entry, hbytes, hverifier, -, hafter⟩ :=
      advanced_run hholds hfree hgivenCall hcheckCall hcall
    obtain ⟨later, hpairwise, hmoments⟩ := exists_chronicle hfree calls
      (fun call hmem => hchecks call (List.mem_cons_of_mem _ hmem))
      (fun call hmem => hgiven call (List.mem_cons_of_mem _ hmem)) hafter hrest
    have hmem : entry ∈ (view.activate entry).entries := by simp [View.entries, View.activate]
    have hsubset : Chronicle (view.activate entry) later ⊆ Chronicle view (entry :: later) :=
      List.subset_append_right _ _
    refine ⟨entry :: later, pairwise_chronicle hholds hpairwise, fun m => ?_⟩
    obtain ⟨k, n⟩ := m
    cases k with
    | zero =>
      rw [fsAt]
      obtain hsame | ⟨e, hbytes', hverifier', -, hactivated⟩ :=
        holds_runWith hholds hfree hgivenCall (checks_upTo hcheckCall n)
      · exact ⟨view, hsame, entries_subset_chronicle _, id⟩
      · have hmem' : e ∈ (view.activate e).entries := by simp [View.entries, View.activate]
        obtain rfl : e = entry := (hactivated.accepted e hmem').eq (hafter.accepted entry hmem)
          (hbytes'.trans hbytes.symm) (hverifier'.trans hverifier.symm)
        exact ⟨_, hactivated, fun x hx => hsubset (entries_subset_chronicle later hx), fun _ => rfl⟩
    | succ k =>
      obtain ⟨v, hv, hentries, hcurrent⟩ := hmoments ⟨k, n⟩
      rw [fsAt]
      exact ⟨v, hv, fun x hx => hsubset (hentries hx), fun _ => hcurrent rfl⟩

/-- The pointer record that a reader has found is still there when it is read. -/
theorem record_stays (hfree : CollisionFree sha256 presented) :
    (calls : List ActivationCall) → (∀ call ∈ calls, ChecksPointers call.fates) →
    (∀ call ∈ calls, (call.bytes, call.verifier) ∈ presented) → {s : CacheState} → {view : View} →
    Holds sha256 deviceId presented s.disk.fs view → AllSucceed sha256 deviceId s calls →
    {m m' : Moment} → m.Precedes m' →
    KeepsRecord (fsAt sha256 deviceId s calls m) (fsAt sha256 deviceId s calls m')
  | [], _, _, s, _, _, _, m, m', _ => by
    rw [fsAt, fsAt]
    exact .refl _
  | call :: calls, hchecks, hgiven, s, view, hholds, hsucceed, ⟨k, n⟩, ⟨k', n'⟩, hprecedes => by
    obtain ⟨⟨outcome, hcall⟩, hrest⟩ := hsucceed
    obtain ⟨entry, -, -, -, hafter⟩ := advanced_run hholds hfree (hgiven call List.mem_cons_self)
      (hchecks call List.mem_cons_self) hcall
    have hchecks' : ∀ call ∈ calls, ChecksPointers call.fates :=
      fun call hmem => hchecks call (List.mem_cons_of_mem _ hmem)
    have hgiven' : ∀ call ∈ calls, (call.bytes, call.verifier) ∈ presented :=
      fun call hmem => hgiven call (List.mem_cons_of_mem _ hmem)
    cases k' with
    | zero =>
      obtain hlt | ⟨rfl, hle⟩ := hprecedes
      · exact absurd hlt (Nat.not_lt_zero _)
      · rw [fsAt, fsAt]
        exact (climbsRecord_stageVerifyActivate sha256 deviceId call.bytes call.verifier).moments
          .refl (call.upTo_prefix hle)
    | succ k' =>
      cases k with
      | zero =>
        -- Once a call has returned there is always a record.
        obtain ⟨later, -, hmoments⟩ := exists_chronicle hfree calls hchecks' hgiven' hafter hrest
        obtain ⟨v, hv, -, hcurrent⟩ := hmoments ⟨k', n'⟩
        intro _
        rw [fsAt]
        obtain ⟨hnone, -⟩ | ⟨-, generation, synced, hrecord⟩ := hv.record
        · exact absurd (hcurrent rfl) (by rw [hnone]; simp)
        · rw [hrecord]
          rfl
      | succ k =>
        rw [fsAt, fsAt]
        refine record_stays hfree calls hchecks' hgiven' hafter hrest ?_
        obtain hlt | ⟨heq, hle⟩ := hprecedes
        · exact .inl (Nat.lt_of_succ_lt_succ hlt)
        · exact .inr ⟨Nat.succ.inj heq, hle⟩

/-! ### What readers return -/

/-- The digest that a reader finds in the pointers at `fs₁` is still named by those at `fs₂`. -/
def StillNamed (selector : Selector) (fs₁ fs₂ : Fs) : Prop :=
  ∀ pointers pointers', quietly readPointers fs₁ = some (.ok pointers) →
    quietly readPointers fs₂ = some (.ok pointers') →
      ∀ digest, selector.digest pointers = some digest → digest ∈ pointers'.referenced

section Across

variable {fs₀ fs₁ fs₂ : Fs} {v₀ v₁ v₂ : View} {selector : Selector}

theorem quietly_reader (h : Holds sha256 deviceId presented fs₀ v₀) (selector : Selector) :
    quietly (selector.reader sha256) fs₀ = some (.ok ((selector.entry v₀).map (·.signed))) := by
  cases selector with
  | current => exact CacheSystem.quietly_currentBundle h
  | lkg => exact CacheSystem.quietly_lkgBundle h

/-- Without a pointer record nothing is selected. -/
theorem entry_eq_none (h : Holds sha256 deviceId presented fs₀ v₀)
    (habsent : fs₀[pointersPath]? = none) : selector.entry v₀ = none := by
  obtain ⟨hnone, -⟩ | ⟨-, generation, synced, hrecord⟩ := h.record
  · have hdigest := selector.digest_pointers sha256 v₀
    rw [h.pointers_of_none hnone] at hdigest
    refine Option.map_eq_none_iff.mp (hdigest.symm.trans ?_)
    cases selector <;> rfl
  · rw [habsent] at hrecord
    exact absurd hrecord (by simp)

/-- A reader that finds no pointer record. -/
theorem readAcross_of_absent (habsent : fs₀[pointersPath]? = none) :
    readAcross sha256 selector fs₀ fs₁ fs₂ = some (.ok none) := by
  have hexists : onDisk CacheError.ioFailure (Disk.pathExists pointersPath) ⟨⟨fs₀, []⟩, 0⟩ =
      .ok (fs₀.present pointersPath) ⟨⟨fs₀, []⟩, 0⟩ :=
    zoom_of_ok (Disk.pathExists_of_nil rfl)
  unfold readAcross quietly readSelected
  rw [bind_of_ok hexists, Fs.present_eq (by decide), habsent]
  cases selector <;> rfl

/-- A reader that finds a pointer record goes on with the pointers of the second moment. -/
theorem readAcross_of_present (hpresent : fs₀[pointersPath]?.isSome = true)
    (hkeeps : KeepsRecord fs₀ fs₁) (h₁ : Holds sha256 deviceId presented fs₁ v₁) :
    readAcross sha256 selector fs₀ fs₁ fs₂ =
      (loadSelected sha256 (selector.digest (v₁.pointers sha256)) ⟨⟨fs₂, []⟩, 0⟩).result? := by
  obtain ⟨-, habsent⟩ | ⟨-, generation, synced, hrecord⟩ := h₁.record
  · have hstill := hkeeps hpresent
    rw [habsent] at hstill
    exact absurd hstill (by simp)
  · have hexists : onDisk CacheError.ioFailure (Disk.pathExists pointersPath) ⟨⟨fs₀, []⟩, 0⟩ =
        .ok (fs₀.present pointersPath) ⟨⟨fs₀, []⟩, 0⟩ :=
      zoom_of_ok (Disk.pathExists_of_nil rfl)
    have hread : onDisk CacheError.ioFailure (Disk.readFile pointersPath) ⟨⟨fs₁, []⟩, 0⟩ =
        .ok (serializePointers (v₁.pointers sha256) generation) ⟨⟨fs₁, []⟩, 0⟩ :=
      zoom_of_ok (Disk.readFile_of_nil rfl (Fs.read?_eq_some.mpr ⟨synced, hrecord⟩))
    have hpointers : (filesBecome fs₁ >>= fun _ =>
        onDisk CacheError.ioFailure (Disk.readFile pointersPath) >>= fun bytes =>
          Act.ofExcept (deserializePointers bytes)) ⟨⟨fs₀, []⟩, 0⟩ =
        .ok (v₁.pointers sha256) ⟨⟨fs₁, []⟩, 0⟩ := by
      refine (bind_of_ok (filesBecome_apply ..)).trans ((bind_of_ok hread).trans ?_)
      rw [deserializePointers_serializePointers (View.paired_pointers sha256 v₁)]
      rfl
    unfold readAcross quietly readSelected
    rw [bind_of_ok hexists, Fs.present_eq (by decide), hpresent]
    simp only [Bool.true_eq_false, if_false]
    rw [bind_of_ok hpointers, bind_of_ok (filesBecome_apply ..)]

/-- The bundle of a digest that is still named. -/
theorem loadSelected_of_named (hfree : CollisionFree sha256 presented)
    (h₁ : Holds sha256 deviceId presented fs₁ v₁) (h₂ : Holds sha256 deviceId presented fs₂ v₂)
    {chronicle : List Entry} (hchronicle : chronicle.Pairwise (·.version < ·.version))
    (hentries₁ : v₁.entries ⊆ chronicle) (hentries₂ : v₂.entries ⊆ chronicle)
    (hnamed : StillNamed selector fs₁ fs₂) :
    loadSelected sha256 (selector.digest (v₁.pointers sha256)) ⟨⟨fs₂, []⟩, 0⟩ =
      .ok ((selector.entry v₁).map (·.signed)) ⟨⟨fs₂, []⟩, 0⟩ := by
  rw [selector.digest_pointers]
  cases hselected : selector.entry v₁ with
  | none => rfl
  | some e₁ =>
    have hdigest : selector.digest (v₁.pointers sha256) = some (e₁.signed.contentDigest sha256) := by
      rw [selector.digest_pointers, hselected]
      rfl
    obtain ⟨e₂, hmem₂, heq⟩ := View.mem_referenced.mp (hnamed _ _
      (CacheSystem.quietly_readPointers h₁) (CacheSystem.quietly_readPointers h₂) _ hdigest)
    have hmem₁ := Selector.mem_entries hselected
    have hversion := (h₂.accepted e₂ hmem₂).version_eq hfree (h₁.accepted e₁ hmem₁) heq
    -- The versions of a chronicle differ, so the bundle is the one that was selected.
    obtain rfl : e₂ = e₁ := by
      have hnodup : (chronicle.map (·.version)).Nodup :=
        hchronicle.map _ fun _ _ => UInt64.ne_of_lt
      exact List.inj_on_of_nodup_map hnodup (hentries₂ hmem₂) (hentries₁ hmem₁) hversion
    have hselected₂ : ∀ e, some e₂ = some e → e ∈ v₂.entries := fun e he =>
      Option.some.inj he ▸ hmem₂
    exact h₂.loadSelected_eq hselected₂ 0

end Across

/-- A reader beside any number of activations that return, at any moments of these, answers with the
bundle that was selected when it looked for the pointers or when it read them, provided that the
digest it has read is still named when it reads the bundle. -/
theorem reader_returns_selected (sha256 : Bytes → Digest) (deviceId : DeviceId)
    (presented : Set (Bytes × ConfigurationVerifier)) (hfree : CollisionFree sha256 presented)
    (s : CacheState) (view : View) (hholds : Holds sha256 deviceId presented s.disk.fs view)
    (calls : List ActivationCall) (hsucceed : AllSucceed sha256 deviceId s calls)
    (hchecks : ∀ call ∈ calls, ChecksPointers call.fates)
    (hgiven : ∀ call ∈ calls, (call.bytes, call.verifier) ∈ presented)
    (selector : Selector) (m₀ m₁ m₂ : Moment) (hprecedes : m₀.Precedes m₁)
    (hnamed : StillNamed selector (fsAt sha256 deviceId s calls m₁)
      (fsAt sha256 deviceId s calls m₂)) :
    ∃ bundle, readAcross sha256 selector (fsAt sha256 deviceId s calls m₀)
        (fsAt sha256 deviceId s calls m₁) (fsAt sha256 deviceId s calls m₂) = some (.ok bundle) ∧
      (quietly (selector.reader sha256) (fsAt sha256 deviceId s calls m₀) = some (.ok bundle) ∨
        quietly (selector.reader sha256) (fsAt sha256 deviceId s calls m₁) = some (.ok bundle)) := by
  obtain ⟨later, hchronicle, hmoments⟩ :=
    exists_chronicle hfree calls hchecks hgiven hholds hsucceed
  have hkeeps := record_stays hfree calls hchecks hgiven hholds hsucceed hprecedes
  obtain ⟨v₀, h₀, -, -⟩ := hmoments m₀
  obtain ⟨v₁, h₁, hentries₁, -⟩ := hmoments m₁
  obtain ⟨v₂, h₂, hentries₂, -⟩ := hmoments m₂
  cases hpresent : (fsAt sha256 deviceId s calls m₀)[pointersPath]? with
  | none =>
    refine ⟨none, readAcross_of_absent hpresent, .inl ?_⟩
    rw [quietly_reader h₀, entry_eq_none h₀ hpresent]
    rfl
  | some node =>
    refine ⟨(selector.entry v₁).map (·.signed), ?_, .inr (quietly_reader h₁ selector)⟩
    rw [readAcross_of_present (by rw [hpresent]; rfl) hkeeps h₁,
      loadSelected_of_named hfree h₁ h₂ hchronicle hentries₁ hentries₂ hnamed,
      Outcome.result?_ok]

/-! ### Two activations beside a reader -/

open CacheSystem in
/-- A cache where version 1 is active. -/
def sampleState : CacheState := ⟨⟨sampleFs, []⟩, 1⟩

open CacheSystem in
def sampleCall (digit : Fin 10) : ActivationCall := ⟨sampleBytes digit, sampleVerifier, []⟩

open CacheSystem in
/-- One activation between the reading of the pointers and of the bundle. -/
theorem reader_returns_selected_sample :
    ∃ bundle, readAcross sampleDigest .current
        (fsAt sampleDigest sampleDevice sampleState [sampleCall 2] ⟨0, 0⟩)
        (fsAt sampleDigest sampleDevice sampleState [sampleCall 2] ⟨0, 0⟩)
        (fsAt sampleDigest sampleDevice sampleState [sampleCall 2] ⟨1, 0⟩) = some (.ok bundle) ∧
      (quietly (Selector.current.reader sampleDigest)
          (fsAt sampleDigest sampleDevice sampleState [sampleCall 2] ⟨0, 0⟩) = some (.ok bundle) ∨
        quietly (Selector.current.reader sampleDigest)
          (fsAt sampleDigest sampleDevice sampleState [sampleCall 2] ⟨0, 0⟩) =
            some (.ok bundle)) := by
  refine reader_returns_selected sampleDigest sampleDevice samplePresented collisionFree_sample
    sampleState sampleView holds_sampleFs [sampleCall 2] ?_ ?_ ?_ .current ⟨0, 0⟩ ⟨0, 0⟩ ⟨1, 0⟩
    (.inr ⟨rfl, le_refl _⟩) ?_
  · exact ⟨⟨.activated 2 ((sampleConfiguration 2).contentDigest sampleDigest), by decide +kernel⟩,
      trivial⟩
  · rintro call hcall
    rw [List.mem_singleton.mp hcall]
    exact fun _ _ => by simp [sampleCall]
  · rintro call hcall
    rw [List.mem_singleton.mp hcall]
    exact ⟨2, rfl⟩
  · have hread₁ : quietly readPointers
        (fsAt sampleDigest sampleDevice sampleState [sampleCall 2] ⟨0, 0⟩) =
        some (.ok (sampleView.pointers sampleDigest)) := by decide +kernel
    have hread₂ : quietly readPointers
        (fsAt sampleDigest sampleDevice sampleState [sampleCall 2] ⟨1, 0⟩) =
        some (.ok ((sampleView.pointers sampleDigest).advance
          ((sampleConfiguration 2).contentDigest sampleDigest) 2)) := by decide +kernel
    rintro pointers pointers' h h' digest hdigest
    rw [hread₁] at h
    rw [hread₂] at h'
    obtain rfl := Except.ok.inj (Option.some.inj h)
    obtain rfl := Except.ok.inj (Option.some.inj h')
    obtain rfl := Option.some.inj hdigest
    decide +kernel

open CacheSystem in
/-- A reader of the current bundle reads the pointers, then versions 2 and 3 are activated, and the
bundle that it goes on to read is gone. -/
theorem reader_misses_bundle :
    AllSucceed sampleDigest sampleDevice sampleState [sampleCall 2, sampleCall 3] ∧
      readAcross sampleDigest .current
        (fsAt sampleDigest sampleDevice sampleState [sampleCall 2, sampleCall 3] ⟨0, 0⟩)
        (fsAt sampleDigest sampleDevice sampleState [sampleCall 2, sampleCall 3] ⟨0, 0⟩)
        (fsAt sampleDigest sampleDevice sampleState [sampleCall 2, sampleCall 3] ⟨2, 0⟩) =
          some (.error .missingBundle) := by
  refine ⟨⟨⟨.activated 2 ((sampleConfiguration 2).contentDigest sampleDigest), ?_⟩,
    ⟨.activated 3 ((sampleConfiguration 3).contentDigest sampleDigest), ?_⟩, trivial⟩, ?_⟩
  · decide +kernel
  · decide +kernel
  · decide +kernel

end Wdlp
