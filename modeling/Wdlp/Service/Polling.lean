import Wdlp.Config.CacheRuns
import Wdlp.Service.Client

/-!
# Polling for configurations

The loop of the endpoint service. When a poll is due it fetches the bytes of a configuration and
gives them to the cache; a poll that succeeds records the time of contact, and one that fails posts
a health report. When a report is due it posts the state of the drive.

The cache refuses a version that is not newer than the current one, so that a server which answers
with the configuration that is already active makes every poll fail.

## Main definitions

* `pollConfiguration`, `pollAndActivate` — one poll.
* `HealthSnapshot.fromCache`, `postHealth` — health reports.
* `ServiceLoop`, `runServiceLoop` — the iterations of the loop.

## Main results

* `unchanged_polls_succeed_iff` — polls that return the active bundle succeed only if there are
  none.
-/

namespace Wdlp

open CrashSafe Act ConfigurationCache

/-! ### A poll -/

/-- `AgentConfigurationTransport::fetch_configuration`. -/
def fetchConfiguration : Response → Except ClientError Bytes
  | .unreachable => .error .networkUnavailable
  | .refused => .error .configurationFetchFailed
  | .interrupted => .error .invalidResponse
  | .body bytes => if maxBodyBytes < bytes.length then .error .invalidResponse else .ok bytes

/-- What the loop works with. The transport and the verifier are missing when they could not be
made. -/
structure ServiceContext where
  sha256 : Bytes → Digest
  deviceId : DeviceId
  agentVersion : Text
  usesDeviceMtls : Bool
  hasTransport : Bool
  verifier : Option ConfigurationVerifier

/-- `poll_configuration`. -/
def pollConfiguration (context : ServiceContext) (response : Response) :
    Except ClientError Bytes := do
  failIf (context.usesDeviceMtls = false) ClientError.missingDeviceCredential
  fetchConfiguration response

/-- `poll_and_activate`. -/
def pollAndActivate (context : ServiceContext) (verifier : ConfigurationVerifier)
    (response : Response) : Act CacheState ClientError Unit := do
  let bytes ← Act.ofExcept (pollConfiguration context response)
  let _ ← Act.zoom id (fun cache _ => cache) (fun _ => ClientError.configurationFetchFailed)
    (stageVerifyActivate context.sha256 context.deviceId bytes verifier)

/-! ### Health reports -/

inductive RedactedDiagnostic where
  | enrollmentDenied
  | credentialUnavailable
  | configurationRejected
  | networkUnavailable
  | cacheCorrupt
  | sessionHostLaunchFailed
  | driveMountFailed
  | driveLetterUnavailable
  | sessionDrainTimeout
  | storeRecoveryFailed
  deriving DecidableEq

structure HealthSnapshot where
  agentVersion : Text
  serviceState : Text
  configState : Text
  driveState : Text
  activeBundleVersion : Option Text
  lastSuccessfulContact : Option UInt64
  diagnostic : Option RedactedDiagnostic
  deriving DecidableEq

/-- The state of the configuration that a snapshot reports, and the active version. -/
def configurationState : Except CacheError CachePointers → Text × Option Text
  | .ok pointers =>
    (if pointers.currentVersion.isSome = true then "active".toList else "unconfigured".toList,
      pointers.currentVersion.map fun version => decimal version.toNat)
  | .error .corruptPointer => ("corrupt".toList, none)
  | .error .missingBundle => ("corrupt".toList, none)
  | .error _ => ("error".toList, none)

/-- `HealthSnapshot::from_cache`. -/
def HealthSnapshot.fromCache (agentVersion serviceState driveState : Text)
    (lastSuccessfulContact : Option UInt64) (diagnostic : Option RedactedDiagnostic) :
    Act CacheState Empty HealthSnapshot := do
  let pointers ← Act.caught readPointers
  let (configState, activeBundleVersion) := configurationState pointers
  return { agentVersion, serviceState, configState, driveState, activeBundleVersion,
           lastSuccessfulContact, diagnostic }

/-! ### The loop -/

/-- The state of the loop: the cache, the time of the last contact, and the reports posted so far. -/
structure ServiceLoop where
  cache : CacheState
  lastContact : Option UInt64 := none
  reports : List HealthSnapshot := []

/-- The steps of the loop, which handles every error. -/
abbrev ServiceOp := Act ServiceLoop Empty

/-- One iteration: whether a poll is due, what the server answers and the time; whether a report is
due and the state of the drive. -/
structure Iteration where
  pollDue : Bool
  response : Response
  now : UInt64
  healthDue : Bool
  driveState : Text

/-- An operation on the cache. -/
def onCache {α : Type} (p : Act CacheState Empty α) : ServiceOp α :=
  Act.zoom ServiceLoop.cache (fun cache s => { s with cache := cache }) id p

/-- A snapshot is posted; whether it arrives makes no difference. -/
def post (snapshot : Act CacheState Empty HealthSnapshot) : ServiceOp Unit := do
  let report ← onCache snapshot
  modify fun s => { s with reports := s.reports ++ [report] }

/-- `post_health`. -/
def postHealth (context : ServiceContext) (diagnostic : RedactedDiagnostic) : ServiceOp Unit :=
  post (HealthSnapshot.fromCache context.agentVersion "running".toList "not_mounted".toList none
    (some diagnostic))

/-- What follows a poll. -/
def pollEnds (context : ServiceContext) (now : UInt64) : Except ClientError Unit → ServiceOp Unit
  | .ok _ => modify fun s => { s with lastContact := some now }
  | .error _ => postHealth context .configurationRejected

/-- The poll of an iteration, when one is due and the transport and the verifier are there. -/
def pollRound (context : ServiceContext) (iteration : Iteration) : ServiceOp Unit :=
  match iteration.pollDue, context.hasTransport, context.verifier with
  | true, true, some verifier => do
    let result ← onCache (Act.caught (pollAndActivate context verifier iteration.response))
    pollEnds context iteration.now result
  | _, _, _ => pure ()

/-- The report of an iteration, when one is due. -/
def healthRound (context : ServiceContext) (iteration : Iteration) : ServiceOp Unit :=
  match iteration.healthDue with
  | true => do
    let s ← get
    post (HealthSnapshot.fromCache context.agentVersion "running".toList iteration.driveState
      s.lastContact none)
  | false => pure ()

/-- One pass through the body of `run_service_loop`. -/
def iterate (context : ServiceContext) (iteration : Iteration) : ServiceOp Unit := do
  pollRound context iteration
  healthRound context iteration

/-- `run_service_loop`, up to the shutdown signal. -/
def runServiceLoop (context : ServiceContext) (iterations : List Iteration) : ServiceOp Unit :=
  Act.forEach iterations (iterate context)

/-! ### Polls that return the active bundle -/

variable {context : ServiceContext} {iteration : Iteration} {s : ServiceLoop}
variable {presented : Set (Bytes × ConfigurationVerifier)} {view : View} {entry : Entry}

/-- The iteration polls, with this verifier. -/
def Iteration.Polls (iteration : Iteration) (context : ServiceContext)
    (verifier : ConfigurationVerifier) : Prop :=
  iteration.pollDue = true ∧ context.hasTransport = true ∧ context.verifier = some verifier

/-- The reports of a rejected configuration. -/
def ServiceLoop.rejections (s : ServiceLoop) : ℕ :=
  s.reports.countP fun report => decide (report.diagnostic = some .configurationRejected)

/-- The poll succeeds, the pointers stay, the contact is recorded and no rejection is reported. -/
def PollSucceeds (context : ServiceContext) (verifier : ConfigurationVerifier)
    (iteration : Iteration) (s : ServiceLoop) : Prop :=
  (pollAndActivate context verifier iteration.response s.cache).result? = some (.ok ()) ∧
    quietly readPointers (iterate context iteration s).state.cache.disk.fs =
      quietly readPointers s.cache.disk.fs ∧
    (iterate context iteration s).state.lastContact = some iteration.now ∧
    (iterate context iteration s).state.rejections = s.rejections

/-- Every poll of the iterations succeeds. -/
def PollsSucceed (context : ServiceContext) : List Iteration → ServiceLoop → Prop
  | [], _ => True
  | iteration :: iterations, s =>
    (∀ verifier, iteration.Polls context verifier → PollSucceeds context verifier iteration s) ∧
      PollsSucceed context iterations (iterate context iteration s).state

section

variable (hholds : Holds context.sha256 context.deviceId presented s.cache.disk.fs view)

include hholds

/-- The active bundle is refused, whatever the verifier. -/
theorem active_refused (hquiet : s.cache.disk.fates = []) (hactive : view.current = some entry)
    (verifier : ConfigurationVerifier) : ∃ e, stageVerifyActivate
    context.sha256 context.deviceId entry.bytes verifier s.cache = .err e s.cache := by
  cases hchecked : checkBundle context.sha256 context.deviceId entry.bytes verifier with
  | error e => exact ⟨e, stageVerifyActivate_of_rejected hchecked⟩
  | ok result =>
    obtain ⟨signed, version⟩ := result
    have hmem : entry ∈ view.entries := by simp [View.entries, hactive]
    obtain ⟨hread, -, -, hversion⟩ := checkBundle_eq_ok.mp (hholds.accepted entry hmem).checked
    obtain ⟨hread', -, -, hversion'⟩ := checkBundle_eq_ok.mp hchecked
    rw [hread] at hread'
    obtain rfl := Except.ok.inj hread'
    rw [hversion] at hversion'
    obtain rfl := Option.some.inj hversion'
    exact ⟨_, hholds.stageVerifyActivate_of_stale hquiet hchecked hactive (UInt64.le_refl _)⟩

/-- The poll fails and leaves the cache as it is. -/
theorem pollAndActivate_of_active
    (hquiet : s.cache.disk.fates = []) (hactive : view.current = some entry)
    (hresponse : iteration.response = .body entry.bytes) (verifier : ConfigurationVerifier) :
    ∃ e, pollAndActivate context verifier iteration.response s.cache = .err e s.cache := by
  unfold pollAndActivate
  cases hpoll : pollConfiguration context iteration.response with
  | error e => exact ⟨e, bind_of_err (ofExcept_error_apply ..)⟩
  | ok bytes =>
    have hbytes : bytes = entry.bytes := by
      unfold pollConfiguration at hpoll
      obtain ⟨-, -, hfetch⟩ := except_bind_eq_ok.mp hpoll
      rw [hresponse, fetchConfiguration] at hfetch
      split_ifs at hfetch
      exact (Except.ok.inj hfetch).symm
    obtain ⟨e, hrefused⟩ := active_refused hholds hquiet hactive verifier
    subst hbytes
    refine ⟨.configurationFetchFailed, (bind_of_ok (ofExcept_ok_apply ..)).trans ?_⟩
    exact bind_of_err (zoom_of_err hrefused)

end

section Active

variable (hholds : Holds context.sha256 context.deviceId presented s.cache.disk.fs view)
variable (hquiet : s.cache.disk.fates = [])
include hholds hquiet

/-- A report changes nothing but the reports. -/
theorem post_eq (agentVersion serviceState driveState : Text) (contact : Option UInt64)
    (diagnostic : Option RedactedDiagnostic) :
    ∃ report, post (HealthSnapshot.fromCache agentVersion serviceState driveState contact diagnostic)
      s = .ok () { s with reports := s.reports ++ [report] } := by
  have hread : (Act.caught readPointers : Act CacheState Empty _) s.cache =
      .ok (.ok (view.pointers context.sha256)) s.cache :=
    caught_of_ok (hholds.readPointers_of_quiet hquiet)
  obtain ⟨report, hreport⟩ : ∃ report, HealthSnapshot.fromCache agentVersion serviceState driveState
      contact diagnostic s.cache = .ok report s.cache := ⟨_, (bind_of_ok hread).trans rfl⟩
  have hsnapshot : onCache (HealthSnapshot.fromCache agentVersion serviceState driveState contact
      diagnostic) s = .ok report s := zoom_of_ok hreport
  exact ⟨report, (bind_of_ok hsnapshot).trans rfl⟩

/-- A poll that returns the active bundle changes nothing but the reports. -/
theorem pollRound_eq (hactive : view.current = some entry)
    (hresponse : iteration.pollDue = true → iteration.response = .body entry.bytes) : ∃ reports,
    pollRound context iteration s = .ok () { s with reports := s.reports ++ reports } := by
  have hskipped : ∃ reports, (pure () : ServiceOp Unit) s =
      .ok () { s with reports := s.reports ++ reports } := ⟨[], by rw [List.append_nil]; rfl⟩
  cases hdue : iteration.pollDue with
  | false =>
    simp only [pollRound, hdue]
    exact hskipped
  | true =>
    cases htransport : context.hasTransport with
    | false =>
      simp only [pollRound, hdue, htransport]
      exact hskipped
    | true =>
      cases hverifier : context.verifier with
      | none =>
        simp only [pollRound, hdue, htransport, hverifier]
        exact hskipped
      | some verifier =>
        simp only [pollRound, hdue, htransport, hverifier]
        obtain ⟨e, hpoll⟩ :=
          pollAndActivate_of_active hholds hquiet hactive (hresponse hdue) verifier
        have hcaught : onCache (Act.caught (pollAndActivate context verifier iteration.response)) s =
            .ok (.error e) s := zoom_of_ok (caught_of_err hpoll)
        obtain ⟨report, hpost⟩ := post_eq hholds hquiet context.agentVersion "running".toList
          "not_mounted".toList none (some .configurationRejected)
        exact ⟨[report], (bind_of_ok hcaught).trans hpost⟩

/-- An iteration changes nothing but the reports. -/
theorem iterate_eq (hactive : view.current = some entry)
    (hresponse : iteration.pollDue = true → iteration.response = .body entry.bytes) :
    ∃ reports, iterate context iteration s = .ok () { s with reports := s.reports ++ reports } := by
  obtain ⟨reports, hpoll⟩ := pollRound_eq hholds hquiet hactive hresponse
  unfold iterate
  rw [bind_of_ok hpoll]
  cases hdue : iteration.healthDue with
  | false =>
    simp only [healthRound, hdue]
    exact ⟨reports, rfl⟩
  | true =>
    simp only [healthRound, hdue]
    obtain ⟨report, hpost⟩ := post_eq (s := { s with reports := s.reports ++ reports }) hholds hquiet
      context.agentVersion "running".toList iteration.driveState s.lastContact none
    refine ⟨reports ++ [report], ?_⟩
    rw [← List.append_assoc]
    exact (bind_of_ok (get_apply _)).trans hpost

end Active

/-- When the server answers with the active bundle, all polls succeed exactly if none is made. -/
theorem unchanged_polls_succeed_iff (context : ServiceContext) (view : View) (entry : Entry)
    (presented : Set (Bytes × ConfigurationVerifier)) (hactive : view.current = some entry)
    (iterations : List Iteration)
    (hresponses : ∀ iteration ∈ iterations,
      iteration.pollDue = true → iteration.response = .body entry.bytes)
    (s : ServiceLoop)
    (hholds : Holds context.sha256 context.deviceId presented s.cache.disk.fs view)
    (hquiet : s.cache.disk.fates = []) :
    PollsSucceed context iterations s ↔
      ∀ iteration ∈ iterations, ∀ verifier, ¬iteration.Polls context verifier := by
  induction iterations generalizing s with
  | nil => exact ⟨fun _ => nofun, fun _ => trivial⟩
  | cons iteration iterations ih =>
    obtain ⟨reports, hiterate⟩ :=
      iterate_eq hholds hquiet hactive (hresponses iteration List.mem_cons_self)
    have hrest := ih (fun other hother => hresponses other (List.mem_cons_of_mem _ hother))
      { s with reports := s.reports ++ reports } hholds hquiet
    rw [PollsSucceed, hiterate, Outcome.state_ok, hrest, List.forall_mem_cons]
    refine and_congr_left fun _ => ⟨fun hsucceeds verifier hpolls => ?_, fun hnone verifier hpolls =>
      absurd hpolls (hnone verifier)⟩
    obtain ⟨e, hpoll⟩ := pollAndActivate_of_active hholds hquiet hactive
      (hresponses iteration List.mem_cons_self hpolls.1) verifier
    have hresult := (hsucceeds verifier hpolls).1
    rw [hpoll] at hresult
    exact absurd hresult (by simp)

/-! ### The second poll -/

def sampleLoop : ServiceLoop := { cache := ⟨⟨CacheSystem.sampleFs, []⟩, 1⟩ }

def sampleContext : ServiceContext where
  sha256 := CacheSystem.sampleDigest
  deviceId := CacheSystem.sampleDevice
  agentVersion := "0".toList
  usesDeviceMtls := true
  hasTransport := true
  verifier := some CacheSystem.sampleVerifier

/-- A poll that is answered with the active bundle. -/
def samplePoll : Iteration := ⟨true, .body CacheSystem.sampleEntry.bytes, 7, false, []⟩

theorem unchanged_polls_succeed_sample :
    PollsSucceed sampleContext [{ samplePoll with pollDue := false }] sampleLoop := by
  refine (unchanged_polls_succeed_iff sampleContext CacheSystem.sampleView CacheSystem.sampleEntry CacheSystem.samplePresented rfl
    [{ samplePoll with pollDue := false }] ?_ sampleLoop CacheSystem.holds_sampleFs rfl).mpr ?_
  · simp
  · simp [Iteration.Polls]

/-- The server answers with the active bundle: the poll fails, a rejection is reported, and no
contact is recorded. -/
theorem unchanged_poll_rejected :
    (pollAndActivate sampleContext CacheSystem.sampleVerifier samplePoll.response
        sampleLoop.cache).result? = some (.error .configurationFetchFailed) ∧
      (iterate sampleContext samplePoll sampleLoop).state.rejections = 1 ∧
      (iterate sampleContext samplePoll sampleLoop).state.lastContact = none ∧
      ¬PollsSucceed sampleContext [samplePoll] sampleLoop := by
  have hpoll : (pollAndActivate sampleContext CacheSystem.sampleVerifier samplePoll.response
      sampleLoop.cache).result? = some (.error .configurationFetchFailed) := by decide +kernel
  refine ⟨hpoll, by decide +kernel, by decide +kernel, ?_⟩
  rintro ⟨hsucceeds, -⟩
  have hresult := (hsucceeds CacheSystem.sampleVerifier ⟨rfl, rfl, rfl⟩).1
  rw [hpoll] at hresult
  exact absurd hresult (by simp)

end Wdlp
