import Wdlp.Crypto

/-!
# The session monitor

The endpoint service keeps one mount actor for every Windows logon session and user, and launches
one drive host for it. The monitor holds two maps: the actors under the session and the SID, and
the runtimes of the authenticated hosts (process and pipe) under the actor's generation. Four
calls change them: a logon, a logoff, the periodic check of the hosts, and the stop of the service.

The providers the monitor is built with (tokens, store keys, pipes, the launcher) and the host's
handshake answer each call as they like: `Answers` holds what they answer. The hash map of actors is
iterated in no particular order, so the check of the hosts takes an arbitrary one.

## Main definitions

* `EligibleSession`, `MountActor`, `ActorRuntime`, `SessionMonitor` — the data of the monitor.
* `SessionMonitor.sessionLogon`, `SessionMonitor.sessionLogoff`, `SessionMonitor.checkHostHealth`,
  `SessionMonitor.stopAll` — its calls.
* `SessionCall`, `SessionMonitor.after` — a run of calls, while time passes.
* `LogonEnds` — the ways a logon can end.

## Main results

* `logonEnds_sessionLogon` — a logon ends in one of these ways.
-/

namespace Wdlp

open CrashSafe Act

/-- The diagnostic of a session or mount event that failed. -/
inductive SessionDiagnostic where
  | identityRejected
  | keyUnavailable
  | pipeAuthFailed
  | hostLaunchFailed
  | mountFailed
  | drainTimeout
  | recoveryFailed
  deriving DecidableEq, Repr

/-- Why a call of the monitor fails. -/
inductive SessionError where
  | invalidIdentity
  | tokenUnavailable
  | storeKeyFailure
  | pipeUnavailable
  | hostUnavailable
  | notImplemented
  deriving DecidableEq, Repr

/-- A logon session with its user, the user's store and the generation of its actor. -/
structure EligibleSession where
  sessionId : UInt32
  userSid : UserSid
  storeId : StoreId
  generation : ℕ
  deriving DecidableEq

/-- The first 64 characters of the printed digest of the SID. -/
def stableSidDigest (P : Primitives) (sid : UserSid) : Text :=
  (P.digest (utf8 sid.toWire)).take 64

/-- The store of a user. -/
def storeIdOf (P : Primitives) (sid : UserSid) : Except SessionError StoreId :=
  (Identifier.parse .storeId ("sid-".toList ++ stableSidDigest P sid)).mapError
    fun _ => .invalidIdentity

/-- The backoff of an actor, in seconds. -/
structure RetryTimer where
  lastAttempt : Option ℕ
  nextDelay : ℕ
  cap : ℕ
  deriving DecidableEq

namespace RetryTimer

def new (capSeconds : ℕ) : RetryTimer := ⟨none, 1, capSeconds⟩

def reset (timer : RetryTimer) : RetryTimer := { timer with lastAttempt := none, nextDelay := 1 }

end RetryTimer

/-- The lifecycle of an actor. -/
inductive MountState where
  | starting
  | mounted
  | draining
  | stopped
  | failed
  deriving DecidableEq, Repr

/-- An actor of the monitor: one for each session and SID. -/
structure MountActor where
  session : EligibleSession
  state : MountState
  retry : RetryTimer
  diagnostic : Option SessionDiagnostic
  driveLetter : Option Char
  hostPid : Option UInt32
  rejectNewOpens : Bool
  deriving DecidableEq

namespace MountActor

def new (session : EligibleSession) : MountActor where
  session := session
  state := .starting
  retry := .new 300
  diagnostic := none
  driveLetter := none
  hostPid := none
  rejectNewOpens := false

def setMounted (driveLetter : Char) (hostPid : UInt32) (actor : MountActor) : MountActor :=
  { actor with
    state := .mounted
    driveLetter := some driveLetter
    hostPid := some hostPid
    retry := actor.retry.reset
    diagnostic := none }

def setFailed (diagnostic : SessionDiagnostic) (actor : MountActor) : MountActor :=
  { actor with state := .failed, diagnostic := some diagnostic }

def beginDrain (actor : MountActor) : MountActor :=
  { actor with state := .draining, rejectNewOpens := true }

def stop (actor : MountActor) : MountActor :=
  { actor with state := .stopped, driveLetter := none, hostPid := none, rejectNewOpens := true }

end MountActor

/-- The process of an authenticated host and the pipe it is connected to. -/
structure ActorRuntime where
  pid : UInt32
  pipePath : Text
  deriving DecidableEq

/-- The part of the configuration that is about time. -/
structure SessionConfig where
  signOutGraceSeconds : ℕ
  deriving DecidableEq

/-- The key of an actor. -/
structure ActorKey where
  sessionId : UInt32
  userSid : UserSid
  deriving DecidableEq

namespace ActorKey

instance : Ord ActorKey :=
  ⟨compareLex (compareOn (·.sessionId)) (compareOn (·.userSid.toWire))⟩

instance : Std.TransOrd ActorKey :=
  inferInstanceAs (Std.TransCmp (compareLex (compareOn _) (compareOn _)))

instance : Std.LawfulEqOrd ActorKey where
  eq_of_compare {x y} h := by
    obtain ⟨hid, hsid⟩ := compareLex_eq_eq.mp h
    have hid : x.sessionId = y.sessionId := Std.LawfulEqOrd.eq_of_compare hid
    have hsid : x.userSid = y.userSid := Identifier.ext (Std.LawfulEqOrd.eq_of_compare hsid)
    cases x
    cases y
    simp_all

end ActorKey

/-- A launch of a host, and whether the monitor had an actor for its session and SID then. -/
structure Launch where
  key : ActorKey
  generation : ℕ
  occupied : Bool
  deriving DecidableEq

/-- The monitor, with the next generation of the process, the clock in seconds, and the launches
made so far. -/
structure SessionMonitor where
  config : SessionConfig
  actors : Map ActorKey MountActor
  runtimes : Map ℕ ActorRuntime
  nextGeneration : ℕ
  now : ℕ
  launches : List Launch

/-- What the providers answer during one logon: the SID of the session's token, whether the pipe
can be made, the store key, the process launched, and the drive letter of an authenticated host.
A handshake that fails or takes over 30 seconds has no letter. -/
structure Answers where
  primaryToken : Option UserSid
  pipeNonce : Text
  createPipe : Bool
  loadStoreKey : Option StoreKey
  launch : Except SessionError UInt32
  authenticate : Option Char

abbrev SessionOp := Act SessionMonitor SessionError

/-- The endpoint name of an actor's pipe. -/
def actorPipePath (session : EligibleSession) (nonce : Text) : Text :=
  "\\\\.\\pipe\\dlp-".toList ++ decimal session.sessionId.toNat ++ "-".toList ++
    decimal session.generation ++ "-".toList ++ nonce

namespace SessionMonitor

/-- A monitor without actors, in a process whose next generation is `first`. -/
def new (config : SessionConfig) (first now : ℕ) : SessionMonitor where
  config := config
  actors := ∅
  runtimes := ∅
  nextGeneration := first
  now := now
  launches := []

/-- A generation is taken from the process-wide counter. -/
def draw (m : SessionMonitor) : SessionMonitor := { m with nextGeneration := m.nextGeneration + 1 }

/-- A host is launched for a session. -/
def launching (session : EligibleSession) (m : SessionMonitor) : SessionMonitor :=
  let key : ActorKey := ⟨session.sessionId, session.userSid⟩
  { m with launches := m.launches ++ [⟨key, session.generation, decide (key ∈ m.actors)⟩] }

/-- Record an actor under its session and SID. -/
def record (actor : MountActor) (m : SessionMonitor) : SessionMonitor :=
  { m with actors := m.actors.insert ⟨actor.session.sessionId, actor.session.userSid⟩ actor }

/-- Store the runtime of a generation. -/
def store (generation : ℕ) (runtime : ActorRuntime) (m : SessionMonitor) : SessionMonitor :=
  { m with runtimes := m.runtimes.insert generation runtime }

/-- `EligibleSession::new`. -/
def eligibleSession (P : Primitives) (sessionId : UInt32) (userSid : UserSid) :
    SessionOp EligibleSession := do
  failIf (sessionId = 0) SessionError.invalidIdentity
  let storeId ← Act.ofExcept (storeIdOf P userSid)
  let generation := (← get).nextGeneration
  modify draw
  return ⟨sessionId, userSid, storeId, generation⟩

/-- The answer of the handshake recorded: the actor is mounted, or it is recorded as failed. -/
def finishLogon (session : EligibleSession) (pid : UInt32) (pipePath : Text) :
    Option Char → SessionOp MountActor
  | some driveLetter => do
    modify (store session.generation ⟨pid, pipePath⟩)
    let actor := (MountActor.new session).setMounted driveLetter pid
    modify (record actor)
    return actor
  | none => do
    modify (record ((MountActor.new session).setFailed .pipeAuthFailed))
    throw .pipeUnavailable

/-- A logon of a session and SID without an actor: the pipe, the store key, the host, and the
handshake with it. -/
def mountSession (P : Primitives) (sessionId : UInt32) (sid : UserSid) (answers : Answers) :
    SessionOp MountActor := do
  let session ← eligibleSession P sessionId sid
  let pipePath := actorPipePath session answers.pipeNonce
  failIf (answers.createPipe = false) SessionError.pipeUnavailable
  let storeKey ← Act.ofOption answers.loadStoreKey .storeKeyFailure
  failIf (storeKey.val.all (· == 0) = true) SessionError.storeKeyFailure
  modify (launching session)
  let pid ← Act.ofExcept answers.launch
  finishLogon session pid pipePath answers.authenticate

/-- `SessionMonitor::session_logon`. -/
def sessionLogon (P : Primitives) (sessionId : UInt32) (answers : Answers) :
    SessionOp MountActor := do
  let sid ← Act.ofOption answers.primaryToken .tokenUnavailable
  match (← get).actors[(⟨sessionId, sid⟩ : ActorKey)]? with
  | some actor => return actor
  | none => mountSession P sessionId sid answers

/-- `SessionMonitor::session_logoff`. -/
def sessionLogoff (sessionId : UInt32) : SessionOp Unit := do
  let found := (← get).actors.values.any fun actor => actor.session.sessionId == sessionId
  modify fun m => { m with
    actors := m.actors.map fun _ actor =>
      if actor.session.sessionId = sessionId then actor.beginDrain else actor }
  failIf (found = false) SessionError.invalidIdentity

/-- `SessionMonitor::stop_all`. -/
def stopAll (m : SessionMonitor) : SessionMonitor :=
  { m with actors := m.actors.map fun _ actor => actor.stop, runtimes := ∅ }

/-- What the check of the hosts finds: the generations whose host has exited, the order in which
the map of actors is iterated, and the answers to the relaunch of each generation. -/
structure HostStates where
  exited : ℕ → Bool
  order : ℕ → ℕ
  answers : ℕ → Answers

/-- The actor's host is to be launched again. -/
def isStale (exited : ℕ → Bool) (m : SessionMonitor) (actor : MountActor) : Bool :=
  !actor.rejectNewOpens && m.runtimes.contains actor.session.generation &&
    exited actor.session.generation

/-- The sessions to relaunch, in the order of the iteration. -/
def toRelaunch (hosts : HostStates) (m : SessionMonitor) : List EligibleSession :=
  ((m.actors.values.filter (m.isStale hosts.exited)).map (·.session)).mergeSort
    fun x y => decide (hosts.order x.generation ≤ hosts.order y.generation)

/-- The actor and the runtime of a generation are dropped. -/
def discard (generation : ℕ) (m : SessionMonitor) : SessionMonitor :=
  { m with
    actors := m.actors.filter fun _ actor => decide (actor.session.generation ≠ generation)
    runtimes := m.runtimes.erase generation }

/-- A session whose host has exited is logged on again; an error is only logged. -/
def relaunch (P : Primitives) (answers : ℕ → Answers) (session : EligibleSession) :
    SessionOp Unit := do
  modify (discard session.generation)
  let _ ← Act.attempt (sessionLogon P session.sessionId (answers session.generation))

/-- `SessionMonitor::check_host_health`. -/
def checkHostHealth (P : Primitives) (hosts : HostStates) : SessionOp Unit := do
  let stale := toRelaunch hosts (← get)
  Act.forEach stale (relaunch P hosts.answers)

end SessionMonitor

/-- A call of the service's session thread, or the passing of time between two calls. -/
inductive SessionCall where
  | logon (sessionId : UInt32) (answers : Answers)
  | logoff (sessionId : UInt32)
  | checkHostHealth (hosts : SessionMonitor.HostStates)
  | stopAll
  | wait (seconds : ℕ)

namespace SessionCall

/-- The monitor after a call, whatever it returns. -/
def apply (P : Primitives) (m : SessionMonitor) : SessionCall → SessionMonitor
  | logon sessionId answers => (SessionMonitor.sessionLogon P sessionId answers m).state
  | logoff sessionId => (SessionMonitor.sessionLogoff sessionId m).state
  | checkHostHealth hosts => (SessionMonitor.checkHostHealth P hosts m).state
  | stopAll => m.stopAll
  | wait seconds => { m with now := m.now + seconds }

end SessionCall

/-- The monitor after a run of calls. -/
def SessionMonitor.after (P : Primitives) (m : SessionMonitor) (calls : List SessionCall) :
    SessionMonitor :=
  calls.foldl (SessionCall.apply P) m

/-! ### How a logon ends -/

/-- The logon reaches the launcher: no actor is in the way and every step before it succeeds. The
session launched has the next generation. -/
structure ReachesLauncher (P : Primitives) (m : SessionMonitor) (answers : Answers)
    (session : EligibleSession) : Prop where
  token : answers.primaryToken = some session.userSid
  vacant : m.actors[(⟨session.sessionId, session.userSid⟩ : ActorKey)]? = none
  identity : session.sessionId ≠ 0
  storeId : storeIdOf P session.userSid = .ok session.storeId
  generation : session.generation = m.nextGeneration
  pipe : answers.createPipe = true
  storeKey : ∃ key, answers.loadStoreKey = some key ∧ key.val.all (· == 0) = false

/-- The ways a logon ends. -/
inductive LogonEnds (P : Primitives) (sessionId : UInt32) (answers : Answers) (m : SessionMonitor) :
    Outcome SessionMonitor SessionError MountActor → Prop
  /-- There is no token, or the identity is not eligible. -/
  | rejected (error : SessionError) : LogonEnds P sessionId answers m (.err error m)
  /-- The session has an actor for this user. -/
  | existing (sid : UserSid) (actor : MountActor) (token : answers.primaryToken = some sid)
      (found : m.actors[(⟨sessionId, sid⟩ : ActorKey)]? = some actor) :
      LogonEnds P sessionId answers m (.ok actor m)
  /-- A generation is drawn, and there is no pipe or no store key. -/
  | unprepared (error : SessionError) : LogonEnds P sessionId answers m (.err error m.draw)
  /-- The launcher fails. -/
  | unlaunched (session : EligibleSession) (error : SessionError)
      (reached : ReachesLauncher P m answers session) (id : session.sessionId = sessionId)
      (failed : answers.launch = .error error) :
      LogonEnds P sessionId answers m (.err error (m.draw.launching session))
  /-- The handshake fails. -/
  | unauthenticated (session : EligibleSession) (pid : UInt32)
      (reached : ReachesLauncher P m answers session) (id : session.sessionId = sessionId)
      (launched : answers.launch = .ok pid) (failed : answers.authenticate = none) :
      LogonEnds P sessionId answers m (.err .pipeUnavailable
        ((m.draw.launching session).record ((MountActor.new session).setFailed .pipeAuthFailed)))
  /-- The host is authenticated. -/
  | mounted (session : EligibleSession) (pid : UInt32) (driveLetter : Char)
      (reached : ReachesLauncher P m answers session) (id : session.sessionId = sessionId)
      (launched : answers.launch = .ok pid) (passed : answers.authenticate = some driveLetter) :
      LogonEnds P sessionId answers m (.ok ((MountActor.new session).setMounted driveLetter pid)
        (((m.draw.launching session).store session.generation
          ⟨pid, actorPipePath session answers.pipeNonce⟩).record
            ((MountActor.new session).setMounted driveLetter pid)))

section Logon

variable {P : Primitives} {sessionId : UInt32} {sid : UserSid} {answers : Answers}
variable {m : SessionMonitor}

/-- A session is eligible, with the next generation, or nothing changes. -/
theorem eligibleSession_eq (P : Primitives) (sessionId : UInt32) (sid : UserSid)
    (m : SessionMonitor) : SessionMonitor.eligibleSession P sessionId sid m =
    if sessionId = 0 then .err .invalidIdentity m
    else match storeIdOf P sid with
      | .error e => .err e m
      | .ok storeId => .ok ⟨sessionId, sid, storeId, m.nextGeneration⟩ m.draw := by
  unfold SessionMonitor.eligibleSession
  simp only [bind_apply, failIf_apply]
  by_cases hid : sessionId = 0
  · simp only [if_pos hid]
  · simp only [if_neg hid]
    cases storeIdOf P sid <;> rfl

/-- Once the launcher is reached, the logon does what the launcher and the handshake answer. -/
theorem mountSession_of_reachesLauncher {session : EligibleSession}
    (h : ReachesLauncher P m answers session) : SessionMonitor.mountSession
    P session.sessionId session.userSid answers m = (Act.ofExcept answers.launch >>= fun pid =>
        SessionMonitor.finishLogon session pid (actorPipePath session answers.pipeNonce)
          answers.authenticate) (m.draw.launching session) := by
  obtain ⟨key, hkey, hzero⟩ := h.storeKey
  have heligible : SessionMonitor.eligibleSession P session.sessionId session.userSid m =
      .ok session m.draw := by
    simp only [eligibleSession_eq, if_neg h.identity, h.storeId, ← h.generation]
  unfold SessionMonitor.mountSession
  rw [bind_of_ok heligible]
  simp only [bind_apply, failIf_apply, h.pipe, hkey, ofOption_some_apply, hzero,
    modify_apply, Bool.true_eq_false, Bool.false_eq_true, if_false]

/-- A logon ends in one of the ways of `LogonEnds`. -/
theorem logonEnds_sessionLogon (P : Primitives) (sessionId : UInt32) (answers : Answers)
    (m : SessionMonitor) :
    LogonEnds P sessionId answers m (SessionMonitor.sessionLogon P sessionId answers m) := by
  unfold SessionMonitor.sessionLogon
  cases htoken : answers.primaryToken with
  | none => exact .rejected .tokenUnavailable
  | some sid =>
    rw [bind_of_ok (ofOption_some_apply ..), bind_of_ok (get_apply _)]
    cases hactor : m.actors[(⟨sessionId, sid⟩ : ActorKey)]? with
    | some actor => exact .existing sid actor htoken hactor
    | none =>
      simp only
      by_cases hid : sessionId = 0
      · have heligible := eligibleSession_eq P sessionId sid m
        rw [if_pos hid] at heligible
        rw [SessionMonitor.mountSession, bind_of_err heligible]
        exact .rejected _
      cases hstore : storeIdOf P sid with
      | error e =>
        have heligible := eligibleSession_eq P sessionId sid m
        rw [if_neg hid, hstore] at heligible
        rw [SessionMonitor.mountSession, bind_of_err heligible]
        exact .rejected _
      | ok storeId =>
        let session : EligibleSession := ⟨sessionId, sid, storeId, m.nextGeneration⟩
        have heligible : SessionMonitor.eligibleSession P sessionId sid m = .ok session m.draw := by
          simp only [eligibleSession_eq, if_neg hid, hstore, session]
        -- Either a step before the launcher fails, or the launcher is reached.
        by_cases hready : answers.createPipe = true ∧
            ∃ key, answers.loadStoreKey = some key ∧ key.val.all (· == 0) = false
        · have hreached : ReachesLauncher P m answers session :=
            ⟨htoken, hactor, hid, hstore, rfl, hready.1, hready.2⟩
          rw [mountSession_of_reachesLauncher hreached]
          cases hlaunch : answers.launch with
          | error e => exact .unlaunched session e hreached rfl hlaunch
          | ok pid =>
            cases hauth : answers.authenticate with
            | none => exact .unauthenticated session pid hreached rfl hlaunch hauth
            | some driveLetter => exact .mounted session pid driveLetter hreached rfl hlaunch hauth
        · obtain ⟨e, he⟩ : ∃ e, SessionMonitor.mountSession P sessionId sid answers m =
              .err e m.draw := by
            unfold SessionMonitor.mountSession
            rw [bind_of_ok heligible]
            simp only [bind_apply, failIf_apply]
            cases hpipe : answers.createPipe with
            | false => exact ⟨_, rfl⟩
            | true =>
              cases hkey : answers.loadStoreKey with
              | none => exact ⟨_, rfl⟩
              | some key =>
                have hzero : key.val.all (· == 0) = true := by
                  by_contra hne
                  exact hready ⟨hpipe, key, hkey, Bool.eq_false_of_not_eq_true hne⟩
                simp only [ofOption_some_apply, hzero, if_true]
                exact ⟨_, rfl⟩
          rw [he]
          exact .unprepared e

end Logon

end Wdlp
