import Wdlp.Session.Lifecycle

/-!
# The drive state in a health report

The service reports the state of its drives to the server as one string: for each actor of the
session monitor the drive letter and the diagnostic, joined by commas. The server denies a report
whose string is empty or longer than 64 bytes. Three sessions whose handshake has failed are enough
for that, and so are seven mounted drives.

## Main definitions

* `SessionMonitor.snapshot`, `driveState` — the string that the service builds.
* `recordHealthFor` — what the server makes of it.

## Main results

* `health_report_accepted_iff` — the reports that the server does not deny for their content.
-/

namespace Wdlp

open CrashSafe

/-- `SessionDiagnostic::code`. -/
def SessionDiagnostic.code : SessionDiagnostic → Text
  | identityRejected => "session_identity_rejected".toList
  | keyUnavailable => "session_key_unavailable".toList
  | pipeAuthFailed => "session_pipe_auth_failed".toList
  | hostLaunchFailed => "session_host_launch_failed".toList
  | mountFailed => "session_mount_failed".toList
  | drainTimeout => "session_drain_timeout".toList
  | recoveryFailed => "session_recovery_failed".toList

/-- The outcome of a mount, as it is reported. -/
structure MountAttempt where
  generation : ℕ
  sessionId : UInt32
  driveLetter : Option Text
  diagnostic : Option SessionDiagnostic
  deriving DecidableEq

def MountActor.attempt (actor : MountActor) : MountAttempt where
  generation := actor.session.generation
  sessionId := actor.session.sessionId
  driveLetter := actor.driveLetter.map fun c => [c]
  diagnostic := actor.diagnostic

/-- `SessionMonitor::snapshot`, with the order in which the map of actors is iterated. -/
def SessionMonitor.snapshot (order : ℕ → ℕ) (m : SessionMonitor) : List MountAttempt :=
  (m.actors.values.mergeSort fun x y =>
    decide (order x.session.generation ≤ order y.session.generation)).map MountActor.attempt

/-- The part of the drive state that is about one mount. -/
def MountAttempt.report (mount : MountAttempt) : Text :=
  let letter := mount.driveLetter.getD "-".toList
  let state := match mount.diagnostic with
    | some diagnostic => diagnostic.code
    | none => "mounted".toList
  letter ++ ":".toList ++ state

/-- `drive_state`. -/
def driveState (mounts : List MountAttempt) : Text :=
  if mounts.isEmpty then "not_mounted".toList
  else [','].intercalate (mounts.map MountAttempt.report)

/-- `RouteError`. -/
inductive RouteError where
  | denied
  | unavailable
  deriving DecidableEq

/-- `record_health_for`, with what the repository answers when the device is authorized and when
the report is recorded. -/
def recordHealthFor (authorizeDevice recordHealth : Except RouteError Unit) (driveState : Text) :
    Except RouteError Unit := do
  failIf (driveState = [] ∨ (utf8 driveState).length > 64) RouteError.denied
  authorizeDevice
  recordHealth

theorem driveState_accepted_iff (mounts : List MountAttempt) :
    ¬(driveState mounts = [] ∨ (utf8 (driveState mounts)).length > 64) ↔
      piecesSize (mounts.map MountAttempt.report) ≤ 65 := by
  cases mounts with
  | nil => decide
  | cons mount mounts =>
    have hlength := length_intercalate (show (String.utf8EncodeChar ',').length = 1 by decide)
      ((mount :: mounts).map MountAttempt.report) (List.cons_ne_nil _ _)
    have hne : [','].intercalate ((mount :: mounts).map MountAttempt.report) ≠ [] := by
      intro hnil
      -- the first part has a colon and a state in it
      have hfirst : 1 ≤ (utf8 mount.report).length := by
        simp only [MountAttempt.report, utf8_append, List.length_append]
        exact (show 1 ≤ (utf8 ":".toList).length by decide).trans (by omega)
      rw [hnil, piecesSize, List.map_cons, List.map_cons, List.sum_cons, utf8_nil] at hlength
      simp only [List.length_nil] at hlength
      omega
    change ¬([','].intercalate _ = [] ∨ (utf8 ([','].intercalate _)).length > 64) ↔ _
    rw [← hlength, not_or, not_lt]
    exact ⟨fun h => Nat.succ_le_succ h.2, fun h => ⟨hne, Nat.le_of_succ_le_succ h⟩⟩

/-- A report is denied for its content, or its content makes no difference. -/
theorem recordHealthFor_snapshot (m : SessionMonitor) (order : ℕ → ℕ)
    (authorizeDevice recordHealth : Except RouteError Unit) :
    recordHealthFor authorizeDevice recordHealth (driveState (m.snapshot order)) =
      if piecesSize (m.actors.values.map fun actor => actor.attempt.report) ≤ 65 then
        do authorizeDevice; recordHealth
      else .error .denied := by
  have hperm : piecesSize ((m.snapshot order).map MountAttempt.report) =
      piecesSize (m.actors.values.map fun actor => actor.attempt.report) := by
    unfold piecesSize SessionMonitor.snapshot
    rw [List.map_map, List.map_map]
    exact ((List.mergeSort_perm _ _).map _).sum_eq.trans (by rw [List.map_map]; rfl)
  have haccepted := driveState_accepted_iff (m.snapshot order)
  rw [hperm] at haccepted
  unfold recordHealthFor failIf
  split_ifs with hrefused hsize hsize
  · exact absurd hrefused (haccepted.mpr hsize)
  · rfl
  · rfl
  · exact absurd (haccepted.mp hrefused) hsize

/-- What a monitor reports makes no difference to the server exactly if the parts that are about its
actors, with a separator for each, take at most 65 bytes. -/
theorem health_report_accepted_iff (m : SessionMonitor) (order : ℕ → ℕ) :
    (∀ authorizeDevice recordHealth, recordHealthFor authorizeDevice recordHealth
      (driveState (m.snapshot order)) = (do authorizeDevice; recordHealth)) ↔
    piecesSize (m.actors.values.map fun actor => actor.attempt.report) ≤ 65 := by
  refine ⟨fun h => ?_, fun h _ _ => (recordHealthFor_snapshot ..).trans (if_pos h)⟩
  by_contra hlong
  have hdenied := h (.ok ()) (.ok ())
  rw [recordHealthFor_snapshot, if_neg hlong] at hdenied
  cases hdenied

/-- Three sessions whose handshake has failed. -/
def threeRefused : SessionMonitor :=
  let answers := { SessionMonitor.mountingAnswers with authenticate := none }
  (SessionMonitor.new ⟨30⟩ 1 0).after .plain [.logon 1 answers, .logon 2 answers, .logon 3 answers]

/-- Their report is denied, although the device is authorized and the report could be recorded. -/
theorem three_refused_denied :
    recordHealthFor (.ok ()) (.ok ()) (driveState (threeRefused.snapshot id)) = .error .denied :=
  (recordHealthFor_snapshot ..).trans (if_neg (by decide +kernel))

end Wdlp
