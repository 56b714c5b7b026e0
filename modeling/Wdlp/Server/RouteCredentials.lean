import Wdlp.Server.Database

/-!
# The two route repositories

`RouteRepositoryPort` has two implementations: `PgRouteRepository` over the table
`device_route_credentials`, and the mutex-backed `RouteRepository` that the tests use. Both activate
and revoke serials of devices and report the status of a serial.

They do not agree in general. The fixture replaces an active serial and moves the old one to its
list of revoked serials, where the database refuses a second active row and the error is swallowed;
the fixture never takes a serial out of that list, where the upsert of the database makes a revoked
row active again; the fixture revokes serials it has never seen, where the database has no row to
update; and the database knows a serial for one device only.

A call is `RouteCall.Disciplined` when none of this can happen: a serial is activated once, for a
device without an active serial, and revoked for the device it was activated for.

## Main definitions

* `PgRouteRepository`, `RouteRepository` — the two implementations.
* `RouteCall`, `RouteCall.Disciplined`, `DisciplinedRun` — calls and the discipline.
* `Matches` — the rows of the database are the entries of the fixture.

## Main results

* `Matches.perform` — a disciplined call keeps the two in step.
* `Matches.agree_perform_iff` — any other call makes a status differ at once.
* `route_repositories_agree_iff` — over whole runs, the two agree exactly on disciplined calls.
-/

namespace Wdlp

open CrashSafe
open Database (credentialOf credentialOf_putCredential putCredential)

/-- `CredentialStatus`. -/
inductive CredentialStatus where
  | active
  | revoked
  | expired
deriving DecidableEq

/-- The calls of `RouteRepositoryPort` that change credentials. -/
inductive RouteCall where
  | activateDevice (deviceId : Text) (serial : Bytes)
  | revokeDevice (deviceId : Text) (serial : Bytes)
deriving DecidableEq

/-- The device that a call names. -/
def RouteCall.deviceId : RouteCall → Text
  | .activateDevice deviceId _ => deviceId
  | .revokeDevice deviceId _ => deviceId

/-! ### The database -/

namespace PgRouteRepository

/-- `INSERT INTO device_route_credentials … ON CONFLICT (credential_serial) DO UPDATE SET
credential_status = 'active'`: a row with the serial keeps its device. -/
def upsertActive (db : Database) (deviceId : Text) (serial : Bytes) (digest : Digest) :
    Except SqlError Database :=
  if ¬ IsSerial serial then .error .checkViolation
  else match db.deviceRouteCredentials[serial]? with
    | some row =>
      if db.ActiveBeside row.deviceId serial then .error .uniqueViolation
      else .ok (db.putCredential serial { row with credentialStatus := .active })
    | none =>
      if db.ActiveBeside deviceId serial then .error .uniqueViolation
      else if deviceId ∉ db.enrollmentAuthority then .error .foreignKeyViolation
      else .ok (db.putCredential serial ⟨deviceId, .active, digest⟩)

/-- The statement writes at most the row of the serial. -/
theorem upsertActive_eq_ok {db next : Database} {deviceId : Text} {serial : Bytes} {digest : Digest}
    (h : upsertActive db deviceId serial digest = .ok next) :
    ∃ row, next = db.putCredential serial row := by
  unfold upsertActive at h
  grind

/-- `[0_u8; 32]`. -/
def zeroDigest : Digest := ⟨List.replicate 32 0, List.length_replicate⟩

/-- `activate_device`; a failed statement is ignored. -/
def activateDevice (db : Database) (deviceId : Text) (serial : Bytes) : Database :=
  (upsertActive db deviceId serial zeroDigest).toOption.getD db

/-- `revoke_device`: an `UPDATE` of the row with this device and serial, if there is one. -/
def revokeDevice (db : Database) (deviceId : Text) (serial : Bytes) : Database :=
  match db.deviceRouteCredentials[serial]? with
  | some row =>
    if row.deviceId = deviceId then
      db.putCredential serial { row with credentialStatus := .revoked }
    else db
  | none => db

/-- `credential_status`. -/
def credentialStatus (db : Database) (deviceId : Text) (serial : Bytes) : CredentialStatus :=
  match (db.deviceRouteCredentials[serial]?).filter (·.deviceId = deviceId) with
  | some ⟨_, .active, _⟩ => .active
  | some ⟨_, .revoked, _⟩ => .revoked
  | none => .expired

/-- One call on the database. -/
def perform (db : Database) : RouteCall → Database
  | .activateDevice deviceId serial => activateDevice db deviceId serial
  | .revokeDevice deviceId serial => revokeDevice db deviceId serial

end PgRouteRepository

/-! ### The fixture -/

/-- `DeviceRouteRecord`, without the reports and configurations that its other calls use. -/
structure DeviceRouteRecord where
  activeSerial : Option Bytes := none
  revokedSerials : List Bytes := []

/-- `RouteRepository`. -/
structure RouteRepository where
  devices : Map Text DeviceRouteRecord := ∅

namespace RouteRepository

/-- `entry(device_id).or_default()`. -/
def record (repository : RouteRepository) (deviceId : Text) : DeviceRouteRecord :=
  repository.devices[deviceId]?.getD {}

/-- `activate_device`: the serial that was active, whichever it is, is pushed to the list. -/
def activateDevice (repository : RouteRepository) (deviceId : Text) (serial : Bytes) :
    RouteRepository :=
  let known := repository.record deviceId
  { devices := repository.devices.insert deviceId
      { activeSerial := some serial
        revokedSerials := known.revokedSerials ++ known.activeSerial.toList } }

/-- `revoke_device`. -/
def revokeDevice (repository : RouteRepository) (deviceId : Text) (serial : Bytes) :
    RouteRepository :=
  match repository.devices[deviceId]? with
  | none => repository
  | some known =>
    { devices := repository.devices.insert deviceId
        { activeSerial := if known.activeSerial = some serial then none else known.activeSerial
          revokedSerials :=
            if serial ∈ known.revokedSerials then known.revokedSerials
            else known.revokedSerials ++ [serial] } }

/-- `credential_status`. -/
def credentialStatus (repository : RouteRepository) (deviceId : Text) (serial : Bytes) :
    CredentialStatus :=
  match repository.devices[deviceId]? with
  | none => .expired
  | some known =>
    if serial ∈ known.revokedSerials then .revoked
    else if known.activeSerial = some serial then .active
    else .expired

/-- One call on the fixture. -/
def perform (repository : RouteRepository) : RouteCall → RouteRepository
  | .activateDevice deviceId serial => repository.activateDevice deviceId serial
  | .revokeDevice deviceId serial => repository.revokeDevice deviceId serial

theorem credentialStatus_eq (repository : RouteRepository) (deviceId : Text) (serial : Bytes) :
    repository.credentialStatus deviceId serial =
      if serial ∈ (repository.record deviceId).revokedSerials then .revoked
      else if (repository.record deviceId).activeSerial = some serial then .active
      else .expired := by
  unfold credentialStatus record
  cases repository.devices[deviceId]? <;> simp

theorem record_activateDevice (repository : RouteRepository) (deviceId other : Text)
    (serial : Bytes) : (repository.activateDevice deviceId serial).record other =
      if deviceId = other then ⟨some serial, (repository.record deviceId).revokedSerials ++
        (repository.record deviceId).activeSerial.toList⟩ else repository.record other := by
  simp only [record, activateDevice, Map.get_insert]
  split <;> rfl

theorem record_revokeDevice {repository : RouteRepository} {deviceId : Text}
    (hmem : deviceId ∈ repository.devices) (other : Text) (serial : Bytes) :
    (repository.revokeDevice deviceId serial).record other =
      if deviceId = other then
        ⟨if (repository.record deviceId).activeSerial = some serial then none
          else (repository.record deviceId).activeSerial,
          if serial ∈ (repository.record deviceId).revokedSerials then
            (repository.record deviceId).revokedSerials
          else (repository.record deviceId).revokedSerials ++ [serial]⟩
      else repository.record other := by
  obtain ⟨known, hknown⟩ := Map.mem_iff_get.mp hmem
  have hrecord : repository.record deviceId = known := by rw [record, hknown]; rfl
  rw [hrecord]
  simp only [revokeDevice, hknown, record, Map.get_insert]
  split <;> rfl

end RouteRepository

/-! ### The discipline -/

/-- The serial has been activated or revoked for the device. -/
def RouteRepository.Knows (repository : RouteRepository) (deviceId : Text) (serial : Bytes) :
    Prop :=
  (repository.record deviceId).activeSerial = some serial ∨
    serial ∈ (repository.record deviceId).revokedSerials

instance (repository : RouteRepository) (deviceId : Text) (serial : Bytes) :
    Decidable (repository.Knows deviceId serial) :=
  inferInstanceAs (Decidable (_ ∨ _))

/-- An activation names a serial of the length that a certificate serial has, unknown so far for
every device, and a device that has no active serial. A revocation names a serial of its device, or
a device that has never had one. -/
def RouteCall.Disciplined (repository : RouteRepository) : RouteCall → Prop
  | .activateDevice deviceId serial =>
    IsSerial serial ∧ (∀ other, ¬ repository.Knows other serial) ∧
      (repository.record deviceId).activeSerial = none
  | .revokeDevice deviceId serial =>
    deviceId ∉ repository.devices ∨ repository.Knows deviceId serial

/-- Every call of the list is disciplined when it is made. -/
def DisciplinedRun (repository : RouteRepository) : List RouteCall → Prop
  | [] => True
  | call :: calls => call.Disciplined repository ∧ DisciplinedRun (repository.perform call) calls

/-! ### Keeping the two in step -/

/-- The two repositories give the same answer for every device and serial. -/
def Agree (db : Database) (repository : RouteRepository) : Prop :=
  ∀ deviceId serial, PgRouteRepository.credentialStatus db deviceId serial =
    repository.credentialStatus deviceId serial

/-- The rows of the table are the entries of the fixture. -/
structure Matches (db : Database) (repository : RouteRepository) : Prop where
  active_iff : ∀ deviceId serial, db.credentialOf serial = some (deviceId, .active) ↔
    (repository.record deviceId).activeSerial = some serial
  revoked_iff : ∀ deviceId serial, db.credentialOf serial = some (deviceId, .revoked) ↔
    serial ∈ (repository.record deviceId).revokedSerials
  isSerial : ∀ serial row, db.deviceRouteCredentials[serial]? = some row → IsSerial serial

namespace PgRouteRepository

theorem credentialStatus_eq (db : Database) (deviceId : Text) (serial : Bytes) :
    credentialStatus db deviceId serial =
      if db.credentialOf serial = some (deviceId, .revoked) then .revoked
      else if db.credentialOf serial = some (deviceId, .active) then .active
      else .expired := by
  unfold credentialStatus credentialOf
  cases db.deviceRouteCredentials[serial]? with
  | none => rfl
  | some row =>
    obtain ⟨device, status, digest⟩ := row
    by_cases hdevice : device = deviceId <;> cases status <;> simp [Option.filter, hdevice]

end PgRouteRepository

namespace Matches

variable {db : Database} {repository : RouteRepository}

section

variable (h : Matches db repository)

include h

theorem agree : Agree db repository := by
  intro deviceId serial
  simp only [PgRouteRepository.credentialStatus_eq, RouteRepository.credentialStatus_eq,
    h.active_iff, h.revoked_iff]

theorem knows_iff {deviceId : Text} {serial : Bytes} :
    repository.Knows deviceId serial ↔ ∃ status, db.credentialOf serial = some (deviceId, status) :=
  ⟨fun hknows => hknows.elim (fun ha => ⟨_, (h.active_iff _ _).mpr ha⟩)
      fun hr => ⟨_, (h.revoked_iff _ _).mpr hr⟩,
    fun ⟨status, hstatus⟩ => match status, hstatus with
      | .active, ha => .inl ((h.active_iff _ _).mp ha)
      | .revoked, hr => .inr ((h.revoked_iff _ _).mp hr)⟩

theorem activeBeside_iff {deviceId : Text} {serial : Bytes} : db.ActiveBeside deviceId serial ↔
      ∃ other, other ≠ serial ∧ (repository.record deviceId).activeSerial = some other := by
  rw [Database.activeBeside_iff]
  constructor
  · rintro ⟨other, row, hrow, hne, rfl, hactive⟩
    exact ⟨other, hne, (h.active_iff _ _).mp (by simp [credentialOf, hrow, hactive])⟩
  · rintro ⟨other, hne, hactive⟩
    obtain ⟨row, hrow, heq⟩ := Option.map_eq_some_iff.mp ((h.active_iff _ _).mpr hactive)
    exact ⟨other, row, hrow, hne, congrArg Prod.fst heq, congrArg Prod.snd heq⟩

theorem credentialOf_eq_none {serial : Bytes}
    (hunknown : ∀ deviceId, ¬ repository.Knows deviceId serial) :
    db.credentialOf serial = none := by
  cases hrow : db.credentialOf serial with
  | none => rfl
  | some entry => exact absurd (h.knows_iff.mpr ⟨entry.2, hrow⟩) (hunknown entry.1)

/-! ### Activations -/

theorem activateDevice {deviceId : Text} {serial : Bytes}
    (hprovisioned : deviceId ∈ db.enrollmentAuthority)
    (hcall : (RouteCall.activateDevice deviceId serial).Disciplined repository) :
    Matches (PgRouteRepository.activateDevice db deviceId serial)
      (repository.activateDevice deviceId serial) := by
  obtain ⟨hserial, hunknown, hfree⟩ := hcall
  have hrow : db.deviceRouteCredentials[serial]? = none :=
    Option.map_eq_none_iff.mp (h.credentialOf_eq_none hunknown)
  have hbeside : ¬ db.ActiveBeside deviceId serial := by
    rw [h.activeBeside_iff, hfree]
    simp
  have hput : PgRouteRepository.activateDevice db deviceId serial =
      db.putCredential serial ⟨deviceId, .active, PgRouteRepository.zeroDigest⟩ := by
    simp [PgRouteRepository.activateDevice, PgRouteRepository.upsertActive, hserial, hrow, hbeside,
      hprovisioned, Except.toOption]
  rw [hput]
  refine ⟨fun device other => ?_, fun device other => ?_, fun other row hother => ?_⟩
  · rw [credentialOf_putCredential, RouteRepository.record_activateDevice]
    obtain rfl | hs := eq_or_ne serial other <;> obtain rfl | hd := eq_or_ne deviceId device
    · simp
    · simpa [hd] using fun hactive => hunknown device (.inl hactive)
    · simp [hs, h.active_iff, hfree]
    · simp [hs, hd, h.active_iff]
  · rw [credentialOf_putCredential, RouteRepository.record_activateDevice]
    obtain rfl | hs := eq_or_ne serial other <;> obtain rfl | hd := eq_or_ne deviceId device
    · simpa [hfree] using fun hmem => hunknown deviceId (.inr hmem)
    · simpa [hd] using fun hmem => hunknown device (.inr hmem)
    · simp [hs, h.revoked_iff, hfree]
    · simp [hs, hd, h.revoked_iff]
  · obtain rfl | hs := eq_or_ne serial other
    · exact hserial
    · rw [putCredential, Map.get_insert, if_neg hs] at hother
      exact h.isSerial other row hother

/-- Outside the discipline, the insertion of a new serial violates a constraint. -/
theorem upsertActive_error_of_none {deviceId : Text} {serial : Bytes} {digest : Digest}
    (hcall : ¬ (RouteCall.activateDevice deviceId serial).Disciplined repository)
    (hrow : db.deviceRouteCredentials[serial]? = none) :
    ∃ error, PgRouteRepository.upsertActive db deviceId serial digest = .error error := by
  have hnone : db.credentialOf serial = none := by rw [credentialOf, hrow]; rfl
  have hunknown : ∀ other, ¬ repository.Knows other serial := by
    intro other hknows
    obtain ⟨status, hstatus⟩ := h.knows_iff.mp hknows
    simp [hnone] at hstatus
  by_cases hserial : IsSerial serial
  · obtain ⟨other, hactive⟩ : ∃ other, (repository.record deviceId).activeSerial = some other :=
      Option.ne_none_iff_exists'.mp fun hfree => hcall ⟨hserial, hunknown, hfree⟩
    have hne : other ≠ serial := fun heq => hunknown deviceId (.inl (heq ▸ hactive))
    have hbeside := h.activeBeside_iff.mpr ⟨other, hne, hactive⟩
    exact ⟨.uniqueViolation, by simp [PgRouteRepository.upsertActive, hserial, hrow, hbeside]⟩
  · exact ⟨.checkViolation, by simp [PgRouteRepository.upsertActive, hserial]⟩

/-- An activation outside the discipline makes the answer for some serial of the device differ. -/
theorem not_agree_activateDevice {deviceId : Text} {serial : Bytes}
    (hcall : ¬ (RouteCall.activateDevice deviceId serial).Disciplined repository) :
    ¬ Agree (PgRouteRepository.activateDevice db deviceId serial)
      (repository.activateDevice deviceId serial) := by
  intro hagree
  have hstatus : ∀ other, PgRouteRepository.credentialStatus
      (PgRouteRepository.activateDevice db deviceId serial) deviceId other =
      if other ∈ (repository.record deviceId).revokedSerials ++
          (repository.record deviceId).activeSerial.toList then .revoked
      else if serial = other then .active else .expired := by
    intro other
    rw [hagree deviceId other, RouteRepository.credentialStatus_eq,
      RouteRepository.record_activateDevice, if_pos rfl]
    simp only [Option.some.injEq]
  simp only [PgRouteRepository.credentialStatus_eq] at hstatus
  have hkept : ∀ {error}, PgRouteRepository.upsertActive db deviceId serial
      PgRouteRepository.zeroDigest = .error error →
      PgRouteRepository.activateDevice db deviceId serial = db := by
    intro error herror
    rw [PgRouteRepository.activateDevice, herror]
    rfl
  cases hrow : db.deviceRouteCredentials[serial]? with
  | none =>
    -- The statement fails, and the table has no row for a serial that the fixture now knows.
    have hnone : db.credentialOf serial = none := by rw [credentialOf, hrow]; rfl
    obtain ⟨error, herror⟩ := h.upsertActive_error_of_none hcall hrow
    have := hstatus serial
    rw [hkept herror, hnone] at this
    grind
  | some row =>
    have hupsert : PgRouteRepository.upsertActive db deviceId serial PgRouteRepository.zeroDigest =
        if db.ActiveBeside row.deviceId serial then .error .uniqueViolation
        else .ok (db.putCredential serial { row with credentialStatus := .active }) := by
      simp [PgRouteRepository.upsertActive, h.isSerial serial row hrow, hrow]
    have hof : db.credentialOf serial = some (row.deviceId, row.credentialStatus) := by
      rw [credentialOf, hrow]
      rfl
    by_cases hbeside : db.ActiveBeside row.deviceId serial
    · rw [if_pos hbeside] at hupsert
      rw [hkept hupsert] at hstatus
      -- The row is the device's own, and its active serial, which the fixture drops, is kept.
      have hdevice : row.deviceId = deviceId := by
        have := hstatus serial
        rw [hof] at this
        grind
      rw [hdevice, h.activeBeside_iff] at hbeside
      obtain ⟨other, -, hactive⟩ := hbeside
      have := hstatus other
      rw [(h.active_iff _ _).mpr hactive, hactive] at this
      simp at this
    · rw [if_neg hbeside] at hupsert
      have hput : PgRouteRepository.activateDevice db deviceId serial =
          db.putCredential serial { row with credentialStatus := .active } := by
        rw [PgRouteRepository.activateDevice, hupsert]
        rfl
      have hserial := hstatus serial
      rw [hput, credentialOf_putCredential, if_pos rfl] at hserial
      -- The row is active, and the fixture lists the serial as revoked.
      have hdevice : row.deviceId = deviceId := by grind
      have hlisted : serial ∈ (repository.record deviceId).revokedSerials ++
          (repository.record deviceId).activeSerial.toList := by
        rw [hdevice] at hof
        rcases h.knows_iff.mpr ⟨_, hof⟩ with hactive | hrevoked
        · simp [hactive]
        · exact List.mem_append_left _ hrevoked
      simp [hdevice, hlisted] at hserial

/-! ### Revocations -/

/-- The statement of `revoke_device` finds the row of a serial that the device has had. -/
theorem credentialOf_revokeDevice (deviceId : Text) (serial other : Bytes) :
    (PgRouteRepository.revokeDevice db deviceId serial).credentialOf other =
      if serial = other ∧ repository.Knows deviceId serial then some (deviceId, .revoked)
      else db.credentialOf other := by
  have hknows := @knows_iff db repository h deviceId serial
  unfold PgRouteRepository.revokeDevice
  cases hrow : db.deviceRouteCredentials[serial]? with
  | none => simp [hknows, credentialOf, hrow]
  | some row =>
    have hiff : repository.Knows deviceId serial ↔ row.deviceId = deviceId := by
      simp [hknows, credentialOf, hrow]
    by_cases hdevice : row.deviceId = deviceId
    · simp [hiff, hdevice, credentialOf_putCredential]
    · simp [hiff, hdevice]

theorem isSerial_revokeDevice {deviceId : Text} {serial other : Bytes}
    {row : CredentialRow} (hrow : (PgRouteRepository.revokeDevice db deviceId
      serial).deviceRouteCredentials[other]? = some row) : IsSerial other := by
  unfold PgRouteRepository.revokeDevice at hrow
  split at hrow
  · rename_i found hfound
    split at hrow
    · rw [putCredential, Map.get_insert] at hrow
      split at hrow
      · rename_i heq
        exact heq ▸ h.isSerial serial found hfound
      · exact h.isSerial other row hrow
    · exact h.isSerial other row hrow
  · exact h.isSerial other row hrow

theorem revokeDevice {deviceId : Text} {serial : Bytes}
    (hcall : (RouteCall.revokeDevice deviceId serial).Disciplined repository) :
    Matches (PgRouteRepository.revokeDevice db deviceId serial)
      (repository.revokeDevice deviceId serial) := by
  by_cases hmem : deviceId ∈ repository.devices
  · have hknows : repository.Knows deviceId serial := hcall.resolve_left (not_not.mpr hmem)
    have hof := @credentialOf_revokeDevice db repository h deviceId serial
    -- The table knows the serial for one device only.
    have hone : ∀ {device}, repository.Knows device serial → deviceId = device := by
      intro device hdevice
      obtain ⟨status, hstatus⟩ := h.knows_iff.mp hknows
      obtain ⟨status', hstatus'⟩ := h.knows_iff.mp hdevice
      exact congrArg Prod.fst (Option.some.inj (hstatus.symm.trans hstatus'))
    refine ⟨fun device other => ?_, fun device other => ?_,
      fun other row hrow => h.isSerial_revokeDevice hrow⟩
    · rw [hof, RouteRepository.record_revokeDevice hmem]
      obtain rfl | hs := eq_or_ne serial other <;> obtain rfl | hd := eq_or_ne deviceId device
      · simp [hknows]
      · simpa [hknows, hd] using fun hactive => hd (hone (.inl hactive))
      · simp only [hs, false_and, if_false, if_true, h.active_iff]
        grind
      · simp [hs, hd, h.active_iff]
    · rw [hof, RouteRepository.record_revokeDevice hmem]
      obtain rfl | hs := eq_or_ne serial other <;> obtain rfl | hd := eq_or_ne deviceId device
      · simp only [hknows, and_self, if_true, true_iff]
        grind
      · simpa [hknows, hd] using fun hrevoked => hd (hone (.inr hrevoked))
      · simp only [hs, false_and, if_false, if_true, h.revoked_iff]
        grind
      · simp [hs, hd, h.revoked_iff]
  · have hnone : repository.devices[deviceId]? = none := Map.not_mem_iff_get.mp hmem
    have hunknown : ¬ repository.Knows deviceId serial := by
      simp [RouteRepository.Knows, RouteRepository.record, hnone]
    have hkept : repository.revokeDevice deviceId serial = repository := by
      simp [RouteRepository.revokeDevice, hnone]
    rw [hkept]
    have hof := @credentialOf_revokeDevice db repository h deviceId serial
    simp only [hunknown, and_false, if_false] at hof
    refine ⟨fun device other => ?_, fun device other => ?_,
      fun other row hrow => h.isSerial_revokeDevice hrow⟩
    · rw [hof, h.active_iff]
    · rw [hof, h.revoked_iff]

/-- A revocation outside the discipline is recorded by the fixture only. -/
theorem not_agree_revokeDevice {deviceId : Text} {serial : Bytes}
    (hcall : ¬ (RouteCall.revokeDevice deviceId serial).Disciplined repository) :
    ¬ Agree (PgRouteRepository.revokeDevice db deviceId serial)
      (repository.revokeDevice deviceId serial) := by
  intro hagree
  obtain ⟨hmem, hunknown⟩ := not_or.mp hcall
  have hexpired : PgRouteRepository.credentialStatus
      (PgRouteRepository.revokeDevice db deviceId serial) deviceId serial = .expired := by
    have hnot : ∀ status, db.credentialOf serial ≠ some (deviceId, status) :=
      fun status hstatus => hunknown (h.knows_iff.mpr ⟨status, hstatus⟩)
    rw [PgRouteRepository.credentialStatus_eq, h.credentialOf_revokeDevice]
    simp [hunknown, hnot]
  have hlisted := hagree deviceId serial
  rw [hexpired, RouteRepository.credentialStatus_eq,
    RouteRepository.record_revokeDevice (not_not.mp hmem), if_pos rfl] at hlisted
  grind

end

/-! ### One call -/

variable {call : RouteCall}

/-- A disciplined call keeps the rows of the table and the entries of the fixture the same. -/
theorem perform (h : Matches db repository) (hprovisioned : call.deviceId ∈ db.enrollmentAuthority)
    (hcall : call.Disciplined repository) :
    Matches (PgRouteRepository.perform db call) (repository.perform call) := by
  cases call with
  | activateDevice deviceId serial => exact h.activateDevice hprovisioned hcall
  | revokeDevice deviceId serial => exact h.revokeDevice hcall

/-- After one call, the two repositories agree exactly when the call is disciplined. -/
theorem agree_perform_iff (h : Matches db repository)
    (hprovisioned : call.deviceId ∈ db.enrollmentAuthority) :
    Agree (PgRouteRepository.perform db call) (repository.perform call) ↔
      call.Disciplined repository := by
  refine ⟨fun hagree => ?_, fun hcall => (h.perform hprovisioned hcall).agree⟩
  by_contra hcall
  cases call with
  | activateDevice deviceId serial => exact h.not_agree_activateDevice hcall hagree
  | revokeDevice deviceId serial => exact h.not_agree_revokeDevice hcall hagree

end Matches

/-! ### Whole runs -/

/-- The database after a list of calls. -/
def PgRouteRepository.run (db : Database) (calls : List RouteCall) : Database :=
  calls.foldl PgRouteRepository.perform db

/-- The fixture after a list of calls. -/
def RouteRepository.run (repository : RouteRepository) (calls : List RouteCall) :
    RouteRepository :=
  calls.foldl RouteRepository.perform repository

theorem PgRouteRepository.enrollmentAuthority_perform (db : Database) (call : RouteCall) :
    (PgRouteRepository.perform db call).enrollmentAuthority = db.enrollmentAuthority := by
  cases call with
  | activateDevice deviceId serial =>
    simp only [PgRouteRepository.perform, PgRouteRepository.activateDevice]
    cases hput : PgRouteRepository.upsertActive db deviceId serial PgRouteRepository.zeroDigest with
    | error error => rfl
    | ok next =>
      obtain ⟨row, rfl⟩ := PgRouteRepository.upsertActive_eq_ok hput
      rfl
  | revokeDevice deviceId serial =>
    simp only [PgRouteRepository.perform, PgRouteRepository.revokeDevice]
    cases db.deviceRouteCredentials[serial]? with
    | none => rfl
    | some row =>
      dsimp only
      split_ifs <;> rfl

/-- The fixture never takes a serial out of a list of revoked serials. -/
theorem RouteRepository.revoked_perform {repository : RouteRepository} {deviceId : Text}
    {serial : Bytes} (hrevoked : serial ∈ (repository.record deviceId).revokedSerials)
    (call : RouteCall) : serial ∈ ((repository.perform call).record deviceId).revokedSerials := by
  cases call with
  | activateDevice device other =>
    rw [RouteRepository.perform, RouteRepository.record_activateDevice]
    split
    · rename_i heq
      exact List.mem_append_left _ (heq ▸ hrevoked)
    · exact hrevoked
  | revokeDevice device other =>
    by_cases hmem : device ∈ repository.devices
    · rw [RouteRepository.perform, RouteRepository.record_revokeDevice hmem]
      grind
    · rw [RouteRepository.perform, RouteRepository.revokeDevice, Map.not_mem_iff_get.mp hmem]
      exact hrevoked

theorem RouteRepository.revoked_run {deviceId : Text} {serial : Bytes} : (calls : List RouteCall) →
    {repository : RouteRepository} → serial ∈ (repository.record deviceId).revokedSerials →
    serial ∈ ((repository.run calls).record deviceId).revokedSerials
  | [], _, hrevoked => hrevoked
  | call :: calls, _, hrevoked =>
    RouteRepository.revoked_run calls (RouteRepository.revoked_perform hrevoked call)

/-- From matching states, the repositories agree after each of the calls exactly when every call is
disciplined. -/
theorem Matches.agree_run_iff : (calls : List RouteCall) → {db : Database} →
    {repository : RouteRepository} → Matches db repository →
    (∀ call ∈ calls, call.deviceId ∈ db.enrollmentAuthority) →
    ((∀ made, made <+: calls → Agree (PgRouteRepository.run db made) (repository.run made)) ↔
      DisciplinedRun repository calls)
  | [], _, _, h, _ => by
    refine ⟨fun _ => trivial, fun _ made hmade => ?_⟩
    rw [List.prefix_nil.mp hmade]
    exact h.agree
  | call :: calls, db, repository, h, hprovisioned => by
    have hcall := h.agree_perform_iff (hprovisioned call List.mem_cons_self)
    have hrest : ∀ next ∈ calls,
        next.deviceId ∈ (PgRouteRepository.perform db call).enrollmentAuthority := by
      intro next hnext
      rw [PgRouteRepository.enrollmentAuthority_perform]
      exact hprovisioned next (List.mem_cons_of_mem _ hnext)
    constructor
    · intro hagree
      have hfirst := hcall.mp (hagree [call] (by simp))
      have hnext := h.perform (hprovisioned call List.mem_cons_self) hfirst
      refine ⟨hfirst, (Matches.agree_run_iff calls hnext hrest).mp fun made hmade => ?_⟩
      exact hagree (call :: made) ((List.prefix_cons_inj call).mpr hmade)
    · rintro ⟨hfirst, hlater⟩ made hmade
      have hnext := h.perform (hprovisioned call List.mem_cons_self) hfirst
      rcases List.prefix_cons_iff.mp hmade with rfl | ⟨rest, rfl, hrestMade⟩
      · exact h.agree
      · exact (Matches.agree_run_iff calls hnext hrest).mpr hlater rest hrestMade

theorem matches_empty {db : Database} (hempty : db.deviceRouteCredentials = ∅) : Matches db {} := by
  refine ⟨fun deviceId serial => ?_, fun deviceId serial => ?_, fun serial row hrow => ?_⟩
  · simp [credentialOf, RouteRepository.record, hempty]
  · simp [credentialOf, RouteRepository.record, hempty]
  · simp [hempty] at hrow

/-- In both repositories, a serial reported revoked after the calls `made` is not reported active
after the calls `later` that follow. -/
def StaysRevoked (db : Database) (made later : List RouteCall) : Prop :=
  ∀ deviceId serial,
    (PgRouteRepository.credentialStatus (PgRouteRepository.run db made) deviceId serial =
        .revoked →
      PgRouteRepository.credentialStatus (PgRouteRepository.run db (made ++ later)) deviceId
        serial ≠ .active) ∧
    ((RouteRepository.run {} made).credentialStatus deviceId serial = .revoked →
      (RouteRepository.run {} (made ++ later)).credentialStatus deviceId serial ≠ .active)

theorem RouteRepository.status_run_ne_active {repository : RouteRepository} {deviceId : Text}
    {serial : Bytes} (hrevoked : repository.credentialStatus deviceId serial = .revoked)
    (calls : List RouteCall) :
    (repository.run calls).credentialStatus deviceId serial ≠ .active := by
  have hmem : serial ∈ (repository.record deviceId).revokedSerials := by
    rw [RouteRepository.credentialStatus_eq] at hrevoked
    grind
  rw [RouteRepository.credentialStatus_eq, if_pos (RouteRepository.revoked_run calls hmem)]
  simp

/-- Started without credentials, the two route repositories report the same status for every device
and serial after each of the calls, and none of them reports a revoked serial active again, exactly
when the calls are disciplined. -/
theorem route_repositories_agree_iff {db : Database} (hempty : db.deviceRouteCredentials = ∅)
    {calls : List RouteCall}
    (hprovisioned : ∀ call ∈ calls, call.deviceId ∈ db.enrollmentAuthority) :
    ((∀ made, made <+: calls →
        Agree (PgRouteRepository.run db made) (RouteRepository.run {} made)) ∧
      ∀ made later, made ++ later <+: calls → StaysRevoked db made later) ↔
      DisciplinedRun {} calls := by
  have hagree := (matches_empty hempty).agree_run_iff calls hprovisioned
  refine ⟨fun h => hagree.mp h.1, fun hrun => ⟨hagree.mpr hrun, ?_⟩⟩
  intro made later hmade deviceId serial
  have hfixture : (RouteRepository.run {} made).credentialStatus deviceId serial = .revoked →
      (RouteRepository.run {} (made ++ later)).credentialStatus deviceId serial ≠ .active := by
    intro hrevoked
    rw [RouteRepository.run, List.foldl_append]
    exact RouteRepository.status_run_ne_active hrevoked later
  have hboth := hagree.mpr hrun
  refine ⟨fun hrevoked => ?_, hfixture⟩
  -- The database answers as the fixture does, before and after.
  rw [hboth made ((List.prefix_append made later).trans hmade)] at hrevoked
  rw [hboth (made ++ later) hmade]
  exact hfixture hrevoked

/-! ### Sample runs -/

namespace RouteSample

/-- A device and a serial. -/
def device : Text := "pc01.lab.local".toList

def serial : Bytes := List.replicate 16 7

/-- The authority row of the device, as provisioning leaves it. -/
def authority : AuthorityRow where
  fingerprintVersion := 1
  fingerprintDigest := PgRouteRepository.zeroDigest
  adObjectGuid := List.replicate 16 1
  adObjectSid := List.replicate 16 2
  adDnsName := device
  adDomain := "LAB".toList
  preferredDriveLetter := 'P'
  tokenDigest := PgRouteRepository.zeroDigest
  tokenExpiresAt := 600
  tokenConsumedAt := none
  activeSerial := none

/-- A database in which the device is provisioned. -/
def db : Database := Database.putAuthority {} device authority

end RouteSample

theorem route_repositories_agree_sample :
    Agree
      (PgRouteRepository.run RouteSample.db [.activateDevice RouteSample.device RouteSample.serial])
      (RouteRepository.run {} [.activateDevice RouteSample.device RouteSample.serial]) := by
  have hprovisioned : RouteSample.device ∈ RouteSample.db.enrollmentAuthority := by
    simp [RouteSample.db, Database.putAuthority]
  have hrun : DisciplinedRun {} [.activateDevice RouteSample.device RouteSample.serial] := by
    refine ⟨⟨by decide, ?_, ?_⟩, trivial⟩
    · simp [RouteRepository.Knows, RouteRepository.record]
    · simp [RouteRepository.record]
  exact ((route_repositories_agree_iff rfl
    (by simpa [RouteCall.deviceId] using hprovisioned)).mpr hrun).1 _ (List.prefix_refl _)

/-- A serial that was revoked is activated once more: the database reports it active again, the
fixture still reports it revoked. -/
theorem revoked_serial_active_again :
    let calls : List RouteCall := [.activateDevice RouteSample.device RouteSample.serial,
      .revokeDevice RouteSample.device RouteSample.serial,
      .activateDevice RouteSample.device RouteSample.serial]
    RouteSample.device ∈ RouteSample.db.enrollmentAuthority ∧
      PgRouteRepository.credentialStatus (PgRouteRepository.run RouteSample.db (calls.take 2))
        RouteSample.device RouteSample.serial = .revoked ∧
      PgRouteRepository.credentialStatus (PgRouteRepository.run RouteSample.db calls)
        RouteSample.device RouteSample.serial = .active ∧
      (RouteRepository.run {} calls).credentialStatus RouteSample.device RouteSample.serial =
        .revoked := by
  decide +kernel

end Wdlp
