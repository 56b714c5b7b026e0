import Wdlp.Lib.Der
import Wdlp.Server.Enrollment
import Wdlp.Server.RouteCredentials
import Wdlp.Service.Client

/-!
# The serial of a credential on its way

`consume_and_activate` draws the sixteen bytes of a random UUID as the serial of a new credential
and stores them as they are. The issuer puts them into the leaf certificate, where they become a DER
`INTEGER`; the TLS layer of the server and the agent both read the content octets of that integer
back (`raw_serial`). The encoding drops leading zeros and adds a zero in front of a byte that would
be read as a sign, so that what is read back is not always what was stored.

## Main definitions

* `deviceLeaf` — the leaf certificate that the issuer makes.
* `PeerIdentity.deviceFromVerifiedLeaf`, `requireActiveDevice` — the server's side; the agent's is
  `validateDeviceChain`.
* `IsUuidV4` — the serials that can be drawn.

## Main results

* `PgAuthorityRepository.activates_of_exec` — the new serial is the only active one of the device.
* `credential_authorizes_iff` — an issued credential authorizes its device exactly when the first
  bytes of its serial are those of a minimal positive integer.
-/

namespace Wdlp

open CrashSafe

/-! ### Certificates -/

/-- The leaf that `issue_from_csr` has signed on a day. -/
def deviceLeaf (day : ℕ) (deviceUuid : Text) (serial : Bytes) : Certificate where
  isCa := false
  notBefore := day * 86400
  notAfter := (day + 30) * 86400
  keyUsage := some true
  extendedKeyUsage := some true
  subjectAlternativeName := some [deviceUriPrefix ++ deviceUuid]
  rawSerial := derInteger serial

/-- `str::strip_prefix`. -/
def stripText (start text : Text) : Option Text :=
  if text.take start.length = start then some (text.drop start.length) else none

theorem stripText_append (start rest : Text) : stripText start (start ++ rest) = some rest := by
  simp [stripText]

/-! ### The server's side -/

/-- `TlsError`, as far as a leaf that parses can cause it. -/
inductive TlsError where
  | unauthorized
deriving DecidableEq

/-- `PeerRole`. -/
inductive PeerRole where
  | administrator
  | device
deriving DecidableEq

/-- `PeerIdentity`. -/
structure PeerIdentity where
  role : PeerRole
  subject : Text
  serial : Bytes
deriving DecidableEq

/-- `PeerIdentity::device_from_verified_leaf`. -/
def PeerIdentity.deviceFromVerifiedLeaf (now : ℕ) (leaf : Certificate) :
    Except TlsError PeerIdentity :=
  if leaf.isCa ∨ ¬ leaf.IsValid now then .error .unauthorized
  else match leaf.keyUsage, leaf.extendedKeyUsage, leaf.subjectAlternativeName with
    | some digitalSignature, some clientAuth, some names =>
      if !digitalSignature || !clientAuth then .error .unauthorized
      else match (names.findSome? (stripText deviceUriPrefix)).filter (· ≠ []) with
        | none => .error .unauthorized
        | some deviceId => .ok ⟨.device, deviceId, leaf.rawSerial⟩
    | _, _, _ => .error .unauthorized

/-- `AuthenticatedDevice`. -/
structure AuthenticatedDevice where
  deviceId : Text
  credentialSerial : Bytes
deriving DecidableEq

/-- `AuthenticatedDevice::from_peer`. -/
def AuthenticatedDevice.fromPeer (peer : PeerIdentity) (credentialStatus : CredentialStatus) :
    Except TlsError AuthenticatedDevice :=
  if peer.role ≠ .device ∨ peer.subject = [] ∨ peer.serial = [] ∨ credentialStatus ≠ .active then
    .error .unauthorized
  else .ok ⟨peer.subject, peer.serial⟩

/-- `authorize_device` of `PgRouteRepository`. -/
def PgRouteRepository.authorizeDevice (db : Database) (device : AuthenticatedDevice) :
    Except TlsError Unit :=
  match PgRouteRepository.credentialStatus db device.deviceId device.credentialSerial with
  | .active => .ok ()
  | .revoked => .error .unauthorized
  | .expired => .error .unauthorized

/-- `require_active_device`; every refusal is the status `UNAUTHORIZED`. -/
def requireActiveDevice (db : Database) (peer : PeerIdentity) :
    Except TlsError AuthenticatedDevice := do
  let device ← AuthenticatedDevice.fromPeer peer
    (PgRouteRepository.credentialStatus db peer.subject peer.serial)
  PgRouteRepository.authorizeDevice db device
  return device

/-! ### The credential that has been issued -/

/-- The bytes of a random UUID: the version and the variant are fixed. -/
def IsUuidV4 (bytes : Bytes) : Prop :=
  bytes.length = 16 ∧ bytes[6]?.map (· &&& 0xf0) = some 0x40 ∧
    bytes[8]?.map (· &&& 0xc0) = some 0x80

instance (bytes : Bytes) : Decidable (IsUuidV4 bytes) := inferInstanceAs (Decidable (_ ∧ _))

theorem derInteger_ne_nil (bytes : Bytes) : derInteger bytes ≠ [] := by
  intro h
  have hminimal := isMinimal_derInteger bytes
  rw [h] at hminimal
  exact hminimal

section Issued

variable {day now : ℕ} (hbefore : day * 86400 ≤ now) (hafter : now ≤ (day + 30) * 86400)

include hbefore hafter

theorem deviceFromVerifiedLeaf_deviceLeaf {deviceUuid : Text}
    (hdevice : deviceUuid ≠ []) (serial : Bytes) : PeerIdentity.deviceFromVerifiedLeaf
    now (deviceLeaf day deviceUuid serial) = .ok ⟨.device, deviceUuid, derInteger serial⟩ := by
  simp [PeerIdentity.deviceFromVerifiedLeaf, Certificate.IsValid, deviceLeaf, hbefore, hafter,
    stripText_append, hdevice, Option.filter]

theorem validateDeviceChain_deviceLeaf (deviceId : DeviceId) (pem : Text) (serial : Bytes) :
    validateDeviceChain now deviceId ⟨pem, deviceLeaf day deviceId.toWire serial, true⟩ =
      .ok ⟨deviceId.toWire, pem, derInteger serial, (day + 30) * 86400⟩ := by
  have hspan : (day + 30) * 86400 - day * 86400 = 30 * 86400 := by omega
  simp [validateDeviceChain, Certificate.IsValid, deviceLeaf, hbefore, hafter, derInteger_ne_nil,
    hspan]

end Issued

namespace PgAuthorityRepository

variable {db next : Database}

theorem consume_exec {deviceId : Text} {time : ℕ} {activeSerial : AuthorityRow → Option Bytes}
    (h : (consume deviceId time activeSerial).exec db = .ok (true, next)) :
    ∃ row : AuthorityRow, next = db.putAuthority deviceId
      { row with tokenConsumedAt := some time, activeSerial := activeSerial row } := by
  simp only [consume, Program.exec] at h
  split at h
  · simp at h
  · simp at h
  · rename_i written hwritten
    split at hwritten
    · simp at hwritten
    · rename_i row hrow
      obtain rfl := Option.some.inj (checked_eq_ok hwritten)
      exact ⟨row, by simpa using (congrArg Prod.snd (Except.ok.inj h)).symm⟩

theorem insertCredential_exec {deviceId : Text} {serial : Bytes} {digest : Digest} {written : Bool}
    (h : (insertCredential deviceId serial digest).exec db = .ok (written, next)) :
    next = db.putCredential serial ⟨deviceId, .active, digest⟩ ∧
      ¬ db.ActiveBeside deviceId serial := by
  simp only [insertCredential, Program.exec] at h
  split_ifs at h with hfree
  exact ⟨(congrArg Prod.snd (Except.ok.inj h)).symm, hfree.2.2.1⟩

/-- What an activation that succeeds leaves in the tables: the new serial is the active one of the
device, and no other of its credentials is active. -/
theorem activates_of_exec {T : Type} {sha256 : Bytes → Digest}
    {deviceId token : Text} {priorSerial : Option Bytes}
    {issue : Bytes → Except RepositoryError (T × Digest)} {newSerial : Bytes} {time : ℕ}
    {result : T}
    (h : (consumeAndActivate sha256 deviceId token priorSerial issue newSerial time).exec db =
      .ok (result, next)) : next.activeSerial deviceId = some newSerial ∧
      ∀ serial, next.credentialOf serial = some (deviceId, .active) ↔ serial = newSerial := by
  obtain ⟨selected, _, -, h⟩ := Program.exec_bind_eq_ok.mp h
  cases selected with
  | none => simp [Program.exec] at h
  | some row =>
    dsimp only at h
    split_ifs at h
    · simp [Program.exec] at h
    cases hissue : issue newSerial with
    | error error => simp [hissue, Program.exec] at h
    | ok issued =>
      rw [hissue] at h
      obtain ⟨_, retired, -, h⟩ := Program.exec_bind_eq_ok.mp h
      obtain ⟨written, consumed, hconsume, h⟩ := Program.exec_bind_eq_ok.mp h
      split_ifs at h with hwritten
      · subst hwritten
        obtain ⟨row, rfl⟩ := consume_exec hconsume
        obtain ⟨_, _, hinsert, h⟩ := Program.exec_bind_eq_ok.mp h
        obtain ⟨rfl, hbeside⟩ := insertCredential_exec hinsert
        obtain rfl := congrArg Prod.snd (Except.ok.inj h)
        refine ⟨by simp [Database.activeSerial], fun serial => ?_⟩
        rw [Database.credentialOf_putCredential]
        split_ifs with heq
        · simp [heq]
        · simp only [Ne.symm heq, iff_false]
          intro hactive
          obtain ⟨found, hfound, hpair⟩ := Option.map_eq_some_iff.mp hactive
          exact hbeside (Database.activeBeside_iff.mpr ⟨serial, found, hfound, Ne.symm heq,
            congrArg Prod.fst hpair, congrArg Prod.snd hpair⟩)
      · simp [Program.exec] at h

end PgAuthorityRepository

theorem credentialStatus_eq_active {db : Database} {deviceId : Text} {serial : Bytes} :
    PgRouteRepository.credentialStatus db deviceId serial = .active ↔
      db.credentialOf serial = some (deviceId, .active) := by
  rw [PgRouteRepository.credentialStatus_eq]
  split_ifs with hrevoked hactive
  · simp [hrevoked]
  · simp [hactive]
  · simp [hactive]

/-- A device's peer passes exactly with an active credential. -/
theorem requireActiveDevice_eq_ok {db : Database} {deviceId : Text} (hdevice : deviceId ≠ [])
    {serial : Bytes} (hserial : serial ≠ []) :
    (∃ device, requireActiveDevice db ⟨.device, deviceId, serial⟩ = .ok device) ↔
      db.credentialOf serial = some (deviceId, .active) := by
  rw [← credentialStatus_eq_active]
  cases hstatus : PgRouteRepository.credentialStatus db deviceId serial <;>
    simp [requireActiveDevice, AuthenticatedDevice.fromPeer, PgRouteRepository.authorizeDevice,
      hstatus, hdevice, hserial, bind, Except.bind, pure, Except.pure]

/-- For every enrollment that succeeds: the server and the agent read the serial that is stored as
the active one from the certificate, and the peer passes as an active device, exactly when the
bytes of the serial are a minimal positive integer. -/
theorem credential_authorizes_iff {context : EnrollmentContext} {submission : EnrollmentSubmission}
    {db next : Database} {issued : IssuedDeviceCredential}
    (hexec : (EnrollmentService.transaction context submission).exec db = .ok (issued, next))
    {deviceId : DeviceId} (hdevice : submission.deviceId = deviceId.toWire) {pem : Text}
    {day now : ℕ} (hbefore : day * 86400 ≤ now) (hafter : now ≤ (day + 30) * 86400) :
    (∃ peer identity,
      PeerIdentity.deviceFromVerifiedLeaf now
        (deviceLeaf day submission.deviceId context.newSerial) = .ok peer ∧
      validateDeviceChain now deviceId
        ⟨pem, deviceLeaf day submission.deviceId context.newSerial, true⟩ = .ok identity ∧
      next.activeSerial submission.deviceId = some peer.serial ∧
      next.activeSerial submission.deviceId = some identity.serial ∧
      ∃ device, requireActiveDevice next peer = .ok device) ↔ IsMinimal context.newSerial := by
  have hne := submission.length_deviceId.1
  obtain ⟨hactive, hcredential⟩ := PgAuthorityRepository.activates_of_exec hexec
  have hpeer := deviceFromVerifiedLeaf_deviceLeaf hbefore hafter hne context.newSerial
  have hagent := validateDeviceChain_deviceLeaf hbefore hafter deviceId pem context.newSerial
  rw [← hdevice] at hagent
  rw [← derInteger_eq_self_iff]
  constructor
  · rintro ⟨peer, identity, hpeer', -, hsame, -, -⟩
    obtain rfl := Except.ok.inj (hpeer.symm.trans hpeer')
    exact (Option.some.inj (hactive.symm.trans hsame)).symm
  · intro hsame
    rw [hsame] at hpeer hagent
    have hpasses := (requireActiveDevice_eq_ok hne (hsame ▸ derInteger_ne_nil _)).mpr
      ((hcredential context.newSerial).mpr rfl)
    exact ⟨_, _, hpeer, hagent, hactive, hactive, hpasses⟩

/-! ### Sample credentials -/

namespace AuthoritySample

/-- The device's name as an identifier. -/
def deviceId : DeviceId := ⟨device, by decide, by decide⟩

/-- The database after the provisioning of the device. -/
def provisioned : Database :=
  Database.putAuthority {} device (request.row (digest (utf8 token)) 0 none)

/-- The serial of the peer with the certificate of a new credential, and whether it passes. -/
def peerWith (serial : Bytes) : Option (Bytes × Except TlsError AuthenticatedDevice) := do
  let (_, next) ← ((EnrollmentService.transaction { context with newSerial := serial }
    submission).exec provisioned).toOption
  let peer ← (PeerIdentity.deviceFromVerifiedLeaf 5 (deviceLeaf 0 device serial)).toOption
  return (peer.serial, requireActiveDevice next peer)

end AuthoritySample

theorem credential_authorizes_sample :
    ∃ issued next, (EnrollmentService.transaction AuthoritySample.context
        AuthoritySample.submission).exec AuthoritySample.provisioned = .ok (issued, next) ∧
      ∃ peer identity,
        PeerIdentity.deviceFromVerifiedLeaf 5
          (deviceLeaf 0 AuthoritySample.device AuthoritySample.serial) = .ok peer ∧
        validateDeviceChain 5 AuthoritySample.deviceId
          ⟨[], deviceLeaf 0 AuthoritySample.device AuthoritySample.serial, true⟩ = .ok identity ∧
        next.activeSerial AuthoritySample.device = some peer.serial ∧
        next.activeSerial AuthoritySample.device = some identity.serial ∧
        ∃ device, requireActiveDevice next peer = .ok device := by
  have hok : ((EnrollmentService.transaction AuthoritySample.context
      AuthoritySample.submission).exec AuthoritySample.provisioned).isOk = true := by
    decide +kernel
  cases hexec : (EnrollmentService.transaction AuthoritySample.context
      AuthoritySample.submission).exec AuthoritySample.provisioned with
  | error error => simp [hexec, Except.isOk, Except.toBool] at hok
  | ok pair =>
    obtain ⟨issued, next⟩ := pair
    have hiff : _ ↔ IsMinimal AuthoritySample.serial := @credential_authorizes_iff
      AuthoritySample.context AuthoritySample.submission _ next issued hexec
      AuthoritySample.deviceId rfl [] 0 5 (by decide) (by decide)
    exact ⟨issued, next, rfl, hiff.mpr (by decide)⟩

/-- A random UUID whose first byte is at least `0x80`: the peer's serial has a zero in front, and
the device that has just been enrolled is refused. -/
theorem enrolled_device_refused :
    IsUuidV4 (0x9f :: AuthoritySample.serial.tail) ∧
      AuthoritySample.peerWith (0x9f :: AuthoritySample.serial.tail) =
        some (0 :: 0x9f :: AuthoritySample.serial.tail, .error .unauthorized) := by
  decide +kernel

end Wdlp
