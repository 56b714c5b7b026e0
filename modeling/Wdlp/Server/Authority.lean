import Wdlp.Lib.Transactions
import Wdlp.Server.Database

/-!
# The enrollment authority

`PgAuthorityRepository`: provisioning of devices with one-time tokens, the consumption of a token,
and its consumption together with the activation of a new credential. Each call is one transaction
on the tables `enrollment_authority`, `revoked_device_credentials` and `device_route_credentials`,
whose rows are the rows of the `schema`.

The random values (the token of `provision`, the serial of `consume_and_activate`) and the time of
the database are arguments. Any statement can fail with an error of the connection, which the
transaction library models as an abortion from outside; a violated constraint is an error of the
statement itself. A unique column other than the key is checked against the committed rows: where
PostgreSQL would wait for another transaction that is about to insert the same value, the model goes
on, so that it has more interleavings than the server.

## Main definitions

* `RowKey`, `authoritySchema` — the rows that the transactions lock and write.
* `ProvisionDeviceRequestV1` — a provisioning request.
* `PgAuthorityRepository.provision`, `PgAuthorityRepository.consumeToken`,
  `PgAuthorityRepository.consumeAndActivate` — the transactions.
-/

namespace Wdlp

open CrashSafe

/-- `RepositoryError`. -/
inductive RepositoryError where
  | denied
  | unavailable
deriving DecidableEq

/-! ### Rows -/

/-- The primary keys of the three tables. -/
inductive RowKey where
  | authority (deviceId : Text)
  | revoked (serial : Bytes)
  | credential (serial : Bytes)
deriving DecidableEq

/-- The rows of the three tables. -/
@[reducible] def authoritySchema : Schema Database RowKey where
  Row
    | .authority _ => AuthorityRow
    | .revoked _ => Text
    | .credential _ => CredentialRow
  get
    | .authority deviceId, db => db.enrollmentAuthority[deviceId]?
    | .revoked serial, db => db.revokedDeviceCredentials[serial]?
    | .credential serial, db => db.deviceRouteCredentials[serial]?
  put
    | .authority deviceId, row, db => db.putAuthority deviceId row
    | .revoked serial, deviceId, db => db.putRevoked serial deviceId
    | .credential serial, row, db => db.putCredential serial row
  get_put_self key row db := by
    cases key <;> exact Map.get_insert_self
  get_put_of_ne {key other} row db hne := by
    cases key <;> cases other <;> first
      | rfl
      | exact Map.get_insert_of_ne fun heq => hne (congrArg _ heq)

/-! ### Requests -/

/-- `ProvisionDeviceRequestV1`, with what its constructor checks. -/
structure ProvisionDeviceRequestV1 where
  deviceId : Text
  fingerprintVersion : UInt16
  fingerprintDigest : Digest
  adObjectGuid : Bytes
  adObjectSid : Bytes
  adDnsName : Text
  adDomain : Text
  preferredDriveLetter : Char
  recovery : Bool
  isField_deviceId : IsField deviceId
  isField_adDnsName : IsField adDnsName
  isField_adDomain : IsField adDomain
  fingerprintVersion_eq : fingerprintVersion = 1
  length_adObjectGuid : adObjectGuid.length = 16
  length_adObjectSid : 8 ≤ adObjectSid.length ∧ adObjectSid.length ≤ 68
  isUpper_preferredDriveLetter : preferredDriveLetter.isUpper = true

/-- The row that `provision` writes for the request; the active serial of the device is kept. -/
def ProvisionDeviceRequestV1.row (request : ProvisionDeviceRequestV1) (tokenDigest : Digest)
    (now : ℕ) (activeSerial : Option Bytes) : AuthorityRow where
  fingerprintVersion := request.fingerprintVersion
  fingerprintDigest := request.fingerprintDigest
  adObjectGuid := request.adObjectGuid
  adObjectSid := request.adObjectSid
  adDnsName := request.adDnsName
  adDomain := request.adDomain
  preferredDriveLetter := request.preferredDriveLetter
  tokenDigest := tokenDigest
  -- `CURRENT_TIMESTAMP + INTERVAL '10 minutes'`, in seconds
  tokenExpiresAt := now + 600
  tokenConsumedAt := none
  activeSerial := activeSerial

namespace PgAuthorityRepository

/-- A transaction of the authority. -/
abbrev Transactional := Program authoritySchema RepositoryError

/-! ### Statements -/

/-- `SELECT … FROM enrollment_authority WHERE device_id = $1 AND … FOR UPDATE`. -/
def selectAuthority (deviceId : Text) (wanted : AuthorityRow → Bool) :
    Transactional (Option AuthorityRow) :=
  .select (.authority deviceId) wanted .pure

/-- The token of the row has not been consumed and has not expired. -/
def isPending (now : ℕ) (row : AuthorityRow) : Bool :=
  row.tokenConsumedAt = none ∧ now < row.tokenExpiresAt

/-- A row of `enrollment_authority` is written, if it satisfies the constraints of the table. -/
def checked (error : RepositoryError) (deviceId : Text) (row : AuthorityRow) (db : Database) :
    Except RepositoryError (Option AuthorityRow) :=
  if row.Storable deviceId ∧ row.Checks deviceId ∧ db.DigestsUnique deviceId row then
    .ok (some row)
  else .error error

theorem checked_eq_ok {error : RepositoryError} {deviceId : Text} {row : AuthorityRow}
    {db : Database} {written : Option AuthorityRow}
    (h : checked error deviceId row db = .ok written) : written = some row := by
  unfold checked at h
  split_ifs at h
  exact (Except.ok.inj h).symm

/-- `INSERT INTO enrollment_authority … ON CONFLICT (device_id) DO UPDATE SET …,
token_consumed_at = NULL`; an error is reported as a denial. -/
def upsertAuthority (request : ProvisionDeviceRequestV1) (tokenDigest : Digest) (now : ℕ) :
    Transactional Bool :=
  .update (.authority request.deviceId) (fun db current =>
    checked .denied request.deviceId
      (request.row tokenDigest now (current.bind AuthorityRow.activeSerial)) db) .pure

/-- `UPDATE device_route_credentials SET credential_status = 'revoked' … WHERE device_id = $1 AND
credential_serial = $2 AND credential_status = 'active'`. -/
def revokeCredential (deviceId : Text) (serial : Bytes) : Transactional Bool :=
  .update (.credential serial) (fun _ current => .ok
    ((current.filter fun row => row.deviceId = deviceId ∧ row.credentialStatus = .active).map
      fun row => { row with credentialStatus := .revoked })) .pure

/-- What `INSERT INTO revoked_device_credentials (serial, device_id) VALUES ($1, $2)` does when the
serial is there already, and when it is not. -/
def revokedRow (onConflict : Except RepositoryError (Option Text)) (deviceId : Text)
    (serial : Bytes) (db : Database) : Option Text → Except RepositoryError (Option Text)
  | some _ => if IsSerial serial then onConflict else .error .unavailable
  | none =>
    if IsSerial serial ∧ deviceId ∈ db.enrollmentAuthority then .ok (some deviceId)
    else .error .unavailable

/-- `INSERT INTO revoked_device_credentials …`. -/
def insertRevoked (onConflict : Except RepositoryError (Option Text)) (deviceId : Text)
    (serial : Bytes) : Transactional Bool :=
  .update (.revoked serial) (revokedRow onConflict deviceId serial) .pure

/-- `UPDATE enrollment_authority SET active_serial = NULL WHERE device_id = $1 AND
active_serial = $2`. -/
def clearActiveSerial (deviceId : Text) (serial : Bytes) : Transactional Bool :=
  .update (.authority deviceId) (fun _ current => .ok
    ((current.filter fun row => row.activeSerial = some serial).map
      fun row => { row with activeSerial := none })) .pure

/-- `UPDATE enrollment_authority SET token_consumed_at = CURRENT_TIMESTAMP, … WHERE device_id = $1
AND token_consumed_at IS NULL`, with another active serial or the same one. -/
def consume (deviceId : Text) (now : ℕ) (activeSerial : AuthorityRow → Option Bytes) :
    Transactional Bool :=
  .update (.authority deviceId) (fun db current =>
    match current.filter fun row => row.tokenConsumedAt = none with
    | none => .ok none
    | some row =>
      checked .unavailable deviceId
        { row with tokenConsumedAt := some now, activeSerial := activeSerial row } db) .pure

/-- `INSERT INTO device_route_credentials … VALUES ($1, $2, 'active', $3, …)`. -/
def insertCredential (deviceId : Text) (serial : Bytes) (digest : Digest) : Transactional Bool :=
  .update (.credential serial) (fun db current =>
    if IsSerial serial ∧ current = none ∧ ¬ db.ActiveBeside deviceId serial ∧
        deviceId ∈ db.enrollmentAuthority then
      .ok (some ⟨deviceId, .active, digest⟩)
    else .error .unavailable) .pure

/-! ### Transactions -/

/-- The credential with the serial is revoked in both tables. -/
def retire (onConflict : Except RepositoryError (Option Text)) (deviceId : Text) (serial : Bytes) :
    Transactional Unit := do
  let _ ← revokeCredential deviceId serial
  let _ ← insertRevoked onConflict deviceId serial
  return ()

/-- What `provision` does with the active serial of the device in a recovery; the insertion is
`ON CONFLICT (serial) DO NOTHING`. -/
def retireForRecovery (deviceId : Text) : Option Bytes → Transactional Unit
  | none => .pure ()
  | some activeSerial => do
    retire (.ok none) deviceId activeSerial
    let _ ← clearActiveSerial deviceId activeSerial
    return ()

/-- `provision`, with the token that it draws. -/
def provision (sha256 : Bytes → Digest) (request : ProvisionDeviceRequestV1) (token : Text)
    (now : ℕ) : Transactional Text := do
  let existing ← selectAuthority request.deviceId fun _ => true
  retireForRecovery request.deviceId
    (if request.recovery then existing.bind AuthorityRow.activeSerial else none)
  let _ ← upsertAuthority request (sha256 (utf8 token)) now
  return token

/-- `consume_token`. -/
def consumeToken (sha256 : Bytes → Digest) (deviceId : Text) (fingerprintDigest : Digest)
    (token : Text) (now : ℕ) : Transactional Unit := do
  match ← selectAuthority deviceId (isPending now) with
  | none => .fail .denied
  | some row =>
    if row.fingerprintDigest ≠ fingerprintDigest ∨ row.tokenDigest ≠ sha256 (utf8 token) then
      .fail .denied
    else do
      if ← consume deviceId now AuthorityRow.activeSerial then return () else .fail .denied

/-- What `consume_and_activate` does with the serial that it replaces. -/
def retirePrevious (deviceId : Text) : Option Bytes → Transactional Unit
  | none => .pure ()
  | some previous => retire (.error .unavailable) deviceId previous

/-- The statements of `consume_and_activate` after the certificate has been issued. -/
def activate {T : Type} (deviceId : Text) (activeSerial : Option Bytes) (newSerial : Bytes)
    (now : ℕ) (issued : T × Digest) : Transactional T := do
  retirePrevious deviceId activeSerial
  if ← consume deviceId now fun _ => some newSerial then
    let _ ← insertCredential deviceId newSerial issued.2
    return issued.1
  else .fail .denied

/-- `consume_and_activate`, with the serial that it draws. -/
def consumeAndActivate {T : Type} (sha256 : Bytes → Digest) (deviceId token : Text)
    (priorSerial : Option Bytes) (issue : Bytes → Except RepositoryError (T × Digest))
    (newSerial : Bytes) (now : ℕ) : Transactional T := do
  match ← selectAuthority deviceId (isPending now) with
  | none => .fail .denied
  | some row =>
    if row.tokenDigest ≠ sha256 (utf8 token) ∨ row.activeSerial ≠ priorSerial then .fail .denied
    else match issue newSerial with
      | .error error => .fail error
      | .ok issued => activate deviceId row.activeSerial newSerial now issued

end PgAuthorityRepository

/-! ### Sample values -/

namespace AuthoritySample

/-- A digest that keeps the bytes of short texts apart. -/
def digest (bytes : Bytes) : Digest := ⟨(bytes ++ List.replicate 32 0).take 32, by simp⟩

def device : Text := "pc01.lab.local".toList

def token : Text := "4f1c".toList

/-- The bytes of a UUID of version 4. -/
def serial : Bytes := [0x4f, 1, 2, 3, 4, 5, 0x46, 7, 0x88, 9, 10, 11, 12, 13, 14, 15]

/-- The provisioning of the device. -/
def request : ProvisionDeviceRequestV1 where
  deviceId := device
  fingerprintVersion := 1
  fingerprintDigest := digest [1]
  adObjectGuid := List.replicate 16 1
  adObjectSid := List.replicate 16 2
  adDnsName := device
  adDomain := "LAB".toList
  preferredDriveLetter := 'P'
  recovery := false
  isField_deviceId := by decide
  isField_adDnsName := by decide
  isField_adDomain := by decide
  fingerprintVersion_eq := rfl
  length_adObjectGuid := rfl
  length_adObjectSid := by decide
  isUpper_preferredDriveLetter := by decide

end AuthoritySample

end Wdlp
