import Wdlp.Protocol

/-!
# The server's database

The tables that the migrations create and the constraints they declare on them. A table with a
primary key is a finite map; a table with a generated identity is the list of its rows in the order
in which they were inserted. Columns that no query of the server reads (the creation times, the
expiry and revocation times of a credential) are left out.

A statement that violates a constraint fails with the `SqlError` that names the constraint's kind
and changes nothing. `TEXT` columns cannot hold the character `U+0000`; a statement that binds it is
refused as well.

## Main definitions

* `AuthorityRow`, `CredentialRow`, `ConfigurationRow`, `HealthReportRow`, `Database` — the tables.
* `Database.putAuthority`, `Database.putRevoked`, `Database.putCredential` — one row is written.
* `AuthorityRow.Checks`, `Database.DigestsUnique`, `Database.ActiveBeside` — the constraints that
  look at one row, and those that look at the rows beside it.

## Main results

* `Database.activeBeside_iff` — the partial unique index in terms of lookups.
-/

namespace Wdlp

open CrashSafe

/-- The constraint that a statement violates. -/
inductive SqlError where
  | invalidText
  | checkViolation
  | uniqueViolation
  | foreignKeyViolation
deriving DecidableEq

/-- A row of `enrollment_authority`, whose primary key is the device. -/
structure AuthorityRow where
  fingerprintVersion : UInt16
  fingerprintDigest : Digest
  adObjectGuid : Bytes
  adObjectSid : Bytes
  adDnsName : Text
  adDomain : Text
  preferredDriveLetter : Char
  tokenDigest : Digest
  tokenExpiresAt : ℕ
  tokenConsumedAt : Option ℕ
  activeSerial : Option Bytes
deriving DecidableEq

/-- The values of the column `credential_status`. -/
inductive StoredStatus where
  | active
  | revoked
deriving DecidableEq

/-- A row of `device_route_credentials`, whose primary key is the serial. -/
structure CredentialRow where
  deviceId : Text
  credentialStatus : StoredStatus
  publicCertificateDigest : Digest
deriving DecidableEq

/-- A row of `signed_configurations`. -/
structure ConfigurationRow where
  deviceId : Text
  bundleVersion : ℤ
  schemaVersion : ℤ
  keyId : Text
  canonicalBundle : Bytes
  signature : Bytes
  contentDigest : Bytes
  audience : Text
deriving DecidableEq

/-- A row of `health_reports`. -/
structure HealthReportRow where
  deviceId : Text
  status : Text
deriving DecidableEq

/-- The committed rows of all tables. -/
structure Database where
  deviceAllowlist : Map Text Digest := ∅
  signedConfigurations : List ConfigurationRow := []
  healthReports : List HealthReportRow := []
  enrollmentAuthority : Map Text AuthorityRow := ∅
  /-- The device of each serial in `revoked_device_credentials`. -/
  revokedDeviceCredentials : Map Bytes Text := ∅
  deviceRouteCredentials : Map Bytes CredentialRow := ∅

/-- `octet_length(serial) BETWEEN 1 AND 20`. -/
def IsSerial (serial : Bytes) : Prop := 1 ≤ serial.length ∧ serial.length ≤ 20

instance (serial : Bytes) : Decidable (IsSerial serial) := inferInstanceAs (Decidable (_ ∧ _))

/-- A text that a `TEXT` column takes. -/
def IsStorable (value : Text) : Prop := '\x00' ∉ value

instance (value : Text) : Decidable (IsStorable value) := inferInstanceAs (Decidable (¬ _))

/-- `char_length(value) BETWEEN 1 AND longest`. -/
def HasLength (longest : ℕ) (value : Text) : Prop := 1 ≤ value.length ∧ value.length ≤ longest

instance (longest : ℕ) (value : Text) : Decidable (HasLength longest value) :=
  inferInstanceAs (Decidable (_ ∧ _))

namespace AuthorityRow

/-- The texts of the row and its key can be bound. -/
def Storable (deviceId : Text) (row : AuthorityRow) : Prop :=
  IsStorable deviceId ∧ IsStorable row.adDnsName ∧ IsStorable row.adDomain

instance (deviceId : Text) (row : AuthorityRow) : Decidable (row.Storable deviceId) :=
  inferInstanceAs (Decidable (_ ∧ _))

/-- The `CHECK` constraints of `enrollment_authority`. -/
def Checks (deviceId : Text) (row : AuthorityRow) : Prop :=
  HasLength 128 deviceId ∧ row.fingerprintVersion = 1 ∧ row.adObjectGuid.length = 16 ∧
    (8 ≤ row.adObjectSid.length ∧ row.adObjectSid.length ≤ 68) ∧ HasLength 255 row.adDnsName ∧
    HasLength 255 row.adDomain ∧ row.preferredDriveLetter.isUpper ∧
    ∀ serial ∈ row.activeSerial, IsSerial serial

instance (deviceId : Text) (row : AuthorityRow) : Decidable (row.Checks deviceId) :=
  inferInstanceAs (Decidable (_ ∧ _))

end AuthorityRow

namespace Database

/-- Stores a row of `enrollment_authority`. -/
def putAuthority (db : Database) (deviceId : Text) (row : AuthorityRow) : Database :=
  { db with enrollmentAuthority := db.enrollmentAuthority.insert deviceId row }

/-- Stores a row of `revoked_device_credentials`. -/
def putRevoked (db : Database) (serial : Bytes) (deviceId : Text) : Database :=
  { db with revokedDeviceCredentials := db.revokedDeviceCredentials.insert serial deviceId }

/-- Stores a row of `device_route_credentials`. -/
def putCredential (db : Database) (serial : Bytes) (row : CredentialRow) : Database :=
  { db with deviceRouteCredentials := db.deviceRouteCredentials.insert serial row }

section Rows

variable (db : Database) (deviceId : Text) (serial : Bytes) (authorityRow : AuthorityRow)
  (credentialRow : CredentialRow)

@[simp] theorem enrollmentAuthority_putAuthority :
    (db.putAuthority deviceId authorityRow).enrollmentAuthority =
      db.enrollmentAuthority.insert deviceId authorityRow := rfl

@[simp] theorem enrollmentAuthority_putRevoked :
    (db.putRevoked serial deviceId).enrollmentAuthority = db.enrollmentAuthority := rfl

@[simp] theorem enrollmentAuthority_putCredential :
    (db.putCredential serial credentialRow).enrollmentAuthority = db.enrollmentAuthority := rfl

@[simp] theorem revokedDeviceCredentials_putAuthority :
    (db.putAuthority deviceId authorityRow).revokedDeviceCredentials =
      db.revokedDeviceCredentials := rfl

@[simp] theorem revokedDeviceCredentials_putRevoked :
    (db.putRevoked serial deviceId).revokedDeviceCredentials =
      db.revokedDeviceCredentials.insert serial deviceId := rfl

@[simp] theorem revokedDeviceCredentials_putCredential :
    (db.putCredential serial credentialRow).revokedDeviceCredentials =
      db.revokedDeviceCredentials := rfl

@[simp] theorem deviceRouteCredentials_putCredential :
    (db.putCredential serial credentialRow).deviceRouteCredentials =
      db.deviceRouteCredentials.insert serial credentialRow := rfl

theorem putAuthority_putAuthority (other : AuthorityRow) :
    (db.putAuthority deviceId other).putAuthority deviceId authorityRow =
      db.putAuthority deviceId authorityRow := by
  simp only [putAuthority, Map.insert_insert]

end Rows

/-- The active serial of a device. -/
def activeSerial (db : Database) (deviceId : Text) : Option Bytes :=
  db.enrollmentAuthority[deviceId]?.bind AuthorityRow.activeSerial

/-- The device and the status that the table holds for a serial. -/
def credentialOf (db : Database) (serial : Bytes) : Option (Text × StoredStatus) :=
  db.deviceRouteCredentials[serial]?.map fun row => (row.deviceId, row.credentialStatus)

theorem credentialOf_putCredential (db : Database) (serial other : Bytes) (row : CredentialRow) :
    (db.putCredential serial row).credentialOf other =
      if serial = other then some (row.deviceId, row.credentialStatus)
      else db.credentialOf other := by
  simp only [credentialOf, deviceRouteCredentials_putCredential, Map.get_insert]
  split <;> rfl

@[simp] theorem credentialOf_putAuthority (db : Database) (deviceId : Text) (row : AuthorityRow)
    (serial : Bytes) : (db.putAuthority deviceId row).credentialOf serial = db.credentialOf serial :=
  rfl

@[simp] theorem credentialOf_putRevoked (db : Database) (serial other : Bytes) (deviceId : Text) :
    (db.putRevoked serial deviceId).credentialOf other = db.credentialOf other :=
  rfl

/-- The unique columns of `enrollment_authority`: no other device's row has the row's fingerprint,
its token or its active serial. -/
def DigestsUnique (db : Database) (deviceId : Text) (row : AuthorityRow) : Prop :=
  ∀ entry ∈ db.enrollmentAuthority.toList, entry.1 ≠ deviceId →
    entry.2.fingerprintDigest ≠ row.fingerprintDigest ∧ entry.2.tokenDigest ≠ row.tokenDigest ∧
      (row.activeSerial ≠ none → entry.2.activeSerial ≠ row.activeSerial)

instance (db : Database) (deviceId : Text) (row : AuthorityRow) :
    Decidable (db.DigestsUnique deviceId row) :=
  inferInstanceAs (Decidable (∀ entry ∈ _, _))

/-- Another serial than `serial` is active for the device: what
`device_route_credentials_one_active_per_device` rules out. -/
def ActiveBeside (db : Database) (deviceId : Text) (serial : Bytes) : Prop :=
  ∃ entry ∈ db.deviceRouteCredentials.toList,
    entry.1 ≠ serial ∧ entry.2.deviceId = deviceId ∧ entry.2.credentialStatus = .active

instance (db : Database) (deviceId : Text) (serial : Bytes) :
    Decidable (db.ActiveBeside deviceId serial) :=
  inferInstanceAs (Decidable (∃ entry ∈ _, _))

theorem activeBeside_iff {db : Database} {deviceId : Text} {serial : Bytes} :
    db.ActiveBeside deviceId serial ↔ ∃ other row, db.deviceRouteCredentials[other]? = some row ∧
      other ≠ serial ∧ row.deviceId = deviceId ∧ row.credentialStatus = .active := by
  constructor
  · rintro ⟨⟨other, row⟩, hmem, hne, hdevice, hactive⟩
    exact ⟨other, row, Std.ExtTreeMap.mem_toList_iff_getElem?_eq_some.mp hmem, hne, hdevice,
      hactive⟩
  · rintro ⟨other, row, hrow, hne, hdevice, hactive⟩
    exact ⟨(other, row), Std.ExtTreeMap.mem_toList_iff_getElem?_eq_some.mpr hrow, hne, hdevice,
      hactive⟩

end Database

end Wdlp
