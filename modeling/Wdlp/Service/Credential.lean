import Wdlp.Service.Client

/-!
# The credential of a device on its machine

The credential file of the endpoint service: a record of four fields, each behind its length, that
the machine's data protection turns into a blob. The file and its directory carry access-control
lists, which only some of the operations look at: `load` checks both lists before it reads,
`validate_protection` reads and decodes without looking at them.

Data protection and the lossy decoding of a text are functions of the platform. A list is either
the one that the service sets or not; a file that is made in the directory has a list of its own
until it is set.

## Main definitions

* `DeviceCredential`, `DeviceCredential.encode`, `DeviceCredential.decode` — the record.
* `Machine`, `DpapiCredentialStore.protect`, `load`, `validateProtection` — the file.
* `EnrollmentCredential`, `loadCredential`, `saveCredential` — the view of the enrollment.
* `Machine.Decodes`, `Machine.AclsValid` — what the file holds, and that both lists are in order.

## Main results

* `DpapiCredentialStore.loadCredential_completes` — a credential that decodes, with its lists in
  order, is loaded.
* `DpapiCredentialStore.saveCredential_ok` — a credential that was saved can be loaded.
-/

namespace Wdlp

open CrashSafe Act

/-! ### The record -/

/-- `CredentialError`. -/
inductive CredentialError where
  | missing
  | invalidCredential
  | integrity
  | protection
  | io
  | wrongMachine
  | aclInvalid
deriving DecidableEq

/-- `DeviceCredential`, whose fields are never empty. -/
structure DeviceCredential where
  deviceId : Text
  privateKey : Bytes
  certificateChain : Bytes
  serial : Bytes
  expiresAfterDays : UInt8
  deviceId_ne : deviceId ≠ []
  privateKey_ne : privateKey ≠ []
  certificateChain_ne : certificateChain ≠ []
  serial_ne : serial ≠ []
  expiresAfterDays_eq : expiresAfterDays = 30

instance : DecidableEq DeviceCredential := fun a b =>
  decidable_of_iff (a.deviceId = b.deviceId ∧ a.privateKey = b.privateKey ∧
    a.certificateChain = b.certificateChain ∧ a.serial = b.serial ∧
    a.expiresAfterDays = b.expiresAfterDays) (by cases a; cases b; simp)

namespace DeviceCredential

/-- `dlp-device-credential/v1`, ended by a zero. -/
def format : Bytes := utf8 "dlp-device-credential/v1\x00".toList

def maxField : ℕ := 1048576

def maxTotal : ℕ := 4194304

/-- `DeviceCredential::new`. -/
def new (deviceId : Text) (privateKey certificateChain serial : Bytes) (expiresAfterDays : UInt8) :
    Except CredentialError DeviceCredential :=
  if h : deviceId ≠ [] ∧ privateKey ≠ [] ∧ certificateChain ≠ [] ∧ serial ≠ [] ∧
      expiresAfterDays = 30 then
    .ok ⟨deviceId, privateKey, certificateChain, serial, expiresAfterDays, h.1, h.2.1, h.2.2.1,
      h.2.2.2.1, h.2.2.2.2⟩
  else .error .invalidCredential

/-- `encode`. -/
def encode (credential : DeviceCredential) : Bytes :=
  format ++ framed (utf8 credential.deviceId) ++ framed credential.privateKey ++
    framed credential.certificateChain ++ framed credential.serial ++ [credential.expiresAfterDays]

/-- One field of the record: its length, which is bounded, and its bytes. -/
def readField : Reader CredentialError Bytes := do
  let length ← Reader.beWord .integrity 4
  failIf (length = 0 ∨ maxField < length) CredentialError.integrity
  Reader.take .integrity length

/-- The four fields and the last byte of a record, after which nothing follows. -/
def readFields : Reader CredentialError (Bytes × Bytes × Bytes × Bytes × UInt8) := do
  let deviceId ← readField
  let privateKey ← readField
  let certificateChain ← readField
  let serial ← readField
  let expiry ← Reader.take .integrity 1
  let left ← Reader.remaining
  failIf (left ≠ 0) CredentialError.integrity
  return (deviceId, privateKey, certificateChain, serial, expiry.headD 0)

/-- `decode`. -/
def decode (input : Bytes) : Except CredentialError DeviceCredential := do
  failIf (maxTotal < input.length ∨ ¬ format <+: input) CredentialError.integrity
  let ((deviceId, privateKey, certificateChain, serial, expiry), _) ←
    readFields (input.drop format.length)
  match fromUtf8 deviceId with
  | none => .error .integrity
  | some deviceId => new deviceId privateKey certificateChain serial expiry

end DeviceCredential

/-! ### The machine -/

/-- What the operating system and the standard library do: data protection, which is bound to the
machine, and the lossy decoding of a text. -/
structure Platform where
  protectBytes : Bytes → Except CredentialError Bytes
  unprotectBytes : Bytes → Except CredentialError Bytes
  fromUtf8Lossy : Bytes → Text
  fromUtf8Lossy_ne_nil : ∀ bytes, bytes ≠ [] → fromUtf8Lossy bytes ≠ []

/-- The paths whose access-control lists are set and checked. -/
inductive AclPath where
  | directory
  | credential
deriving DecidableEq

/-- `device.dpapi` in the directory of the store. -/
def credentialPath : Path := ["device.dpapi".toList]

def temporaryPath : Path := ["device.dpapi.tmp".toList]

/-- The directory of the credential store: its files, which lists are the ones that the service
sets, whether a new file happens to have such a list, and the requests for an enrollment that were
sent. -/
structure Machine where
  disk : Disk
  acls : AclPath → Bool
  createdAcl : Bool
  requests : List EnrollmentRequestBody := []

namespace Machine

/-- The machine with another disk. -/
def withDisk (disk : Disk) (m : Machine) : Machine := { m with disk := disk }

/-- The machine after the rename of the temporary file: if it is gone, its list has come along. -/
def renamed (disk : Disk) (m : Machine) : Machine :=
  { m with
    disk := disk
    acls := if disk.fs[temporaryPath]? = none then Function.update m.acls .credential m.createdAcl
      else m.acls }

/-- The same machine, with what the steps to come will do. -/
def withFates (m : Machine) (fates : List Fate) : Machine :=
  { m with disk := { m.disk with fates := fates } }

/-- Both lists are in order. -/
def AclsValid (m : Machine) : Prop := ∀ path, m.acls path = true

end Machine

/-! ### The store -/

/-- The operations of the credential store. -/
abbrev CredentialOp := Act Machine CredentialError

namespace DpapiCredentialStore

/-- A step on the disk. -/
def step (op : FsOp) : CredentialOp Unit :=
  Act.zoom Machine.disk Machine.withDisk (fun _ => .io) (Disk.perform op)

/-- `enforce_acl`. -/
def enforceAcl (path : AclPath) : CredentialOp Unit := fun m =>
  let m' := m.withDisk m.disk.advance
  match m.disk.fates.headD .ok with
  | .ok => .ok () { m' with acls := Function.update m.acls path true }
  | .fail _ _ => .err .aclInvalid m'
  | .crash _ => .crash m'

/-- `validate_acl`. -/
def validateAcl (path : AclPath) : CredentialOp Unit := fun m =>
  let m' := m.withDisk m.disk.advance
  match m.disk.fates.headD .ok with
  | .ok => if m.acls path = true then .ok () m' else .err .aclInvalid m'
  | .fail _ _ => .err .aclInvalid m'
  | .crash _ => .crash m'

/-- The bytes of the file, an error being translated. -/
def readBlob (error : IoErrorKind → CredentialError) : CredentialOp Bytes :=
  Act.zoom Machine.disk Machine.withDisk error (Disk.readFile credentialPath)

/-- How `load` and `validate_protection` report an error of the file system. -/
def missingOrIo (kind : IoErrorKind) : CredentialError := if kind = .notFound then .missing else .io

/-- `protect`. -/
def protect (platform : Platform) (credential : DeviceCredential) : CredentialOp Unit := do
  let blob ← Act.ofExcept (platform.protectBytes credential.encode)
  step (.create temporaryPath)
  step (.write temporaryPath blob)
  step (.sync temporaryPath)
  Act.zoom Machine.disk Machine.renamed (fun _ => .io)
    (Disk.performAtomic (.rename temporaryPath credentialPath))
  enforceAcl .directory
  enforceAcl .credential
  let blob ← readBlob fun _ => .io
  let plain ← Act.ofExcept (platform.unprotectBytes blob)
  let validated ← Act.ofExcept (DeviceCredential.decode plain)
  failIf (validated.privateKey = []) CredentialError.integrity

/-- The credential that a blob holds. -/
def decodeBlob (platform : Platform) (blob : Bytes) : Except CredentialError DeviceCredential := do
  let plain ← (platform.unprotectBytes blob).mapError fun _ => .wrongMachine
  DeviceCredential.decode plain

/-- `load`. -/
def load (platform : Platform) : CredentialOp DeviceCredential := do
  let present ← Act.zoom Machine.disk Machine.withDisk (fun _ => .io)
    (Disk.pathExists credentialPath)
  failIf (present = false) CredentialError.missing
  validateAcl .directory
  validateAcl .credential
  let blob ← readBlob missingOrIo
  Act.ofExcept (decodeBlob platform blob)

/-- `validate_protection`. -/
def validateProtection (platform : Platform) : CredentialOp Bool := do
  let blob ← readBlob missingOrIo
  let credential ← Act.ofExcept (decodeBlob platform blob)
  return decide (credential.privateKey ≠ [])

end DpapiCredentialStore

/-! ### The view of the enrollment -/

/-- `EnrollmentError` of the agent. -/
inductive AgentEnrollmentError where
  | credentialUnavailable
  | transportDenied
  | csrGeneration
  | invalidResponse
  | profileRejected
deriving DecidableEq

/-- `EnrollmentCredential`. -/
structure EnrollmentCredential where
  deviceId : Text
  privateKey : Bytes
  certificateChain : Text
  serial : Bytes
  expiresAfterDays : UInt8
deriving DecidableEq

/-- `EnrollmentCredential::new`. -/
def EnrollmentCredential.new (deviceId : Text) (privateKey : Bytes) (certificateChain : Text)
    (serial : Bytes) (expiresAfterDays : UInt8) : Except AgentEnrollmentError EnrollmentCredential :=
  if deviceId = [] ∨ privateKey = [] ∨ certificateChain = [] ∨ serial = [] ∨
      expiresAfterDays ≠ 30 then .error .invalidResponse
  else .ok ⟨deviceId, privateKey, certificateChain, serial, expiresAfterDays⟩

/-- The operations of the enrollment on its store. -/
abbrev EnrollmentOp := Act Machine AgentEnrollmentError

namespace DpapiCredentialStore

/-- An operation of the store, every error of which is reported as the given one. -/
def reporting {α : Type} (error : AgentEnrollmentError) (p : CredentialOp α) : EnrollmentOp α :=
  Act.zoom id (fun m _ => m) (fun _ => error) p

/-- `load_credential`. -/
def loadCredential (platform : Platform) : EnrollmentOp EnrollmentCredential := do
  let credential ← reporting .credentialUnavailable (load platform)
  Act.ofExcept ((EnrollmentCredential.new credential.deviceId credential.privateKey
    (platform.fromUtf8Lossy credential.certificateChain) credential.serial
    credential.expiresAfterDays).mapError fun _ => .credentialUnavailable)

/-- `save_credential`. -/
def saveCredential (platform : Platform) (credential : EnrollmentCredential) :
    EnrollmentOp Unit := do
  let device ← Act.ofExcept ((DeviceCredential.new credential.deviceId credential.privateKey
    (utf8 credential.certificateChain) credential.serial credential.expiresAfterDays).mapError
      fun _ => AgentEnrollmentError.invalidResponse)
  reporting .credentialUnavailable (protect platform device)

end DpapiCredentialStore

/-! ### What can be loaded -/

/-- The file holds a blob that decodes to the credential. -/
def Machine.Decodes (m : Machine) (platform : Platform) (credential : DeviceCredential) : Prop :=
  ∃ blob, m.disk.fs.read? credentialPath = some blob ∧
    DpapiCredentialStore.decodeBlob platform blob = .ok credential

namespace DpapiCredentialStore

variable {platform : Platform} {m t : Machine} {credential : DeviceCredential}

theorem reporting_eq_ok {α : Type} {error : AgentEnrollmentError} {p : CredentialOp α} {a : α} :
    reporting error p m = .ok a t ↔ p m = .ok a t := by
  simp [reporting, zoom_eq_ok]

variable {blob : Bytes}

theorem decodeBlob_eq_ok : decodeBlob platform blob = .ok credential ↔ ∃ plain,
    platform.unprotectBytes blob = .ok plain ∧ DeviceCredential.decode plain = .ok credential := by
  simp only [decodeBlob, except_bind_eq_ok, except_mapError_eq_ok]

variable {error : IoErrorKind → CredentialError}

theorem readBlob_ok (h : readBlob error m = .ok blob t) :
    m.disk.fs.read? credentialPath = some blob ∧ t = m.withDisk m.disk.advance := by
  obtain ⟨d, hd, rfl⟩ := zoom_eq_ok.mp h
  rcases Disk.readFile_cases credentialPath m.disk with ⟨bytes, hbytes, hread⟩ | ⟨kind, hread⟩ |
    hread
  · cases hread.symm.trans hd
    exact ⟨hbytes, rfl⟩
  · cases hread.symm.trans hd
  · cases hread.symm.trans hd

variable {path : AclPath} {u : Unit}

theorem validateAcl_ok (h : validateAcl path m = .ok u t) :
    m.acls path = true ∧ t = m.withDisk m.disk.advance := by
  unfold validateAcl at h
  dsimp only at h
  split at h
  · split_ifs at h with hacl
    cases h
    exact ⟨hacl, rfl⟩
  · cases h
  · cases h

theorem enforceAcl_ok (h : enforceAcl path m = .ok u t) :
    t.disk = m.disk.advance ∧ t.acls = Function.update m.acls path true := by
  unfold enforceAcl at h
  dsimp only at h
  split at h
  · cases h
    exact ⟨rfl, rfl⟩
  · cases h
  · cases h

/-- Only the steps to come differ. -/
def SameStore (m t : Machine) : Prop := t.disk.fs = m.disk.fs ∧ t.acls = m.acls

namespace SameStore

theorem withDisk_advance (m : Machine) : SameStore m (m.withDisk m.disk.advance) := ⟨rfl, rfl⟩

theorem decodes (h : SameStore m t) : t.Decodes platform credential ↔
    m.Decodes platform credential := by
  unfold Machine.Decodes
  rw [h.1]

theorem aclsValid (h : SameStore m t) : t.AclsValid ↔ m.AclsValid := by
  unfold Machine.AclsValid
  rw [h.2]

end SameStore

/-- What `validate_protection` accepts decodes. -/
theorem validateProtection_ok {valid : Bool} (h : validateProtection platform m = .ok valid t) :
    SameStore m t ∧ ∃ credential, m.Decodes platform credential := by
  obtain ⟨blob, m₁, hread, h⟩ := bind_eq_ok.mp h
  obtain ⟨hblob, rfl⟩ := readBlob_ok hread
  obtain ⟨credential, m₂, hdecode, h⟩ := bind_eq_ok.mp h
  obtain ⟨hdecoded, rfl⟩ := ofExcept_eq_ok.mp hdecode
  obtain ⟨-, rfl⟩ := pure_eq_ok.mp h
  exact ⟨SameStore.withDisk_advance m, credential, blob, hblob, hdecoded⟩

theorem pathExists_zoom_ok {present : Bool}
    (h : Act.zoom Machine.disk Machine.withDisk error (Disk.pathExists credentialPath) m =
      .ok present t) : t = m.withDisk m.disk.advance := by
  obtain ⟨d, hd, rfl⟩ := zoom_eq_ok.mp h
  unfold Disk.pathExists at hd
  split at hd <;> cases hd <;> rfl

/-- What is loaded decodes, and both lists are in order. -/
theorem load_ok (h : load platform m = .ok credential t) :
    SameStore m t ∧ m.Decodes platform credential ∧ m.AclsValid := by
  obtain ⟨present, m₁, hexists, h⟩ := bind_eq_ok.mp h
  obtain rfl := pathExists_zoom_ok hexists
  obtain ⟨_, m₂, hfail, h⟩ := bind_eq_ok.mp h
  obtain ⟨-, rfl⟩ := failIf_eq_ok.mp hfail
  obtain ⟨_, m₃, hdirectory, h⟩ := bind_eq_ok.mp h
  obtain ⟨hdirectoryAcl, rfl⟩ := validateAcl_ok hdirectory
  obtain ⟨_, m₄, hfile, h⟩ := bind_eq_ok.mp h
  obtain ⟨hfileAcl, rfl⟩ := validateAcl_ok hfile
  obtain ⟨blob, m₅, hread, h⟩ := bind_eq_ok.mp h
  obtain ⟨hblob, rfl⟩ := readBlob_ok hread
  obtain ⟨hdecoded, rfl⟩ := ofExcept_eq_ok.mp h
  refine ⟨⟨rfl, rfl⟩, ⟨blob, hblob, hdecoded⟩, fun path => ?_⟩
  cases path with
  | directory => exact hdirectoryAcl
  | credential => exact hfileAcl

theorem withDisk_of_nil (hfates : m.disk.fates = []) : m.withDisk m.disk.advance = m := by
  rw [Disk.advance_of_nil hfates]
  rfl

theorem validateAcl_of_nil (hfates : m.disk.fates = [])
    (hacl : m.acls path = true) : validateAcl path m = .ok () m := by
  simp only [validateAcl, hfates, List.headD_nil, hacl, if_true, withDisk_of_nil hfates]

theorem readBlob_of_nil (hfates : m.disk.fates = [])
    (hblob : m.disk.fs.read? credentialPath = some blob) : readBlob error m = .ok blob m :=
  zoom_of_ok (Disk.readFile_of_nil hfates hblob)

/-- A credential that decodes, with both lists in order, is loaded when nothing goes wrong. -/
theorem load_of_decodes (hdecodes : m.Decodes platform credential) (hacls : m.AclsValid)
    (hfates : m.disk.fates = []) : load platform m = .ok credential m := by
  obtain ⟨blob, hblob, hdecoded⟩ := hdecodes
  have hpresent : m.disk.fs.present credentialPath = true := by
    obtain ⟨synced, hnode⟩ := Fs.read?_eq_some.mp hblob
    rw [Fs.present_eq (by decide), hnode]
    rfl
  have hexists : Act.zoom Machine.disk Machine.withDisk (fun _ => CredentialError.io)
      (Disk.pathExists credentialPath) m = .ok true m :=
    zoom_of_ok (hpresent ▸ Disk.pathExists_of_nil hfates)
  have hfail : (failIf (true = false) CredentialError.missing : CredentialOp Unit) m = .ok () m :=
    failIf_eq_ok.mpr ⟨nofun, rfl⟩
  rw [load, bind_of_ok hexists, bind_of_ok hfail,
    bind_of_ok (validateAcl_of_nil hfates (hacls .directory)),
    bind_of_ok (validateAcl_of_nil hfates (hacls .credential)),
    bind_of_ok (readBlob_of_nil hfates hblob), hdecoded, ofExcept_ok_apply]

/-- The fields of a device's credential are those of an enrollment's. -/
theorem enrollmentCredential_new (platform : Platform) (credential : DeviceCredential) :
    EnrollmentCredential.new credential.deviceId credential.privateKey
      (platform.fromUtf8Lossy credential.certificateChain) credential.serial
      credential.expiresAfterDays =
      .ok ⟨credential.deviceId, credential.privateKey,
        platform.fromUtf8Lossy credential.certificateChain, credential.serial,
        credential.expiresAfterDays⟩ := by
  have hchain := platform.fromUtf8Lossy_ne_nil _ credential.certificateChain_ne
  simp [EnrollmentCredential.new, credential.deviceId_ne, credential.privateKey_ne, hchain,
    credential.serial_ne, credential.expiresAfterDays_eq]

/-- A credential that decodes, with both lists in order, is loaded when nothing goes wrong. -/
theorem loadCredential_completes (hdecodes : m.Decodes platform credential)
    (hacls : m.AclsValid) (hfates : m.disk.fates = []) : (loadCredential platform).Completes
    (fun loaded t => loaded.serial = credential.serial ∧ t = m) m := by
  have hload : reporting .credentialUnavailable (load platform) m = .ok credential m :=
    reporting_eq_ok.mpr (load_of_decodes hdecodes hacls hfates)
  refine .bind_of_ok hload ?_
  rw [enrollmentCredential_new]
  exact .of_ok rfl ⟨rfl, rfl⟩

theorem loadCredential_ok {loaded : EnrollmentCredential}
    (h : loadCredential platform m = .ok loaded t) :
    SameStore m t ∧ ∃ credential, m.Decodes platform credential ∧ m.AclsValid := by
  obtain ⟨credential, m₁, hload, h⟩ := bind_eq_ok.mp h
  obtain ⟨hsame, hdecodes, hacls⟩ := load_ok (reporting_eq_ok.mp hload)
  obtain ⟨-, rfl⟩ := ofExcept_eq_ok.mp h
  exact ⟨hsame, credential, hdecodes, hacls⟩

/-- What `protect` leaves decodes, and both lists are in order: they are set after the rename, and
the file is read back after that. -/
theorem protect_ok (h : protect platform credential m = .ok u t) :
    (∃ validated, t.Decodes platform validated) ∧ t.AclsValid := by
  obtain ⟨_, _, -, h⟩ := bind_eq_ok.mp h
  obtain ⟨_, _, -, h⟩ := bind_eq_ok.mp h
  obtain ⟨_, _, -, h⟩ := bind_eq_ok.mp h
  obtain ⟨_, _, -, h⟩ := bind_eq_ok.mp h
  obtain ⟨_, _, -, h⟩ := bind_eq_ok.mp h
  obtain ⟨_, _, hdirectory, h⟩ := bind_eq_ok.mp h
  obtain ⟨-, hdirectoryAcl⟩ := enforceAcl_ok hdirectory
  obtain ⟨_, _, hfile, h⟩ := bind_eq_ok.mp h
  obtain ⟨-, hfileAcl⟩ := enforceAcl_ok hfile
  obtain ⟨blob, _, hread, h⟩ := bind_eq_ok.mp h
  obtain ⟨hblob, rfl⟩ := readBlob_ok hread
  obtain ⟨plain, _, hplain, h⟩ := bind_eq_ok.mp h
  obtain ⟨hunprotected, rfl⟩ := ofExcept_eq_ok.mp hplain
  obtain ⟨validated, _, hdecode, h⟩ := bind_eq_ok.mp h
  obtain ⟨hdecoded, rfl⟩ := ofExcept_eq_ok.mp hdecode
  obtain ⟨-, rfl⟩ := failIf_eq_ok.mp h
  refine ⟨⟨validated, blob, hblob, decodeBlob_eq_ok.mpr ⟨plain, hunprotected, hdecoded⟩⟩,
    fun path => ?_⟩
  cases path with
  | directory => simp [Machine.withDisk, hfileAcl, hdirectoryAcl]
  | credential => simp [Machine.withDisk, hfileAcl]

/-- A credential that was saved decodes, and both lists are in order. -/
theorem saveCredential_ok {saved : EnrollmentCredential}
    (h : saveCredential platform saved m = .ok u t) :
    (∃ validated, t.Decodes platform validated) ∧ t.AclsValid := by
  obtain ⟨device, _, -, h⟩ := bind_eq_ok.mp h
  exact protect_ok (reporting_eq_ok.mp h)

end DpapiCredentialStore

end Wdlp
