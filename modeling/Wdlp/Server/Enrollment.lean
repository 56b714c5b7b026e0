import Wdlp.Server.Authority

/-!
# Enrollment and the directory

`EnrollmentService::enroll` asks two directory controllers for the computer account with the
device's name, and then runs `consume_and_activate` with the certificate issuer as its callback. The
identity that the directory corroborates has an object GUID and an object SID, and so has the
authority row under which the credential is issued; but the service drops the directory's identity,
and nothing compares the two.

What a controller can answer is any result of `query_dc`: an error, or an identity whose GUID and
SID have the lengths of such values and whose DNS name is the one asked for. Upper and lower case of
DNS names are compared with a function that is a parameter. The certificate library is one, too: it
accepts or refuses a signing request, and makes the text of a certificate chain.

## Main definitions

* `LdapDirectoryVerifier.corroborate`, `corroborateComputer` — the two controllers must agree.
* `RcgenDeviceCertificateIssuer.issueFromCsr` — the issuer.
* `EnrollmentService.enroll` — an enrollment, without other transactions.
* `BoundToDirectory` — whatever the controllers answer, a success means that the identity is the
  provisioned one.

## Main results

* `EnrollmentService.enroll_eq` — a corroborated identity plays no role in what follows.
* `bound_to_directory_iff` — an enrollment is bound to the provisioned identity only if it is
  refused for another reason.
-/

namespace Wdlp

open CrashSafe

/-! ### The directory -/

/-- `VerifiedComputerIdentity`. -/
structure VerifiedComputerIdentity where
  objectGuid : Bytes
  objectSid : Bytes
  dnsName : Text
  domain : Text
  enabled : Bool
deriving DecidableEq

/-- `DirectoryError`. -/
inductive DirectoryError where
  | invalidConfiguration
  | unavailable
  | notFound
  | disabled
  | disagreement
deriving DecidableEq

/-- What a controller answers to `query_dc`. -/
abbrev DirectoryAnswer := Except DirectoryError VerifiedComputerIdentity

/-- The checks of `query_dc`: the lengths of the attributes and the name. -/
def IsAnswer (lowercase : Text → Text) (computerDnsName : Text) (answer : DirectoryAnswer) : Prop :=
  ∀ identity, answer = .ok identity → identity.objectGuid.length = 16 ∧
    (8 ≤ identity.objectSid.length ∧ identity.objectSid.length ≤ 68) ∧ identity.dnsName ≠ [] ∧
    lowercase identity.dnsName = lowercase computerDnsName

/-- `LdapDirectoryVerifier::corroborate`. -/
def LdapDirectoryVerifier.corroborate (primary secondary : DirectoryAnswer) : DirectoryAnswer := do
  let primary ← primary
  let secondary ← secondary
  if !primary.enabled || !secondary.enabled then throw .disabled
  else if primary ≠ secondary then throw .disagreement
  else return primary

/-- `corroborate_computer`, with the answers of the two controllers. -/
def corroborateComputer (computerDnsName : Text) (primary secondary : DirectoryAnswer) :
    DirectoryAnswer :=
  if computerDnsName = [] ∨ '.' ∉ computerDnsName then .error .notFound
  else LdapDirectoryVerifier.corroborate primary secondary

theorem corroborateComputer_agreed {computerDnsName : Text} (hdot : '.' ∈ computerDnsName)
    {identity : VerifiedComputerIdentity} (henabled : identity.enabled = true) :
    corroborateComputer computerDnsName (.ok identity) (.ok identity) = .ok identity := by
  have hne : computerDnsName ≠ [] := List.ne_nil_of_mem hdot
  simp [corroborateComputer, LdapDirectoryVerifier.corroborate, hdot, hne, henabled, bind,
    Except.bind, pure, Except.pure]

/-! ### The issuer -/

/-- `CertificateError`. -/
inductive CertificateError where
  | invalidConfiguration
  | invalidCsr
  | issuanceFailed
deriving DecidableEq

/-- `IssuedDeviceCredential`. -/
structure IssuedDeviceCredential where
  certificateChainPem : Text
  serial : Bytes
  expiresAfterDays : ℕ
deriving DecidableEq

/-- The certificate library with the files of the issuer: from a device, a signing request and a
serial it makes the text of a chain, or refuses. -/
abbrev CertificateLibrary := Text → Text → Bytes → Except CertificateError Text

/-- `RcgenDeviceCertificateIssuer::issue_from_csr`. -/
def RcgenDeviceCertificateIssuer.issueFromCsr (library : CertificateLibrary)
    (deviceUuid csrPem : Text) (serial : Bytes) : Except CertificateError IssuedDeviceCredential :=
  if deviceUuid = [] ∨ serial = [] ∨ 20 < serial.length then .error .invalidCsr
  else do
    let certificateChainPem ← library deviceUuid csrPem serial
    return ⟨certificateChainPem, serial, 30⟩

/-! ### The service -/

/-- `EnrollmentError`. -/
inductive EnrollmentError where
  | denied
  | alreadyUsed
  | integrityFailure
deriving DecidableEq

/-- `EnrollmentSubmission`, with what its constructor checks. -/
structure EnrollmentSubmission where
  deviceId : Text
  token : Text
  csrPem : Text
  priorSerial : Option Bytes
  length_deviceId : deviceId ≠ [] ∧ (utf8 deviceId).length ≤ 128
  length_token : token ≠ [] ∧ (utf8 token).length ≤ 512
  length_csrPem : csrPem ≠ [] ∧ (utf8 csrPem).length ≤ 65536
  isSerial_priorSerial : ∀ serial ∈ priorSerial, IsSerial serial

/-- How a directory error is reported. -/
def EnrollmentError.ofDirectory : DirectoryError → EnrollmentError
  | .invalidConfiguration => .integrityFailure
  | .unavailable => .integrityFailure
  | .notFound => .denied
  | .disabled => .denied
  | .disagreement => .denied

/-- How an error of the repository is reported. -/
def EnrollmentError.ofRepository : RepositoryError → EnrollmentError
  | .denied => .denied
  | .unavailable => .integrityFailure

/-- What is given to an enrollment besides the directory: the hash function, the certificate
library, the serial that is drawn and the time. -/
structure EnrollmentContext where
  sha256 : Bytes → Digest
  library : CertificateLibrary
  newSerial : Bytes
  time : ℕ

namespace EnrollmentService

/-- The callback: a certificate is issued, and the digest of its chain computed. -/
def issue (context : EnrollmentContext) (submission : EnrollmentSubmission) (serial : Bytes) :
    Except RepositoryError (IssuedDeviceCredential × Digest) :=
  match RcgenDeviceCertificateIssuer.issueFromCsr context.library submission.deviceId
      submission.csrPem serial with
  | .error _ => .error .denied
  | .ok issued => .ok (issued, context.sha256 (utf8 issued.certificateChainPem))

/-- The transaction of an enrollment. -/
def transaction (context : EnrollmentContext) (submission : EnrollmentSubmission) :
    PgAuthorityRepository.Transactional IssuedDeviceCredential :=
  PgAuthorityRepository.consumeAndActivate context.sha256 submission.deviceId submission.token
    submission.priorSerial (issue context submission) context.newSerial context.time

/-- `EnrollmentService::enroll`: the credential and the tables afterwards, or an error that leaves
them as they are. -/
def enroll (context : EnrollmentContext) (primary secondary : DirectoryAnswer)
    (submission : EnrollmentSubmission) (db : Database) :
    Except EnrollmentError (IssuedDeviceCredential × Database) :=
  match corroborateComputer submission.deviceId primary secondary with
  | .error error => .error (.ofDirectory error)
  | .ok _ =>
    match (transaction context submission).exec db with
    | .error error => .error (.ofRepository error)
    | .ok result => .ok result

variable {context : EnrollmentContext} {submission : EnrollmentSubmission}

/-- Which identity the directory corroborates plays no role for what follows. -/
theorem enroll_eq {primary secondary : DirectoryAnswer} {identity : VerifiedComputerIdentity}
    (h : corroborateComputer submission.deviceId primary secondary = .ok identity) (db : Database) :
    enroll context primary secondary submission db =
      match (transaction context submission).exec db with
      | .error error => .error (.ofRepository error) | .ok result => .ok result := by
  rw [enroll, h]

/-- A transaction that succeeds has found the row of its device. -/
theorem exists_row_of_exec {db : Database} {result : IssuedDeviceCredential × Database}
    (h : (transaction context submission).exec db = .ok result) :
    ∃ row, db.enrollmentAuthority[submission.deviceId]? = some row := by
  obtain ⟨found, middle, hselect, hrest⟩ := Program.exec_bind_eq_ok.mp h
  cases hrow : db.enrollmentAuthority[submission.deviceId]? with
  | some row => exact ⟨row, rfl⟩
  | none =>
    simp only [PgAuthorityRepository.selectAuthority, Program.exec, hrow, Option.filter_none,
      Except.ok.injEq, Prod.mk.injEq] at hselect
    obtain ⟨rfl, rfl⟩ := hselect
    simp [Program.exec] at hrest

end EnrollmentService

/-- Whatever the two controllers answer, the enrollment succeeds only if the identity that they
corroborate has the object GUID and SID of the authority row. -/
def BoundToDirectory (lowercase : Text → Text) (context : EnrollmentContext)
    (submission : EnrollmentSubmission) (db : Database) : Prop :=
  ∀ primary secondary result, IsAnswer lowercase submission.deviceId primary →
    IsAnswer lowercase submission.deviceId secondary →
    EnrollmentService.enroll context primary secondary submission db = .ok result →
    ∃ identity row, corroborateComputer submission.deviceId primary secondary = .ok identity ∧
      db.enrollmentAuthority[submission.deviceId]? = some row ∧
      identity.objectGuid = row.adObjectGuid ∧ identity.objectSid = row.adObjectSid

/-- For every state of the database and every submission, the enrollment is bound to the provisioned
identity exactly when it cannot succeed at all: the name is not that of a computer, or the
transaction refuses. -/
theorem bound_to_directory_iff (lowercase : Text → Text) (context : EnrollmentContext)
    (submission : EnrollmentSubmission) (db : Database) :
    BoundToDirectory lowercase context submission db ↔
      '.' ∉ submission.deviceId ∨
        ∃ error, (EnrollmentService.transaction context submission).exec db = .error error := by
  constructor
  · intro hbound
    by_contra hnot
    simp only [not_or, not_not, not_exists] at hnot
    obtain ⟨hdot, hexec⟩ := hnot
    obtain ⟨result, hresult⟩ : ∃ result,
        (EnrollmentService.transaction context submission).exec db = .ok result := by
      cases hcase : (EnrollmentService.transaction context submission).exec db with
      | error error => exact absurd hcase (hexec error)
      | ok result => exact ⟨result, rfl⟩
    obtain ⟨row, hrow⟩ := EnrollmentService.exists_row_of_exec hresult
    -- An account with the name and another GUID.
    obtain ⟨guid, hlength, hguid⟩ : ∃ guid : Bytes, guid.length = 16 ∧ guid ≠ row.adObjectGuid := by
      by_cases hzero : List.replicate 16 0 = row.adObjectGuid
      · exact ⟨List.replicate 16 1, by simp, fun heq => absurd (heq.trans hzero.symm) (by decide)⟩
      · exact ⟨List.replicate 16 0, by simp, hzero⟩
    let identity : VerifiedComputerIdentity :=
      ⟨guid, List.replicate 8 0, submission.deviceId, [], true⟩
    have hanswer : IsAnswer lowercase submission.deviceId (.ok identity) := by
      intro other hother
      obtain rfl := Except.ok.inj hother
      exact ⟨hlength, by simp [identity], submission.length_deviceId.1, rfl⟩
    have hagreed : corroborateComputer submission.deviceId (.ok identity) (.ok identity) =
        .ok identity := corroborateComputer_agreed hdot rfl
    have henroll : EnrollmentService.enroll context (.ok identity) (.ok identity) submission db =
        .ok result := by
      rw [EnrollmentService.enroll_eq hagreed, hresult]
    obtain ⟨other, row', hother, hrow', hsame, -⟩ := hbound _ _ _ hanswer hanswer henroll
    obtain rfl := Except.ok.inj (hagreed.symm.trans hother)
    obtain rfl := Option.some.inj (hrow.symm.trans hrow')
    exact hguid hsame
  · rintro (hdot | ⟨error, herror⟩) primary secondary result _ _ henroll
    · simp [EnrollmentService.enroll, corroborateComputer, hdot] at henroll
    · unfold EnrollmentService.enroll at henroll
      rw [herror] at henroll
      split at henroll <;> simp at henroll

/-! ### A computer account that was recreated -/

namespace AuthoritySample

/-- The submission of the sample device with its token. -/
def submission : EnrollmentSubmission where
  deviceId := device
  token := token
  csrPem := "request".toList
  priorSerial := none
  length_deviceId := by decide
  length_token := by decide
  length_csrPem := by decide
  isSerial_priorSerial := by simp

def context : EnrollmentContext := ⟨digest, fun _ _ _ => .ok "chain".toList, serial, 5⟩

/-- An enabled account with the name of the device. -/
def account (objectGuid : Bytes) : VerifiedComputerIdentity :=
  ⟨objectGuid, List.replicate 16 2, device, "LAB".toList, true⟩

/-- The enrollment of the device after its provisioning, with such an account in the directory. -/
def enrollment (objectGuid : Bytes) :
    Except EnrollmentError (IssuedDeviceCredential × Database) :=
  match (PgAuthorityRepository.provision digest request token 0).exec {} with
  | .error error => .error (.ofRepository error)
  | .ok (_, db) => EnrollmentService.enroll context (.ok (account objectGuid))
      (.ok (account objectGuid)) submission db

end AuthoritySample

/-- The device was provisioned with one object GUID, and is enrolled while both controllers answer
with an account of another. -/
theorem recreated_account_enrolled :
    AuthoritySample.request.adObjectGuid = List.replicate 16 1 ∧
      IsAnswer id AuthoritySample.device (.ok (AuthoritySample.account (List.replicate 16 9))) ∧
      (AuthoritySample.enrollment (List.replicate 16 9)).isOk = true := by
  refine ⟨rfl, fun identity hidentity => ?_, by decide +kernel⟩
  obtain rfl := Except.ok.inj hidentity
  decide

end Wdlp
