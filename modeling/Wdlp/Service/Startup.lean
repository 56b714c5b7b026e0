import Wdlp.Service.Credential

/-!
# The credential at the start of the service

When the service starts, `ensure_credential` accepts the credential file if `validate_protection`
does. Otherwise it needs a token: it reads the serial of the credential that is there, if it can be
loaded, and lets the coordinator enroll the device, which makes a key, asks the server for a
certificate and saves the new credential. The service then loads the credential for its client.

The first test decodes the file and the last one also checks the access-control lists.

## Main definitions

* `EnrollmentCoordinator.startup`, `enrollFresh` — an enrollment.
* `ensureCredential` — the credential at the start.
* `StartsUsable` — the credential can be loaded after a start that succeeded, and a damaged one is
  replaced under its serial.

## Main results

* `startup_leaves_loadable_iff` — a start is usable exactly when the file does not decode or its
  lists are in order.
-/

namespace Wdlp

open CrashSafe Act DpapiCredentialStore

/-! ### The enrollment -/

/-- `EnrollmentMode`. -/
inductive EnrollmentMode where
  | initial
  | replacement
  | existing
deriving DecidableEq

/-- `From<ClientError>`. -/
def AgentEnrollmentError.ofClient : ClientError → AgentEnrollmentError
  | .invalidServerUrl | .invalidTrustAnchor | .tlsConfiguration | .networkUnavailable =>
    .transportDenied
  | .requestDenied | .configurationFetchFailed => .transportDenied
  | .invalidResponse => .invalidResponse
  | .profileRejected => .profileRejected
  | .missingDeviceCredential => .credentialUnavailable

/-- A new key and the request for its certificate, in their text forms. -/
structure KeyPair where
  privateKeyPem : Bytes
  csrPem : Text

namespace EnrollmentCoordinator

variable (platform : Platform) (client : AgentHttpClient) (generateKey : Option KeyPair)

/-- `AgentHttpClient::enroll`: the request is sent if a TLS client can be made. -/
def enroll (deviceId : DeviceId) (token csrPem : Text) (priorSerial : Option Bytes) :
    EnrollmentOp ValidatedDeviceIdentity := do
  Act.ofExcept (client.buildClient.mapError AgentEnrollmentError.ofClient)
  let body := AgentHttpClient.enrollmentBody deviceId token csrPem priorSerial
  modify fun m => { m with requests := m.requests ++ [body] }
  Act.ofExcept ((client.acceptEnrollment deviceId (client.answer body)).mapError
    AgentEnrollmentError.ofClient)

/-- `enroll_fresh`. -/
def enrollFresh (deviceId : DeviceId) (token : Text) (priorSerial : Option Bytes) :
    EnrollmentOp ValidatedDeviceIdentity := do
  let key ← Act.ofOption generateKey .csrGeneration
  -- `EnrollmentRequestV1::new` checks the token.
  failIf (¬ IsField token) AgentEnrollmentError.transportDenied
  let identity ← enroll client deviceId token key.csrPem priorSerial
  let credential ← Act.ofExcept (EnrollmentCredential.new identity.deviceId key.privateKeyPem
    identity.certificateChainPem identity.serial 30)
  saveCredential platform credential
  return identity

/-- `startup`. -/
def startup (deviceId : DeviceId) (token : Text) (priorSerial : Option Bytes) :
    EnrollmentOp EnrollmentMode := do
  match ← Act.caught (loadCredential platform) with
  | .ok _ => return .existing
  | .error _ =>
    let _ ← enrollFresh platform client generateKey deviceId token priorSerial
    return if priorSerial.isSome then .replacement else .initial

end EnrollmentCoordinator

/-! ### The start of the service -/

/-- The parts of the configuration of the service that the start reads. -/
structure ServiceConfig where
  deviceId : DeviceId
  enrollmentToken : Option Text

/-- `ensure_credential`. -/
def ensureCredential (platform : Platform) (client : AgentHttpClient)
    (generateKey : Option KeyPair) (config : ServiceConfig) : EnrollmentOp EnrollmentMode := do
  match ← Act.caught (validateProtection platform) with
  | .ok true => return .existing
  | _ =>
    let token ← Act.ofOption config.enrollmentToken AgentEnrollmentError.credentialUnavailable
    let loaded ← Act.caught (load platform)
    let priorSerial := loaded.toOption.map DeviceCredential.serial
    EnrollmentCoordinator.startup platform client generateKey config.deviceId token priorSerial

/-! ### A usable start -/

/-- For every configuration, server, key and fate of the steps: after a start that succeeds the
credential can be loaded; and if a credential that decodes has a list that is not in order, the
start sends a request that names its serial, whenever a token is there, a key can be made, a
connection can be set up and no step goes wrong. -/
def StartsUsable (platform : Platform) (m : Machine) : Prop :=
  ∀ (client : AgentHttpClient) (generateKey : Option KeyPair) (config : ServiceConfig),
    (∀ fates mode t,
      ensureCredential platform client generateKey config (m.withFates fates) = .ok mode t →
      (loadCredential platform).Completes (fun _ _ => True) (t.withFates [])) ∧
    ∀ credential, m.Decodes platform credential → ¬ m.AclsValid →
      generateKey.isSome → client.buildClient = .ok () →
      (∃ token, config.enrollmentToken = some token ∧ IsField token) →
      ∃ request ∈
        (ensureCredential platform client generateKey config (m.withFates [])).state.requests,
        request ∉ m.requests ∧ request.priorSerial = some (hexEncode credential.serial)

section Start

variable {platform : Platform} {client : AgentHttpClient} {generateKey : Option KeyPair}
variable {config : ServiceConfig} {m t : Machine}

/-- The file decodes, and both lists are in order. -/
def Loadable (platform : Platform) (m : Machine) : Prop :=
  (∃ credential, m.Decodes platform credential) ∧ m.AclsValid

theorem Loadable.of_sameStore (h : Loadable platform m) (hsame : SameStore m t) :
    Loadable platform t :=
  ⟨h.1.imp fun _ => hsame.decodes.mpr, hsame.aclsValid.mpr h.2⟩

theorem sameStore_withFates (m : Machine) (fates : List Fate) : SameStore m (m.withFates fates) :=
  ⟨rfl, rfl⟩

theorem Loadable.completes (h : Loadable platform m) :
    (loadCredential platform).Completes (fun _ _ => True) (m.withFates []) := by
  obtain ⟨⟨credential, hdecodes⟩, hacls⟩ := h.of_sameStore (sameStore_withFates m [])
  exact (loadCredential_completes hdecodes hacls rfl).mono fun _ _ _ => trivial

variable {deviceId : DeviceId} {priorSerial : Option Bytes}

theorem enrollFresh_ok {token : Text} {identity : ValidatedDeviceIdentity}
    (h : EnrollmentCoordinator.enrollFresh platform client generateKey deviceId token priorSerial m
      = .ok identity t) : Loadable platform t := by
  obtain ⟨key, _, -, h⟩ := bind_eq_ok.mp h
  obtain ⟨_, _, -, h⟩ := bind_eq_ok.mp h
  obtain ⟨found, _, -, h⟩ := bind_eq_ok.mp h
  obtain ⟨credential, _, -, h⟩ := bind_eq_ok.mp h
  obtain ⟨_, _, hsave, h⟩ := bind_eq_ok.mp h
  obtain ⟨-, rfl⟩ := pure_eq_ok.mp h
  exact saveCredential_ok hsave

variable {mode : EnrollmentMode}

/-- After a start of the coordinator that succeeds the credential can be loaded: it was loaded, or
it has just been saved. -/
theorem startup_ok {token : Text}
    (h : EnrollmentCoordinator.startup platform client generateKey deviceId token priorSerial m =
      .ok mode t) : Loadable platform t := by
  obtain ⟨loaded, m₁, hload, h⟩ := bind_eq_ok.mp h
  rcases caught_eq_ok.mp hload with ⟨credential, rfl, hok⟩ | ⟨error, rfl, -⟩
  · obtain ⟨-, rfl⟩ := pure_eq_ok.mp h
    obtain ⟨hsame, found, hdecodes, hacls⟩ := loadCredential_ok hok
    exact Loadable.of_sameStore ⟨⟨found, hdecodes⟩, hacls⟩ hsame
  · obtain ⟨identity, _, hfresh, h⟩ := bind_eq_ok.mp h
    obtain ⟨-, rfl⟩ := pure_eq_ok.mp h
    exact enrollFresh_ok hfresh

theorem ensureCredential_ok (hacls : ∀ credential, m.Decodes platform credential → m.AclsValid)
    (h : ensureCredential platform client generateKey config m = .ok mode t) :
    Loadable platform t := by
  obtain ⟨valid, m₁, hvalid, h⟩ := bind_eq_ok.mp h
  split at h
  · rcases caught_eq_ok.mp hvalid with ⟨_, hsome, hok⟩ | ⟨_, hsome, -⟩
    · obtain ⟨-, rfl⟩ := pure_eq_ok.mp h
      obtain ⟨hsame, credential, hdecodes⟩ := validateProtection_ok hok
      exact Loadable.of_sameStore ⟨⟨credential, hdecodes⟩, hacls credential hdecodes⟩ hsame
    · cases hsome
  · obtain ⟨token, _, -, h⟩ := bind_eq_ok.mp h
    obtain ⟨loaded, _, -, h⟩ := bind_eq_ok.mp h
    exact startup_ok h

/-- A file that decodes is taken for the credential of the device, whatever its lists are. -/
theorem ensureCredential_of_decodes {credential : DeviceCredential}
    (hdecodes : m.Decodes platform credential) (hfates : m.disk.fates = []) :
    ensureCredential platform client generateKey config m = .ok .existing m := by
  obtain ⟨blob, hblob, hdecoded⟩ := hdecodes
  have hvalid : validateProtection platform m = .ok true m := by
    rw [validateProtection, bind_of_ok (readBlob_of_nil hfates hblob), hdecoded,
      bind_of_ok (ofExcept_ok_apply m credential), pure_apply,
      decide_eq_true credential.privateKey_ne]
  exact bind_of_ok (caught_of_ok hvalid)

end Start

/-! ### Sample machines -/

namespace StartupSample

/-- A server that cannot be reached. -/
def client : AgentHttpClient where
  now := 0
  buildClient := .ok ()
  credentialChain _ := none
  certs _ := none
  answer _ := .unreachable

def config : ServiceConfig := ⟨⟨"pc01".toList, by decide, by decide⟩, some "token".toList⟩

def credential : DeviceCredential :=
  ⟨"pc01".toList, [1], [2], [3], 30, by decide, by decide, by decide, by decide, rfl⟩

/-- Blobs are the bytes themselves, and every byte is a character. -/
def platform : Platform where
  protectBytes bytes := .ok bytes
  unprotectBytes bytes := .ok bytes
  fromUtf8Lossy bytes := bytes.map fun byte => Char.ofNat byte.toNat
  fromUtf8Lossy_ne_nil bytes h := by simpa using h

/-- The credential is there, and the list of its file is not the one that the service sets. -/
def damaged : Machine where
  disk := ⟨(∅ : Fs).insert credentialPath (.file credential.encode true), []⟩
  acls path := decide (path = .directory)
  createdAcl := false

end StartupSample

/-- A start is usable exactly when a file that decodes has its lists in order. -/
theorem startup_leaves_loadable_iff (platform : Platform) (m : Machine) :
    StartsUsable platform m ↔ ∀ credential, m.Decodes platform credential → m.AclsValid := by
  constructor
  · intro husable credential hdecodes
    -- The start takes the file as it is; that it can be loaded then says what its lists are.
    obtain ⟨loaded, t, hload, -⟩ :=
      (husable StartupSample.client none StartupSample.config).1 [] .existing _
        (ensureCredential_of_decodes ((sameStore_withFates m []).decodes.mpr hdecodes) rfl)
    obtain ⟨-, -, -, hacls⟩ := loadCredential_ok hload
    exact hacls
  · intro hacls client generateKey config
    refine ⟨fun fates mode t hok => ?_, fun credential hdecodes hdamaged => ?_⟩
    · refine (ensureCredential_ok (fun credential hdecodes => ?_) hok).completes
      exact (sameStore_withFates m fates).aclsValid.mpr
        (hacls credential ((sameStore_withFates m fates).decodes.mp hdecodes))
    · exact absurd (hacls credential hdecodes) hdamaged

/-- The credential decodes and the list of its file is damaged: the start reports it as existing,
sends no request although it has a token, and the credential cannot be loaded. -/
theorem damaged_credential_existing :
    (ensureCredential StartupSample.platform StartupSample.client (some ⟨[1], ['c']⟩)
        StartupSample.config StartupSample.damaged).result? = some (.ok .existing) ∧
      (ensureCredential StartupSample.platform StartupSample.client (some ⟨[1], ['c']⟩)
        StartupSample.config StartupSample.damaged).state.requests = [] ∧
      (load StartupSample.platform StartupSample.damaged).result? = some (.error .aclInvalid) := by
  decide +kernel

end Wdlp
