import Wdlp.Service.Replacement

/-!
# What an enrolled certificate is good for

An enrollment returns a chain of certificates. `validate_device_chain` checks that the second one is
an authority that has signed the first and itself, and that a later one is a copy of a pinned root;
it does not ask how the authority and the root are related. `enroll_fresh` stores the chain with the
key it has made; neither function asks whether the leaf names that key.

Parsing, signatures and the keys of certificates and of private keys are parameters.

## Main definitions

* `X509`, `X509Library`, `validateCertificates` — the whole of `validate_device_chain`.
* `X509Library.Anchored` — signatures lead to the key of a pinned root.
* `StoredKeyMatches`, `AnswersWithKey` — the stored leaf, and the leaf of the answer, name a key.

## Main results

* `accepted_chain_anchored_iff` — when an accepted leaf is anchored.
* `enrolled_key_matches_iff` — the stored leaf names the stored key exactly when the leaf of the
  answer does.
-/

namespace Wdlp

open CrashSafe Act

/-! ### Anchors -/

/-- A certificate with its names and its key. -/
structure X509 (Key Name : Type) extends Certificate where
  subject : Name
  issuer : Name
  publicKey : Key

/-- The parser of certificates, and which keys verify which signatures. -/
structure X509Library (Key Name : Type) where
  parse : Bytes → Option (X509 Key Name)
  verifySignature : X509 Key Name → Key → Bool

section Anchors

variable {Key Name : Type} [DecidableEq Name] (library : X509Library Key Name)

/-- `validate_device_chain`, from the certificates of the answer and the pinned roots on. The checks
on the leaf are those of `validateDeviceChain`. -/
def validateCertificates (now : ℕ) (deviceId : DeviceId) (pem : Text) (certs roots : List Bytes) :
    Except ClientError ValidatedDeviceIdentity := do
  failIf (certs = []) ClientError.invalidResponse
  let leaf ← (certs.head?.bind library.parse).elim (.error .profileRejected) .ok
  let identity ← validateDeviceChain now deviceId ⟨pem, leaf.toCertificate, true⟩
  failIf (roots = []) ClientError.invalidTrustAnchor
  let issuer ← (certs[1]?.bind library.parse).elim (.error .profileRejected) .ok
  failIf (issuer.isCa = false ∨ leaf.issuer ≠ issuer.subject) ClientError.profileRejected
  failIf (library.verifySignature leaf issuer.publicKey = false) ClientError.profileRejected
  failIf (library.verifySignature issuer issuer.publicKey = false) ClientError.profileRejected
  failIf (¬ ∃ returned ∈ certs.drop 2, returned ∈ roots) ClientError.profileRejected
  return identity

/-- The key is that of a pinned root. -/
def X509Library.Pinned (roots : List Bytes) (key : Key) : Prop :=
  ∃ der ∈ roots, ∃ root, library.parse der = some root ∧ root.publicKey = key

/-- The second certificate has signed the first. -/
def X509Library.SignedBy (c d : X509 Key Name) : Prop :=
  library.verifySignature c d.publicKey = true

/-- A chain of valid signatures leads to a certificate whose key is that of a pinned root. -/
def X509Library.Anchored (roots : List Bytes) (c : X509 Key Name) : Prop :=
  ∃ d, Relation.ReflTransGen library.SignedBy c d ∧ library.Pinned roots d.publicKey

variable {library} {now : ℕ} {deviceId : DeviceId} {pem : Text} {certs roots : List Bytes}
  {identity : ValidatedDeviceIdentity}

/-- What an accepted chain consists of. -/
theorem validateCertificates_eq_ok
    (h : validateCertificates library now deviceId pem certs roots = .ok identity) :
    ∃ leaf issuer, certs.head?.bind library.parse = some leaf ∧
      certs[1]?.bind library.parse = some issuer ∧ library.SignedBy leaf issuer := by
  simp only [validateCertificates, except_bind_eq_ok, except_failIf_eq_ok] at h
  obtain ⟨_, -, leaf, hleaf, _, -, _, -, issuer, hissuer, _, -, _, hsigned, -⟩ := h
  have hsome : ∀ {x : Option (X509 Key Name)} {c : X509 Key Name},
      x.elim (.error ClientError.profileRejected) Except.ok = .ok c → x = some c := by
    intro x c hx
    cases x with
    | none => cases hx
    | some a => exact congrArg some (Except.ok.inj hx)
  exact ⟨leaf, issuer, hsome hleaf, hsome hissuer, Bool.eq_true_of_not_eq_false hsigned⟩

end Anchors

namespace TrustSample

/-- The certificate with a number: its name and its key are that number, and the first is a leaf that
the second has issued. -/
def certificate (n : ℕ) : X509 ℕ ℕ where
  isCa := n ≠ 1
  notBefore := 0
  notAfter := 86400
  keyUsage := some true
  extendedKeyUsage := some true
  subjectAlternativeName := some ["urn:dlp:device:pc01".toList]
  rawSerial := [7]
  subject := n
  issuer := if n = 1 then 2 else n
  publicKey := n

/-- Whatever has the third key was signed with it, and everything else with the second. -/
def library : X509Library ℕ ℕ where
  parse der := der.head?.map fun n => certificate n.toNat
  verifySignature c key := key = if c.publicKey = 3 then 3 else 2

end TrustSample

section Keys

variable {Key : Type} (leafKey : Text → Key) (publicKey : Bytes → Key)

/-- The new key is stored, with a chain whose leaf names its public key. -/
def StoredKeyMatches (platform : Platform) (key : KeyPair) (t : Machine) : Prop :=
  ∃ credential chain, t.Decodes platform credential ∧ credential.privateKey = key.privateKeyPem ∧
    credential.certificateChain = utf8 chain ∧ leafKey chain = publicKey key.privateKeyPem

/-- The answer to a request holds a chain whose leaf names the public key. -/
def AnswersWithKey (client : AgentHttpClient) (key : KeyPair) (body : EnrollmentRequestBody) :
    Prop :=
  ∃ bytes chain, client.answer body = .body bytes ∧ client.credentialChain bytes = some chain ∧
    leafKey chain = publicKey key.privateKeyPem

variable {leafKey} {publicKey} {platform : Platform} {client : AgentHttpClient}
  {generateKey : Option KeyPair} {deviceId : DeviceId} {token : Text} {priorSerial : Option Bytes}
  {m t : Machine} {identity : ValidatedDeviceIdentity}

theorem acceptEnrollment_eq_ok {response : Response}
    (h : client.acceptEnrollment deviceId response = .ok identity) : ∃ bytes,
    response = .body bytes ∧ client.credentialChain bytes = some identity.certificateChainPem := by
  have hread : ∀ {pem chain}, client.readDeviceChain pem = .ok chain → chain.pem = pem := by
    unfold AgentHttpClient.readDeviceChain
    grind
  have hvalid : ∀ {chain}, validateDeviceChain client.now deviceId chain = .ok identity →
      identity.certificateChainPem = chain.pem := by
    unfold validateDeviceChain
    grind
  cases response with
  | body bytes =>
    rw [AgentHttpClient.acceptEnrollment] at h
    split_ifs at h
    cases hchain : client.credentialChain bytes with
    | none =>
      rw [hchain] at h
      cases h
    | some pem =>
      rw [hchain] at h
      obtain ⟨chain, hpem, h⟩ := except_bind_eq_ok.mp h
      exact ⟨bytes, rfl, by rw [hvalid h, hread hpem, hchain]⟩
  | unreachable => cases h
  | refused => cases h
  | interrupted => cases h

/-- What an enrollment stores: the new key, and the chain of the answer. -/
theorem enrollFresh_stores (hrestores : platform.Restores)
    (h : EnrollmentCoordinator.enrollFresh platform client generateKey deviceId token priorSerial m
      = .ok identity t) : ∃ key bytes chain credential, generateKey = some key ∧
      client.answer (AgentHttpClient.enrollmentBody deviceId token key.csrPem priorSerial) =
        .body bytes ∧ client.credentialChain bytes = some chain ∧
      t.Decodes platform credential ∧ credential.privateKey = key.privateKeyPem ∧
      credential.certificateChain = utf8 chain := by
  obtain ⟨key, _, hkey, h⟩ := bind_eq_ok.mp h
  obtain ⟨_, _, -, h⟩ := bind_eq_ok.mp h
  obtain ⟨found, _, henroll, h⟩ := bind_eq_ok.mp h
  obtain ⟨credential, _, hnew, h⟩ := bind_eq_ok.mp h
  obtain ⟨_, _, hsave, h⟩ := bind_eq_ok.mp h
  obtain ⟨-, rfl⟩ := pure_eq_ok.mp h
  -- the answer
  obtain ⟨_, _, -, henroll⟩ := bind_eq_ok.mp henroll
  obtain ⟨_, _, -, henroll⟩ := bind_eq_ok.mp henroll
  obtain ⟨haccepted, -⟩ := ofExcept_eq_ok.mp henroll
  obtain ⟨bytes, hbody, hchain⟩ := acceptEnrollment_eq_ok (except_mapError_eq_ok.mp haccepted)
  -- the credential
  obtain ⟨hnew, -⟩ := ofExcept_eq_ok.mp hnew
  obtain ⟨device, _, hdevice, hprotect⟩ := bind_eq_ok.mp hsave
  obtain ⟨hdevice, -⟩ := ofExcept_eq_ok.mp hdevice
  obtain ⟨-, hprivate, hcertificates, -, -⟩ :=
    DeviceCredential.new_eq_ok.mp (except_mapError_eq_ok.mp hdevice)
  unfold EnrollmentCredential.new at hnew
  split_ifs at hnew
  cases hnew
  exact ⟨key, bytes, _, device, (ofOption_eq_ok.mp hkey).1, hbody, hchain,
    DpapiCredentialStore.protect_decodes hrestores
      (DpapiCredentialStore.reporting_eq_ok.mp hprotect), hprivate.symm, hcertificates.symm⟩

/-- After an enrollment, the stored leaf names the key that was made for it exactly when the leaf in
the answer of the server does. -/
theorem enrolled_key_matches_iff (hrestores : platform.Restores) {mode : EnrollmentMode}
    (h : EnrollmentCoordinator.startup platform client generateKey deviceId token priorSerial m =
      .ok mode t) (hmode : mode ≠ .existing) :
    ∃ key, generateKey = some key ∧
      (StoredKeyMatches leafKey publicKey platform key t ↔ AnswersWithKey leafKey publicKey client
        key (AgentHttpClient.enrollmentBody deviceId token key.csrPem priorSerial)) := by
  obtain ⟨loaded, m₁, hload, h⟩ := bind_eq_ok.mp h
  rcases caught_eq_ok.mp hload with ⟨_, rfl, -⟩ | ⟨_, rfl, -⟩
  · exact absurd (pure_eq_ok.mp h).1.symm hmode
  obtain ⟨identity, _, hfresh, h⟩ := bind_eq_ok.mp h
  obtain ⟨-, rfl⟩ := pure_eq_ok.mp h
  obtain ⟨key, bytes, chain, credential, hkey, hbody, hchain, hdecodes, hprivate, hcertificates⟩ :=
    enrollFresh_stores hrestores hfresh
  refine ⟨key, hkey, ?_, ?_⟩
  · rintro ⟨credential', chain', hdecodes', -, hcertificates', hleaf⟩
    obtain ⟨blob, hblob, hdecoded⟩ := hdecodes
    obtain ⟨blob', hblob', hdecoded'⟩ := hdecodes'
    cases hblob.symm.trans hblob'
    cases hdecoded.symm.trans hdecoded'
    cases utf8_inj (hcertificates.symm.trans hcertificates')
    exact ⟨bytes, chain, hbody, hchain, hleaf⟩
  · rintro ⟨bytes', chain', hbody', hchain', hleaf⟩
    cases hbody.symm.trans hbody'
    cases hchain.symm.trans hchain'
    exact ⟨credential, chain, hdecodes, hprivate, hcertificates, hleaf⟩

end Keys

namespace TrustSample

/-- A server that answers every request with the same chain. -/
def client : AgentHttpClient where
  now := 1
  buildClient := .ok ()
  credentialChain _ := some "BEGIN CERTIFICATE".toList
  certs _ := some ((certificate 1).toCertificate, true)
  answer _ := .body []

/-- The first start of the service. -/
def firstStart : Outcome Machine AgentEnrollmentError EnrollmentMode :=
  EnrollmentCoordinator.startup StartupSample.platform client (some ⟨[1], ['c']⟩)
    StartupSample.config.deviceId "token".toList none
    { disk := ⟨∅, []⟩, acls := fun _ => false, createdAcl := false }

end TrustSample

open TrustSample in
theorem enrolled_key_matches_sample : StoredKeyMatches (fun _ => 1) List.length
    StartupSample.platform ⟨[1], ['c']⟩ firstStart.state := by
  have hstart : firstStart = .ok .initial firstStart.state := Outcome.eq_ok (by decide +kernel)
  obtain ⟨key, hkey, hiff⟩ := enrolled_key_matches_iff
    DpapiCredentialStore.ReplacementSample.platform_restores hstart nofun
  cases hkey
  exact hiff.mpr ⟨[], _, rfl, rfl, rfl⟩

open TrustSample in
/-- The server answers with a chain whose leaf names the second key, and the service stores it with
the first. -/
theorem chain_of_other_key_stored :
    firstStart.result? = some (.ok .initial) ∧ ¬ StoredKeyMatches (fun _ => 2) List.length
      StartupSample.platform ⟨[1], ['c']⟩ firstStart.state := by
  refine ⟨by decide +kernel, ?_⟩
  rintro ⟨_, _, -, -, -, hleaf⟩
  cases hleaf

end Wdlp
