import Wdlp.Lib.Hex
import Wdlp.Protocol

/-!
# The client of the agent

What the agent asks of the server and how it takes the answers: the errors of the client, the
answers that can come back, the request for an enrollment, and the checks on the chain of
certificates that an enrollment returns.

A certificate is the record of the parts that the checks read. The readers of the library, which
find the chain in the body of an answer and the certificates in its text, are parameters.

## Main definitions

* `ClientError`, `Response` — errors and answers.
* `Certificate`, `DeviceChain`, `validateDeviceChain` — the checks on a chain.
* `AgentHttpClient`, `EnrollmentRequestBody`, `AgentHttpClient.acceptEnrollment` — an enrollment.
-/

namespace Wdlp

open CrashSafe

/-! ### Answers -/

/-- The errors of the client. -/
inductive ClientError where
  | invalidServerUrl
  | invalidTrustAnchor
  | missingDeviceCredential
  | tlsConfiguration
  | requestDenied
  | invalidResponse
  | profileRejected
  | networkUnavailable
  | configurationFetchFailed
  deriving DecidableEq

/-- What comes back from the server: nothing, an error status, a body that breaks off, or a body. -/
inductive Response where
  | unreachable
  | refused
  | interrupted
  | body (bytes : Bytes)

def maxBodyBytes : ℕ := 256 * 1024

/-! ### Certificates -/

/-- The parts of a leaf certificate that are checked: `none` stands for an extension that is not
there. Times are in seconds. -/
structure Certificate where
  isCa : Bool
  notBefore : ℕ
  notAfter : ℕ
  /-- The digital signature bit of the key usage. -/
  keyUsage : Option Bool
  /-- The client authentication bit of the extended key usage. -/
  extendedKeyUsage : Option Bool
  /-- The URIs of the subject alternative name. -/
  subjectAlternativeName : Option (List Text)
  /-- The content octets of the serial's INTEGER. -/
  rawSerial : Bytes

/-- `validity().is_valid()`. -/
def Certificate.IsValid (certificate : Certificate) (now : ℕ) : Prop :=
  certificate.notBefore ≤ now ∧ now ≤ certificate.notAfter

instance (certificate : Certificate) (now : ℕ) : Decidable (certificate.IsValid now) :=
  inferInstanceAs (Decidable (_ ∧ _))

/-- `urn:dlp:device:`. -/
def deviceUriPrefix : Text := "urn:dlp:device:".toList

/-- A chain: its text, its leaf, and whether the issuer, the signatures and the pinned root are in
order. -/
structure DeviceChain where
  pem : Text
  leaf : Certificate
  isTrusted : Bool

/-- `ValidatedDeviceIdentity`. -/
structure ValidatedDeviceIdentity where
  deviceId : Text
  certificateChainPem : Text
  serial : Bytes
  expiresAfterEpochSeconds : ℕ
deriving DecidableEq

/-- `validate_device_chain`, from the parsed certificates on. -/
def validateDeviceChain (now : ℕ) (deviceId : DeviceId) (chain : DeviceChain) :
    Except ClientError ValidatedDeviceIdentity :=
  let leaf := chain.leaf
  if leaf.isCa ∨ ¬ leaf.IsValid now ∨ leaf.keyUsage ≠ some true ∨
      leaf.extendedKeyUsage ≠ some true then .error .profileRejected
  else if deviceUriPrefix ++ deviceId.toWire ∉ leaf.subjectAlternativeName.getD [] then
    .error .profileRejected
  else if leaf.rawSerial = [] ∨ 30 * 86400 < leaf.notAfter - leaf.notBefore ∨ ¬ chain.isTrusted then
    .error .profileRejected
  else .ok ⟨deviceId.toWire, chain.pem, leaf.rawSerial, leaf.notAfter⟩

/-! ### Enrollments -/

/-- `EnrollmentRequestBody`. -/
structure EnrollmentRequestBody where
  version : UInt16
  deviceId : Text
  token : Text
  csrPem : Text
  priorSerial : Option Text
deriving DecidableEq

/-- The client, with the time and what the libraries and the server do: whether a TLS client can be
made, the chain that the body of an answer holds, the certificates that a text holds, and the
answer to each request. -/
structure AgentHttpClient where
  now : ℕ
  buildClient : Except ClientError Unit
  credentialChain : Bytes → Option Text
  certs : Text → Option (Certificate × Bool)
  answer : EnrollmentRequestBody → Response

namespace AgentHttpClient

/-- The body that `post_enrollment` sends. -/
def enrollmentBody (deviceId : DeviceId) (token csrPem : Text) (priorSerial : Option Bytes) :
    EnrollmentRequestBody where
  version := 1
  deviceId := deviceId.toWire
  token := token
  csrPem := csrPem
  priorSerial := priorSerial.map hexEncode

/-- The text occurs in another. -/
def contains (text part : Text) : Bool := text.tails.any (part.isPrefixOf ·)

/-- The certificates of a chain, as `validate_device_chain` reads them. -/
def readDeviceChain (client : AgentHttpClient) (chainPem : Text) :
    Except ClientError DeviceChain :=
  if maxBodyBytes < (utf8 chainPem).length ∨ ¬ contains chainPem "BEGIN CERTIFICATE".toList then
    .error .invalidResponse
  else match client.certs chainPem with
    | some (leaf, isTrusted) => .ok ⟨chainPem, leaf, isTrusted⟩
    | none => .error .invalidResponse

/-- `post_enrollment`, from the answer on. -/
def acceptEnrollment (client : AgentHttpClient) (deviceId : DeviceId) :
    Response → Except ClientError ValidatedDeviceIdentity
  | .unreachable => .error .networkUnavailable
  | .refused => .error .requestDenied
  | .interrupted => .error .invalidResponse
  | .body bytes =>
    if maxBodyBytes < bytes.length then .error .invalidResponse
    else match client.credentialChain bytes with
      | some chainPem => do
        let chain ← client.readDeviceChain chainPem
        validateDeviceChain client.now deviceId chain
      | none => .error .invalidResponse

end AgentHttpClient

end Wdlp
