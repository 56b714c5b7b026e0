import Wdlp.Domain
import Wdlp.Lib.Reader

/-!
# The pipe to a drive host

The service hands the key of a store over a pipe to the host that it has launched. Anyone may be at
the other end: before it writes, the service asks the system who it is, and checks its request. The
answers of the system, the decoders and what the other end sends are parameters.

## Main definitions

* `acceptAndAuthenticate` — the service's side of the exchange.

## Main results

* `written_to_host` — nothing is written but to the host.
-/

namespace Wdlp

open CrashSafe Act

inductive PipeAuthError where
  | invalidMessage
  | wrongIdentity
  | staleGeneration
  | oversized
  | pipeUnavailable
  | authenticationFailed
  | bootstrapFailed
  | protocolMismatch

structure StorageRequest where
  version : UInt16
  sessionId : UInt32
  hostPid : UInt32
  generation : UInt64
  userSid : Text

/-- The host that was launched. -/
structure Peer where
  pid : UInt32
  sid : UserSid
  session : UInt32
  generation : UInt64

open PipeAuthError

/-- `validate_request`. -/
def Peer.validateRequest (host : Peer) (request : StorageRequest) : Except PipeAuthError Unit := do
  failIf (request.version ≠ 1) protocolMismatch
  failIf (request.sessionId = 0 ∨ request.hostPid = 0) invalidMessage
  failIf (request.sessionId ≠ host.session) wrongIdentity
  failIf (request.generation ≠ host.generation) staleGeneration
  failIf (request.userSid ≠ [] ∧
    Identifier.parse .userSid request.userSid ≠ .ok host.sid) wrongIdentity

/-- What the system says about the other end; its token has a user and a session. -/
structure PipeClient where
  connectError : Option UInt32
  pid : Option UInt32
  token : Option (Text × UInt32)

/-- The checks that the service makes before it reads. -/
def Peer.checkClient (host : Peer) (client : PipeClient) : Except PipeAuthError Unit := do
  failIf (client.connectError.any (· ≠ 535)) pipeUnavailable
  failIf (client.pid = none) authenticationFailed
  failIf (client.pid ≠ some host.pid) wrongIdentity
  failIf (client.token = none) authenticationFailed
  failIf (client.token.map Prod.snd ≠ some host.session) wrongIdentity
  failIf (client.token.map Prod.fst ≠ some host.sid.toWire) wrongIdentity

/-- What is left to read, what was written, and how many more writes succeed. -/
structure Pipe where
  unread : Bytes
  written : List Bytes
  writes : ℕ

def readFrame : Act Pipe PipeAuthError Bytes := fun pipe =>
  match (do
      let length ← Reader.beWord .invalidMessage 4
      failIf (length > 64 * 1024) oversized
      Reader.take .invalidMessage length : Reader PipeAuthError Bytes) pipe.unread with
  | .ok (bytes, unread) => .ok bytes { pipe with unread }
  | .error e => .err e pipe

/-- Write what `encode_frame` makes of the bytes. -/
def writeFrame (bytes : Bytes) : Act Pipe PipeAuthError Unit := fun pipe =>
  if pipe.writes = 0 then .err .bootstrapFailed pipe
  else .ok () { pipe with written := pipe.written ++ [framed bytes], writes := pipe.writes - 1 }

theorem readFrame_wp {pipe : Pipe} : readFrame.wp
    (fun bytes t => t.written = pipe.written ∧ framed bytes <+: pipe.unread)
    (fun _ t => t = pipe) (fun _ => False) pipe := by
  unfold wp readFrame
  split
  · next h =>
    simp only [Reader.bind_eq_ok, Reader.beWord_eq_ok, Reader.failIf_eq_ok, Reader.take_eq_ok] at h
    obtain ⟨_, _, ⟨-, heq⟩, _, _, ⟨-, rfl⟩, rfl, rfl⟩ := h
    exact ⟨rfl, _, (List.append_assoc _ _ _).trans heq.symm⟩
  · rfl

variable (decodeRequest : Bytes → Option StorageRequest) (decodeReport : Bytes → Option Char)
  (accepted bootstrap : Bytes) (host : Peer) (client : PipeClient)

/-- `accept_and_authenticate`. -/
def acceptAndAuthenticate : Act Pipe PipeAuthError Char := do
  Act.ofExcept (host.checkClient client)
  let request ← ofOption (decodeRequest (← readFrame)) .invalidMessage
  Act.ofExcept (host.validateRequest request)
  writeFrame accepted
  writeFrame bootstrap
  let letter ← ofOption (decodeReport (← readFrame)) .invalidMessage
  return letter.toUpper

/-- Whatever the other end sends and however the exchange ends, nothing was written, or the other
end is the host and has asked for its session and generation. -/
theorem written_to_host (sent : Bytes) (writes : ℕ) :
    (acceptAndAuthenticate decodeRequest decodeReport accepted bootstrap host client
      ⟨sent, [], writes⟩).state.written = [] ∨
    client.pid = some host.pid ∧ client.token = some (host.sid.toWire, host.session) ∧
      ∃ bytes request, framed bytes <+: sent ∧ decodeRequest bytes = some request ∧
        request.sessionId = host.session ∧ request.generation = host.generation := by
  refine state_of_wp (I := fun pipe : Pipe => pipe.written = [] ∨ _) ?_
  rw [acceptAndAuthenticate, wp_bind, wp_ofExcept]
  cases hclient : host.checkClient client with
  | error e => exact .inl rfl
  | ok u =>
    refine wp_seq (wp_mono readFrame_wp (fun _ _ => id) (fun _ _ h => .inl (by rw [h]))
      fun _ => False.elim) ?_
    rintro bytes t ⟨hnone, hsent⟩
    rw [wp_bind, wp_ofOption]
    cases hrequest : decodeRequest bytes with
    | none => exact .inl hnone
    | some request =>
      refine (wp_bind _ _).mpr ((wp_ofExcept _).mpr ?_)
      cases hvalid : host.validateRequest request with
      | error e => exact .inl hnone
      | ok u =>
        simp only [Peer.checkClient, Peer.validateRequest, except_bind_eq_ok, except_failIf_eq_ok,
          not_not] at hclient hvalid
        obtain ⟨_, -, _, -, _, hpid, _, -, _, hsession, hsid⟩ := hclient
        obtain ⟨_, -, _, -, _, hsame, _, hgen, -⟩ := hvalid
        have htoken : client.token = some (host.sid.toWire, host.session) := by
          cases h : client.token <;> simp_all [Prod.ext_iff]
        unfold wp
        generalize writeFrame accepted >>= _ = rest
        cases rest t <;> exact .inr ⟨hpid, htoken, bytes, request, hsent, hrequest, hsame, hgen⟩

end Wdlp
