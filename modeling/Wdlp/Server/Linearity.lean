import Wdlp.Server.Commits

/-!
# Tokens and serials are used linearly

Any number of calls of the enrollment authority, for any devices, run at once. `AuthorityCall` is a
call with its random values, `authorityPrograms` its transaction, and the history of a run is the
list of the calls that have returned. Two lists are read off it: the tokens issued, with their
devices, and the tokens consumed.

The invariant `Linear` ties the authority rows to these lists: the token digest of a row is that of
the last token issued to its device, and as long as the row is not marked as consumed, that token
has not been consumed. Everything claimed of tokens follows from it, and what is claimed of serials
from `CredentialsMatch`.

## Main definitions

* `AuthorityCall`, `authorityPrograms`, `authoritySystem` — the calls and their interleavings.
* `issuedIn`, `consumedIn` — the tokens issued and consumed in a history.
* `FreshTokens`, `CollisionFreeTokens` — the assumptions on UUIDs and on SHA-256.
* `Linear` — the invariant.

## Main results

* `Linear.issue`, `Linear.consume` — the invariant is kept by the two kinds of commits.
* `authority_sound` — the invariant holds in every interleaving.
* `enrollment_authority_linear` — the tokens and serials are used linearly.
-/

namespace Wdlp

open CrashSafe

/-- A call of the authority, with the values it draws and the time of its transaction. -/
inductive AuthorityCall (T : Type) where
  | provision (request : ProvisionDeviceRequestV1) (token : Text) (time : ℕ)
  | consumeToken (deviceId : Text) (fingerprintDigest : Digest) (token : Text) (time : ℕ)
  | consumeAndActivate (deviceId token : Text) (priorSerial : Option Bytes)
      (issue : Bytes → Except RepositoryError (T × Digest)) (newSerial : Bytes) (time : ℕ)

/-- What a call returns. -/
inductive AuthorityAnswer (T : Type) where
  | issued (token : Text)
  | consumed
  | activated (result : T)

namespace AuthorityCall

variable {T : Type}

/-- The token that the call draws or presents. -/
def token : AuthorityCall T → Text
  | .provision _ token _ => token
  | .consumeToken _ _ token _ => token
  | .consumeAndActivate _ token _ _ _ _ => token

/-- The device and the token of a provisioning. -/
def issues : AuthorityCall T → Option (Text × Text)
  | .provision request token _ => some (request.deviceId, token)
  | _ => none

/-- The token that the call consumes. -/
def consumes : AuthorityCall T → Option Text
  | .provision _ _ _ => none
  | .consumeToken _ _ token _ => some token
  | .consumeAndActivate _ token _ _ _ _ => some token

variable {call : AuthorityCall T}

theorem token_of_issues {deviceId token : Text}
    (h : call.issues = some (deviceId, token)) : call.token = token := by
  cases call with
  | provision => exact congrArg Prod.snd (Option.some.inj h)
  | consumeToken => simp [issues] at h
  | consumeAndActivate => simp [issues] at h

/-- The transaction of a call. -/
def program (sha256 : Bytes → Digest) :
    AuthorityCall T → PgAuthorityRepository.Transactional (AuthorityAnswer T)
  | .provision request token time => do
    return .issued (← PgAuthorityRepository.provision sha256 request token time)
  | .consumeToken deviceId fingerprintDigest token time => do
    let _ ← PgAuthorityRepository.consumeToken sha256 deviceId fingerprintDigest token time
    return .consumed
  | .consumeAndActivate deviceId token priorSerial issue newSerial time => do
    return .activated (← PgAuthorityRepository.consumeAndActivate sha256 deviceId token priorSerial
      issue newSerial time)

/-- What a committed call has done to the tables. A provisioning has written the row of its device
with its token. A consumption has found its token pending in the row of its device and marked it. An
activation has also found the serial that the caller names active, and replaced it. -/
def Committed (sha256 : Bytes → Digest) (now next : Database) : AuthorityCall T → Prop
  | .provision request token _ =>
    ∃ retired row, Moves now next request.deviceId row retired none ∧
      row.tokenDigest = sha256 (utf8 token) ∧ row.tokenConsumedAt = none
  | .consumeToken deviceId _ token _ =>
    ∃ found row, Moves now next deviceId row none none ∧
      now.enrollmentAuthority[deviceId]? = some found ∧ found.tokenConsumedAt = none ∧
      found.tokenDigest = sha256 (utf8 token) ∧ row.tokenDigest = found.tokenDigest ∧
      row.tokenConsumedAt ≠ none
  | .consumeAndActivate deviceId token priorSerial _ newSerial _ =>
    ∃ found row, Moves now next deviceId row priorSerial (some newSerial) ∧
      now.enrollmentAuthority[deviceId]? = some found ∧ found.tokenConsumedAt = none ∧
      found.tokenDigest = sha256 (utf8 token) ∧ row.tokenDigest = found.tokenDigest ∧
      row.tokenConsumedAt ≠ none ∧ found.activeSerial = priorSerial

theorem Committed.moves {sha256 : Bytes → Digest} {now next : Database}
    (h : call.Committed sha256 now next) :
    ∃ deviceId row retired added, Moves now next deviceId row retired added := by
  cases call with
  | provision =>
    obtain ⟨_, _, hmoves, _⟩ := h
    exact ⟨_, _, _, _, hmoves⟩
  | consumeToken =>
    obtain ⟨_, _, hmoves, _⟩ := h
    exact ⟨_, _, _, _, hmoves⟩
  | consumeAndActivate =>
    obtain ⟨_, _, hmoves, _⟩ := h
    exact ⟨_, _, _, _, hmoves⟩

end AuthorityCall

section Histories

variable {ι T : Type} (calls : ι → AuthorityCall T)

/-- The calls that have returned, with their answers, the latest last. -/
abbrev History (ι T : Type) := List (ι × Except RepositoryError (AuthorityAnswer T))

/-- The devices and tokens of the provisionings that have succeeded. -/
def issuedIn (history : History ι T) : List (Text × Text) :=
  history.filterMap fun (call, answer) => if answer.isOk then (calls call).issues else none

/-- The tokens of the consumptions that have succeeded. -/
def consumedIn (history : History ι T) : List Text :=
  history.filterMap fun (call, answer) => if answer.isOk then (calls call).consumes else none

/-- The tokens issued to a device, the latest last. -/
def issuedTo (history : History ι T) (deviceId : Text) : List Text :=
  ((issuedIn calls history).filter (·.1 = deviceId)).map Prod.snd

/-- Different provisionings draw different tokens. -/
def FreshTokens : Prop :=
  ∀ i j device device' token, (calls i).issues = some (device, token) →
    (calls j).issues = some (device', token) → i = j

/-- The tokens of the calls have different digests. -/
def CollisionFreeTokens (sha256 : Bytes → Digest) : Prop :=
  ∀ i j, sha256 (utf8 (calls i).token) = sha256 (utf8 (calls j).token) →
    (calls i).token = (calls j).token

/-- No token is consumed after a newer one has been issued to its device. -/
def NeverStale (history : History ι T) : Prop :=
  ∀ before entry after deviceId old new, history = before ++ entry :: after →
    (deviceId, old) ∈ issuedIn calls before → (deviceId, new) ∈ issuedIn calls [entry] →
    old ∉ consumedIn calls after

/-- The invariant of the histories and the committed tables. -/
structure Linear (sha256 : Bytes → Digest) (history : History ι T) (db : Database) : Prop where
  credentials : CredentialsMatch db
  /-- The row of a device has the last token issued to it, consumed only if it is marked so. -/
  token : ∀ {deviceId row}, db.enrollmentAuthority[deviceId]? = some row →
    ∃ token, (issuedTo calls history deviceId).getLast? = some token ∧
      row.tokenDigest = sha256 (utf8 token) ∧
      (row.tokenConsumedAt = none → token ∉ consumedIn calls history)
  issued_nodup : ((issuedIn calls history).map Prod.snd).Nodup
  consumed_nodup : (consumedIn calls history).Nodup
  consumed_issued : consumedIn calls history ⊆ (issuedIn calls history).map Prod.snd
  neverStale : NeverStale calls history

end Histories

section Lists

variable {ι T : Type} {calls : ι → AuthorityCall T} {history : History ι T} {call : ι}
  {answer : AuthorityAnswer T}

theorem issuedIn_append (earlier later : History ι T) :
    issuedIn calls (earlier ++ later) = issuedIn calls earlier ++ issuedIn calls later :=
  List.filterMap_append

theorem consumedIn_append (earlier later : History ι T) :
    consumedIn calls (earlier ++ later) = consumedIn calls earlier ++ consumedIn calls later :=
  List.filterMap_append

theorem issuedIn_ok : issuedIn calls [(call, .ok answer)] = (calls call).issues.toList := by
  simp only [issuedIn, List.filterMap_cons, List.filterMap_nil, Except.isOk, Except.toBool, if_true]
  cases (calls call).issues <;> rfl

theorem consumedIn_ok : consumedIn calls [(call, .ok answer)] = (calls call).consumes.toList := by
  simp only [consumedIn, List.filterMap_cons, List.filterMap_nil, Except.isOk, Except.toBool,
    if_true]
  cases (calls call).consumes <;> rfl

variable {deviceId token : Text}

theorem mem_issuedTo :
    token ∈ issuedTo calls history deviceId ↔ (deviceId, token) ∈ issuedIn calls history := by
  simp [issuedTo]

/-- A token in the list of issued ones was drawn by a call of the history. -/
theorem exists_of_mem_issuedIn (h : (deviceId, token) ∈ issuedIn calls history) :
    ∃ call ∈ history.map Prod.fst, (calls call).issues = some (deviceId, token) := by
  obtain ⟨⟨call, answer⟩, hmem, heq⟩ := List.mem_filterMap.mp h
  dsimp only at heq
  split_ifs at heq
  exact ⟨call, List.mem_map.mpr ⟨_, hmem, rfl⟩, heq⟩

/-- The token of the last of two issues to a device is not one of the earlier ones. -/
theorem not_mem_of_getLast {before after : List (Text × Text)} {deviceId old new : Text}
    (hnodup : ((before ++ after).map Prod.snd).Nodup)
    (hold : (deviceId, old) ∈ before) (hnew : (deviceId, new) ∈ after) :
    (((before ++ after).filter (·.1 = deviceId)).map Prod.snd).getLast? ≠ some old := by
  intro hlast
  rw [List.filter_append, List.map_append] at hlast
  have hne : ((after.filter (·.1 = deviceId)).map Prod.snd) ≠ [] := by
    refine List.ne_nil_of_mem (List.mem_map.mpr ⟨(deviceId, new), ?_, rfl⟩)
    simpa using hnew
  rw [List.getLast?_append_of_ne_nil _ hne] at hlast
  obtain ⟨entry, hentry, rfl⟩ := List.mem_map.mp (List.mem_of_getLast? hlast)
  rw [List.map_append, List.nodup_append] at hnodup
  exact hnodup.2.2 _ (List.mem_map.mpr ⟨_, hold, rfl⟩) _
    (List.mem_map.mpr ⟨_, (List.mem_filter.mp hentry).1, rfl⟩) rfl

theorem NeverStale.append (h : NeverStale calls history)
    {entry : ι × Except RepositoryError (AuthorityAnswer T)}
    (hentry : ∀ before newer after deviceId old new, history = before ++ newer :: after →
      (deviceId, old) ∈ issuedIn calls before → (deviceId, new) ∈ issuedIn calls [newer] →
      old ∉ consumedIn calls [entry]) : NeverStale calls (history ++ [entry]) := by
  intro before newer after deviceId old new heq hold hnew
  -- The new entry is the newer issue itself, or comes after it.
  rcases List.eq_nil_or_concat after with rfl | ⟨rest, last, rfl⟩
  · simp [consumedIn]
  · rw [List.concat_eq_append] at heq ⊢
    rw [← List.cons_append, ← List.append_assoc] at heq
    obtain ⟨hhistory, hlast⟩ := List.append_inj' heq rfl
    obtain rfl : entry = last := by simpa using hlast
    rw [consumedIn_append, List.mem_append, not_or]
    exact ⟨h _ _ _ _ _ _ hhistory hold hnew, hentry _ _ _ _ _ _ hhistory hold hnew⟩

end Lists

/-! ### The two kinds of commits -/

namespace Linear

variable {ι T : Type} {calls : ι → AuthorityCall T} {sha256 : Bytes → Digest}
  {history : History ι T} {now next : Database} {call : ι} {answer : AuthorityAnswer T}
  {deviceId token : Text} {row : AuthorityRow} {retired added : Option Bytes}

section

variable (h : Linear calls sha256 history now)

include h

/-- A token is issued. -/
theorem issue (hfresh : FreshTokens calls)
    (hcall : call ∉ history.map Prod.fst) (hissues : (calls call).issues = some (deviceId, token))
    (hconsumes : (calls call).consumes = none) (hmoves : Moves now next deviceId row retired added)
    (hdigest : row.tokenDigest = sha256 (utf8 token)) :
    Linear calls sha256 (history ++ [(call, .ok answer)]) next := by
  have hissued : issuedIn calls (history ++ [(call, .ok answer)]) =
      issuedIn calls history ++ [(deviceId, token)] := by
    rw [issuedIn_append, issuedIn_ok, hissues]
    rfl
  have hconsumed : consumedIn calls (history ++ [(call, .ok answer)]) = consumedIn calls history := by
    rw [consumedIn_append, consumedIn_ok, hconsumes, Option.toList_none, List.append_nil]
  -- The token has not been issued before, and so has not been consumed either.
  have hnew : token ∉ (issuedIn calls history).map Prod.snd := by
    intro hmem
    obtain ⟨⟨device, _⟩, hpair, rfl⟩ := List.mem_map.mp hmem
    obtain ⟨other, hother, hsame⟩ := exists_of_mem_issuedIn hpair
    exact hcall (hfresh _ _ _ _ _ hsame hissues ▸ hother)
  refine ⟨hmoves.credentialsMatch h.credentials, fun {device found} hfound => ?_, ?_, ?_, ?_, ?_⟩
  · rw [hmoves.authority] at hfound
    rw [hconsumed, issuedTo, hissued, List.filter_append, List.map_append]
    obtain rfl | hne := eq_or_ne deviceId device
    · obtain rfl : row = found := by simpa using hfound
      exact ⟨token, by simp, hdigest, fun _ hmem => hnew (h.consumed_issued hmem)⟩
    · rw [if_neg hne] at hfound
      obtain ⟨last, hlast, hrest⟩ := h.token hfound
      exact ⟨last, by simpa [hne, issuedTo] using hlast, hrest⟩
  · rw [hissued, List.map_append, List.nodup_append]
    refine ⟨h.issued_nodup, by simp, ?_⟩
    rintro other hother _ hlast rfl
    exact hnew (by simpa [List.mem_singleton.mp hlast] using hother)
  · exact hconsumed ▸ h.consumed_nodup
  · rw [hconsumed, hissued, List.map_append]
    exact List.Subset.trans h.consumed_issued (List.subset_append_left _ _)
  · refine h.neverStale.append fun _ _ _ _ _ _ _ _ _ => ?_
    rw [consumedIn_ok, hconsumes]
    simp

/-- A pending token is consumed. -/
theorem consume (hfree : CollisionFreeTokens calls sha256)
    (hissues : (calls call).issues = none) (hconsumes : (calls call).consumes = some token)
    (htoken : (calls call).token = token) (hmoves : Moves now next deviceId row retired added)
    {found : AuthorityRow} (hfound : now.enrollmentAuthority[deviceId]? = some found)
    (hpending : found.tokenConsumedAt = none) (hdigest : found.tokenDigest = sha256 (utf8 token))
    (hsame : row.tokenDigest = found.tokenDigest) (hmarked : row.tokenConsumedAt ≠ none) : Linear
    calls sha256 (history ++ [(call, .ok answer)]) next := by
  have hissued : issuedIn calls (history ++ [(call, .ok answer)]) = issuedIn calls history := by
    rw [issuedIn_append, issuedIn_ok, hissues, Option.toList_none, List.append_nil]
  have hconsumed : consumedIn calls (history ++ [(call, .ok answer)]) =
      consumedIn calls history ++ [token] := by
    rw [consumedIn_append, consumedIn_ok, hconsumes]
    rfl
  -- The token presented is the last one issued to the device.
  obtain ⟨last, hlast, hlastDigest, hunused⟩ := h.token hfound
  obtain rfl : token = last := by
    obtain ⟨issuer, -, hissuer⟩ :=
      exists_of_mem_issuedIn (mem_issuedTo.mp (List.mem_of_getLast? hlast))
    have hissuerToken := AuthorityCall.token_of_issues hissuer
    rw [← htoken, ← hissuerToken]
    exact hfree call issuer (by rw [htoken, hissuerToken, ← hdigest, hlastDigest])
  have hunused := hunused hpending
  have hmem : (deviceId, token) ∈ issuedIn calls history :=
    mem_issuedTo.mp (List.mem_of_getLast? hlast)
  refine ⟨hmoves.credentialsMatch h.credentials, fun {device other} hother => ?_, ?_, ?_, ?_, ?_⟩
  · rw [hmoves.authority] at hother
    rw [hconsumed, issuedTo, hissued]
    obtain rfl | hne := eq_or_ne deviceId device
    · obtain rfl : row = other := by simpa using hother
      exact ⟨token, hlast, hsame.trans hdigest, fun hnone => absurd hnone hmarked⟩
    · rw [if_neg hne] at hother
      obtain ⟨theirs, htheirs, htheirsDigest, htheirsUnused⟩ := h.token hother
      refine ⟨theirs, htheirs, htheirsDigest, fun hnone hused => ?_⟩
      rcases List.mem_append.mp hused with hbefore | hnow
      · exact htheirsUnused hnone hbefore
      · -- A token is issued to one device only.
        rw [List.mem_singleton.mp hnow] at htheirs
        have hpair := List.inj_on_of_nodup_map h.issued_nodup hmem
          (mem_issuedTo.mp (List.mem_of_getLast? htheirs)) rfl
        exact hne (congrArg Prod.fst hpair)
  · exact hissued ▸ h.issued_nodup
  · rw [hconsumed, List.nodup_append]
    refine ⟨h.consumed_nodup, by simp, ?_⟩
    rintro used hused _ hlast rfl
    exact hunused (List.mem_singleton.mp hlast ▸ hused)
  · rw [hconsumed, hissued]
    refine List.append_subset.mpr ⟨h.consumed_issued, ?_⟩
    simpa using ⟨deviceId, hmem⟩
  · refine h.neverStale.append fun before newer after device old new heq hold hnew hused => ?_
    rw [consumedIn_ok, hconsumes] at hused
    obtain rfl : old = token := by simpa using hused
    -- The token is the last one issued to its device, and the newer one is not before it.
    rw [heq, issuedIn_append] at hmem
    have hnodup := h.issued_nodup
    rw [heq, issuedIn_append] at hnodup
    have hdevice : deviceId = device :=
      congrArg Prod.fst (List.inj_on_of_nodup_map hnodup hmem (List.mem_append_left _ hold) rfl)
    rw [issuedTo, heq, issuedIn_append, hdevice] at hlast
    have hnewer : (device, new) ∈ issuedIn calls (newer :: after) := by
      rw [← List.singleton_append, issuedIn_append]
      exact List.mem_append_left _ hnew
    exact not_mem_of_getLast hnodup hold hnewer hlast

/-- A call returns an error. -/
theorem error {error : RepositoryError} :
    Linear calls sha256 (history ++ [(call, .error error)]) now := by
  have hissued : issuedIn calls (history ++ [(call, .error error)]) = issuedIn calls history := by
    simp [issuedIn, Except.isOk, Except.toBool]
  have hconsumed : consumedIn calls (history ++ [(call, .error error)]) =
      consumedIn calls history := by
    simp [consumedIn, Except.isOk, Except.toBool]
  refine ⟨h.credentials, fun {device found} hfound => ?_, ?_, ?_, ?_, ?_⟩
  · rw [hconsumed, issuedTo, hissued]
    exact h.token hfound
  · exact hissued ▸ h.issued_nodup
  · exact hconsumed ▸ h.consumed_nodup
  · exact hconsumed ▸ hissued ▸ h.consumed_issued
  · refine h.neverStale.append fun _ _ _ _ _ _ _ _ _ => ?_
    simp [consumedIn, Except.isOk, Except.toBool]

end

end Linear

/-! ### Interleavings -/

section Runs

variable {ι T : Type} (sha256 : Bytes → Digest) (calls : ι → AuthorityCall T)

/-- The transactions of the calls. -/
def authorityPrograms (call : ι) : PgAuthorityRepository.Transactional (AuthorityAnswer T) :=
  (calls call).program sha256

/-- The server after the actions of a scheduler, from a database. -/
def authorityRun [DecidableEq ι] (db : Database) (actions : List (Action ι RepositoryError)) :
    System ι authoritySchema RepositoryError (AuthorityAnswer T) :=
  System.run (authorityPrograms sha256 calls) { committed := db } actions

variable {sha256 calls} {now : Database} {call : ι} {keys : List RowKey}
  {writes : Writes authoritySchema} {answer : AuthorityAnswer T} {history : History ι T}

/-- Every call that comes to its end has, by then, the effect of its kind. -/
theorem committed_of_reaches (hnow : CredentialsMatch now)
    (h : Reaches authoritySchema (System.Good (Linear calls sha256)) now
      ⟨[], [], authorityPrograms sha256 calls call⟩ ⟨keys, writes, .pure answer⟩) :
    (calls call).Committed sha256 now (overlay writes now) := by
  have hgood : ∀ db, System.Good (Linear calls sha256) db → CredentialsMatch db :=
    fun _ hdb => hdb.elim fun _ hlinear => hlinear.credentials
  unfold authorityPrograms at h
  cases hcall : calls call with
  | provision request token time =>
    rw [hcall] at h
    obtain ⟨_, _, _, hmain, h⟩ := Reaches.of_bind h
    obtain ⟨-, -, rfl⟩ := Reaches.of_pure h
    exact PgAuthorityRepository.provision_commits hgood hnow hmain
  | consumeToken deviceId fingerprintDigest token time =>
    rw [hcall] at h
    obtain ⟨_, _, _, hmain, h⟩ := Reaches.of_bind h
    obtain ⟨-, -, rfl⟩ := Reaches.of_pure h
    exact PgAuthorityRepository.consumeToken_commits hmain
  | consumeAndActivate deviceId token priorSerial issue newSerial time =>
    rw [hcall] at h
    obtain ⟨_, _, _, hmain, h⟩ := Reaches.of_bind h
    obtain ⟨-, -, rfl⟩ := Reaches.of_pure h
    exact PgAuthorityRepository.consumeAndActivate_commits hgood hnow hmain

theorem linear_commits (hfresh : FreshTokens calls) (hfree : CollisionFreeTokens calls sha256) :
    System.Commits (authorityPrograms sha256 calls) (Linear calls sha256) := by
  intro history now call keys writes answer h hunreturned hreaches
  have hcommitted := committed_of_reaches h.credentials hreaches
  cases hcall : calls call with
  | provision request token time =>
    rw [hcall] at hcommitted
    obtain ⟨retired, row, hmoves, hdigest, -⟩ := hcommitted
    exact h.issue hfresh hunreturned (by rw [hcall]; rfl) (by rw [hcall]; rfl) hmoves hdigest
  | consumeToken deviceId fingerprintDigest token time =>
    rw [hcall] at hcommitted
    obtain ⟨found, row, hmoves, hfound, hpending, hdigest, hsame, hmarked⟩ := hcommitted
    exact h.consume hfree (by rw [hcall]; rfl) (by rw [hcall]; rfl) (by rw [hcall]; rfl) hmoves
      hfound hpending hdigest hsame hmarked
  | consumeAndActivate deviceId token priorSerial issue newSerial time =>
    rw [hcall] at hcommitted
    obtain ⟨found, row, hmoves, hfound, hpending, hdigest, hsame, hmarked, -⟩ := hcommitted
    exact h.consume hfree (by rw [hcall]; rfl) (by rw [hcall]; rfl) (by rw [hcall]; rfl) hmoves
      hfound hpending hdigest hsame hmarked

/-- The authority's tables are empty, as the migrations leave them. -/
def Database.IsMigrated (db : Database) : Prop :=
  db.enrollmentAuthority = ∅ ∧ db.revokedDeviceCredentials = ∅ ∧ db.deviceRouteCredentials = ∅

theorem linear_of_isMigrated {db : Database} (hempty : db.IsMigrated) :
    Linear calls sha256 [] db := by
  obtain ⟨hauthority, hrevoked, hcredentials⟩ := hempty
  refine ⟨⟨?_, ?_⟩, ?_, ?_, ?_, ?_, ?_⟩
  · simp [Database.credentialOf, Database.activeSerial, hauthority, hcredentials]
  · simp [Database.credentialOf, hrevoked, hcredentials]
  · simp [hauthority]
  · simp [issuedIn]
  · simp [consumedIn]
  · simp [consumedIn]
  · intro before entry after deviceId old new heq
    simp at heq

variable [DecidableEq ι] {db : Database} (hfresh : FreshTokens calls) (hfree : CollisionFreeTokens calls sha256)
  (hempty : db.IsMigrated)

include hfresh hfree hempty

/-- The invariant holds in every interleaving. -/
theorem authority_sound (actions : List (Action ι RepositoryError)) : System.Sound
    (authorityPrograms sha256 calls) (Linear calls sha256) (authorityRun sha256 calls db actions) :=
  System.Sound.run (linear_commits hfresh hfree) (fun _ _ _ _ h => h.error) actions
    (System.Sound.init (linear_of_isMigrated hempty))

/-- A revoked credential stays revoked in every continuation. -/
theorem revoked_of_run (actions : List (Action ι RepositoryError)) {deviceId : Text}
    {serial : Bytes}
    (hrevoked : (authorityRun sha256 calls db actions).committed.credentialOf serial =
      some (deviceId, .revoked)) (later : List (Action ι RepositoryError)) :
    (authorityRun sha256 calls db (actions ++ later)).committed.credentialOf serial =
      some (deviceId, .revoked) := by
  induction later using List.reverseRecOn with
  | nil => simpa using hrevoked
  | append_singleton later action ih =>
    have hsound := authority_sound hfresh hfree hempty (actions ++ later)
    have hstep : authorityRun sha256 calls db (actions ++ (later ++ [action])) =
        System.step (authorityPrograms sha256 calls)
          (authorityRun sha256 calls db (actions ++ later)) action := by
      simp [authorityRun, System.run]
    rw [hstep]
    rcases hsound.step_cases action with ⟨-, hkept⟩ | ⟨_, _, -, hkept⟩ |
      ⟨_, _, _, _, -, hreaches, -, hcommitted⟩
    · rw [hkept, ih]
    · rw [hkept, ih]
    · have hmatch := hsound.holds.credentials
      obtain ⟨_, _, _, _, hmoves⟩ := (committed_of_reaches hmatch hreaches).moves
      rw [hcommitted]
      exact hmoves.credentialOf_of_revoked hmatch ih

/-- Whatever the interleaving of the calls, with any failures: no token is consumed twice, and none
after a newer one has been issued to its device; the active credentials of a device are its active
serial, so that there is at most one; a serial that is revoked is not active later; a call that
returns an error leaves all tables as they are; and an activation succeeds only if the caller names
the serial that is active when it commits. -/
theorem enrollment_authority_linear (actions : List (Action ι RepositoryError)) :
    let system := authorityRun sha256 calls db actions
    (consumedIn calls system.returned).Nodup ∧ NeverStale calls system.returned ∧
    (∀ deviceId serial, system.committed.credentialOf serial = some (deviceId, .active) ↔
      system.committed.activeSerial deviceId = some serial) ∧
    (∀ serial, (∃ deviceId, system.committed.credentialOf serial = some (deviceId, .revoked)) ∨
        serial ∈ system.committed.revokedDeviceCredentials →
      ∀ later deviceId, (authorityRun sha256 calls db (actions ++ later)).committed.credentialOf
        serial ≠ some (deviceId, .active)) ∧
    ∀ action,
      let next := System.step (authorityPrograms sha256 calls) system action
      (∀ call error, next.returned = system.returned ++ [(call, .error error)] →
        next.committed = system.committed) ∧
      ∀ call answer, next.returned = system.returned ++ [(call, .ok answer)] →
        ∀ deviceId token priorSerial issue newSerial time,
          calls call = .consumeAndActivate deviceId token priorSerial issue newSerial time →
          ∃ row, system.committed.enrollmentAuthority[deviceId]? = some row ∧
            row.activeSerial = priorSerial := by
  have hsound := authority_sound hfresh hfree hempty actions
  have hlinear := hsound.holds
  refine ⟨hlinear.consumed_nodup, hlinear.neverStale, fun _ _ => hlinear.credentials.active_iff,
    fun serial hrevoked later deviceId hactive => ?_, fun action => ⟨?_, ?_⟩⟩
  · obtain ⟨device, hdevice⟩ := hrevoked.elim id hlinear.credentials.revoked_iff.mp
    rw [revoked_of_run hfresh hfree hempty actions hdevice later] at hactive
    simp at hactive
  · intro call error hreturned
    rcases hsound.step_cases action with ⟨hsame, hkept⟩ | ⟨_, _, -, hkept⟩ |
      ⟨_, _, _, _, -, -, hcommit, -⟩
    · exact hkept
    · exact hkept
    · simp [hcommit] at hreturned
  · intro call answer hreturned deviceId token priorSerial issue newSerial time hcall
    rcases hsound.step_cases action with ⟨hsame, -⟩ | ⟨_, _, herror, -⟩ |
      ⟨_, _, _, _, -, hreaches, hcommit, -⟩
    · simp [hsame] at hreturned
    · simp [herror] at hreturned
    · rw [hcommit] at hreturned
      obtain ⟨rfl, -⟩ : _ = call ∧ _ = answer := by simpa using hreturned
      have hcommitted := committed_of_reaches hlinear.credentials hreaches
      rw [hcall] at hcommitted
      obtain ⟨found, _, _, hfound, -, -, -, -, hprior⟩ := hcommitted
      exact ⟨found, hfound, hprior⟩

end Runs

/-! ### A sample run -/

namespace AuthoritySample

/-- A provisioning and an activation with its token. -/
def calls : Bool → AuthorityCall Unit
  | false => .provision request token 0
  | true => .consumeAndActivate device token none (fun _ => .ok ((), digest [2])) serial 5

/-- The activation begins first, and selects the row after the provisioning has committed. -/
def actions : List (Action Bool RepositoryError) :=
  [.start true, .start false, .advance false, .advance false, .advance false, .advance true,
    .advance true, .advance true, .advance true]

end AuthoritySample

theorem enrollment_authority_linear_sample :
    let system := authorityRun AuthoritySample.digest AuthoritySample.calls {}
      AuthoritySample.actions
    system.committed.activeSerial AuthoritySample.device = some AuthoritySample.serial ∧
      system.committed.credentialOf AuthoritySample.serial =
        some (AuthoritySample.device, .active) := by
  have hactive : (authorityRun AuthoritySample.digest AuthoritySample.calls {}
      AuthoritySample.actions).committed.activeSerial AuthoritySample.device =
        some AuthoritySample.serial := by
    decide +kernel
  have hfresh : FreshTokens AuthoritySample.calls := by
    intro i j device device' token hi hj
    cases i <;> cases j <;>
      simp_all [AuthoritySample.calls, AuthorityCall.issues]
  have hfree : CollisionFreeTokens AuthoritySample.calls AuthoritySample.digest := by
    intro i j _
    cases i <;> cases j <;> rfl
  have hlinear := enrollment_authority_linear hfresh hfree
    (show ({} : Database).IsMigrated from ⟨rfl, rfl, rfl⟩) AuthoritySample.actions
  exact ⟨hactive, (hlinear.2.2.1 _ _).mpr hactive⟩

end Wdlp
