import Wdlp.Server.Authority

/-!
# What the authority's transactions commit

Each of the three transactions of the enrollment authority has, when it commits, written the
authority row of one device, revoked at most one credential, the active one of the device, and added
at most one. `Moves` says this of the tables before and after the commit; it is derived for each
transaction from its statements, under any interleaving with others: the row lock on the authority
row is what makes the serial read by the first statement still the active one at the end.

## Main definitions

* `CredentialsMatch` — the active credentials are the active serials of the authority rows.
* `Moves` — the effect of a committed transaction on the three tables.

## Main results

* `PgAuthorityRepository.provision_commits`, `PgAuthorityRepository.consumeToken_commits`,
  `PgAuthorityRepository.consumeAndActivate_commits`.
* `Moves.credentialsMatch` — the effect keeps the active credentials and serials the same.
-/

namespace Wdlp

open CrashSafe
open Reaches (not_of_fail of_bind of_pure of_update)

/-- For every device, the credentials with status `active` are exactly the serial in the column
`active_serial`; and the serials in `revoked_device_credentials` are the credentials with status
`revoked`. -/
structure CredentialsMatch (db : Database) : Prop where
  active_iff : ∀ {deviceId serial}, db.credentialOf serial = some (deviceId, .active) ↔
    db.activeSerial deviceId = some serial
  revoked_iff : ∀ {serial}, serial ∈ db.revokedDeviceCredentials ↔
    ∃ deviceId, db.credentialOf serial = some (deviceId, .revoked)

/-- The authority row of the device has been written; the serial `retired`, if any, has been
revoked and the serial `added`, if any, made active. -/
structure Moves (now next : Database) (deviceId : Text) (row : AuthorityRow)
    (retired added : Option Bytes) : Prop where
  authority : ∀ other, next.enrollmentAuthority[other]? =
    if deviceId = other then some row else now.enrollmentAuthority[other]?
  credential : ∀ serial, next.credentialOf serial =
    if added = some serial then some (deviceId, .active)
    else if retired = some serial then some (deviceId, .revoked)
    else now.credentialOf serial
  revoked : ∀ serial, serial ∈ next.revokedDeviceCredentials ↔
    serial ∈ now.revokedDeviceCredentials ∨ retired = some serial
  added_new : ∀ serial ∈ added, now.credentialOf serial = none
  serials : (retired = none ∧ added = none ∧ row.activeSerial = now.activeSerial deviceId) ∨
    (retired = now.activeSerial deviceId ∧ row.activeSerial = added)

namespace Moves

variable {now next : Database} {deviceId : Text} {row : AuthorityRow} {retired added : Option Bytes}
  {serial : Bytes}

section

variable (h : Moves now next deviceId row retired added)

include h

/-- A serial that is retired was active. -/
theorem active_of_retired (hnow : CredentialsMatch now) (hretired : retired = some serial) :
    now.credentialOf serial = some (deviceId, .active) := by
  rcases h.serials with ⟨hnone, -, -⟩ | ⟨heq, -⟩
  · simp [hnone] at hretired
  · exact hnow.active_iff.mpr (heq ▸ hretired)

theorem activeSerial_eq (other : Text) : next.activeSerial other =
      if deviceId = other then row.activeSerial else now.activeSerial other := by
  rw [Database.activeSerial, h.authority]
  split <;> rfl

section

variable (hnow : CredentialsMatch now)

include hnow

theorem active_iff {device : Text} :
    next.credentialOf serial = some (device, .active) ↔ next.activeSerial device = some serial := by
  rw [h.credential, h.activeSerial_eq]
  obtain rfl | hne := eq_or_ne deviceId device
  · rcases h.serials with ⟨hretired, hadded, hkept⟩ | ⟨hretired, hadded⟩
    · simp [hretired, hadded, hkept, hnow.active_iff]
    · by_cases ha : added = some serial <;> by_cases hr : retired = some serial <;>
        simp [ha, hr, hadded, hnow.active_iff, ← hretired]
  · rw [if_neg hne, ← hnow.active_iff]
    by_cases ha : added = some serial
    · simp [ha, hne, h.added_new serial ha]
    · by_cases hr : retired = some serial
      · simp [ha, hr, hne, h.active_of_retired hnow hr]
      · simp [ha, hr]

/-- A revoked credential stays revoked. -/
theorem credentialOf_of_revoked {device : Text}
    (hrevoked : now.credentialOf serial = some (device, .revoked)) :
    next.credentialOf serial = some (device, .revoked) := by
  have hadded : added ≠ some serial := fun hadded => by
    simp [h.added_new serial hadded] at hrevoked
  have hretired : retired ≠ some serial := fun hretired => by
    simp [h.active_of_retired hnow hretired] at hrevoked
  rw [h.credential, if_neg hadded, if_neg hretired, hrevoked]

theorem revoked_iff : serial ∈ next.revokedDeviceCredentials ↔
      ∃ device, next.credentialOf serial = some (device, .revoked) := by
  rw [h.revoked, hnow.revoked_iff]
  constructor
  · rintro (⟨device, hrevoked⟩ | hretired)
    · exact ⟨device, h.credentialOf_of_revoked hnow hrevoked⟩
    · have hadded : added ≠ some serial := fun hadded => by
        simpa [h.active_of_retired hnow hretired] using h.added_new serial hadded
      exact ⟨deviceId, by rw [h.credential, if_neg hadded, if_pos hretired]⟩
  · rintro ⟨device, hrevoked⟩
    rw [h.credential] at hrevoked
    split_ifs at hrevoked with hadded hretired
    · simp at hrevoked
    · exact .inr hretired
    · exact .inl ⟨device, hrevoked⟩

theorem credentialsMatch : CredentialsMatch next :=
  ⟨h.active_iff hnow, h.revoked_iff hnow⟩

end

end

end Moves

namespace PgAuthorityRepository

variable {good : Database → Prop} {now : Database} {keys keys' : List RowKey}
  {writes writes' : Writes authoritySchema}

/-! ### Statements -/

variable {deviceId : Text}

theorem selectAuthority_ends {wanted : AuthorityRow → Bool} {found : Option AuthorityRow}
    (h : Reaches authoritySchema good now ⟨keys, [], selectAuthority deviceId wanted⟩
      ⟨keys', writes', .pure found⟩) :
    writes' = [] ∧ ∀ row, found = some row → .authority deviceId ∈ keys' ∧
      now.enrollmentAuthority[deviceId]? = some row ∧ wanted row = true := by
  obtain ⟨rfl, ⟨row, rfl, rfl, hrow⟩ | ⟨rfl, rfl⟩⟩ := Reaches.of_select h
  · refine ⟨rfl, fun other hother => ?_⟩
    obtain rfl := Option.some.inj hother
    obtain ⟨hget, hwanted⟩ := Option.filter_eq_some_iff.mp hrow
    exact ⟨List.mem_cons_self, hget, hwanted⟩
  · exact ⟨rfl, fun row hrow => nomatch hrow⟩

variable {serial : Bytes} {written : Bool}

/-- The credential of the active serial of a device whose row is locked is found and revoked. -/
theorem revokeCredential_ends (hgood : ∀ db, good db → CredentialsMatch db)
    (hlocked : .authority deviceId ∈ keys) (hactive : now.activeSerial deviceId = some serial)
    (h : Reaches authoritySchema good now ⟨keys, [], revokeCredential deviceId serial⟩
      ⟨keys', writes', .pure written⟩) : keys' = .credential serial :: keys ∧ ∃ row : CredentialRow,
      row.deviceId = deviceId ∧ row.credentialStatus = .revoked ∧
        writes' = [⟨.credential serial, row⟩] := by
  rcases of_update h with ⟨seen, row, -, hchange, -, rfl, rfl⟩ |
    ⟨seen, hseen, hchange, -, rfl, rfl⟩
  · refine ⟨rfl, row, ?_⟩
    obtain ⟨found, hfound, rfl⟩ := Option.map_eq_some_iff.mp (Except.ok.inj hchange)
    have := (Option.filter_eq_some_iff.mp hfound).2
    simp only [decide_eq_true_eq] at this
    exact ⟨this.1, rfl, rfl⟩
  · -- The state seen has the same authority row, so its active credential would have been found.
    exfalso
    have hsame : seen.activeSerial deviceId = some serial := by
      rw [← hactive, Database.activeSerial, Database.activeSerial]
      exact congrArg (Option.bind · _) (hseen.2 _ hlocked)
    obtain ⟨row, hrow, heq⟩ :=
      Option.map_eq_some_iff.mp ((hgood _ hseen.1).active_iff.mpr hsame)
    have hfilter : seen.deviceRouteCredentials[serial]?.filter
        (fun row => row.deviceId = deviceId ∧ row.credentialStatus = .active) = some row := by
      rw [hrow, Option.filter_some]
      simpa using heq
    have hnone := Option.map_eq_none_iff.mp (Except.ok.inj hchange)
    rw [overlay_nil] at hnone
    exact absurd (hfilter.symm.trans hnone) (by simp)

variable {onConflict : Except RepositoryError (Option Text)}

/-- A serial whose active credential is locked is not in the list of revoked serials yet. -/
theorem insertRevoked_ends (hgood : ∀ db, good db → CredentialsMatch db)
    (hconflict : ∀ other, onConflict ≠ .ok (some other)) (hlocked : .credential serial ∈ keys)
    (hactive : now.credentialOf serial = some (deviceId, .active)) {row : CredentialRow}
    (h : Reaches authoritySchema good now
      ⟨keys, [⟨.credential serial, row⟩], insertRevoked onConflict deviceId serial⟩
      ⟨keys', writes', .pure written⟩) : keys' = .revoked serial :: keys ∧
      writes' = [⟨.revoked serial, deviceId⟩, ⟨.credential serial, row⟩] := by
  rcases of_update h with ⟨seen, inserted, -, hchange, -, rfl, rfl⟩ |
    ⟨seen, hseen, hchange, -, rfl, rfl⟩
  · refine ⟨rfl, ?_⟩
    unfold revokedRow at hchange
    split at hchange <;> split_ifs at hchange
    · exact absurd hchange (hconflict _)
    · rw [← Option.some.inj (Except.ok.inj hchange)]
  · -- In the state seen the credential is active as well.
    exfalso
    have hsame : seen.credentialOf serial = some (deviceId, .active) := by
      rw [← hactive, Database.credentialOf, Database.credentialOf]
      exact congrArg (Option.map _) (hseen.2 _ hlocked)
    have hnot : serial ∉ seen.revokedDeviceCredentials := by
      rw [(hgood _ hseen.1).revoked_iff, hsame]
      simp
    have hnone : authoritySchema.get (.revoked serial)
        (overlay ([⟨.credential serial, row⟩] : Writes authoritySchema) seen) = none := Map.not_mem_iff_get.mp hnot
    rw [hnone, revokedRow] at hchange
    split_ifs at hchange
    simp at hchange

variable {row : AuthorityRow}

/-- A row that is locked and has the serial is found and written. -/
theorem clearActiveSerial_ends (hlocked : .authority deviceId ∈ keys)
    (h : Reaches authoritySchema good now ⟨keys, writes, clearActiveSerial deviceId serial⟩
      ⟨keys', writes', .pure written⟩)
    (hrow : (overlay writes now).enrollmentAuthority[deviceId]? = some row)
    (hactive : row.activeSerial = some serial) :
    writes' = ⟨.authority deviceId, { row with activeSerial := none }⟩ :: writes := by
  have hfilter : Option.filter (fun row : AuthorityRow => row.activeSerial = some serial)
      (some row) = some row := by
    rw [Option.filter_some]
    simpa using hactive
  rcases of_update h with ⟨seen, cleared, -, hchange, -, rfl, rfl⟩ |
    ⟨seen, hseen, hchange, -, rfl, rfl⟩
  · have hcleared := Except.ok.inj hchange
    rw [show authoritySchema.get (.authority deviceId) (overlay writes now) = some row from hrow,
      hfilter] at hcleared
    rw [← Option.some.inj hcleared]
  · have hnone := Except.ok.inj hchange
    rw [get_overlay_congr (hseen.2 _ hlocked),
      show authoritySchema.get (.authority deviceId) (overlay writes' now) = some row from hrow,
      hfilter] at hnone
    simp at hnone

variable {time : ℕ} {request : ProvisionDeviceRequestV1}

theorem upsertAuthority_ends {tokenDigest : Digest}
    (h : Reaches authoritySchema good now ⟨keys, writes, upsertAuthority request tokenDigest time⟩
      ⟨keys', writes', .pure written⟩) :
    writes' = ⟨.authority request.deviceId, request.row tokenDigest time
      ((overlay writes now).activeSerial request.deviceId)⟩ :: writes := by
  rcases of_update h with ⟨seen, row, -, hchange, -, rfl, rfl⟩ |
    ⟨seen, hseen, hchange, -, rfl, rfl⟩
  · rw [Option.some.inj (checked_eq_ok hchange)]
    rfl
  · exact nomatch checked_eq_ok hchange

theorem consume_ends {activeSerial : AuthorityRow → Option Bytes}
    (h : Reaches authoritySchema good now ⟨keys, writes, consume deviceId time activeSerial⟩
      ⟨keys', writes', .pure true⟩)
    (hrow : (overlay writes now).enrollmentAuthority[deviceId]? = some row) :
    writes' = ⟨.authority deviceId,
      { row with tokenConsumedAt := some time, activeSerial := activeSerial row }⟩ :: writes := by
  rcases of_update h with ⟨seen, consumed, -, hchange, -, rfl, rfl⟩ |
    ⟨seen, hseen, hchange, hfalse, rfl, rfl⟩
  · rw [show authoritySchema.get (.authority deviceId) (overlay writes now) = some row from hrow]
      at hchange
    split at hchange
    · simp at hchange
    · rename_i found hfound
      obtain rfl : row = found := Option.some.inj (Option.filter_eq_some_iff.mp hfound).1
      rw [Option.some.inj (checked_eq_ok hchange)]
  · simp at hfalse

theorem insertCredential_ends {digest : Digest}
    (h : Reaches authoritySchema good now ⟨keys, writes, insertCredential deviceId serial digest⟩
      ⟨keys', writes', .pure written⟩) : (overlay writes now).credentialOf serial = none ∧
      writes' = ⟨.credential serial, ⟨deviceId, .active, digest⟩⟩ :: writes := by
  rcases of_update h with ⟨seen, row, -, hchange, -, rfl, rfl⟩ |
    ⟨seen, hseen, hchange, -, rfl, rfl⟩
  · split_ifs at hchange with hfree
    rw [← Option.some.inj (Except.ok.inj hchange)]
    exact ⟨Option.map_eq_none_iff.mpr hfree.2.1, rfl⟩
  · split_ifs at hchange
    simp at hchange

/-! ### Transactions -/

/-- The active credential of a device whose row is locked is revoked in both tables. -/
theorem retire_ends (hgood : ∀ db, good db → CredentialsMatch db) (hnow : CredentialsMatch now)
    (hconflict : ∀ other, onConflict ≠ .ok (some other))
    {ended : Unit} (hlocked : .authority deviceId ∈ keys)
    (hactive : now.activeSerial deviceId = some serial)
    (h : Reaches authoritySchema good now ⟨keys, [], retire onConflict deviceId serial⟩
      ⟨keys', writes', .pure ended⟩) : .authority deviceId ∈ keys' ∧ ∃ row : CredentialRow,
      row.deviceId = deviceId ∧ row.credentialStatus = .revoked ∧
        writes' = [⟨.revoked serial, deviceId⟩, ⟨.credential serial, row⟩] := by
  obtain ⟨_, _, _, hfirst, h⟩ := of_bind h
  obtain ⟨rfl, row, hdevice, hrevoked, rfl⟩ := revokeCredential_ends hgood hlocked hactive hfirst
  obtain ⟨_, _, _, hsecond, h⟩ := of_bind h
  obtain ⟨rfl, rfl⟩ := insertRevoked_ends hgood hconflict List.mem_cons_self
    (hnow.active_iff.mpr hactive) hsecond
  obtain ⟨-, rfl, rfl⟩ := of_pure h
  exact ⟨by simp [hlocked], row, hdevice, hrevoked, rfl⟩

/-- The tables after the row of a device has been written and its active credential revoked. -/
theorem moves_of_retired {credential : CredentialRow}
    (hactive : now.activeSerial deviceId = some serial) (hdevice : credential.deviceId = deviceId)
    (hrevoked : credential.credentialStatus = .revoked) (hnone : row.activeSerial = none) :
    Moves now (((now.putCredential serial credential).putRevoked serial deviceId).putAuthority
      deviceId row) deviceId row (some serial) none where
  authority other := by simp [Map.get_insert]
  credential other := by simp [Database.credentialOf_putCredential, hdevice, hrevoked]
  revoked other := by
    simp only [Database.revokedDeviceCredentials_putAuthority,
      Database.revokedDeviceCredentials_putRevoked,
      Database.revokedDeviceCredentials_putCredential, Std.ExtTreeMap.mem_insert,
      Std.LawfulEqCmp.compare_eq_iff_eq, Option.some.injEq]
    exact or_comm
  added_new _ h := absurd h (by simp)
  serials := .inr ⟨hactive.symm, hnone⟩

/-- The tables after the row of a device has been written. -/
theorem moves_of_kept (hkept : row.activeSerial = now.activeSerial deviceId) :
    Moves now (now.putAuthority deviceId row) deviceId row none none where
  authority other := by simp [Map.get_insert]
  credential other := by simp
  revoked other := by simp
  added_new _ h := absurd h (by simp)
  serials := .inl ⟨rfl, rfl, hkept⟩

variable {sha256 : Bytes → Digest}

/-- A committed provisioning has written the row of its device with its token, and revoked the
active credential if it was a recovery that found one. -/
theorem provision_commits (hgood : ∀ db, good db → CredentialsMatch db)
    (hnow : CredentialsMatch now) {token answer : Text}
    (h : Reaches authoritySchema good now ⟨[], [], provision sha256 request token time⟩
      ⟨keys', writes', .pure answer⟩) :
    ∃ retired row, Moves now (overlay writes' now) request.deviceId row retired none ∧
      row.tokenDigest = sha256 (utf8 token) ∧ row.tokenConsumedAt = none := by
  obtain ⟨_, _, existing, hselect, h⟩ := of_bind h
  obtain ⟨rfl, hexisting⟩ := selectAuthority_ends hselect
  obtain ⟨_, _, _, hretire, h⟩ := of_bind h
  obtain ⟨_, _, _, hupsert, h⟩ := of_bind h
  obtain ⟨-, rfl, rfl⟩ := of_pure h
  obtain rfl := upsertAuthority_ends hupsert
  cases hserial : (if request.recovery then existing.bind AuthorityRow.activeSerial else none) with
  | none =>
    rw [hserial] at hretire
    obtain ⟨-, rfl, rfl⟩ := of_pure hretire
    exact ⟨none, _, moves_of_kept rfl, rfl, rfl⟩
  | some serial =>
    rw [hserial] at hretire
    obtain ⟨row, rfl, hrow⟩ : ∃ row, existing = some row ∧ row.activeSerial = some serial := by
      split_ifs at hserial
      exact Option.bind_eq_some_iff.mp hserial
    obtain ⟨hlocked, hget, -⟩ := hexisting row rfl
    have hactive : now.activeSerial request.deviceId = some serial := by
      rw [Database.activeSerial, hget]
      exact hrow
    obtain ⟨_, _, _, hfirst, hretire⟩ := of_bind hretire
    obtain ⟨hlocked, credential, hdevice, hrevoked, rfl⟩ :=
      retire_ends hgood hnow (fun _ => by simp) hlocked hactive hfirst
    obtain ⟨_, _, _, hclear, hretire⟩ := of_bind hretire
    obtain rfl := clearActiveSerial_ends hlocked hclear hget hrow
    obtain ⟨-, rfl, rfl⟩ := of_pure hretire
    -- The row is written twice, without its active serial the first time.
    let retired := (now.putCredential serial credential).putRevoked serial request.deviceId
    let cleared := retired.putAuthority request.deviceId { row with activeSerial := none }
    have hcleared : cleared.activeSerial request.deviceId = none := by
      simp [cleared, Database.activeSerial]
    refine ⟨some serial, request.row (sha256 (utf8 token)) time none, ?_, rfl, rfl⟩
    change Moves now (cleared.putAuthority request.deviceId
      (request.row (sha256 (utf8 token)) time (cleared.activeSerial request.deviceId))) _ _ _ _
    rw [hcleared, Database.putAuthority_putAuthority]
    exact moves_of_retired hactive hdevice hrevoked rfl

/-- A committed consumption has found the token pending in the row of its device, and consumed
it. -/
theorem consumeToken_commits {fingerprintDigest : Digest} {token : Text} {answer : Unit}
    (h : Reaches authoritySchema good now
      ⟨[], [], consumeToken sha256 deviceId fingerprintDigest token time⟩
      ⟨keys', writes', .pure answer⟩) :
    ∃ found row, Moves now (overlay writes' now) deviceId row none none ∧
      now.enrollmentAuthority[deviceId]? = some found ∧ found.tokenConsumedAt = none ∧
      found.tokenDigest = sha256 (utf8 token) ∧ row.tokenDigest = found.tokenDigest ∧
      row.tokenConsumedAt ≠ none := by
  obtain ⟨_, _, selected, hselect, h⟩ := of_bind h
  obtain ⟨rfl, hselected⟩ := selectAuthority_ends hselect
  cases selected with
  | none => exact (not_of_fail h).elim
  | some found =>
    obtain ⟨-, hget, hpending⟩ := hselected found rfl
    simp only [isPending, decide_eq_true_eq] at hpending
    dsimp only at h
    split_ifs at h with hwrong
    · exact (not_of_fail h).elim
    · obtain ⟨_, _, consumed, hconsume, h⟩ := of_bind h
      split_ifs at h with hconsumed
      · subst hconsumed
        obtain rfl := consume_ends hconsume hget
        obtain ⟨-, rfl, rfl⟩ := of_pure h
        simp only [not_or, not_not] at hwrong
        have hkept : found.activeSerial = now.activeSerial deviceId := by
          rw [Database.activeSerial, hget]
          rfl
        exact ⟨found, { found with tokenConsumedAt := some time }, moves_of_kept hkept, hget,
          hpending.1, hwrong.2, rfl, by simp⟩
      · exact (not_of_fail h).elim

variable {newSerial : Bytes}

/-- The tables after an activation: the previous credential, if any, is revoked and the new one
added. -/
theorem activate_commits (hgood : ∀ db, good db → CredentialsMatch db)
    (hnow : CredentialsMatch now) {T : Type}
    {issued : T × Digest} {answer : T} {found : AuthorityRow} (hlocked : .authority deviceId ∈ keys)
    (hget : now.enrollmentAuthority[deviceId]? = some found) (h : Reaches authoritySchema good now
      ⟨keys, [], activate deviceId found.activeSerial newSerial time issued⟩
      ⟨keys', writes', .pure answer⟩) : Moves now (overlay writes' now) deviceId
      { found with tokenConsumedAt := some time, activeSerial := some newSerial }
      found.activeSerial (some newSerial) := by
  have hactive : now.activeSerial deviceId = found.activeSerial := by
    rw [Database.activeSerial, hget]
    rfl
  obtain ⟨_, _, _, hretire, h⟩ := of_bind h
  obtain ⟨_, _, consumed, hconsume, h⟩ := of_bind h
  split_ifs at h with hconsumed
  · subst hconsumed
    obtain ⟨_, _, _, hinsert, h⟩ := of_bind h
    obtain ⟨-, rfl, rfl⟩ := of_pure h
    cases hserial : found.activeSerial with
    | none =>
      rw [hserial] at hretire
      obtain ⟨-, rfl, rfl⟩ := of_pure hretire
      obtain rfl := consume_ends hconsume hget
      obtain ⟨hnew, rfl⟩ := insertCredential_ends hinsert
      change Moves now ((now.putAuthority deviceId _).putCredential newSerial _) _ _ _ _
      exact {
        authority := fun other => by simp [Map.get_insert]
        credential := fun other => by simp [Database.credentialOf_putCredential]
        revoked := fun other => by simp
        added_new := fun serial hadded => Option.some.inj hadded ▸ hnew
        serials := .inr ⟨by rw [hactive, hserial], rfl⟩ }
    | some previous =>
      rw [hserial] at hretire hactive
      obtain ⟨-, credential, hdevice, hrevoked, rfl⟩ :=
        retire_ends hgood hnow (fun _ => by simp) hlocked hactive hretire
      obtain rfl := consume_ends hconsume hget
      obtain ⟨hnew, rfl⟩ := insertCredential_ends hinsert
      change Moves now ((((now.putCredential previous credential).putRevoked previous
        deviceId).putAuthority deviceId _).putCredential newSerial _) _ _ _ _
      have hnew' : (now.putCredential previous credential).credentialOf newSerial = none := hnew
      rw [Database.credentialOf_putCredential] at hnew'
      exact {
        authority := fun other => by simp [Map.get_insert]
        credential := fun other => by
          simp [Database.credentialOf_putCredential, hdevice, hrevoked]
        revoked := fun other => by
          simp only [Database.revokedDeviceCredentials_putAuthority,
            Database.revokedDeviceCredentials_putRevoked,
            Database.revokedDeviceCredentials_putCredential, Std.ExtTreeMap.mem_insert,
            Std.LawfulEqCmp.compare_eq_iff_eq, Option.some.injEq]
          exact or_comm
        added_new := fun serial hadded => by
          rw [← Option.some.inj hadded]
          split_ifs at hnew'
          exact hnew'
        serials := .inr ⟨hactive.symm, rfl⟩ }
  · exact (not_of_fail h).elim

/-- A committed activation has found the token pending in the row of its device, whose active serial
was the one that the caller names, and has replaced that serial by the new one. -/
theorem consumeAndActivate_commits (hgood : ∀ db, good db → CredentialsMatch db)
    (hnow : CredentialsMatch now) {T : Type} {deviceId token : Text}
    {priorSerial : Option Bytes} {issue : Bytes → Except RepositoryError (T × Digest)}
    {answer : T} (h : Reaches authoritySchema good now
      ⟨[], [], consumeAndActivate sha256 deviceId token priorSerial issue newSerial time⟩
      ⟨keys', writes', .pure answer⟩) :
    ∃ found row, Moves now (overlay writes' now) deviceId row priorSerial (some newSerial) ∧
      now.enrollmentAuthority[deviceId]? = some found ∧ found.tokenConsumedAt = none ∧
      found.tokenDigest = sha256 (utf8 token) ∧ row.tokenDigest = found.tokenDigest ∧
      row.tokenConsumedAt ≠ none ∧ found.activeSerial = priorSerial := by
  obtain ⟨_, _, selected, hselect, h⟩ := of_bind h
  obtain ⟨rfl, hselected⟩ := selectAuthority_ends hselect
  cases selected with
  | none => exact (not_of_fail h).elim
  | some found =>
    obtain ⟨hlocked, hget, hpending⟩ := hselected found rfl
    simp only [isPending, decide_eq_true_eq] at hpending
    dsimp only at h
    split_ifs at h with hwrong
    · exact (not_of_fail h).elim
    · simp only [not_or, not_not] at hwrong
      cases hissue : issue newSerial with
      | error error =>
        rw [hissue] at h
        exact (not_of_fail h).elim
      | ok issued =>
        rw [hissue] at h
        have hmoves := activate_commits hgood hnow hlocked hget h
        rw [hwrong.2] at hmoves
        exact ⟨found, _, hmoves, hget, hpending.1, hwrong.1, rfl, by simp, hwrong.2⟩

end PgAuthorityRepository

end Wdlp
