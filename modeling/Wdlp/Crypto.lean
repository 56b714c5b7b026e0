import Wdlp.Domain

/-!
# Authenticated records

The encrypted-record primitives of the crypto crate. A record is sealed under a store key with a
fresh nonce and with its header as associated data; `RecordAad.canonicalBytes` is the form in which
the header is authenticated.

AES-256-GCM and SHA-256 are parameters of the development (`Primitives`). What is assumed of the
cipher is stated where it is used: `Primitives.Correct` for results on what can be read back, and a
log of the sealed records for results against an attacker.

## Main definitions

* `RecordKind`, `RecordAad`, `RecordAad.canonicalBytes` — record headers.
* `Primitives`, `Primitives.Correct`, `Primitives.plain` — the cipher, what it does for its owner,
  and a cipher that hides nothing, for runs on concrete inputs.
* `NonceTracker` — the nonces seen in one flush or one read.

## Main results

* `RecordAad.canonicalBytes_inj` — the authenticated bytes determine the header.
* `RecordAad.canonicalBytes_unambiguous` — neither do they begin with those of another header.
-/

namespace Wdlp

open CrashSafe

/-- `FORMAT_ID_V1`. -/
def formatIdV1 : Text := "dlp-store/aes256gcm-4m/v1".toList

/-- `NONCE_LENGTH`. -/
def nonceLength : ℕ := 12

abbrev Nonce := { bytes : Bytes // bytes.length = nonceLength }

/-- A data-encryption key of 32 bytes. -/
abbrev StoreKey := { bytes : Bytes // bytes.length = 32 }

/-- The errors of the record primitives. -/
inductive CryptoError where
  | encryptionFailed
  | integrityFailure
  | duplicateNonce
  deriving DecidableEq, Repr

/-! ### Headers -/

inductive RecordKind where
  | chunk
  | manifest
  | commit
  deriving DecidableEq, Repr

def RecordKind.asByte : RecordKind → UInt8
  | chunk => 1
  | manifest => 2
  | commit => 3

theorem RecordKind.asByte_inj {x y : RecordKind} (h : x.asByte = y.asByte) : x = y := by
  cases x <;> cases y <;> first | rfl | exact absurd h (by decide)

/-- The header of a record, which is authenticated with it. -/
structure RecordAad where
  formatVersion : UInt16
  storeId : Text
  fileId : Text
  generation : UInt64
  recordKind : RecordKind
  chunkIndex : UInt64
  plaintextLength : UInt64
  deriving DecidableEq

namespace RecordAad

/-- The authenticated form of a header. The lengths of the two names are cut to 16 bits. -/
def canonicalBytes (aad : RecordAad) : Bytes :=
  utf8 formatIdV1 ++ (leBytes 2 aad.formatVersion.toNat ++ (sized aad.storeId ++
    (sized aad.fileId ++ (leBytes 8 aad.generation.toNat ++ ([aad.recordKind.asByte] ++
      (leBytes 8 aad.chunkIndex.toNat ++ leBytes 8 aad.plaintextLength.toNat))))))

/-- The names of a header are short enough for their lengths to be stored. -/
def Bounded (aad : RecordAad) : Prop :=
  (utf8 aad.storeId).length < 2 ^ 16 ∧ (utf8 aad.fileId).length < 2 ^ 16

/-- The header can be read off the beginning of a byte string. -/
theorem canonicalBytes_append_inj {a b : RecordAad} {x y : Bytes} (ha : a.Bounded) (hb : b.Bounded)
    (h : a.canonicalBytes ++ x = b.canonicalBytes ++ y) : a = b ∧ x = y := by
  have h64 : ∀ n : UInt64, n.toNat < 256 ^ 8 := fun n => n.toNat_lt
  have h16 : ∀ n : UInt16, n.toNat < 256 ^ 2 := fun n => n.toNat_lt
  simp only [canonicalBytes, List.append_assoc] at h
  obtain ⟨hversion, h⟩ := leBytes_append_inj (h16 _) (h16 _) (List.append_cancel_left h)
  obtain ⟨hstore, h⟩ := sized_append_inj ha.1 hb.1 h
  obtain ⟨hfile, h⟩ := sized_append_inj ha.2 hb.2 h
  obtain ⟨hgeneration, h⟩ := leBytes_append_inj (h64 _) (h64 _) h
  obtain ⟨hkind, h⟩ := List.append_inj h rfl
  obtain ⟨hindex, h⟩ := leBytes_append_inj (h64 _) (h64 _) h
  obtain ⟨hlength, h⟩ := leBytes_append_inj (h64 _) (h64 _) h
  have hkind := RecordKind.asByte_inj (List.singleton_inj.mp hkind)
  refine ⟨?_, h⟩
  cases a
  cases b
  simp only [mk.injEq]
  exact ⟨UInt16.toNat_inj.mp hversion, hstore, hfile, UInt64.toNat_inj.mp hgeneration, hkind,
    UInt64.toNat_inj.mp hindex, UInt64.toNat_inj.mp hlength⟩

/-- The authenticated bytes determine the header. -/
theorem canonicalBytes_inj {a b : RecordAad} (ha : a.Bounded) (hb : b.Bounded)
    (h : a.canonicalBytes = b.canonicalBytes) : a = b :=
  (canonicalBytes_append_inj ha hb (congrArg (· ++ []) h)).1

/-- The names of a header are identifiers. -/
def Identified (aad : RecordAad) : Prop :=
  (∃ store : StoreId, store.toWire = aad.storeId) ∧ ∃ file : FileId, file.toWire = aad.fileId

theorem Identified.bounded {aad : RecordAad} (h : aad.Identified) : aad.Bounded := by
  obtain ⟨⟨store, hstore⟩, file, hfile⟩ := h
  exact ⟨hstore ▸ store.length_utf8_toWire, hfile ▸ file.length_utf8_toWire⟩

/-- Headers with identifiers for names are told apart by their authenticated bytes, and the bytes of
one never go on where those of another end. -/
theorem canonicalBytes_unambiguous {a b : RecordAad} (ha : a.Identified) (hb : b.Identified) :
    (a.canonicalBytes = b.canonicalBytes → a = b) ∧
      (a.canonicalBytes <+: b.canonicalBytes → a.canonicalBytes = b.canonicalBytes) := by
  refine ⟨canonicalBytes_inj ha.bounded hb.bounded, ?_⟩
  rintro ⟨rest, hrest⟩
  have h : a.canonicalBytes ++ rest = b.canonicalBytes ++ [] := by
    rw [hrest, List.append_nil]
  rw [(canonicalBytes_append_inj ha.bounded hb.bounded h).1]

/-- The header of the first chunk of a file. -/
def firstChunk (storeId fileId : Text) : RecordAad where
  formatVersion := 1
  storeId := storeId
  fileId := fileId
  generation := 1
  recordKind := .chunk
  chunkIndex := 0
  plaintextLength := 3

/-- Moving a letter from one name to the other makes another header. -/
theorem canonicalBytes_unambiguous_firstChunk :
    ¬(firstChunk ['a', 'b'] ['c']).canonicalBytes <+:
      (firstChunk ['a'] ['b', 'c']).canonicalBytes := by
  intro h
  obtain ⟨hinj, hend⟩ := canonicalBytes_unambiguous (a := firstChunk ['a', 'b'] ['c'])
    (b := firstChunk ['a'] ['b', 'c'])
    ⟨⟨⟨['a', 'b'], by decide, by decide⟩, rfl⟩, ⟨['c'], by decide, by decide⟩, rfl⟩
    ⟨⟨⟨['a'], by decide, by decide⟩, rfl⟩, ⟨['b', 'c'], by decide, by decide⟩, rfl⟩
  exact absurd (hinj (hend h)) (by decide)

end RecordAad

/-! ### The cipher -/

/-- AES-256-GCM, with its nonce as an argument, and the printed form of a SHA-256 digest. -/
structure Primitives where
  encrypt : StoreKey → Nonce → (aad plaintext : Bytes) → Option Bytes
  decrypt : StoreKey → Nonce → (aad ciphertext : Bytes) → Option Bytes
  digest : Bytes → Text

namespace Primitives

/-- What the owner of the key can rely on: a sealed text opens, a ciphertext is its plaintext with a
tag of 16 bytes, and a text of up to a gigabyte can be sealed. -/
structure Correct (P : Primitives) : Prop where
  decrypt_encrypt : ∀ {key nonce aad plaintext ciphertext},
    P.encrypt key nonce aad plaintext = some ciphertext →
      P.decrypt key nonce aad ciphertext = some plaintext
  length_encrypt : ∀ {key nonce aad plaintext ciphertext},
    P.encrypt key nonce aad plaintext = some ciphertext →
      ciphertext.length = plaintext.length + 16
  encrypt_isSome : ∀ key nonce aad plaintext, plaintext.length ≤ 2 ^ 30 →
    (P.encrypt key nonce aad plaintext).isSome

/-- A cipher that hides nothing: the tag is 16 zeros. -/
def plain : Primitives where
  encrypt _ _ _ plaintext := some (plaintext ++ List.replicate 16 0)
  decrypt _ _ _ ciphertext :=
    if List.replicate 16 0 <:+ ciphertext then some (ciphertext.take (ciphertext.length - 16))
    else none
  digest _ := []

theorem plain_correct : plain.Correct where
  decrypt_encrypt h := by
    cases h
    simp [plain]
  length_encrypt h := by
    cases h
    simp
  encrypt_isSome _ _ _ _ _ := rfl

end Primitives

/-- `RecordCipher::encrypt`, with the nonce it draws as an argument. -/
def RecordCipher.encrypt (P : Primitives) (key : StoreKey) (nonce : Nonce) (aad : RecordAad)
    (plaintext : Bytes) : Except CryptoError (Nonce × Bytes) :=
  match P.encrypt key nonce aad.canonicalBytes plaintext with
  | some ciphertext => .ok (nonce, ciphertext)
  | none => .error .encryptionFailed

/-- `RecordCipher::decrypt`. -/
def RecordCipher.decrypt (P : Primitives) (key : StoreKey) (aad : RecordAad) (nonce : Nonce)
    (ciphertext : Bytes) : Except CryptoError Bytes :=
  match P.decrypt key nonce aad.canonicalBytes ciphertext with
  | some plaintext => .ok plaintext
  | none => .error .integrityFailure

theorem RecordCipher.encrypt_eq_ok {P : Primitives} {key : StoreKey} {nonce : Nonce}
    {aad : RecordAad} {plaintext : Bytes} {sealed : Nonce × Bytes} :
    encrypt P key nonce aad plaintext = .ok sealed ↔
      sealed.1 = nonce ∧ P.encrypt key nonce aad.canonicalBytes plaintext = some sealed.2 := by
  unfold encrypt
  cases P.encrypt key nonce aad.canonicalBytes plaintext with
  | none => simp
  | some ciphertext => simp [Prod.ext_iff, eq_comm]

theorem RecordCipher.decrypt_eq_ok {P : Primitives} {key : StoreKey} {nonce : Nonce}
    {aad : RecordAad} {plaintext ciphertext : Bytes} : decrypt P key aad nonce ciphertext = .ok
    plaintext ↔ P.decrypt key nonce aad.canonicalBytes ciphertext = some plaintext := by
  unfold decrypt
  cases P.decrypt key nonce aad.canonicalBytes ciphertext <;> simp

/-! ### Nonces -/

/-- The set of nonces seen so far. -/
structure NonceTracker where
  seen : List Nonce := []

namespace NonceTracker

/-- Add a nonce that was not seen before. -/
def insert (tracker : NonceTracker) (nonce : Nonce) : Except CryptoError NonceTracker :=
  if nonce ∈ tracker.seen then .error .duplicateNonce else .ok ⟨nonce :: tracker.seen⟩

theorem insert_eq_ok {tracker next : NonceTracker} {nonce : Nonce} : tracker.insert
    nonce = .ok next ↔ nonce ∉ tracker.seen ∧ next = ⟨nonce :: tracker.seen⟩ := by
  unfold insert
  split
  · next h => simp [h]
  · next h => simp [h, eq_comm]

end NonceTracker

end Wdlp
