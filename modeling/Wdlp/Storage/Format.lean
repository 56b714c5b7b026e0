import Wdlp.Lib.Reader
import Wdlp.Crypto

/-!
# The on-disk format

The three byte formats of the encrypted store: the encrypted record, whose header is also its
associated data, the manifest that lists the chunks of one generation of a file, and the commit
record that names a generation.

## Main definitions

* `StorageError`, `CapturedStoreIdentity`, `chunkSize` — from the root of the storage crate.
* `EncryptedRecordV1` with `sealRecord`, `openRecord`, `encode` and `decode`.
* `EncryptedManifestV1`, `CommitRecordV1` with `encode` and `decode`.

## Main results

* `EncryptedRecordV1.decode_encode`, `EncryptedManifestV1.decode_encode`,
  `CommitRecordV1.decode_encode` — what was written is read back.
* `EncryptedRecordV1.openRecord_sealRecord` — what was sealed is opened.
-/

namespace Wdlp

open CrashSafe
open Reader (bind_of_ok failIf_neg pure_run remaining_run take take_append word_append)

inductive StorageError where
  | flushNotDurable
  | closeNotDurable
  | integrityFailure
  | recoveryRequired
  | noSpace
  | unavailable
  | notFound
  | ioFailure
  | alreadyExists
  | sharingViolation
  | deletePending
  deriving DecidableEq, Repr

/-- The user and the store of a session. -/
structure CapturedStoreIdentity where
  userSid : UserSid
  storeId : StoreId
  deriving DecidableEq

/-- `CHUNK_SIZE`. -/
@[irreducible] def chunkSize : ℕ := 4 * 1024 * 1024

theorem chunkSize_eq : chunkSize = 4194304 := by
  unfold chunkSize
  rfl

/-- `FORMAT_VERSION_V1`. -/
def formatVersionV1 : UInt16 := 1

/-- `MAGIC`. -/
def magic : Bytes := utf8 "DLP1".toList

/-- `MAX_CIPHERTEXT`. -/
def maxCiphertext : ℕ := 4 * 1024 * 1024 + 64 * 1024

/-! ### Fields -/

namespace Cursor

/-- `Cursor::take`. -/
def take (count : ℕ) : Reader StorageError Bytes := Reader.take .integrityFailure count

/-- `Cursor::byte`. -/
def byte : Reader StorageError UInt8 := do
  let raw ← take 1
  return raw.headD 0

/-- `Cursor::u16`. -/
def u16 : Reader StorageError UInt16 := do
  let n ← Reader.word .integrityFailure 2
  return UInt16.ofNat n

/-- `Cursor::u32`. -/
def u32 : Reader StorageError UInt32 := do
  let n ← Reader.word .integrityFailure 4
  return UInt32.ofNat n

/-- `Cursor::u64`. -/
def u64 : Reader StorageError UInt64 := do
  let n ← Reader.word .integrityFailure 8
  return UInt64.ofNat n

/-- The names a record can hold. -/
def IsName (text : Text) : Prop :=
  text ≠ [] ∧ (utf8 text).length ≤ 128 ∧ (utf8 text).all (isIdentifierByte false) = true

instance (text : Text) : Decidable (IsName text) := inferInstanceAs (Decidable (_ ∧ _ ∧ _))

/-- `Cursor::text`. -/
def text (count : ℕ) : Reader StorageError Text := do
  let raw ← take count
  match fromUtf8 raw with
  | none => throw .integrityFailure
  | some text => if IsName text then return text else throw .integrityFailure

variable {s : Bytes}

theorem byte_append (b : UInt8) : byte ([b] ++ s) = .ok (b, s) := by
  have h : (Reader.take StorageError.integrityFailure 1) ([b] ++ s) = .ok ([b], s) :=
    Reader.take_append rfl
  rw [byte, take, Reader.bind_of_ok h]
  rfl

theorem u16_append (n : UInt16) : u16 (leBytes 2 n.toNat ++ s) = .ok (n, s) := by
  rw [u16, bind_of_ok (word_append n.toNat_lt), pure_run, UInt16.ofNat_toNat]

theorem u32_append (n : UInt32) : u32 (leBytes 4 n.toNat ++ s) = .ok (n, s) := by
  rw [u32, bind_of_ok (word_append n.toNat_lt), pure_run, UInt32.ofNat_toNat]

theorem u64_append (n : UInt64) : u64 (leBytes 8 n.toNat ++ s) = .ok (n, s) := by
  rw [u64, bind_of_ok (word_append n.toNat_lt), pure_run, UInt64.ofNat_toNat]

theorem text_append {t : Text} {count : ℕ} (h : IsName t) (hc : (utf8 t).length = count) :
    text count (utf8 t ++ s) = .ok (t, s) := by
  rw [text, take, bind_of_ok (take_append hc), fromUtf8_utf8]
  exact congrArg (fun x : Reader StorageError Text => x s) (if_pos h)

/-- A name is read back, with its length in front. -/
theorem u16_text_append {α : Type} {t : Text} {f : Text → Reader StorageError α} (h : IsName t) :
    (do let count ← u16; let name ← text count.toNat; f name) (sized t ++ s) = f t s := by
  have hlt : (utf8 t).length < 2 ^ 16 := lt_of_le_of_lt h.2.1 (by norm_num)
  have hlen : (UInt16.ofNat (utf8 t).length).toNat = (utf8 t).length :=
    UInt16.toNat_ofNat_of_lt' hlt
  have hu := @u16_append (utf8 t ++ s) (UInt16.ofNat (utf8 t).length)
  rw [hlen] at hu
  rw [sized, List.append_assoc, bind_of_ok hu, bind_of_ok (text_append h hlen.symm)]

theorem extends_u16 : Reader.Extends u16 := .bind (.word 2) fun _ => .pure _

theorem extends_u32 : Reader.Extends u32 := .bind (.word 4) fun _ => .pure _

theorem extends_u64 : Reader.Extends u64 := .bind (.word 8) fun _ => .pure _

theorem extends_byte : Reader.Extends byte := .bind (.take 1) fun _ => .pure _

theorem extends_text (count : ℕ) : Reader.Extends (text count) := by
  refine .bind (.take count) fun raw => ?_
  split
  · exact .throw
  · split_ifs
    · exact .pure _
    · exact .throw

theorem isName_toWire {kind : IdentifierKind} (hdot : kind.allowDot = false)
    (x : Identifier kind) : IsName x.toWire := by
  have hv := x.valid
  rw [hdot] at hv
  exact ⟨x.nonempty, hv.1, hv.2.1⟩

end Cursor

/-! ### Encrypted records -/

/-- A record as it is stored: its header, its nonce and its ciphertext. -/
structure EncryptedRecordV1 where
  formatVersion : UInt16
  storeId : Text
  fileId : Text
  generation : UInt64
  recordKind : RecordKind
  chunkIndex : UInt64
  plaintextLength : UInt64
  nonce : Nonce
  ciphertext : Bytes
  deriving DecidableEq

/-- The kind of record that a byte stands for. -/
def RecordKind.ofByte (byte : UInt8) : Except StorageError RecordKind :=
  if byte = 1 then .ok chunk
  else if byte = 2 then .ok manifest
  else if byte = 3 then .ok commit
  else .error .integrityFailure

theorem RecordKind.ofByte_asByte (kind : RecordKind) : ofByte kind.asByte = .ok kind := by
  cases kind <;> rfl

/-- The record with the given header, nonce and ciphertext. -/
def RecordAad.toRecord (aad : RecordAad) (nonce : Nonce) (ciphertext : Bytes) :
    EncryptedRecordV1 where
  formatVersion := aad.formatVersion
  storeId := aad.storeId
  fileId := aad.fileId
  generation := aad.generation
  recordKind := aad.recordKind
  chunkIndex := aad.chunkIndex
  plaintextLength := aad.plaintextLength
  nonce := nonce
  ciphertext := ciphertext

namespace EncryptedRecordV1

/-- Seal a text with the nonce that the cipher has drawn. -/
def sealRecord (P : Primitives) (key : StoreKey) (drawn : Nonce) (aad : RecordAad)
    (plaintext : Bytes) (nonces : NonceTracker) :
    Except StorageError (EncryptedRecordV1 × NonceTracker) := do
  let (nonce, ciphertext) ←
    (RecordCipher.encrypt P key drawn aad plaintext).mapError fun _ => .integrityFailure
  let nonces ← (nonces.insert nonce).mapError fun _ => .integrityFailure
  return (aad.toRecord nonce ciphertext, nonces)

/-- The header of a record. -/
def aad (r : EncryptedRecordV1) : RecordAad where
  formatVersion := r.formatVersion
  storeId := r.storeId
  fileId := r.fileId
  generation := r.generation
  recordKind := r.recordKind
  chunkIndex := r.chunkIndex
  plaintextLength := r.plaintextLength

/-- Open a record. Its stated length always fits the address space, which has 64 bits here. -/
def openRecord (P : Primitives) (key : StoreKey) (r : EncryptedRecordV1) :
    Except StorageError Bytes := do
  failIf (r.formatVersion ≠ formatVersionV1 ∨ r.plaintextLength.toNat > 2 ^ 64 - 1)
    StorageError.integrityFailure
  let plaintext ←
    (RecordCipher.decrypt P key r.aad r.nonce r.ciphertext).mapError fun _ => .integrityFailure
  failIf (UInt64.ofNat plaintext.length ≠ r.plaintextLength) StorageError.integrityFailure
  return plaintext

/-- The bytes of a record, whatever the sizes of its fields. -/
def layout (r : EncryptedRecordV1) : Bytes :=
  magic ++ (leBytes 2 r.formatVersion.toNat ++ (sized r.storeId ++ (sized r.fileId ++
    (leBytes 8 r.generation.toNat ++ ([r.recordKind.asByte] ++ (leBytes 8 r.chunkIndex.toNat ++
      (leBytes 8 r.plaintextLength.toNat ++ (r.nonce.1 ++ (leBytes 8 r.ciphertext.length ++
        r.ciphertext)))))))))

/-- The stored form of a record. -/
def encode (r : EncryptedRecordV1) : Except StorageError Bytes := do
  failIf ((utf8 r.storeId).length > 2 ^ 16 - 1 ∨ (utf8 r.fileId).length > 2 ^ 16 - 1 ∨
    r.ciphertext.length > maxCiphertext) StorageError.integrityFailure
  return r.layout

/-- The nonce field of a record. -/
def nonceField : Reader StorageError Nonce := do
  let raw ← Cursor.take nonceLength
  if h : raw.length = nonceLength then return ⟨raw, h⟩ else throw .integrityFailure

/-- The ciphertext of a record, which takes up the rest of the stored bytes. -/
def ciphertextField : Reader StorageError Bytes := do
  let ciphertextLength ← Cursor.u64
  let remaining ← Reader.remaining
  failIf (ciphertextLength.toNat > maxCiphertext ∨ remaining ≠ ciphertextLength.toNat)
    StorageError.integrityFailure
  Cursor.take ciphertextLength.toNat

/-- The fields of a record, in order. -/
def fields : Reader StorageError EncryptedRecordV1 := do
  let start ← Cursor.take 4
  failIf (start ≠ magic) StorageError.integrityFailure
  let formatVersion ← Cursor.u16
  let storeLength ← Cursor.u16
  let storeId ← Cursor.text storeLength.toNat
  let fileLength ← Cursor.u16
  let fileId ← Cursor.text fileLength.toNat
  let generation ← Cursor.u64
  let kind ← Cursor.byte
  let recordKind ← liftM (RecordKind.ofByte kind)
  let chunkIndex ← Cursor.u64
  let plaintextLength ← Cursor.u64
  let nonce ← nonceField
  let ciphertext ← ciphertextField
  return {
    formatVersion, storeId, fileId, generation, recordKind, chunkIndex, plaintextLength, nonce,
    ciphertext }

/-- A record from its stored form. -/
def decode (bytes : Bytes) : Except StorageError EncryptedRecordV1 := do
  let (record, _) ← fields bytes
  return record

variable {r : EncryptedRecordV1}

theorem encode_eq_ok {bytes : Bytes} : r.encode = .ok
    bytes ↔ (utf8 r.storeId).length ≤ 2 ^ 16 - 1 ∧ (utf8 r.fileId).length ≤
    2 ^ 16 - 1 ∧ r.ciphertext.length ≤ maxCiphertext ∧ r.layout = bytes := by
  simp only [encode, except_bind_eq_ok, except_failIf_eq_ok, except_pure_eq_ok, exists_const,
    not_or, not_lt, and_assoc]

private theorem nonceField_append (n : Nonce) (s : Bytes) : nonceField (n.1 ++ s) = .ok (n, s) := by
  rw [nonceField, Cursor.take, bind_of_ok (take_append n.2), dif_pos n.2]
  rfl

private theorem ciphertextField_append {c : Bytes} (h : c.length ≤ maxCiphertext) :
    ciphertextField (leBytes 8 c.length ++ c) = .ok (c, []) := by
  have hlt : c.length < 2 ^ 64 := lt_of_le_of_lt h (by norm_num [maxCiphertext])
  have hlen : (UInt64.ofNat c.length).toNat = c.length := UInt64.toNat_ofNat_of_lt' hlt
  have hu := @Cursor.u64_append c (UInt64.ofNat c.length)
  have htake : Cursor.take c.length c = .ok (c, []) := by
    have h := @take_append _ StorageError.integrityFailure [] c.length c rfl
    rwa [List.append_nil] at h
  rw [hlen] at hu
  rw [ciphertextField, bind_of_ok hu, bind_of_ok remaining_run, hlen,
    bind_of_ok (failIf_neg (by omega)), htake]

/-- A record is read back from its stored form. -/
theorem decode_encode {bytes : Bytes} (hstore : Cursor.IsName r.storeId)
    (hfile : Cursor.IsName r.fileId) (h : r.encode = .ok bytes) : decode bytes = .ok r := by
  obtain ⟨-, -, hcipher, rfl⟩ := encode_eq_ok.mp h
  have hmagic : Cursor.take 4 (r.layout) = .ok (magic, r.layout.drop 4) :=
    take_append rfl
  have hkind : ∀ s, (liftM (RecordKind.ofByte r.recordKind.asByte) : Reader StorageError _) s =
      .ok (r.recordKind, s) := by
    intro s
    rw [RecordKind.ofByte_asByte]
    rfl
  have hfields : fields r.layout = .ok (r, []) := by
    rw [fields, bind_of_ok hmagic, bind_of_ok (failIf_neg (by simp))]
    change (Cursor.u16 >>= _) (leBytes 2 r.formatVersion.toNat ++ _) = _
    rw [bind_of_ok (Cursor.u16_append _), Cursor.u16_text_append hstore,
      Cursor.u16_text_append hfile, bind_of_ok (Cursor.u64_append _),
      bind_of_ok (Cursor.byte_append _), bind_of_ok (hkind _),
      bind_of_ok (Cursor.u64_append _), bind_of_ok (Cursor.u64_append _),
      bind_of_ok (nonceField_append _ _),
      bind_of_ok (ciphertextField_append hcipher), pure_run]
  rw [decode, hfields]
  rfl

private theorem extends_nonceField : Reader.Extends nonceField := by
  refine .bind (.take nonceLength) fun raw => ?_
  split_ifs
  · exact .pure _
  · exact .throw

/-- The ciphertext has the length that was announced, to the end of the bytes. -/
private theorem whole_ciphertextField : Reader.Whole ciphertextField := by
  refine .bind Cursor.extends_u64 fun length => .remaining fun m n hm hn => ?_
  omega

private theorem whole_fields : Reader.Whole fields := by
  refine .bind (.take 4) fun _ => .bind .failIf fun _ => .bind Cursor.extends_u16 fun _ => ?_
  refine .bind Cursor.extends_u16 fun _ => .bind (Cursor.extends_text _) fun _ => ?_
  refine .bind Cursor.extends_u16 fun _ => .bind (Cursor.extends_text _) fun _ => ?_
  refine .bind Cursor.extends_u64 fun _ => .bind Cursor.extends_byte fun _ => ?_
  refine .bind (.lift _) fun _ => .bind Cursor.extends_u64 fun _ => ?_
  refine .bind Cursor.extends_u64 fun _ => .bind extends_nonceField fun _ => ?_
  exact .andThen whole_ciphertextField

/-- The stored form of a record is not the beginning of another one. -/
theorem decode_append {bytes rest : Bytes} {r r' : EncryptedRecordV1} (h : decode bytes = .ok r)
    (h' : decode (bytes ++ rest) = .ok r') : rest = [] := by
  obtain ⟨p, hp, -⟩ := except_bind_eq_ok.mp h
  obtain ⟨q, hq, -⟩ := except_bind_eq_ok.mp h'
  exact whole_fields bytes rest p q hp hq

section Sealing

variable {P : Primitives} {key : StoreKey} {drawn : Nonce} {aad : RecordAad} {plaintext : Bytes}
  {nonces next : NonceTracker} {r : EncryptedRecordV1}

/-- Sealing succeeds when the cipher does and the nonce is new. -/
theorem sealRecord_eq_ok : sealRecord P key drawn aad plaintext
    nonces = .ok (r, next) ↔ ∃ ciphertext, P.encrypt key drawn aad.canonicalBytes
    plaintext = some ciphertext ∧ r = aad.toRecord drawn ciphertext ∧ drawn ∉ nonces.seen ∧
          next = ⟨drawn :: nonces.seen⟩ := by
  simp only [sealRecord, except_bind_eq_ok, except_mapError_eq_ok, RecordCipher.encrypt_eq_ok,
    except_pure_eq_ok, Prod.mk.injEq, NonceTracker.insert_eq_ok]
  constructor
  · rintro ⟨⟨nonce, ciphertext⟩, ⟨rfl, hc⟩, _, ⟨hn, rfl⟩, rfl, rfl⟩
    exact ⟨ciphertext, hc, rfl, hn, rfl⟩
  · rintro ⟨ciphertext, hc, rfl, hn, rfl⟩
    exact ⟨(drawn, ciphertext), ⟨rfl, hc⟩, _, ⟨hn, rfl⟩, rfl, rfl⟩

/-- A record opens to the text that the cipher gives, if its length is the stated one. -/
theorem openRecord_eq_ok : openRecord P key r = .ok plaintext ↔ r.formatVersion = formatVersionV1 ∧
    P.decrypt key r.nonce r.aad.canonicalBytes r.ciphertext = some
    plaintext ∧ UInt64.ofNat plaintext.length = r.plaintextLength := by
  have hlen : ¬r.plaintextLength.toNat > 2 ^ 64 - 1 := by
    have h := r.plaintextLength.toNat_lt
    omega
  simp only [openRecord, except_bind_eq_ok, except_failIf_eq_ok, except_mapError_eq_ok,
    RecordCipher.decrypt_eq_ok, except_pure_eq_ok, hlen, or_false, not_not, exists_const]
  constructor
  · rintro ⟨hv, _, hd, hl, rfl⟩
    exact ⟨hv, hd, hl⟩
  · rintro ⟨hv, hd, hl⟩
    exact ⟨hv, plaintext, hd, hl, rfl⟩

/-- What was sealed is opened. -/
theorem openRecord_sealRecord (hP : P.Correct) (hv : aad.formatVersion = formatVersionV1)
    (hl : aad.plaintextLength = UInt64.ofNat plaintext.length)
    (h : sealRecord P key drawn aad plaintext nonces = .ok (r, next)) :
    openRecord P key r = .ok plaintext := by
  obtain ⟨ciphertext, hc, rfl, -, -⟩ := sealRecord_eq_ok.mp h
  exact openRecord_eq_ok.mpr ⟨hv, hP.decrypt_encrypt hc, hl.symm⟩

end Sealing

end EncryptedRecordV1

/-! ### Manifests -/

/-- The chunks of one generation of a file. -/
structure EncryptedManifestV1 where
  generation : UInt64
  fileId : Text
  logicalLength : UInt64
  chunkLengths : List UInt64
  deriving DecidableEq

namespace EncryptedManifestV1

/-- The bytes every manifest starts with. -/
def start : Bytes := utf8 formatIdV1 ++ [0]

/-- The bytes of a manifest, whatever the sizes of its fields. -/
def layout (m : EncryptedManifestV1) : Bytes :=
  start ++ (leBytes 8 m.generation.toNat ++ (sized m.fileId ++ (leBytes 8 m.logicalLength.toNat ++
    (leBytes 4 m.chunkLengths.length ++ m.chunkLengths.flatMap fun n => leBytes 8 n.toNat))))

/-- The plaintext of a manifest. -/
def encode (m : EncryptedManifestV1) : Except StorageError Bytes := do
  failIf ((utf8 m.fileId).length > 2 ^ 16 - 1 ∨ m.chunkLengths.length > 2 ^ 32 - 1)
    StorageError.integrityFailure
  return m.layout

/-- The fields of a manifest after its start, in order. -/
def fields : Reader StorageError EncryptedManifestV1 := do
  let generation ← Cursor.u64
  let fileLength ← Cursor.u16
  let fileId ← Cursor.text fileLength.toNat
  let logicalLength ← Cursor.u64
  let count ← Cursor.u32
  let remaining ← Reader.remaining
  failIf (count.toNat > 1000000 ∨ remaining ≠ count.toNat * 8) StorageError.integrityFailure
  let chunkLengths ← Reader.repeatedly Cursor.u64 count.toNat
  return { generation, fileId, logicalLength, chunkLengths }

/-- A manifest from its plaintext. -/
def decode (bytes : Bytes) : Except StorageError EncryptedManifestV1 := do
  failIf (¬start <+: bytes) StorageError.integrityFailure
  let (manifest, _) ← fields (bytes.drop start.length)
  return manifest

variable {m : EncryptedManifestV1}

theorem encode_eq_ok {bytes : Bytes} : m.encode = .ok
    bytes ↔ (utf8 m.fileId).length ≤ 2 ^ 16 - 1 ∧ m.chunkLengths.length ≤
    2 ^ 32 - 1 ∧ m.layout = bytes := by
  simp only [encode, except_bind_eq_ok, except_failIf_eq_ok, except_pure_eq_ok, exists_const,
    not_or, not_lt, and_assoc]

theorem length_words (l : List UInt64) :
    (l.flatMap fun n => leBytes 8 n.toNat).length = l.length * 8 := by
  rw [List.length_flatMap]
  simp

/-- A manifest is read back from its plaintext, unless it has more than a million chunks. -/
theorem decode_encode {bytes : Bytes}
    (hfile : Cursor.IsName m.fileId) (h : m.encode = .ok bytes) : decode bytes =
      if m.chunkLengths.length ≤ 1000000 then .ok m else .error .integrityFailure := by
  obtain ⟨-, hcount, rfl⟩ := encode_eq_ok.mp h
  have hlen : (UInt32.ofNat m.chunkLengths.length).toNat = m.chunkLengths.length :=
    UInt32.toNat_ofNat_of_lt' (by norm_num [UInt32.size]; omega)
  have hu32 := @Cursor.u32_append (m.chunkLengths.flatMap fun n => leBytes 8 n.toNat)
    (UInt32.ofNat m.chunkLengths.length)
  have hwords := @Reader.repeatedly_append _ _ [] Cursor.u64 (fun n => leBytes 8 n.toNat)
    (fun n s => Cursor.u64_append n) m.chunkLengths
  rw [hlen] at hu32
  rw [List.append_nil] at hwords
  have hdrop : m.layout.drop start.length = leBytes 8 m.generation.toNat ++ (sized m.fileId ++
      (leBytes 8 m.logicalLength.toNat ++ (leBytes 4 m.chunkLengths.length ++
        m.chunkLengths.flatMap fun n => leBytes 8 n.toNat))) := List.drop_left
  have hfields : fields (m.layout.drop start.length) =
      if m.chunkLengths.length ≤ 1000000 then .ok (m, []) else .error .integrityFailure := by
    rw [hdrop, fields, bind_of_ok (Cursor.u64_append _), Cursor.u16_text_append hfile,
      bind_of_ok (Cursor.u64_append _), bind_of_ok hu32,
      bind_of_ok remaining_run, hlen, length_words]
    split
    · next hle =>
      rw [bind_of_ok (failIf_neg (by omega)), bind_of_ok hwords,
        pure_run]
    · next hgt => rw [Reader.bind_of_error (Reader.failIf_pos (by omega))]
  have hstart : start <+: m.layout := List.prefix_append _ _
  simp only [decode, failIf, hstart, not_true_eq_false, ↓reduceIte, hfields]
  split <;> rfl

end EncryptedManifestV1

/-! ### Commit records -/

/-- The plaintext of a commit record: the generation of a file that is current. -/
structure CommitRecordV1 where
  generation : UInt64
  fileId : Text
  deriving DecidableEq

namespace CommitRecordV1

/-- The bytes of a commit record, whatever the size of its name. -/
def layout (c : CommitRecordV1) : Bytes := leBytes 8 c.generation.toNat ++ sized c.fileId

/-- The plaintext of a commit record. -/
def encode (c : CommitRecordV1) : Except StorageError Bytes := do
  failIf ((utf8 c.fileId).length > 2 ^ 16 - 1) StorageError.integrityFailure
  return c.layout

/-- The fields of a commit record, in order. -/
def fields : Reader StorageError CommitRecordV1 := do
  let generation ← Cursor.u64
  let fileLength ← Cursor.u16
  let fileId ← Cursor.text fileLength.toNat
  let remaining ← Reader.remaining
  failIf (remaining ≠ 0) StorageError.integrityFailure
  return { generation, fileId }

/-- A commit record from its plaintext. -/
def decode (bytes : Bytes) : Except StorageError CommitRecordV1 := do
  let (commit, _) ← fields bytes
  return commit

variable {c : CommitRecordV1}

theorem encode_of_isName (hfile : Cursor.IsName c.fileId) : c.encode = .ok c.layout := by
  have hlen : ¬(utf8 c.fileId).length > 2 ^ 16 - 1 := by
    have h := hfile.2.1
    omega
  simp only [encode, failIf, hlen, ↓reduceIte]
  rfl

/-- A commit record is read back from its plaintext. -/
theorem decode_layout (hfile : Cursor.IsName c.fileId) : decode c.layout = .ok c := by
  have hfields : fields c.layout = .ok (c, []) := by
    have htext := @Cursor.u16_text_append [] CommitRecordV1 c.fileId (fun name => do
        let remaining ← Reader.remaining
        failIf (remaining ≠ 0) StorageError.integrityFailure
        return { generation := c.generation, fileId := name }) hfile
    rw [List.append_nil] at htext
    rw [fields, layout, bind_of_ok (Cursor.u64_append _), htext,
      bind_of_ok remaining_run, bind_of_ok (failIf_neg (by simp)),
      pure_run]
  rw [decode, hfields]
  rfl

end CommitRecordV1

end Wdlp
