import Wdlp.Storage.Format

/-!
# The record formats are exact

The decoders of the three byte formats accept the stored form of a value and nothing else: what is
accepted is written again byte for byte, and no stored form is the beginning of another.

## Main results

* `EncryptedRecordV1.decode_eq_ok`, `EncryptedManifestV1.decode_eq_ok`,
  `CommitRecordV1.decode_eq_ok` — what each decoder accepts.
* `ExactCodec` — a pair of an encoder and a decoder that is exact.
* `codecs_exact` — the three formats are.
-/

namespace Wdlp

open CrashSafe
open Reader (bind_eq_ok failIf_eq_ok pure_eq_ok remaining_eq_ok take_eq_ok word_eq_ok)

/-! ### Fields -/

namespace Cursor

variable {s s' : Bytes}

theorem byte_eq_ok {b : UInt8} : byte s = .ok (b, s') ↔ s = b :: s' := by
  simp only [byte, take, bind_eq_ok, take_eq_ok, pure_eq_ok]
  constructor
  · rintro ⟨raw, _, ⟨hlength, rfl⟩, rfl, rfl⟩
    obtain ⟨x, rfl⟩ := List.length_eq_one_iff.mp hlength
    rfl
  · rintro rfl
    exact ⟨[b], s', ⟨rfl, rfl⟩, rfl, rfl⟩

theorem u16_eq_ok {n : UInt16} : u16 s = .ok (n, s') ↔ s = leBytes 2 n.toNat ++ s' := by
  simp only [u16, bind_eq_ok, word_eq_ok, pure_eq_ok]
  constructor
  · rintro ⟨k, _, ⟨hk, rfl⟩, rfl, rfl⟩
    rw [UInt16.toNat_ofNat_of_lt' hk]
  · rintro rfl
    exact ⟨n.toNat, s', ⟨n.toNat_lt, rfl⟩, UInt16.ofNat_toNat, rfl⟩

theorem u32_eq_ok {n : UInt32} : u32 s = .ok (n, s') ↔ s = leBytes 4 n.toNat ++ s' := by
  simp only [u32, bind_eq_ok, word_eq_ok, pure_eq_ok]
  constructor
  · rintro ⟨k, _, ⟨hk, rfl⟩, rfl, rfl⟩
    rw [UInt32.toNat_ofNat_of_lt' hk]
  · rintro rfl
    exact ⟨n.toNat, s', ⟨n.toNat_lt, rfl⟩, UInt32.ofNat_toNat, rfl⟩

theorem u64_eq_ok {n : UInt64} : u64 s = .ok (n, s') ↔ s = leBytes 8 n.toNat ++ s' := by
  simp only [u64, bind_eq_ok, word_eq_ok, pure_eq_ok]
  constructor
  · rintro ⟨k, _, ⟨hk, rfl⟩, rfl, rfl⟩
    rw [UInt64.toNat_ofNat_of_lt' hk]
  · rintro rfl
    exact ⟨n.toNat, s', ⟨n.toNat_lt, rfl⟩, UInt64.ofNat_toNat, rfl⟩

theorem text_eq_ok {t : Text} {count : ℕ} :
    text count s = .ok (t, s') ↔ IsName t ∧ (utf8 t).length = count ∧ s = utf8 t ++ s' := by
  constructor
  · intro h
    simp only [text, take, bind_eq_ok, take_eq_ok] at h
    obtain ⟨raw, s₁, ⟨hlength, rfl⟩, h⟩ := h
    cases hdecoded : fromUtf8 raw with
    | none =>
      rw [hdecoded] at h
      cases h
    | some decoded =>
      simp only [hdecoded] at h
      split_ifs at h with hname
      · obtain ⟨rfl, rfl⟩ := pure_eq_ok.mp h
        rw [fromUtf8_eq_some] at hdecoded
        exact ⟨hname, hdecoded ▸ hlength, by rw [hdecoded]⟩
      · cases h
  · rintro ⟨hname, hlength, rfl⟩
    exact text_append hname hlength

/-- A name behind its length. -/
theorem sized_eq {t : Text} {n : UInt16} (h : (utf8 t).length = n.toNat) :
    leBytes 2 n.toNat ++ (utf8 t ++ s) = sized t ++ s := by
  rw [sized, h, List.append_assoc]

end Cursor

/-! ### Encrypted records -/

theorem RecordKind.ofByte_eq_ok {byte : UInt8} {kind : RecordKind} :
    ofByte byte = .ok kind ↔ byte = kind.asByte := by
  constructor
  · intro h
    unfold ofByte at h
    split_ifs at h with h₁ h₂ h₃ <;> cases h
    · exact h₁
    · exact h₂
    · exact h₃
  · rintro rfl
    exact ofByte_asByte kind

namespace EncryptedRecordV1

theorem kindField_eq_ok {byte : UInt8} {s s' : Bytes} {kind : RecordKind}
    (h : (liftM (RecordKind.ofByte byte) : Reader StorageError RecordKind) s = .ok (kind, s')) :
    byte = kind.asByte ∧ s = s' := by
  cases hkind : RecordKind.ofByte byte with
  | error e =>
    rw [hkind] at h
    cases h
  | ok found =>
    rw [hkind] at h
    obtain ⟨rfl, rfl⟩ := Prod.mk.inj (Except.ok.inj h)
    exact ⟨RecordKind.ofByte_eq_ok.mp hkind, rfl⟩

theorem nonceField_eq_ok {s s' : Bytes} {nonce : Nonce} (h : nonceField s = .ok (nonce, s')) :
    s = nonce.1 ++ s' := by
  simp only [nonceField, Cursor.take, bind_eq_ok, take_eq_ok] at h
  obtain ⟨raw, s₁, ⟨-, rfl⟩, h⟩ := h
  split_ifs at h
  · obtain ⟨rfl, rfl⟩ := pure_eq_ok.mp h
    rfl
  · cases h

theorem ciphertextField_eq_ok {s s' ciphertext : Bytes}
    (h : ciphertextField s = .ok (ciphertext, s')) :
    ciphertext.length ≤ maxCiphertext ∧ s = leBytes 8 ciphertext.length ++ ciphertext := by
  simp only [ciphertextField, Cursor.take, bind_eq_ok, Cursor.u64_eq_ok,
    remaining_eq_ok, failIf_eq_ok, take_eq_ok] at h
  obtain ⟨n, s₁, rfl, _, _, ⟨rfl, rfl⟩, _, _, ⟨hn, rfl⟩, hlength, rfl⟩ := h
  rw [not_or, not_not] at hn
  have hnil : s' = [] := by
    have := hn.2
    rw [List.length_append] at this
    exact List.length_eq_zero_iff.mp (by omega)
  subst hnil
  rw [List.append_nil] at *
  exact ⟨by omega, by rw [hlength]⟩

variable {r : EncryptedRecordV1}

/-- A record is read from its stored form and from nothing else. -/
theorem decode_eq_ok {bytes : Bytes} : decode
    bytes = .ok r ↔ Cursor.IsName r.storeId ∧ Cursor.IsName r.fileId ∧ r.encode = .ok bytes := by
  refine ⟨fun h => ?_, fun ⟨hstore, hfile, h⟩ => decode_encode hstore hfile h⟩
  obtain ⟨⟨_, rest⟩, hfields, hr⟩ := except_bind_eq_ok.mp h
  obtain rfl := except_pure_eq_ok.mp hr
  simp only [fields, Cursor.take, bind_eq_ok, take_eq_ok, failIf_eq_ok,
    Cursor.u16_eq_ok, Cursor.text_eq_ok, Cursor.u64_eq_ok, Cursor.byte_eq_ok] at hfields
  obtain ⟨start, _, ⟨-, rfl⟩, _, _, ⟨hstart, rfl⟩, version, _, rfl, storeLength, _, rfl, storeId, _,
    ⟨hstore, hstoreLength, rfl⟩, fileLength, _, rfl, fileId, _, ⟨hfile, hfileLength, rfl⟩,
    generation, _, rfl, kindByte, _, rfl, kind, _, hkind, index, _, rfl, length, _, rfl, nonce, _,
    hnonce, ciphertext, _, hcipher, hr⟩ := hfields
  obtain ⟨rfl, -⟩ := pure_eq_ok.mp hr
  obtain ⟨rfl, rfl⟩ := kindField_eq_ok hkind
  obtain rfl := nonceField_eq_ok hnonce
  obtain ⟨hsize, rfl⟩ := ciphertextField_eq_ok hcipher
  refine ⟨hstore, hfile, encode_eq_ok.mpr ⟨?_, ?_, hsize, ?_⟩⟩
  · exact hstore.2.1.trans (by norm_num)
  · exact hfile.2.1.trans (by norm_num)
  · rw [layout, Cursor.sized_eq hstoreLength, Cursor.sized_eq hfileLength, not_not.mp hstart]
    rfl

theorem encode_of_isName (hstore : Cursor.IsName r.storeId)
    (hfile : Cursor.IsName r.fileId) (hsize : r.ciphertext.length ≤ maxCiphertext) :
    r.encode = .ok r.layout :=
  encode_eq_ok.mpr ⟨hstore.2.1.trans (by norm_num), hfile.2.1.trans (by norm_num), hsize, rfl⟩

end EncryptedRecordV1

/-! ### Manifests -/

namespace EncryptedManifestV1

/-- A manifest is read from its plaintext and from nothing else. -/
theorem decode_eq_ok {bytes : Bytes} {m : EncryptedManifestV1} : decode bytes = .ok
    m ↔ Cursor.IsName m.fileId ∧ m.chunkLengths.length ≤ 1000000 ∧ m.encode = .ok bytes := by
  constructor
  · intro h
    simp only [decode, except_bind_eq_ok, except_failIf_eq_ok, not_not, except_pure_eq_ok] at h
    obtain ⟨_, ⟨rest, rfl⟩, ⟨_, _⟩, hfields, rfl⟩ := h
    simp only [List.drop_left, fields, bind_eq_ok, Cursor.u64_eq_ok, Cursor.u16_eq_ok,
      Cursor.text_eq_ok, Cursor.u32_eq_ok, remaining_eq_ok, failIf_eq_ok] at hfields
    obtain ⟨generation, _, rfl, fileLength, _, rfl, fileId, _, ⟨hfile, hfileLength, rfl⟩, length, _,
      rfl, count, words, rfl, _, _, ⟨rfl, rfl⟩, _, _, ⟨hcount, rfl⟩, lengths, left, hwords,
      hm⟩ := hfields
    obtain ⟨rfl, rfl⟩ := pure_eq_ok.mp hm
    obtain ⟨hlength, rfl⟩ := Reader.repeatedly_eq_ok (fun _ _ _ => Cursor.u64_eq_ok.mp) _ hwords
    rw [not_or, not_not, List.length_append, length_words] at hcount
    have hnil : left = [] := List.length_eq_zero_iff.mp (by omega)
    have hmillion : lengths.length ≤ 1000000 := by omega
    refine ⟨hfile, hmillion, encode_eq_ok.mpr ⟨hfile.2.1.trans (by norm_num), ?_, ?_⟩⟩
    · exact hmillion.trans (by norm_num)
    · rw [layout, Cursor.sized_eq hfileLength, hnil, List.append_nil, ← hlength]
  · rintro ⟨hfile, hcount, h⟩
    rw [decode_encode hfile h, if_pos hcount]

/-- The plaintext of a manifest is not the beginning of another one. -/
theorem decode_append {bytes rest : Bytes} {m m' : EncryptedManifestV1} (h : decode bytes = .ok m)
    (h' : decode (bytes ++ rest) = .ok m') : rest = [] := by
  have hfields : Reader.Whole fields := by
    refine .bind Cursor.extends_u64 fun _ => .bind Cursor.extends_u16 fun _ => ?_
    refine .bind (Cursor.extends_text _) fun _ => .bind Cursor.extends_u64 fun _ => ?_
    refine .bind Cursor.extends_u32 fun count => .remaining fun m n hm hn => ?_
    omega
  simp only [decode, except_bind_eq_ok, except_failIf_eq_ok, not_not] at h h'
  obtain ⟨_, ⟨body, rfl⟩, p, hp, -⟩ := h
  obtain ⟨_, -, q, hq, -⟩ := h'
  rw [List.append_assoc, List.drop_left] at hq
  rw [List.drop_left] at hp
  exact hfields body rest p q hp hq

end EncryptedManifestV1

/-! ### Commit records -/

namespace CommitRecordV1

/-- A commit record is read from its plaintext and from nothing else. -/
theorem decode_eq_ok {bytes : Bytes} {c : CommitRecordV1} :
    decode bytes = .ok c ↔ Cursor.IsName c.fileId ∧ c.encode = .ok bytes := by
  constructor
  · intro h
    obtain ⟨⟨_, rest⟩, hfields, hc⟩ := except_bind_eq_ok.mp h
    obtain rfl := except_pure_eq_ok.mp hc
    simp only [fields, bind_eq_ok, Cursor.u64_eq_ok, Cursor.u16_eq_ok, Cursor.text_eq_ok,
      remaining_eq_ok, failIf_eq_ok] at hfields
    obtain ⟨generation, _, rfl, fileLength, _, rfl, fileId, _, ⟨hfile, hfileLength, rfl⟩, _, _,
      ⟨rfl, rfl⟩, _, _, ⟨hleft, rfl⟩, hc⟩ := hfields
    obtain ⟨rfl, rfl⟩ := pure_eq_ok.mp hc
    obtain rfl := List.length_eq_zero_iff.mp (not_not.mp hleft)
    refine ⟨hfile, ?_⟩
    rw [encode_of_isName hfile, layout, Cursor.sized_eq hfileLength, List.append_nil]
  · rintro ⟨hfile, h⟩
    rw [encode_of_isName hfile, Except.ok.injEq] at h
    rw [← h, decode_layout hfile]

/-- The plaintext of a commit record is not the beginning of another one. -/
theorem decode_append {bytes rest : Bytes} {c c' : CommitRecordV1} (h : decode bytes = .ok c)
    (h' : decode (bytes ++ rest) = .ok c') : rest = [] := by
  have hfields : Reader.Whole fields := by
    refine .bind Cursor.extends_u64 fun _ => .bind Cursor.extends_u16 fun _ => ?_
    refine .bind (Cursor.extends_text _) fun _ => .remaining fun m n hm hn => ?_
    omega
  obtain ⟨p, hp, -⟩ := except_bind_eq_ok.mp h
  obtain ⟨q, hq, -⟩ := except_bind_eq_ok.mp h'
  exact hfields bytes rest p q hp hq

end CommitRecordV1

/-! ### Exactness -/

/-- An encoder and a decoder that are inverse to each other on what they accept, and of whose
encodings none is the beginning of another. -/
structure ExactCodec {α : Type} (Valid : α → Prop) (encode : α → Except StorageError Bytes)
    (decode : Bytes → Except StorageError α) : Prop where
  readBack : ∀ v, Valid v → ∃ bytes, encode v = .ok bytes ∧ decode bytes = .ok v
  writtenBack : ∀ bytes v, decode bytes = .ok v → encode v = .ok bytes
  alone : ∀ v bytes other, Valid v → encode v = .ok bytes → other ≠ bytes →
    other <+: bytes ∨ bytes <+: other → ∃ e, decode other = .error e

theorem ExactCodec.of_decode_eq_ok {α : Type} {Valid : α → Prop}
    {encode : α → Except StorageError Bytes} {decode : Bytes → Except StorageError α}
    (hdecode : ∀ bytes v, decode bytes = .ok v ↔ Valid v ∧ encode v = .ok bytes)
    (hencode : ∀ v, Valid v → ∃ bytes, encode v = .ok bytes)
    (happend : ∀ bytes rest v v', decode bytes = .ok v → decode (bytes ++ rest) = .ok v' →
      rest = []) : ExactCodec Valid encode decode where
  readBack v hv := by
    obtain ⟨bytes, hbytes⟩ := hencode v hv
    exact ⟨bytes, hbytes, (hdecode bytes v).mpr ⟨hv, hbytes⟩⟩
  writtenBack bytes v h := ((hdecode bytes v).mp h).2
  alone v bytes other hv hbytes hne hbegin := by
    have hread := (hdecode bytes v).mpr ⟨hv, hbytes⟩
    cases hother : decode other with
    | error e => exact ⟨e, rfl⟩
    | ok v' =>
      rcases hbegin with ⟨rest, rfl⟩ | ⟨rest, rfl⟩
      · obtain rfl := happend other rest v' v hother hread
        exact absurd (List.append_nil other).symm hne
      · obtain rfl := happend bytes rest v v' hread hother
        exact absurd (List.append_nil bytes) hne

/-- The three record formats are exact: on values whose identifiers are valid and whose sizes are
within the limits, decoding inverts encoding; what is accepted is the encoding of the result; and no
longer or shorter string than an encoding is accepted. -/
theorem codecs_exact :
    ExactCodec (fun r : EncryptedRecordV1 => Cursor.IsName r.storeId ∧ Cursor.IsName r.fileId ∧
        r.ciphertext.length ≤ maxCiphertext)
      EncryptedRecordV1.encode EncryptedRecordV1.decode ∧
    ExactCodec (fun m : EncryptedManifestV1 => Cursor.IsName m.fileId ∧
        m.chunkLengths.length ≤ 1000000)
      EncryptedManifestV1.encode EncryptedManifestV1.decode ∧
    ExactCodec (fun c : CommitRecordV1 => Cursor.IsName c.fileId)
      CommitRecordV1.encode CommitRecordV1.decode := by
  refine ⟨.of_decode_eq_ok (fun bytes r => ?_) (fun r hr => ?_) fun _ _ _ _ =>
    EncryptedRecordV1.decode_append, .of_decode_eq_ok (fun bytes m => ?_) (fun m hm => ?_)
    fun _ _ _ _ => EncryptedManifestV1.decode_append, .of_decode_eq_ok
    (fun bytes c => CommitRecordV1.decode_eq_ok) (fun c hc => ?_) fun _ _ _ _ =>
    CommitRecordV1.decode_append⟩
  · rw [EncryptedRecordV1.decode_eq_ok, EncryptedRecordV1.encode_eq_ok]
    tauto
  · exact ⟨_, EncryptedRecordV1.encode_of_isName hr.1 hr.2.1 hr.2.2⟩
  · rw [EncryptedManifestV1.decode_eq_ok]
    tauto
  · refine ⟨_, EncryptedManifestV1.encode_eq_ok.mpr ⟨hm.1.2.1.trans (by norm_num), ?_, rfl⟩⟩
    exact hm.2.trans (by norm_num)
  · exact ⟨_, CommitRecordV1.encode_of_isName hc⟩

end Wdlp
