import Wdlp.Storage.Footprint

/-!
# Committed generations

A generation of a file is committed on a disk when its commit record, its manifest and its chunks
are stored there (`GenerationRecords.Stored`) and seal the content of the file
(`GenerationRecords.Seals`). A pointer that holds the commit record selects the generation
(`GenerationRecords.Selected`).

## Main definitions

* `StoredRecord` — a file on the disk that decodes to a record.
* `GenerationRecords` with `Seals`, `Stored` and `Selected`.

## Main results

* `readFromPointer_of_selected` — following a pointer that selects a generation gives the content
  that the generation seals.
* `GenerationRecords.Stored.congr` — whether a generation is stored depends on its directory only.
-/

namespace Wdlp

open CrashSafe Act

variable {P : Primitives} {key : StoreKey} {store : StoreId} {file : FileId} {generation : UInt64}
  {data : Bytes}

/-- The file at the path decodes to the record. -/
def StoredRecord (fs : Fs) (path : Path) (r : EncryptedRecordV1) : Prop :=
  ∃ bytes, fs.read? path = some bytes ∧ EncryptedRecordV1.decode bytes = .ok r

variable {r : EncryptedRecordV1}

theorem StoredRecord.mono {fs fs' : Fs} {path : Path} (h : StoredRecord fs path r)
    (hp : ∀ bytes, fs.read? path = some bytes → fs'.read? path = some bytes) :
    StoredRecord fs' path r := by
  obtain ⟨bytes, hread, hdecode⟩ := h
  exact ⟨bytes, hp bytes hread, hdecode⟩

theorem StoredRecord.congr {fs fs' : Fs} {path : Path}
    (h : StoredRecord fs path r) (hp : fs'[path]? = fs[path]?) : StoredRecord fs' path r :=
  h.mono fun _ => (Fs.read?_congr hp).trans

/-- The records of a generation. -/
structure GenerationRecords where
  commit : EncryptedRecordV1
  manifest : EncryptedRecordV1
  chunks : List EncryptedRecordV1

/-- Records that seal the given chunks, the first of which has the given index. -/
inductive SealsChunks (P : Primitives) (key : StoreKey) (store : StoreId) (file : FileId)
    (generation : UInt64) : (index : ℕ) → List Bytes → List EncryptedRecordV1 → Prop
  | nil (index : ℕ) : SealsChunks P key store file generation index [] []
  | cons {index : ℕ} {chunk : Bytes} {rest : List Bytes} {r : EncryptedRecordV1}
      {rs : List EncryptedRecordV1}
      (header : r.aad =
        fileAad store file generation .chunk (UInt64.ofNat index) chunk.length)
      (opens : EncryptedRecordV1.openRecord P key r = .ok chunk)
      (size : chunk.length ≤ chunkSize)
      (tail : SealsChunks P key store file generation (index + 1) rest rs) :
      SealsChunks P key store file generation index (chunk :: rest) (r :: rs)

/-- The chunks from an index on are on the disk. -/
def StoredChunks (fs : Fs) (store : StoreId) (file : FileId) (generation : UInt64) :
    (index : ℕ) → List EncryptedRecordV1 → Prop
  | _, [] => True
  | index, r :: rs => StoredRecord fs (chunkPath store file generation index) r ∧
      StoredChunks fs store file generation (index + 1) rs

namespace GenerationRecords

/-- The records seal a content. -/
structure Seals (R : GenerationRecords) (P : Primitives) (key : StoreKey) (store : StoreId)
    (file : FileId) (generation : UInt64) (data : Bytes) : Prop where
  commit_header : R.commit.aad = fileAad store file generation .commit 0
    (commitOf file generation).layout.length
  commit_opens : EncryptedRecordV1.openRecord P key R.commit = .ok (commitOf file generation).layout
  manifest : ∃ bytes, R.manifest.aad = fileAad store file generation .manifest 0 bytes.length ∧
    EncryptedRecordV1.openRecord P key R.manifest = .ok bytes ∧
      EncryptedManifestV1.decode bytes = .ok (manifestOf file generation data)
  chunks : SealsChunks P key store file generation 0 (CrashSafe.chunks chunkSize data) R.chunks
  nonces : (R.commit.nonce :: R.manifest.nonce :: R.chunks.map EncryptedRecordV1.nonce).Nodup

/-- The records are in the directory of their generation. -/
structure Stored (R : GenerationRecords) (fs : Fs) (store : StoreId) (file : FileId)
    (generation : UInt64) : Prop where
  commit : StoredRecord fs (commitPath store file generation) R.commit
  manifest : StoredRecord fs (manifestPath store file generation) R.manifest
  chunks : StoredChunks fs store file generation 0 R.chunks

/-- The records are stored, and the pointer holds the commit record. -/
structure Selected (R : GenerationRecords) (fs : Fs) (pointer : Path) (store : StoreId)
    (file : FileId) (generation : UInt64) : Prop extends R.Stored fs store file generation where
  pointer : StoredRecord fs pointer R.commit

variable {R : GenerationRecords} {fs fs' : Fs} {pointer : Path}

theorem Stored.mono (h : R.Stored fs store file generation)
    (hfs : ∀ name bytes, fs.read? (generationItem store file generation name) = some bytes →
      fs'.read? (generationItem store file generation name) = some bytes) :
    R.Stored fs' store file generation where
  commit := h.commit.mono (hfs _)
  manifest := h.manifest.mono (hfs _)
  chunks := by
    have hchunks : ∀ (rs : List EncryptedRecordV1) (index : ℕ), StoredChunks
        fs store file generation index rs → StoredChunks fs' store file generation index rs := by
      intro rs
      induction rs with
      | nil => exact fun _ _ => trivial
      | cons r rs ih => exact fun index hr => ⟨hr.1.mono (hfs _), ih (index + 1) hr.2⟩
    exact hchunks R.chunks 0 h.chunks

/-- Whether a generation is stored depends on its directory only. -/
theorem Stored.congr (h : R.Stored fs store file generation)
    (hfs : ∀ name, fs'[generationItem store file generation name]? =
      fs[generationItem store file generation name]?) : R.Stored fs' store file generation :=
  h.mono fun name _ => (Fs.read?_congr (hfs name)).trans

theorem Selected.congr (h : R.Selected fs pointer store file generation)
    (hfs : ∀ name, fs'[generationItem store file generation name]? =
      fs[generationItem store file generation name]?)
    (hp : fs'[pointer]? = fs[pointer]?) : R.Selected fs' pointer store file generation where
  toStored := h.toStored.congr hfs
  pointer := h.pointer.congr hp

/-- What was synced is there. -/
theorem Selected.of_synced (h : R.Selected fs.synced pointer store file generation) :
    R.Selected fs pointer store file generation := by
  have hread : ∀ path bytes, fs.synced.read? path = some bytes → fs.read? path = some bytes :=
    fun _ _ h => Fs.read?_eq_some.mpr ⟨true, Fs.read?_synced.mp h⟩
  exact ⟨h.toStored.mono fun _ => hread _, h.pointer.mono (hread _)⟩

end GenerationRecords

/-! ### Reading a committed generation -/

section Read

variable {s : Sys} {r : EncryptedRecordV1} {path pointer : Path} {R : GenerationRecords}

theorem readRecord_of_stored (hf : s.disk.fates = []) (h : StoredRecord s.disk.fs path r) :
    readRecord path s = .ok r s := by
  obtain ⟨bytes, hread, hdecode⟩ := h
  have hzoom : Act.zoom Sys.disk (fun d s => s.withDisk d) mapOpen (Disk.readFile path) s =
      .ok bytes s := by
    rw [zoom_apply, Disk.readFile_of_nil hf hread]
    rfl
  rw [readRecord, bind_of_ok hzoom, hdecode]
  rfl

variable {kind : RecordKind}

theorem ensureIdentity_of_aad {st : Store} {index : UInt64} {n : ℕ}
    (h : r.aad = fileAad st.storeId file generation kind index n) :
    st.ensureIdentity r file kind index = .ok () := by
  have hversion := congrArg RecordAad.formatVersion h
  have hstore := congrArg RecordAad.storeId h
  have hfile := congrArg RecordAad.fileId h
  have hkind := congrArg RecordAad.recordKind h
  have hindex := congrArg RecordAad.chunkIndex h
  refine except_failIf_eq_ok.mpr ?_
  rintro (hn | hn | hn | hn | hn)
  · exact hn hversion
  · exact hn hstore
  · exact hn hfile
  · exact hn hkind
  · exact hn hindex

theorem generation_of_aad {index : UInt64} {n : ℕ}
    (h : r.aad = fileAad store file generation kind index n) : r.generation = generation :=
  congrArg RecordAad.generation h

theorem isName_fileId : Cursor.IsName file.toWire := Cursor.isName_toWire rfl file

theorem isName_storeId : Cursor.IsName store.toWire := Cursor.isName_toWire rfl store

theorem openCommit_of_seals {st : Store} (hkey : st.key = key)
    (h : R.Seals P key store file generation data) :
    st.openCommit P R.commit = .ok (commitOf file generation) := by
  rw [Store.openCommit, hkey, h.commit_opens]
  exact CommitRecordV1.decode_layout isName_fileId

theorem failIf_of_not {c : Prop} [Decidable c] {e : StorageError} (h : ¬c) :
    (failIf c e : Op Unit) s = .ok () s := by
  rw [failIf_apply, if_neg h]

/-- The pointer commits the generation. -/
theorem readCommit_of_seals (hf : s.disk.fates = []) (hid : s.store.storeId = store)
    (hkey : s.store.key = key) (hs : R.Seals P key store file generation data)
    (hp : StoredRecord s.disk.fs pointer R.commit) :
    readCommit P pointer file s = .ok (R.commit, commitOf file generation) s := by
  subst hid
  unfold readCommit
  rw [bind_of_ok getStore_eq,
    bind_of_ok (readRecord_of_stored hf hp), ensureIdentity_of_aad hs.commit_header,
    bind_of_ok (ofExcept_ok_apply s _), openCommit_of_seals hkey hs,
    bind_of_ok (ofExcept_ok_apply s _), bind_of_ok (failIf_of_not (by simp [commitOf]))]
  rfl

private theorem checkCommitted_of_seals (hf : s.disk.fates = []) (hid : s.store.storeId = store)
    (hkey : s.store.key = key) (hs : R.Seals P key store file generation data)
    (hst : R.Stored s.disk.fs store file generation) :
    checkCommitted P file (commitOf file generation) s = .ok () s := by
  subst hid
  unfold checkCommitted
  rw [bind_of_ok getStore_eq]
  change (readRecord (commitPath s.store.storeId file generation) >>= _) s = _
  rw [bind_of_ok (readRecord_of_stored hf hst.commit), ensureIdentity_of_aad hs.commit_header,
    bind_of_ok (ofExcept_ok_apply s _),
    bind_of_ok (failIf_of_not (by simp [generation_of_aad hs.commit_header, commitOf])),
    openCommit_of_seals hkey hs, bind_of_ok (ofExcept_ok_apply s _)]
  exact failIf_of_not (by simp)

private theorem readManifest_of_seals (hf : s.disk.fates = []) (hid : s.store.storeId = store)
    (hkey : s.store.key = key) (hs : R.Seals P key store file generation data)
    (hst : R.Stored s.disk.fs store file generation) :
    readManifest P file generation s = .ok (R.manifest, manifestOf file generation data) s := by
  subst hid
  obtain ⟨bytes, hheader, hopens, hdecode⟩ := hs.manifest
  have hopen : s.store.openManifest P R.manifest = .ok (manifestOf file generation data) := by
    rw [Store.openManifest, hkey, hopens]
    exact hdecode
  unfold readManifest
  rw [bind_of_ok getStore_eq,
    bind_of_ok (readRecord_of_stored hf hst.manifest), ensureIdentity_of_aad hheader,
    bind_of_ok (ofExcept_ok_apply s _),
    bind_of_ok (failIf_of_not (by simp [generation_of_aad hheader])), hopen,
    bind_of_ok (ofExcept_ok_apply s _),
    bind_of_ok (failIf_of_not (by simp [manifestOf]))]
  rfl

theorem trackNonce_of_not_mem {nonces : NonceTracker} {nonce : Nonce} (h : nonce ∉ nonces.seen) :
    trackNonce nonces nonce s = .ok ⟨nonce :: nonces.seen⟩ s := by
  rw [trackNonce, except_mapError_eq_ok.mpr (NonceTracker.insert_eq_ok.mpr ⟨h, rfl⟩)]
  rfl

/-- The chunks are read one after the other, each with a new nonce. -/
private theorem readChunks_of_seals (hf : s.disk.fates = []) (hid : s.store.storeId = store)
    (hkey : s.store.key = key) : {cs : List Bytes} → {rs : List EncryptedRecordV1} →
    {index : ℕ} → SealsChunks P key store file generation index cs rs → StoredChunks s.disk.fs store
    file generation index rs → (nonces : NonceTracker) → (rs.map EncryptedRecordV1.nonce).Nodup →
    (∀ r ∈ rs, r.nonce ∉ nonces.seen) → (out : Bytes) → readChunks P file generation
    index (cs.map fun c => UInt64.ofNat c.length) nonces out s = .ok (out ++ cs.flatten) s
  | [], [], index, _, _, nonces, _, _, out => by
    rw [List.flatten_nil, List.append_nil]
    rfl
  | c :: cs, r :: rs, index, .cons hheader hopens hsize htail, hst, nonces, hnd, hnew, out => by
    have hlen : (UInt64.ofNat c.length).toNat = c.length := by
      refine UInt64.toNat_ofNat_of_lt' (lt_of_le_of_lt hsize ?_)
      rw [chunkSize_eq]
      norm_num
    have hnonce : r.nonce ∉ nonces.seen := hnew r List.mem_cons_self
    rw [List.map_cons, List.nodup_cons] at hnd
    have hnew' : ∀ r' ∈ rs, r'.nonce ∉ r.nonce :: nonces.seen := by
      intro r' hr' hmem
      rcases List.mem_cons.mp hmem with heq | hmem
      · exact hnd.1 (heq ▸ List.mem_map_of_mem hr')
      · exact hnew r' (List.mem_cons_of_mem _ hr') hmem
    have hmeta : ¬(r.generation ≠ generation ∨ r.plaintextLength ≠ UInt64.ofNat c.length) := by
      have hl : r.plaintextLength = UInt64.ofNat c.length :=
        congrArg RecordAad.plaintextLength hheader
      simp [generation_of_aad hheader, hl]
    have ih := readChunks_of_seals hf hid hkey htail hst.2 ⟨r.nonce :: nonces.seen⟩ hnd.2 hnew'
      (out ++ c)
    rw [List.map_cons, readChunks, bind_of_ok (failIf_of_not (by omega)),
      bind_of_ok getStore_eq, hid,
      bind_of_ok (readRecord_of_stored hf hst.1), ensureIdentity_of_aad (hid ▸ hheader),
      bind_of_ok (ofExcept_ok_apply s _), bind_of_ok (failIf_of_not hmeta),
      bind_of_ok (trackNonce_of_not_mem hnonce), hkey, hopens,
      bind_of_ok (ofExcept_ok_apply s _), ih, List.flatten_cons, List.append_assoc]

/-- Following a pointer that selects a generation gives the content that the generation seals. -/
theorem readFromPointer_of_selected (hf : s.disk.fates = []) (hid : s.store.storeId = store)
    (hkey : s.store.key = key) (hs : R.Seals P key store file generation data)
    (hsel : R.Selected s.disk.fs pointer store file generation) :
    readFromPointer P pointer file s = .ok data s := by
  have hnodup := hs.nonces
  rw [List.nodup_cons, List.nodup_cons] at hnodup
  obtain ⟨hcommit, hmanifest, hchunks⟩ := hnodup
  have hfresh : ∀ r ∈ R.chunks, r.nonce ∉ [R.manifest.nonce, R.commit.nonce] := by
    intro r hr hmem
    have hmem' := List.mem_map_of_mem (f := EncryptedRecordV1.nonce) hr
    simp only [List.mem_cons, List.not_mem_nil, or_false] at hmem
    rcases hmem with heq | heq
    · exact hmanifest (heq ▸ hmem')
    · exact hcommit (List.mem_cons_of_mem _ (heq ▸ hmem'))
  have hmanifest' : R.manifest.nonce ∉ [R.commit.nonce] := by
    intro hmem
    rw [List.mem_singleton] at hmem
    exact hcommit (hmem ▸ List.mem_cons_self)
  have hread : readChunks P file (commitOf file generation).generation 0
      (manifestOf file generation data).chunkLengths ⟨[R.manifest.nonce, R.commit.nonce]⟩ [] s =
        .ok data s := by
    have h := readChunks_of_seals hf hid hkey hs.chunks hsel.chunks
      ⟨[R.manifest.nonce, R.commit.nonce]⟩ hchunks hfresh []
    rwa [List.nil_append, flatten_chunks (by rw [chunkSize_eq]; norm_num)] at h
  unfold readFromPointer
  rw [bind_of_ok (readCommit_of_seals hf hid hkey hs hsel.pointer),
    bind_of_ok (checkCommitted_of_seals hf hid hkey hs hsel.toStored)]
  change (readManifest P file generation >>= _) s = _
  rw [bind_of_ok (readManifest_of_seals hf hid hkey hs hsel.toStored),
    bind_of_ok (trackNonce_of_not_mem List.not_mem_nil),
    bind_of_ok (trackNonce_of_not_mem hmanifest')]
  dsimp only
  have hlength : ¬(UInt64.ofNat data.length ≠ (manifestOf file generation data).logicalLength) :=
    fun h => h rfl
  rw [bind_of_ok hread, bind_of_ok (failIf_of_not hlength)]
  rfl

theorem commitGeneration_of_seals (hf : s.disk.fates = []) (hid : s.store.storeId = store)
    (hkey : s.store.key = key) (hs : R.Seals P key store file generation data)
    (hp : StoredRecord s.disk.fs pointer R.commit) :
    commitGeneration P pointer file s = .ok generation s := by
  rw [commitGeneration, bind_of_ok (readCommit_of_seals hf hid hkey hs hp)]
  rfl

/-- A file whose pointer selects a generation is read. -/
theorem readFile_of_selected (hf : s.disk.fates = []) (hid : s.store.storeId = store)
    (hkey : s.store.key = key) (hs : R.Seals P key store file generation data)
    (hsel : R.Selected s.disk.fs (selectedPath store file) store file generation) :
    readFile P file s = .ok data s := by
  rw [readFile, bind_of_ok getStore_eq, hid]
  exact readFromPointer_of_selected hf hid hkey hs hsel

end Read

end Wdlp
