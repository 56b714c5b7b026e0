import Wdlp.Storage.Recovery

/-!
# Steps that do not fail

On a disk where nothing goes wrong, a file whose records fit is flushed, and a namespace whose
record fits is persisted. What can go wrong is collected in `Calm`: failures on the disk, something
at a path where the layout has something else, the seams that tests use, and nonces that come
twice.

The nonces of one flush have to differ. They are random in the code and a stream here, and
`Unrepeated` says of the stream that a nonce does not come again soon.

## Main definitions

* `Unrepeated`, `Store.Tame`, `Calm` — nothing goes wrong.

## Main results

* `Calm.stageGeneration_wp`, `Calm.completes_publishPointer`, `Calm.flushGeneration_wp` — flushes.
* `Calm.completes_persistNamespace` — persisting.
-/

namespace Wdlp

open CrashSafe Act

/-! ### Calm -/

/-- No nonce comes again within 2^64 draws. -/
def Unrepeated (nonces : Stream' Nonce) : Prop :=
  ∀ i j, i < j → j < i + 2 ^ 64 → nonces.get i ≠ nonces.get j

theorem Unrepeated.tail {nonces : Stream' Nonce} (h : Unrepeated nonces) :
    Unrepeated nonces.tail := by
  intro i j hij hj
  exact h (i + 1) (j + 1) (by omega) (by omega)

/-- The seams for tests are not in use. -/
structure Store.Tame (store : Store) : Prop where
  noFault : store.faultIo.fault = none
  noFailure : store.failNextWrite = false
  noDuplicate : store.forcedDuplicate = []

/-- Nothing goes wrong in the steps of a process with the store: the given directories are there,
and the given nonces were drawn at most `age` draws ago. -/
structure Calm (store : Store) (dirs : List Path) (age : ℕ) (seen : List Nonce) (s : Sys) :
    Prop where
  sameStore : s.store = store
  tame : store.Tame
  quiet : s.disk.fates = []
  fits : s.disk.fs.Fits nodeKind
  there : ∀ d ∈ dirs, s.disk.fs.isDir d = true
  unrepeated : Unrepeated s.nonces
  recent : ∀ n ∈ seen, ∀ i, i + age < 2 ^ 64 → s.nonces.get i ≠ n

variable {P : Primitives} {store : Store} {dirs : List Path} {age : ℕ} {seen : List Nonce}
  {s t : Sys} {path : Path} {file : FileId} {generation : UInt64} {data : Bytes}

/-- The manifest of a content fits in a record. -/
def ManifestFits (file : FileId) (data : Bytes) : Prop :=
  (manifestOf file 0 data).layout.length + 16 ≤ maxCiphertext

theorem length_manifest : (manifestOf file generation data).layout.length = 26
    + (8 + (2 + (utf8 file.toWire).length + (8 + (4 + (chunks chunkSize data).length * 8)))) := by
  simp only [EncryptedManifestV1.layout, List.length_append, length_leBytes, sized,
    EncryptedManifestV1.length_words, manifestOf, List.length_map]
  rfl

theorem manifestFits_iff : ManifestFits file data ↔
    (manifestOf file generation data).layout.length + 16 ≤ maxCiphertext := by
  rw [ManifestFits, length_manifest, length_manifest]

theorem ManifestFits.length_chunks_lt (h : ManifestFits file data) :
    (chunks chunkSize data).length < 2 ^ 32 - 1 := by
  rw [ManifestFits, length_manifest] at h
  norm_num [maxCiphertext] at h
  omega

/-- The path is one of a file, in one of the directories. -/
structure Slot (dirs : List Path) (path : Path) : Prop where
  file : nodeKind path = .file
  ne_nil : path ≠ []
  parent : path.dropLast ∈ dirs

theorem Slot.generationItem {id : StoreId} {name : Text}
    (h : generationDir id file generation ∈ dirs) :
    Slot dirs (generationItem id file generation name) := ⟨rfl, List.cons_ne_nil _ _, h⟩

theorem Slot.fileItem {id : StoreId} {name : Text} (hname : name ≠ generationsName)
    (h : fileDir id file ∈ dirs) : Slot dirs (fileItem id file name) :=
  ⟨nodeKind_fileItem hname, List.cons_ne_nil _ _, h⟩

theorem isDir_insert_file {fs : Fs} {d : Path} {bytes : Bytes} {synced : Bool}
    (hfits : fs.Fits nodeKind) (hk : nodeKind path = .file) (hd : fs.isDir d = true) :
    Fs.isDir (fs.insert path (.file bytes synced)) d = true := by
  by_cases hnil : d = []
  · simp [Fs.isDir, hnil]
  · have hne : d ≠ path := by
      rintro rfl
      rw [hfits.isDir_eq_false hnil hk] at hd
      exact Bool.false_ne_true hd
    exact (Fs.isDir_congr (Map.get_insert_of_ne hne)).trans hd

theorem isDir_erase_file {fs : Fs} {d : Path} (hfits : fs.Fits nodeKind)
    (hk : nodeKind path = .file) (hd : fs.isDir d = true) : Fs.isDir (fs.erase path) d = true := by
  by_cases hnil : d = []
  · simp [Fs.isDir, hnil]
  · have hne : d ≠ path := by
      rintro rfl
      rw [hfits.isDir_eq_false hnil hk] at hd
      exact Bool.false_ne_true hd
    exact (Fs.isDir_congr (Map.get_erase_of_ne hne)).trans hd

namespace Calm

theorem ran (h : Calm store dirs age seen s) {fs : Fs} (hfits : fs.Fits nodeKind)
    (hthere : ∀ d ∈ dirs, fs.isDir d = true) : Calm store dirs age seen (s.ran fs) where
  sameStore := h.sameStore
  tame := h.tame
  quiet := fates_ran h.quiet
  fits := hfits
  there := hthere
  unrepeated := h.unrepeated
  recent := h.recent

variable {bytes : Bytes}

section

variable (h : Calm store dirs age seen s)

include h

/-- A file was changed. -/
theorem wrote (hk : nodeKind path = .file) {synced : Bool} :
    Calm store dirs age seen (s.ran (s.disk.fs.insert path (.file bytes synced))) :=
  h.ran (h.fits.insert hk.symm) fun d hd => isDir_insert_file h.fits hk (h.there d hd)

theorem forget : Calm store dirs 0 [] s :=
  { h with recent := fun _ hn => absurd hn List.not_mem_nil }

theorem subset {fewer : List Path} (hsub : fewer ⊆ dirs) : Calm store fewer age seen s :=
  { h with there := fun d hd => h.there d (hsub hd) }

theorem placeable (hslot : Slot dirs path) : FsOp.Placeable s.disk.fs path :=
  ⟨h.there _ hslot.parent, h.fits.isDir_eq_false hslot.ne_nil hslot.file⟩

/-! ### Single steps -/

theorem getStore_eq : getStore s = .ok store s :=
  congrArg (fun store => Outcome.ok store s) h.sameStore

theorem hit_eq (point : DurabilityFaultPoint) : hit point s = .ok () s := by
  refine if_neg ?_
  rw [h.sameStore, h.tame.noFault]
  exact fun hnone => Option.some_ne_none point hnone.symm

/-- A file is written. -/
theorem completes_writeSynced (hslot : Slot dirs path) (bytes : Bytes) :
    (do io (.create path); io (.write path bytes); io (.sync path) : Op Unit).Completes
      (fun _ t => Calm store dirs age seen t ∧ t.disk.fs.read? path ≠ none) s := by
  refine .bind_of_ok (io_of_nil h.quiet (FsOp.effect_create.mpr ⟨h.placeable hslot, rfl⟩)) ?_
  have h₁ : Calm store dirs age seen (s.ran (s.disk.fs.insert path (.file [] false))) := h.wrote hslot.file
  have hread₁ : Fs.read? (s.disk.fs.insert path (.file [] false)) path = some [] :=
    Fs.read?_eq_some.mpr ⟨false, Map.get_insert_self⟩
  refine .bind_of_ok (io_of_nil h₁.quiet (FsOp.effect_write.mpr ⟨[], hread₁, rfl⟩)) ?_
  generalize s.ran (s.disk.fs.insert path (.file [] false)) = s₁ at h₁
  have h₂ : Calm store dirs age seen (s₁.ran (s₁.disk.fs.insert path (.file ([] ++ bytes) false))) :=
    h₁.wrote hslot.file
  have hread₂ : Fs.read? (s₁.disk.fs.insert path (.file ([] ++ bytes) false)) path =
      some ([] ++ bytes) := Fs.read?_eq_some.mpr ⟨false, Map.get_insert_self⟩
  refine .of_ok (io_of_nil h₂.quiet (FsOp.effect_sync.mpr ⟨_, hread₂, rfl⟩)) ⟨h₂.wrote hslot.file, ?_⟩
  exact fun hnone => Option.some_ne_none _
    ((Fs.read?_eq_some.mpr ⟨true, Map.get_insert_self⟩).symm.trans hnone)

end

variable {record : EncryptedRecordV1}

section

variable (h : Calm store dirs age seen s)

include h

theorem completes_writeRecord (hslot : Slot dirs path)
    (hb : record.encode = .ok bytes) : (writeRecord path record).Completes
      (fun _ t => Calm store dirs age seen t ∧ t.disk.fs.read? path ≠ none) s := by
  unfold writeRecord
  exact .bind_of_ok (ofExcept_eq_ok.mpr ⟨hb, rfl⟩) (h.completes_writeSynced hslot bytes)

theorem completes_flushDirectoryMarker {directory : Path}
    (hslot : Slot dirs (markerPath directory)) :
    (flushDirectoryMarker directory).Completes (fun _ t => Calm store dirs age seen t) s := by
  exact (h.completes_writeSynced hslot _).mono fun _ t ht => ht.1

/-- A file is moved over another one. -/
theorem completes_rename {target : Path} (hpath : s.disk.fs.read? path ≠ none)
    (hkpath : nodeKind path = .file) (hslot : Slot dirs target) :
    (io (.rename path target)).Completes (fun _ t => Calm store dirs age seen t) s := by
  obtain ⟨old, hold⟩ := Option.ne_none_iff_exists'.mp hpath
  obtain ⟨synced, hnode⟩ := Fs.read?_eq_some.mp hold
  refine .of_ok (io_of_nil h.quiet (FsOp.effect_rename.mpr
    ⟨old, synced, hnode, h.placeable hslot, rfl⟩)) ?_
  exact h.ran (h.fits.erase.insert hslot.file.symm) fun d hd =>
    isDir_insert_file h.fits.erase hslot.file (isDir_erase_file h.fits hkpath (h.there d hd))

/-- A nonce was drawn. -/
theorem drawn :
    Calm store dirs (age + 1) (s.nonces.head :: seen) { s with nonces := s.nonces.tail } :=
  { h with
    unrepeated := h.unrepeated.tail
    recent := by
      intro n hn i hi
      rcases List.mem_cons.mp hn with rfl | hn
      · exact (h.unrepeated 0 (i + 1) (by omega) (by omega)).symm
      · exact h.recent n hn (i + 1) (by omega) }

end

variable {nonces : NonceTracker} {plaintext : Bytes}

/-- A text is sealed if it is not too long and the nonce is fresh. -/
theorem sealRecord_wp (hP : P.Correct) (h : Calm store dirs age nonces.seen s) {aad : RecordAad}
    (hstore : (utf8 aad.storeId).length ≤ 128) (hfile : (utf8 aad.fileId).length ≤ 128) :
    (sealRecord P aad plaintext nonces).wp
      (fun sealed t => Calm store dirs (age + 1) sealed.2.seen t ∧
        ((∃ bytes, sealed.1.encode = .ok bytes) ↔ plaintext.length + 16 ≤ maxCiphertext))
      (fun _ t => Calm store dirs 0 [] t ∧ ¬(age < 2 ^ 64 ∧ plaintext.length + 16 ≤ maxCiphertext))
      (fun _ => False) s := by
  unfold sealRecord
  refine wp_bind_of_ok h.getStore_eq (wp_bind_of_ok (show drawNonce s = _ from rfl) ?_)
  cases hsealed : EncryptedRecordV1.sealRecord P store.key s.nonces.head aad plaintext nonces with
  | error e =>
    refine ⟨h.drawn.forget, ?_⟩
    rintro ⟨hage, hlength⟩
    have hsmall : plaintext.length ≤ 2 ^ 30 := by
      norm_num [maxCiphertext] at hlength
      omega
    obtain ⟨ciphertext, hc⟩ := Option.isSome_iff_exists.mp
      (hP.encrypt_isSome store.key s.nonces.head aad.canonicalBytes plaintext hsmall)
    have hnew : s.nonces.head ∉ nonces.seen :=
      fun hmem => h.recent _ hmem 0 (by omega) rfl
    cases hsealed.symm.trans (EncryptedRecordV1.sealRecord_eq_ok.mpr
      ⟨ciphertext, hc, rfl, hnew, rfl⟩)
  | ok sealed =>
    obtain ⟨ciphertext, hc, hrecord, -, hnext⟩ := EncryptedRecordV1.sealRecord_eq_ok.mp hsealed
    refine ⟨?_, ?_, fun hlength => ?_⟩
    · rw [hnext]
      exact { h.drawn with }
    · rintro ⟨bytes, hb⟩
      have hle := (EncryptedRecordV1.encode_eq_ok.mp hb).2.2.1
      rw [hrecord] at hle
      exact (hP.length_encrypt hc).symm.trans_le hle
    · rw [hrecord]
      exact ⟨_, EncryptedRecordV1.encode_eq_ok.mpr ⟨hstore.trans (by norm_num),
        hfile.trans (by norm_num), (hP.length_encrypt hc).trans_le hlength, rfl⟩⟩

/-! ### The records of a generation -/

/-- A record of a file is sealed and written. -/
theorem writeSealed_wp (hP : P.Correct)
    (h : Calm store dirs age nonces.seen s) {kind : RecordKind} {index : UInt64}
    (hslot : Slot dirs path) {before after : DurabilityFaultPoint} {length : ℕ} :
    (writeSealed P file (store.aad file generation kind index length) plaintext nonces path before
      after).wp (fun sealed t => Calm store dirs (age + 1) sealed.2.seen t ∧
        (plaintext.length + 16 ≤ maxCiphertext ∧ ∃ bytes, sealed.1.encode = .ok bytes))
      (fun _ t => Calm store dirs 0 [] t ∧ ¬(age < 2 ^ 64 ∧ plaintext.length + 16 ≤ maxCiphertext))
      (fun _ => False) s := by
  have hstore : Cursor.IsName store.storeId.toWire := isName_storeId
  have hfile : Cursor.IsName file.toWire := isName_fileId
  unfold writeSealed sealFor
  rw [wp_bind, wp_bind]
  refine wp_mono (h.sealRecord_wp hP hstore.2.1 hfile.2.1) (fun sealed t ht => ?_)
    (fun _ _ ht => ht) fun _ ht => ht
  have hnot : file.toWire ∉ store.forcedDuplicate := by
    rw [h.tame.noDuplicate]
    exact List.not_mem_nil
  refine wp_bind_of_ok ht.1.getStore_eq (wp_bind_of_ok (failIf_of_not hnot) ?_)
  refine wp_bind_of_ok (ht.1.hit_eq _) ?_
  cases hencode : sealed.1.encode with
  | error e =>
    refine (wp_bind _ _).mpr ?_
    unfold writeRecord
    rw [hencode]
    refine ⟨ht.1.forget, fun hfine => ?_⟩
    obtain ⟨bytes, hb⟩ := ht.2.mpr hfine.2
    cases hencode.symm.trans hb
  | ok bytes =>
    obtain ⟨_, u, hu, hcalm⟩ := ht.1.completes_writeRecord hslot hencode
    refine wp_bind_of_ok hu (wp_bind_of_ok (hcalm.1.hit_eq _) ?_)
    exact ⟨hcalm.1, ht.2.mp ⟨bytes, hencode⟩, bytes, hencode⟩

theorem flushChunks_wp (hP : P.Correct)
    (hdir : generationDir store.storeId file generation ∈ dirs) : (cs : List Bytes) →
    (∀ c ∈ cs, c.length ≤ chunkSize) → {index : ℕ} → {progress : FlushProgress} → {age : ℕ} →
    {s : Sys} → Calm store dirs age progress.nonces.seen s →
    (flushChunks P file generation index cs progress).wp
      (fun written t => Calm store dirs (age + cs.length) written.nonces.seen t ∧
        written.lengths = progress.lengths ++ cs.map fun chunk => UInt64.ofNat chunk.length)
      (fun _ t => Calm store dirs 0 [] t ∧ ¬age + cs.length < 2 ^ 64) (fun _ => False) s
  | [], _, _, _, _, _, h => ⟨h, (List.append_nil _).symm⟩
  | chunk :: rest, hcs, index, progress, age, s, h => by
    have hchunk : chunk.length + 16 ≤ maxCiphertext := by
      have hle := hcs chunk List.mem_cons_self
      rw [chunkSize_eq] at hle
      norm_num [maxCiphertext]
      omega
    unfold flushChunks
    refine wp_bind_of_ok h.getStore_eq ((wp_bind _ _).mpr (wp_mono
      (h.writeSealed_wp hP (.generationItem hdir)) (fun sealed t ht => ?_) (fun _ t ht => ?_)
      fun _ ht => ht))
    · have hnext : Calm store dirs (age + 1)
          ((progress.sealed sealed.1 sealed.2).chunkWritten chunk).nonces.seen t := ht.1
      have hlength : age + (chunk :: rest).length = age + 1 + rest.length := by
        rw [List.length_cons]
        omega
      rw [hlength]
      refine wp_mono (flushChunks_wp hP hdir rest
        (fun c hc => hcs c (List.mem_cons_of_mem _ hc)) hnext) (fun written u hu => ⟨hu.1, ?_⟩)
        (fun _ _ hu => hu) fun _ hu => hu
      rw [hu.2]
      simp [FlushProgress.chunkWritten, FlushProgress.sealed, FlushProgress.reached]
    · refine ⟨ht.1, fun hlt => ht.2 ⟨?_, hchunk⟩⟩
      rw [List.length_cons] at hlt
      omega

variable {progress : FlushProgress}

theorem flushManifest_wp (hP : P.Correct)
    (hdir : generationDir store.storeId file generation ∈ dirs)
    (h : Calm store dirs age progress.nonces.seen s) (hlengths : progress.lengths =
      (chunks chunkSize data).map fun chunk => UInt64.ofNat chunk.length) :
    (flushManifest P file generation data progress).wp
      (fun listed t => Calm store dirs (age + 1) listed.nonces.seen t)
      (fun _ t => Calm store dirs 0 [] t ∧ ¬(age < 2 ^ 64 ∧ ManifestFits file data))
      (fun _ => False) s := by
  have hname : Cursor.IsName file.toWire := isName_fileId
  unfold flushManifest
  rw [hlengths]
  refine wp_bind_of_ok h.getStore_eq ?_
  change (Act.ofExcept (manifestOf file generation data).encode >>= _).wp _ _ _ s
  cases hencode : (manifestOf file generation data).encode with
  | error e =>
    refine ⟨h.forget, fun hfine => ?_⟩
    have hcount := hfine.2.length_chunks_lt
    have hok : (manifestOf file generation data).encode =
        .ok (manifestOf file generation data).layout :=
      EncryptedManifestV1.encode_eq_ok.mpr ⟨hname.2.1.trans (by norm_num), by
        rw [manifestOf, List.length_map]
        omega, rfl⟩
    cases hencode.symm.trans hok
  | ok bytes =>
    obtain rfl := (EncryptedManifestV1.encode_eq_ok.mp hencode).2.2
    refine wp_bind_of_ok (ofExcept_ok_apply ..) ((wp_bind _ _).mpr (wp_mono
      (h.writeSealed_wp hP (.generationItem hdir)) (fun sealed t ht => ht.1) (fun _ t ht => ?_)
      fun _ ht => ht))
    exact ⟨ht.1, fun hfine => ht.2 ⟨hfine.1, manifestFits_iff.mp hfine.2⟩⟩

theorem flushCommit_wp (hP : P.Correct) (hdir : generationDir store.storeId file generation ∈ dirs)
    (h : Calm store dirs age progress.nonces.seen s) : (flushCommit P file generation progress).wp
      (fun staged t => Calm store dirs (age + 1) staged.2.nonces.seen t ∧
        ∃ bytes, staged.1.encode = .ok bytes)
      (fun _ t => Calm store dirs 0 [] t ∧ ¬age < 2 ^ 64) (fun _ => False) s := by
  have hname : Cursor.IsName (commitOf file generation).fileId := isName_fileId
  have hlength : (commitOf file generation).layout.length + 16 ≤ maxCiphertext := by
    have hbound : (utf8 file.toWire).length ≤ 128 := hname.2.1
    have hlayout : (commitOf file generation).layout.length =
        8 + (2 + (utf8 file.toWire).length) := by
      simp [CommitRecordV1.layout, sized, commitOf]
    norm_num [maxCiphertext]
    omega
  unfold flushCommit
  refine wp_bind_of_ok h.getStore_eq (wp_bind_of_ok (ofExcept_eq_ok.mpr
    ⟨CommitRecordV1.encode_of_isName hname, rfl⟩) ?_)
  exact (wp_bind _ _).mpr (wp_mono (h.writeSealed_wp hP (.generationItem hdir))
    (fun sealed t ht => ⟨ht.1, ht.2.2⟩) (fun _ t ht => ⟨ht.1, fun hage => ht.2 ⟨hage, hlength⟩⟩)
    fun _ ht => ht)

/-- A directory is made, with those above it. -/
theorem completes_createDirAll (h : Calm store dirs age seen s)
    (hkind : ∀ q, q ≠ [] → q <+: path → nodeKind q = .dir) : (io (.createDirAll path)).Completes
    (fun _ t => Calm store (Fs.ancestors path ++ dirs) age seen t) s := by
  refine .of_ok (io_of_nil h.quiet (FsOp.effect_createDirAll.mpr
    ⟨fun q hne hq => h.fits.read?_eq_none (hkind q hne hq), rfl⟩)) ?_
  refine {
    sameStore := h.sameStore
    tame := h.tame
    quiet := fates_ran h.quiet
    fits := h.fits.insertDirs fun q hq =>
      hkind q (Fs.mem_ancestors.mp hq).1 (Fs.mem_ancestors.mp hq).2
    there := fun d hd => Fs.isDir_insertDirs ((List.mem_append.mp hd).imp_right (h.there d))
    unrepeated := h.unrepeated
    recent := h.recent }

/-- The records of a generation are written if its manifest fits. -/
theorem stageGeneration_wp (hP : P.Correct) (h : Calm store dirs 0 [] s) :
    (stageGeneration P file generation data).wp
      (fun staged t => Calm store
        (Fs.ancestors (generationDir store.storeId file generation) ++ dirs) 0 [] t ∧
          ∃ bytes, staged.1.encode = .ok bytes)
      (fun _ t => Calm store dirs 0 [] t ∧ ¬ManifestFits file data) (fun _ => False) s := by
  have hdir : generationDir store.storeId file generation ∈
      Fs.ancestors (generationDir store.storeId file generation) ++ dirs :=
    List.mem_append_left _ (Fs.mem_ancestors.mpr ⟨List.cons_ne_nil _ _, List.prefix_refl _⟩)
  have hback : ∀ {t : Sys}, Calm store
      (Fs.ancestors (generationDir store.storeId file generation) ++ dirs) 0 [] t →
        Calm store dirs 0 [] t := fun ht => ht.subset (List.subset_append_right _ _)
  unfold stageGeneration
  have hkind : ∀ q, q ≠ [] → q <+: generationDir store.storeId file generation →
      nodeKind q = .dir := fun q hne hq => nodeKind_of_prefix hne hq
  obtain ⟨_, s₁, hs₁, h₁⟩ := h.completes_createDirAll hkind
  refine wp_bind_of_ok h.getStore_eq (wp_bind_of_ok hs₁ ((wp_bind _ _).mpr ?_))
  refine wp_mono (flushChunks_wp hP hdir _ (fun c hc => length_le_of_mem_chunks hc) h₁)
    (fun written s₂ h₂ => (wp_bind _ _).mpr ?_) (fun _ t ht => ⟨hback ht.1, fun hfits => ?_⟩)
    fun _ ht => ht
  · have hnonces := written.nonces_endChunks
    have hlengths := written.lengths_endChunks
    refine wp_mono (flushManifest_wp hP hdir (hnonces ▸ h₂.1) (hlengths.trans h₂.2))
      (fun listed s₃ h₃ => ?_) (fun _ t ht => ⟨hback ht.1, fun hfits => ht.2 ⟨?_, hfits⟩⟩)
      fun _ ht => ht
    · refine wp_mono (flushCommit_wp hP hdir h₃) (fun staged t ht => ⟨ht.1.forget, ht.2⟩)
        (fun _ t ht => ⟨hback ht.1, fun hfits => ht.2 ?_⟩) fun _ ht => ht
      have hcount := hfits.length_chunks_lt
      omega
    · have hcount := hfits.length_chunks_lt
      omega
  · have hcount := hfits.length_chunks_lt
    omega

/-! ### The pointer -/

theorem completes_whenExists {p : Op Unit} {Q : Sys → Prop} (hne : path ≠ [])
    (hp : ∀ node, s.disk.fs[path]? = some node → p.Completes (fun _ t => Q t) s) (hs : Q s) :
    (whenExists path p).Completes (fun _ t => Q t) s := by
  unfold whenExists
  refine .bind_of_ok (show pathExists path s = .ok (s.disk.fs.present path) s from rfl) ?_
  rw [Fs.present_eq hne]
  cases hnode : s.disk.fs[path]? with
  | none => exact .of_ok (pure_apply ..) hs
  | some node => exact hp node hnode

section

variable (hdir : fileDir store.storeId file ∈ dirs)

include hdir

theorem completes_keepPrior (h : Calm store dirs age seen s) :
    (keepPrior file).Completes (fun _ t => Calm store dirs age seen t) s := by
  unfold keepPrior
  refine .bind_of_ok h.getStore_eq (completes_whenExists (List.cons_ne_nil _ _) ?_ h)
  intro node hnode
  obtain ⟨old, hold⟩ := Option.ne_none_iff_exists'.mp (h.fits.read?_ne_none nodeKind_selected hnode)
  refine .bind_of_ok (io_of_nil h.quiet (FsOp.effect_copy.mpr ⟨old, hold, h.placeable
    (.fileItem previousName_ne_generationsName hdir), rfl⟩)) ?_
  have h₁ : Calm store dirs age seen (s.ran (s.disk.fs.insert (previousPath store.storeId file)
      (.file old false))) := h.wrote nodeKind_previous
  exact h₁.completes_flushDirectoryMarker (.fileItem markerName_ne_generationsName hdir)

theorem completes_replacePointer (h : Calm store dirs age seen s) (hb : record.encode = .ok bytes) :
    (replacePointer file generation record).Completes (fun _ t => Calm store dirs age seen t) s := by
  have htmp : nodeKind (selectedTmp store.storeId file generation) = .file :=
    nodeKind_fileItem (selectedTmpName_ne_generationsName _)
  unfold replacePointer
  refine .bind_of_ok h.getStore_eq (.bind_of_ok (h.hit_eq _) ?_)
  refine (h.completes_writeRecord (.fileItem (selectedTmpName_ne_generationsName _) hdir) hb).bind
    fun _ s₁ h₁ => ?_
  have hremoved : (whenExists (selectedPath store.storeId file)
      (io (.removeFile (selectedPath store.storeId file)))).Completes (fun _ t =>
        Calm store dirs age seen t ∧
          t.disk.fs.read? (selectedTmp store.storeId file generation) ≠ none) s₁ := by
    refine completes_whenExists (List.cons_ne_nil _ _) (fun node hnode => ?_) h₁
    refine .of_ok (io_of_nil h₁.1.quiet (FsOp.effect_removeFile.mpr
      ⟨h₁.1.fits.read?_ne_none nodeKind_selected hnode, rfl⟩)) ⟨?_, ?_⟩
    · exact h₁.1.ran h₁.1.fits.erase fun d hd =>
        isDir_erase_file h₁.1.fits nodeKind_selected (h₁.1.there d hd)
    · have hne : selectedTmp store.storeId file generation ≠ selectedPath store.storeId file :=
        fileItem_ne (selectedTmpName_ne_selectedName _)
      exact fun hnone => h₁.2 ((Fs.read?_congr (Map.get_erase_of_ne hne)).symm.trans hnone)
  exact hremoved.bind fun _ s₂ h₂ =>
    h₂.1.completes_rename h₂.2 htmp (.fileItem selectedName_ne_generationsName hdir)

/-- A commit record becomes the pointer. -/
theorem completes_publishPointer (h : Calm store dirs age seen s) (hb : record.encode = .ok bytes) :
    (publishPointer file generation record).Completes (fun _ t => Calm store dirs age seen t) s := by
  unfold publishPointer
  refine (h.completes_keepPrior hdir).bind fun _ s₁ h₁ => ?_
  refine (h₁.completes_replacePointer hdir hb).bind fun _ s₂ h₂ => ?_
  refine .bind_of_ok (h₂.hit_eq _) (.bind_of_ok (h₂.hit_eq _) (.bind_of_ok h₂.getStore_eq ?_))
  have hmarker : Slot dirs (markerPath (fileDir store.storeId file)) :=
    .fileItem markerName_ne_generationsName hdir
  exact (h₂.completes_flushDirectoryMarker hmarker).bind fun _ s₃ h₃ => .of_ok (h₃.hit_eq _) h₃

end

/-- Publishing what was staged does not fail: a flush fails only while it writes the records, and
only if its manifest does not fit. -/
theorem flushGeneration_wp (hP : P.Correct) (h : Calm store dirs 0 [] s) :
    (flushGeneration P file generation data).wp (fun _ t => Calm store dirs 0 [] t)
      (fun e t => stageGeneration P file generation data s = .err e t ∧
        Calm store dirs 0 [] t ∧ ¬ManifestFits file data) (fun _ => False) s := by
  have hstage : (stageGeneration P file generation data).wp _ _ _ s := h.stageGeneration_wp hP
  unfold flushGeneration
  rcases hrun : stageGeneration P file generation data s with ⟨staged, s₁⟩ | ⟨e, t⟩ | t
  · obtain ⟨h₁, bytes, hb⟩ := ok_of_wp hstage hrun
    have hdir : fileDir store.storeId file ∈
        Fs.ancestors (generationDir store.storeId file generation) ++ dirs :=
      List.mem_append_left _ (Fs.mem_ancestors.mpr ⟨List.cons_ne_nil _ _, fileDir_prefix⟩)
    obtain ⟨_, s₂, hs₂, h₂⟩ : (publishPointer file generation staged.1).Completes _ s₁ :=
      h₁.completes_publishPointer hdir hb
    exact wp_bind_of_ok hrun (wp_bind_of_ok hs₂ (h₂.subset (List.subset_append_right _ _)))
  · unfold Act.wp
    rw [bind_of_err hrun]
    exact ⟨rfl, err_of_wp hstage hrun⟩
  · exact (crash_of_wp hstage hrun).elim

/-! ### The namespace -/

/-- A namespace that fits in a record is persisted. -/
theorem completes_persistNamespace (hP : P.Correct) (h : Calm store dirs 0 [] s)
    (hdir : storeDir store.storeId ∈ dirs) (hnext : store.namespaceGeneration.toNat + 1 < 2 ^ 64)
    (hsize : store.namespaceBytes.length + 16 ≤ maxCiphertext) :
    (persistNamespace P).Completes (fun _ t => Calm
      { store with namespaceGeneration := store.namespaceGeneration + 1 } dirs 0 [] t) s := by
  have hid : Cursor.IsName store.storeId.toWire := isName_storeId
  have htmp : nodeKind (namespaceTmp store.storeId (store.namespaceGeneration + 1)) = .file :=
    PersistTarget.temporary.kind
  unfold persistNamespace
  refine .bind_of_ok h.getStore_eq (.bind_of_ok (failIf_of_not (by omega)) ?_)
  refine .bind_of_ok (show note _ s = _ from rfl) ?_
  have h₁ : Calm store dirs 0 [] { s with history := s.history ++ [.persisting store.key
      store.storeId (store.namespaceGeneration + 1) store.directories store.files] } := { h with }
  have hindex : (utf8 namespaceIndex).length ≤ 128 := by decide
  have hsealed : (sealRecord P (namespaceAad store.storeId (store.namespaceGeneration + 1)
      store.namespaceBytes.length) store.namespaceBytes {}).wp _ _ _ _ :=
    h₁.sealRecord_wp hP hid.2.1 hindex
  refine (Act.Completes.of_wp (wp_mono hsealed (fun _ _ ht => ht)
    (fun _ _ ht => ht.2 ⟨by norm_num, hsize⟩) fun _ ht => ht)).bind fun sealed s₂ h₂ => ?_
  obtain ⟨bytes, hb⟩ := h₂.2.mpr hsize
  have h₂ := h₂.1
  refine (h₂.forget.completes_writeRecord ⟨htmp, List.cons_ne_nil _ _, hdir⟩ hb).bind
    fun _ s₃ h₃ => ?_
  refine (h₃.1.completes_rename h₃.2 htmp
    ⟨nodeKind_namespacePath, List.cons_ne_nil _ _, hdir⟩).bind fun _ s₄ h₄ => ?_
  have hmarker : nodeKind (markerPath (storeDir store.storeId)) = .file :=
    if_neg fun heq => markerName_ne_filesName heq.2
  refine (h₄.completes_flushDirectoryMarker ⟨hmarker, List.cons_ne_nil _ _, hdir⟩).bind
    fun _ s₅ h₅ => ?_
  refine .of_ok (show modifyStore _ s₅ = _ from rfl) ?_
  exact { h₅ with sameStore := by rw [← h₅.sameStore], tame := ⟨h₅.tame.1, h₅.tame.2, h₅.tame.3⟩ }

end Calm

end Wdlp
