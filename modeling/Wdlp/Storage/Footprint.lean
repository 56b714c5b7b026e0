import Wdlp.Storage.Namespace

/-!
# What the operations do to the disk

For each operation that writes to the disk, the steps it can take (`StageOp` and `PublishOp` for a
flush, `PersistOp`, `EvidenceOp`, `RecoverOp`), the paths these touch and the layout they suit; and
for each, one result that says which properties of the state it keeps, however it ends. The results
on whole runs take what they need from these.

## Main definitions

* `StageOp`, `PublishOp`, `PersistOp`, `EvidenceOp`, `RecoverOp` — the steps of the operations.
* `FlushRecord` — the records that the flush of a content seals.

## Main results

* `FlushKeeps.keeps_flushGeneration`, `PersistKeeps.keeps_persistNamespace`,
  `RecoverKeeps.keeps_recoverStore`, `OpenKeeps.keeps_openStore` — what the operations keep.
* `StageOp.touches`, `PublishOp.touches`, `PersistOp.touches`, `EvidenceOp.touches`,
  `RecoverOp.touches` — the paths they can change; `StageOp.suits` and its like — they suit the
  layout.
-/

namespace Wdlp

open CrashSafe

variable {P : Primitives} {store : StoreId} {file : FileId} {generation : UInt64}

/-! ### Flush -/

/-- The records of a generation with the given number of chunks. -/
inductive StageTarget (store : StoreId) (file : FileId) (generation : UInt64) (count : ℕ) :
    Path → Prop
  | chunk {index : ℕ} (h : index < count) :
      StageTarget store file generation count (chunkPath store file generation index)
  | manifest : StageTarget store file generation count (manifestPath store file generation)
  | commit : StageTarget store file generation count (commitPath store file generation)

/-- The steps that write a generation. -/
inductive StageOp (store : StoreId) (file : FileId) (generation : UInt64) (count : ℕ) :
    FsOp → Prop
  | directory : StageOp store file generation count
      (.createDirAll (generationDir store file generation))
  | write {op : FsOp} (h : WriteOp (StageTarget store file generation count) op) :
      StageOp store file generation count op

/-- The files that are written to publish a generation. -/
inductive PublishTarget (store : StoreId) (file : FileId) (generation : UInt64) : Path → Prop
  | temporary : PublishTarget store file generation (selectedTmp store file generation)
  | marker : PublishTarget store file generation (markerPath (fileDir store file))

/-- The steps that publish a generation. -/
inductive PublishOp (store : StoreId) (file : FileId) (generation : UInt64) : FsOp → Prop
  | write {op : FsOp} (h : WriteOp (PublishTarget store file generation) op) :
      PublishOp store file generation op
  | copy : PublishOp store file generation
      (.copy (selectedPath store file) (previousPath store file))
  | remove : PublishOp store file generation (.removeFile (selectedPath store file))
  | rename : PublishOp store file generation
      (.rename (selectedTmp store file generation) (selectedPath store file))

/-- The manifest of a content. -/
def manifestOf (file : FileId) (generation : UInt64) (data : Bytes) : EncryptedManifestV1 where
  generation := generation
  fileId := file.toWire
  logicalLength := UInt64.ofNat data.length
  chunkLengths := (chunks chunkSize data).map fun chunk => UInt64.ofNat chunk.length

/-- The commit record of a generation. -/
def commitOf (file : FileId) (generation : UInt64) : CommitRecordV1 where
  generation := generation
  fileId := file.toWire

/-- The records that the flush of a content seals. -/
inductive FlushRecord (store : StoreId) (file : FileId) (generation : UInt64) (data : Bytes) :
    RecordAad → Bytes → Prop
  | chunk {index : ℕ} {chunk : Bytes} (h : (chunks chunkSize data)[index]? = some chunk) :
      FlushRecord store file generation data
        (fileAad store file generation .chunk (UInt64.ofNat index) chunk.length) chunk
  | manifest {bytes : Bytes} (h : (manifestOf file generation data).encode = .ok bytes) :
      FlushRecord store file generation data
        (fileAad store file generation .manifest 0 bytes.length) bytes
  | commit {bytes : Bytes} (h : (commitOf file generation).encode = .ok bytes) :
      FlushRecord store file generation data
        (fileAad store file generation .commit 0 bytes.length) bytes

/-- What it takes for a property to be kept while the records of a content are written. -/
structure StageKeeps (J : Core → Prop) (store : StoreId) (key : StoreKey) (file : FileId)
    (generation : UInt64) (data : Bytes) : Prop where
  session : ∀ c, J c → c.store.storeId = store ∧ c.store.key = key
  stages : ∀ op, StageOp store file generation (chunks chunkSize data).length op → Allows J op
  seals : ∀ c aad plaintext, J c → FlushRecord store file generation data aad plaintext →
    J (c.noted (.sealed key aad plaintext))
  faults : ∀ c, J c → J (c.withStore
    { c.store with faultIo := { c.store.faultIo with fault := none } })

/-- What it takes for a property to be kept by the flush of a content. -/
structure FlushKeeps (J : Core → Prop) (store : StoreId) (key : StoreKey) (file : FileId)
    (generation : UInt64) (data : Bytes) : Prop
    extends StageKeeps J store key file generation data where
  publishes : ∀ op, PublishOp store file generation op → Allows J op

theorem keeps_whenExists {J : Core → Prop} {path : Path} {p : Op Unit} (h : Keeps J p) :
    Keeps J (whenExists path p) :=
  .bind keeps_pathExists fun _ _ =>
    .ite (fun _ => h) fun _ => .pure trivial

@[simp] theorem FlushProgress.lengths_endChunks (progress : FlushProgress) :
    progress.endChunks.lengths = progress.lengths := by
  unfold endChunks
  split <;> rfl

@[simp] theorem FlushProgress.nonces_endChunks (progress : FlushProgress) :
    progress.endChunks.nonces = progress.nonces := by
  unfold endChunks
  split <;> rfl

section Flush

variable {J : Core → Prop} {key : StoreKey} {data : Bytes}

namespace StageKeeps

theorem target (h : StageKeeps J store key file generation data) {path : Path}
    (hp : StageTarget store file generation (chunks chunkSize data).length path) :
    AllowsFile J path :=
  allowsFile_of_target (fun op hop => h.stages op (.write hop)) hp

theorem keeps_getStore (h : StageKeeps J store key file generation data) :
    Keeps J getStore fun s => s.storeId = store ∧ s.key = key :=
  .mono Wdlp.keeps_getStore fun _ ⟨c, hc, hs⟩ => hs ▸ h.session c hc

/-- A record of the content is sealed and written. -/
theorem keeps_writeSealed (h : StageKeeps J store key file generation data) {aad : RecordAad}
    {plaintext : Bytes} {nonces : NonceTracker} {path : Path} {before after : DurabilityFaultPoint}
    (hr : FlushRecord store file generation data aad plaintext)
    (hp : StageTarget store file generation (chunks chunkSize data).length path) :
    Keeps J (writeSealed P file aad plaintext nonces path before after) := by
  refine .bind (keeps_sealFor fun c hc key' hkey => ?_) fun sealed _ => ?_
  · obtain ⟨c', hc', rfl⟩ := hkey
    rw [(h.session c' hc').2]
    exact h.seals c aad plaintext hc hr
  refine .bind (keeps_hit h.faults) fun _ _ => ?_
  refine .bind (keeps_writeRecord (h.target hp)) fun _ _ => ?_
  exact .bind (keeps_hit h.faults) fun _ _ => .pure trivial

/-- The chunks from an index on: the lengths of the chunks are added to the progress. -/
theorem keeps_flushChunks (h : StageKeeps J store key file generation data) :
    (rest : List Bytes) → (index : ℕ) → (progress : FlushProgress) →
    (∀ i chunk, rest[i]? = some chunk → (chunks chunkSize data)[index + i]? = some chunk) →
    Keeps J (flushChunks P file generation index rest progress) fun written =>
      written.lengths = progress.lengths ++ rest.map fun chunk => UInt64.ofNat chunk.length
  | [], index, progress, _ => .pure (by simp)
  | chunk :: rest, index, progress, hrest => by
    have hchunk := hrest 0 chunk rfl
    rw [Nat.add_zero] at hchunk
    have htail : ∀ i c, rest[i]? = some c → (chunks chunkSize data)[index + 1 + i]? = some c := by
      intro i c hc
      rw [show index + 1 + i = index + (i + 1) by omega]
      exact hrest (i + 1) c hc
    refine .bind h.keeps_getStore fun s hs => ?_
    have hr : FlushRecord store file generation data _ _ := .chunk hchunk
    have hindex := (List.getElem?_eq_some_iff.mp hchunk).1
    rw [Store.aad, hs.1]
    refine .bind (h.keeps_writeSealed hr (.chunk hindex)) fun sealed _ => ?_
    refine .mono (keeps_flushChunks h rest (index + 1) _ htail) fun written hw => ?_
    rw [hw]
    simp [FlushProgress.sealed, FlushProgress.chunkWritten]

variable {progress : FlushProgress}

theorem keeps_flushManifest (h : StageKeeps J store key file generation data)
    (hp : progress.lengths = (chunks chunkSize data).map fun chunk => UInt64.ofNat chunk.length) :
    Keeps J (flushManifest P file generation data progress) := by
  refine .bind h.keeps_getStore fun s hs => ?_
  rw [hp]
  refine .bind .ofExcept fun bytes hb => ?_
  have hr : FlushRecord store file generation data _ _ := .manifest hb
  rw [Store.aad, hs.1]
  exact .bind (h.keeps_writeSealed hr .manifest) fun _ _ => .pure trivial

theorem keeps_flushCommit (h : StageKeeps J store key file generation data)
    : Keeps J (flushCommit P file generation progress) := by
  refine .bind h.keeps_getStore fun s hs => ?_
  refine .bind .ofExcept fun bytes hb => ?_
  have hr : FlushRecord store file generation data _ _ := .commit hb
  rw [Store.aad, hs.1]
  exact .bind (h.keeps_writeSealed hr .commit) fun _ _ => .pure trivial

/-- What writing a generation keeps. -/
theorem keeps_stageGeneration (h : StageKeeps J store key file generation data) :
    Keeps J (stageGeneration P file generation data) := by
  refine .bind h.keeps_getStore fun s hs => ?_
  rw [hs.1]
  refine .bind (keeps_io (h.stages _ .directory)) fun _ _ => ?_
  have hall : ∀ i chunk, (chunks chunkSize data)[i]? = some chunk →
      (chunks chunkSize data)[0 + i]? = some chunk := by
    intro i chunk hc
    rw [Nat.zero_add]
    exact hc
  refine .bind (h.keeps_flushChunks (chunks chunkSize data) 0 {} hall) fun written hw => ?_
  have hend : written.endChunks.lengths =
      (chunks chunkSize data).map fun chunk => UInt64.ofNat chunk.length := by
    rw [FlushProgress.lengths_endChunks, hw, List.nil_append]
  refine .bind (h.keeps_flushManifest hend) fun _ _ => ?_
  exact h.keeps_flushCommit

end StageKeeps

namespace FlushKeeps

section

variable (h : FlushKeeps J store key file generation data)

include h

theorem keeps_publishPointer
    {record : EncryptedRecordV1} : Keeps J (publishPointer file generation record) := by
  have hwrite : ∀ {path}, PublishTarget store file generation path → AllowsFile J path :=
    fun hp => allowsFile_of_target (fun op hop => h.publishes op (.write hop)) hp
  have hmarker := hwrite .marker
  have htemporary := hwrite .temporary
  have hkeep : Keeps J (keepPrior file) := by
    refine .bind h.keeps_getStore fun s hs => ?_
    rw [hs.1]
    exact keeps_whenExists (.bind (keeps_io (h.publishes _ .copy)) fun _ _ =>
      keeps_flushDirectoryMarker hmarker)
  have hreplace : Keeps J (replacePointer file generation record) := by
    refine .bind h.keeps_getStore fun s hs => ?_
    rw [hs.1]
    refine .bind (keeps_hit h.faults) fun _ _ => ?_
    refine .bind (keeps_writeRecord htemporary) fun _ _ => ?_
    refine .bind (keeps_whenExists (keeps_io (h.publishes _ .remove))) fun _ _ => ?_
    exact keeps_io (h.publishes _ .rename)
  refine .bind hkeep fun _ _ => .bind hreplace fun _ _ => ?_
  refine .bind (keeps_hit h.faults) fun _ _ => ?_
  refine .bind (keeps_hit h.faults) fun _ _ => ?_
  refine .bind h.keeps_getStore fun s hs => ?_
  rw [hs.1]
  refine .bind (keeps_flushDirectoryMarker hmarker) fun _ _ => ?_
  exact keeps_hit h.faults

/-- A property of the disk and the counters that the steps of a flush keep, along with another. -/
theorem and {K : Core → Prop}
    (hstages : ∀ op, StageOp store file generation (chunks chunkSize data).length op → Allows K op)
    (hpublishes : ∀ op, PublishOp store file generation op → Allows K op)
    (hnoted : ∀ c entry, K c → K (c.noted entry)) (hstore : ∀ c st, K c → K (c.withStore st)) :
    FlushKeeps (fun c => J c ∧ K c) store key file generation data where
  session c hc := h.session c hc.1
  stages op hop c fs hl hc := ⟨h.stages op hop c fs hl hc.1, hstages op hop c fs hl hc.2⟩
  seals c aad plaintext hc hr := ⟨h.seals c aad plaintext hc.1 hr, hnoted c _ hc.2⟩
  faults c hc := ⟨h.faults c hc.1, hstore c _ hc.2⟩
  publishes op hop c fs hl hc := ⟨h.publishes op hop c fs hl hc.1, hpublishes op hop c fs hl hc.2⟩

/-- What the flush of a content keeps. -/
theorem keeps_flushGeneration : Keeps J (flushGeneration P file generation data) :=
  .bind h.keeps_stageGeneration fun _ _ =>
    .bind h.keeps_publishPointer fun _ _ => .pure trivial

end

end FlushKeeps

end Flush

/-! ### Persisted namespaces -/

/-- The files that are written to persist a namespace. -/
inductive PersistTarget (store : StoreId) (generation : UInt64) : Path → Prop
  | temporary : PersistTarget store generation (namespaceTmp store generation)
  | marker : PersistTarget store generation (markerPath (storeDir store))

/-- The steps that persist a namespace. -/
inductive PersistOp (store : StoreId) (generation : UInt64) : FsOp → Prop
  | write {op : FsOp} (h : WriteOp (PersistTarget store generation) op) :
      PersistOp store generation op
  | rename : PersistOp store generation
      (.rename (namespaceTmp store generation) (namespacePath store))

/-- The plaintext of the namespace of a store. -/
def Store.namespaceBytes (s : Store) : Bytes := utf8 (namespaceText s.directories s.files)

/-- What it takes for a property to be kept when the namespace is persisted. -/
structure PersistKeeps (J : Core → Prop) (store : StoreId) (key : StoreKey) : Prop where
  session : ∀ c, J c → c.store.storeId = store ∧ c.store.key = key
  ops : ∀ generation op, PersistOp store generation op → Allows J op
  begins : ∀ c s generation, J c → (∃ c', J c' ∧ c'.store = s) →
    J (c.noted (.persisting key store generation s.directories s.files))
  seals : ∀ c s generation, J c → (∃ c', J c' ∧ c'.store = s) →
    .persisting key store generation s.directories s.files ∈ c.history →
      J (c.noted (.sealed key (namespaceAad store generation s.namespaceBytes.length)
        s.namespaceBytes))
  counts : ∀ c generation, J c → J (c.withStore { c.store with namespaceGeneration := generation })

section Persist

variable {J : Core → Prop} {key : StoreKey}

theorem PersistKeeps.target (h : PersistKeeps J store key) {path : Path}
    (hp : PersistTarget store generation path) : AllowsFile J path :=
  allowsFile_of_target (fun op hop => h.ops generation op (.write hop)) hp

/-- What persisting the namespace keeps. -/
theorem PersistKeeps.keeps_persistNamespace (h : PersistKeeps J store key) :
    Keeps J (persistNamespace P) := by
  refine .bind keeps_getStore fun s hs => ?_
  have hsession : s.storeId = store ∧ s.key = key := by
    obtain ⟨c, hc, rfl⟩ := hs
    exact h.session c hc
  refine .bind .failIf fun _ _ => ?_
  rw [hsession.1, hsession.2]
  refine keeps_note_bind (fun c hc => h.begins c s _ hc hs) ?_
  refine .bind (keeps_sealRecord fun c hc key' hkey => ?_) fun sealed _ => ?_
  · obtain ⟨c', hc', rfl⟩ := hkey
    rw [(h.session c' hc'.1).2]
    exact ⟨h.seals c s _ hc.1 hs hc.2, List.mem_append_left _ hc.2⟩
  refine .bind (keeps_writeRecord ((h.target .temporary).and_mem _)) fun _ _ => ?_
  refine .bind (keeps_io ((h.ops _ _ .rename).and_mem _)) fun _ _ => ?_
  have hmarker : PersistTarget store 0 (markerPath (storeDir store)) := .marker
  refine .bind (keeps_flushDirectoryMarker ((h.target hmarker).and_mem _)) fun _ _ => ?_
  exact keeps_modifyStore fun c hc => ⟨h.counts c _ hc.1, hc.2⟩

end Persist

/-! ### Evidence and recovery -/

/-- The steps that keep evidence. -/
inductive EvidenceOp : FsOp → Prop
  | root : EvidenceOp (.createDirAll evidenceRoot)
  | directory (number : ℕ) : EvidenceOp (.createDir (evidenceDir (evidenceId number)))
  | openLog : EvidenceOp (.openAppend diagnosticsPath)
  | writeLog (bytes : Bytes) : EvidenceOp (.write diagnosticsPath bytes)
  | syncLog : EvidenceOp (.sync diagnosticsPath)
  | create (number index : ℕ) : EvidenceOp (.create (evidenceRecord (evidenceId number) index))
  | write (number index : ℕ) (bytes : Bytes) :
      EvidenceOp (.write (evidenceRecord (evidenceId number) index) bytes)

/-- What it takes for a property to be kept when evidence is taken. -/
structure EvidenceKeeps (J : Core → Prop) : Prop where
  ops : ∀ op, EvidenceOp op → Allows J op
  counts : ∀ c n, c.counters.nextEvidence ≤ n → J c →
    J (c.withCounters { c.counters with nextEvidence := n })

/-- The steps of recovery, apart from the evidence it takes. -/
inductive RecoverOp (store : StoreId) (file : FileId) : FsOp → Prop
  | copy : RecoverOp store file (.copy (previousPath store file) (selectedPath store file))
  | marker {op : FsOp} (h : WriteOp (· = markerPath (fileDir store file)) op) :
      RecoverOp store file op
  | remove (name : Text) :
      RecoverOp store file (.removeDirAll (generationsDir store file ++ [name]))

/-- What it takes for a property to be kept by recovery. -/
structure RecoverKeeps (J : Core → Prop) (store : StoreId) (file : FileId) : Prop
    extends EvidenceKeeps J where
  session : ∀ c, J c → c.store.storeId = store
  recovers : ∀ op, RecoverOp store file op → Allows J op

section Recovery

variable {J : Core → Prop} {pointer : Path}

theorem keeps_readCommit : Keeps J (readCommit P pointer file) := by
  refine .bind keeps_getStore fun s _ => .bind keeps_readRecord fun r _ => ?_
  refine .bind .ofExcept fun _ _ => ?_
  refine .bind .ofExcept fun _ _ => ?_
  exact .bind .failIf fun _ _ => .pure trivial

theorem keeps_commitGeneration : Keeps J (commitGeneration P pointer file) :=
  .bind keeps_readCommit fun _ _ => .pure trivial

private theorem keeps_readChunks : (lengths : List UInt64) → (index : ℕ) → (nonces : NonceTracker) →
    (out : Bytes) → Keeps J (readChunks P file generation index lengths nonces out)
  | [], _, _, _ => .pure trivial
  | length :: lengths, index, nonces, out => by
    refine .bind .failIf fun _ _ => .bind keeps_getStore fun s _ => ?_
    refine .bind keeps_readRecord fun r _ => ?_
    refine .bind .ofExcept fun _ _ => ?_
    refine .bind .failIf fun _ _ => ?_
    refine .bind .ofExcept fun _ _ => ?_
    refine .bind .ofExcept fun _ _ => ?_
    exact keeps_readChunks lengths (index + 1) _ _

theorem keeps_checkCommitted {commit : CommitRecordV1} :
    Keeps J (checkCommitted P file commit) := by
  refine .bind keeps_getStore fun s _ => .bind keeps_readRecord fun r _ => ?_
  refine .bind .ofExcept fun _ _ => ?_
  refine .bind .failIf fun _ _ => ?_
  exact Act.Keeps.bind Act.Keeps.ofExcept fun _ _ => Act.Keeps.failIf.weaken

theorem keeps_readFromPointer : Keeps J (readFromPointer P pointer file) := by
  have hmanifest : ∀ generation, Keeps J (readManifest P file generation) := by
    intro generation
    refine .bind keeps_getStore fun s _ => .bind keeps_readRecord fun r _ => ?_
    refine .bind .ofExcept fun _ _ => ?_
    refine .bind .failIf fun _ _ => ?_
    refine .bind .ofExcept fun _ _ => ?_
    exact .bind .failIf fun _ _ => .pure trivial
  refine .bind keeps_readCommit fun selected _ => ?_
  refine .bind keeps_checkCommitted fun _ _ => ?_
  refine .bind (hmanifest _) fun listed _ => ?_
  refine .bind .ofExcept fun _ _ => ?_
  refine .bind .ofExcept fun _ _ => ?_
  refine .bind (keeps_readChunks _ _ _ _) fun out _ => ?_
  exact .bind .failIf fun _ _ => .pure trivial

/-- Reading keeps every property. -/
theorem keeps_readFile : Keeps J (readFile P file) :=
  .bind keeps_getStore fun _ _ => keeps_readFromPointer

theorem keeps_entryMetadata {path : VirtualPath} : Keeps J (entryMetadata path) := by
  refine .bind keeps_getStore fun store _ => .ite (fun _ => ?_) fun _ => ?_
  · refine Act.Keeps.ite (fun _ => ?_) fun _ => Act.Keeps.ofOption.weaken
    exact .bind keeps_currentFiletime fun _ _ => .pure trivial
  · refine .bind .ofOption fun entry _ => ?_
    exact .bind .failIf fun _ _ => .pure trivial

namespace EvidenceKeeps

theorem keeps_drawEvidence (h : EvidenceKeeps J) : Keeps J drawEvidence :=
  fun s hs => ⟨h.counts s.core _ (Nat.le_succ _) hs, trivial⟩

variable {code : EvidenceCode}

theorem keeps_copyEvidenceFile (h : EvidenceKeeps J) {number next : ℕ}
    {path : Path} : Keeps J (copyEvidenceFile P (evidenceId number) code path next) := by
  refine .bind .failIf fun _ _ => .bind keeps_readBytes fun _ _ => ?_
  refine .bind (keeps_io (h.ops _ (.writeLog _))) fun _ _ => ?_
  refine .bind (keeps_io (h.ops _ .syncLog)) fun _ _ => ?_
  refine .bind (R := fun _ => True) ?_ fun _ _ => .pure trivial
  exact .bind (keeps_io (h.ops _ (.create number next))) fun _ _ =>
    keeps_io (h.ops _ (.write number next _))

theorem keeps_copyEvidenceFiles (h : EvidenceKeeps J) {number : ℕ} : (depth : ℕ) → (source : Path) →
    (next : ℕ) → Keeps J (copyEvidenceFiles P (evidenceId number) code depth source next)
  | 0, _, _ => .throw _
  | depth + 1, source, next => by
    refine .bind keeps_readDir fun names _ => .foldlM (fun next name => ?_) _ _
    refine .bind keeps_pathIsDir fun _ _ => .ite (fun _ => ?_) fun _ => ?_
    · exact keeps_copyEvidenceFiles h depth _ next
    · exact h.keeps_copyEvidenceFile

theorem keeps_preserveEvidenceDirectory (h : EvidenceKeeps J) {source : Path}
    : Keeps J (preserveEvidenceDirectory P source code) := by
  refine .bind (keeps_io (h.ops _ .root)) fun _ _ => ?_
  refine .bind h.keeps_drawEvidence fun number _ => ?_
  refine .bind (keeps_io (h.ops _ (.directory number))) fun _ _ => ?_
  refine .bind (keeps_io (h.ops _ .openLog)) fun _ _ => ?_
  refine .bind .get fun s _ => ?_
  refine .bind (h.keeps_copyEvidenceFiles _ _ _) fun _ _ => ?_
  exact keeps_io (h.ops _ .syncLog)

theorem keeps_preserveNamespaceIntegrityEvidence (h : EvidenceKeeps J) :
    Keeps J (preserveNamespaceIntegrityEvidence P) := by
  refine .bind keeps_getStore fun s _ => keeps_whenExists ?_
  refine .bind (keeps_io (h.ops _ .root)) fun _ _ => ?_
  refine .bind h.keeps_drawEvidence fun number _ => ?_
  refine .bind (keeps_io (h.ops _ (.directory number))) fun _ _ => ?_
  refine .bind keeps_readBytes fun bytes _ => ?_
  refine .bind (R := fun _ => True) ?_ fun _ _ => ?_
  · exact .bind (keeps_io (h.ops _ (.create number 1))) fun _ _ =>
      keeps_io (h.ops _ (.write number 1 _))
  refine .bind (keeps_io (h.ops _ .openLog)) fun _ _ => ?_
  refine .bind (keeps_io (h.ops _ (.writeLog _))) fun _ _ => ?_
  exact keeps_io (h.ops _ .syncLog)

theorem keeps_rejectNamespace (h : EvidenceKeeps J) {α : Type} {R : α → Prop} :
    Keeps J (rejectNamespace P : Op α) R :=
  .bind (.attempt h.keeps_preserveNamespaceIntegrityEvidence) fun _ _ =>
    .throw _

theorem keeps_priorGeneration : Keeps J (priorGeneration P file) := by
  refine .bind keeps_getStore fun s _ => .bind keeps_pathExists fun _ _ => ?_
  refine .ite (fun _ => ?_) fun _ => .pure trivial
  exact .bind (.attempt keeps_commitGeneration) fun _ _ => .pure trivial

/-- What cleaning up keeps: the generation that was selected is not removed. -/
theorem keeps_cleanup (h : EvidenceKeeps J) (hsession : ∀ c, J c → c.store.storeId = store)
    (hremove : ∀ name, name ≠ generationName generation →
      Allows J (.removeDirAll (generationsDir store file ++ [name]))) :
    Keeps J (cleanupUnreferencedStaging P file generation) := by
  have hstore : Keeps J getStore fun s => s.storeId = store :=
    .mono keeps_getStore fun _ ⟨c, hc, hs⟩ => hs ▸ hsession c hc
  refine .bind hstore fun s hs => ?_
  rw [hs]
  refine keeps_whenExists (.bind keeps_priorGeneration fun _ _ => ?_)
  refine .bind keeps_readDir fun names _ => .forEach names fun name _ => ?_
  refine .bind keeps_pathIsDir fun _ _ => .ite (fun hc => ?_) fun _ => ?_
  · have hname : name ≠ generationName generation := by
      rintro rfl
      exact hc.2 List.mem_cons_self
    exact .bind h.keeps_preserveEvidenceDirectory fun _ _ => keeps_io (hremove name hname)
  · exact .pure trivial

end EvidenceKeeps

namespace RecoverKeeps

section

variable (h : RecoverKeeps J store file)

include h

theorem keeps_getStore : Keeps J getStore fun s => s.storeId = store :=
  .mono Wdlp.keeps_getStore fun _ ⟨c, hc, hs⟩ => hs ▸ h.session c hc

theorem marker : AllowsFile J (markerPath (fileDir store file)) :=
  fun op hop => h.recovers op (.marker hop)

theorem keeps_cleanupUnreferencedStaging : Keeps J (cleanupUnreferencedStaging P file generation) :=
  h.toEvidenceKeeps.keeps_cleanup h.session fun name _ => h.recovers _ (.remove name)

theorem keeps_recoverSelectedFromPrior : Keeps J (recoverSelectedFromPrior P file) := by
  have hprior : Keeps J (recoverFromPriorPointer P file) := by
    refine .bind h.keeps_getStore fun s hs => ?_
    rw [hs]
    refine .bind (.attempt keeps_readFromPointer) fun result _ => ?_
    split
    · exact .throw _
    · exact .throw _
    · refine .bind keeps_commitGeneration fun _ _ => ?_
      refine .bind (keeps_io (h.recovers _ .copy)) fun _ _ => ?_
      refine .bind (keeps_flushDirectoryMarker h.marker) fun _ _ => ?_
      exact .bind h.keeps_cleanupUnreferencedStaging fun _ _ => .pure trivial
  refine .bind h.keeps_getStore fun s hs => ?_
  rw [hs]
  refine .bind keeps_pathExists fun _ _ => .ite (fun _ => ?_) fun _ => hprior
  refine .bind (.attempt keeps_readFromPointer) fun result _ => ?_
  split
  · exact .throw _
  · exact .throw _
  · refine .bind keeps_commitGeneration fun _ _ => ?_
    exact .bind h.keeps_cleanupUnreferencedStaging fun _ _ => .pure trivial

/-- What recovery keeps. -/
theorem keeps_recoverStore : Keeps J (recoverStore P file) := by
  refine .bind (.attempt h.keeps_recoverSelectedFromPrior) fun result _ => ?_
  split
  · refine .bind (R := fun _ => True) ?_ fun _ _ => .throw _
    exact .bind Wdlp.keeps_getStore fun _ _ =>
      h.toEvidenceKeeps.keeps_preserveEvidenceDirectory
  · exact .throw _
  · exact .pure trivial

end

end RecoverKeeps

end Recovery

/-! ### Opening -/

/-- What it takes for a property to be kept when a store is opened. -/
structure OpenKeeps (J : Core → Prop) (store : StoreId) : Prop extends EvidenceKeeps J where
  directory : Allows J (.createDirAll (filesDir store))
  stores : ∀ c s, J c → J (c.withStore s)

namespace OpenKeeps

variable {J : Core → Prop}

section

variable (h : OpenKeeps J store)

include h

theorem keeps_loadDirectory {key : Text} {entry : DirectoryEntry} :
    Keeps J (loadDirectory P key entry) := by
  refine .bind keeps_getStore fun s _ => ?_
  refine .bind (keeps_modifyStore fun c hc => h.stores c _ hc) fun _ _ => ?_
  exact .ite (fun _ => h.toEvidenceKeeps.keeps_rejectNamespace) fun _ =>
    .pure trivial

theorem keeps_loadFile {key : Text} {entry : FileEntry} : Keeps J (loadFile P key entry) := by
  refine .bind keeps_getStore fun s _ => ?_
  refine .bind (keeps_modifyStore fun c hc => h.stores c _ hc) fun _ _ => ?_
  exact .ite (fun _ => h.toEvidenceKeeps.keeps_rejectNamespace) fun _ =>
    .pure trivial

theorem keeps_loadLineV2 {line : Text} : Keeps J (loadLineV2 P line) := by
  have hreject : Keeps J (rejectNamespace P : Op Unit) := h.toEvidenceKeeps.keeps_rejectNamespace
  unfold loadLineV2
  split
  · refine .ite (fun _ => ?_) fun _ => hreject
    exact .bind .ofExcept fun _ _ => h.keeps_loadDirectory
  · refine .ite (fun _ => ?_) fun _ => hreject
    refine .bind .ofExcept fun _ _ => ?_
    exact .bind .ofExcept fun _ _ => h.keeps_loadFile
  · exact hreject

theorem keeps_loadLineV1 {fallback : EntryMetadata} {line : Text} :
    Keeps J (loadLineV1 P fallback line) := by
  have hreject : Keeps J (rejectNamespace P : Op Unit) := h.toEvidenceKeeps.keeps_rejectNamespace
  unfold loadLineV1
  split
  · exact .ite (fun _ => h.keeps_loadDirectory) fun _ => hreject
  · refine .ite (fun _ => ?_) fun _ => hreject
    exact .bind .ofExcept fun _ _ => h.keeps_loadFile
  · exact hreject

theorem keeps_loadLines (lines : List Text) : Keeps J (loadLines P lines) := by
  have hreject : Keeps J (rejectNamespace P : Op Unit) := h.toEvidenceKeeps.keeps_rejectNamespace
  cases lines with
  | nil => exact hreject
  | cons header lines =>
    refine .ite (fun _ => ?_) fun _ => .ite (fun _ => ?_) fun _ => hreject
    · exact .forEach lines fun _ _ => h.keeps_loadLineV2
    · exact .bind keeps_currentFiletime fun _ _ =>
        .forEach lines fun _ _ => h.keeps_loadLineV1

theorem keeps_orReject {α : Type} (x : Except StorageError α) : Keeps J (orReject P x) := by
  cases x with
  | ok a => exact .pure trivial
  | error e => exact h.toEvidenceKeeps.keeps_rejectNamespace

/-- What opening a store keeps. -/
theorem keeps_openStore {identity : CapturedStoreIdentity}
    (hid : identity.storeId = store) {key : StoreKey} : Keeps J (openStore P identity key) := by
  subst hid
  refine .bind (keeps_io h.directory) fun _ _ => ?_
  refine .bind (keeps_modifyStore fun c hc => h.stores c _ hc) fun _ _ => ?_
  refine .bind keeps_getStore fun s _ => keeps_whenExists ?_
  refine .bind keeps_readBytes fun raw _ => ?_
  refine .bind keeps_getStore fun s _ => .bind (h.keeps_orReject _) fun _ _ => ?_
  refine .bind (h.keeps_orReject _) fun _ _ => ?_
  refine .bind (h.keeps_orReject _) fun _ _ => ?_
  refine .bind .ofOption fun _ _ => ?_
  refine .bind (h.keeps_loadLines _) fun _ _ => ?_
  exact keeps_modifyStore fun c hc => h.stores c _ hc

end

end OpenKeeps

/-! ### Layout and touched paths -/

section Layout

variable {op : FsOp} {path q : Path} {other : FileId}

theorem nodeKind_fileItem {name : Text} (h : name ≠ generationsName) :
    nodeKind (fileItem store file name) = .file := if_neg h

theorem nodeKind_selected : nodeKind (selectedPath store file) = .file :=
  nodeKind_fileItem selectedName_ne_generationsName

theorem nodeKind_previous : nodeKind (previousPath store file) = .file :=
  nodeKind_fileItem previousName_ne_generationsName

theorem nodeKind_namespacePath : nodeKind (namespacePath store) = .file :=
  if_neg fun h => namespaceName_ne_filesName h.2

/-- Everything above the directory of a generation is a directory. -/
theorem nodeKind_of_prefix (hne : q ≠ []) (h : q <+: generationDir store file generation) :
    nodeKind q = .dir := by
  rw [← List.mem_inits, generationDir, generationEntry] at h
  simp only [List.inits, List.map_cons, List.map_nil, List.mem_cons, List.not_mem_nil,
    or_false] at h
  rcases h with rfl | rfl | rfl | rfl | rfl | rfl | rfl
  · exact absurd rfl hne
  · rfl
  · exact if_neg fun h => storesName_ne_evidenceName h.1
  · exact if_pos ⟨rfl, rfl⟩
  · rfl
  · exact if_pos rfl
  · rfl

/-- Everything above the files of a store is a directory. -/
theorem nodeKind_of_prefix_filesDir (hne : q ≠ []) (h : q <+: filesDir store) :
    nodeKind q = .dir := by
  rw [← List.mem_inits, filesDir] at h
  simp only [List.inits, List.map_cons, List.map_nil, List.mem_cons, List.not_mem_nil,
    or_false] at h
  rcases h with rfl | rfl | rfl | rfl
  · exact absurd rfl hne
  · rfl
  · exact if_neg fun h => storesName_ne_evidenceName h.1
  · exact if_pos ⟨rfl, rfl⟩

variable {count : ℕ}

theorem StageOp.suits (h : StageOp store file generation count op) : op.Suits nodeKind := by
  cases h with
  | directory => exact fun q hne hq => nodeKind_of_prefix hne hq
  | write h =>
    refine h.suits fun path hp => ?_
    cases hp <;> rfl

theorem PublishTarget.kind (h : PublishTarget store file generation path) :
    nodeKind path = .file := by
  cases h with
  | temporary => exact nodeKind_fileItem (selectedTmpName_ne_generationsName _)
  | marker => exact nodeKind_fileItem markerName_ne_generationsName

theorem PublishOp.suits (h : PublishOp store file generation op) : op.Suits nodeKind := by
  cases h with
  | write h => exact h.suits fun path hp => hp.kind
  | copy => exact nodeKind_previous
  | remove => trivial
  | rename => exact nodeKind_selected

/-- Writing a generation changes its records and the directories above them. -/
theorem StageOp.touches (h : StageOp store file generation count op)
    (hq : op.Touches q) : StageTarget store file generation count q ∨
      (q ≠ [] ∧ q <+: generationDir store file generation) := by
  cases h with
  | directory => exact .inr hq
  | write h => exact .inl (h.touches hq)

/-- Publishing a generation changes the pointers, the temporary pointer and the marker. -/
theorem PublishOp.touches (h : PublishOp store file generation op) (hq : op.Touches q) :
    PublishTarget store file generation q ∨ q = selectedPath store file ∨
      q = previousPath store file := by
  cases h with
  | write h => exact .inl (h.touches hq)
  | copy => exact .inr (.inr hq)
  | remove => exact .inr (.inl hq)
  | rename =>
    rcases hq with hq | hq
    · exact .inl (hq ▸ .temporary)
    · exact .inr (.inl hq)

theorem PersistTarget.kind (h : PersistTarget store generation path) : nodeKind path = .file := by
  cases h with
  | temporary => exact if_neg fun h => namespaceTmpName_ne_filesName _ h.2
  | marker => exact if_neg fun h => markerName_ne_filesName h.2

theorem PersistOp.suits (h : PersistOp store generation op) : op.Suits nodeKind := by
  cases h with
  | write h => exact h.suits fun path hp => hp.kind
  | rename => exact nodeKind_namespacePath

theorem PersistOp.touches (h : PersistOp store generation op) (hq : op.Touches q) :
    PersistTarget store generation q ∨ q = namespacePath store := by
  cases h with
  | write h => exact .inl (h.touches hq)
  | rename =>
    rcases hq with hq | hq
    · exact .inl (hq ▸ .temporary)
    · exact .inr hq

theorem EvidenceOp.suits (h : EvidenceOp op) : op.Suits nodeKind := by
  cases h with
  | root =>
    intro q hne hq
    rw [← List.mem_inits, evidenceRoot] at hq
    simp only [List.inits, List.map_cons, List.map_nil, List.mem_cons, List.not_mem_nil,
      or_false] at hq
    rcases hq with rfl | rfl
    · exact absurd rfl hne
    · rfl
  | directory number => exact if_neg fun h => evidenceId_ne_diagnosticsName _ h.2
  | openLog => exact if_pos ⟨rfl, rfl⟩
  | writeLog bytes => exact if_pos ⟨rfl, rfl⟩
  | syncLog => exact if_pos ⟨rfl, rfl⟩
  | create number index => exact if_neg fun h => storesName_ne_evidenceName h.1.symm
  | write number index bytes => exact if_neg fun h => storesName_ne_evidenceName h.1.symm

theorem EvidenceOp.touches (h : EvidenceOp op) (hq : op.Touches q) :
    q.head? = some evidenceName := by
  cases h with
  | root =>
    obtain ⟨hne, hpre⟩ := hq
    cases q with
    | nil => exact absurd rfl hne
    | cons a q =>
      rw [evidenceRoot, List.cons_prefix_cons] at hpre
      rw [hpre.1]
      rfl
  | directory number => rw [hq]; rfl
  | openLog => rw [hq]; rfl
  | writeLog bytes => rw [hq]; rfl
  | syncLog => rw [hq]; rfl
  | create number index => rw [hq]; rfl
  | write number index bytes => rw [hq]; rfl

theorem RecoverOp.suits (h : RecoverOp store file op) : op.Suits nodeKind := by
  cases h with
  | copy => exact nodeKind_selected
  | marker h => exact h.suits fun path hp => hp ▸ nodeKind_fileItem markerName_ne_generationsName
  | remove name => trivial

theorem RecoverOp.touches (h : RecoverOp store file op) (hq : op.Touches q) :
    fileDir store file <+: q := by
  cases h with
  | copy => rw [hq]; exact ⟨[selectedName], rfl⟩
  | marker h => rw [h.touches hq]; exact ⟨[markerName], rfl⟩
  | remove name => exact List.IsPrefix.trans ⟨[generationsName, name], rfl⟩ hq

theorem StageTarget.eq_generationItem {path : Path}
    (h : StageTarget store file generation count path) :
    ∃ name, path = generationItem store file generation name := by
  cases h with
  | chunk h => exact ⟨_, rfl⟩
  | manifest => exact ⟨_, rfl⟩
  | commit => exact ⟨_, rfl⟩

/-- Writing a generation leaves both pointers alone. -/
theorem StageOp.not_touches_pointer {op : FsOp} (h : StageOp store file generation count op) :
    ¬op.Touches (selectedPath store file) ∧ ¬op.Touches (previousPath store file) := by
  refine ⟨fun hq => ?_, fun hq => ?_⟩
  · rcases h.touches hq with ht | ht
    · obtain ⟨name, heq⟩ := ht.eq_generationItem
      exact generationItem_ne_fileItem heq.symm
    · exact selectedPath_not_prefix ht.2
  · rcases h.touches hq with ht | ht
    · obtain ⟨name, heq⟩ := ht.eq_generationItem
      exact generationItem_ne_fileItem heq.symm
    · exact previousPath_not_prefix ht.2

theorem PublishTarget.eq_fileItem (h : PublishTarget store file generation q) :
    ∃ name, q = fileItem store file name := by
  cases h with
  | temporary => exact ⟨_, rfl⟩
  | marker => exact ⟨_, rfl⟩

theorem PublishOp.eq_fileItem (h : PublishOp store file generation op) (hq : op.Touches q) :
    ∃ name, q = fileItem store file name := by
  rcases h.touches hq with ht | rfl | rfl
  · exact ht.eq_fileItem
  · exact ⟨_, rfl⟩
  · exact ⟨_, rfl⟩

/-- A flush of one file changes nothing in another one. -/
theorem StageOp.file_eq {store' : StoreId} (h : StageOp store' other generation count op)
    (hq : op.Touches q) (hin : fileDir store file <+: q) : store = store' ∧ file = other := by
  rcases h.touches hq with ht | ht
  · obtain ⟨name, rfl⟩ := ht.eq_generationItem
    exact fileDir_inj hin fileDir_prefix_generationItem
  · exact fileDir_inj (hin.trans ht.2) fileDir_prefix

theorem PublishOp.file_eq {store' : StoreId} (h : PublishOp store' other generation op)
    (hq : op.Touches q) (hin : fileDir store file <+: q) : store = store' ∧ file = other := by
  obtain ⟨name, rfl⟩ := h.eq_fileItem hq
  exact fileDir_inj hin fileDir_prefix_fileItem

/-- The steps of a flush stay among the stores. -/
theorem StageOp.head (h : StageOp store file generation count op)
    (hq : op.Touches q) : q.head? = some storesName := by
  rcases h.touches hq with ht | ⟨hne, rest, ht⟩
  · obtain ⟨name, rfl⟩ := ht.eq_generationItem
    rfl
  · cases q with
    | nil => exact absurd rfl hne
    | cons a q => exact congrArg List.head? ht

theorem PublishOp.head (h : PublishOp store file generation op) (hq : op.Touches q) :
    q.head? = some storesName := by
  obtain ⟨name, rfl⟩ := h.eq_fileItem hq
  rfl

/-- Writing a generation leaves the records of the others alone. -/
theorem StageOp.generation_eq {generation' : UInt64} {name : Text}
    (h : StageOp store file generation' count op)
    (hq : op.Touches (generationItem store file generation name)) : generation = generation' := by
  rcases h.touches hq with ht | ht
  · obtain ⟨name', heq⟩ := ht.eq_generationItem
    exact generationName_inj (Option.some.inj (congrArg (fun q : Path => q[5]?) heq))
  · exact absurd ht.2.length_le (by simp [generationItem, generationDir, generationEntry])

/-- Writing a generation leaves the directory of its file in place. -/
theorem StageOp.keeps_directory {fs fs' : Fs} (h : StageOp store file generation count op)
    (hl : op.Leaves fs fs') (hdir : fs[fileDir store file]? = some .dir) :
    fs'[fileDir store file]? = some .dir := by
  cases h with
  | directory =>
    rcases hl.of_atomic trivial with rfl | he
    · exact hdir
    · obtain ⟨-, rfl⟩ := FsOp.effect_createDirAll.mp he
      refine (Fs.get_insertDirs _).trans (if_pos (Fs.mem_ancestors.mpr ⟨?_, fileDir_prefix⟩))
      exact List.cons_ne_nil _ _
  | write h =>
    refine (hl.get_eq fun ht => ?_).trans hdir
    obtain ⟨name, heq⟩ := (h.touches ht).eq_generationItem
    exact fileDir_ne_generationItem heq

end Layout

end Wdlp
