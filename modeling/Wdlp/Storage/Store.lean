import Wdlp.Storage.System

/-!
# Flushing, reading and recovering a file

The content of a file lives in generations. A flush seals the staged bytes in chunks into the
directory of a new generation, seals a manifest and a commit record beside them, and then replaces
the pointer `selected.commit`, whose former value is kept as `previous.commit`. A read follows the
pointer and authenticates every record on its way. Recovery, after a crash, falls back on the former
pointer and quarantines the generations that no pointer refers to.

## Main definitions

* `write`, `writeAt` — stage bytes.
* `flushFile` — commit the staged bytes, in the steps `stageGeneration` and `publishPointer`.
* `readFromPointer`, `readFile` — read a committed generation.
* `recoverStore` — choose the generation to keep after a crash.
-/

namespace Wdlp

open CrashSafe

variable (P : Primitives)

/-! ### Flush -/

/-- The steps that a flush reports. -/
inductive DurabilityStep where
  | chunkFlush
  | manifestFlush
  | commitFlush
  | pointerPublish
  | directoryFlush
  deriving DecidableEq, Repr

structure DurabilityTrace where
  steps : List DurabilityStep := []
  deriving DecidableEq

namespace DurabilityTrace

def record (trace : DurabilityTrace) (step : DurabilityStep) : DurabilityTrace :=
  ⟨trace.steps ++ [step]⟩

/-- The steps still expected after a step of the trace. -/
def advance (expected : List DurabilityStep) (step : DurabilityStep) : List DurabilityStep :=
  match expected with
  | next :: rest => if step = next then rest else next :: rest
  | [] => []

def isDurablyPublished (trace : DurabilityTrace) : Bool :=
  decide (trace.steps.foldl advance
    [.chunkFlush, .manifestFlush, .commitFlush, .pointerPublish, .directoryFlush] = [])

end DurabilityTrace

structure CommitOutcome where
  generation : UInt64
  chunkCount : ℕ
  nonces : List Nonce
  trace : DurabilityTrace

/-- The variables of `flush_file` that change while it seals records. -/
structure FlushProgress where
  nonces : NonceTracker := {}
  nonceList : List Nonce := []
  trace : DurabilityTrace := {}
  lengths : List UInt64 := []
  chunkCount : ℕ := 0

namespace FlushProgress

/-- A record was sealed. -/
def sealed (progress : FlushProgress) (record : EncryptedRecordV1) (nonces : NonceTracker) :
    FlushProgress :=
  { progress with nonces := nonces, nonceList := progress.nonceList ++ [record.nonce] }

/-- A step was completed. -/
def reached (progress : FlushProgress) (step : DurabilityStep) : FlushProgress :=
  { progress with trace := progress.trace.record step }

/-- A chunk was written. -/
def chunkWritten (progress : FlushProgress) (chunk : Bytes) : FlushProgress :=
  { progress.reached .chunkFlush with
    lengths := progress.lengths ++ [UInt64.ofNat chunk.length]
    chunkCount := progress.chunkCount + 1 }

/-- The end of the chunks. A file without chunks has passed their boundary too. -/
def endChunks (progress : FlushProgress) : FlushProgress :=
  if .chunkFlush ∈ progress.trace.steps then progress else progress.reached .chunkFlush

end FlushProgress

/-- The failure that a test may have injected. -/
def takeWriteFailure : Op Unit := fun s =>
  if s.store.failNextWrite then
    .err .ioFailure { s with store := { s.store with failNextWrite := false } }
  else .ok () s

/-- Seal a text and write its record, between the two fault points of its boundary. -/
def writeSealed (file : FileId) (aad : RecordAad) (plaintext : Bytes) (nonces : NonceTracker)
    (path : Path) (before after : DurabilityFaultPoint) :
    Op (EncryptedRecordV1 × NonceTracker) := do
  let sealed ← sealFor P file aad plaintext nonces
  hit before
  writeRecord path sealed.1
  hit after
  return sealed

/-- Seal and write the chunks from the given index on. -/
def flushChunks (file : FileId) (generation : UInt64) :
    (index : ℕ) → List Bytes → FlushProgress → Op FlushProgress
  | _, [], progress => pure progress
  | index, chunk :: rest, progress => do
    let store ← getStore
    let aad := store.aad file generation .chunk (UInt64.ofNat index) chunk.length
    let sealed ← writeSealed P file aad chunk progress.nonces
      (chunkPath store.storeId file generation index) .beforeRecordWrite .afterRecordFlush
    flushChunks file generation (index + 1) rest
      ((progress.sealed sealed.1 sealed.2).chunkWritten chunk)

/-- Seal and write the manifest. -/
def flushManifest (file : FileId) (generation : UInt64) (data : Bytes) (progress : FlushProgress) :
    Op FlushProgress := do
  let store ← getStore
  let manifest : EncryptedManifestV1 := {
    generation := generation
    fileId := file.toWire
    logicalLength := UInt64.ofNat data.length
    chunkLengths := progress.lengths }
  let bytes ← Act.ofExcept manifest.encode
  let aad := store.aad file generation .manifest 0 bytes.length
  let sealed ← writeSealed P file aad bytes progress.nonces
    (manifestPath store.storeId file generation) .beforeManifestWrite .afterManifestFlush
  return (progress.sealed sealed.1 sealed.2).reached .manifestFlush

/-- Seal and write the commit record. -/
def flushCommit (file : FileId) (generation : UInt64) (progress : FlushProgress) :
    Op (EncryptedRecordV1 × FlushProgress) := do
  let store ← getStore
  let commit : CommitRecordV1 := { generation := generation, fileId := file.toWire }
  let bytes ← Act.ofExcept commit.encode
  let aad := store.aad file generation .commit 0 bytes.length
  let sealed ← writeSealed P file aad bytes progress.nonces
    (commitPath store.storeId file generation) .beforeCommitWrite .afterCommitFlush
  return (sealed.1, (progress.sealed sealed.1 sealed.2).reached .commitFlush)

/-- Write the records of a generation; its commit record is the result. -/
def stageGeneration (file : FileId) (generation : UInt64) (data : Bytes) :
    Op (EncryptedRecordV1 × FlushProgress) := do
  let store ← getStore
  io (.createDirAll (generationDir store.storeId file generation))
  let written ← flushChunks P file generation 0 (chunks chunkSize data) {}
  let listed ← flushManifest P file generation data written.endChunks
  flushCommit P file generation listed

/-- Run `p` when something is at the path. -/
def whenExists (path : Path) (p : Op Unit) : Op Unit := do
  let found ← pathExists path
  if found then p else pure ()

/-- Keep the current pointer as the former one. -/
def keepPrior (file : FileId) : Op Unit := do
  let store ← getStore
  let selected := selectedPath store.storeId file
  whenExists selected do
    io (.copy selected (previousPath store.storeId file))
    flushDirectoryMarker (fileDir store.storeId file)

/-- Replace the pointer by a commit record. -/
def replacePointer (file : FileId) (generation : UInt64) (record : EncryptedRecordV1) :
    Op Unit := do
  let store ← getStore
  let selected := selectedPath store.storeId file
  let temporary := selectedTmp store.storeId file generation
  hit .beforePointerReplace
  writeRecord temporary record
  whenExists selected (io (.removeFile selected))
  io (.rename temporary selected)

/-- Make a commit record the current pointer of its file. -/
def publishPointer (file : FileId) (generation : UInt64) (record : EncryptedRecordV1) :
    Op Unit := do
  keepPrior file
  replacePointer file generation record
  hit .afterPointerReplace
  hit .beforeDirectoryFlush
  let store ← getStore
  flushDirectoryMarker (fileDir store.storeId file)
  hit .afterDirectoryFlush

/-- Write the records of a generation and make it the current one. -/
def flushGeneration (file : FileId) (generation : UInt64) (data : Bytes) :
    Op CommitOutcome := do
  let staged ← stageGeneration P file generation data
  publishPointer file generation staged.1
  return {
    generation := generation
    chunkCount := staged.2.chunkCount
    nonces := staged.2.nonceList
    trace := (staged.2.trace.record .pointerPublish).record .directoryFlush }

/-- The store after the staged bytes of a file were committed. -/
def Store.unstage (store : Store) (file : FileId) : Store :=
  { store with staged := store.staged.erase file.toWire }

/-- `flush_file`. -/
def flushFile (file : FileId) : Op CommitOutcome := do
  takeWriteFailure
  let store ← getStore
  let data ← Act.ofOption store.staged[file.toWire]? .notFound
  let generation ← drawGeneration
  note (.flushing store.key store.storeId file generation data)
  let outcome ← flushGeneration P file generation data
  modifyStore (·.unstage file)
  return outcome

/-! ### Read -/

/-- Open a commit record. -/
def Store.openCommit (store : Store) (record : EncryptedRecordV1) :
    Except StorageError CommitRecordV1 := do
  let plaintext ← EncryptedRecordV1.openRecord P store.key record
  CommitRecordV1.decode plaintext

/-- Open a manifest record. -/
def Store.openManifest (store : Store) (record : EncryptedRecordV1) :
    Except StorageError EncryptedManifestV1 := do
  let plaintext ← EncryptedRecordV1.openRecord P store.key record
  EncryptedManifestV1.decode plaintext

/-- Add a nonce that a read has met. -/
def trackNonce (nonces : NonceTracker) (nonce : Nonce) : Op NonceTracker :=
  Act.ofExcept ((nonces.insert nonce).mapError fun _ => .integrityFailure)

/-- The record at a pointer, and what it commits. -/
def readCommit (pointer : Path) (file : FileId) : Op (EncryptedRecordV1 × CommitRecordV1) := do
  let store ← getStore
  let selected ← readRecord pointer
  Act.ofExcept (store.ensureIdentity selected file .commit 0)
  let commit ← Act.ofExcept (store.openCommit P selected)
  failIf (commit.fileId ≠ file.toWire) StorageError.integrityFailure
  return (selected, commit)

/-- `commit_generation`. -/
def commitGeneration (pointer : Path) (file : FileId) : Op UInt64 := do
  let selected ← readCommit P pointer file
  return selected.2.generation

/-- Check the commit record inside a generation against the one of the pointer. -/
def checkCommitted (file : FileId) (commit : CommitRecordV1) : Op Unit := do
  let store ← getStore
  let record ← readRecord (commitPath store.storeId file commit.generation)
  Act.ofExcept (store.ensureIdentity record file .commit 0)
  failIf (record.generation ≠ commit.generation) StorageError.integrityFailure
  let committed ← Act.ofExcept (store.openCommit P record)
  failIf (committed ≠ commit) StorageError.integrityFailure

/-- The manifest of a generation, with its record. -/
def readManifest (file : FileId) (generation : UInt64) :
    Op (EncryptedRecordV1 × EncryptedManifestV1) := do
  let store ← getStore
  let record ← readRecord (manifestPath store.storeId file generation)
  Act.ofExcept (store.ensureIdentity record file .manifest 0)
  failIf (record.generation ≠ generation) StorageError.integrityFailure
  let manifest ← Act.ofExcept (store.openManifest P record)
  failIf (manifest.fileId ≠ file.toWire ∨ manifest.generation ≠ generation)
    StorageError.integrityFailure
  return (record, manifest)

/-- Read the chunks from the given index on, after the bytes `out`. -/
def readChunks (file : FileId) (generation : UInt64) :
    (index : ℕ) → (lengths : List UInt64) → NonceTracker → (out : Bytes) → Op Bytes
  | _, [], _, out => pure out
  | index, length :: lengths, nonces, out => do
    failIf (length.toNat > chunkSize) StorageError.integrityFailure
    let store ← getStore
    let record ← readRecord (chunkPath store.storeId file generation index)
    Act.ofExcept (store.ensureIdentity record file .chunk (UInt64.ofNat index))
    failIf (record.generation ≠ generation ∨ record.plaintextLength ≠ length)
      StorageError.integrityFailure
    let nonces ← trackNonce nonces record.nonce
    let plaintext ← Act.ofExcept (EncryptedRecordV1.openRecord P store.key record)
    readChunks file generation (index + 1) lengths nonces (out ++ plaintext)

/-- `read_from_pointer`. -/
def readFromPointer (pointer : Path) (file : FileId) : Op Bytes := do
  let selected ← readCommit P pointer file
  checkCommitted P file selected.2
  let listed ← readManifest P file selected.2.generation
  let nonces ← trackNonce {} selected.1.nonce
  let nonces ← trackNonce nonces listed.1.nonce
  let out ← readChunks P file selected.2.generation 0 listed.2.chunkLengths nonces []
  failIf (UInt64.ofNat out.length ≠ listed.2.logicalLength) StorageError.integrityFailure
  return out

/-- `read`. -/
def readFile (file : FileId) : Op Bytes := do
  let store ← getStore
  readFromPointer P (selectedPath store.storeId file) file

/-! ### Staging -/

/-- `write`. -/
def write (file : FileId) (bytes : Bytes) : Op Unit :=
  modifyStore fun store => { store with staged := store.staged.insert file.toWire bytes }

/-- `unwrap_or_default` on the result of a read. -/
def orDefault : Except StorageError Bytes → Bytes
  | .ok bytes => bytes
  | .error _ => []

/-- `write_at`. The file is read whether or not something is staged, and what was read is staged
before the end of the write is checked. -/
def writeAt (file : FileId) (offset : UInt64) (bytes : Bytes) : Op Unit := do
  let existing ← Act.attempt (readFile P file)
  let store ← getStore
  let entry := store.staged[file.toWire]?.getD (orDefault existing)
  write file entry
  failIf (offset.toNat + bytes.length ≥ 2 ^ 64) StorageError.ioFailure
  let stop := offset.toNat + bytes.length
  let entry := if stop > entry.length then resize entry stop else entry
  write file (overwrite entry offset.toNat bytes)

/-! ### Recovery -/

structure RecoveryReport where
  selectedGeneration : UInt64
  recoveredFromPriorPointer : Bool
  deriving DecidableEq

/-- The codes under which evidence is kept. -/
inductive EvidenceCode where
  | integrityFailure
  | recoveryQuarantine
  | namespaceIntegrityFailure
  deriving DecidableEq, Repr

def EvidenceCode.text : EvidenceCode → Text
  | integrityFailure => "IntegrityFailure".toList
  | recoveryQuarantine => "RecoveryQuarantine".toList
  | namespaceIntegrityFailure => "NamespaceIntegrityFailure".toList

/-- A line of the diagnostics log. -/
def diagnosticsLine (id : Text) (bytes : Bytes) (code : EvidenceCode) : Bytes :=
  utf8 ("integrity opaque=".toList ++ id ++ " record=encrypted digest=".toList ++ P.digest bytes ++
    " code=".toList ++ code.text ++ "\n".toList)

/-- Copy one file into the evidence, under the next number. -/
def copyEvidenceFile (id : Text) (code : EvidenceCode) (path : Path) (next : ℕ) : Op ℕ := do
  failIf (next + 1 ≥ 2 ^ 64) StorageError.ioFailure
  let bytes ← readBytes path
  io (.write diagnosticsPath (diagnosticsLine P id bytes code))
  io (.sync diagnosticsPath)
  writeBytes (evidenceRecord id next) bytes
  return next + 1

/-- `copy_evidence_files`, into directories up to the given depth. -/
def copyEvidenceFiles (id : Text) (code : EvidenceCode) :
    (depth : ℕ) → (source : Path) → (next : ℕ) → Op ℕ
  | 0, _, _ => throw .ioFailure
  | depth + 1, source, next => do
    let names ← readDir source
    names.foldlM (fun next name => do
      let isDir ← pathIsDir (source ++ [name])
      if isDir then copyEvidenceFiles id code depth (source ++ [name]) next
      else copyEvidenceFile P id code (source ++ [name]) next) next

/-- A depth that no path of the file system exceeds. -/
def depthBound (fs : Fs) : ℕ := (fs.keys.map List.length).foldl max 0 + 1

/-- `preserve_evidence_directory`. -/
def preserveEvidenceDirectory (source : Path) (code : EvidenceCode) : Op Unit := do
  io (.createDirAll evidenceRoot)
  let number ← drawEvidence
  let id := evidenceId number
  io (.createDir (evidenceDir id))
  io (.openAppend diagnosticsPath)
  let s ← get
  let _ ← copyEvidenceFiles P id code (depthBound s.disk.fs) source 1
  io (.sync diagnosticsPath)

/-- `preserve_integrity_evidence`. -/
def preserveIntegrityEvidence (file : FileId) : Op Unit := do
  let store ← getStore
  preserveEvidenceDirectory P (fileDir store.storeId file) .integrityFailure

/-- The generation of the former pointer, if there is one that can be authenticated. -/
def priorGeneration (file : FileId) : Op (Option UInt64) := do
  let store ← getStore
  let prior := previousPath store.storeId file
  let found ← pathExists prior
  if found then do
    let generation ← Act.attempt (commitGeneration P prior file)
    return generation.toOption
  else return none

/-- `cleanup_unreferenced_staging`. -/
def cleanupUnreferencedStaging (file : FileId) (selectedGeneration : UInt64) : Op Unit := do
  let store ← getStore
  let generations := generationsDir store.storeId file
  whenExists generations do
    let prior ← priorGeneration P file
    let referenced := (selectedGeneration :: prior.toList).map (generationDir store.storeId file)
    let names ← readDir generations
    Act.forEach names fun name => do
      let isDir ← pathIsDir (generations ++ [name])
      if isDir = true ∧ generations ++ [name] ∉ referenced then do
        preserveEvidenceDirectory P (generations ++ [name]) .recoveryQuarantine
        io (.removeDirAll (generations ++ [name]))
      else pure ()

/-- `recover_from_prior_pointer`. -/
def recoverFromPriorPointer (file : FileId) : Op RecoveryReport := do
  let store ← getStore
  let prior := previousPath store.storeId file
  let result ← Act.attempt (readFromPointer P prior file)
  match result with
  | .error .notFound => throw .recoveryRequired
  | .error error => throw error
  | .ok _ => do
    let generation ← commitGeneration P prior file
    io (.copy prior (selectedPath store.storeId file))
    flushDirectoryMarker (fileDir store.storeId file)
    cleanupUnreferencedStaging P file generation
    return { selectedGeneration := generation, recoveredFromPriorPointer := true }

/-- `recover_selected_from_prior`. -/
def recoverSelectedFromPrior (file : FileId) : Op RecoveryReport := do
  let store ← getStore
  let selected := selectedPath store.storeId file
  let found ← pathExists selected
  if found then do
    let result ← Act.attempt (readFromPointer P selected file)
    match result with
    | .error .notFound => throw .integrityFailure
    | .error error => throw error
    | .ok _ => do
      let generation ← commitGeneration P selected file
      cleanupUnreferencedStaging P file generation
      return { selectedGeneration := generation, recoveredFromPriorPointer := false }
  else recoverFromPriorPointer P file

/-- `recover_store`. -/
def recoverStore (file : FileId) : Op RecoveryReport := do
  let result ← Act.attempt (recoverSelectedFromPrior P file)
  match result with
  | .error .integrityFailure => do
    preserveIntegrityEvidence P file
    throw .integrityFailure
  | .error error => throw error
  | .ok report => return report

end Wdlp
