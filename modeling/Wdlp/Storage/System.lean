import Wdlp.Storage.Format
import Wdlp.Storage.Path

/-!
# The state of a store process

A process that works on an encrypted store has in its memory the store (`Store`) and the counters
from which it numbers generations, files, handles and evidence (`Counters`); outside of it are the
disk, the random nonces and the clock. Together they make up `Sys`, the state on which the
operations of the store run. `Sys.history` is a history variable: it records what was sealed,
flushed, persisted and created, and no operation reads it.

The part of the state that the results speak about is `Sys.core`. `Keeps` says that an operation
keeps a property of it, however the operation ends, and `Allows` that a step on the disk does.

## Main definitions

* `Store`, `Counters`, `HistoryEntry`, `Sys`, `Core` — the state.
* `fileDir`, `generationDir`, `namespacePath`, … — the backing paths, and their layout `nodeKind`.
* `io`, `readBytes`, `readRecord`, `writeRecord`, `sealRecord`, … — the steps of which the
  operations are made.
* `Keeps`, `Allows` — properties that operations and steps on the disk keep.

## Main results

* `keeps_io`, `keeps_writeRecord`, `keeps_sealRecord` — what the steps keep.
-/

namespace Wdlp

open CrashSafe Act

/-! ### The store -/

structure EntryMetadata where
  creationTime : UInt64
  lastAccessTime : UInt64
  lastWriteTime : UInt64
  changeTime : UInt64
  deriving DecidableEq

/-- The metadata of an entry made at the given time. -/
def EntryMetadata.new (now : UInt64) : EntryMetadata := ⟨now, now, now, now⟩

structure FileEntry where
  fileId : FileId
  display : Text
  deletePending : Bool
  metadata : EntryMetadata
  deriving DecidableEq

structure DirectoryEntry where
  display : Text
  metadata : EntryMetadata
  deriving DecidableEq

structure HandleState where
  pathKey : Text
  allowDelete : Bool
  deriving DecidableEq

structure FileHandle where
  number : ℕ
  deriving DecidableEq

/-- The two sides of each durability boundary of a flush, for the injection of faults in tests. -/
inductive DurabilityFaultPoint where
  | beforeRecordWrite
  | afterRecordFlush
  | beforeManifestWrite
  | afterManifestFlush
  | beforeCommitWrite
  | afterCommitFlush
  | beforePointerReplace
  | afterPointerReplace
  | beforeDirectoryFlush
  | afterDirectoryFlush
  deriving DecidableEq, Repr

structure FaultInjectingIo where
  fault : Option DurabilityFaultPoint := none
  error : StorageError := .ioFailure
  deriving DecidableEq

/-- `LocalEncryptedStore`, without its root, which is the root of the modelled file system. -/
structure Store where
  identity : CapturedStoreIdentity
  key : StoreKey
  staged : Map Text Bytes := ∅
  forcedDuplicate : List Text := []
  directories : Map Text DirectoryEntry := ∅
  files : Map Text FileEntry := ∅
  handles : Map ℕ HandleState := ∅
  namespaceGeneration : UInt64 := 0
  failNextWrite : Bool := false
  faultIo : FaultInjectingIo := {}

/-- The store identifier of the session. -/
def Store.storeId (store : Store) : StoreId := store.identity.storeId

/-- The counters of a process. The generation is stored in 64 bits and wraps; the others are only
ever printed or compared. -/
structure Counters where
  nextGeneration : UInt64 := 1
  nextFile : ℕ := 1
  nextHandle : ℕ := 1
  nextEvidence : ℕ := 1
  deriving DecidableEq

/-- What the history variable records: every record that was sealed, every flush and every persisted
namespace, each when it begins, and every file that was created. -/
inductive HistoryEntry where
  | sealed (key : StoreKey) (aad : RecordAad) (plaintext : Bytes)
  | flushing (key : StoreKey) (store : StoreId) (file : FileId) (generation : UInt64) (data : Bytes)
  | persisting (key : StoreKey) (store : StoreId) (generation : UInt64)
      (directories : Map Text DirectoryEntry) (files : Map Text FileEntry)
  | created (store : StoreId) (number : ℕ) (file : FileId)

/-- A process and its surroundings. The clock tells the nanoseconds since 1970 in 64 bits. -/
structure Sys where
  disk : Disk
  nonces : Stream' Nonce
  clock : Stream' UInt64
  counters : Counters
  store : Store
  history : List HistoryEntry

/-- The operations of a store. -/
abbrev Op (α : Type) := Act Sys StorageError α

/-! ### Backing paths -/

section Names

def storesName : Text := "stores".toList

def filesName : Text := "files".toList

def generationsName : Text := "generations".toList

def selectedName : Text := "selected.commit".toList

def previousName : Text := "previous.commit".toList

def manifestName : Text := "manifest.rec".toList

def commitName : Text := "commit.rec".toList

def namespaceName : Text := "namespace.rec".toList

/-- The marker that is written to flush a directory. -/
def markerName : Text := ".directory-flush".toList

def evidenceName : Text := "evidence".toList

def diagnosticsName : Text := "diagnostics.log".toList

/-- The file that a pointer is written to before it replaces the current one. -/
def selectedTmpName (generation : UInt64) : Text :=
  "selected-".toList ++ decimal generation.toNat ++ ".tmp".toList

/-- The file that a namespace is written to before it replaces the current one. -/
def namespaceTmpName (generation : UInt64) : Text :=
  "namespace.".toList ++ decimal generation.toNat ++ ".tmp".toList

def generationName (generation : UInt64) : Text := "g-".toList ++ padded 20 generation.toNat

def chunkName (index : ℕ) : Text := "chunk-".toList ++ padded 8 index ++ ".rec".toList

def evidenceId (number : ℕ) : Text := "e-".toList ++ padded 20 number

def evidenceRecordName (number : ℕ) : Text := "r-".toList ++ padded 20 number

theorem generationName_inj {g g' : UInt64} (h : generationName g = generationName g') : g = g' :=
  UInt64.toNat_inj.mp (padded_inj (List.append_cancel_left h))

theorem chunkName_inj {i j : ℕ} (h : chunkName i = chunkName j) : i = j := by
  unfold chunkName at h
  exact padded_inj (List.append_cancel_left (List.append_cancel_right h))

/-! The names of different things differ. -/

theorem selectedName_ne_previousName : selectedName ≠ previousName := by decide

theorem selectedName_ne_markerName : selectedName ≠ markerName := by decide

theorem selectedName_ne_generationsName : selectedName ≠ generationsName := by decide

theorem previousName_ne_markerName : previousName ≠ markerName := by decide

theorem previousName_ne_generationsName : previousName ≠ generationsName := by decide

theorem markerName_ne_generationsName : markerName ≠ generationsName := by decide

theorem markerName_ne_filesName : markerName ≠ filesName := by decide

theorem manifestName_ne_commitName : manifestName ≠ commitName := by decide

theorem namespaceName_ne_filesName : namespaceName ≠ filesName := by decide

theorem namespaceName_ne_markerName : namespaceName ≠ markerName := by decide

theorem storesName_ne_evidenceName : storesName ≠ evidenceName := by decide

/-- What is among the stores is not evidence. -/
theorem stores_head {rest : Path} : (storesName :: rest).head? ≠ some evidenceName :=
  fun h => storesName_ne_evidenceName (Option.some.inj h)

theorem chunkName_ne_manifestName (i : ℕ) : chunkName i ≠ manifestName := nofun

theorem chunkName_ne_commitName (i : ℕ) : chunkName i ≠ commitName := nofun

theorem selectedTmpName_ne_selectedName (g : UInt64) : selectedTmpName g ≠ selectedName := by
  intro h
  have htmp : (selectedTmpName g)[8]? = some '-' := rfl
  have hsel : selectedName[8]? = some '.' := rfl
  have hget := congrArg (fun t : Text => t[8]?) h
  have heq : some '-' = some '.' := htmp.symm.trans (hget.trans hsel)
  exact absurd heq (by decide)

theorem selectedTmpName_ne_previousName (g : UInt64) : selectedTmpName g ≠ previousName := nofun

theorem selectedTmpName_ne_generationsName (g : UInt64) :
    selectedTmpName g ≠ generationsName := nofun

theorem namespaceTmpName_ne_filesName (g : UInt64) : namespaceTmpName g ≠ filesName := nofun

private theorem length_namespaceTmpName (g : UInt64) :
    (namespaceTmpName g).length = 10 + (decimal g.toNat).length + 4 :=
  (List.length_append ..).trans (congrArg (· + 4) (List.length_append ..))

theorem namespaceTmpName_ne_namespaceName (g : UInt64) : namespaceTmpName g ≠ namespaceName := by
  intro h
  have hpos := List.length_pos_iff.mpr (decimal_ne_nil g.toNat)
  have hlen := (length_namespaceTmpName g).symm.trans (congrArg List.length h)
  have hname : namespaceName.length = 13 := rfl
  omega

theorem evidenceId_ne_diagnosticsName (n : ℕ) : evidenceId n ≠ diagnosticsName := nofun

theorem evidenceId_inj {m n : ℕ} (h : evidenceId m = evidenceId n) : m = n :=
  padded_inj (List.append_cancel_left h)

theorem evidenceRecordName_inj {m n : ℕ} (h : evidenceRecordName m = evidenceRecordName n) :
    m = n :=
  padded_inj (List.append_cancel_left h)

attribute [irreducible] storesName filesName generationsName selectedName previousName manifestName
  commitName namespaceName markerName evidenceName diagnosticsName selectedTmpName namespaceTmpName
  generationName chunkName evidenceId evidenceRecordName

end Names

section Paths

variable (store : StoreId) (file : FileId) (generation : UInt64)

def storeDir : Path := [storesName, store.toWire]

def filesDir : Path := [storesName, store.toWire, filesName]

def namespacePath : Path := [storesName, store.toWire, namespaceName]

def namespaceTmp : Path := [storesName, store.toWire, namespaceTmpName generation]

def fileDir : Path := [storesName, store.toWire, filesName, file.toWire]

/-- Something in the directory of a file. -/
def fileItem (name : Text) : Path := [storesName, store.toWire, filesName, file.toWire, name]

def selectedPath : Path := fileItem store file selectedName

def previousPath : Path := fileItem store file previousName

def selectedTmp : Path := fileItem store file (selectedTmpName generation)

def generationsDir : Path := fileItem store file generationsName

/-- The directory of a generation, by its name. -/
def generationEntry (name : Text) : Path :=
  [storesName, store.toWire, filesName, file.toWire, generationsName, name]

def generationDir : Path := generationEntry store file (generationName generation)

/-- A record in the directory of a generation. -/
def generationItem (name : Text) : Path :=
  [storesName, store.toWire, filesName, file.toWire, generationsName, generationName generation,
    name]

def chunkPath (index : ℕ) : Path := generationItem store file generation (chunkName index)

def manifestPath : Path := generationItem store file generation manifestName

def commitPath : Path := generationItem store file generation commitName

def markerPath (directory : Path) : Path := directory ++ [markerName]

def evidenceRoot : Path := [evidenceName]

def diagnosticsPath : Path := [evidenceName, diagnosticsName]

def evidenceDir (id : Text) : Path := [evidenceName, id]

def evidenceRecord (id : Text) (number : ℕ) : Path := [evidenceName, id, evidenceRecordName number]

/-- The root of the evidence is made by itself. -/
theorem mem_ancestors_evidenceRoot {q : Path} : q ∈ Fs.ancestors evidenceRoot ↔ q = evidenceRoot := by
  rw [Fs.mem_ancestors, evidenceRoot, List.prefix_cons_iff]
  simp only [List.prefix_nil]
  grind

end Paths

/-- Which backing paths are directories: the stores, their files, the generations of a file and each
of these, and the evidence with its parts. -/
def nodeKind : Path → NodeKind
  | [_] => .dir
  | [top, name] => if top = evidenceName ∧ name = diagnosticsName then .file else .dir
  | [top, _, name] => if top = storesName ∧ name = filesName then .dir else .file
  | [_, _, _, _] => .dir
  | [_, _, _, _, name] => if name = generationsName then .dir else .file
  | [_, _, _, _, _, _] => .dir
  | _ => .file

section PathFacts

variable {store : StoreId} {file other : FileId} {generation : UInt64} {q : Path}

theorem chunkPath_inj {i j : ℕ} (h : chunkPath store file generation i =
    chunkPath store file generation j) : i = j := by
  refine chunkName_inj ?_
  have hlast := congrArg List.getLast? h
  exact Option.some.inj hlast

theorem fileDir_prefix : fileDir store file <+: generationDir store file generation :=
  ⟨[generationsName, generationName generation], rfl⟩

variable {name : Text}

theorem fileDir_ne_generationItem :
    fileDir store file ≠ generationItem store file generation name :=
  fun h => absurd (congrArg List.length h) (by simp [fileDir, generationItem])

theorem fileDir_ne_fileItem : fileDir store file ≠ fileItem store file name :=
  fun h => absurd (congrArg List.length h) (by simp [fileDir, fileItem])

theorem chunkPath_ne_manifestPath {i : ℕ} :
    chunkPath store file generation i ≠ manifestPath store file generation := fun h =>
  chunkName_ne_manifestName i (Option.some.inj (congrArg List.getLast? h))

theorem chunkPath_ne_commitPath {i : ℕ} :
    chunkPath store file generation i ≠ commitPath store file generation := fun h =>
  chunkName_ne_commitName i (Option.some.inj (congrArg List.getLast? h))

theorem manifestPath_ne_commitPath :
    manifestPath store file generation ≠ commitPath store file generation := fun h =>
  manifestName_ne_commitName (Option.some.inj (congrArg List.getLast? h))

theorem fileItem_ne {a b : Text} (h : a ≠ b) : fileItem store file a ≠ fileItem store file b :=
  fun heq => h (Option.some.inj (congrArg List.getLast? heq))

variable {name name' : Text}

theorem generationItem_ne_fileItem :
    generationItem store file generation name ≠ fileItem store file name' :=
  fun h => absurd (congrArg List.length h) (by simp [fileItem, generationItem])

theorem selectedPath_not_prefix :
    ¬selectedPath store file <+: generationDir store file generation := by
  intro h
  obtain ⟨rest, h⟩ := h
  have hname := congrArg (fun q : Path => q[4]?) h
  exact selectedName_ne_generationsName (Option.some.inj hname)

theorem previousPath_not_prefix :
    ¬previousPath store file <+: generationDir store file generation := by
  intro h
  obtain ⟨rest, h⟩ := h
  have hname := congrArg (fun q : Path => q[4]?) h
  exact previousName_ne_generationsName (Option.some.inj hname)

theorem generationEntry_inj {q : Path}
    (h : generationEntry store file name <+: q) (h' : generationEntry store file name' <+: q) :
    name = name' := by
  obtain ⟨rest, rfl⟩ := h
  obtain ⟨rest', h'⟩ := h'
  exact (Option.some.inj (congrArg (fun q : Path => q[5]?) h')).symm

theorem fileDir_inj {store' : StoreId} (h : fileDir store file <+: q)
    (h' : fileDir store' other <+: q) : store = store' ∧ file = other := by
  obtain ⟨rest, rfl⟩ := h
  obtain ⟨rest', h'⟩ := h'
  refine ⟨Identifier.ext ?_, Identifier.ext ?_⟩
  · exact (Option.some.inj (congrArg (fun q : Path => q[1]?) h')).symm
  · exact (Option.some.inj (congrArg (fun q : Path => q[3]?) h')).symm

theorem fileDir_prefix_fileItem : fileDir store file <+: fileItem store file name :=
  ⟨[name], rfl⟩

theorem fileDir_prefix_generationItem :
    fileDir store file <+: generationItem store file generation name :=
  ⟨[generationsName, generationName generation, name], rfl⟩

end PathFacts

/-! ### Steps -/

/-- `map_io`. -/
def mapIo : IoErrorKind → StorageError
  | .writeZero => .noSpace
  | .storageFull => .noSpace
  | .notFound => .ioFailure
  | .alreadyExists => .ioFailure
  | .other => .ioFailure

/-- The error of `read_record` when the file cannot be opened. -/
def mapOpen : IoErrorKind → StorageError
  | .notFound => .notFound
  | kind => mapIo kind

/-- The state with another disk. -/
def Sys.withDisk (s : Sys) (d : Disk) : Sys := { s with disk := d }

/-- A step on the disk. -/
def io (op : FsOp) : Op Unit := Act.zoom Sys.disk (fun d s => s.withDisk d) mapIo (Disk.perform op)

/-- `fs::read`. -/
def readBytes (path : Path) : Op Bytes :=
  Act.zoom Sys.disk (fun d s => s.withDisk d) mapIo (Disk.readFile path)

/-- `fs::read_dir`. -/
def readDir (path : Path) : Op (List Text) :=
  Act.zoom Sys.disk (fun d s => s.withDisk d) mapIo (Disk.listDir path)

/-- `Path::exists`. -/
def pathExists (path : Path) : Op Bool := fun s => .ok (s.disk.fs.present path) s

/-- `Path::is_dir`. -/
def pathIsDir (path : Path) : Op Bool := fun s => .ok (s.disk.fs.isDir path) s

/-- `fs::write`. -/
def writeBytes (path : Path) (bytes : Bytes) : Op Unit := do
  io (.create path)
  io (.write path bytes)

def getStore : Op Store := fun s => .ok s.store s

theorem getStore_eq {s : Sys} : getStore s = .ok s.store s := rfl

def modifyStore (f : Store → Store) : Op Unit := fun s => .ok () { s with store := f s.store }

/-- Add an entry to the history variable. -/
def note (entry : HistoryEntry) : Op Unit := fun s =>
  .ok () { s with history := s.history ++ [entry] }

/-- The steps of 100 ns since the year 1601, from the nanoseconds since 1970. -/
def filetime (nanoseconds : UInt64) : UInt64 := nanoseconds / 100 + 11644473600 * 10000000

/-- `current_filetime`. -/
def currentFiletime : Op UInt64 := fun s =>
  .ok (filetime s.clock.head) { s with clock := s.clock.tail }

/-- `Nonce::generate`. -/
def drawNonce : Op Nonce := fun s => .ok s.nonces.head { s with nonces := s.nonces.tail }

/-- `NEXT_GENERATION.fetch_add`. -/
def drawGeneration : Op UInt64 := fun s =>
  .ok s.counters.nextGeneration
    { s with counters := { s.counters with nextGeneration := s.counters.nextGeneration + 1 } }

/-- `NEXT_FILE.fetch_add`. -/
def drawFile : Op ℕ := fun s =>
  .ok s.counters.nextFile
    { s with counters := { s.counters with nextFile := s.counters.nextFile + 1 } }

/-- `NEXT_HANDLE.fetch_add`. -/
def drawHandle : Op ℕ := fun s =>
  .ok s.counters.nextHandle
    { s with counters := { s.counters with nextHandle := s.counters.nextHandle + 1 } }

/-- `NEXT_EVIDENCE.fetch_add`. -/
def drawEvidence : Op ℕ := fun s =>
  .ok s.counters.nextEvidence
    { s with counters := { s.counters with nextEvidence := s.counters.nextEvidence + 1 } }

/-- `FaultInjectingIo::hit`. -/
def hit (point : DurabilityFaultPoint) : Op Unit := fun s =>
  if s.store.faultIo.fault = some point then
    .err s.store.faultIo.error
      { s with store := { s.store with faultIo := { s.store.faultIo with fault := none } } }
  else .ok () s

/-- `EncryptedRecordV1::seal`, with the nonce drawn by the cipher. -/
def sealRecord (P : Primitives) (aad : RecordAad) (plaintext : Bytes) (nonces : NonceTracker) :
    Op (EncryptedRecordV1 × NonceTracker) := do
  let store ← getStore
  let drawn ← drawNonce
  let sealed ← Act.ofExcept
    (EncryptedRecordV1.sealRecord P store.key drawn aad plaintext nonces)
  note (.sealed store.key aad plaintext)
  return sealed

/-- `LocalEncryptedStore::seal`. -/
def sealFor (P : Primitives) (file : FileId) (aad : RecordAad) (plaintext : Bytes)
    (nonces : NonceTracker) : Op (EncryptedRecordV1 × NonceTracker) := do
  let sealed ← sealRecord P aad plaintext nonces
  let store ← getStore
  failIf (file.toWire ∈ store.forcedDuplicate) StorageError.integrityFailure
  return sealed

/-- The header of a record of a file. -/
def fileAad (store : StoreId) (file : FileId) (generation : UInt64) (kind : RecordKind)
    (index : UInt64) (plaintextLength : ℕ) : RecordAad where
  formatVersion := formatVersionV1
  storeId := store.toWire
  fileId := file.toWire
  generation := generation
  recordKind := kind
  chunkIndex := index
  plaintextLength := UInt64.ofNat plaintextLength

/-- `LocalEncryptedStore::aad`. -/
def Store.aad (store : Store) (file : FileId) (generation : UInt64) (kind : RecordKind)
    (index : UInt64) (plaintextLength : ℕ) : RecordAad :=
  fileAad store.storeId file generation kind index plaintextLength

/-- `ensure_identity`. -/
def Store.ensureIdentity (store : Store) (record : EncryptedRecordV1) (file : FileId)
    (kind : RecordKind) (index : UInt64) : Except StorageError Unit :=
  failIf (record.formatVersion ≠ formatVersionV1 ∨ record.storeId ≠ store.storeId.toWire ∨
    record.fileId ≠ file.toWire ∨ record.recordKind ≠ kind ∨ record.chunkIndex ≠ index)
    StorageError.integrityFailure

/-- `write_record`. -/
def writeRecord (path : Path) (record : EncryptedRecordV1) : Op Unit := do
  let bytes ← Act.ofExcept record.encode
  io (.create path)
  io (.write path bytes)
  io (.sync path)

/-- `read_record`. -/
def readRecord (path : Path) : Op EncryptedRecordV1 := do
  let bytes ← Act.zoom Sys.disk (fun d s => s.withDisk d) mapOpen (Disk.readFile path)
  Act.ofExcept (EncryptedRecordV1.decode bytes)

/-- `flush_directory_marker`. -/
def flushDirectoryMarker (directory : Path) : Op Unit := do
  io (.create (markerPath directory))
  io (.write (markerPath directory) (utf8 "v1".toList))
  io (.sync (markerPath directory))

/-! ### What the steps keep -/

/-- The part of the state that the results speak about. -/
structure Core where
  fs : Fs
  counters : Counters
  store : Store
  history : List HistoryEntry

def Sys.core (s : Sys) : Core where
  fs := s.disk.fs
  counters := s.counters
  store := s.store
  history := s.history

namespace Core

def withFs (c : Core) (fs : Fs) : Core := { c with fs := fs }

def withStore (c : Core) (store : Store) : Core := { c with store := store }

def withCounters (c : Core) (counters : Counters) : Core := { c with counters := counters }

def noted (c : Core) (entry : HistoryEntry) : Core := { c with history := c.history ++ [entry] }

end Core

/-- However `p` ends, it keeps the property `J` of the core; what it returns is in `R`. -/
def Keeps {α : Type} (J : Core → Prop) (p : Op α) (R : α → Prop := fun _ => True) : Prop :=
  Act.Keeps (fun s => J s.core) p R

/-- The property survives the step, however the step ends. -/
def Allows (J : Core → Prop) (op : FsOp) : Prop :=
  ∀ c fs, op.Leaves c.fs fs → J c → J (c.withFs fs)

/-- The steps that write one of the given files. -/
inductive WriteOp (target : Path → Prop) : FsOp → Prop
  | create {path : Path} (h : target path) : WriteOp target (.create path)
  | write {path : Path} (h : target path) (bytes : Bytes) : WriteOp target (.write path bytes)
  | sync {path : Path} (h : target path) : WriteOp target (.sync path)

variable {target : Path → Prop}

theorem WriteOp.touches {op : FsOp} {q : Path} (h : WriteOp target op)
    (hq : op.Touches q) : target q := by
  cases h with
  | create h => exact hq ▸ h
  | write h bytes => exact hq ▸ h
  | sync h => exact hq ▸ h

theorem WriteOp.suits {op : FsOp} {kind : Path → NodeKind}
    (h : WriteOp target op) (hkind : ∀ path, target path → kind path = .file) : op.Suits kind := by
  cases h with
  | create h => exact hkind _ h
  | write h bytes => exact hkind _ h
  | sync h => exact hkind _ h

/-- The property survives the writing of a file. -/
def AllowsFile (J : Core → Prop) (path : Path) : Prop := ∀ op, WriteOp (· = path) op → Allows J op

section Keeps

variable {α β : Type} {J : Core → Prop} {P : Primitives} {path : Path}

theorem Keeps.bind {p : Op α} {f : α → Op β} {R : α → Prop} {R' : β → Prop} (hp : Keeps J p R)
    (hf : ∀ a, R a → Keeps J (f a) R') : Keeps J (p >>= f) R' := Act.Keeps.bind hp hf

theorem keeps_io {op : FsOp} (h : Allows J op) : Keeps J (io op) := by
  refine .zoom fun s hs => ?_
  obtain ⟨fs, hl, hp⟩ := Disk.perform_state op s.disk
  rw [hp]
  exact h s.core fs hl hs

private theorem keeps_zoom {ε : Type} {p : Act Disk ε α} {error : ε → StorageError}
    (h : ∀ d, (p d).state.fs = d.fs) :
    Keeps J (Act.zoom Sys.disk (fun d s => s.withDisk d) error p) := by
  refine .zoom fun s hs => ?_
  have hcore : (s.withDisk (p s.disk).state).core = s.core := by
    simp only [Sys.core, Sys.withDisk, h]
  rw [hcore]
  exact hs

private theorem readFile_state (d : Disk) : (Disk.readFile path d).state.fs = d.fs := by
  rcases Disk.readFile_cases path d with ⟨bytes, -, h⟩ | ⟨kind, h⟩ | h <;> rw [h] <;> rfl

private theorem listDir_state (d : Disk) : (Disk.listDir path d).state.fs = d.fs := by
  unfold Disk.listDir
  split
  · split <;> rfl
  · rfl
  · rfl

theorem keeps_readBytes : Keeps J (readBytes path) := keeps_zoom readFile_state

theorem keeps_readDir : Keeps J (readDir path) := keeps_zoom listDir_state

theorem keeps_pathExists : Keeps J (pathExists path) := fun _ h => ⟨h, trivial⟩

theorem keeps_pathIsDir : Keeps J (pathIsDir path) := fun _ h => ⟨h, trivial⟩

theorem keeps_getStore : Keeps J getStore fun store => ∃ c, J c ∧ c.store = store :=
  fun s h => ⟨h, s.core, h, rfl⟩

theorem keeps_currentFiletime : Keeps J currentFiletime := fun _ h => ⟨h, trivial⟩

theorem keeps_drawNonce : Keeps J drawNonce := fun _ h => ⟨h, trivial⟩

theorem keeps_modifyStore {f : Store → Store} (h : ∀ c, J c → J (c.withStore (f c.store))) :
    Keeps J (modifyStore f) := fun s hs => ⟨h s.core hs, trivial⟩

variable {entry : HistoryEntry}

theorem keeps_note (h : ∀ c, J c → J (c.noted entry)) :
    Keeps J (note entry) := fun s hs => ⟨h s.core hs, trivial⟩

/-- An entry is added to the history, and the rest relies on it. -/
theorem keeps_note_bind {p : Op α} {R : α → Prop}
    (hnote : ∀ c, J c → J (c.noted entry)) (hp : Keeps (fun c => J c ∧ entry ∈ c.history) p R) :
    Keeps J (note entry >>= fun _ => p) R := by
  intro s hs
  have hmem : entry ∈ s.history ++ [entry] := List.mem_append_right _ (List.mem_singleton_self _)
  have hrest := hp { s with history := s.history ++ [entry] } ⟨hnote s.core hs, hmem⟩
  rw [wp_bind]
  exact wp_mono (Q := fun a t => (J t.core ∧ entry ∈ t.core.history) ∧ R a) hrest
    (fun _ _ h => ⟨h.1.1, h.2⟩) (fun _ _ h => h.1) (fun _ h => h.1)

/-- A property that does not speak about the history is kept along with an entry in it. -/
theorem Allows.and_mem {op : FsOp} (h : Allows J op) (entry : HistoryEntry) :
    Allows (fun c => J c ∧ entry ∈ c.history) op :=
  fun c fs hl hc => ⟨h c fs hl hc.1, hc.2⟩

section

variable (h : AllowsFile J path)

include h

theorem AllowsFile.and_mem (entry : HistoryEntry) :
    AllowsFile (fun c => J c ∧ entry ∈ c.history) path :=
  fun op hop => (h op hop).and_mem entry

theorem AllowsFile.create : Allows J (.create path) :=
  h _ (@WriteOp.create (· = path) path rfl)

theorem AllowsFile.write (bytes : Bytes) :
    Allows J (.write path bytes) := h _ (@WriteOp.write (· = path) path rfl bytes)

theorem AllowsFile.sync : Allows J (.sync path) :=
  h _ (@WriteOp.sync (· = path) path rfl)

end

/-- A property that survives the writing of some files survives the writing of each of them. -/
theorem allowsFile_of_target {target : Path → Prop} (h : ∀ op, WriteOp target op → Allows J op)
    (hp : target path) : AllowsFile J path := by
  intro op hop
  cases hop with
  | create hq => exact h _ (.create (hq ▸ hp))
  | write hq bytes => exact h _ (.write (hq ▸ hp) bytes)
  | sync hq => exact h _ (.sync (hq ▸ hp))

theorem keeps_hit {point : DurabilityFaultPoint}
    (h : ∀ c, J c → J (c.withStore
      { c.store with faultIo := { c.store.faultIo with fault := none } })) :
    Keeps J (hit point) := by
  refine .of_state fun s hs => ?_
  unfold hit
  split
  · exact h s.core hs
  · exact hs

private theorem keeps_writeSynced {bytes : Bytes} (h : AllowsFile J path) :
    Keeps J (do io (.create path); io (.write path bytes); io (.sync path)) :=
  .bind (keeps_io h.create) fun _ _ =>
    .bind (keeps_io (h.write bytes)) fun _ _ => keeps_io h.sync

theorem keeps_writeRecord {record : EncryptedRecordV1} (h : AllowsFile J path) :
    Keeps J (writeRecord path record) :=
  .bind .ofExcept fun _ _ => keeps_writeSynced h

theorem keeps_readRecord : Keeps J (readRecord path) :=
  Act.Keeps.bind (keeps_zoom readFile_state) fun _ _ => Act.Keeps.ofExcept.weaken

theorem keeps_flushDirectoryMarker {directory : Path} (h : AllowsFile J (markerPath directory)) :
    Keeps J (flushDirectoryMarker directory) :=
  keeps_writeSynced h

variable {plaintext : Bytes} {nonces : NonceTracker}

/-- Sealing keeps what survives the entry in the history. -/
theorem keeps_sealRecord {aad : RecordAad}
    (h : ∀ c, J c → ∀ key, (∃ c', J c' ∧ c'.store.key = key) →
      J (c.noted (.sealed key aad plaintext))) : Keeps J (sealRecord P aad plaintext nonces) :=
  .bind keeps_getStore fun _ hstore => .bind keeps_drawNonce fun _ _ =>
    .bind .ofExcept fun _ _ =>
      .bind (keeps_note fun c hc => h c hc _ (by
        obtain ⟨c', hc', rfl⟩ := hstore
        exact ⟨c', hc', rfl⟩)) fun _ _ => .pure trivial

theorem keeps_sealFor {file : FileId} {aad : RecordAad}
    (h : ∀ c, J c → ∀ key, (∃ c', J c' ∧ c'.store.key = key) →
      J (c.noted (.sealed key aad plaintext))) : Keeps J (sealFor P file aad plaintext nonces) :=
  .bind (keeps_sealRecord h) fun _ _ => .bind keeps_getStore fun _ _ =>
    .bind .failIf fun _ _ => .pure trivial

end Keeps

/-! ### What the steps leave -/

/-- The state after a step that has turned the file system into `fs`. -/
def Sys.ran (s : Sys) (fs : Fs) : Sys := s.withDisk (s.disk.next fs)

/-- The core with a file system that differs from the one it had at some paths only. -/
def OnlyPaths (c₀ : Core) (W : Path → Prop) (c : Core) : Prop :=
  c = c₀.withFs c.fs ∧ ∀ q, ¬W q → c.fs[q]? = c₀.fs[q]?

section Steps

variable {s t : Sys} {op : FsOp} {fs : Fs} {path : Path} {W : Path → Prop} {c₀ : Core}

@[simp] theorem core_ran : (s.ran fs).core = s.core.withFs fs := rfl

theorem fates_ran (hf : s.disk.fates = []) : (s.ran fs).disk.fates = [] := by
  simp [Sys.ran, Sys.withDisk, hf]

/-- A step that completed. -/
theorem io_eq_ok {u : Unit} (h : io op s = .ok u t) :
    ∃ fs, op.effect s.disk.fs = .ok fs ∧ t = s.ran fs := by
  rw [io, zoom_apply] at h
  rcases Disk.perform_cases op s.disk with ⟨fs, he, hp⟩ | ⟨k, -, hp⟩ | ⟨k, n, -, hp⟩ | ⟨n, -, hp⟩
  · rw [hp] at h
    cases h
    exact ⟨fs, he, rfl⟩
  all_goals
    rw [hp] at h
    cases h

theorem io_of_nil (hf : s.disk.fates = []) (he : op.effect s.disk.fs = .ok fs) :
    io op s = .ok () (s.ran fs) := by
  rw [io, zoom_apply, Disk.perform_of_nil hf he]
  simp [Sys.ran, Disk.next, hf]

/-- A step that cannot be taken. -/
theorem io_of_error {kind : IoErrorKind} (hf : s.disk.fates = [])
    (he : op.effect s.disk.fs = .error kind) : io op s = .err (mapIo kind) (s.ran s.disk.fs) := by
  rw [io, zoom_apply, Disk.perform, hf]
  simp only [List.headD_nil, he]
  rfl

/-- Everything a step can do. -/
theorem wp_io {Q : Unit → Sys → Prop} {E : StorageError → Sys → Prop} {C : Sys → Prop}
    (hok : ∀ fs, op.effect s.disk.fs = .ok fs → Q () (s.ran fs))
    (herr : ∀ e fs, op.Leaves s.disk.fs fs → E e (s.ran fs))
    (hcrash : ∀ fs, op.Leaves s.disk.fs fs → C (s.ran fs)) : (io op).wp Q E C s := by
  unfold Act.wp
  rw [io, zoom_apply]
  rcases Disk.perform_cases op s.disk with ⟨fs, he, hp⟩ | ⟨k, -, hp⟩ | ⟨k, n, -, hp⟩ | ⟨n, -, hp⟩
  · rw [hp]
    exact hok fs he
  · rw [hp]
    exact herr _ _ (.inr (.inr rfl))
  · rw [hp]
    exact herr _ _ (.inr (.inl ⟨n, rfl⟩))
  · rw [hp]
    exact hcrash _ (.inr (.inl ⟨n, rfl⟩))

/-- A text that was sealed is in the history. -/
theorem sealRecord_eq_ok {P : Primitives} {aad : RecordAad} {plaintext : Bytes}
    {nonces : NonceTracker} {sealed : EncryptedRecordV1 × NonceTracker}
    (h : sealRecord P aad plaintext nonces s = .ok sealed t) :
    (∃ drawn, EncryptedRecordV1.sealRecord P s.store.key drawn aad plaintext nonces = .ok sealed) ∧
      t.core = s.core.noted (.sealed s.store.key aad plaintext) := by
  obtain ⟨_, _, h₁, h⟩ := bind_eq_ok.mp h
  cases h₁
  obtain ⟨drawn, _, h₂, h⟩ := bind_eq_ok.mp h
  cases h₂
  obtain ⟨_, _, h₃, h⟩ := bind_eq_ok.mp h
  obtain ⟨hseal, rfl⟩ := ofExcept_eq_ok.mp h₃
  obtain ⟨_, _, h₄, h⟩ := bind_eq_ok.mp h
  cases h₄
  obtain ⟨rfl, rfl⟩ := pure_eq_ok.mp h
  exact ⟨⟨_, hseal⟩, rfl⟩

/-- A record that was written is on the disk. -/
theorem writeRecord_eq_ok {r : EncryptedRecordV1} {u : Unit} (h : writeRecord path r s = .ok u t) :
    ∃ bytes, r.encode = .ok bytes ∧
      t.core = s.core.withFs (s.disk.fs.insert path (.file bytes true)) := by
  obtain ⟨bytes, _, h₀, h⟩ := bind_eq_ok.mp h
  obtain ⟨hb, rfl⟩ := ofExcept_eq_ok.mp h₀
  obtain ⟨_, _, h₁, h⟩ := bind_eq_ok.mp h
  obtain ⟨fs₁, he₁, rfl⟩ := io_eq_ok h₁
  obtain ⟨-, rfl⟩ := FsOp.effect_create.mp he₁
  obtain ⟨_, _, h₂, h₃⟩ := bind_eq_ok.mp h
  obtain ⟨fs₂, he₂, rfl⟩ := io_eq_ok h₂
  obtain ⟨old, hold, rfl⟩ := FsOp.effect_write.mp he₂
  obtain ⟨fs₃, he₃, rfl⟩ := io_eq_ok h₃
  obtain ⟨all, hall, rfl⟩ := FsOp.effect_sync.mp he₃
  have hold' : old = [] := by
    obtain ⟨y, hy⟩ := Fs.read?_eq_some.mp hold
    exact (Node.file.inj (Option.some.inj (Map.get_insert_self.symm.trans hy))).1.symm
  have hall' : all = bytes := by
    obtain ⟨y, hy⟩ := Fs.read?_eq_some.mp hall
    have hfile := Node.file.inj (Option.some.inj (Map.get_insert_self.symm.trans hy))
    rw [← hfile.1, hold', List.nil_append]
  refine ⟨bytes, hb, ?_⟩
  simp only [core_ran, Core.withFs, hold', hall']
  congr 1
  exact (Map.insert_insert).trans Map.insert_insert

/-- A file is written on a disk where nothing goes wrong. -/
theorem writeSynced_of_nil (hf : s.disk.fates = []) (hp : FsOp.Placeable s.disk.fs path)
    (bytes : Bytes) :
    ∃ t, (do io (.create path); io (.write path bytes); io (.sync path) : Op Unit) s = .ok () t ∧
      t.core = s.core.withFs (s.disk.fs.insert path (.file bytes true)) ∧ t.disk.fates = [] := by
  let s₁ := s.ran (s.disk.fs.insert path (.file [] false))
  let s₂ := s₁.ran (s₁.disk.fs.insert path (.file bytes false))
  let s₃ := s₂.ran (s₂.disk.fs.insert path (.file bytes true))
  have h₁ : io (.create path) s = .ok () s₁ :=
    io_of_nil hf (FsOp.effect_create.mpr ⟨hp, rfl⟩)
  have hread₁ : s₁.disk.fs.read? path = some [] :=
    Fs.read?_eq_some.mpr ⟨false, Map.get_insert_self⟩
  have h₂ : io (.write path bytes) s₁ = .ok () s₂ :=
    io_of_nil (fates_ran hf) (FsOp.effect_write.mpr ⟨[], hread₁, rfl⟩)
  have hread₂ : s₂.disk.fs.read? path = some bytes :=
    Fs.read?_eq_some.mpr ⟨false, Map.get_insert_self⟩
  have h₃ : io (.sync path) s₂ = .ok () s₃ :=
    io_of_nil (fates_ran (fates_ran hf)) (FsOp.effect_sync.mpr ⟨bytes, hread₂, rfl⟩)
  refine ⟨s₃, ?_, ?_, fates_ran (fates_ran (fates_ran hf))⟩
  · rw [bind_of_ok h₁, bind_of_ok h₂, h₃]
  · exact congrArg s.core.withFs ((Map.insert_insert).trans Map.insert_insert)

theorem OnlyPaths.refl : OnlyPaths c₀ W c₀ := ⟨rfl, fun _ _ => rfl⟩

theorem OnlyPaths.allows (h : ∀ q, op.Touches q → W q) : Allows (OnlyPaths c₀ W) op := by
  intro c fs hl hc
  refine ⟨?_, fun q hq => ?_⟩
  · rw [hc.1]
    rfl
  · exact (hl.get_eq fun ht => hq (h q ht)).trans (hc.2 q hq)

theorem OnlyPaths.allowsFile (h : W path) : AllowsFile (OnlyPaths c₀ W) path :=
  fun _ hop => OnlyPaths.allows fun _ hq => hop.touches hq ▸ h

end Steps

end Wdlp
