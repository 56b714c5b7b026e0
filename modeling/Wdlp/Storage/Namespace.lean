import Wdlp.Storage.Store

/-!
# The namespace of a store

The directories, files and handles of a store, and how they survive the process. Every change of
the two maps is persisted as one sealed record, which replaces the former one by a rename; when
that fails, the change is undone in memory. Opening a store loads the record again.

## Main definitions

* `persistNamespace`, `loadNamespace`, `openStore` — the namespace on disk.
* `createDirectory`, `createOrOpen`, `rename`, `delete` — the operations on names.
* `writeHandle`, `readHandle`, `truncateHandle`, `flushHandle`, `closeHandle`, `readPath` — the
  operations on open files.
-/

namespace Wdlp

open CrashSafe

variable (P : Primitives)

/-! ### Text form -/

/-- The columns of a line, separated by tabs. -/
def tabbed (columns : List Text) : Text := ['\t'].intercalate columns

/-- The four times of an entry, in decimal. -/
def EntryMetadata.columns (m : EntryMetadata) : List Text :=
  [decimal m.creationTime.toNat, decimal m.lastAccessTime.toNat, decimal m.lastWriteTime.toNat,
    decimal m.changeTime.toNat]

def directoryLine (entry : Text × DirectoryEntry) : Text :=
  tabbed (['D'] :: entry.1 :: entry.2.display :: entry.2.metadata.columns)

def fileLine (entry : Text × FileEntry) : Text :=
  tabbed (['F'] :: entry.1 :: entry.2.fileId.toWire :: entry.2.display :: entry.2.metadata.columns)

def namespaceHeaderV2 : Text := "dlp-namespace/v2".toList

def namespaceHeaderV1 : Text := "dlp-namespace/v1".toList

/-- The lines of a namespace. Files that are about to be deleted are left out. -/
def namespaceLines (directories : Map Text DirectoryEntry) (files : Map Text FileEntry) :
    List Text :=
  namespaceHeaderV2 :: (directories.toList.map directoryLine ++
    (files.toList.filter (!·.2.deletePending)).map fileLine)

/-- The plaintext of a namespace record. -/
def namespaceText (directories : Map Text DirectoryEntry) (files : Map Text FileEntry) : Text :=
  unlines (namespaceLines directories files)

/-- The file name under which namespace records are sealed. -/
def namespaceIndex : Text := "namespace-index".toList

/-- The header of a namespace record. -/
def namespaceAad (store : StoreId) (generation : UInt64) (plaintextLength : ℕ) : RecordAad where
  formatVersion := formatVersionV1
  storeId := store.toWire
  fileId := namespaceIndex
  generation := generation
  recordKind := .manifest
  chunkIndex := 0
  plaintextLength := UInt64.ofNat plaintextLength

/-! ### Persisting and loading -/

/-- `persist_namespace`. -/
def persistNamespace : Op Unit := do
  let store ← getStore
  let plaintext := utf8 (namespaceText store.directories store.files)
  failIf (store.namespaceGeneration.toNat + 1 ≥ 2 ^ 64) StorageError.ioFailure
  let generation := store.namespaceGeneration + 1
  note (.persisting store.key store.storeId generation store.directories store.files)
  let sealed ← sealRecord P (namespaceAad store.storeId generation plaintext.length) plaintext {}
  writeRecord (namespaceTmp store.storeId generation) sealed.1
  io (.rename (namespaceTmp store.storeId generation) (namespacePath store.storeId))
  flushDirectoryMarker (storeDir store.storeId)
  modifyStore fun store => { store with namespaceGeneration := generation }

/-- `preserve_namespace_integrity_evidence`. -/
def preserveNamespaceIntegrityEvidence : Op Unit := do
  let store ← getStore
  let source := namespacePath store.storeId
  whenExists source do
    io (.createDirAll evidenceRoot)
    let number ← drawEvidence
    let id := evidenceId number
    io (.createDir (evidenceDir id))
    let bytes ← readBytes source
    writeBytes (evidenceRecord id 1) bytes
    io (.openAppend diagnosticsPath)
    io (.write diagnosticsPath (diagnosticsLine P id bytes .namespaceIntegrityFailure))
    io (.sync diagnosticsPath)

/-- Keep what can be kept of a namespace that cannot be trusted, and fail. -/
def rejectNamespace {α : Type} : Op α := do
  let _ ← Act.attempt (preserveNamespaceIntegrityEvidence P)
  throw .integrityFailure

/-- A time in a namespace line. -/
def parseTime (column : Text) : Except StorageError UInt64 :=
  (parseU64 column).elim (.error .integrityFailure) .ok

/-- `parse_metadata`. -/
def parseMetadata (creation access write change : Text) : Except StorageError EntryMetadata := do
  let creationTime ← parseTime creation
  let lastAccessTime ← parseTime access
  let lastWriteTime ← parseTime write
  let changeTime ← parseTime change
  return { creationTime, lastAccessTime, lastWriteTime, changeTime }

/-- A file identifier in a namespace line. -/
def parseFileId (column : Text) : Except StorageError FileId :=
  (Identifier.parse .fileId column).mapError fun _ => .integrityFailure

/-- Add a directory that was not listed before. -/
def loadDirectory (key : Text) (entry : DirectoryEntry) : Op Unit := do
  let store ← getStore
  modifyStore fun store => { store with directories := store.directories.insert key entry }
  if key ∈ store.directories then rejectNamespace P else pure ()

/-- Add a file that was not listed before. -/
def loadFile (key : Text) (entry : FileEntry) : Op Unit := do
  let store ← getStore
  modifyStore fun store => { store with files := store.files.insert key entry }
  if key ∈ store.files then rejectNamespace P else pure ()

/-- One line of `load_namespace_v2`. -/
def loadLineV2 (line : Text) : Op Unit :=
  match line.splitOn '\t' with
  | [tag, key, display, creation, access, write, change] =>
    if tag = ['D'] ∧ key ≠ [] ∧ display ≠ [] then do
      let metadata ← Act.ofExcept (parseMetadata creation access write change)
      loadDirectory P key { display, metadata }
    else rejectNamespace P
  | [tag, key, file, display, creation, access, write, change] =>
    if tag = ['F'] ∧ key ≠ [] ∧ display ≠ [] then do
      let fileId ← Act.ofExcept (parseFileId file)
      let metadata ← Act.ofExcept (parseMetadata creation access write change)
      loadFile P key { fileId, display, deletePending := false, metadata }
    else rejectNamespace P
  | _ => rejectNamespace P

/-- One line of `load_namespace_v1`, which has no times. -/
def loadLineV1 (fallback : EntryMetadata) (line : Text) : Op Unit :=
  match line.splitOn '\t' with
  | [tag, key, display] =>
    if tag = ['D'] ∧ key ≠ [] ∧ display ≠ [] then
      loadDirectory P key { display, metadata := fallback }
    else rejectNamespace P
  | [tag, key, file, display] =>
    if tag = ['F'] ∧ key ≠ [] ∧ display ≠ [] then do
      let fileId ← Act.ofExcept (parseFileId file)
      loadFile P key { fileId, display, deletePending := false, metadata := fallback }
    else rejectNamespace P
  | _ => rejectNamespace P

/-- `load_namespace_v2`. -/
def loadNamespaceV2 (lines : List Text) : Op Unit := Act.forEach lines (loadLineV2 P)

/-- `load_namespace_v1`. -/
def loadNamespaceV1 (lines : List Text) : Op Unit := do
  let now ← currentFiletime
  Act.forEach lines (loadLineV1 P (EntryMetadata.new now))

/-- Load the lines of a namespace, whose first one is its version. -/
def loadLines : List Text → Op Unit
  | header :: lines =>
    if header = namespaceHeaderV2 then loadNamespaceV2 P lines
    else if header = namespaceHeaderV1 then loadNamespaceV1 P lines
    else rejectNamespace P
  | [] => rejectNamespace P

/-- The header of a namespace record is the one that its store writes. -/
def Store.IsNamespaceRecord (store : Store) (record : EncryptedRecordV1) : Prop :=
  record.formatVersion = formatVersionV1 ∧ record.storeId = store.storeId.toWire ∧
    record.fileId = namespaceIndex ∧ record.recordKind = .manifest ∧ record.chunkIndex = 0

instance (store : Store) (record : EncryptedRecordV1) :
    Decidable (store.IsNamespaceRecord record) :=
  inferInstanceAs (Decidable (_ ∧ _ ∧ _ ∧ _ ∧ _))

/-- A result that is kept as evidence when it is an error. -/
def orReject {α : Type} : Except StorageError α → Op α
  | .ok a => pure a
  | .error _ => rejectNamespace P

/-- Load the namespace from the bytes of its record. -/
def loadRecord (raw : Bytes) : Op Unit := do
  let store ← getStore
  let record ← orReject P (EncryptedRecordV1.decode raw)
  let _ ← orReject P (failIf (¬store.IsNamespaceRecord record) StorageError.integrityFailure)
  let plaintext ← orReject P (EncryptedRecordV1.openRecord P store.key record)
  let text ← Act.ofOption (fromUtf8 plaintext) .integrityFailure
  loadLines P (textLines text)
  modifyStore fun store => { store with namespaceGeneration := record.generation }

/-- `load_namespace`. -/
def loadNamespace : Op Unit := do
  let store ← getStore
  let target := namespacePath store.storeId
  whenExists target do
    let raw ← readBytes target
    loadRecord P raw

/-- `open`: the store of the process is the opened one. -/
def openStore (identity : CapturedStoreIdentity) (key : StoreKey) : Op Unit := do
  io (.createDirAll (filesDir identity.storeId))
  modifyStore fun _ => { identity, key }
  loadNamespace P

/-! ### Queries -/

/-- `is_directory`. -/
def Store.isDirectory (store : Store) (path : VirtualPath) : Bool :=
  decide (path.lookupKey = []) || decide (path.lookupKey ∈ store.directories)

/-- `require_parent`. -/
def Store.requireParent (store : Store) (path : VirtualPath) : Except StorageError Unit :=
  match parentKey path.lookupKey with
  | none => .ok ()
  | some parent => if parent ∈ store.directories then .ok () else .error .notFound

/-- `direct_child`: the key is the start followed by one component. -/
def directChild (key start : Text) : Bool :=
  start.isPrefixOf key && decide (key.drop start.length ≠ []) &&
    decide ('/' ∉ key.drop start.length)

/-- `handle_file`. -/
def Store.handleFile (store : Store) (handle : FileHandle) : Except StorageError FileId :=
  match store.handles[handle.number]? with
  | none => .error .notFound
  | some state => (store.files[state.pathKey]?.map FileEntry.fileId).elim (.error .notFound) .ok

/-- `handle_path_key`. -/
def Store.handlePathKey (store : Store) (handle : FileHandle) : Except StorageError Text :=
  (store.handles[handle.number]?.map HandleState.pathKey).elim (.error .notFound) .ok

/-- The names in a directory, the directories before the files. -/
def Store.childNames (store : Store) (start : Text) : List Text :=
  (store.directories.toList.filter fun entry => directChild entry.1 start).map (·.2.display) ++
    (store.files.toList.filter fun entry => !entry.2.deletePending && directChild entry.1 start).map
      (·.2.display)

/-- Names are ordered without regard to ASCII case. -/
def nameLe (a b : Text) : Bool := (compare (asciiLower a) (asciiLower b)).isLE

/-- `read_directory`. -/
def Store.readDirectory (store : Store) (path : VirtualPath) : Except StorageError (List Text) := do
  failIf (store.isDirectory path = false) StorageError.notFound
  let start := if path.lookupKey = [] then [] else path.lookupKey ++ ['/']
  return (store.childNames start).mergeSort nameLe

/-- `entry_metadata`. -/
def entryMetadata (path : VirtualPath) : Op EntryMetadata := do
  let store ← getStore
  if store.isDirectory path then
    if path.lookupKey = [] then do
      let now ← currentFiletime
      return EntryMetadata.new now
    else Act.ofOption (store.directories[path.lookupKey]?.map DirectoryEntry.metadata) .notFound
  else do
    let entry ← Act.ofOption store.files[path.lookupKey]? .notFound
    failIf (entry.deletePending = true) StorageError.notFound
    return entry.metadata

/-! ### Changing the maps -/

/-- The state with another store. -/
def Sys.mapStore (f : Store → Store) (s : Sys) : Sys := { s with store := f s.store }

/-- Persist the namespace, or change the store back. -/
def persistOr (undo : Store → Store) : Op Unit :=
  Act.orRollback (persistNamespace P) (Sys.mapStore undo)

/-- Update the metadata of a file, if there is one, with the current time. -/
def touchFile (key : Text) (update : UInt64 → EntryMetadata → EntryMetadata) : Op Unit := do
  let store ← getStore
  match store.files[key]? with
  | none => pure ()
  | some entry => do
    let now ← currentFiletime
    modifyStore fun store => { store with
      files := store.files.insert key { entry with metadata := update now entry.metadata } }

/-- The file was read. -/
def EntryMetadata.accessed (now : UInt64) (m : EntryMetadata) : EntryMetadata :=
  { m with lastAccessTime := now }

/-- The file was written. -/
def EntryMetadata.written (now : UInt64) (m : EntryMetadata) : EntryMetadata :=
  { m with lastWriteTime := now, changeTime := now }

/-- The entry was moved. -/
def EntryMetadata.changed (now : UInt64) (m : EntryMetadata) : EntryMetadata :=
  { m with changeTime := now }

/-! ### Directories and files -/

/-- `create_directory`. -/
def createDirectory (path : VirtualPath) : Op Unit := do
  let store ← getStore
  failIf (path.lookupKey ∈ store.files ∨ path.lookupKey ∈ store.directories)
    StorageError.alreadyExists
  Act.ofExcept (store.requireParent path)
  let now ← currentFiletime
  let entry : DirectoryEntry := { display := path.displayName, metadata := EntryMetadata.new now }
  modifyStore fun store =>
    { store with directories := store.directories.insert path.lookupKey entry }
  persistOr P fun store => { store with directories := store.directories.erase path.lookupKey }

/-- The name of a new file in the store. -/
def newFileId (number : ℕ) : Except StorageError FileId :=
  (Identifier.parse .fileId ("file-".toList ++ padded 20 number)).mapError fun _ => .ioFailure

/-- Make a file. -/
def createFile (path : VirtualPath) : Op Unit := do
  let store ← getStore
  Act.ofExcept (store.requireParent path)
  let number ← drawFile
  let fileId ← Act.ofExcept (newFileId number)
  note (.created store.storeId number fileId)
  let now ← currentFiletime
  let entry : FileEntry := {
    fileId := fileId
    display := path.displayName
    deletePending := false
    metadata := EntryMetadata.new now }
  modifyStore fun store => { store with files := store.files.insert path.lookupKey entry }
  persistOr P fun store => { store with files := store.files.erase path.lookupKey }

/-- Find a file, or make it. -/
def findOrCreate (path : VirtualPath) (create : Bool) : Op Unit := do
  let store ← getStore
  match store.files[path.lookupKey]? with
  | some entry => do
    failIf (entry.deletePending = true) StorageError.deletePending
    touchFile path.lookupKey EntryMetadata.accessed
  | none => do
    failIf (create = false) StorageError.notFound
    createFile P path

/-- `create_or_open`. -/
def createOrOpen (path : VirtualPath) (create allowDelete : Bool) : Op FileHandle := do
  findOrCreate P path create
  let handle ← drawHandle
  let state : HandleState := { pathKey := path.lookupKey, allowDelete }
  modifyStore fun store => { store with handles := store.handles.insert handle state }
  return ⟨handle⟩

/-- `delete_directory`. -/
def deleteDirectory (path : VirtualPath) : Op Unit := do
  let store ← getStore
  let key := path.lookupKey
  failIf (key = []) StorageError.sharingViolation
  failIf (key ∉ store.directories) StorageError.notFound
  let start := key ++ ['/']
  failIf (store.directories.keys.any (start.isPrefixOf ·) = true ∨
    store.files.keys.any (start.isPrefixOf ·) = true) StorageError.sharingViolation
  modifyStore fun store => { store with directories := store.directories.erase key }
  persistOr P fun current => { current with directories := store.directories }

/-- A file that is open is deleted when its last handle is closed. -/
def deleteFile (path : VirtualPath) : Op Unit := do
  let store ← getStore
  let key := path.lookupKey
  let entry ← Act.ofOption store.files[key]? .notFound
  failIf (store.handles.values.any (fun handle => decide (handle.pathKey = key) &&
    !handle.allowDelete) = true) StorageError.sharingViolation
  if store.handles.values.any (fun handle => decide (handle.pathKey = key)) then
    modifyStore fun store =>
      { store with files := store.files.insert key { entry with deletePending := true } }
  else do
    modifyStore fun store => { store with files := store.files.erase key }
    persistOr P fun current => { current with files := store.files }

/-- `delete`. -/
def delete (path : VirtualPath) : Op Unit := do
  let store ← getStore
  if store.isDirectory path then deleteDirectory P path else deleteFile P path

/-! ### Rename -/

/-- `strip_prefix`, with the empty string for keys that do not start so. -/
def stripStart (start key : Text) : Text :=
  if start.isPrefixOf key then key.drop start.length else []

/-- The key of a moved entry. -/
def movedKey (source destination key : Text) : Text := destination ++ stripStart source key

/-- The key lies inside the directory. -/
def isInside (directory key : Text) : Bool := (directory ++ ['/']).isPrefixOf key

/-- Rename the handles of a moved file. -/
def renameHandles (source destination : Text) (handles : Map ℕ HandleState) : Map ℕ HandleState :=
  handles.map fun _ state =>
    if state.pathKey = source then { state with pathKey := destination } else state

/-- Rename the handles of the files in a moved directory. -/
def moveHandles (source destination : Text) (handles : Map ℕ HandleState) : Map ℕ HandleState :=
  handles.map fun _ state =>
    if isInside source state.pathKey then
      { state with pathKey := movedKey source destination state.pathKey }
    else state

/-- Move one directory of a subtree. -/
def moveDirectory (source : Text) (destination : VirtualPath) (key : Text) : Op Unit := do
  let store ← getStore
  let entry := store.directories[key]?.getD { display := [], metadata := EntryMetadata.new 0 }
  let display := if stripStart source key = [] then destination.displayName else entry.display
  let now ← currentFiletime
  let moved : DirectoryEntry := { display, metadata := entry.metadata.changed now }
  modifyStore fun store => { store with
    directories := (store.directories.erase key).insert
      (movedKey source destination.lookupKey key) moved }

/-- Move one file of a subtree. -/
def moveFile (source : Text) (destination : VirtualPath) (key : Text) : Op Unit := do
  let store ← getStore
  match store.files[key]? with
  | none => pure ()
  | some entry => do
    let now ← currentFiletime
    modifyStore fun store => { store with
      files := (store.files.erase key).insert (movedKey source destination.lookupKey key)
        { entry with metadata := entry.metadata.changed now } }

/-- Delete what a rename replaces. -/
def replaceDestination (destination : VirtualPath) (replace : Bool) (present : Bool) : Op Unit :=
  if present then do
    failIf (replace = false) StorageError.alreadyExists
    delete P destination
  else pure ()

/-- Change the store back to the maps and handles it had. -/
def Store.restore (prior current : Store) : Store :=
  { current with
    directories := prior.directories, files := prior.files, handles := prior.handles }

/-- `rename_directory`. -/
def renameDirectory (source destination : VirtualPath) (replace : Bool) : Op Unit := do
  let sourceKey := source.lookupKey
  let destinationKey := destination.lookupKey
  failIf (sourceKey = [] ∨ isInside sourceKey destinationKey = true) StorageError.alreadyExists
  let before ← getStore
  Act.ofExcept (before.requireParent destination)
  replaceDestination P destination replace
    (decide (destinationKey ∈ before.files ∨ destinationKey ∈ before.directories))
  let prior ← getStore
  let directoryKeys := prior.directories.keys.filter fun key =>
    decide (key = sourceKey) || isInside sourceKey key
  let fileKeys := prior.files.keys.filter (isInside sourceKey)
  Act.forEach directoryKeys (moveDirectory sourceKey destination)
  Act.forEach fileKeys (moveFile sourceKey destination)
  modifyStore fun store =>
    { store with handles := moveHandles sourceKey destinationKey store.handles }
  persistOr P prior.restore

/-- Rename a file. -/
def renameFile (source destination : VirtualPath) (replace : Bool) : Op Unit := do
  let sourceKey := source.lookupKey
  let destinationKey := destination.lookupKey
  let before ← getStore
  let sourceEntry ← Act.ofOption before.files[sourceKey]? .notFound
  failIf (sourceEntry.deletePending = true) StorageError.deletePending
  replaceDestination P destination replace (decide (destinationKey ∈ before.files))
  let prior ← getStore
  failIf (destinationKey ∈ before.files ∧ destinationKey ∈ prior.files)
    StorageError.sharingViolation
  let moved ← Act.ofOption prior.files[sourceKey]? .notFound
  let now ← currentFiletime
  let moved : FileEntry := { moved with
    display := destination.displayName, metadata := moved.metadata.changed now }
  modifyStore fun store => { store with
    files := (store.files.erase sourceKey).insert destinationKey moved
    handles := renameHandles sourceKey destinationKey store.handles }
  persistOr P prior.restore

/-- `rename`. -/
def rename (source destination : VirtualPath) (replace : Bool) : Op Unit := do
  let store ← getStore
  Act.ofExcept (store.requireParent destination)
  if store.isDirectory source then renameDirectory P source destination replace
  else renameFile P source destination replace

/-- `ensure_delete_allowed`. -/
def Store.ensureDeleteAllowed (store : Store) (path : VirtualPath) : Except StorageError Unit :=
  let key := path.lookupKey
  if store.isDirectory path then
    failIf (key = [] ∨ key ∉ store.directories ∨
      store.directories.keys.any (isInside key) = true ∨
        store.files.keys.any (isInside key) = true) StorageError.sharingViolation
  else do
    failIf (key ∉ store.files) StorageError.notFound
    failIf (store.handles.values.any (fun handle => decide (handle.pathKey = key) &&
      !handle.allowDelete) = true) StorageError.sharingViolation

/-! ### Handles -/

/-- `write_handle`. -/
def writeHandle (handle : FileHandle) (offset : UInt64) (bytes : Bytes) : Op Unit := do
  let store ← getStore
  let file ← Act.ofExcept (store.handleFile handle)
  writeAt P file offset bytes
  let store ← getStore
  let key ← Act.ofExcept (store.handlePathKey handle)
  touchFile key EntryMetadata.written

/-- `read_handle`. -/
def readHandle (handle : FileHandle) : Op Bytes := do
  let store ← getStore
  let file ← Act.ofExcept (store.handleFile handle)
  let data ← readFile P file
  let store ← getStore
  let key ← Act.ofExcept (store.handlePathKey handle)
  touchFile key EntryMetadata.accessed
  return data

/-- What `truncate_handle` starts from: the staged bytes, or the committed ones if they can be
read. -/
def currentData (file : FileId) : Op Bytes := do
  let store ← getStore
  match store.staged[file.toWire]? with
  | some data => pure data
  | none => do
    let existing ← Act.attempt (readFile P file)
    return orDefault existing

/-- `truncate_handle`. -/
def truncateHandle (handle : FileHandle) (length : UInt64) : Op Unit := do
  let store ← getStore
  let file ← Act.ofExcept (store.handleFile handle)
  let key ← Act.ofExcept (store.handlePathKey handle)
  let data ← currentData P file
  write file (resize data length.toNat)
  touchFile key EntryMetadata.written

/-- Commit what is staged for the file of a handle. -/
def flushStaged (handle : FileHandle) (file : FileId) : Op Unit := do
  let _ ← flushFile P file
  let store ← getStore
  let key ← Act.ofExcept (store.handlePathKey handle)
  touchFile key EntryMetadata.written

/-- `flush_handle`. -/
def flushHandle (handle : FileHandle) : Op Unit := do
  let store ← getStore
  let file ← Act.ofExcept (store.handleFile handle)
  if file.toWire ∈ store.staged then do
    flushStaged P handle file
    persistNamespace P
  else persistNamespace P

/-- Remove a file whose deletion waited for its last handle. -/
def finishDelete (key : Text) : Op Unit := do
  let store ← getStore
  if (store.files[key]?.any (·.deletePending)) = true ∧
      store.handles.values.any (fun handle => decide (handle.pathKey = key)) = false then do
    modifyStore fun store => { store with files := store.files.erase key }
    persistOr P fun current => { current with files := store.files }
  else pure ()

/-- `close_handle`. -/
def closeHandle (handle : FileHandle) : Op Unit := do
  let store ← getStore
  let state ← Act.ofOption store.handles[handle.number]? .notFound
  modifyStore fun store => { store with handles := store.handles.erase handle.number }
  finishDelete P state.pathKey

/-- `read_path`. -/
def readPath (path : VirtualPath) : Op Bytes := do
  let store ← getStore
  let entry ← Act.ofOption store.files[path.lookupKey]? .notFound
  failIf (entry.deletePending = true) StorageError.notFound
  let data ← readFile P entry.fileId
  touchFile path.lookupKey EntryMetadata.accessed
  return data

end Wdlp
