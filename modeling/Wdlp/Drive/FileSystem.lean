import Wdlp.Drive.Wildmatch
import Wdlp.Storage.Namespace
import Wdlp.Storage.PathForms

/-!
# The callbacks of the drive

The drive hands the requests of the operating system to callbacks over the store of one user. A
callback that works on an open file gets its file context, which holds the path under which the
file was opened and the handle that the store gave for it. The store is behind a lock, and each
callback is one step here. Names arrive as strings. The change notifications that some callbacks
leave for the operating system are not modelled.

The buffer of a directory listing belongs to the binding. Whether it takes a name, and how many
bytes an entry takes in the buffer, are parameters (`DirInfoFormat`); the terminator that it puts
after the entries is left out.

## Main definitions

* `Status`, `toNtstatus` — the results of callbacks.
* `DlpFileHandle` — a file context.
* `Drive.openFile`, `Drive.create`, `Drive.close`, `Drive.cleanup` — contexts.
* `Drive.read`, `Drive.write`, `Drive.overwrite`, `Drive.setFileSize`, `Drive.flush` — data.
* `Drive.rename`, `Drive.setDelete`, `Drive.readDirectory` — names.
-/

namespace Wdlp

open CrashSafe

/-! ### Results -/

/-- The status values that the callbacks return. -/
inductive Status where
  | integrityFailure
  | diskFull
  | objectNameInvalid
  | objectNameNotFound
  | objectNameCollision
  | sharingViolation
  | deletePending
  | ioDeviceError
  | notSupported
  deriving DecidableEq, Repr

/-- The value of a status in the operating system. -/
def Status.code : Status → UInt32
  | integrityFailure => 0xC000003E
  | diskFull => 0xC000007F
  | objectNameInvalid => 0xC0000033
  | objectNameNotFound => 0xC0000034
  | objectNameCollision => 0xC0000035
  | sharingViolation => 0xC0000043
  | deletePending => 0xC0000056
  | ioDeviceError => 0xC0000185
  | notSupported => 0xC0000010

/-- `to_ntstatus`. -/
def toNtstatus : StorageError → Status
  | .integrityFailure | .recoveryRequired => .integrityFailure
  | .noSpace => .diskFull
  | .notFound => .objectNameNotFound
  | .alreadyExists => .objectNameCollision
  | .sharingViolation => .sharingViolation
  | .deletePending => .deletePending
  | .flushNotDurable | .closeNotDurable | .unavailable | .ioFailure => .ioDeviceError

/-- `path_to_ntstatus`. -/
def pathToNtstatus (_ : PathError) : Status := .objectNameInvalid

/-- A callback, or a part of one. -/
abbrev Callback (α : Type) : Type := Act Sys Status α

/-- An operation of the store within a callback. -/
def stored {α : Type} (p : Op α) : Callback α := Act.zoom id (fun t _ => t) toNtstatus p

/-- The attributes, times and sizes that a callback reports. -/
structure FileInfo where
  fileAttributes : UInt32 := 0
  creationTime : UInt64 := 0
  lastAccessTime : UInt64 := 0
  lastWriteTime : UInt64 := 0
  changeTime : UInt64 := 0
  fileSize : ℕ := 0
  allocationSize : ℕ := 0
  deriving DecidableEq

/-- The attributes of a directory and of a file. -/
def directoryAttributes : UInt32 := 0x10

def fileAttributes : UInt32 := 0x80

/-- `fill_file_info`. -/
def FileInfo.fill (info : FileInfo) (metadata : EntryMetadata) : FileInfo :=
  { info with
    creationTime := metadata.creationTime
    lastAccessTime := metadata.lastAccessTime
    lastWriteTime := metadata.lastWriteTime
    changeTime := metadata.changeTime }

/-- The sizes of a file with the given bytes. -/
def FileInfo.sized (info : FileInfo) (size : ℕ) : FileInfo :=
  { info with fileSize := size, allocationSize := size }

/-- A file context. -/
structure DlpFileHandle where
  path : VirtualPath
  handle : Option FileHandle
  directory : Bool
  deleteRequested : Bool := false
  deriving DecidableEq

/-- A context of a file. -/
def DlpFileHandle.ofFile (path : VirtualPath) (handle : FileHandle) : DlpFileHandle where
  path := path
  handle := some handle
  directory := false

/-- A context of a directory. -/
def DlpFileHandle.ofDirectory (path : VirtualPath) : DlpFileHandle where
  path := path
  handle := none
  directory := true

namespace Drive

variable (P : Primitives)

/-! ### Parts of callbacks -/

/-- `virtual_path`: the path that a file name stands for, or none for the root. -/
def virtualPath (fileName : Text) : Except Status (Option VirtualPath) :=
  let normalized := fileName.dropWhile isSeparator
  if normalized = [] then .ok none
  else ((VirtualPath.parse normalized).map some).mapError pathToNtstatus

/-- The path of a file name that does not stand for the root. -/
def namedPath (fileName : Text) : Except Status VirtualPath := do
  match ← virtualPath fileName with
  | some path => return path
  | none => throw .objectNameInvalid

/-- The handle of a context of a file. -/
def fileHandle (context : DlpFileHandle) : Callback FileHandle :=
  Act.ofOption context.handle .objectNameInvalid

/-- `file_info_for`. -/
def fileInfoFor (path : VirtualPath) : Callback FileInfo := do
  let metadata ← stored (entryMetadata path)
  let store ← stored getStore
  if store.isDirectory path then
    return ({ fileAttributes := directoryAttributes } : FileInfo).fill metadata
  else do
    let bytes ← stored (readPath P path)
    return (({ fileAttributes := fileAttributes } : FileInfo).sized bytes.length).fill metadata

/-- `file_info_for_handle`. -/
def fileInfoForHandle (context : DlpFileHandle) : Callback FileInfo := do
  let metadata ← stored (entryMetadata context.path)
  if context.directory then
    return ({ fileAttributes := directoryAttributes } : FileInfo).fill metadata
  else do
    let handle ← fileHandle context
    let bytes ← stored (readHandle P handle)
    return (({ fileAttributes := fileAttributes } : FileInfo).sized bytes.length).fill metadata

/-- `is_directory_create`. -/
def isDirectoryCreate (createOptions : UInt32) : Bool := decide (createOptions &&& 1 ≠ 0)

/-! ### Contexts -/

/-- `get_security_by_name`: the attributes of a name. -/
def getSecurityByName (fileName : Text) : Callback UInt32 := do
  match ← Act.ofExcept (virtualPath fileName) with
  | none => return directoryAttributes
  | some path => do
    let store ← stored getStore
    return if store.isDirectory path then directoryAttributes else fileAttributes

/-- `open`. -/
def openFile (fileName : Text) : Callback (DlpFileHandle × FileInfo) := do
  let named ← Act.ofExcept (virtualPath fileName)
  let path := named.getD VirtualPath.root
  let store ← stored getStore
  -- the root is a directory
  if store.isDirectory path then
    return (.ofDirectory path, { fileAttributes := directoryAttributes })
  else do
    let handle ← stored (createOrOpen P path false true)
    let info ← fileInfoFor P path
    return (.ofFile path handle, info)

/-- `create`. -/
def create (fileName : Text) (createOptions attributes : UInt32)
    (extraBufferIsReparsePoint : Bool) : Callback (DlpFileHandle × FileInfo) := do
  failIf (extraBufferIsReparsePoint = true) Status.objectNameInvalid
  let path ← Act.ofExcept (namedPath fileName)
  if isDirectoryCreate createOptions || decide (attributes &&& 0x10 ≠ 0) then do
    stored (createDirectory P path)
    return (.ofDirectory path, { fileAttributes := directoryAttributes })
  else do
    let handle ← stored (createOrOpen P path true true)
    return (.ofFile path handle, { fileAttributes := fileAttributes })

/-- `close`: errors are not reported. -/
def close (context : DlpFileHandle) : Callback Unit :=
  match context.handle with
  | none => pure ()
  | some handle => do
    let _ ← Act.attempt (stored (closeHandle P handle))

/-- `cleanup`: a file whose deletion was requested is deleted, and errors are not reported. -/
def cleanup (context : DlpFileHandle) : Callback Unit :=
  if context.deleteRequested then do
    let _ ← Act.attempt (stored (delete P context.path))
  else pure ()

/-! ### Data -/

/-- `flush`. -/
def flush (context : Option DlpFileHandle) : Callback FileInfo :=
  match context with
  | none => return {}
  | some context =>
    match context.handle with
    | none => return { fileAttributes := directoryAttributes }
    | some handle => do
      stored (flushHandle P handle)
      let bytes ← stored (readHandle P handle)
      return ({} : FileInfo).sized bytes.length

/-- `overwrite`. -/
def overwrite (context : DlpFileHandle) (allocationSize : UInt64) : Callback FileInfo := do
  let handle ← fileHandle context
  stored (truncateHandle P handle allocationSize)
  stored (flushHandle P handle)
  fileInfoForHandle P context

/-- `get_file_info`. -/
def getFileInfo (context : DlpFileHandle) : Callback FileInfo := fileInfoForHandle P context

/-- `set_basic_info`: nothing is set. -/
def setBasicInfo (context : DlpFileHandle) : Callback FileInfo := getFileInfo P context

/-- `set_file_size`: whether the size or the allocation is meant is not looked at. -/
def setFileSize (context : DlpFileHandle) (newSize : UInt64) (_allocation : Bool) :
    Callback FileInfo := do
  let handle ← fileHandle context
  stored (truncateHandle P handle newSize)
  stored (flushHandle P handle)
  return ({} : FileInfo).sized newSize.toNat

/-- `read`, into a buffer of the given length. -/
def read (context : DlpFileHandle) (length : ℕ) (offset : UInt64) : Callback Bytes := do
  let handle ← fileHandle context
  let bytes ← stored (readHandle P handle)
  let copied := (bytes.drop offset.toNat).take length
  failIf (copied.length ≥ 2 ^ 32) Status.ioDeviceError
  return copied

/-- Where a write starts: at the given offset, or at the end of the committed bytes. -/
def writeOffset (handle : FileHandle) (offset : UInt64) : (writeToEof : Bool) → Callback ℕ
  | true => do
    let bytes ← stored (readHandle P handle)
    return bytes.length
  | false => return offset.toNat

/-- `write`: whether the write is constrained is not looked at. -/
def write (context : DlpFileHandle) (buffer : Bytes) (offset : UInt64)
    (writeToEof _constrainedIo : Bool) : Callback (ℕ × FileInfo) := do
  let handle ← fileHandle context
  let start ← writeOffset P handle offset writeToEof
  failIf (start + buffer.length ≥ 2 ^ 64) Status.objectNameInvalid
  stored (writeHandle P handle (UInt64.ofNat start) buffer)
  stored (flushHandle P handle)
  let bytes ← stored (readHandle P handle)
  failIf (buffer.length ≥ 2 ^ 32) Status.ioDeviceError
  return (buffer.length, ({} : FileInfo).sized bytes.length)

/-! ### Names -/

/-- `rename`: the context afterwards. -/
def rename (context : DlpFileHandle) (newFileName : Text) (replace : Bool) :
    Callback DlpFileHandle := do
  let destination ← Act.ofExcept (namedPath newFileName)
  stored (Wdlp.rename P context.path destination replace)
  return { context with path := destination }

/-- `set_delete`: the context afterwards. -/
def setDelete (context : DlpFileHandle) (deleteFile : Bool) : Callback DlpFileHandle := do
  if deleteFile then do
    let store ← stored getStore
    stored (Act.ofExcept (store.ensureDeleteAllowed context.path))
    return { context with deleteRequested := true }
  else return { context with deleteRequested := false }

/-- What the binding does with the entries of a listing. -/
structure DirInfoFormat where
  /-- Whether an entry takes a name. -/
  setName : Text → Except Status Unit
  /-- The bytes that the entry of a name takes in the buffer. -/
  entrySize : Text → ℕ

/-- The path of a child of a directory. -/
def childPath (path : VirtualPath) (entry : Text) : Except Status VirtualPath :=
  (VirtualPath.parse (if path.lookupKey = [] then entry
    else path.displayPath ++ '\\' :: entry)).mapError pathToNtstatus

/-- The entry of a child. -/
def childInfo (F : DirInfoFormat) (path : VirtualPath) (entry : Text) : Callback FileInfo := do
  Act.ofExcept (F.setName entry)
  let child ← Act.ofExcept (childPath path entry)
  fileInfoFor P child

/-- The loop over the children: they are added to the buffer until one does not fit. -/
def addEntries (F : DirInfoFormat) (path : VirtualPath) :
    (room : ℕ) → List Text → Callback (List (Text × FileInfo))
  | _, [] => pure []
  | room, entry :: entries => do
    let info ← childInfo P F path entry
    if F.entrySize entry ≤ room then do
      let added ← addEntries F path (room - F.entrySize entry) entries
      return (entry, info) :: added
    else return []

/-- A name comes after another, without regard to ASCII case. -/
def nameLt (a b : Text) : Bool := decide (compare (asciiLower b) (asciiLower a) = .gt)

/-- `read_directory`, into a buffer with the given room: the entries that it adds. -/
def readDirectory (U : LowerCase) (F : DirInfoFormat) (context : DlpFileHandle)
    (pattern marker : Option Text) (room : ℕ) : Callback (List (Text × FileInfo)) := do
  failIf (context.directory = false) Status.notSupported
  let pattern := pattern.getD ['*']
  let store ← stored getStore
  let entries ← stored (Act.ofExcept (store.readDirectory context.path))
  addEntries P F context.path room (entries.filter fun entry =>
    (marker.all fun marker => nameLt marker entry) && matchesPattern U pattern entry)

end Drive

end Wdlp
