import Wdlp.Drive.FileSystem
import Wdlp.Storage.NamesRun

/-!
# Runs of the drive

The operating system calls the callbacks one after the other. It knows the file contexts that the
drive has handed out by numbers, and gives a context up when it closes it. To the store, a callback
is a sequence of calls. Those that have to do with contents and information leave the names alone.

## Main definitions

* `Request`, `Operation` — the callbacks with their arguments.
* `Drive`, `Drive.step`, `Drive.run` — the drive, and what a callback makes of it.
* `Drive.Mounted` — a drive over a store that was just opened.
* `Serves`, `Drive.Makes` — a callback is a sequence of calls of a given kind; the calls of each.
* `KeepsNames` — a program leaves the names as they are.
* `Drive.Leaks` — an open callback fails after the store has opened a handle for it.

## Main results

* `Drive.step_calls` — every callback is a sequence of calls.
* `Drive.keepsNames_operate` — the operations that leave the names as they are.
* `Drive.openFile_wp`, `Drive.create_wp`, `Drive.close_wp`, `Drive.cleanup_wp`, `Drive.rename_wp` —
  what the other callbacks do to the names.
-/

namespace Wdlp

open CrashSafe Act

/-! ### Callbacks with their arguments -/

/-- The callbacks on a file context. -/
inductive Operation where
  | close
  | cleanup
  | flush
  | overwrite (allocationSize : UInt64)
  | getFileInfo
  | setBasicInfo
  | setFileSize (newSize : UInt64) (allocation : Bool)
  | read (length : ℕ) (offset : UInt64)
  | write (buffer : Bytes) (offset : UInt64) (writeToEof constrainedIo : Bool)
  | rename (newFileName : Text) (replace : Bool)
  | setDelete (deleteFile : Bool)
  | readDirectory (pattern marker : Option Text) (room : ℕ)

/-- The callbacks; `on` is a callback on the file context with the given number. -/
inductive Request where
  | getSecurityByName (fileName : Text)
  | flushVolume
  | openFile (fileName : Text)
  | create (fileName : Text) (createOptions attributes : UInt32)
      (extraBufferIsReparsePoint : Bool)
  | on (context : ℕ) (operation : Operation)

/-- What a callback answers. -/
inductive Reply where
  | done
  | attributes (value : UInt32)
  | opened (context : DlpFileHandle) (info : FileInfo)
  | closed
  | updated (context : DlpFileHandle)
  | info (info : FileInfo)
  | bytes (bytes : Bytes)
  | wrote (count : ℕ) (info : FileInfo)
  | entries (entries : List (Text × FileInfo))

namespace Drive

variable (P : Primitives) (U : LowerCase) (F : DirInfoFormat)

/-- The callback on a context. -/
def operate (context : DlpFileHandle) : Operation → Callback Reply
  | .close => do
    close P context
    return .closed
  | .cleanup => do
    cleanup P context
    return .done
  | .flush => return .info (← flush P (some context))
  | .overwrite allocationSize => return .info (← overwrite P context allocationSize)
  | .getFileInfo => return .info (← getFileInfo P context)
  | .setBasicInfo => return .info (← setBasicInfo P context)
  | .setFileSize newSize allocation => return .info (← setFileSize P context newSize allocation)
  | .read length offset => return .bytes (← read P context length offset)
  | .write buffer offset writeToEof constrainedIo => do
    let (count, info) ← write P context buffer offset writeToEof constrainedIo
    return .wrote count info
  | .rename newFileName replace => return .updated (← rename P context newFileName replace)
  | .setDelete deleteFile => return .updated (← setDelete context deleteFile)
  | .readDirectory pattern marker room =>
    return .entries (← readDirectory P U F context pattern marker room)

end Drive

/-! ### The drive -/

/-- The drive: the process with its store, and the file contexts that are open. -/
structure Drive where
  world : World
  contexts : Map ℕ DlpFileHandle
  nextContext : ℕ

namespace Drive

/-- The contexts after an answer to a callback on the context with the given number. -/
def contextsAfter (contexts : Map ℕ DlpFileHandle) (number : ℕ) : Reply → Map ℕ DlpFileHandle
  | .closed => contexts.erase number
  | .updated context => contexts.insert number context
  | _ => contexts

/-- The process has ended, and its contexts with it. -/
def stopped (d : Drive) (s : Sys) : Drive where
  world := ⟨s, .stopped⟩
  contexts := ∅
  nextContext := d.nextContext

/-- The drive after a callback on a context. -/
def afterOn (d : Drive) (number : ℕ) : Outcome Sys Status Reply → Drive
  | .ok reply s => { d with
      world := ⟨s, .opened⟩, contexts := contextsAfter d.contexts number reply }
  | .err _ s => { d with world := ⟨s, .opened⟩ }
  | .crash s => d.stopped s

/-- The drive after a callback that opens a context. -/
def afterOpen (d : Drive) : Outcome Sys Status (DlpFileHandle × FileInfo) → Drive
  | .ok (context, _) s =>
    { world := ⟨s, .opened⟩, contexts := d.contexts.insert d.nextContext context,
      nextContext := d.nextContext + 1 }
  | .err _ s => { d with world := ⟨s, .opened⟩ }
  | .crash s => d.stopped s

variable (P : Primitives) (U : LowerCase) (F : DirInfoFormat)

/-- One callback. The operating system uses open contexts only. -/
def step (d : Drive) (request : Request) : Drive :=
  if d.world.phase = .opened then
    match request with
    -- these two change nothing
    | .getSecurityByName _ | .flushVolume => d
    | .openFile fileName => d.afterOpen (openFile P fileName d.world.sys)
    | .create fileName createOptions attributes reparse =>
      d.afterOpen (create P fileName createOptions attributes reparse d.world.sys)
    | .on number operation =>
      match d.contexts[number]? with
      | none => d
      | some context => d.afterOn number (operate P U F context operation d.world.sys)
  else d

/-- The callbacks of a run. -/
def run (d : Drive) (requests : List Request) : Drive := requests.foldl (step P U F) d

/-- The drive of a process that has opened a store and served nothing yet. -/
def mount (w : World) : Drive := { world := w, contexts := ∅, nextContext := 0 }

/-- A drive over a store that was just opened. -/
def Mounted (keys : StoreId → StoreKey) (d : Drive) : Prop :=
  ∃ (w₀ : World) (inputs : List Input) (identity : CapturedStoreIdentity) (key : StoreKey),
    w₀.Fresh ∧ (∀ i ∈ inputs ++ [.openStore identity key], i.Keyed keys) ∧
      d = mount (w₀.run P (inputs ++ [.openStore identity key])) ∧ d.world.phase = .opened

section Step

variable {P U F} {d : Drive} {m : ℕ} {operation : Operation}

theorem step_stopped {request : Request} (h : d.world.phase ≠ .opened) :
    d.step P U F request = d := if_neg h

theorem step_openFile {fileName : Text} (h : d.world.phase = .opened) :
    d.step P U F (.openFile fileName) = d.afterOpen (openFile P fileName d.world.sys) := if_pos h

theorem step_create {fileName : Text} {createOptions attributes : UInt32} {reparse : Bool}
    (h : d.world.phase = .opened) :
    d.step P U F (.create fileName createOptions attributes reparse) =
      d.afterOpen (create P fileName createOptions attributes reparse d.world.sys) := if_pos h

theorem step_on {context : DlpFileHandle} (h : d.world.phase = .opened)
    (hcontext : d.contexts[m]? = some context) :
    d.step P U F (.on m operation) = d.afterOn m (operate P U F context operation d.world.sys) := by
  rw [step, if_pos h]
  simp only [hcontext]

theorem step_on_none (hcontext : d.contexts[m]? = none) : d.step P U F (.on m operation) = d := by
  by_cases h : d.world.phase = .opened
  · rw [step, if_pos h]
    simp only [hcontext]
  · exact step_stopped h

end Step

end Drive

/-! ### Callbacks as calls on the store -/

/-- The world after a callback. -/
def worldAfter {α : Type} : Outcome Sys Status α → World
  | .ok _ s => ⟨s, .opened⟩
  | .err _ s => ⟨s, .opened⟩
  | .crash s => ⟨s, .stopped⟩

/-- To the store, a callback is a sequence of calls of the given kind. -/
def Serves (P : Primitives) (C : Call → Prop) {α : Type} (p : Callback α) : Prop :=
  ∀ s, ∃ calls : List Call, (∀ call ∈ calls, C call) ∧
    World.run P ⟨s, .opened⟩ (calls.map .call) = worldAfter (p s)

section Serves

variable {P : Primitives} {C : Call → Prop} {α β : Type} {p : Callback α}

/-- A part of a callback that has no effect. -/
theorem serves_of_same (h : ∀ s, worldAfter (p s) = ⟨s, .opened⟩) : Serves P C p :=
  fun s => ⟨[], nofun, (h s).symm⟩

theorem serves_pure {a : α} : Serves P C (pure a : Callback α) := serves_of_same fun _ => rfl

variable {x : Except Status α}

theorem serves_ofExcept : Serves P C (Act.ofExcept x) :=
  serves_of_same fun _ => by cases x <;> rfl

theorem serves_failIf {c : Prop} [Decidable c] {e : Status} :
    Serves P C (failIf c e : Callback Unit) :=
  serves_of_same fun _ => by
    unfold failIf
    split_ifs <;> rfl

theorem serves_getStore : Serves P C (stored getStore) := serves_of_same fun _ => rfl

variable {f : α → Callback β}

theorem Serves.bind (hp : Serves P C p) (hf : ∀ a, Serves P C (f a)) : Serves P C (p >>= f) := by
  intro s
  obtain ⟨calls, hcalls, hrun⟩ := hp s
  cases hps : p s with
  | ok a t =>
    obtain ⟨later, hlater, hrun'⟩ := hf a t
    refine ⟨calls ++ later, fun call hcall => ?_, ?_⟩
    · exact (List.mem_append.mp hcall).elim (hcalls call) (hlater call)
    · rw [List.map_append, World.run_append, hrun, hps, bind_of_ok hps]
      exact hrun'
  | err e t => exact ⟨calls, hcalls, by rw [hrun, hps, bind_of_err hps]; rfl⟩
  | crash t => exact ⟨calls, hcalls, by rw [hrun, hps, bind_of_crash hps]; rfl⟩

theorem serves_bind_ofExcept
    (hf : ∀ a, x = .ok a → Serves P C (f a)) : Serves P C (Act.ofExcept x >>= f) := by
  cases x with
  | error e => exact serves_of_same fun _ => rfl
  | ok a => exact hf a rfl

theorem worldAfter_stored {p : Op α} {s : Sys} :
    worldAfter (stored p s) = World.after .opened (p s) := by
  rw [stored, zoom_apply, id_eq]
  cases p s <;> rfl

/-- An operation of the store is one call. -/
theorem serves_stored {p : Op Unit} (call : Call) (hcall : C call) (h : call.run P = p) :
    Serves P C (stored p) := by
  subst h
  exact fun s => ⟨[call], by simpa using hcall, worldAfter_stored.symm⟩

/-- An operation whose result the call leaves out. -/
theorem serves_reading {p : Op α} (call : Call) (hcall : C call)
    (h : call.run P = (do let _ ← p)) : Serves P C (stored p) := by
  intro s
  refine ⟨[call], by simpa using hcall, ?_⟩
  change World.after .opened (call.run P s) = _
  rw [h, worldAfter_stored]
  cases hp : p s with
  | ok a t => rw [bind_of_ok hp]; rfl
  | err e t => rw [bind_of_err hp]; rfl
  | crash t => rw [bind_of_crash hp]; rfl

theorem Serves.attempt (hp : Serves P C p) : Serves P C (Act.attempt p) := by
  intro s
  obtain ⟨calls, hcalls, hrun⟩ := hp s
  refine ⟨calls, hcalls, hrun.trans ?_⟩
  rw [Act.attempt]
  cases p s <;> rfl

end Serves

/-- The calls that only read. -/
def Call.Reads : Call → Prop
  | readHandle _ | readPath _ | entryMetadata _ => True
  | _ => False

/-- The calls on the content of the file of a handle, and those that only read. -/
def Call.OnContents (handle : Option FileHandle) : Call → Prop
  | writeHandle h _ _ | truncateHandle h _ | flushHandle h => handle = some h
  | readHandle _ | readPath _ | entryMetadata _ => True
  | _ => False

theorem Call.Reads.onContents {call : Call} {handle : Option FileHandle} (h : call.Reads) :
    call.OnContents handle := by
  cases call with
  | readHandle | readPath | entryMetadata => trivial
  | _ => exact h.elim

/-- The operations that have to do with contents and information only. -/
def Operation.KeepsNames : Operation → Prop
  | .close | .cleanup | .rename _ _ => False
  | _ => True

/-- The calls that a callback on a context can make. -/
def DlpFileHandle.Makes (context : DlpFileHandle) : Operation → Call → Prop
  | .close, call => ∃ handle, context.handle = some handle ∧ call = .closeHandle handle
  | .cleanup, call => ∃ path, call = .delete path
  | .rename _ replace, call => ∃ source destination, call = .rename source destination replace
  | _, call => call.OnContents context.handle

/-- The calls that a callback can make. -/
def Drive.Makes (d : Drive) : Request → Call → Prop
  | .getSecurityByName _, _ => False
  | .flushVolume, _ => False
  | .openFile _, call => call.Reads ∨ ∃ path, call = .createOrOpen path false true
  | .create _ _ _ _, call =>
    (∃ path, call = .createDirectory path) ∨ ∃ path, call = .createOrOpen path true true
  | .on m operation, call => ∃ context : DlpFileHandle, d.contexts[m]? = some context ∧
      context.Makes operation call

/-- The path of a context is an accepted one, or the root, which is not a file. -/
def DlpFileHandle.Named (context : DlpFileHandle) : Prop :=
  (∃ path : ParsedPath, context.path = path.1) ∨
    (context.path = VirtualPath.root ∧ context.handle = none)

namespace Drive

variable {P : Primitives} {U : LowerCase} {F : DirInfoFormat} {C : Call → Prop}
  {context : DlpFileHandle} {fileName : Text} {path : VirtualPath}

theorem virtualPath_eq_ok (h : virtualPath fileName = .ok (some path)) :
    ∃ p : ParsedPath, path = p.1 := by
  simp only [virtualPath] at h
  split_ifs at h
  · cases h
  · cases hparse : VirtualPath.parse (fileName.dropWhile isSeparator) with
    | ok p =>
      rw [hparse] at h
      cases h
      exact ⟨⟨path, _, hparse⟩, rfl⟩
    | error e =>
      rw [hparse] at h
      cases h

theorem namedPath_eq_ok (h : namedPath fileName = .ok path) : ∃ p : ParsedPath, path = p.1 := by
  obtain ⟨named, hnamed, h⟩ := except_bind_eq_ok.mp h
  cases named with
  | none => cases h
  | some found =>
    cases h
    exact virtualPath_eq_ok hnamed

theorem serves_fileInfoFor (hC : ∀ call : Call, call.Reads → C call)
    (hpath : path = VirtualPath.root ∨ ∃ p : ParsedPath, path = p.1) :
    Serves P C (fileInfoFor P path) := by
  refine (serves_reading (.entryMetadata path) (hC _ trivial) rfl).bind fun _ => ?_
  refine serves_getStore.bind fun store => ?_
  split_ifs with hdir
  · exact serves_pure
  · rcases hpath with rfl | ⟨p, rfl⟩
    · exact absurd rfl hdir
    · exact (serves_reading (.readPath p) (hC _ trivial) rfl).bind fun _ => serves_pure

theorem serves_openFile : Serves P (fun call => call.Reads ∨
    ∃ path, call = .createOrOpen path false true) (openFile P fileName) := by
  refine serves_bind_ofExcept fun named hnamed => serves_getStore.bind fun store => ?_
  split_ifs with hdir
  · exact serves_pure
  · cases named with
    | none => exact absurd rfl hdir
    | some found =>
      obtain ⟨p, rfl⟩ := virtualPath_eq_ok hnamed
      refine (serves_reading (.createOrOpen p false true) (.inr ⟨p, rfl⟩) rfl).bind fun _ => ?_
      exact (serves_fileInfoFor (fun _ => .inl) (.inr ⟨p, rfl⟩)).bind fun _ => serves_pure

theorem serves_create {createOptions attributes : UInt32} {reparse : Bool} :
    Serves P (fun call => (∃ path, call = .createDirectory path) ∨
      ∃ path, call = .createOrOpen path true true)
      (create P fileName createOptions attributes reparse) := by
  refine serves_failIf.bind fun _ => serves_bind_ofExcept fun found hfound => ?_
  obtain ⟨p, rfl⟩ := namedPath_eq_ok hfound
  split_ifs
  · exact (serves_stored (.createDirectory p) (.inl ⟨p, rfl⟩) rfl).bind fun _ => serves_pure
  · exact (serves_reading (.createOrOpen p true true) (.inr ⟨p, rfl⟩) rfl).bind fun _ =>
      serves_pure

theorem serves_close : Serves P (context.Makes .close) (close P context) := by
  unfold close
  cases hhandle : context.handle with
  | none => exact serves_pure
  | some handle =>
    have hclose : Serves P (context.Makes .close) (stored (closeHandle P handle)) :=
      serves_stored (.closeHandle handle) ⟨handle, hhandle, rfl⟩ rfl
    exact hclose.attempt.bind fun _ => serves_pure

theorem serves_cleanup (hnamed : context.Named) :
    Serves P (context.Makes .cleanup) (cleanup P context) := by
  unfold cleanup
  split_ifs
  · refine Serves.bind (Serves.attempt ?_) fun _ => serves_pure
    rcases hnamed with ⟨p, hpath⟩ | ⟨hroot, -⟩
    · rw [hpath]
      exact serves_stored (.delete p) ⟨p, rfl⟩ rfl
    · rw [hroot]
      exact serves_of_same fun _ => rfl
  · exact serves_pure

/-- The root is not renamed. -/
theorem rename_root_wp {s : Sys} {destination : VirtualPath} {replace : Bool} :
    (Wdlp.rename P VirtualPath.root destination replace).wp (fun _ _ => False) (fun _ t => t = s)
      (fun _ => False) s := by
  refine wp_bind_of_ok rfl ((wp_bind _ _).mpr ((wp_ofExcept _).mpr ?_))
  cases s.store.requireParent destination with
  | error e => rfl
  | ok _ =>
    refine wp_ite.mpr ⟨fun _ => ?_, fun hfile => absurd rfl hfile⟩
    exact wp_bind_failIf (fun _ => rfl) fun hroot => absurd (.inl rfl) hroot

theorem serves_rename (hnamed : context.Named) {replace : Bool} :
    Serves P (context.Makes (.rename fileName replace)) (rename P context fileName replace) := by
  refine serves_bind_ofExcept fun found hfound => Serves.bind ?_ fun _ => serves_pure
  obtain ⟨destination, rfl⟩ := namedPath_eq_ok hfound
  rcases hnamed with ⟨source, hpath⟩ | ⟨hroot, -⟩
  · rw [hpath]
    exact serves_stored (.rename source destination replace) ⟨source, destination, rfl⟩ rfl
  · refine serves_of_same fun s => ?_
    have hw := @rename_root_wp P s destination.1 replace
    rw [hroot, stored, zoom_apply, id_eq]
    unfold Act.wp at hw
    cases hrun : Wdlp.rename P VirtualPath.root destination.1 replace s with
    | ok _ t =>
      rw [hrun] at hw
      exact hw.elim
    | err e t =>
      rw [hrun] at hw
      rw [show t = s from hw]
      rfl
    | crash t =>
      rw [hrun] at hw
      exact hw.elim

section Contents

theorem serves_readHandle {handle : FileHandle} :
    Serves P (Call.OnContents context.handle) (stored (readHandle P handle)) :=
  serves_reading (.readHandle handle) trivial rfl

theorem serves_flushHandle {handle : FileHandle} (h : context.handle = some handle) :
    Serves P (Call.OnContents context.handle) (stored (flushHandle P handle)) :=
  serves_stored (.flushHandle handle) h rfl

theorem serves_bind_fileHandle {α : Type} {f : FileHandle → Callback α}
    (hf : ∀ handle, context.handle = some handle → Serves P C (f handle)) :
    Serves P C (fileHandle context >>= f) := by
  unfold fileHandle
  cases hhandle : context.handle with
  | none => exact serves_of_same fun _ => rfl
  | some handle => exact hf handle hhandle

theorem serves_fileInfoForHandle :
    Serves P (Call.OnContents context.handle) (fileInfoForHandle P context) := by
  refine (serves_reading (.entryMetadata context.path) trivial rfl).bind fun _ => ?_
  split_ifs
  · exact serves_pure
  · exact serves_bind_fileHandle fun _ _ => serves_readHandle.bind fun _ => serves_pure

/-- Truncating a file and committing it. -/
theorem serves_resize {handle : FileHandle} (h : context.handle = some handle) {size : UInt64}
    {α : Type} {rest : Callback α} (hrest : Serves P (Call.OnContents context.handle) rest) :
    Serves P (Call.OnContents context.handle) (do
      stored (truncateHandle P handle size)
      stored (flushHandle P handle)
      rest) :=
  (serves_stored (.truncateHandle handle size) h rfl).bind fun _ =>
    (serves_flushHandle h).bind fun _ => hrest

theorem serves_write {buffer : Bytes} {offset : UInt64} {eof constrained : Bool} : Serves
    P (Call.OnContents context.handle) (write P context buffer offset eof constrained) := by
  refine serves_bind_fileHandle fun handle hhandle => Serves.bind ?_ fun start => ?_
  · cases eof with
    | true => exact serves_readHandle.bind fun _ => serves_pure
    | false => exact serves_pure
  · refine serves_failIf.bind fun _ => ?_
    refine (serves_stored (.writeHandle handle (.ofNat start) buffer) hhandle rfl).bind
      fun _ => (serves_flushHandle hhandle).bind fun _ => serves_readHandle.bind fun _ => ?_
    exact serves_failIf.bind fun _ => serves_pure

theorem serves_childInfo (hC : ∀ call : Call, call.Reads → C call) {entry : Text} :
    Serves P C (childInfo P F path entry) := by
  refine serves_ofExcept.bind fun _ => serves_bind_ofExcept fun child hchild => ?_
  have hparse := except_mapError_eq_ok.mp hchild
  exact serves_fileInfoFor hC (.inr ⟨⟨child, _, hparse⟩, rfl⟩)

theorem serves_addEntries : (entries : List Text) → (room : ℕ) →
    Serves P (Call.OnContents context.handle) (addEntries P F path room entries)
  | [], _ => serves_pure
  | _ :: entries, room => by
    refine (serves_childInfo fun _ => Call.Reads.onContents).bind fun _ => ?_
    split_ifs
    · exact (serves_addEntries entries _).bind fun _ => serves_pure
    · exact serves_pure

theorem serves_readDirectory {pattern marker : Option Text} {room : ℕ} : Serves
    P (Call.OnContents context.handle) (readDirectory P U F context pattern marker room) := by
  refine serves_failIf.bind fun _ => serves_getStore.bind fun store => Serves.bind ?_ fun _ => ?_
  · exact serves_of_same fun _ => by cases store.readDirectory context.path <;> rfl
  · exact serves_addEntries _ _

theorem serves_setDelete {deleteFile : Bool} :
    Serves P (Call.OnContents context.handle) (setDelete context deleteFile) := by
  unfold setDelete
  split_ifs
  · refine serves_getStore.bind fun store => Serves.bind ?_ fun _ => serves_pure
    exact serves_of_same fun _ => by cases store.ensureDeleteAllowed context.path <;> rfl
  · exact serves_pure

theorem serves_flush : Serves P (Call.OnContents context.handle) (flush P (some context)) := by
  simp only [flush]
  split
  · exact serves_pure
  · next hhandle =>
    exact (serves_flushHandle hhandle).bind fun _ => serves_readHandle.bind fun _ => serves_pure

end Contents

theorem serves_operate (hnamed : context.Named) (operation : Operation) :
    Serves P (context.Makes operation) (operate P U F context operation) := by
  cases operation with
  | close => exact serves_close.bind fun _ => serves_pure
  | cleanup => exact (serves_cleanup hnamed).bind fun _ => serves_pure
  | rename => exact (serves_rename hnamed).bind fun _ => serves_pure
  | flush => exact serves_flush.bind fun _ => serves_pure
  | overwrite =>
    refine Serves.bind (serves_bind_fileHandle fun _ h => ?_) fun _ => serves_pure
    exact serves_resize h serves_fileInfoForHandle
  | getFileInfo => exact serves_fileInfoForHandle.bind fun _ => serves_pure
  | setBasicInfo => exact serves_fileInfoForHandle.bind fun _ => serves_pure
  | setFileSize =>
    refine Serves.bind (serves_bind_fileHandle fun _ h => ?_) fun _ => serves_pure
    exact serves_resize h serves_pure
  | read =>
    refine Serves.bind (serves_bind_fileHandle fun _ _ => ?_) fun _ => serves_pure
    exact serves_readHandle.bind fun _ => serves_failIf.bind fun _ => serves_pure
  | write => exact serves_write.bind fun _ => serves_pure
  | setDelete => exact serves_setDelete.bind fun _ => serves_pure
  | readDirectory => exact serves_readDirectory.bind fun _ => serves_pure

/-- To the store, a callback is a sequence of calls. -/
theorem step_calls {d : Drive}
    (hnamed : ∀ (m : ℕ) (context : DlpFileHandle), d.contexts[m]? = some context → context.Named)
    (request : Request) : ∃ calls : List Call, (∀ call ∈ calls, d.Makes request call) ∧
    d.world.run P (calls.map .call) = (d.step P U F request).world := by
  by_cases hopened : d.world.phase = .opened
  · have hworld : d.world = ⟨d.world.sys, .opened⟩ := by rw [← hopened]
    rw [hworld]
    cases request with
    | getSecurityByName fileName => exact ⟨[], nofun, by rw [step, if_pos hopened, hworld]; rfl⟩
    | flushVolume => exact ⟨[], nofun, by rw [step, if_pos hopened, hworld]; rfl⟩
    | openFile fileName =>
      rw [step_openFile hopened]
      obtain ⟨calls, hcalls, hrun⟩ := @serves_openFile P fileName d.world.sys
      refine ⟨calls, hcalls, hrun.trans ?_⟩
      cases openFile P fileName d.world.sys <;> rfl
    | create fileName createOptions attributes reparse =>
      rw [step_create hopened]
      obtain ⟨calls, hcalls, hrun⟩ := @serves_create P fileName createOptions attributes reparse
        d.world.sys
      refine ⟨calls, hcalls, hrun.trans ?_⟩
      cases create P fileName createOptions attributes reparse d.world.sys <;> rfl
    | on m operation =>
      cases hcontext : d.contexts[m]? with
      | none => exact ⟨[], nofun, by rw [step_on_none hcontext, hworld]; rfl⟩
      | some context =>
        rw [step_on hopened hcontext]
        obtain ⟨calls, hcalls, hrun⟩ := @serves_operate P U F context (hnamed m context hcontext)
          operation d.world.sys
        refine ⟨calls, fun call hcall => ⟨context, hcontext, hcalls call hcall⟩, hrun.trans ?_⟩
        cases operate P U F context operation d.world.sys <;> rfl
  · exact ⟨[], nofun, by rw [step_stopped hopened]; rfl⟩

end Drive

/-! ### Names -/

section KeepsNames

variable {P : Primitives} {C : Call → Prop} {ε α : Type}

/-- The program leaves the names as they are, however it ends. -/
def KeepsNames (p : Act Sys ε α) : Prop := ∀ n : Names, Act.Keeps (fun s => s.view.names = n) p

theorem KeepsView.keepsNames {p : Op α} (hp : KeepsView p) : KeepsNames p := by
  rintro _ s rfl
  exact wp_mono (hp s.view s rfl) (fun _ t ht => ⟨congrArg View.names ht.1, trivial⟩)
    (fun _ t ht => congrArg View.names ht) (fun t ht => congrArg View.names ht)

/-- Persisting the namespace changes none of the names. -/
theorem keepsNames_persistNamespace : KeepsNames (persistNamespace P) := by
  rintro _ s rfl
  have hkeeps : PersistKeeps (fun c => c.view.names = s.view.names ∧
      c.store.storeId = s.store.storeId ∧ c.store.key = s.store.key) s.store.storeId s.store.key :=
    ⟨fun _ hc => hc.2, fun _ _ _ _ _ _ hc => hc, fun _ _ _ hc _ => hc, fun _ _ _ hc _ _ => hc,
      fun _ _ hc => hc⟩
  exact wp_mono (hkeeps.keeps_persistNamespace s ⟨rfl, rfl, rfl⟩)
    (fun _ t ht => ⟨ht.1.1, trivial⟩) (fun _ t ht => ht.1) fun t ht => ht.1

theorem keepsNames_flushHandle {handle : FileHandle} : KeepsNames (flushHandle P handle) := by
  intro n
  refine .bind (keepsView_getStore.keepsNames n) fun store _ => ?_
  refine .bind .ofExcept fun file _ => .ite (fun _ => ?_) fun _ =>
    keepsNames_persistNamespace n
  exact .bind (keepsView_flushStaged.keepsNames n) fun _ _ =>
    keepsNames_persistNamespace n

theorem Call.OnContents.keepsNames {call : Call} {handle : Option FileHandle}
    (h : call.OnContents handle) : KeepsNames (call.run P) := by
  cases call with
  | writeHandle => exact keepsView_writeHandle.keepsNames
  | truncateHandle => exact keepsView_truncateHandle.keepsNames
  | flushHandle => exact keepsNames_flushHandle
  | readHandle => exact keepsView_readHandle.ignore.keepsNames
  | readPath => exact keepsView_readPath.ignore.keepsNames
  | entryMetadata => exact keepsView_entryMetadata.ignore.keepsNames
  | _ => exact h.elim

/-- A callback whose calls leave the names as they are leaves them as they are. -/
theorem Serves.keepsNames {p : Callback α} (hp : Serves P C p)
    (hC : ∀ call, C call → KeepsNames (call.run P)) : KeepsNames p := by
  rintro _ s rfl
  obtain ⟨calls, hcalls, hrun⟩ := hp s
  have hnames : (World.run P ⟨s, .opened⟩ (calls.map .call)).sys.view.names = s.view.names := by
    refine World.run_induction (A := fun i => ∃ call, i = .call call ∧ C call)
      (I := fun w => w.sys.view.names = s.view.names) ?_ _ (fun i hi => ?_) rfl
    · rintro w _ ⟨call, rfl, hcall⟩ hw
      rw [World.step]
      split_ifs
      · have hkept := hC call hcall s.view.names w.sys hw
        cases hcalled : call.run P w.sys with
        | ok _ t => exact (ok_of_wp hkept hcalled).1
        | err _ t => exact err_of_wp hkept hcalled
        | crash t => exact crash_of_wp hkept hcalled
      · exact hw
    · obtain ⟨call, hcall, rfl⟩ := List.mem_map.mp hi
      exact ⟨call, rfl, hcalls call hcall⟩
  rw [hrun] at hnames
  unfold Act.wp
  cases hps : p s with
  | ok _ t => exact ⟨by rwa [hps] at hnames, trivial⟩
  | err _ t => rwa [hps] at hnames
  | crash t => rwa [hps] at hnames

namespace Drive

variable {U : LowerCase} {F : DirInfoFormat} {context : DlpFileHandle}

theorem keepsNames_fileInfoFor {path : ParsedPath} : Wdlp.KeepsNames (fileInfoFor P path.1) :=
  (serves_fileInfoFor (fun _ => Call.Reads.onContents) (.inr ⟨path, rfl⟩)).keepsNames
    fun _ (h : Call.OnContents none _) => h.keepsNames

theorem keepsNames_childInfo {path : VirtualPath} {entry : Text} :
    Wdlp.KeepsNames (childInfo P F path entry) :=
  (serves_childInfo fun _ => Call.Reads.onContents).keepsNames
    fun _ (h : Call.OnContents none _) => h.keepsNames

theorem keepsNames_operate {operation : Operation} (hnamed : context.Named)
    (h : operation.KeepsNames) : Wdlp.KeepsNames (operate P U F context operation) := by
  refine (serves_operate hnamed operation).keepsNames fun call hcall => ?_
  have hcontents : call.OnContents context.handle := by
    cases operation with
    | close | cleanup | rename => exact h.elim
    | _ => exact hcall
  exact hcontents.keepsNames

end Drive

end KeepsNames

/-! ### Contexts and names -/

namespace Drive

variable {P : Primitives} {context : DlpFileHandle} {fileName : Text} {s : Sys}

/-- An open callback fails after the store has opened a handle for it. -/
def Leaks (P : Primitives) (fileName : Text) (s : Sys) : Prop :=
  ∃ path handle u e t, virtualPath fileName = .ok (some path) ∧ s.store.isDirectory path = false ∧
    createOrOpen P path false true s = .ok handle u ∧ fileInfoFor P path u = .err e t

/-- A handle was opened for a context, or for none. -/
def HandleOpened (P : Primitives) (s : Sys) (path : ParsedPath) (names : Names) : Prop :=
  ∃ v, View.Opened P s.view path true v ∧ names = v.names

theorem openFile_wp (hP : P.Correct) :
    (openFile P fileName).wp
      (fun r t => (r.1.Named ∧ r.1.handle = none ∧ t.view.names = s.view.names) ∨
        ∃ path : ParsedPath, r.1 = .ofFile path.1 ⟨s.view.names.nextHandle⟩ ∧
          HandleOpened P s path t.view.names)
      (fun _ t => (¬Leaks P fileName s ∧ t.view.names = s.view.names) ∨
        (Leaks P fileName s ∧ ∃ path : ParsedPath, HandleOpened P s path t.view.names))
      (fun _ => True) s := by
  refine (wp_bind _ _).mpr ((wp_ofExcept _).mpr ?_)
  cases hpath : virtualPath fileName with
  | error e =>
    refine .inl ⟨?_, rfl⟩
    rintro ⟨path, -, -, -, -, hok, -⟩
    cases hpath.symm.trans hok
  | ok named =>
    refine wp_bind_of_ok (show stored getStore s = .ok s.store s from rfl) ?_
    refine wp_ite.mpr ⟨fun hdir => .inl ⟨?_, rfl, rfl⟩, fun hfile => ?_⟩
    · cases named with
      | none => exact .inr ⟨rfl, rfl⟩
      | some path => exact .inl (virtualPath_eq_ok hpath)
    cases named with
    | none => exact absurd rfl hfile
    | some found =>
      obtain ⟨path, rfl⟩ := virtualPath_eq_ok hpath
      refine (wp_bind _ _).mpr ((wp_zoom _).mpr ?_)
      have hopen := @createOrOpen_wp P (fun _ _ => True) s path hP (fun _ _ => trivial) false true
      refine wp_mono (wp_eq hopen) (fun handle u hu => ?_) (fun e t ht => ?_) (fun _ _ => trivial)
      · obtain ⟨hrun, hnumber, hopened⟩ := hu
        have hinfo : Act.Keeps (fun t : Sys => t.view.names = u.view.names)
            (fileInfoFor P path.1) := keepsNames_fileInfoFor _
        refine (wp_bind _ _).mpr (wp_mono (wp_eq (hinfo u rfl)) (fun info t ht => ?_)
          (fun e t ht => ?_) (fun _ _ => trivial))
        · exact .inr ⟨path, congrArg (DlpFileHandle.ofFile path.1 ⟨·⟩) hnumber, u.view, hopened,
            ht.2.1⟩
        · exact .inr ⟨⟨path.1, handle, u, e, t, hpath, Bool.eq_false_of_not_eq_true hfile, hrun,
            ht.1⟩, path, u.view, hopened, ht.2⟩
      · refine .inl ⟨?_, ht.2.names_eq⟩
        rintro ⟨other, handle, u, e', t', hother, -, hok, -⟩
        cases hpath.symm.trans hother
        cases ht.1.symm.trans hok

theorem create_wp (hP : P.Correct) {createOptions attributes : UInt32} {reparse : Bool} :
    (create P fileName createOptions attributes reparse).wp
      (fun r t => (∃ path : ParsedPath, r.1 = .ofDirectory path.1 ∧
          View.Committed P s.view (.makeDirectory path) t.view) ∨
        ∃ path : ParsedPath, r.1 = .ofFile path.1 ⟨s.view.names.nextHandle⟩ ∧
          HandleOpened P s path t.view.names)
      (fun _ t => t.view.names = s.view.names) (fun _ => True) s := by
  refine wp_bind_failIf (fun _ => rfl) fun _ => ?_
  refine (wp_bind _ _).mpr ((wp_ofExcept _).mpr ?_)
  cases hpath : namedPath fileName with
  | error e => rfl
  | ok found =>
    obtain ⟨path, rfl⟩ := namedPath_eq_ok hpath
    refine wp_ite.mpr ⟨fun _ => ?_, fun _ => ?_⟩
    · have hmade := @createDirectory_wp P (fun _ _ => True) s path hP trivial
      refine (wp_bind _ _).mpr ((wp_zoom _).mpr (wp_mono hmade (fun _ t ht => ?_)
        (fun _ t ht => ht.names_eq) (fun _ _ => trivial)))
      exact .inl ⟨path, rfl, ht⟩
    · have hopen := @createOrOpen_wp P (fun _ _ => True) s path hP (fun _ _ => trivial) true true
      refine (wp_bind _ _).mpr ((wp_zoom _).mpr (wp_mono hopen (fun handle t ht => ?_)
        (fun _ t ht => ht.names_eq) (fun _ _ => trivial)))
      exact .inr ⟨path, congrArg (DlpFileHandle.ofFile path.1 ⟨·⟩) ht.1, t.view, ht.2, rfl⟩

/-- However closing its handle ends, a context is closed. -/
theorem close_wp (hP : P.Correct) :
    (close P context).wp
      (fun _ t => (context.handle = none ∧ t.view.names = s.view.names) ∨
        ∃ handle, context.handle = some handle ∧
          (View.Closed P s.view handle.number t.view ∨
            View.ClosedInPart P (fun _ _ => True) s.view handle.number t.view))
      (fun _ _ => False) (fun _ => True) s := by
  unfold close
  cases context.handle with
  | none => exact .inl ⟨rfl, rfl⟩
  | some handle =>
    have hclose := @closeHandle_wp P (fun _ _ => True) s handle hP trivial fun _ _ => trivial
    refine (wp_bind _ _).mpr ((wp_attempt _).mpr ((wp_zoom _).mpr ?_))
    exact wp_mono hclose (fun _ t ht => .inr ⟨handle, rfl, .inl ht⟩)
      (fun _ t ht => .inr ⟨handle, rfl, .inr ht⟩) (fun _ _ => trivial)

theorem cleanup_wp (hP : P.Correct) (hnamed : context.Named) :
    (cleanup P context).wp
      (fun _ t => t.view.names = s.view.names ∨ (context.deleteRequested = true ∧
        ∃ path : ParsedPath, context.path = path.1 ∧
          View.Deleted P s.view path.1.lookupKey t.view))
      (fun _ _ => False) (fun _ => True) s := by
  refine wp_ite.mpr ⟨fun hrequested => ?_, fun _ => .inl rfl⟩
  refine (wp_bind _ _).mpr ((wp_attempt _).mpr ((wp_zoom _).mpr ?_))
  rcases hnamed with ⟨path, hpath⟩ | ⟨hroot, -⟩
  · have hdelete := @delete_wp P (fun _ _ => True) s path hP fun _ _ => trivial
    rw [hpath]
    exact wp_mono hdelete (fun _ t ht => .inr ⟨hrequested, path, rfl, ht⟩)
      (fun _ t ht => .inl ht.names_eq) (fun _ _ => trivial)
  · rw [hroot]
    exact .inl rfl

theorem rename_wp (hP : P.Correct) (hnamed : context.Named) (hwf : s.view.names.WellFormed)
    {replace : Bool} :
    (rename P context fileName replace).wp
      (fun r t => ∃ source destination : ParsedPath, context.path = source.1 ∧
        r = { context with path := destination.1 } ∧
          Renamed P s source destination replace t.view)
      (fun _ t => t.view.names = s.view.names ∨ ∃ source destination : ParsedPath,
        context.path = source.1 ∧
          RenamedInPart P (fun _ _ => True) s source destination replace t.view)
      (fun _ => True) s := by
  refine (wp_bind _ _).mpr ((wp_ofExcept _).mpr ?_)
  cases hpath : namedPath fileName with
  | error e => exact .inl rfl
  | ok found =>
    obtain ⟨destination, rfl⟩ := namedPath_eq_ok hpath
    refine (wp_bind _ _).mpr ((wp_zoom _).mpr ?_)
    rcases hnamed with ⟨source, hsource⟩ | ⟨hroot, -⟩
    · have hA : View.MayRename P (fun _ _ => True) s.view source.1.lookupKey destination :=
        ⟨fun _ _ => trivial, fun _ _ => trivial⟩
      have hrename := @Wdlp.rename_wp P (fun _ _ => True) s source destination replace hP hA hwf
      rw [hsource]
      exact wp_mono hrename (fun _ t ht => ⟨source, destination, rfl, rfl, ht⟩)
        (fun _ t ht => .inr ⟨source, destination, rfl, ht⟩) (fun _ _ => trivial)
    · rw [hroot]
      exact wp_mono rename_root_wp (fun _ _ => False.elim)
        (fun _ t ht => .inl (congrArg (fun u : Sys => u.view.names) ht)) (fun _ => False.elim)

end Drive

end Wdlp
