import Wdlp.Storage.Progress
import Wdlp.Storage.NamespaceRecord

/-!
# The content of a file

A file is a plain byte array: writes replace bytes and truncations resize, with zeros where nothing
was written. What a store holds for a file is what was committed for it and what is staged; this
module says what each call does to it, in one process and on a disk where nothing goes wrong.

## Main definitions

* `FileCall`, `FileCall.apply` — the calls on an open file, and what they do to a byte array.
* `Content`, `Held` — what a store holds for a file.
* `Store.recordBound` — a bound on the record of a namespace, whatever the times of its entries.

## Main results

* `length_namespaceBytes_le` — the bound is one.
* `Held.writeHandle_wp`, `Held.truncateHandle_wp`, `Held.flushHandle_wp` — the calls.
* `Held.readHandle_eq`, `Held.readPath_eq` — what is read.
-/

namespace Wdlp

open CrashSafe Act

variable {P : Primitives} {key : StoreKey} {store : StoreId} {file : FileId}
  {generation : UInt64} {data : Bytes} {s t : Sys}

/-! ### Byte arrays -/

/-- The array with the given bytes from an offset on. What lies before it and was not there is
zero. -/
def writeArray (data : Bytes) (offset : ℕ) (bytes : Bytes) : Bytes :=
  (List.range (max data.length (offset + bytes.length))).map fun i =>
    if offset ≤ i ∧ i < offset + bytes.length then bytes.getD (i - offset) 0 else data.getD i 0

/-- The array with the given length. What is new is zero. -/
def resizeArray (data : Bytes) (length : ℕ) : Bytes := (List.range length).map (data.getD · 0)

theorem resize_eq_resizeArray (length : ℕ) : resize data length = resizeArray data length := by
  refine List.ext_getElem (by simp [resizeArray]) fun i hi hi' => ?_
  have hlt : i < length := by simpa using hi
  rw [← List.getD_eq_getElem _ 0 hi, getD_resize, if_pos hlt]
  simp [resizeArray]

theorem overwrite_eq_writeArray (offset : ℕ) (bytes : Bytes) :
    overwrite (if offset + bytes.length > data.length then resize data (offset + bytes.length)
      else data) offset bytes = writeArray data offset bytes := by
  generalize hentry : (if offset + bytes.length > data.length then
    resize data (offset + bytes.length) else data) = entry
  have hlength : entry.length = max data.length (offset + bytes.length) := by
    rw [← hentry]
    split
    · rw [length_resize]
      omega
    · omega
  have hget : ∀ i, i < entry.length → entry.getD i 0 = data.getD i 0 := by
    intro i hi
    rw [← hentry]
    split
    · next hlong =>
      rw [getD_resize, if_pos]
      omega
    · rfl
  have hfits : offset + bytes.length ≤ entry.length := by omega
  refine List.ext_getElem ?_ fun i hi hi' => ?_
  · rw [length_overwrite _ _ _ hfits, hlength]
    simp [writeArray]
  · have hlt : i < entry.length := by rwa [length_overwrite _ _ _ hfits] at hi
    rw [← List.getD_eq_getElem _ 0 hi, getD_overwrite _ _ _ _ hfits, hget i hlt]
    simp [writeArray]

/-! ### Calls -/

/-- The calls that change what a file holds, on a handle of the file. -/
inductive FileCall where
  | write (handle : FileHandle) (offset : UInt64) (bytes : Bytes)
  | truncate (handle : FileHandle) (length : UInt64)
  | flush (handle : FileHandle)

namespace FileCall

def handle : FileCall → FileHandle
  | write handle _ _ => handle
  | truncate handle _ => handle
  | flush handle => handle

/-- The operation of the store. -/
def run (P : Primitives) : FileCall → Op Unit
  | write handle offset bytes => writeHandle P handle offset bytes
  | truncate handle length => truncateHandle P handle length
  | flush handle => flushHandle P handle

/-- What a call does to the byte array. A write that would end beyond the address space fails. -/
def apply (data : Bytes) : FileCall → Bytes
  | write _ offset bytes =>
    if offset.toNat + bytes.length < 2 ^ 64 then writeArray data offset.toNat bytes else data
  | truncate _ length => resizeArray data length.toNat
  | flush _ => data

/-- The call is a write or a truncation. -/
def isEdit : FileCall → Bool
  | write _ _ _ => true
  | truncate _ _ => true
  | flush _ => false

end FileCall

/-- The state after calls, whether they succeed or not. -/
def Sys.after (P : Primitives) (s : Sys) (calls : List FileCall) : Sys :=
  calls.foldl (fun s call => (call.run P s).state) s

/-- None of the calls is a flush that succeeds. -/
def Unflushed (P : Primitives) : Sys → List FileCall → Prop
  | _, [] => True
  | s, call :: calls => (∀ handle, call = .flush handle → (call.run P s).result? ≠ some (.ok ())) ∧
      Unflushed P (call.run P s).state calls

/-! ### The room of the namespace -/

/-- A bound on the line of a directory: its kind, six tabs, four times and the end of the line, and
its names. -/
def directoryBound (entry : Text × Text) : ℕ :=
  88 + (utf8 entry.1).length + (utf8 entry.2).length

/-- A bound on the line of a file. -/
def fileBound (entry : Text × FileName) : ℕ :=
  89 + (utf8 entry.1).length + (utf8 entry.2.fileId.toWire).length + (utf8 entry.2.display).length

/-- A bound on the plaintext of the namespace, which does not depend on the times of the entries. -/
def Store.recordBound (store : Store) : ℕ :=
  17 + ((store.directories.map fun _ entry => entry.display).toList.map directoryBound).sum +
    ((store.files.map fun _ entry => entry.name).toList.map fileBound).sum

/-- The namespace fits in one record, whatever the times of its entries. -/
def Store.Roomy (store : Store) : Prop := store.recordBound + 16 ≤ maxCiphertext

instance (store : Store) : Decidable store.Roomy := inferInstanceAs (Decidable (_ ≤ _))

theorem digits_le (m : EntryMetadata) : m.digits ≤ 80 := by
  have h₁ := length_decimal_le m.creationTime
  have h₂ := length_decimal_le m.lastAccessTime
  have h₃ := length_decimal_le m.lastWriteTime
  have h₄ := length_decimal_le m.changeTime
  unfold EntryMetadata.digits
  omega

theorem directoryLength_le (key : Text) (entry : DirectoryEntry) :
    directoryLength key entry ≤ directoryBound (key, entry.display) := by
  have htimes := digits_le entry.metadata
  simp only [directoryLength, directoryBound]
  omega

theorem visibleLength_le (key : Text) (entry : FileEntry) :
    visibleLength key entry ≤ fileBound (key, entry.name) := by
  have htimes := digits_le entry.metadata
  unfold visibleLength
  split
  · exact Nat.zero_le _
  · simp only [fileLength, fileBound, FileEntry.name]
    omega

/-- The bound is one. -/
theorem length_namespaceBytes_le (st : Store) : st.namespaceBytes.length ≤ st.recordBound := by
  rw [Store.namespaceBytes, length_namespaceText, Store.recordBound, Std.ExtTreeMap.toList_map,
    Std.ExtTreeMap.toList_map, List.map_map, List.map_map]
  refine Nat.add_le_add (Nat.add_le_add_left (List.sum_le_sum fun entry _ => ?_) 17)
    (List.sum_le_sum fun entry _ => ?_)
  · exact directoryLength_le entry.1 entry.2
  · exact visibleLength_le entry.1 entry.2

/-- The bound depends on the names only. -/
theorem recordBound_congr {a b : Store} (h : a.names 0 = b.names 0) :
    a.recordBound = b.recordBound := by
  have hdirectories : (a.directories.map fun _ entry => entry.display) =
      b.directories.map fun _ entry => entry.display := by
    refine Std.ExtTreeMap.ext_getElem? fun q => ?_
    rw [Std.ExtTreeMap.getElem?_map, Std.ExtTreeMap.getElem?_map]
    exact congrFun (congrArg Names.directories h) q
  have hfiles : (a.files.map fun _ entry => entry.name) =
      b.files.map fun _ entry => entry.name := by
    refine Std.ExtTreeMap.ext_getElem? fun q => ?_
    rw [Std.ExtTreeMap.getElem?_map, Std.ExtTreeMap.getElem?_map]
    exact congrFun (congrArg Names.files h) q
  rw [Store.recordBound, Store.recordBound, hdirectories, hfiles]

/-! ### What a store holds -/

/-- What was committed for a file, and what is staged for it. -/
structure Content where
  committed : Option Bytes
  staged : Option Bytes

namespace Content

/-- The byte array: what is staged, or else what was committed. -/
def current (c : Content) : Bytes := c.staged.getD (c.committed.getD [])

/-- The content after the array was replaced. -/
def edited (c : Content) (data : Bytes) : Content := { c with staged := some data }

/-- The content after a flush that has returned. -/
def flushed (c : Content) : Content := ⟨c.staged <|> c.committed, none⟩

end Content

/-- What the disk holds for a file: no pointer, or a pointer to a generation that was drawn before
the given one. -/
inductive OnDisk (P : Primitives) (key : StoreKey) (store : StoreId) (file : FileId)
    (next : UInt64) (fs : Fs) : Option Bytes → Prop
  | absent (selected : fs[selectedPath store file]? = none) : OnDisk P key store file next fs none
  | committed {R : GenerationRecords} {generation : UInt64} {data : Bytes}
      (seals : R.Seals P key store file generation data)
      (selected : R.Selected fs (selectedPath store file) store file generation)
      (older : generation.toNat < next.toNat) : OnDisk P key store file next fs (some data)

/-- A process that holds a content for a file: nothing goes wrong in its steps, its namespace fits,
and neither the namespaces nor the generations run out within `left` calls. -/
structure Held (P : Primitives) (file : FileId) (content : Content) (left : ℕ) (s : Sys) :
    Prop where
  calm : Calm s.store [storeDir s.store.storeId] 0 [] s
  roomy : s.store.Roomy
  records : s.store.namespaceGeneration.toNat + left < 2 ^ 64
  generations : s.counters.nextGeneration.toNat + left < 2 ^ 64
  staged : s.store.staged[file.toWire]? = content.staged
  onDisk : OnDisk P s.store.key s.store.storeId file s.counters.nextGeneration s.disk.fs
    content.committed

namespace OnDisk

variable {next next' : UInt64} {fs fs' : Fs} {committed : Option Bytes}

theorem mono (h : OnDisk P key store file next fs committed) (hle : next.toNat ≤ next'.toNat) :
    OnDisk P key store file next' fs committed := by
  cases h with
  | absent selected => exact .absent selected
  | committed seals selected older => exact .committed seals selected (older.trans_le hle)

/-- Only the pointer and the older generations matter. -/
theorem congr (h : OnDisk P key store file next fs committed)
    (hselected : fs'[selectedPath store file]? = fs[selectedPath store file]?)
    (hitems : ∀ generation name, generation.toNat < next.toNat →
      fs'[generationItem store file generation name]? =
        fs[generationItem store file generation name]?) :
    OnDisk P key store file next fs' committed := by
  cases h with
  | absent selected => exact .absent (hselected.trans selected)
  | committed seals selected older =>
    exact .committed seals (selected.congr (fun name => hitems _ name older) hselected) older

/-- Reading gives what was committed, and fails if nothing was. -/
theorem readFile_eq (h : OnDisk P s.store.key s.store.storeId file next s.disk.fs committed)
    (hquiet : s.disk.fates = []) : readFile P file s = Act.ofOption committed .notFound s := by
  cases h with
  | absent selected =>
    have hread : readRecord (selectedPath s.store.storeId file) s = .err .notFound s := by
      refine bind_of_err ?_
      rw [zoom_apply, Disk.readFile_of_absent hquiet selected]
      rfl
    have hcommit : readCommit P (selectedPath s.store.storeId file) file s = .err .notFound s := by
      rw [readCommit, bind_of_ok getStore_eq]
      exact bind_of_err hread
    rw [readFile, bind_of_ok getStore_eq]
    exact bind_of_err hcommit
  | committed seals selected older => exact readFile_of_selected hquiet rfl rfl seals selected

/-- A process works on the store, with the given counters, and the disk holds the content. -/
structure During (P : Primitives) (key : StoreKey) (store : StoreId) (file : FileId)
    (next : UInt64) (committed : Option Bytes) (counters : Counters) (c : Core) : Prop where
  session : c.store.storeId = store ∧ c.store.key = key
  counters : c.counters = counters
  onDisk : OnDisk P key store file next c.fs committed

/-- Writing a new generation of the file keeps what was committed. -/
theorem stageKeeps (counters : Counters) : StageKeeps
    (During P key store file generation committed counters) store key file generation data where
  session _ hc := hc.1
  stages op hop c fs hl hc := by
    refine ⟨hc.1, hc.2, hc.3.congr (hl.get_eq hop.not_touches_pointer.1) ?_⟩
    intro old name hlt
    refine hl.get_eq fun ht => ?_
    rw [hop.generation_eq ht] at hlt
    exact lt_irrefl _ hlt
  seals _ _ _ hc _ := { hc with }
  faults _ hc := { hc with }

/-- Persisting the namespace keeps what was committed. -/
theorem persistKeeps (counters : Counters) :
    PersistKeeps (During P key store file next committed counters) store key where
  session _ hc := hc.1
  ops g op hop c fs hl hc := by
    have hframe : ∀ q : Path, q.length ≠ 3 → fs[q]? = c.fs[q]? := by
      refine fun q hq => hl.get_eq fun ht => hq ?_
      rcases hop.touches ht with ht | rfl
      · cases ht <;> rfl
      · rfl
    exact ⟨hc.1, hc.2, hc.3.congr (hframe _ (by simp [selectedPath, fileItem]))
      fun _ _ _ => hframe _ (by simp [generationItem])⟩
  begins _ _ _ hc _ := { hc with }
  seals _ _ _ hc _ _ := { hc with }
  counts _ _ hc := { hc with }

end OnDisk

/-! ### Single calls -/

/-- Times were updated. -/
structure Retimed (s t : Sys) : Prop where
  disk : t.disk = s.disk
  nonces : t.nonces = s.nonces
  counters : t.counters = s.counters
  store : ∃ files : Map Text FileEntry, t.store = { s.store with files := files } ∧
    ∀ key : Text, files[key]?.map FileEntry.name = s.store.files[key]?.map FileEntry.name

theorem touchFile_eq_ok (name : Text) (update : UInt64 → EntryMetadata → EntryMetadata) (s : Sys) :
    ∃ t, touchFile name update s = .ok () t ∧ Retimed s t := by
  unfold touchFile
  rw [bind_of_ok getStore_eq]
  cases hentry : s.store.files[name]? with
  | none => exact ⟨s, rfl, rfl, rfl, rfl, s.store.files, rfl, fun _ => rfl⟩
  | some entry =>
    refine ⟨_, rfl, rfl, rfl, rfl, _, rfl, fun q => ?_⟩
    rw [Map.get_insert]
    split
    · next heq => rw [← heq, hentry]; rfl
    · rfl

namespace Retimed

theorem names (h : Retimed s t) : t.store.names 0 = s.store.names 0 := by
  obtain ⟨files, hstore, hfiles⟩ := h.store
  rw [hstore]
  exact Names.ext rfl (funext hfiles) rfl rfl

theorem staged (h : Retimed s t) : t.store.staged[file.toWire]? = s.store.staged[file.toWire]? := by
  obtain ⟨files, hstore, -⟩ := h.store
  rw [hstore]

theorem held (h : Retimed s t) {content : Content} {left : ℕ} (hs : Held P file content left s) :
    Held P file content left t := by
  have hroomy : t.store.recordBound = s.store.recordBound := recordBound_congr h.names
  obtain ⟨hdisk, hnonces, hcounters, files, hstore, -⟩ := h
  refine ⟨?_, ?_, ?_, ?_, ?_, ?_⟩
  · rw [hstore]
    exact {
      sameStore := hstore
      tame := ⟨hs.calm.tame.1, hs.calm.tame.2, hs.calm.tame.3⟩
      quiet := hdisk ▸ hs.calm.quiet
      fits := hdisk ▸ hs.calm.fits
      there := hdisk ▸ hs.calm.there
      unrepeated := hnonces ▸ hs.calm.unrepeated
      recent := fun _ hn => absurd hn List.not_mem_nil }
  · rw [Store.Roomy, hroomy]
    exact hs.roomy
  · rw [hstore]
    exact hs.records
  · rw [hcounters]
    exact hs.generations
  · rw [hstore]
    exact hs.staged
  · rw [hstore, hdisk, hcounters]
    exact hs.onDisk

end Retimed

/-- The state in which the bytes are staged. -/
def Sys.withStaged (s : Sys) (file : FileId) (data : Bytes) : Sys :=
  { s with store := { s.store with staged := s.store.staged.insert file.toWire data } }

theorem write_apply : write file data s = .ok () (s.withStaged file data) := rfl

theorem withStaged_withStaged {later : Bytes} :
    (s.withStaged file data).withStaged file later = s.withStaged file later := by
  unfold Sys.withStaged
  exact congrArg (fun staged => { s with store := { s.store with staged := staged } })
    Map.insert_insert

/-- The end of a call: the time of the file is updated. -/
theorem touched_eq_ok {handle : FileHandle} {state : HandleState}
    (h : s.store.handles[handle.number]? = some state)
    (update : UInt64 → EntryMetadata → EntryMetadata) : ∃ t, (do
      let store ← getStore
      let key ← Act.ofExcept (store.handlePathKey handle)
      touchFile key update : Op Unit) s = .ok () t ∧ Retimed s t := by
  obtain ⟨t, ht, hretimed⟩ := touchFile_eq_ok state.pathKey update s
  refine ⟨t, ?_, hretimed⟩
  have hkey : s.store.handlePathKey handle = .ok state.pathKey := by
    rw [Store.handlePathKey, h]
    rfl
  rw [bind_of_ok getStore_eq, hkey, bind_of_ok (ofExcept_ok_apply s _), ht]

theorem handleFile_eq_ok {st : Store} {handle : FileHandle} (h : st.handleFile handle = .ok file) :
    ∃ state entry, st.handles[handle.number]? = some state ∧
      st.files[state.pathKey]? = some entry ∧ entry.fileId = file := by
  unfold Store.handleFile at h
  cases hstate : st.handles[handle.number]? with
  | none =>
    rw [hstate] at h
    cases h
  | some state =>
    rw [hstate] at h
    cases hentry : st.files[state.pathKey]? with
    | none =>
      simp only [hentry] at h
      cases h
    | some entry =>
      simp only [hentry] at h
      exact ⟨state, entry, rfl, hentry, Except.ok.inj h⟩

/-- The file of a handle depends on the names only. -/
theorem handleFile_congr {a b : Store} (h : a.names 0 = b.names 0) (handle : FileHandle) :
    a.handleFile handle = b.handleFile handle := by
  have hhandles : a.handles[handle.number]? = b.handles[handle.number]? :=
    congrFun (congrArg Names.handles h) handle.number
  unfold Store.handleFile
  rw [hhandles]
  cases b.handles[handle.number]? with
  | none => rfl
  | some state =>
    have hfiles : a.files[state.pathKey]?.map FileEntry.name =
      b.files[state.pathKey]?.map FileEntry.name := congrFun (congrArg Names.files h) state.pathKey
    have hids := congrArg (Option.map FileName.fileId) hfiles
    rw [Option.map_map, Option.map_map] at hids
    exact congrArg (fun id : Option FileId =>
      (id.elim (.error .notFound) .ok : Except StorageError FileId)) hids

/-! The calls, from what they read of the file before. -/

theorem writeAt_of_read {existing : Except StorageError Bytes}
    {entry : Bytes} (hread : Act.attempt (readFile P file) s = .ok existing t)
    (hentry : t.store.staged[file.toWire]?.getD (orDefault existing) = entry)
    (offset : UInt64) (bytes : Bytes) : writeAt P file offset bytes s =
      if offset.toNat + bytes.length < 2 ^ 64 then
        .ok () (t.withStaged file (writeArray entry offset.toNat bytes))
      else .err .ioFailure (t.withStaged file entry) := by
  rw [writeAt, bind_of_ok hread, bind_of_ok getStore_eq, hentry, bind_of_ok write_apply]
  by_cases hfits : offset.toNat + bytes.length < 2 ^ 64
  · rw [if_pos hfits, bind_of_ok (failIf_of_not (by omega)), write_apply,
      overwrite_eq_writeArray, withStaged_withStaged]
  · rw [if_neg hfits]
    refine bind_of_err ?_
    rw [failIf_apply, if_pos (by omega)]

theorem writeHandle_of_ok {handle : FileHandle} {offset : UInt64} {bytes : Bytes}
    (hhandle : s.store.handleFile handle = .ok file)
    (hwrite : writeAt P file offset bytes s = .ok () t)
    (hhandles : t.store.handles = s.store.handles) :
    ∃ u, writeHandle P handle offset bytes s = .ok () u ∧ Retimed t u := by
  obtain ⟨state, -, hstate, -, -⟩ := handleFile_eq_ok hhandle
  obtain ⟨u, hu, hretimed⟩ := touched_eq_ok (hhandles ▸ hstate) EntryMetadata.written
  refine ⟨u, ?_, hretimed⟩
  rw [writeHandle, bind_of_ok getStore_eq, hhandle,
    bind_of_ok (ofExcept_ok_apply s _), bind_of_ok hwrite, hu]

theorem writeHandle_of_err {handle : FileHandle} {offset : UInt64} {bytes : Bytes}
    {e : StorageError} (hhandle : s.store.handleFile handle = .ok file)
    (hwrite : writeAt P file offset bytes s = .err e t) :
    writeHandle P handle offset bytes s = .err e t := by
  rw [writeHandle, bind_of_ok getStore_eq, hhandle,
    bind_of_ok (ofExcept_ok_apply s _), bind_of_err hwrite]

theorem truncateHandle_of_ok {handle : FileHandle} (hhandle : s.store.handleFile handle = .ok file)
    (hdata : currentData P file s = .ok data t) (length : UInt64) : ∃ u, truncateHandle P
    handle length s = .ok () u ∧ Retimed (t.withStaged file (resizeArray data length.toNat)) u := by
  obtain ⟨state, -, hstate, -, -⟩ := handleFile_eq_ok hhandle
  have hkey : s.store.handlePathKey handle = .ok state.pathKey := by
    rw [Store.handlePathKey, hstate]
    rfl
  obtain ⟨u, hu, hretimed⟩ := touchFile_eq_ok state.pathKey EntryMetadata.written
    (t.withStaged file (resizeArray data length.toNat))
  refine ⟨u, ?_, hretimed⟩
  rw [truncateHandle, bind_of_ok getStore_eq, hhandle,
    bind_of_ok (ofExcept_ok_apply s _), hkey, bind_of_ok (ofExcept_ok_apply s _),
    bind_of_ok hdata, resize_eq_resizeArray, bind_of_ok write_apply, hu]

namespace Held

variable {content : Content} {left : ℕ} {handle : FileHandle}

section

variable (h : Held P file content left s)

include h

theorem staging (data : Bytes) :
    Held P file (content.edited data) left (s.withStaged file data) where
  calm := { h.calm with
    sameStore := rfl
    tame := ⟨h.calm.tame.1, h.calm.tame.2, h.calm.tame.3⟩ }
  roomy := h.roomy
  records := h.records
  generations := h.generations
  staged := Map.get_insert_self
  onDisk := h.onDisk

theorem fewer {left' : ℕ} (hle : left' ≤ left) : Held P file content left' s :=
  { h with
    records := lt_of_le_of_lt (Nat.add_le_add_left hle _) h.records
    generations := lt_of_le_of_lt (Nat.add_le_add_left hle _) h.generations }

/-- What an edit reads of the file before. -/
theorem attempt_readFile : ∃ existing, Act.attempt (readFile P file) s = .ok existing s ∧
      orDefault existing = content.committed.getD [] := by
  rw [attempt_apply, h.onDisk.readFile_eq h.calm.quiet]
  cases content.committed with
  | none => exact ⟨_, rfl, rfl⟩
  | some data => exact ⟨_, rfl, rfl⟩

theorem writeAt_eq (offset : UInt64) (bytes : Bytes) : writeAt P file offset bytes s =
      if offset.toNat + bytes.length < 2 ^ 64 then
        .ok () (s.withStaged file (writeArray content.current offset.toNat bytes))
      else .err .ioFailure (s.withStaged file content.current) := by
  obtain ⟨existing, hread, hexisting⟩ := h.attempt_readFile
  refine writeAt_of_read hread ?_ offset bytes
  rw [hexisting, h.staged]
  rfl

/-- A write. -/
theorem writeHandle_wp
    (hhandle : s.store.handleFile handle = .ok file) (offset : UInt64) (bytes : Bytes) :
    (writeHandle P handle offset bytes).wp
      (fun _ t => offset.toNat + bytes.length < 2 ^ 64 ∧ t.store.names 0 = s.store.names 0 ∧
        Held P file (content.edited (writeArray content.current offset.toNat bytes)) left t)
      (fun _ t => ¬offset.toNat + bytes.length < 2 ^ 64 ∧ t.store.names 0 = s.store.names 0 ∧
        Held P file (content.edited content.current) left t) (fun _ => False) s := by
  by_cases hfits : offset.toNat + bytes.length < 2 ^ 64
  · have hwrite := (h.writeAt_eq offset bytes).trans (if_pos hfits)
    obtain ⟨t, ht, hretimed⟩ := writeHandle_of_ok hhandle hwrite rfl
    exact wp_of_ok ht ⟨hfits, hretimed.names, hretimed.held (h.staging _)⟩
  · have hwrite := (h.writeAt_eq offset bytes).trans (if_neg hfits)
    unfold Act.wp
    rw [writeHandle_of_err hhandle hwrite]
    exact ⟨hfits, rfl, h.staging _⟩

/-- A truncation. -/
theorem truncateHandle_wp (hhandle : s.store.handleFile handle = .ok file) (length : UInt64) :
    (truncateHandle P handle length).wp (fun _ t => t.store.names 0 = s.store.names 0 ∧
        Held P file (content.edited (resizeArray content.current length.toNat)) left t)
      (fun _ _ => False) (fun _ => False) s := by
  have hcurrent : currentData P file s = .ok content.current s := by
    obtain ⟨existing, hread, hexisting⟩ := h.attempt_readFile
    rw [currentData, bind_of_ok getStore_eq, h.staged, Content.current]
    cases content.staged with
    | none => exact (bind_of_ok hread).trans (congrArg (Outcome.ok · s) hexisting)
    | some data => rfl
  obtain ⟨t, ht, hretimed⟩ := truncateHandle_of_ok hhandle hcurrent length
  exact wp_of_ok ht ⟨hretimed.names, hretimed.held (h.staging _)⟩

/-- Persisting the namespace keeps the content. -/
theorem completes_persistNamespace (hP : P.Correct)
    (hnext : s.store.namespaceGeneration.toNat + 1 + left < 2 ^ 64) : (persistNamespace P).Completes
      (fun _ t => t.store.names 0 = s.store.names 0 ∧ Held P file content left t) s := by
  have hsize : s.store.namespaceBytes.length + 16 ≤ maxCiphertext :=
    (Nat.add_le_add_right (length_namespaceBytes_le s.store) 16).trans h.roomy
  obtain ⟨_, t, ht, hcalm⟩ := h.calm.completes_persistNamespace hP List.mem_cons_self (by omega)
    hsize
  have hstart : OnDisk.During P s.store.key s.store.storeId file s.counters.nextGeneration
      content.committed s.counters s.core := ⟨⟨rfl, rfl⟩, rfl, h.onDisk⟩
  obtain ⟨⟨-, hcounters, honDisk⟩, -⟩ :=
    (OnDisk.persistKeeps s.counters).keeps_persistNamespace.of_ok hstart ht
  have hstore := hcalm.sameStore
  have hcounters : t.counters = s.counters := hcounters
  have hgeneration : (s.store.namespaceGeneration + 1).toNat =
      s.store.namespaceGeneration.toNat + 1 := by
    rw [UInt64.toNat_add]
    exact Nat.mod_eq_of_lt (by simp only [UInt64.reduceToNat]; omega)
  refine .of_ok ht ⟨?_, ?_, ?_, ?_, ?_, ?_, ?_⟩
  · rw [hstore]
    rfl
  · rw [hstore]
    exact hcalm
  · rw [hstore]
    exact h.roomy
  · rw [hstore]
    simp only [hgeneration]
    exact hnext
  · rw [hcounters]
    exact h.generations
  · rw [hstore]
    exact h.staged
  · rw [hcounters, hstore]
    exact honDisk

end

/-- A flush leaves the counters alone once it has drawn its generation. -/
theorem counters_flushKeeps (counters : Counters) :
    FlushKeeps (fun c => (c.store.storeId = store ∧ c.store.key = key) ∧ c.counters = counters)
      store key file generation data where
  session _ hc := hc.1
  stages _ _ _ _ _ hc := hc
  seals _ _ _ hc _ := hc
  faults _ hc := hc
  publishes _ _ _ _ _ hc := hc

/-- A flush of what is staged. -/
theorem flushFile_begun (h : Held P file content left s) (hstaged : content.staged = some data) :
    flushFile P file s = (do
      let outcome ← flushGeneration P file s.counters.nextGeneration data
      modifyStore fun store => store.unstage file
      return outcome) (s.begun file data) := by
  rw [flushFile_eq, if_neg (by rw [h.calm.tame.noFailure]; exact Bool.false_ne_true), h.staged,
    hstaged]

section

variable (h : Held P file content (left + 1) s)

include h

theorem toNat_nextGeneration :
    (s.begun file data).counters.nextGeneration.toNat = s.counters.nextGeneration.toNat + 1 := by
  have hlt := h.generations
  change (s.counters.nextGeneration + 1).toNat = _
  rw [UInt64.toNat_add]
  exact Nat.mod_eq_of_lt (by simp only [UInt64.reduceToNat]; omega)

/-- The content after a flush that has drawn a generation, with the store as it was. -/
theorem begun {st : Store} (hst : t.store = st)
    (hcalm : Calm st [storeDir st.storeId] 0 [] t) (hroomy : st.Roomy)
    (hrecords : st.namespaceGeneration = s.store.namespaceGeneration)
    (hcounters : t.counters = (s.begun file data).counters) {content' : Content}
    (hstaged : st.staged[file.toWire]? = content'.staged)
    (honDisk : OnDisk P st.key st.storeId file (s.begun file data).counters.nextGeneration t.disk.fs
      content'.committed) : Held P file content' left t := by
  subst hst
  have hnext : (s.begun file data).counters.nextGeneration.toNat =
    s.counters.nextGeneration.toNat + 1 := h.toNat_nextGeneration
  exact {
    calm := hcalm
    roomy := hroomy
    records := by
      have hlt := h.records
      rw [hrecords]
      omega
    generations := by
      have hlt := h.generations
      rw [hcounters]
      omega
    staged := hstaged
    onDisk := hcounters ▸ honDisk }

/-- What is staged is committed, or it stays staged. -/
theorem flushFile_wp (hP : P.Correct) (hstaged : content.staged = some data) : (flushFile P file).wp
      (fun _ t => t.store = s.store.unstage file ∧ Held P file content.flushed left t)
      (fun _ t => t.store = s.store ∧ ¬ManifestFits file data ∧ Held P file content left t)
      (fun _ => False) s := by
  have hnext : (s.begun file data).counters.nextGeneration.toNat =
    s.counters.nextGeneration.toNat + 1 := h.toNat_nextGeneration
  have hbegun : Calm s.store [storeDir s.store.storeId] 0 [] (s.begun file data) := { h.calm with }
  have hwp : (flushGeneration P file s.counters.nextGeneration data).wp _ _ _ (s.begun file data) :=
    hbegun.flushGeneration_wp hP
  unfold Act.wp
  rw [h.flushFile_begun hstaged]
  change Act.wp _ _ _ _ (s.begun file data)
  rw [wp_bind]
  unfold Act.wp
  cases hrun : flushGeneration P file s.counters.nextGeneration data (s.begun file data) with
  | ok outcome t =>
    have hcalm := ok_of_wp hwp hrun
    obtain ⟨R, hseals, hselected, -⟩ := flushGeneration_eq_ok hP rfl rfl hrun
    have hkeeps : FlushKeeps _ s.store.storeId s.store.key file s.counters.nextGeneration data :=
      counters_flushKeeps (s.begun file data).counters
    have hcounters : t.counters = (s.begun file data).counters :=
      (hkeeps.keeps_flushGeneration.of_ok (s := s.begun file data) ⟨⟨rfl, rfl⟩, rfl⟩ hrun).1.2
    have hstore : t.store.unstage file = s.store.unstage file :=
      congrArg (Store.unstage · file) hcalm.sameStore
    have hcalm' : Calm (s.store.unstage file) [storeDir s.store.storeId] 0 []
        { t with store := t.store.unstage file } :=
      { hcalm with
        sameStore := hstore
        tame := ⟨hcalm.tame.1, hcalm.tame.2, hcalm.tame.3⟩ }
    have honDisk : OnDisk P s.store.key s.store.storeId file
        (s.begun file data).counters.nextGeneration t.disk.fs (some data) :=
      .committed hseals hselected (by omega)
    refine ⟨hstore, ?_⟩
    rw [Content.flushed, hstaged]
    exact h.begun hstore hcalm' h.roomy rfl hcounters Map.get_erase_self honDisk
  | err e t =>
    obtain ⟨hstage, hcalm, hlarge⟩ := err_of_wp hwp hrun
    have hstart : OnDisk.During P s.store.key s.store.storeId file s.counters.nextGeneration
        content.committed (s.begun file data).counters (s.begun file data).core :=
      ⟨⟨rfl, rfl⟩, rfl, h.onDisk⟩
    obtain ⟨-, hcounters, honDisk⟩ := err_of_wp
      ((OnDisk.stageKeeps (s.begun file data).counters).keeps_stageGeneration _ hstart) hstage
    exact ⟨hcalm.sameStore, hlarge, h.begun hcalm.sameStore hcalm h.roomy rfl hcounters h.staged
      (honDisk.mono (by omega))⟩
  | crash t => exact (crash_of_wp hwp hrun).elim

/-- A flush through a handle. -/
theorem flushHandle_wp (hP : P.Correct) (hhandle : s.store.handleFile handle = .ok file) :
    (flushHandle P handle).wp
      (fun _ t => t.store.names 0 = s.store.names 0 ∧ Held P file content.flushed left t)
      (fun _ t => t.store.names 0 = s.store.names 0 ∧
        (∃ data, content.staged = some data ∧ ¬ManifestFits file data) ∧ Held P file content left t)
      (fun _ => False) s := by
  obtain ⟨state, -, hstate, -, -⟩ := handleFile_eq_ok hhandle
  unfold flushHandle
  refine wp_bind_of_ok getStore_eq (wp_bind_of_ok (ofExcept_eq_ok.mpr ⟨hhandle, rfl⟩) ?_)
  cases hstaged : content.staged with
  | none =>
    have hnot : file.toWire ∉ s.store.staged :=
      Map.not_mem_iff_get.mpr (h.staged.trans hstaged)
    rw [if_neg hnot]
    obtain ⟨_, t, ht, hnames, hheld⟩ := (h.fewer (Nat.le_succ left)).completes_persistNamespace hP (by
      have hlt := h.records
      omega)
    have hflushed : content.flushed = content := by
      cases content
      cases hstaged
      rfl
    rw [hflushed]
    exact wp_of_ok ht ⟨hnames, hheld⟩
  | some data =>
    have hmem : file.toWire ∈ s.store.staged :=
      Map.mem_iff_get.mpr ⟨data, h.staged.trans hstaged⟩
    rw [if_pos hmem]
    unfold flushStaged
    rw [wp_bind, wp_bind]
    refine wp_mono (h.flushFile_wp hP hstaged) (fun outcome t ht => ?_)
      (fun _ t ht => ⟨by rw [ht.1], ⟨data, rfl, ht.2.1⟩, ht.2.2⟩) fun _ ht => ht
    have hstate' : t.store.handles[handle.number]? = some state := by
      rw [ht.1]
      exact hstate
    obtain ⟨u, hu, hretimed⟩ := touched_eq_ok hstate' EntryMetadata.written
    refine wp_of_ok hu ?_
    obtain ⟨files, hfiles, -⟩ := hretimed.store
    obtain ⟨_, v, hv, hnames, hheld⟩ := (hretimed.held ht.2).completes_persistNamespace hP (by
      have hlt := h.records
      rw [hfiles, ht.1]
      change s.store.namespaceGeneration.toNat + 1 + left < _
      omega)
    refine wp_of_ok hv ⟨hnames.trans (hretimed.names.trans ?_), hheld⟩
    rw [ht.1]
    rfl

end

/-! ### Reads -/

theorem readHandle_eq (h : Held P file content left s)
    (hhandle : s.store.handleFile handle = .ok file) : (readHandle P handle s).result? = some
    (content.committed.elim (.error .notFound) .ok) := by
  obtain ⟨state, -, hstate, -, -⟩ := handleFile_eq_ok hhandle
  rw [readHandle, bind_of_ok getStore_eq, hhandle, bind_of_ok (ofExcept_ok_apply s _)]
  have hread := h.onDisk.readFile_eq h.calm.quiet
  cases hcommitted : content.committed with
  | none =>
    rw [hcommitted] at hread
    rw [bind_of_err hread]
    rfl
  | some data =>
    rw [hcommitted] at hread
    obtain ⟨t, ht, -⟩ := touchFile_eq_ok state.pathKey EntryMetadata.accessed s
    have hkey : s.store.handlePathKey handle = .ok state.pathKey := by
      rw [Store.handlePathKey, hstate]
      rfl
    rw [bind_of_ok hread, bind_of_ok getStore_eq, hkey,
      bind_of_ok (ofExcept_ok_apply s _), bind_of_ok ht]
    rfl

theorem readPath_eq (h : Held P file content left s) {path : VirtualPath} {entry : FileEntry}
    (hentry : s.store.files[path.lookupKey]? = some entry) (hfile : entry.fileId = file)
    (hpending : entry.deletePending = false) :
    (readPath P path s).result? = some (content.committed.elim (.error .notFound) .ok) := by
  rw [readPath, bind_of_ok getStore_eq, hentry,
    bind_of_ok (ofOption_some_apply s ..),
    bind_of_ok (failIf_of_not (by rw [hpending]; exact Bool.false_ne_true)), hfile]
  have hread := h.onDisk.readFile_eq h.calm.quiet
  cases hcommitted : content.committed with
  | none =>
    rw [hcommitted] at hread
    rw [bind_of_err hread]
    rfl
  | some data =>
    rw [hcommitted] at hread
    obtain ⟨t, ht, -⟩ := touchFile_eq_ok path.lookupKey EntryMetadata.accessed s
    rw [bind_of_ok hread, bind_of_ok ht]
    rfl

end Held

end Wdlp
