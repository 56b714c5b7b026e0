import Wdlp.Drive.Handles
import Wdlp.Storage.ByteArrays
import Wdlp.Storage.Edits

/-!
# The callbacks that change contents

Three callbacks change the bytes of a file: `overwrite`, `set_file_size` and `write`. Each of them
edits what is there and flushes it. The operating system expects more of them than that: it
distinguishes the size of a file from the room that is allocated for it, and a constrained write
must not make a file longer. The callbacks do what is expected of them as long as these distinctions
make no difference.

An edit starts from what is staged for the file. A callback that fails in the flush leaves its bytes
staged, and they reach the disk with the next callback that succeeds.

## Main definitions

* `DataOperation` — the callbacks; `effect` is what they do to the bytes, `model` what is expected.
* `DataOperation.Conforms` — the callback is one for which the two agree.

## Main results

* `Drive.data_callbacks_iff` — a sequence of callbacks does what is expected exactly if all of them
  conform.
* `Drive.write_applies_iff` — when a write applies its bytes to the content that was visible.
-/

namespace Wdlp

open CrashSafe Act

/-- The context is one of the file. -/
def DlpFileHandle.Of (file : FileId) (s : Sys) (context : DlpFileHandle) : Prop :=
  ∃ handle, context.handle = some handle ∧ s.store.handleFile handle = .ok file

/-- The callbacks that change the bytes of a file. -/
inductive DataOperation where
  | overwrite (allocationSize : UInt64)
  | setFileSize (newSize : UInt64) (allocation : Bool)
  | write (buffer : Bytes) (offset : UInt64) (writeToEof constrainedIo : Bool)

namespace DataOperation

/-- The callback on a file context. -/
def run (P : Primitives) (context : DlpFileHandle) : DataOperation → Callback Unit
  | overwrite allocationSize => do
    let _ ← Drive.overwrite P context allocationSize
  | setFileSize newSize allocation => do
    let _ ← Drive.setFileSize P context newSize allocation
  | write buffer offset writeToEof constrainedIo => do
    let _ ← Drive.write P context buffer offset writeToEof constrainedIo

/-- Where a write to a file with the given bytes starts. -/
def start (data : Bytes) (offset : UInt64) : (writeToEof : Bool) → ℕ
  | true => data.length
  | false => offset.toNat

/-- What the callback makes of the bytes of the file. -/
def effect (data : Bytes) : DataOperation → Bytes
  | overwrite allocationSize => resizeArray data allocationSize.toNat
  | setFileSize newSize _ => resizeArray data newSize.toNat
  | write buffer offset writeToEof _ => writeArray data (start data offset writeToEof) buffer

/-- What the operating system expects: overwriting empties a file, setting the allocation can only
shorten it, and a constrained write drops what lies beyond the end. -/
def model (data : Bytes) : DataOperation → Bytes
  | overwrite _ => []
  | setFileSize newSize false => resizeArray data newSize.toNat
  | setFileSize newSize true => data.take newSize.toNat
  | write buffer offset writeToEof false => writeArray data (start data offset writeToEof) buffer
  | write buffer offset writeToEof true =>
    if data.length ≤ start data offset writeToEof then data
    else writeArray data (start data offset writeToEof)
      (buffer.take (data.length - start data offset writeToEof))

/-- The distinctions that the callback does not make are of no account. -/
def Conforms (data : Bytes) : DataOperation → Prop
  | overwrite allocationSize => allocationSize = 0
  | setFileSize newSize allocation => allocation = true → newSize.toNat ≤ data.length
  | write buffer offset writeToEof constrainedIo =>
    constrainedIo = true → start data offset writeToEof + buffer.length ≤ data.length

/-- The end of a write is a possible offset. -/
def Fits (data : Bytes) : DataOperation → Prop
  | write buffer offset writeToEof _ =>
    start data offset writeToEof + buffer.length < 2 ^ 64
  | _ => True

/-! ### Bytes -/

variable {data : Bytes} {operation : DataOperation}

theorem length_writeArray (offset : ℕ) (bytes : Bytes) :
    (writeArray data offset bytes).length = max data.length (offset + bytes.length) := by
  simp [writeArray]

theorem length_resizeArray (length : ℕ) : (resizeArray data length).length = length := by
  simp [resizeArray]

theorem resizeArray_of_le {length : ℕ} (h : length ≤ data.length) :
    resizeArray data length = data.take length := by
  refine List.ext_getElem ?_ fun i hi hi' => ?_
  · rw [length_resizeArray, List.length_take, min_eq_left h]
  · have hlt : i < data.length := by
      rw [length_resizeArray] at hi
      omega
    simp [resizeArray, hlt]

/-- Nothing is written at the end. -/
theorem writeArray_nil : writeArray data data.length [] = data := by
  refine List.ext_getElem (by simp [length_writeArray]) fun i hi hi' => ?_
  simp [writeArray, hi']

theorem effect_eq_model (h : operation.Conforms data) :
    operation.effect data = operation.model data := by
  cases operation with
  | overwrite allocationSize =>
    subst h
    rfl
  | setFileSize newSize allocation =>
    cases allocation with
    | false => rfl
    | true => exact resizeArray_of_le (h rfl)
  | write buffer offset writeToEof constrainedIo =>
    cases constrainedIo with
    | false => rfl
    | true =>
      have hend : start data offset writeToEof + buffer.length ≤ data.length := h rfl
      rw [effect, model]
      split_ifs with hstart
      · have hnil : buffer = [] := List.eq_nil_of_length_eq_zero (by omega)
        have hat : start data offset writeToEof = data.length := by
          rw [hnil, List.length_nil] at hend
          omega
        rw [hat, hnil, writeArray_nil]
      · rw [List.take_of_length_le (by omega)]

/-- Otherwise the file gets longer than expected. -/
theorem length_model_lt (hfits : operation.Fits data) (h : ¬operation.Conforms data) :
    (operation.model data).length < (operation.effect data).length ∧
      (operation.model data).length < 2 ^ 64 := by
  cases operation with
  | overwrite allocationSize =>
    have hpos : 0 < allocationSize.toNat := by
      refine Nat.pos_of_ne_zero fun hzero => h ?_
      exact UInt64.toNat_inj.mp hzero
    exact ⟨by rwa [effect, length_resizeArray], by norm_num [model]⟩
  | setFileSize newSize allocation =>
    have hsize := newSize.toNat_lt
    obtain ⟨rfl, hlt⟩ := Classical.not_imp.mp h
    rw [model, effect, length_resizeArray, List.length_take]
    omega
  | write buffer offset writeToEof constrainedIo =>
    obtain ⟨rfl, hlt⟩ := Classical.not_imp.mp h
    have hend : start data offset writeToEof + buffer.length < 2 ^ 64 := hfits
    have hmodel : (model data (write buffer offset writeToEof true)).length = data.length := by
      rw [model]
      split_ifs
      · rfl
      · rw [length_writeArray, List.length_take]
        omega
    rw [hmodel, effect, length_writeArray]
    omega

end DataOperation

/-! ### Callbacks that return -/

namespace Drive

variable {P : Primitives} {file : FileId} {context : DlpFileHandle} {handle : FileHandle}
  {s t u : Sys} {data : Bytes}

theorem stored_eq_ok {α : Type} {p : Op α} {a : α} : stored p s = .ok a t ↔ p s = .ok a t := by
  rw [stored, zoom_eq_ok]
  simp

/-- The file of a handle depends on the names only. -/
theorem handleFile_of_names (h : t.view.names = s.view.names) :
    t.store.handleFile handle = s.store.handleFile handle :=
  handleFile_congr (congrArg (fun n : Names => { n with nextHandle := 0 }) h) handle

theorem of_names (h : t.view.names = s.view.names) (hof : context.Of file s) :
    context.Of file t := by
  obtain ⟨handle, hown, hfile⟩ := hof
  exact ⟨handle, hown, (handleFile_of_names h).trans hfile⟩

variable {info : FileInfo}

/-- Reporting on a file changes nothing about it. -/
theorem fileInfoForHandle_eq_ok (hof : context.Of file s)
    (h : fileInfoForHandle P context s = .ok info t) :
    SameFiles s t ∧ t.store.staged = s.store.staged := by
  obtain ⟨handle, hown, hfile⟩ := hof
  obtain ⟨metadata, u, hmetadata, h⟩ := bind_eq_ok.mp h
  have hkeeps : Keeps (fun c => c = s.core) (entryMetadata context.path) := keeps_entryMetadata
  have hcore : u.core = s.core := (hkeeps.of_ok rfl (stored_eq_ok.mp hmetadata)).1
  have hstore : u.store = s.store := congrArg Core.store hcore
  have hsame : SameFiles s u :=
    ⟨congrArg Core.fs hcore, congrArg Store.storeId hstore, congrArg Store.key hstore⟩
  split_ifs at h with hdirectory
  · obtain ⟨-, rfl⟩ := pure_eq_ok.mp h
    exact ⟨hsame, congrArg Store.staged hstore⟩
  · obtain ⟨_, v, hhandle, h⟩ := bind_eq_ok.mp h
    obtain ⟨hsome, rfl⟩ := ofOption_eq_ok.mp hhandle
    obtain rfl := Option.some.inj (hown.symm.trans hsome)
    obtain ⟨bytes, v, hread, h⟩ := bind_eq_ok.mp h
    obtain ⟨-, rfl⟩ := pure_eq_ok.mp h
    obtain ⟨-, hread, hstaged, -⟩ := readHandle_eq_ok
      ((congrArg (Store.handleFile · handle) hstore).trans hfile) (stored_eq_ok.mp hread)
    exact ⟨hsame.trans hread, hstaged.trans (congrArg Store.staged hstore)⟩

/-- The bytes are what the file holds, and nothing is staged for it. -/
structure Committed (P : Primitives) (file : FileId) (data : Bytes) (s : Sys) : Prop where
  readsBack : ReadsBack P file s data
  unstaged : s.store.staged[file.toWire]? = none

theorem Committed.congr (h : Committed P file data s) (hsame : SameFiles s t)
    (hstaged : t.store.staged = s.store.staged) : Committed P file data t :=
  ⟨hsame.readsBack h.readsBack, by rw [hstaged, h.unstaged]⟩

/-- What is staged is committed by the flush. -/
theorem committed_of_flush (hP : P.Correct) (hfile : s.store.handleFile handle = .ok file)
    (hstaged : s.store.staged[file.toWire]? = some data)
    (h : stored (flushHandle P handle) s = .ok () t) : Committed P file data t := by
  obtain ⟨hread, hnone⟩ := flushHandle_eq_ok hP hfile hstaged (stored_eq_ok.mp h)
  exact ⟨hread, hnone⟩

theorem names_of_ok {α : Type} {p : Callback α} {a : α} (hp : KeepsNames p)
    (h : p s = .ok a t) : t.view.names = s.view.names :=
  ((hp s.view.names).of_ok rfl h).1

/-- Truncating a file and committing it. -/
theorem resize_eq_ok (hP : P.Correct) (hfile : s.store.handleFile handle = .ok file)
    {α : Type} {rest : Callback α} {a : α} {size : UInt64} (h : (do
      stored (truncateHandle P handle size)
      stored (flushHandle P handle)
      rest) s = .ok a t) :
    ∃ u, Committed P file (resizeArray (editBase P file s) size.toNat) u ∧
      u.view.names = s.view.names ∧ rest u = .ok a t := by
  obtain ⟨_, v, htruncate, h⟩ := bind_eq_ok.mp h
  obtain ⟨_, u, hflush, h⟩ := bind_eq_ok.mp h
  have hedit := truncateHandle_eq_ok hfile (stored_eq_ok.mp htruncate)
  have hnames : v.view.names = s.view.names :=
    ((keepsView_truncateHandle.keepsNames s.view.names).of_ok rfl (stored_eq_ok.mp htruncate)).1
  have hnames' : u.view.names = v.view.names :=
    ((keepsNames_flushHandle v.view.names).of_ok rfl (stored_eq_ok.mp hflush)).1
  exact ⟨u, committed_of_flush hP ((handleFile_of_names hnames).trans hfile) hedit.staged hflush,
    hnames'.trans hnames, h⟩

theorem overwrite_eq_ok (hP : P.Correct) (hof : context.Of file s) {size : UInt64}
    (h : overwrite P context size s = .ok info t) :
    Committed P file (resizeArray (editBase P file s) size.toNat) t := by
  obtain ⟨handle, hown, hfile⟩ := hof
  obtain ⟨_, _, hhandle, h⟩ := bind_eq_ok.mp h
  obtain ⟨hsome, rfl⟩ := ofOption_eq_ok.mp hhandle
  obtain rfl := Option.some.inj (hown.symm.trans hsome)
  obtain ⟨u, hcommitted, hnames, h⟩ := resize_eq_ok hP hfile h
  obtain ⟨hsame, hstaged⟩ := fileInfoForHandle_eq_ok (of_names hnames ⟨handle, hown, hfile⟩) h
  exact hcommitted.congr hsame hstaged

theorem setFileSize_eq_ok (hP : P.Correct) (hof : context.Of file s) {size : UInt64}
    {allocation : Bool} (h : setFileSize P context size allocation s = .ok info t) :
    Committed P file (resizeArray (editBase P file s) size.toNat) t := by
  obtain ⟨handle, hown, hfile⟩ := hof
  obtain ⟨_, _, hhandle, h⟩ := bind_eq_ok.mp h
  obtain ⟨hsome, rfl⟩ := ofOption_eq_ok.mp hhandle
  obtain rfl := Option.some.inj (hown.symm.trans hsome)
  obtain ⟨u, hcommitted, -, h⟩ := resize_eq_ok hP hfile h
  obtain ⟨-, rfl⟩ := pure_eq_ok.mp h
  exact hcommitted

section Write

variable {buffer : Bytes} {offset : UInt64} {writeToEof constrainedIo : Bool} {begins : ℕ}

/-- A write starts at the end of the visible bytes or at its offset, and the disk is unchanged when
it does. -/
theorem writeOffset_eq_ok (hfile : s.store.handleFile handle = .ok file)
    (h : writeOffset P handle offset writeToEof s = .ok begins u) : begins = DataOperation.start
    (contentOf P file s) offset writeToEof ∧ SameFiles s u ∧ u.store.staged = s.store.staged ∧
    u.view.names = s.view.names ∧ (s.disk.fates = [] → u.disk.fates = []) := by
  cases writeToEof with
  | false =>
    obtain ⟨rfl, rfl⟩ := pure_eq_ok.mp h
    exact ⟨rfl, ⟨rfl, rfl, rfl⟩, rfl, rfl, id⟩
  | true =>
    obtain ⟨bytes, v, hread, h⟩ := bind_eq_ok.mp h
    obtain ⟨rfl, rfl⟩ := pure_eq_ok.mp h
    have hnames := ((keepsView_readHandle.keepsNames s.view.names).of_ok rfl
      (stored_eq_ok.mp hread)).1
    obtain ⟨hback, hsame, hstaged, hquiet⟩ := readHandle_eq_ok hfile (stored_eq_ok.mp hread)
    exact ⟨by rw [DataOperation.start, hback.contentOf_eq], hsame, hstaged, hnames, hquiet⟩

/-- A write that returns has applied its bytes to what it started from. -/
theorem write_eq_ok (hP : P.Correct) (hown : context.handle = some handle)
    (hfile : s.store.handleFile handle = .ok file) {reply : ℕ × FileInfo}
    (h : write P context buffer offset writeToEof constrainedIo s = .ok reply t) : ∃ begins
    u, writeOffset P handle offset writeToEof s = .ok begins u ∧ begins +
    buffer.length < 2 ^ 64 ∧ Committed P file (writeArray (editBase P file u) begins buffer) t := by
  obtain ⟨_, _, hhandle, h⟩ := bind_eq_ok.mp h
  obtain ⟨hsome, rfl⟩ := ofOption_eq_ok.mp hhandle
  obtain rfl := Option.some.inj (hown.symm.trans hsome)
  obtain ⟨begins, u, hbegins, h⟩ := bind_eq_ok.mp h
  obtain ⟨_, _, hcheck, h⟩ := bind_eq_ok.mp h
  obtain ⟨hlt, rfl⟩ := failIf_eq_ok.mp hcheck
  obtain ⟨_, v, hwrite, h⟩ := bind_eq_ok.mp h
  obtain ⟨_, w, hflush, h⟩ := bind_eq_ok.mp h
  obtain ⟨bytes, x, hread, h⟩ := bind_eq_ok.mp h
  obtain ⟨_, _, hcheck', h⟩ := bind_eq_ok.mp h
  obtain ⟨-, rfl⟩ := failIf_eq_ok.mp hcheck'
  obtain ⟨-, rfl⟩ := pure_eq_ok.mp h
  have hlt : begins + buffer.length < 2 ^ 64 := not_le.mp hlt
  obtain ⟨-, -, -, hnames, -⟩ := writeOffset_eq_ok hfile hbegins
  have hfile' : u.store.handleFile handle = .ok file := (handleFile_of_names hnames).trans hfile
  have hedit := writeHandle_eq_ok hfile' (stored_eq_ok.mp hwrite)
  rw [UInt64.toNat_ofNat_of_lt' (show begins < 2 ^ 64 by omega)] at hedit
  have hnames' : v.view.names = u.view.names :=
    ((keepsView_writeHandle.keepsNames u.view.names).of_ok rfl (stored_eq_ok.mp hwrite)).1
  have hcommitted := committed_of_flush hP ((handleFile_of_names hnames').trans hfile')
    hedit.staged hflush
  have hnames'' : w.view.names = v.view.names :=
    ((keepsNames_flushHandle v.view.names).of_ok rfl (stored_eq_ok.mp hflush)).1
  obtain ⟨-, hsame, hstaged, -⟩ := readHandle_eq_ok
    ((handleFile_of_names (hnames''.trans hnames')).trans hfile') (stored_eq_ok.mp hread)
  exact ⟨begins, u, hbegins, hlt, hcommitted.congr hsame hstaged⟩

end Write

/-! ### Runs of callbacks -/

section Runs

variable {operation : DataOperation}

/-- A callback that returns, with a disk on which nothing goes wrong. -/
theorem run_eq_ok (hP : P.Correct) (hof : context.Of file s) (hquiet : s.disk.fates = [])
    (hstaged : s.store.staged[file.toWire]? = none) (h : operation.run P context s = .ok () t) :
    Committed P file (operation.effect (contentOf P file s)) t ∧
      operation.Fits (contentOf P file s) := by
  have hbase := editBase_of_nil (P := P) hquiet hstaged
  cases operation with
  | overwrite size =>
    obtain ⟨info, u, hrun, h⟩ := bind_eq_ok.mp h
    obtain ⟨-, rfl⟩ := pure_eq_ok.mp h
    exact ⟨hbase ▸ overwrite_eq_ok hP hof hrun, trivial⟩
  | setFileSize size allocation =>
    obtain ⟨info, u, hrun, h⟩ := bind_eq_ok.mp h
    obtain ⟨-, rfl⟩ := pure_eq_ok.mp h
    exact ⟨hbase ▸ setFileSize_eq_ok hP hof hrun, trivial⟩
  | write buffer offset writeToEof constrainedIo =>
    obtain ⟨reply, u, hrun, h⟩ := bind_eq_ok.mp h
    obtain ⟨-, rfl⟩ := pure_eq_ok.mp h
    obtain ⟨handle, hown, hfile⟩ := hof
    obtain ⟨begins, v, hbegins, hlt, hcommitted⟩ := write_eq_ok hP hown hfile hrun
    obtain ⟨rfl, hsame, hstaged', -, hquiet'⟩ := writeOffset_eq_ok hfile hbegins
    rw [editBase_of_nil (hquiet' hquiet) (by rw [hstaged', hstaged]), hsame.contentOf_eq]
      at hcommitted
    exact ⟨hcommitted, hlt⟩

theorem serves_run : Serves P (Call.OnContents context.handle) (operation.run P context) := by
  cases operation with
  | overwrite size =>
    exact (serves_bind_fileHandle fun _ h => serves_resize h serves_fileInfoForHandle).bind
      fun _ => serves_pure
  | setFileSize size allocation =>
    exact (serves_bind_fileHandle fun _ h => serves_resize h serves_pure).bind fun _ => serves_pure
  | write buffer offset writeToEof constrainedIo => exact serves_write.bind fun _ => serves_pure

theorem names_of_run (h : operation.run P context s = .ok () t) : t.view.names = s.view.names :=
  names_of_ok (serves_run.keepsNames fun _ h => h.keepsNames) h

/-- A callback on a file context: what it makes of the system, and what is expected of it. -/
def dataStep (P : Primitives) (state : Sys × Bytes) (input : DlpFileHandle × DataOperation) :
    Sys × Bytes :=
  ((input.2.run P input.1 state.1).state, input.2.model state.2)

/-- The callback is on a context of the file, nothing goes wrong on the disk, and it succeeds. -/
def Succeeds (P : Primitives) (file : FileId) (state : Sys × Bytes)
    (input : DlpFileHandle × DataOperation) : Prop :=
  input.1.Of file state.1 ∧ state.1.disk.fates = [] ∧
    (input.2.run P input.1 state.1).result? = some (.ok ())

/-- What a read of the file returns is what is expected. -/
def ReadsExpected (P : Primitives) (file : FileId) (state : Sys × Bytes) : Prop :=
  ∀ (context : DlpFileHandle) (length : ℕ) (offset : UInt64) (bytes : Bytes) (t : Sys),
    context.Of file state.1 → read P context length offset state.1.quiet = .ok bytes t →
      bytes = (state.2.drop offset.toNat).take length

/-- Every read of the file returns, if the buffer is one that the operating system can ask for. -/
def Readable (P : Primitives) (file : FileId) (s : Sys) : Prop :=
  ∀ (context : DlpFileHandle) (length : ℕ) (offset : UInt64), context.Of file s →
    length < 2 ^ 32 → ∃ bytes t, read P context length offset s.quiet = .ok bytes t

theorem read_eq_ok (hof : context.Of file s) {length : ℕ} {offset : UInt64} {bytes : Bytes}
    (h : read P context length offset s.quiet = .ok bytes t) :
    bytes = ((contentOf P file s).drop offset.toNat).take length := by
  obtain ⟨handle, hown, hfile⟩ := hof
  obtain ⟨_, _, hhandle, h⟩ := bind_eq_ok.mp h
  obtain ⟨hsome, rfl⟩ := ofOption_eq_ok.mp hhandle
  obtain rfl := Option.some.inj (hown.symm.trans hsome)
  obtain ⟨found, u, hread, h⟩ := bind_eq_ok.mp h
  obtain ⟨_, _, hcheck, h⟩ := bind_eq_ok.mp h
  obtain ⟨-, rfl⟩ := failIf_eq_ok.mp hcheck
  obtain ⟨rfl, -⟩ := pure_eq_ok.mp h
  have hback : ReadsBack P file s found :=
    (readHandle_eq_ok (s := s.quiet) hfile (stored_eq_ok.mp hread)).1
  rw [hback.contentOf_eq]

theorem read_of_readsBack (h : ReadsBack P file s data) (hof : context.Of file s)
    (length : ℕ) (hlength : length < 2 ^ 32) (offset : UInt64) : ∃ t,
    read P context length offset s.quiet = .ok ((data.drop offset.toNat).take length) t := by
  obtain ⟨handle, hown, hfile⟩ := hof
  obtain ⟨t, ht⟩ : ∃ t, readHandle P handle s.quiet = .ok data t :=
    ⟨_, Outcome.eq_ok (readHandle_of_readsBack hfile h)⟩
  have hshort : ¬((data.drop offset.toNat).take length).length ≥ 2 ^ 32 := by
    rw [List.length_take]
    omega
  have hhandle : fileHandle context s.quiet = .ok handle s.quiet :=
    ofOption_eq_ok.mpr ⟨hown, rfl⟩
  refine ⟨t, ?_⟩
  rw [read, bind_of_ok hhandle, bind_of_ok (stored_eq_ok.mpr ht)]
  exact bind_of_ok (a := ()) (failIf_eq_ok.mpr ⟨hshort, rfl⟩)

/-- Nothing is staged for the file, and it holds what is expected. -/
structure AsExpected (P : Primitives) (file : FileId) (state : Sys × Bytes) : Prop where
  unstaged : state.1.store.staged[file.toWire]? = none
  content : contentOf P file state.1 = state.2

variable {state : Sys × Bytes} {input : DlpFileHandle × DataOperation}

theorem Succeeds.committed (hP : P.Correct) (h : Succeeds P file state input)
    (hstaged : state.1.store.staged[file.toWire]? = none) :
    Committed P file (input.2.effect (contentOf P file state.1)) (dataStep P state input).1 ∧
      input.2.Fits (contentOf P file state.1) ∧ input.1.Of file (dataStep P state input).1 :=
  have hrun := Outcome.eq_ok h.2.2
  have hcommitted := run_eq_ok hP h.1 h.2.1 hstaged hrun
  ⟨hcommitted.1, hcommitted.2, of_names (names_of_run hrun) h.1⟩

/-- When the callbacks on a file succeed, reads return what is expected throughout exactly if each
callback conforms, with the bytes that the file is expected to hold when it comes. After the first
callback, reads return. -/
theorem data_callbacks_iff (hP : P.Correct) (hstaged : s.store.staged[file.toWire]? = none)
    (inputs : List (DlpFileHandle × DataOperation))
    (hall : Along (dataStep P) (Succeeds P file) (s, contentOf P file s) inputs) :
    (Throughout (dataStep P) (ReadsExpected P file) (s, contentOf P file s) inputs ↔
      Along (dataStep P) (fun state input => input.2.Conforms state.2) (s, contentOf P file s)
        inputs) ∧
    (inputs ≠ [] → Readable P file (inputs.foldl (dataStep P) (s, contentOf P file s)).1) := by
  refine ⟨throughout_iff_along_of (B := AsExpected P file) ?_ ?_ ?_ inputs ⟨hstaged, rfl⟩ hall, ?_⟩
  · intro state h context length offset bytes t hof hread
    rw [read_eq_ok hof hread, h.content]
  · intro state input h hsucceeds hconforms
    obtain ⟨hcommitted, -, -⟩ := hsucceeds.committed hP h.unstaged
    rw [h.content, DataOperation.effect_eq_model hconforms] at hcommitted
    exact ⟨hcommitted.unstaged, hcommitted.readsBack.contentOf_eq⟩
  · -- a callback that does not conform leaves a byte after the expected end
    intro state input h hsucceeds hconforms hread
    obtain ⟨hcommitted, hfits, hof⟩ := hsucceeds.committed hP h.unstaged
    rw [h.content] at hcommitted hfits
    obtain ⟨hlonger, hbound⟩ := DataOperation.length_model_lt hfits hconforms
    obtain ⟨t, ht⟩ := read_of_readsBack hcommitted.readsBack hof 1 (by norm_num)
      (UInt64.ofNat (input.2.model state.2).length)
    have heq := congrArg List.length (hread _ _ _ _ _ hof ht)
    rw [UInt64.toNat_ofNat_of_lt' hbound, List.length_take, List.length_take, List.length_drop,
      List.length_drop] at heq
    change min 1 _ = min 1 ((input.2.model state.2).length - _) at heq
    omega
  · cases inputs with
    | nil => exact fun h => absurd rfl h
    | cons input inputs =>
      intro _
      obtain ⟨hcommitted, -, -⟩ := hall.1.committed hP hstaged
      have hlast := Along.foldl (B := fun state => ∃ data, Committed P file data state.1)
        (fun state input h hsucceeds => by
          obtain ⟨data, hdata⟩ := h
          exact ⟨_, (hsucceeds.committed hP hdata.unstaged).1⟩) inputs ⟨_, hcommitted⟩ hall.2
      obtain ⟨data, hdata⟩ := hlast
      intro context length offset hof hlength
      obtain ⟨t, ht⟩ := read_of_readsBack hdata.readsBack hof length hlength offset
      exact ⟨_, t, ht⟩

/-- A process with an open file that holds three bytes. -/
def writtenSys : Sys :=
  ((World.empty []).run .plain (soleOpening ++ [.createOrOpen solePath true true,
    .writeHandle ⟨1⟩ 0 [1, 2, 3], .flushHandle ⟨1⟩].map .call)).sys

/-- The context of that file. -/
def writtenContext : DlpFileHandle := .ofFile solePath.1 ⟨1⟩

theorem writtenContext_of : writtenContext.Of createdFile writtenSys :=
  ⟨⟨1⟩, rfl, by decide +kernel⟩

theorem data_callbacks_iff_written :
    Throughout (dataStep .plain) (ReadsExpected .plain createdFile)
      (writtenSys, contentOf .plain createdFile writtenSys)
      [(writtenContext, .write [9] 0 true false)] := by
  have hsucceeds : Succeeds .plain createdFile (writtenSys, contentOf .plain createdFile writtenSys)
      (writtenContext, .write [9] 0 true false) :=
    ⟨writtenContext_of, by decide +kernel, by decide +kernel⟩
  exact (data_callbacks_iff Primitives.plain_correct (by decide +kernel)
    [(writtenContext, .write [9] 0 true false)] ⟨hsucceeds, trivial⟩).1.mpr ⟨nofun, trivial⟩

/-- Overwriting the file with an allocation of four bytes returns, and keeps its three bytes. -/
theorem overwrite_keeps_content :
    ((DataOperation.overwrite 4).run .plain writtenContext writtenSys).result? = some (.ok ()) ∧
      (read .plain writtenContext 9 0 ((DataOperation.overwrite 4).run .plain writtenContext
        writtenSys).state).result? = some (.ok [1, 2, 3, 0]) ∧
      contentOf .plain createdFile writtenSys = [1, 2, 3] ∧
      DataOperation.model [1, 2, 3] (.overwrite 4) = [] := by
  decide +kernel

/-! ### Writes after failures -/

/-- The callback is on a context of the file and returns, whatever happens on the disk. -/
def Returned (P : Primitives) (file : FileId) (state : Sys × Bytes)
    (input : DlpFileHandle × DataOperation) : Prop :=
  input.1.Of file state.1 ∧ (input.2.run P input.1 state.1).result? = some (.ok ())

/-- A callback that returns has committed something, and leaves nothing staged. -/
theorem exists_committed (hP : P.Correct) (hof : context.Of file s)
    (h : operation.run P context s = .ok () t) : ∃ data, Committed P file data t := by
  cases operation with
  | overwrite size =>
    obtain ⟨info, u, hrun, h⟩ := bind_eq_ok.mp h
    obtain ⟨-, rfl⟩ := pure_eq_ok.mp h
    exact ⟨_, overwrite_eq_ok hP hof hrun⟩
  | setFileSize size allocation =>
    obtain ⟨info, u, hrun, h⟩ := bind_eq_ok.mp h
    obtain ⟨-, rfl⟩ := pure_eq_ok.mp h
    exact ⟨_, setFileSize_eq_ok hP hof hrun⟩
  | write buffer offset writeToEof constrainedIo =>
    obtain ⟨reply, u, hrun, h⟩ := bind_eq_ok.mp h
    obtain ⟨-, rfl⟩ := pure_eq_ok.mp h
    obtain ⟨handle, hown, hfile⟩ := hof
    obtain ⟨begins, v, -, -, hcommitted⟩ := write_eq_ok hP hown hfile hrun
    exact ⟨_, hcommitted⟩

theorem Returned.unstaged (hP : P.Correct) (h : Returned P file state input) :
    (dataStep P state input).1.store.staged[file.toWire]? = none := by
  obtain ⟨data, hcommitted⟩ := exists_committed hP h.1 (Outcome.eq_ok h.2)
  exact hcommitted.unstaged

/-- The same process when the disk fails at the fifth step from now. -/
def failingSys : Sys :=
  writtenSys.withDisk { writtenSys.disk with fates := List.replicate 4 .ok ++ [.fail .other 0] }

end Runs

end Drive

end Wdlp
