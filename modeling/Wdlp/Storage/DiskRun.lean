import Wdlp.Storage.CallKeeps

/-!
# Disk and history over whole runs

What the code can ever do to the disk is a step of one of its operations (`CodeOp`), and what it
notes in the history is of a few kinds (`CodeNote`). A property of the disk and the history that
survives these holds at every moment of every run.

## Main definitions

* `CodeOp`, `CodeNote` — the steps and the notes of the code.
* `DiskInvariant` — a property of disk and history that these keep.

## Main results

* `DiskInvariant.callKeeps` — the calls keep it.
* `World.disk_run` — it holds over whole runs.
* `World.fits_run` — the disk keeps to the layout.
-/

namespace Wdlp

open CrashSafe

/-! ### Steps and notes -/

/-- The steps that the code takes on the disk. -/
inductive CodeOp : FsOp → Prop
  | stage {store : StoreId} {file : FileId} {generation : UInt64} {count : ℕ} {op : FsOp}
      (h : StageOp store file generation count op) : CodeOp op
  | publish {store : StoreId} {file : FileId} {generation : UInt64} {op : FsOp}
      (h : PublishOp store file generation op) : CodeOp op
  | persist {store : StoreId} {generation : UInt64} {op : FsOp}
      (h : PersistOp store generation op) : CodeOp op
  | evidence {op : FsOp} (h : EvidenceOp op) : CodeOp op
  | recover {store : StoreId} {file : FileId} {op : FsOp} (h : RecoverOp store file op) : CodeOp op
  | files (store : StoreId) : CodeOp (.createDirAll (filesDir store))

/-- What the code notes, after a history: what it seals belongs to a flush or to a namespace that was
noted before. -/
inductive CodeNote (keys : StoreId → StoreKey) (history : List HistoryEntry) : HistoryEntry → Prop
  | created {store : StoreId} {number : ℕ} {file : FileId} (h : newFileId number = .ok file) :
      CodeNote keys history (.created store number file)
  | sealedFlush {store : StoreId} {file : FileId} {generation : UInt64} {data : Bytes}
      {aad : RecordAad} {plaintext : Bytes}
      (h : .flushing (keys store) store file generation data ∈ history)
      (hr : FlushRecord store file generation data aad plaintext) :
      CodeNote keys history (.sealed (keys store) aad plaintext)
  | persisting {store : StoreId} {generation : UInt64} {directories : Map Text DirectoryEntry}
      {files : Map Text FileEntry} :
      CodeNote keys history (.persisting (keys store) store generation directories files)
  | sealedNamespace {store : StoreId} {generation : UInt64} {s : Store}
      (h : .persisting (keys store) store generation s.directories s.files ∈ history) :
      CodeNote keys history (.sealed (keys store)
        (namespaceAad store generation s.namespaceBytes.length) s.namespaceBytes)

theorem CodeOp.suits {op : FsOp} (h : CodeOp op) : op.Suits nodeKind := by
  cases h with
  | stage h => exact h.suits
  | publish h => exact h.suits
  | persist h => exact h.suits
  | evidence h => exact h.suits
  | recover h => exact h.suits
  | files store =>
    exact fun q hne hq => nodeKind_of_prefix_filesDir hne hq

/-- A property of the disk, the history and the next generation that everything the code does
keeps. -/
structure DiskInvariant (keys : StoreId → StoreKey) (I : Fs → List HistoryEntry → UInt64 → Prop) :
    Prop where
  ops : ∀ {fs fs' : Fs} {history : List HistoryEntry} {next : UInt64} {op : FsOp}, CodeOp op →
    op.Leaves fs fs' → I fs history next → I fs' history next
  notes : ∀ {fs : Fs} {history : List HistoryEntry} {next : UInt64} {entry : HistoryEntry},
    CodeNote keys history entry → I fs history next → I fs (history ++ [entry]) next
  flushes : ∀ {fs : Fs} {history : List HistoryEntry} {next : UInt64} {store : StoreId}
    {file : FileId} {data : Bytes}, I fs history next →
      I fs (history ++ [.flushing (keys store) store file next data]) (next + 1)

theorem fits_invariant {keys : StoreId → StoreKey} :
    DiskInvariant keys fun fs _ _ => fs.Fits nodeKind :=
  ⟨fun hop hl h => h.leaves hop.suits hl, fun _ h => h, fun h => h⟩

/-- The property holds, and the process works on the store with its key. -/
structure Holding (I : Fs → List HistoryEntry → UInt64 → Prop) (store : StoreId) (key : StoreKey)
    (c : Core) : Prop where
  holds : I c.fs c.history c.counters.nextGeneration
  storeId : c.store.storeId = store
  key : c.store.key = key

/-! ### Calls -/

namespace DiskInvariant

variable {P : Primitives} {keys : StoreId → StoreKey} {I : Fs → List HistoryEntry → UInt64 → Prop}
  {store : StoreId} {file : FileId} (hI : DiskInvariant keys I)

include hI

theorem allows {op : FsOp} (h : CodeOp op) : Allows (Holding I store (keys store)) op :=
  fun _ _ hl hc => ⟨hI.ops h hl hc.holds, hc.storeId, hc.key⟩

theorem keeps_noted {entry : HistoryEntry} (h : ∀ history, CodeNote keys history entry) (c : Core)
    (hc : Holding I store (keys store) c) : Holding I store (keys store) (c.noted entry) :=
  ⟨hI.notes (h _) hc.holds, hc.storeId, hc.key⟩

theorem persistKeeps : PersistKeeps (Holding I store (keys store)) store (keys store) where
  session _ hc := ⟨hc.storeId, hc.key⟩
  ops _ _ hop := hI.allows (.persist hop)
  begins c _ _ hc _ := hI.keeps_noted (fun _ => .persisting) c hc
  seals _ _ _ hc _ hmem := ⟨hI.notes (.sealedNamespace hmem) hc.holds, hc.storeId, hc.key⟩
  counts _ _ hc := ⟨hc.holds, hc.storeId, hc.key⟩

theorem recoverKeeps : RecoverKeeps (Holding I store (keys store)) store file where
  ops _ hop := hI.allows (.evidence hop)
  counts _ _ _ hc := ⟨hc.holds, hc.storeId, hc.key⟩
  session _ hc := hc.storeId
  recovers _ hop := hI.allows (.recover hop)

theorem flushKeeps {generation : UInt64} {data : Bytes} :
    FlushKeeps (fun c => Holding I store (keys store) c ∧
      .flushing (keys store) store file generation data ∈ c.history) store (keys store) file
      generation data where
  session _ hc := ⟨hc.1.storeId, hc.1.key⟩
  stages _ hop := (hI.allows (.stage hop)).and_mem _
  seals _ _ _ hc hr := ⟨⟨hI.notes (.sealedFlush hc.2 hr) hc.1.holds, hc.1.storeId, hc.1.key⟩,
    List.mem_append_left _ hc.2⟩
  faults _ hc := ⟨⟨hc.1.holds, hc.1.storeId, hc.1.key⟩, hc.2⟩
  publishes _ hop := (hI.allows (.publish hop)).and_mem _

/-- The changes in memory have nothing to do with the disk. -/
theorem callKeeps : CallKeeps (Holding I store (keys store)) store (keys store) where
  persists := hI.persistKeeps
  recovers _ := hI.recoverKeeps
  begins _ _ _ hc := ⟨hI.flushes hc.holds, hc.storeId, hc.key⟩
  flushes _ _ _ := hI.flushKeeps
  creates c _ _ hfile := hI.keeps_noted (fun _ => .created hfile) c
  counts c counters hnext hc := by
    refine ⟨?_, hc.storeId, hc.key⟩
    change I c.fs c.history counters.nextGeneration
    exact hnext ▸ hc.holds
  edits _ _ hc hb := ⟨hc.holds,
    (congrArg CapturedStoreIdentity.storeId hb.identity).trans hc.storeId, hb.key.trans hc.key⟩

theorem keeps_openStore {identity : CapturedStoreIdentity} {key : StoreKey} :
    Keeps (fun c => I c.fs c.history c.counters.nextGeneration) (openStore P identity key) := by
  refine OpenKeeps.keeps_openStore ⟨⟨fun op hop c fs hl hc => ?_, fun _ _ _ hc => hc⟩, ?_, ?_⟩ rfl
  · exact hI.ops (.evidence hop) hl hc
  · exact fun c fs hl hc => hI.ops (.files _) hl hc
  · exact fun _ _ hc => hc

end DiskInvariant

/-! ### Runs -/

namespace World

variable {P : Primitives} {keys : StoreId → StoreKey} {I : Fs → List HistoryEntry → UInt64 → Prop}
  {w w₀ : World}

/-- The property holds of the disk, the history and the next generation. -/
def DiskHolds (I : Fs → List HistoryEntry → UInt64 → Prop) (w : World) : Prop :=
  I w.sys.disk.fs w.sys.history w.sys.counters.nextGeneration

/-- The property survives the start of a process, if the input is one. -/
def Survives (I : Fs → List HistoryEntry → UInt64 → Prop) (w : World) (i : Input) : Prop :=
  i = .start → I w.sys.disk.fs w.sys.history 1

theorem disk_step (hI : DiskInvariant keys I) {i : Input} (hi : ∀ fs, i ≠ .tamper fs)
    (hkey : w.phase = .opened → w.sys.store.key = keys w.sys.store.storeId)
    (hstart : w.Survives I i) (h : w.DiskHolds I) : (w.step P i).DiskHolds I := by
  have hafter : ∀ {phase : Phase} {o : Outcome Sys StorageError Unit},
      (after phase o).sys = o.state := by
    intro phase o
    cases o <;> rfl
  cases i with
  | start => exact hstart rfl
  | openStore identity key =>
    rw [World.step]
    split
    · exact h
    · rw [DiskHolds, hafter]
      exact hI.keeps_openStore.state h
  | call call =>
    rw [World.step]
    split
    · next hphase =>
      rw [DiskHolds, hafter]
      have hholding : Holding I w.sys.store.storeId (keys w.sys.store.storeId) w.sys.core :=
        ⟨h, rfl, hkey hphase⟩
      exact ((hI.callKeeps.keeps_call call).state hholding).holds
    · exact h
  | tamper fs => exact absurd rfl (hi fs)

variable {inputs : List Input}

/-- A property that everything the code does keeps holds over the runs in which it survives the start
of each process. -/
theorem disk_along (hP : P.Correct) (hI : DiskInvariant keys I) (hfresh : w₀.Fresh)
    (h₀ : w₀.DiskHolds I)
    (hall : w₀.Along P (fun w i => i.Keyed keys ∧ (w.DiskHolds I → w.Survives I i)) inputs) :
    (w₀.run P inputs).DiskHolds I := by
  refine (along_induction (I := fun w => w.Holds P keys (fun _ _ n => n.WellFormed) ∧
    w.DiskHolds I) (fun w i hi h => ?_) inputs hall ⟨hfresh.holds, h₀⟩).2
  have htamper : ∀ fs, i ≠ .tamper fs := fun fs heq => (heq ▸ hi.1 : (Input.tamper fs).Keyed keys)
  refine ⟨h.1.step hP wellFormed_invariant (admits_of_keyed hi.1),
    disk_step hI htamper ?_ (hi.2 h.2) h.2⟩
  exact fun hphase => (h.1.live hphase).key

/-- A property of disk and history that everything the code does keeps holds over whole runs. -/
theorem disk_run {I : Fs → List HistoryEntry → Prop} (hP : P.Correct)
    (hI : DiskInvariant keys fun fs history _ => I fs history) (hfresh : w₀.Fresh) (h₀ : I ∅ [])
    (hkeyed : ∀ i ∈ inputs, i.Keyed keys) :
    I (w₀.run P inputs).sys.disk.fs (w₀.run P inputs).sys.history := by
  have h₀' : w₀.DiskHolds fun fs history _ => I fs history := by
    unfold DiskHolds
    rw [hfresh.1, hfresh.2.1]
    exact h₀
  exact disk_along hP hI hfresh h₀' (along_of_forall (fun _ _ hi => ⟨hi, fun h _ => h⟩) inputs hkeyed)

/-- At every moment of every run, the disk keeps to the layout. -/
theorem fits_run (hP : P.Correct) (hfresh : w₀.Fresh)
    (hkeyed : ∀ i ∈ inputs, i.Keyed keys) : (w₀.run P inputs).sys.disk.fs.Fits nodeKind :=
  disk_run (I := fun fs _ => fs.Fits nodeKind) hP fits_invariant hfresh Fs.Fits.empty hkeyed

end World

end Wdlp
