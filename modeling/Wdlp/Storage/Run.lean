import Wdlp.Storage.Namespace

/-!
# Processes and their calls

A process opens a store and makes calls on it. It ends when it is stopped or cut off in a step on
the disk, and the next process starts with its counters at their initial values. Between two calls
the disk may be changed from outside.

The fates of the steps on the disk are part of the state, so that a run is determined by the state
it starts from and by its inputs: a result on all initial states covers all patterns of failures and
cut-offs.

## Main definitions

* `Call`, `Call.run` — the calls on an opened store.
* `Input`, `World`, `World.step`, `World.run` — what can happen to a root over time.
* `Input.Keyed` — the inputs of a run in which each store is opened with its key.

## Main results

* `World.along_induction`, `World.run_induction` — what every step keeps, every run keeps.
-/

namespace Wdlp

open CrashSafe

/-! ### Calls -/

/-- The calls that a process can make on the store it has opened. -/
inductive Call where
  | createDirectory (path : ParsedPath)
  | createOrOpen (path : ParsedPath) (create allowDelete : Bool)
  | rename (source destination : ParsedPath) (replace : Bool)
  | delete (path : ParsedPath)
  | writeHandle (handle : FileHandle) (offset : UInt64) (bytes : Bytes)
  | readHandle (handle : FileHandle)
  | truncateHandle (handle : FileHandle) (length : UInt64)
  | flushHandle (handle : FileHandle)
  | closeHandle (handle : FileHandle)
  | readPath (path : ParsedPath)
  | entryMetadata (path : VirtualPath)
  | write (file : FileId) (bytes : Bytes)
  | writeAt (file : FileId) (offset : UInt64) (bytes : Bytes)
  | flushFile (file : FileId)
  | read (file : FileId)
  | recoverStore (file : FileId)

/-- The operation behind a call, without its result. -/
def Call.run (P : Primitives) : Call → Op Unit
  | createDirectory path => Wdlp.createDirectory P path.1
  | createOrOpen path create allowDelete => do
    let _ ← Wdlp.createOrOpen P path.1 create allowDelete
  | rename source destination replace => Wdlp.rename P source.1 destination.1 replace
  | delete path => Wdlp.delete P path.1
  | writeHandle handle offset bytes => Wdlp.writeHandle P handle offset bytes
  | readHandle handle => do
    let _ ← Wdlp.readHandle P handle
  | truncateHandle handle length => Wdlp.truncateHandle P handle length
  | flushHandle handle => Wdlp.flushHandle P handle
  | closeHandle handle => Wdlp.closeHandle P handle
  | readPath path => do
    let _ ← Wdlp.readPath P path.1
  | entryMetadata path => do
    let _ ← Wdlp.entryMetadata path
  | write file bytes => Wdlp.write file bytes
  | writeAt file offset bytes => Wdlp.writeAt P file offset bytes
  | flushFile file => do
    let _ ← Wdlp.flushFile P file
  | read file => do
    let _ ← readFile P file
  | recoverStore file => do
    let _ ← Wdlp.recoverStore P file

/-! ### Runs -/

/-- Whether there is a process, and whether it has opened a store. -/
inductive Phase where
  | stopped
  | started
  | opened
  deriving DecidableEq, Repr

/-- What can happen: a new process starts, the process opens a store or makes a call on it, or the
disk is changed from outside. -/
inductive Input where
  | start
  | openStore (identity : CapturedStoreIdentity) (key : StoreKey)
  | call (call : Call)
  | tamper (fs : Fs)

/-- The inputs of a run in which each store is always opened with its key, and nobody else changes the
disk. -/
def Input.Keyed (keys : StoreId → StoreKey) : Input → Prop
  | start => True
  | openStore identity key => key = keys identity.storeId
  | call _ => True
  | tamper _ => False

/-- A root with the process that works on it. -/
structure World where
  sys : Sys
  phase : Phase

namespace World

/-- The world after an operation: one that failed leaves the process in the given phase. -/
def after {α : Type} (failed : Phase) : Outcome Sys StorageError α → World
  | .ok _ s => ⟨s, .opened⟩
  | .err _ s => ⟨s, failed⟩
  | .crash s => ⟨s, .stopped⟩

/-- One step of a run. -/
def step (P : Primitives) (w : World) : Input → World
  | .start => ⟨{ w.sys with counters := {} }, .started⟩
  | .openStore identity key =>
    if w.phase = .stopped then w else after .started (Wdlp.openStore P identity key w.sys)
  | .call call => if w.phase = .opened then after .opened (call.run P w.sys) else w
  | .tamper fs => ⟨w.sys.withDisk { w.sys.disk with fs := fs }, w.phase⟩

/-- A run. -/
def run (P : Primitives) (w : World) (inputs : List Input) : World := inputs.foldl (step P) w

/-- Nothing was done yet, on an empty root. -/
def Fresh (w : World) : Prop :=
  w.sys.disk.fs = ∅ ∧ w.sys.history = [] ∧ w.phase = .stopped

variable {P : Primitives} {w : World} {inputs : List Input}

@[simp] theorem run_nil : w.run P [] = w := rfl

@[simp] theorem run_cons {i : Input} : w.run P (i :: inputs) = (w.step P i).run P inputs := rfl

theorem run_append {later : List Input} :
    w.run P (inputs ++ later) = (w.run P inputs).run P later :=
  List.foldl_append

/-- A condition holds of every input of a run, at the moment when it comes. -/
def Along (P : Primitives) (R : World → Input → Prop) : World → List Input → Prop
  | _, [] => True
  | w, i :: inputs => R w i ∧ Along P R (w.step P i) inputs

variable {I : World → Prop} {R : World → Input → Prop}

/-- What every step keeps, every run keeps. -/
theorem along_induction
    (hstep : ∀ w i, R w i → I w → I (w.step P i)) : (inputs : List Input) → {w : World} →
    w.Along P R inputs → I w → I (w.run P inputs)
  | [], _, _, h => h
  | i :: inputs, w, hall, h => along_induction hstep inputs hall.2 (hstep w i hall.1 h)

variable {A : Input → Prop}

theorem along_of_forall (h : ∀ w i, A i → R w i) :
    (inputs : List Input) → {w : World} → (∀ i ∈ inputs, A i) → w.Along P R inputs
  | [], _, _ => trivial
  | i :: inputs, w, hall => ⟨h w i (hall i List.mem_cons_self),
    along_of_forall h inputs fun j hj => hall j (List.mem_cons_of_mem _ hj)⟩

theorem run_induction (hstep : ∀ w i, A i → I w → I (w.step P i)) (inputs : List Input) {w : World}
    (hall : ∀ i ∈ inputs, A i) (h : I w) : I (w.run P inputs) :=
  along_induction hstep inputs (along_of_forall (fun _ _ => id) inputs hall) h

end World

/-! ### A concrete start -/

/-- A process with a store on an empty root. -/
def Sys.fresh (identity : CapturedStoreIdentity) (key : StoreKey) (nonces : Stream' Nonce)
    (fates : List Fate) : Sys where
  disk := { fs := ∅, fates := fates }
  nonces := nonces
  clock := fun _ => 0
  counters := {}
  store := { identity, key }
  history := []

/-- Nonces that count up. -/
def countingNonces : Stream' Nonce := fun n => ⟨leBytes nonceLength n, length_leBytes _ _⟩

theorem length_zeroKey : (List.replicate 32 (0 : UInt8)).length = 32 := List.length_replicate

/-- A key of zeros. -/
def zeroKey : StoreKey := ⟨List.replicate 32 0, length_zeroKey⟩

/-- A session of one user. -/
def soleIdentity : CapturedStoreIdentity where
  userSid := ⟨['u'], by decide, by decide⟩
  storeId := ⟨['s'], by decide, by decide⟩

/-- A file of that user. -/
def soleFile : FileId := ⟨['f'], by decide, by decide⟩

/-- The first file that a process creates. -/
def createdFile : FileId := ⟨"file-00000000000000000001".toList, by decide, by decide⟩

/-- A path with one component. -/
def solePath : ParsedPath := .ofInput ['D'] (by decide +kernel)

/-- A path inside it. -/
def innerPath : ParsedPath := .ofInput ['d', '/', 'F'] (by decide +kernel)

/-- Another path with one component. -/
def otherPath : ParsedPath := .ofInput ['E'] (by decide +kernel)

/-- An empty root on which nothing was done. -/
def World.empty (fates : List Fate) : World where
  sys := .fresh soleIdentity zeroKey countingNonces fates
  phase := .stopped

theorem World.empty_fresh {fates : List Fate} : (World.empty fates).Fresh := ⟨rfl, rfl, rfl⟩

/-- A process starts and opens the store. -/
def soleOpening : List Input := [.start, .openStore soleIdentity zeroKey]

/-- The one key that is used. -/
def soleKeys : StoreId → StoreKey := fun _ => zeroKey

theorem soleOpening_keyed {calls : List Call} :
    ∀ i ∈ soleOpening ++ calls.map .call, i.Keyed soleKeys := by
  intro i hi
  rcases List.mem_append.mp hi with hi | hi
  · simp only [soleOpening, List.mem_cons, List.not_mem_nil, or_false] at hi
    rcases hi with rfl | rfl
    · trivial
    · rfl
  · obtain ⟨call, -, rfl⟩ := List.mem_map.mp hi
    trivial

end Wdlp
