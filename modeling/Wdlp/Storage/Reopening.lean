import Wdlp.Storage.Quarantine
import Wdlp.Storage.Generations

/-!
# A store that was opened again

A process that opens a store loads its names from the disk and touches nothing else there: evidence
of a namespace is kept only when the store is not opened. A process that starts after a crash and
opens the store works on the disk that the crash has left, with its counters at the beginning.

## Main definitions

* `Reopened` — a store was opened by a new process on the disk of a state.

## Main results

* `openStore_yields` — what opening a store gives when it returns.
* `reopened_of_openStore` — a new process that opens the store.
-/

namespace Wdlp

open CrashSafe

variable {P : Primitives} {identity : CapturedStoreIdentity} {key : StoreKey} {s t u : Sys}

/-- The state while a store is loaded: only its names have changed. -/
structure Loading (identity : CapturedStoreIdentity) (key : StoreKey) (s t : Sys) : Prop where
  disk : t.disk = s.disk
  counters : t.counters = s.counters
  store : ∃ directories files generation, t.store =
    { identity, key, directories, files, namespaceGeneration := generation }

theorem rejectNamespace_yields {α : Type} {Q : α → Sys → Prop} :
    (rejectNamespace P : Op α).Yields Q s := by
  intro a t h
  obtain ⟨_, _, -, hthrow⟩ := Act.bind_eq_ok.mp h
  cases hthrow

theorem orReject_yields {α : Type} (x : Except StorageError α) :
    (orReject P x).Yields (fun _ t => t = s) s := by
  cases x with
  | ok a => exact .pure rfl
  | error e => exact rejectNamespace_yields

namespace Loading

theorem loadDirectory_yields (h : Loading identity key s t) {name : Text} {entry : DirectoryEntry} :
    (loadDirectory P name entry).Yields (fun _ t => Loading identity key s t) t := by
  refine .bind_of_ok rfl ?_
  refine .bind (Q := fun _ u => Loading identity key s u) ?_ fun _ u hu => ?_
  · intro _ u hu
    obtain ⟨-, rfl⟩ := Outcome.ok.inj hu
    obtain ⟨directories, files, generation, hstore⟩ := h.store
    refine ⟨h.disk, h.counters, directories.insert name entry, files, generation, ?_⟩
    change { t.store with directories := t.store.directories.insert name entry } = _
    rw [hstore]
  · exact .ite (fun _ => rejectNamespace_yields) fun _ => .pure hu

theorem loadFile_yields (h : Loading identity key s t) {name : Text} {entry : FileEntry} :
    (loadFile P name entry).Yields (fun _ t => Loading identity key s t) t := by
  refine .bind_of_ok rfl ?_
  refine .bind (Q := fun _ u => Loading identity key s u) ?_ fun _ u hu => ?_
  · intro _ u hu
    obtain ⟨-, rfl⟩ := Outcome.ok.inj hu
    obtain ⟨directories, files, generation, hstore⟩ := h.store
    refine ⟨h.disk, h.counters, directories, files.insert name entry, generation, ?_⟩
    change { t.store with files := t.store.files.insert name entry } = _
    rw [hstore]
  · exact .ite (fun _ => rejectNamespace_yields) fun _ => .pure hu

theorem ofExcept_yields {α : Type} (x : Except StorageError α) :
    (Act.ofExcept x : Op α).Yields (fun _ u => u = t) t :=
  fun _ _ h => (Act.ofExcept_eq_ok.mp h).2.symm

section

variable (h : Loading identity key s t)

include h

theorem loadLineV2_yields (line : Text) :
    (loadLineV2 P line).Yields (fun _ t => Loading identity key s t) t := by
  unfold loadLineV2
  split
  · refine .ite (fun _ => ?_) fun _ => rejectNamespace_yields
    refine .bind (ofExcept_yields _) ?_
    rintro _ t rfl
    exact h.loadDirectory_yields
  · refine .ite (fun _ => ?_) fun _ => rejectNamespace_yields
    refine .bind (ofExcept_yields _) ?_
    rintro _ t rfl
    refine .bind (ofExcept_yields _) ?_
    rintro _ t rfl
    exact h.loadFile_yields
  · exact rejectNamespace_yields

theorem loadLineV1_yields (fallback : EntryMetadata) (line : Text) :
    (loadLineV1 P fallback line).Yields (fun _ t => Loading identity key s t) t := by
  unfold loadLineV1
  split
  · exact .ite (fun _ => h.loadDirectory_yields) fun _ => rejectNamespace_yields
  · refine .ite (fun _ => ?_) fun _ => rejectNamespace_yields
    refine .bind (ofExcept_yields _) ?_
    rintro _ t rfl
    exact h.loadFile_yields
  · exact rejectNamespace_yields

theorem loadLines_yields (lines : List Text) :
    (loadLines P lines).Yields (fun _ t => Loading identity key s t) t := by
  cases lines with
  | nil => exact rejectNamespace_yields
  | cons header lines =>
    refine .ite (fun _ => ?_) fun _ => .ite (fun _ => ?_) fun _ => rejectNamespace_yields
    · exact .forEach (fun _ t => Loading identity key s t)
        (fun line _ _ h => h.loadLineV2_yields line) lines h
    · refine .bind (Q := fun _ u => Loading identity key s u) ?_ fun now u hu => ?_
      · intro _ u hu
        obtain ⟨-, rfl⟩ := Outcome.ok.inj hu
        exact ⟨h.disk, h.counters, h.store⟩
      · exact .forEach (fun _ t => Loading identity key s t)
          (fun line _ _ h => h.loadLineV1_yields _ line) lines hu

theorem loadNamespace_yields (hquiet : s.disk.fates = []) :
    (loadNamespace P).Yields (fun _ t => Loading identity key s t) t := by
  refine .bind_of_ok rfl ?_
  refine .bind_of_ok rfl ?_
  refine .ite (fun _ => ?_) fun _ => .pure h
  refine .bind (fun _ _ hread => (readBytes_ok (h.disk ▸ hquiet) hread).2) ?_
  rintro raw t rfl
  refine .bind_of_ok rfl ?_
  refine .bind (orReject_yields _) ?_
  rintro record t rfl
  refine .bind (orReject_yields _) ?_
  rintro _ t rfl
  refine .bind (orReject_yields _) ?_
  rintro plaintext t rfl
  refine .bind (fun _ _ h => (Act.ofOption_eq_ok.mp h).2.symm) ?_
  rintro text t rfl
  refine .bind (h.loadLines_yields _) fun _ u hu => ?_
  intro _ v hv
  obtain ⟨-, rfl⟩ := Outcome.ok.inj hv
  obtain ⟨directories, files, generation, hstore⟩ := hu.store
  refine ⟨hu.disk, hu.counters, directories, files, record.generation, ?_⟩
  change { u.store with namespaceGeneration := record.generation } = _
  rw [hstore]

end

end Loading

/-- What opening a store gives when it returns. -/
theorem openStore_yields (hquiet : s.disk.fates = []) :
    (openStore P identity key).Yields (fun _ t => Loading identity key
      (s.ran (s.disk.fs.insertDirs (Fs.ancestors (filesDir identity.storeId)))) t) s := by
  refine .bind io_yields ?_
  rintro _ _ ⟨fs, heffect, rfl⟩
  obtain ⟨-, rfl⟩ := FsOp.effect_createDirAll.mp heffect
  refine .bind (Q := fun _ u => Loading identity key
    (s.ran (s.disk.fs.insertDirs (Fs.ancestors (filesDir identity.storeId)))) u) ?_
    fun _ u hu => hu.loadNamespace_yields (fates_ran hquiet)
  intro _ u hu
  obtain ⟨-, rfl⟩ := Outcome.ok.inj hu
  exact ⟨rfl, rfl, ∅, ∅, 0, rfl⟩

/-- A new process works on the disk of `t`, with a store of the same identity and key. -/
structure Reopened (t u : Sys) : Prop where
  quiet : u.disk.fates = []
  counters : u.counters = {}
  storeId : u.store.storeId = t.store.storeId
  key : u.store.key = t.store.key
  disk : ∀ q : Path, u.disk.fs[q]? = t.disk.fs[q]?

/-- A process that starts on the disk of `t` and opens the store, which has directories already. -/
theorem reopened_of_openStore (hid : identity.storeId = t.store.storeId) (hkey : key = t.store.key)
    (hdirs : ∀ q, q ≠ [] → q <+: filesDir identity.storeId → t.disk.fs[q]? = some .dir)
    (hopen : openStore P identity key { t.quiet with counters := {} } = .ok () u) :
    Reopened t u := by
  have hloading := openStore_yields (by rfl) _ _ hopen
  obtain ⟨directories, files, generation, hstore⟩ := hloading.store
  refine ⟨?_, hloading.counters, ?_, ?_, fun q => ?_⟩
  · rw [hloading.disk]
    rfl
  · rw [hstore, ← hid]
    rfl
  · rw [hstore, ← hkey]
  · rw [hloading.disk]
    refine (Fs.get_insertDirs _).trans ?_
    split_ifs with hmem
    · obtain ⟨hne, hpre⟩ := Fs.mem_ancestors.mp hmem
      exact (hdirs q hne hpre).symm
    · rfl

end Wdlp
