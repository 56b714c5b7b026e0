import Wdlp.Storage.Tree

/-!
# What the calls keep

The calls change the store in memory in a few ways only. An entry of the namespace gets times that
an entry had before, or that the clock shows, and the session stays the same (`Edited`). A property
of the core that survives this, and what the calls do to the disk and the history, is kept by every
call, however it ends.

## Main definitions

* `GivenTimes` — the times that the code gives to an entry.
* `Edited` — a change of the store in memory.
* `CallKeeps` — what it takes for a property to be kept by the calls.

## Main results

* `CallKeeps.keeps_call` — the calls keep it.
-/

namespace Wdlp

open CrashSafe Act

/-! ### Changes of the store in memory -/

/-- The times of an entry: those of an entry of a store in `J`, or new ones, in part or in full. -/
inductive GivenTimes (J : Core → Prop) : EntryMetadata → Prop
  | directory {c : Core} {name : Text} {entry : DirectoryEntry} (h : J c)
      (hentry : c.store.directories[name]? = some entry) : GivenTimes J entry.metadata
  | file {c : Core} {name : Text} {entry : FileEntry} (h : J c)
      (hentry : c.store.files[name]? = some entry) : GivenTimes J entry.metadata
  | new (nanoseconds : UInt64) : GivenTimes J (.new (filetime nanoseconds))
  | accessed {m : EntryMetadata} (h : GivenTimes J m) (nanoseconds : UInt64) :
      GivenTimes J (m.accessed (filetime nanoseconds))
  | written {m : EntryMetadata} (h : GivenTimes J m) (nanoseconds : UInt64) :
      GivenTimes J (m.written (filetime nanoseconds))
  | changed {m : EntryMetadata} (h : GivenTimes J m) (nanoseconds : UInt64) :
      GivenTimes J (m.changed (filetime nanoseconds))

def GivenDirectories (J : Core → Prop) (directories : Map Text DirectoryEntry) : Prop :=
  ∀ (name : Text) (entry : DirectoryEntry), directories[name]? = some entry →
    GivenTimes J entry.metadata

def GivenFiles (J : Core → Prop) (files : Map Text FileEntry) : Prop :=
  ∀ (name : Text) (entry : FileEntry), files[name]? = some entry → GivenTimes J entry.metadata

/-- The store was changed in memory. -/
structure Edited (J : Core → Prop) (a b : Store) : Prop where
  identity : b.identity = a.identity
  key : b.key = a.key
  directories : GivenDirectories J b.directories
  files : GivenFiles J b.files

/-- What it takes for a property to be kept by the calls on a store. -/
structure CallKeeps (J : Core → Prop) (store : StoreId) (key : StoreKey) : Prop where
  persists : PersistKeeps J store key
  recovers : ∀ file, RecoverKeeps J store file
  begins : ∀ c file data, J c → J ((c.withCounters { c.counters with
    nextGeneration := c.counters.nextGeneration + 1 }).noted
      (.flushing key store file c.counters.nextGeneration data))
  flushes : ∀ file generation data, FlushKeeps (fun c => J c ∧
    .flushing key store file generation data ∈ c.history) store key file generation data
  creates : ∀ c number file, newFileId number = .ok file → J c →
    J (c.noted (.created store number file))
  counts : ∀ c counters, counters.nextGeneration = c.counters.nextGeneration → J c →
    J (c.withCounters counters)
  edits : ∀ c b, J c → Edited J c.store b → J (c.withStore b)

section Edits

variable {J : Core → Prop} {c : Core} {name : Text} {store : Store}

theorem GivenDirectories.of_core (h : J c) : GivenDirectories J c.store.directories :=
  fun _ _ hentry => .directory h hentry

theorem GivenFiles.of_core (h : J c) : GivenFiles J c.store.files :=
  fun _ _ hentry => .file h hentry

theorem GivenDirectories.of_store (h : ∃ c, J c ∧ c.store = store) :
    GivenDirectories J store.directories := by
  obtain ⟨c, hc, rfl⟩ := h
  exact .of_core hc

theorem GivenFiles.of_store (h : ∃ c, J c ∧ c.store = store) : GivenFiles J store.files := by
  obtain ⟨c, hc, rfl⟩ := h
  exact .of_core hc

variable {directories : Map Text DirectoryEntry}

theorem GivenDirectories.insert {entry : DirectoryEntry}
    (h : GivenDirectories J directories) (hentry : GivenTimes J entry.metadata) :
    GivenDirectories J (directories.insert name entry) := by
  intro other entry' hget
  rw [Map.get_insert] at hget
  split at hget
  · cases hget
    exact hentry
  · exact h other entry' hget

theorem GivenDirectories.erase
    (h : GivenDirectories J directories) : GivenDirectories J (directories.erase name) := by
  intro other entry hget
  rw [Map.get_erase] at hget
  split at hget
  · cases hget
  · exact h other entry hget

variable {files : Map Text FileEntry}

theorem GivenFiles.insert {entry : FileEntry} (h : GivenFiles J files)
    (hentry : GivenTimes J entry.metadata) : GivenFiles J (files.insert name entry) := by
  intro other entry' hget
  rw [Map.get_insert] at hget
  split at hget
  · cases hget
    exact hentry
  · exact h other entry' hget

theorem GivenFiles.erase (h : GivenFiles J files) : GivenFiles J (files.erase name) := by
  intro other entry hget
  rw [Map.get_erase] at hget
  split at hget
  · cases hget
  · exact h other entry hget

/-- The session and the namespace stay the same. -/
theorem Edited.apart (h : J c) {b : Store} (hidentity : b.identity = c.store.identity)
    (hkey : b.key = c.store.key) (hdirectories : b.directories = c.store.directories)
    (hfiles : b.files = c.store.files) : Edited J c.store b :=
  ⟨hidentity, hkey, hdirectories ▸ .of_core h, hfiles ▸ .of_core h⟩

theorem Edited.withDirectories (h : J c)
    (hd : GivenDirectories J directories) : Edited J c.store { c.store with directories } :=
  ⟨rfl, rfl, hd, GivenFiles.of_core h⟩

theorem Edited.withFiles (h : J c) (hf : GivenFiles J files) :
    Edited J c.store { c.store with files } :=
  ⟨rfl, rfl, GivenDirectories.of_core h, hf⟩

/-- The maps and handles of an earlier moment are restored. -/
theorem Edited.restore {prior : Store} (hprior : ∃ c, J c ∧ c.store = prior) (c : Core) :
    Edited J c.store (prior.restore c.store) := by
  have hdirectories : GivenDirectories J prior.directories := .of_store hprior
  have hfiles : GivenFiles J prior.files := .of_store hprior
  exact ⟨rfl, rfl, hdirectories, hfiles⟩

end Edits

/-! ### Calls -/

variable {J : Core → Prop}

/-- The next generation is drawn and an entry with it is added to the history, on which the rest
relies. -/
theorem keeps_draw_note_bind {α : Type} {entry : UInt64 → HistoryEntry}
    {f : UInt64 → Op α} {R : α → Prop} (hbegin : ∀ c, J c → J ((c.withCounters { c.counters with
      nextGeneration := c.counters.nextGeneration + 1 }).noted (entry c.counters.nextGeneration)))
    (hf : ∀ generation, Keeps (fun c => J c ∧ entry generation ∈ c.history) (f generation) R) :
    Keeps J (drawGeneration >>= fun generation => note (entry generation) >>= fun _ =>
      f generation) R := by
  intro s hs
  let u : Sys := { s with
    counters := { s.counters with nextGeneration := s.counters.nextGeneration + 1 }
    history := s.history ++ [entry s.counters.nextGeneration] }
  have hmem : entry s.counters.nextGeneration ∈ u.history :=
    List.mem_append_right _ (List.mem_singleton_self _)
  have hrest := hf s.counters.nextGeneration u ⟨hbegin s.core hs, hmem⟩
  refine (wp_bind _ _).mpr (wp_of_ok rfl (wp_bind_of_ok rfl ?_))
  exact wp_mono hrest (fun _ _ h => ⟨h.1.1, h.2⟩) (fun _ _ h => h.1) (fun _ h => h.1)

/-- The clock shows a time. -/
theorem keeps_filetime :
    Keeps J currentFiletime fun now => ∃ nanoseconds, now = filetime nanoseconds :=
  fun s h => ⟨h, s.clock.head, rfl⟩

namespace CallKeeps

variable {P : Primitives} {J : Core → Prop} {store : StoreId} {key : StoreKey} {file : FileId}
  {handle : FileHandle} {path source destination : VirtualPath} {name : Text}

section

variable (hJ : CallKeeps J store key)

include hJ

theorem keeps_edit {f : Store → Store} (hf : ∀ c, J c → Edited J c.store (f c.store)) :
    Keeps J (modifyStore f) := keeps_modifyStore fun c hc => hJ.edits c _ hc (hf c hc)

theorem keeps_persistOr {undo : Store → Store}
    (hundo : ∀ c, J c → Edited J c.store (undo c.store)) : Keeps J (persistOr P undo) :=
  .orRollback hJ.persists.keeps_persistNamespace fun s hs =>
    hJ.edits s.core _ hs (hundo s.core hs)

/-- A change of the store that is persisted or undone. -/
theorem keeps_change {f undo : Store → Store} (hf : ∀ c, J c → Edited J c.store (f c.store))
    (hundo : ∀ c, J c → Edited J c.store (undo c.store)) :
    Keeps J (do modifyStore f; persistOr P undo : Op Unit) :=
  .bind (hJ.keeps_edit hf) fun _ _ => hJ.keeps_persistOr hundo

theorem keeps_touchFile {update : UInt64 → EntryMetadata → EntryMetadata}
    (hupdate : ∀ nanoseconds m, GivenTimes J m → GivenTimes J (update (filetime nanoseconds) m)) :
    Keeps J (touchFile name update) := by
  refine .bind keeps_getStore fun s hs => ?_
  split
  · exact .pure trivial
  · next entry hentry =>
    refine .bind keeps_filetime fun now hnow => ?_
    obtain ⟨nanoseconds, rfl⟩ := hnow
    exact hJ.keeps_edit fun c hc => .withFiles hc ((GivenFiles.of_core hc).insert
      (hupdate _ _ (GivenFiles.of_store hs _ _ hentry)))

theorem keeps_accessed : Keeps J (touchFile name EntryMetadata.accessed) :=
  hJ.keeps_touchFile fun nanoseconds _ h => .accessed h nanoseconds

theorem keeps_written : Keeps J (touchFile name EntryMetadata.written) :=
  hJ.keeps_touchFile fun nanoseconds _ h => .written h nanoseconds

variable {bytes : Bytes}

theorem keeps_write : Keeps J (write file bytes) :=
  hJ.keeps_edit fun _ hc => .apart hc rfl rfl rfl rfl

theorem keeps_writeAt {offset : UInt64} : Keeps J (writeAt P file offset bytes) := by
  refine Act.Keeps.bind (Act.Keeps.attempt keeps_readFile).weaken fun _ _ => ?_
  refine Act.Keeps.bind keeps_getStore fun _ _ => Act.Keeps.bind hJ.keeps_write fun _ _ => ?_
  exact Act.Keeps.bind Act.Keeps.failIf fun _ _ => hJ.keeps_write

theorem keeps_writeHandle {offset : UInt64} : Keeps J (writeHandle P handle offset bytes) := by
  refine .bind keeps_getStore fun _ _ => .bind .ofExcept fun _ _ => ?_
  refine .bind hJ.keeps_writeAt fun _ _ => .bind keeps_getStore fun _ _ => ?_
  exact .bind .ofExcept fun _ _ => hJ.keeps_written

theorem keeps_readHandle : Keeps J (readHandle P handle) := by
  refine .bind keeps_getStore fun _ _ => .bind .ofExcept fun _ _ => ?_
  refine .bind keeps_readFile fun _ _ => .bind keeps_getStore fun _ _ => ?_
  refine .bind .ofExcept fun _ _ => ?_
  exact .bind hJ.keeps_accessed fun _ _ => .pure trivial

theorem keeps_truncateHandle {length : UInt64} : Keeps J (truncateHandle P handle length) := by
  have hcurrent : ∀ file, Keeps J (currentData P file) := by
    refine fun file => .bind keeps_getStore fun s _ => ?_
    cases s.staged[file.toWire]? with
    | some data => exact .pure trivial
    | none =>
      exact Act.Keeps.bind (Act.Keeps.attempt keeps_readFile).weaken fun _ _ =>
        .pure trivial
  refine .bind keeps_getStore fun _ _ => .bind .ofExcept fun _ _ => ?_
  refine .bind .ofExcept fun _ _ => .bind (hcurrent _) fun _ _ => ?_
  exact .bind hJ.keeps_write fun _ _ => hJ.keeps_written

theorem keeps_readPath : Keeps J (readPath P path) := by
  refine .bind keeps_getStore fun _ _ => .bind .ofOption fun _ _ => ?_
  refine .bind .failIf fun _ _ => .bind keeps_readFile fun _ _ => ?_
  exact .bind hJ.keeps_accessed fun _ _ => .pure trivial

theorem keeps_createDirectory : Keeps J (createDirectory P path) := by
  refine .bind keeps_getStore fun _ _ => .bind .failIf fun _ _ => ?_
  refine .bind .ofExcept fun _ _ => ?_
  refine .bind keeps_filetime fun now hnow => ?_
  obtain ⟨nanoseconds, rfl⟩ := hnow
  refine hJ.keeps_change (fun c hc => ?_) fun c hc => ?_
  · exact .withDirectories hc ((GivenDirectories.of_core hc).insert (.new nanoseconds))
  · exact .withDirectories hc (GivenDirectories.of_core hc).erase

theorem keeps_createFile : Keeps J (createFile P path) := by
  refine .bind keeps_getStore fun s hs => .bind .ofExcept fun _ _ => ?_
  have hid : s.storeId = store := by
    obtain ⟨c, hc, rfl⟩ := hs
    exact (hJ.persists.session c hc).1
  rw [hid]
  refine .bind (R := fun _ => True) (fun s hs => ⟨hJ.counts s.core _ rfl hs, trivial⟩)
    fun number _ => ?_
  refine .bind .ofExcept fun file hfile => ?_
  refine .bind (keeps_note fun c => hJ.creates c number file hfile) fun _ _ => ?_
  refine .bind keeps_filetime fun now hnow => ?_
  obtain ⟨nanoseconds, rfl⟩ := hnow
  refine hJ.keeps_change (fun c hc => ?_) fun c hc => ?_
  · exact .withFiles hc ((GivenFiles.of_core hc).insert (.new nanoseconds))
  · exact .withFiles hc (GivenFiles.of_core hc).erase

theorem keeps_createOrOpen {create allowDelete : Bool} :
    Keeps J (createOrOpen P path create allowDelete) := by
  have hfind : Keeps J (findOrCreate P path create) := by
    refine .bind keeps_getStore fun s _ => ?_
    cases s.files[path.lookupKey]? with
    | some entry => exact .bind .failIf fun _ _ => hJ.keeps_accessed
    | none => exact .bind .failIf fun _ _ => hJ.keeps_createFile
  refine .bind hfind fun _ _ => ?_
  refine .bind (R := fun _ => True) (fun s hs => ⟨hJ.counts s.core _ rfl hs, trivial⟩)
    fun number _ => ?_
  exact .bind (hJ.keeps_edit fun _ hc => .apart hc rfl rfl rfl rfl) fun _ _ =>
    .pure trivial

theorem keeps_delete : Keeps J (delete P path) := by
  refine .bind keeps_getStore fun _ _ => .ite (fun _ => ?_) fun _ => ?_
  · refine .bind keeps_getStore fun s hs => .bind .failIf fun _ _ => ?_
    refine .bind .failIf fun _ _ => .bind .failIf fun _ _ => ?_
    refine hJ.keeps_change (fun c hc => ?_) fun c hc => .withDirectories hc (.of_store hs)
    exact .withDirectories hc (GivenDirectories.of_core hc).erase
  · refine .bind keeps_getStore fun s hs => ?_
    refine .bind .ofOption fun entry hentry => ?_
    refine .bind .failIf fun _ _ => .ite (fun _ => ?_) fun _ => ?_
    · have hgiven : GivenTimes J entry.metadata := GivenFiles.of_store hs _ _ hentry
      exact hJ.keeps_edit fun c hc => .withFiles hc ((GivenFiles.of_core hc).insert hgiven)
    · refine hJ.keeps_change (fun c hc => ?_) fun c hc => .withFiles hc (.of_store hs)
      exact .withFiles hc (GivenFiles.of_core hc).erase

theorem keeps_replaceDestination {replace present : Bool} :
    Keeps J (replaceDestination P destination replace present) :=
  .ite (fun _ => .bind .failIf fun _ _ => hJ.keeps_delete) fun _ => .pure trivial

/-- A tree is moved entry by entry; each entry is still there when it is moved. -/
theorem moveDirectories_wp {a : Text} {names : List Text} (hnames : names.Nodup) {s : Sys}
    (h : J s.core) (hthere : ∀ name ∈ names, name ∈ s.store.directories) :
    (Act.forEach names (moveDirectory a destination)).wp (fun _ t => J t.core) (fun _ t => J t.core)
      (fun t => J t.core) s := by
  refine wp_mono (wp_forEach (fun rest t => rest.Nodup ∧ J t.core ∧
    ∀ name ∈ rest, name ∈ t.store.directories) ?_ names s ⟨hnames, h, hthere⟩)
    (fun _ _ ht => ht.2.1) (fun _ _ ht => ht) fun _ ht => ht
  rintro name rest t ⟨hnodup, ht, hthere⟩
  obtain ⟨entry, hentry⟩ := Map.mem_iff_get.mp (hthere name List.mem_cons_self)
  have hgiven : GivenTimes J entry.metadata := .directory ht hentry
  refine wp_bind_of_ok rfl (wp_bind_of_ok rfl ?_)
  rw [hentry, Option.getD_some]
  refine ⟨(List.nodup_cons.mp hnodup).2, ?_, fun other hother => ?_⟩
  · exact hJ.edits t.core _ ht (.withDirectories ht
      ((GivenDirectories.of_core ht).erase.insert (.changed hgiven t.clock.head)))
  · obtain ⟨entry', hentry'⟩ := Map.mem_iff_get.mp (hthere other (List.mem_cons_of_mem _ hother))
    have hne : other ≠ name := fun heq => (List.nodup_cons.mp hnodup).1 (heq ▸ hother)
    refine Map.mem_iff_get.mpr ?_
    change ∃ entry, ((t.store.directories.erase name).insert _ _)[other]? = some entry
    rw [Map.get_insert]
    split
    · exact ⟨_, rfl⟩
    · exact ⟨entry', (Map.get_erase_of_ne hne).trans hentry'⟩

theorem keeps_moveFile {a : Text} : Keeps J (moveFile a destination name) := by
  refine .bind keeps_getStore fun s hs => ?_
  split
  · exact .pure trivial
  · next entry hentry =>
    refine .bind keeps_filetime fun now hnow => ?_
    obtain ⟨nanoseconds, rfl⟩ := hnow
    exact hJ.keeps_edit fun c hc => .withFiles hc ((GivenFiles.of_core hc).erase.insert
      (.changed (GivenFiles.of_store hs _ _ hentry) nanoseconds))

variable {replace : Bool}

theorem keeps_renameDirectory : Keeps J (renameDirectory P source destination replace) := by
  refine .bind .failIf fun _ _ => .bind keeps_getStore fun _ _ => ?_
  refine .bind .ofExcept fun _ _ => ?_
  refine .bind hJ.keeps_replaceDestination fun _ _ s hs => ?_
  refine wp_bind_of_ok getStore_eq ?_
  have hnodup : (s.store.directories.keys.filter fun key =>
      decide (key = source.lookupKey) || isInside source.lookupKey key).Nodup :=
    Map.nodup_keys.filter _
  refine wp_seq (hJ.moveDirectories_wp hnodup hs fun name hname => ?_) fun _ t ht => ?_
  · exact Std.ExtTreeMap.mem_keys.mp (List.mem_filter.mp hname).1
  · have hmove : Keeps J (do
        Act.forEach (s.store.files.keys.filter (isInside source.lookupKey))
          (moveFile source.lookupKey destination)
        modifyStore fun store => { store with
          handles := moveHandles source.lookupKey destination.lookupKey store.handles }
        persistOr P s.store.restore) := by
      refine .bind (.forEach _ fun _ _ => hJ.keeps_moveFile) fun _ _ => ?_
      exact hJ.keeps_change (fun _ hc => .apart hc rfl rfl rfl rfl)
        fun c _ => .restore ⟨s.core, hs, rfl⟩ c
    exact hmove t ht

theorem keeps_renameFile : Keeps J (renameFile P source destination replace) := by
  refine .bind keeps_getStore fun _ _ => .bind .ofOption fun _ _ => ?_
  refine .bind .failIf fun _ _ => ?_
  refine .bind hJ.keeps_replaceDestination fun _ _ => ?_
  refine .bind keeps_getStore fun prior hprior => ?_
  refine .bind .failIf fun _ _ => ?_
  refine .bind .ofOption fun entry hentry => ?_
  refine .bind keeps_filetime fun now hnow => ?_
  obtain ⟨nanoseconds, rfl⟩ := hnow
  have hgiven : GivenTimes J entry.metadata := GivenFiles.of_store hprior _ _ hentry
  refine hJ.keeps_change (fun c hc => ⟨rfl, rfl, GivenDirectories.of_core hc, ?_⟩)
    fun c _ => .restore hprior c
  exact (GivenFiles.of_core hc).erase.insert (.changed hgiven nanoseconds)

theorem keeps_rename : Keeps J (rename P source destination replace) := by
  refine .bind keeps_getStore fun _ _ => .bind .ofExcept fun _ _ => ?_
  exact .ite (fun _ => hJ.keeps_renameDirectory) fun _ => hJ.keeps_renameFile

theorem keeps_closeHandle : Keeps J (closeHandle P handle) := by
  refine .bind keeps_getStore fun _ _ => .bind .ofOption fun _ _ => ?_
  refine .bind (hJ.keeps_edit fun _ hc => .apart hc rfl rfl rfl rfl) fun _ _ => ?_
  refine .bind keeps_getStore fun s hs => .ite (fun _ => ?_) fun _ => ?_
  · refine hJ.keeps_change (fun c hc => ?_) fun c hc => .withFiles hc (.of_store hs)
    exact .withFiles hc (GivenFiles.of_core hc).erase
  · exact .pure trivial

theorem keeps_flushFile : Keeps J (flushFile P file) := by
  have htake : Keeps J takeWriteFailure := by
    refine .of_state fun s hs => ?_
    unfold takeWriteFailure
    split
    · exact hJ.edits s.core _ hs (.apart hs rfl rfl rfl rfl)
    · exact hs
  refine .bind htake fun _ _ => .bind keeps_getStore fun s hs => ?_
  have hsession : s.storeId = store ∧ s.key = key := by
    obtain ⟨c, hc, rfl⟩ := hs
    exact hJ.persists.session c hc
  rw [hsession.1, hsession.2]
  refine .bind .ofOption fun data _ => ?_
  refine keeps_draw_note_bind (fun c hc => hJ.begins c file data hc) fun generation => ?_
  refine .bind (hJ.flushes file generation data).keeps_flushGeneration fun _ _ => ?_
  refine .bind (keeps_modifyStore fun c hc => ⟨?_, hc.2⟩) fun _ _ => .pure trivial
  exact hJ.edits c _ hc.1 (.apart hc.1 rfl rfl rfl rfl)

theorem keeps_flushHandle : Keeps J (flushHandle P handle) := by
  have hpersist : Keeps J (persistNamespace P) := hJ.persists.keeps_persistNamespace
  refine .bind keeps_getStore fun _ _ => .bind .ofExcept fun _ _ => ?_
  refine .ite (fun _ => ?_) fun _ => hpersist
  refine .bind (R := fun _ => True) ?_ fun _ _ => hpersist
  refine .bind hJ.keeps_flushFile fun _ _ => .bind keeps_getStore fun _ _ => ?_
  exact .bind .ofExcept fun _ _ => hJ.keeps_written

/-- What every call keeps. -/
theorem keeps_call (call : Call) : Keeps J (call.run P) := by
  cases call with
  | createDirectory path => exact hJ.keeps_createDirectory
  | createOrOpen path create allowDelete =>
    exact .bind hJ.keeps_createOrOpen fun _ _ => .pure trivial
  | rename source destination replace => exact hJ.keeps_rename
  | delete path => exact hJ.keeps_delete
  | writeHandle handle offset bytes => exact hJ.keeps_writeHandle
  | readHandle handle => exact .bind hJ.keeps_readHandle fun _ _ => .pure trivial
  | truncateHandle handle length => exact hJ.keeps_truncateHandle
  | flushHandle handle => exact hJ.keeps_flushHandle
  | closeHandle handle => exact hJ.keeps_closeHandle
  | readPath path => exact .bind hJ.keeps_readPath fun _ _ => .pure trivial
  | entryMetadata path =>
    exact .bind keeps_entryMetadata fun _ _ => .pure trivial
  | write file bytes => exact hJ.keeps_write
  | writeAt file offset bytes => exact hJ.keeps_writeAt
  | flushFile file => exact .bind hJ.keeps_flushFile fun _ _ => .pure trivial
  | read file => exact .bind keeps_readFile fun _ _ => .pure trivial
  | recoverStore file =>
    exact .bind (hJ.recovers file).keeps_recoverStore fun _ _ => .pure trivial

end

end CallKeeps

end Wdlp
