import Wdlp.Storage.Tampering

/-!
# Namespaces in the old text format

A namespace whose first line is the header of the first version lists its entries without times.
Loading it gives every entry the time at which it was loaded, and the next change of the store
persists it in the second version. Both versions are lines of columns, so that what was loaded from
the old lines is found again in the new ones as long as no key and no display name holds a tab or a
line break; the keys of accepted paths and valid components do not.

## Main definitions

* `HoldsV1` — the record of a namespace in the old format.
* `Store.LoadedAt` — every entry carries the time of loading, and none is about to be deleted.
* `Store.Parseable` — the keys belong to accepted paths, and the display names are valid.

## Main results

* `openStore_v1` — what a namespace in the old format is loaded to.
* `v1_namespace_migrates` — once persisted, it is loaded to the same entries.
-/

namespace Wdlp

open CrashSafe

variable {P : Primitives} {identity : CapturedStoreIdentity} {key : StoreKey} {s t u : Sys}

/-! ### Loading the old format -/

/-- The lines that a record at a path of the disk seals. -/
def recordLines (P : Primitives) (key : StoreKey) : Option Node → Option (List Text)
  | some (.file raw _) => do
    let record ← (EncryptedRecordV1.decode raw).toOption
    let plaintext ← (EncryptedRecordV1.openRecord P key record).toOption
    let text ← fromUtf8 plaintext
    return textLines text
  | _ => none

/-- What is at a path of the disk is a record that seals a namespace in the old format. -/
def HoldsV1 (P : Primitives) (key : StoreKey) (node : Option Node) : Prop :=
  (recordLines P key node).bind List.head? = some namespaceHeaderV1

instance (key : StoreKey) (node : Option Node) : Decidable (HoldsV1 P key node) :=
  inferInstanceAs (Decidable (_ = _))

/-- Every entry carries the times of the fallback, and no file is about to be deleted. -/
structure Store.LoadedAt (store : Store) (fallback : EntryMetadata) : Prop where
  directories : ∀ (name : Text) (entry : DirectoryEntry), store.directories[name]? = some entry →
    entry.metadata = fallback
  files : ∀ (name : Text) (entry : FileEntry), store.files[name]? = some entry →
    entry.deletePending = false ∧ entry.metadata = fallback

/-- The store of a process that loads lines of the old format. -/
structure LoadingV1 (identity : CapturedStoreIdentity) (key : StoreKey) (fallback : EntryMetadata)
    (c : Core) : Prop where
  loaded : c.store.LoadedAt fallback
  identity : c.store.identity = identity
  key : c.store.key = key

namespace LoadingV1

variable {fallback : EntryMetadata}

/-- What is set aside as evidence has nothing to do with the entries. -/
theorem keeps_rejectNamespace {α : Type} :
    Keeps (LoadingV1 identity key fallback) (rejectNamespace P : Op α) :=
  EvidenceKeeps.keeps_rejectNamespace
    ⟨fun _ _ _ _ _ hc => ⟨hc.loaded, hc.identity, hc.key⟩,
      fun _ _ _ hc => ⟨hc.loaded, hc.identity, hc.key⟩⟩

variable {name display : Text}

theorem keeps_loadDirectory : Keeps (LoadingV1 identity key fallback)
    (loadDirectory P name { display, metadata := fallback }) := by
  refine .bind keeps_getStore fun _ _ => ?_
  refine .bind (keeps_modifyStore fun c hc => ?_) fun _ _ => ?_
  · refine ⟨⟨fun other entry hentry => ?_, hc.loaded.files⟩, hc.identity, hc.key⟩
    change (c.store.directories.insert name _)[other]? = some entry at hentry
    rw [Map.get_insert] at hentry
    split_ifs at hentry
    · cases hentry
      rfl
    · exact hc.loaded.directories other entry hentry
  · exact .ite (fun _ => keeps_rejectNamespace) fun _ => .pure trivial

theorem keeps_loadFile {fileId : FileId} : Keeps (LoadingV1 identity key fallback)
      (loadFile P name { fileId, display, deletePending := false, metadata := fallback }) := by
  refine .bind keeps_getStore fun _ _ => ?_
  refine .bind (keeps_modifyStore fun c hc => ?_) fun _ _ => ?_
  · refine ⟨⟨hc.loaded.directories, fun other entry hentry => ?_⟩, hc.identity, hc.key⟩
    change (c.store.files.insert name _)[other]? = some entry at hentry
    rw [Map.get_insert] at hentry
    split_ifs at hentry
    · cases hentry
      exact ⟨rfl, rfl⟩
    · exact hc.loaded.files other entry hentry
  · exact .ite (fun _ => keeps_rejectNamespace) fun _ => .pure trivial

theorem keeps_loadLineV1 {line : Text} :
    Keeps (LoadingV1 identity key fallback) (loadLineV1 P fallback line) := by
  unfold loadLineV1
  split
  · exact .ite (fun _ => keeps_loadDirectory) fun _ => keeps_rejectNamespace
  · refine .ite (fun _ => ?_) fun _ => keeps_rejectNamespace
    exact .bind .ofExcept fun _ _ => keeps_loadFile
  · exact keeps_rejectNamespace

end LoadingV1

/-- What a namespace in the old format is loaded to. -/
theorem openStore_v1 (hv1 : HoldsV1 P key s.disk.fs[namespacePath identity.storeId]?)
    (h : openStore P identity key s = .ok () t) :
    ∃ now, LoadingV1 identity key (EntryMetadata.new now) t.core := by
  rcases openStore_loaded h with hnone | ⟨raw, synced, v, hnode, hstart, hload⟩
  · rw [hnone] at hv1
    cases hv1
  · obtain ⟨record, plaintext, text, w, hdecode, -, hopens, htext, hloaded, rfl⟩ :=
      loadRecord_eq_ok hload
    rw [hstart] at hopens
    have hheader : (textLines text).head? = some namespaceHeaderV1 := by
      simpa [HoldsV1, recordLines, hnode, hdecode, hopens, htext, Except.toOption] using hv1
    obtain ⟨lines, hlines⟩ := List.head?_eq_some_iff.mp hheader
    rw [hlines, loadLines, if_neg (show namespaceHeaderV1 ≠ namespaceHeaderV2 by decide),
      if_pos rfl] at hloaded
    obtain ⟨now, x, hnow, hloop⟩ := Act.bind_eq_ok.mp hloaded
    -- nothing is listed before the first line
    have hempty : LoadingV1 identity key (EntryMetadata.new now) v.core := by
      refine ⟨⟨fun name entry hentry => ?_, fun name entry hentry => ?_⟩, ?_, ?_⟩
      · change v.store.directories[name]? = some entry at hentry
        rw [hstart, Map.get_empty] at hentry
        cases hentry
      · change v.store.files[name]? = some entry at hentry
        rw [hstart, Map.get_empty] at hentry
        cases hentry
      · exact congrArg Store.identity hstart
      · exact congrArg Store.key hstart
    have hkeeps : Keeps (LoadingV1 identity key (EntryMetadata.new now))
        (Act.forEach lines (loadLineV1 P (EntryMetadata.new now))) :=
      .forEach lines fun _ _ => LoadingV1.keeps_loadLineV1
    obtain ⟨hread, -⟩ := Act.Keeps.of_ok keeps_currentFiletime hempty hnow
    obtain ⟨hend, -⟩ := hkeeps.of_ok hread hloop
    exact ⟨now, ⟨hend.loaded.directories, hend.loaded.files⟩, hend.identity, hend.key⟩

/-! ### Persisting in the new format -/

/-- The keys belong to accepted paths, and the display names are valid components. -/
structure Store.Parseable (store : Store) : Prop where
  directories : ∀ (name : Text) (entry : DirectoryEntry), store.directories[name]? = some entry →
    (∃ path : ParsedPath, path.1.lookupKey = name) ∧ validComponent entry.display = true
  files : ∀ (name : Text) (entry : FileEntry), store.files[name]? = some entry →
    (∃ path : ParsedPath, path.1.lookupKey = name) ∧ validComponent entry.display = true

theorem plain_of_validComponent {component : Text} (h : validComponent component = true) :
    Plain component :=
  ⟨ne_nil_of_validComponent h, not_mem_of_validComponent (by decide) h,
    not_mem_of_validComponent (by decide) h⟩

theorem Store.Parseable.plainEntries {store : Store} (h : store.Parseable) :
    PlainEntries store.directories store.files where
  directories name entry hentry := by
    obtain ⟨⟨path, rfl⟩, hdisplay⟩ := h.directories name entry hentry
    exact ⟨path.namesEntry.key, plain_of_validComponent hdisplay⟩
  files name entry hentry := by
    obtain ⟨⟨path, rfl⟩, hdisplay⟩ := h.files name entry hentry
    exact ⟨path.namesEntry.key, plain_of_validComponent hdisplay⟩

/-- Nothing that was loaded is left out of what is persisted. -/
theorem Store.LoadedAt.visible_eq {store : Store} {fallback : EntryMetadata}
    (h : store.LoadedAt fallback) : visible store.files = store.files := by
  refine Std.ExtTreeMap.ext_getElem? fun name => ?_
  rw [get_visible]
  cases hentry : store.files[name]? with
  | none => rfl
  | some entry => simp [(h.files name entry hentry).1]

/-- No file is in the way of the directory of a store. -/
def Unblocked (store : StoreId) (fs : Fs) : Prop :=
  ∀ q : Path, q ≠ [] → q <+: filesDir store → fs.read? q = none

/-- The code writes files only where files belong. -/
theorem unblocked_invariant {keys : StoreId → StoreKey} (store : StoreId) :
    DiskInvariant keys fun fs _ _ => Unblocked store fs := by
  refine ⟨fun hop hl h q hne hq => ?_, fun _ h => h, fun h => h⟩
  rw [Option.eq_none_iff_forall_ne_some]
  intro bytes hread
  obtain ⟨synced, hnode⟩ := Fs.read?_eq_some.mp hread
  rcases hop.suits.leaves hl hnode with hbefore | hkind
  · exact nomatch (h q hne hq).symm.trans (Fs.read?_eq_some.mpr ⟨synced, hbefore⟩)
  · exact nomatch hkind.trans (nodeKind_of_prefix_filesDir hne hq)

/-- A store that was opened and persisted can be opened again. -/
theorem unblocked_of_persisted (hopen : openStore P identity key s = .ok () t)
    (hid : t.store.storeId = identity.storeId) (hkey : t.store.key = key)
    (hpersist : persistNamespace P t = .ok () u) : Unblocked identity.storeId u.disk.fs := by
  have hI : DiskInvariant (fun _ => key) fun fs _ _ => Unblocked identity.storeId fs :=
    unblocked_invariant identity.storeId
  obtain ⟨_, s₁, h₁, -⟩ := Act.bind_eq_ok.mp hopen
  obtain ⟨fs, he, -⟩ := io_eq_ok h₁
  have hstart : Unblocked identity.storeId s.disk.fs :=
    (FsOp.effect_createDirAll.mp he).1
  have hopened : Unblocked identity.storeId t.disk.fs :=
    (Act.Keeps.of_ok hI.keeps_openStore hstart hopen).1
  have hkeeps : Keeps (Holding (fun fs _ _ => Unblocked identity.storeId fs) identity.storeId key)
      (persistNamespace P) := hI.persistKeeps.keeps_persistNamespace
  exact (hkeeps.of_ok ⟨hopened, hid, hkey⟩ hpersist).1.holds

/-- Old namespaces migrate without loss: what was loaded from the old format and persisted in the
new one is loaded to the same directories and files, on any disk that has what was persisted. -/
theorem v1_namespace_migrates (hP : P.Correct)
    (hv1 : HoldsV1 P key s.disk.fs[namespacePath identity.storeId]?)
    (hopen : openStore P identity key s = .ok () t) (hparse : t.store.Parseable)
    (hpersist : persistNamespace P t = .ok () u) :
    (∃ now, t.store.LoadedAt (EntryMetadata.new now)) ∧
      ∀ v : Sys, v.disk.fs = u.disk.fs → v.disk.fates = [] →
        ∃ w, openStore P identity key v = .ok () w ∧
          w.store.directories = t.store.directories ∧ w.store.files = t.store.files := by
  obtain ⟨now, hloaded, hid, hkey⟩ := openStore_v1 hv1 hopen
  refine ⟨⟨now, hloaded⟩, fun v hfs hquiet => ?_⟩
  have hstore : t.store.storeId = identity.storeId := congrArg CapturedStoreIdentity.storeId hid
  have hpersisted : Persisted P t u := by
    have hw := persistNamespace_wp hP (s := t)
    unfold Act.wp at hw
    rwa [hpersist] at hw
  obtain ⟨node, hwritten, hview⟩ := hpersisted.view
  have hnode : v.disk.fs[namespacePath identity.storeId]? = node := by
    have hrecords := congrFun (congrArg View.records hview) t.store.storeId
    rw [hfs, ← hstore]
    exact hrecords.trans (if_pos rfl)
  have hloads : Loads P identity key v.disk.fs[namespacePath identity.storeId]?
      (t.store.snapshot.load identity key) :=
    .record hstore hkey hparse.plainEntries (hnode ▸ hwritten.1)
  have hclear := unblocked_of_persisted hopen hstore hkey hpersist
  obtain ⟨w, hw, hcore, -⟩ := openStore_of_clear hquiet (hfs ▸ hclear) hloads
  refine ⟨w, hw, congrArg (fun c : Core => c.store.directories) hcore, ?_⟩
  exact (congrArg (fun c : Core => c.store.files) hcore).trans hloaded.visible_eq

/-- A directory and a file in it, in the old format. -/
def oldNamespace : Text :=
  unlines [namespaceHeaderV1, "D\td\tD".toList, "F\td/f\tf\tF".toList]

/-- A disk with the record of that namespace. -/
def oldDisk : Sys :=
  let plaintext := utf8 oldNamespace
  let header := namespaceAad soleIdentity.storeId 1 plaintext.length
  let writing : Op Unit := do
    let sealed ← sealRecord .plain header plaintext {}
    io (.createDirAll (storeDir soleIdentity.storeId))
    writeRecord (namespacePath soleIdentity.storeId) sealed.1
  (writing (.fresh soleIdentity zeroKey countingNonces [])).state

/-- The store that is loaded from it. -/
def oldLoaded : Sys := (openStore .plain soleIdentity zeroKey oldDisk).state

/-- What is left when that store was persisted. -/
def migrated : Sys := (persistNamespace .plain oldLoaded).state

theorem v1_namespace_migrates_sample :
    innerPath.1.lookupKey ∈ oldLoaded.store.files ∧
      ∃ w, openStore .plain soleIdentity zeroKey migrated = .ok () w ∧
        w.store.directories = oldLoaded.store.directories ∧
        w.store.files = oldLoaded.store.files := by
  have hopen : openStore .plain soleIdentity zeroKey oldDisk = .ok () oldLoaded :=
    Outcome.eq_ok (by decide +kernel)
  have hpersist : persistNamespace .plain oldLoaded = .ok () migrated :=
    Outcome.eq_ok (by decide +kernel)
  have hdirectories : ∀ entry ∈ oldLoaded.store.directories.toList,
      solePath.1.lookupKey = entry.1 ∧ validComponent entry.2.display = true := by
    decide +kernel
  have hfiles : ∀ entry ∈ oldLoaded.store.files.toList,
      innerPath.1.lookupKey = entry.1 ∧ validComponent entry.2.display = true := by
    decide +kernel
  have hparse : oldLoaded.store.Parseable :=
    ⟨fun _ _ hentry => (hdirectories _
        (Std.ExtTreeMap.mem_toList_iff_getElem?_eq_some.mpr hentry)).imp_left (⟨solePath, ·⟩),
      fun _ _ hentry => (hfiles _
        (Std.ExtTreeMap.mem_toList_iff_getElem?_eq_some.mpr hentry)).imp_left (⟨innerPath, ·⟩)⟩
  exact ⟨by decide +kernel, (v1_namespace_migrates Primitives.plain_correct (by decide +kernel)
    hopen hparse hpersist).2 migrated rfl (by decide +kernel)⟩

end Wdlp
