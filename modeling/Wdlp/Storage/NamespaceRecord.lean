import Wdlp.Storage.Commit
import Wdlp.Storage.Names

/-!
# The namespace on the disk

The namespace of a store is published as one sealed record, which lists the directories and the
visible files, one a line. Opening a store reads the lines back.

## Main definitions

* `Snapshot`, `Snapshot.PublishedAs`, `Snapshot.WrittenAs` — a persisted namespace, and its record
  on the disk.
* `Loads` — the store that is loaded from such a record, or from none.

## Main results

* `loadLines_namespaceText` — the lines of a namespace are read back.
* `length_namespaceText` — how long they are.
* `openStore_eq_ok`, `openStore_of_loads` — what opening a store gives.
-/

namespace Wdlp

open CrashSafe Act

variable {P : Primitives} {key : StoreKey} {store : StoreId} {s t : Sys}

/-! ### Lines -/

/-- The entries of a namespace can be written in lines and columns. -/
structure PlainEntries (directories : Map Text DirectoryEntry) (files : Map Text FileEntry) :
    Prop where
  directories : ∀ key entry, directories[key]? = some entry → Plain key ∧ Plain entry.display
  files : ∀ key entry, files[key]? = some entry → Plain key ∧ Plain entry.display

variable {files : Map Text FileEntry}

theorem Names.WellFormed.plainEntries {directories : Map Text DirectoryEntry}
    {handles : Map ℕ HandleState} {nextHandle : ℕ}
    (h : (namesOf directories files handles nextHandle).WellFormed) :
    PlainEntries directories files where
  directories key entry hentry := by
    have hname := h.directoryNames key entry.display (congrArg (Option.map _) hentry)
    exact ⟨hname.key, hname.display⟩
  files key entry hentry := by
    have hname := h.fileNames key entry.name (congrArg (Option.map _) hentry)
    exact ⟨hname.key, hname.display⟩

section Lines

variable {name : Text} {m : EntryMetadata}

theorem not_mem_columns {c : Char} (hc : c.isDigit = false) : ∀ column ∈ m.columns, c ∉ column := by
  intro column hcolumn
  simp only [EntryMetadata.columns, List.mem_cons, List.not_mem_nil, or_false] at hcolumn
  rcases hcolumn with rfl | rfl | rfl | rfl <;> exact not_mem_decimal hc

theorem parseMetadata_columns (m : EntryMetadata) :
    parseMetadata (decimal m.creationTime.toNat) (decimal m.lastAccessTime.toNat)
      (decimal m.lastWriteTime.toNat) (decimal m.changeTime.toNat) = .ok m := by
  simp only [parseMetadata, parseTime, parseU64_decimal]
  rfl

variable {columns : List Text}

theorem mem_tabbed {c : Char} (hc : c ≠ '\t') (h : c ∈ tabbed columns) :
    ∃ column ∈ columns, c ∈ column :=
  (mem_intercalate columns h).resolve_left hc

/-- The last character of a line is the last one of its last column. -/
theorem getLast?_tabbed {last : Text} (hne : columns ≠ []) (hl : last ≠ []) :
    (tabbed (columns ++ [last])).getLast? = last.getLast? := by
  induction columns with
  | nil => exact absurd rfl hne
  | cons column columns ih =>
    rw [tabbed, List.cons_append, List.intercalate_cons_of_ne_nil (by simp)]
    cases columns with
    | nil => rw [List.nil_append, List.intercalate_singleton, List.getLast?_append_of_ne_nil _ hl]
    | cons next columns =>
      have hih := ih (List.cons_ne_nil _ _)
      have hrest : ['\t'].intercalate (next :: columns ++ [last]) ≠ [] := by
        intro hnil
        rw [tabbed, hnil] at hih
        exact hl (List.getLast?_eq_none_iff.mp hih.symm)
      rw [List.getLast?_append_of_ne_nil _ hrest]
      exact hih

/-- A line that ends with the columns of times is one line. -/
theorem line_tabbed (columns : List Text)
    (hcolumns : ∀ column ∈ columns, '\n' ∉ column) : '\n' ∉ tabbed
    (columns ++ m.columns) ∧ (tabbed (columns ++ m.columns)).getLast? ≠ some '\r' := by
  constructor
  · intro h
    obtain ⟨column, hcolumn, hin⟩ := mem_tabbed (by decide) h
    rcases List.mem_append.mp hcolumn with hc | hc
    · exact hcolumns column hc hin
    · exact not_mem_columns (by decide) column hc hin
  · have hsplit : columns ++ m.columns = (columns ++ [decimal m.creationTime.toNat,
        decimal m.lastAccessTime.toNat, decimal m.lastWriteTime.toNat]) ++
          [decimal m.changeTime.toNat] := by
      simp [EntryMetadata.columns]
    rw [hsplit, getLast?_tabbed (by simp) (decimal_ne_nil _)]
    intro hlast
    exact not_mem_decimal (by decide) (List.mem_of_getLast? hlast)

theorem splitOn_tabbed (hne : columns ≠ [])
    (h : ∀ column ∈ columns, '\t' ∉ column) : (tabbed columns).splitOn '\t' = columns :=
  List.splitOn_intercalate '\t' h hne

variable {entry : DirectoryEntry}

theorem columns_directoryLine (hn : Plain name)
    (hd : Plain entry.display) : (directoryLine (name, entry)).splitOn
    '\t' = ['D'] :: name :: entry.display :: entry.metadata.columns := by
  refine splitOn_tabbed (List.cons_ne_nil _ _) fun column hcolumn => ?_
  simp only [List.mem_cons] at hcolumn
  rcases hcolumn with rfl | rfl | rfl | hcolumn
  · decide
  · exact hn.2.1
  · exact hd.2.1
  · exact not_mem_columns (by decide) column hcolumn

theorem columns_fileLine {entry : FileEntry} (hn : Plain name) (hd : Plain entry.display) :
    (fileLine (name, entry)).splitOn '\t' =
      ['F'] :: name :: entry.fileId.toWire :: entry.display :: entry.metadata.columns := by
  refine splitOn_tabbed (List.cons_ne_nil _ _) fun column hcolumn => ?_
  simp only [List.mem_cons] at hcolumn
  rcases hcolumn with rfl | rfl | rfl | rfl | hcolumn
  · decide
  · exact hn.2.1
  · exact entry.fileId.not_mem_wire rfl rfl
  · exact hd.2.1
  · exact not_mem_columns (by decide) column hcolumn

theorem loadLineV2_directoryLine (hn : Plain name)
    (hd : Plain entry.display) (hnew : name ∉ s.store.directories) :
    loadLineV2 P (directoryLine (name, entry)) s = .ok () (s.mapStore fun store =>
      { store with directories := store.directories.insert name entry }) := by
  unfold loadLineV2
  rw [columns_directoryLine hn hd]
  simp only [EntryMetadata.columns, hn.1, hd.1, ne_eq, not_false_eq_true, and_self, ↓reduceIte,
    parseMetadata_columns]
  rw [bind_of_ok (ofExcept_ok_apply _ _), loadDirectory, bind_of_ok getStore_eq]
  simp only [hnew, ↓reduceIte]
  rfl

theorem loadLineV2_fileLine {entry : FileEntry} (hn : Plain name) (hd : Plain entry.display)
    (hvisible : entry.deletePending = false) (hnew : name ∉ s.store.files) :
    loadLineV2 P (fileLine (name, entry)) s = .ok () (s.mapStore fun store =>
      { store with files := store.files.insert name entry }) := by
  obtain ⟨fileId, display, pending, metadata⟩ := entry
  cases hvisible
  have hid : parseFileId fileId.toWire = .ok fileId := by
    rw [parseFileId, Identifier.parse_wire]
    rfl
  unfold loadLineV2
  rw [columns_fileLine hn hd]
  simp only [EntryMetadata.columns, hn.1, hd.1, ne_eq, not_false_eq_true, and_self, ↓reduceIte,
    parseMetadata_columns, hid]
  rw [bind_of_ok (ofExcept_ok_apply _ _), bind_of_ok (ofExcept_ok_apply _ _), loadFile,
    bind_of_ok getStore_eq]
  simp only [hnew, ↓reduceIte]
  rfl

end Lines

/-- Lines that each add an entry to a map, read one after the other. -/
private theorem forEach_lines {β : Type} {line : Text × β → Text} {G : Text × β → Prop}
    {F : Sys → Map Text β} {U : Map Text β → Sys → Sys}
    (hget : ∀ m s, F (U m s) = m) (hupdate : ∀ m m' s, U m (U m' s) = U m s)
    (hsame : ∀ s, U (F s) s = s)
    (hline : ∀ e s, G e → e.1 ∉ F s →
      loadLineV2 P (line e) s = .ok () (U ((F s).insert e.1 e.2) s)) :
    (l : List (Text × β)) → (s : Sys) → (∀ e ∈ l, G e) →
    l.Pairwise (fun a b => ¬compare a.1 b.1 = .eq) → (∀ e ∈ l, e.1 ∉ F s) →
    Act.forEach (l.map line) (loadLineV2 P) s = .ok () (U ((F s).insertMany l) s)
  | [], s, _, _, _ => by
    rw [Std.ExtTreeMap.insertMany_nil, hsame]
    rfl
  | e :: l, s, hgood, hdistinct, hnew => by
    obtain ⟨hhead, htail⟩ := List.pairwise_cons.mp hdistinct
    rw [List.map_cons, Act.forEach, bind_of_ok (hline e s (hgood e List.mem_cons_self)
      (hnew e List.mem_cons_self))]
    rw [forEach_lines hget hupdate hsame hline l _
      (fun a ha => hgood a (List.mem_cons_of_mem _ ha)) htail ?_, hget, hupdate,
      Std.ExtTreeMap.insertMany_cons]
    intro a ha
    rw [hget, Map.not_mem_iff_get, Map.get_insert_of_ne fun heq => ?_]
    · exact Map.not_mem_iff_get.mp (hnew a (List.mem_cons_of_mem _ ha))
    · exact hhead a ha (Std.LawfulEqCmp.compare_eq_iff_eq.mpr heq.symm)

/-- The files that are not about to be deleted. -/
def visible (files : Map Text FileEntry) : Map Text FileEntry :=
  files.filter fun _ entry => !entry.deletePending

theorem get_visible {name : Text} :
    (visible files)[name]? = files[name]?.filter (!·.deletePending) :=
  Std.ExtTreeMap.getElem?_filter'

/-- A store into which a namespace was loaded. -/
def Sys.loaded (s : Sys) (directories : Map Text DirectoryEntry) (files : Map Text FileEntry) :
    Sys :=
  s.mapStore fun store => { store with directories := directories, files := files }

section Load

variable {directories : Map Text DirectoryEntry} {files : Map Text FileEntry}

theorem textLines_namespaceText (h : PlainEntries directories files) :
    textLines (namespaceText directories files) = namespaceLines directories files := by
  have hall : ∀ line ∈ namespaceLines directories files,
      '\n' ∉ line ∧ line.getLast? ≠ some '\r' := by
    intro line hline
    rcases List.mem_cons.mp hline with rfl | hline
    · decide
    rcases List.mem_append.mp hline with hline | hline
    · obtain ⟨⟨name, entry⟩, hentry, rfl⟩ := List.mem_map.mp hline
      obtain ⟨hn, hd⟩ := h.directories name entry
        (Std.ExtTreeMap.mem_toList_iff_getElem?_eq_some.mp hentry)
      refine line_tabbed [['D'], name, entry.display] fun column hcolumn => ?_
      simp only [List.mem_cons, List.not_mem_nil, or_false] at hcolumn
      rcases hcolumn with rfl | rfl | rfl
      · decide
      · exact hn.2.2
      · exact hd.2.2
    · obtain ⟨⟨name, entry⟩, hentry, rfl⟩ := List.mem_map.mp hline
      obtain ⟨hn, hd⟩ := h.files name entry
        (Std.ExtTreeMap.mem_toList_iff_getElem?_eq_some.mp (List.mem_filter.mp hentry).1)
      refine line_tabbed [['F'], name, entry.fileId.toWire, entry.display] fun column hcolumn => ?_
      simp only [List.mem_cons, List.not_mem_nil, or_false] at hcolumn
      rcases hcolumn with rfl | rfl | rfl | rfl
      · decide
      · exact hn.2.2
      · exact entry.fileId.not_mem_wire rfl rfl
      · exact hd.2.2
  exact textLines_unlines _ (fun line hline => (hall line hline).1)
    fun line hline => (hall line hline).2

/-- The lines of a namespace are read back. -/
theorem loadLines_namespaceText (h : PlainEntries directories files) (hd : s.store.directories = ∅)
    (hf : s.store.files = ∅) : loadLines P (textLines (namespaceText directories files))
    s = .ok () (s.loaded directories (visible files)) := by
  let update : Map Text DirectoryEntry → Sys → Sys := fun m =>
    Sys.mapStore fun store => { store with directories := m }
  let update' : Map Text FileEntry → Sys → Sys := fun m =>
    Sys.mapStore fun store => { store with files := m }
  have hdirectories : Act.forEach (directories.toList.map directoryLine) (loadLineV2 P) s =
      .ok () (update directories s) := by
    have hall := forEach_lines (P := P)
      (G := fun e : Text × DirectoryEntry => Plain e.1 ∧ Plain e.2.display)
      (F := fun s => s.store.directories) (U := update) (fun _ _ => rfl) (fun _ _ _ => rfl)
      (fun _ => rfl) (fun e s he hnew => loadLineV2_directoryLine he.1 he.2 hnew) directories.toList
      s (fun e he => h.directories e.1 e.2 (Std.ExtTreeMap.mem_toList_iff_getElem?_eq_some.mp he))
      Std.ExtTreeMap.distinct_keys_toList (fun e _ => hd ▸ Std.ExtTreeMap.not_mem_empty)
    rwa [hd, Map.insertMany_toList] at hall
  have hfiles : Act.forEach ((visible files).toList.map fileLine) (loadLineV2 P)
      (update directories s) = .ok () (update' (visible files) (update directories s)) := by
    have hall := forEach_lines (P := P) (G := fun e : Text × FileEntry =>
        (Plain e.1 ∧ Plain e.2.display) ∧ e.2.deletePending = false)
      (F := fun s => s.store.files) (U := update') (fun _ _ => rfl)
      (fun _ _ _ => rfl) (fun _ => rfl)
      (fun e s he hnew => loadLineV2_fileLine he.1.1 he.1.2 he.2 hnew) (visible files).toList
      (update directories s) (fun e he => ?_)
      Std.ExtTreeMap.distinct_keys_toList (fun e _ => hf ▸ Std.ExtTreeMap.not_mem_empty)
    · have hempty : (update directories s).store.files = ∅ := hf
      rwa [hempty, Map.insertMany_toList] at hall
    · have hentry := Std.ExtTreeMap.mem_toList_iff_getElem?_eq_some.mp he
      rw [get_visible] at hentry
      obtain ⟨hentry, hvisible⟩ := Option.filter_eq_some_iff.mp hentry
      exact ⟨h.files e.1 e.2 hentry, by simpa using hvisible⟩
  rw [textLines_namespaceText h, namespaceLines, loadLines, if_pos rfl, loadNamespaceV2,
    forEach_append_of_ok _ hdirectories]
  rw [visible, Std.ExtTreeMap.toList_filter] at hfiles
  exact hfiles

end Load

/-! ### Lengths -/

/-- The digits of the four times. -/
def EntryMetadata.digits (m : EntryMetadata) : ℕ :=
  (decimal m.creationTime.toNat).length + (decimal m.lastAccessTime.toNat).length +
    (decimal m.lastWriteTime.toNat).length + (decimal m.changeTime.toNat).length

/-- The bytes of the line of a directory. -/
def directoryLength (key : Text) (entry : DirectoryEntry) : ℕ :=
  8 + (utf8 key).length + (utf8 entry.display).length + entry.metadata.digits

/-- The bytes of the line of a file. -/
def fileLength (key : Text) (entry : FileEntry) : ℕ :=
  9 + (utf8 key).length + (utf8 entry.fileId.toWire).length + (utf8 entry.display).length +
    entry.metadata.digits

theorem length_directoryLine (key : Text) (entry : DirectoryEntry) :
    (utf8 (directoryLine (key, entry))).length + 1 = directoryLength key entry := by
  have htab : (utf8 ['\t']).length = 1 := by decide
  have hkind : (utf8 ['D']).length = 1 := by decide
  simp only [directoryLine, tabbed, EntryMetadata.columns, List.intercalate, List.intersperse,
    List.flatten_cons, List.flatten_nil, utf8_append, List.length_append, utf8_nil, List.length_nil,
    length_utf8_decimal, htab, hkind, directoryLength, EntryMetadata.digits]
  omega

theorem length_fileLine (key : Text) (entry : FileEntry) :
    (utf8 (fileLine (key, entry))).length + 1 = fileLength key entry := by
  have htab : (utf8 ['\t']).length = 1 := by decide
  have hkind : (utf8 ['F']).length = 1 := by decide
  simp only [fileLine, tabbed, EntryMetadata.columns, List.intercalate, List.intersperse,
    List.flatten_cons, List.flatten_nil, utf8_append, List.length_append, utf8_nil, List.length_nil,
    length_utf8_decimal, htab, hkind, fileLength, EntryMetadata.digits]
  omega

/-- The bytes of the line of a file, if it has one. -/
def visibleLength (key : Text) (entry : FileEntry) : ℕ :=
  if entry.deletePending then 0 else fileLength key entry

theorem sum_visible : (l : List (Text × FileEntry)) →
    ((l.filter (!·.2.deletePending)).map fun entry => fileLength entry.1 entry.2).sum =
      (l.map fun entry => visibleLength entry.1 entry.2).sum
  | [] => rfl
  | entry :: l => by
    rw [List.filter_cons, List.map_cons, List.sum_cons, ← sum_visible l, visibleLength]
    cases entry.2.deletePending with
    | false => simp
    | true => simp

/-- The length of the plaintext of a namespace record. -/
theorem length_namespaceText (directories : Map Text DirectoryEntry) (files : Map Text FileEntry) :
    (utf8 (namespaceText directories files)).length =
      17 + (directories.toList.map fun entry => directoryLength entry.1 entry.2).sum +
        (files.toList.map fun entry => visibleLength entry.1 entry.2).sum := by
  have hheader : (utf8 namespaceHeaderV2).length = 16 := by decide
  have hdirectories : ((directories.toList.map directoryLine).map fun line =>
      (utf8 line).length + 1) = directories.toList.map fun entry =>
        directoryLength entry.1 entry.2 := by
    rw [List.map_map]
    exact List.map_congr_left fun entry _ => length_directoryLine entry.1 entry.2
  have hfiles : (((files.toList.filter (!·.2.deletePending)).map fileLine).map fun line =>
      (utf8 line).length + 1) = (files.toList.filter (!·.2.deletePending)).map fun entry =>
        fileLength entry.1 entry.2 := by
    rw [List.map_map]
    exact List.map_congr_left fun entry _ => length_fileLine entry.1 entry.2
  rw [namespaceText, length_utf8_unlines, namespaceLines, List.map_cons, List.sum_cons,
    List.map_append, List.sum_append, hheader, hdirectories, hfiles, sum_visible]
  omega

/-! ### Records -/

/-- For which store, and under which key and generation, a namespace is sealed. -/
structure Session where
  storeId : StoreId
  key : StoreKey
  generation : UInt64
  deriving DecidableEq

def Session.next (session : Session) : Session :=
  { session with generation := session.generation + 1 }

def Store.session (store : Store) : Session where
  storeId := store.storeId
  key := store.key
  generation := store.namespaceGeneration

/-- A namespace that is persisted. -/
structure Snapshot where
  session : Session
  directories : Map Text DirectoryEntry
  files : Map Text FileEntry

/-- The namespace that a store would persist. -/
def Store.snapshot (store : Store) : Snapshot where
  session := store.session.next
  directories := store.directories
  files := store.files

namespace Snapshot

/-- The plaintext of the record. -/
def bytes (n : Snapshot) : Bytes := utf8 (namespaceText n.directories n.files)

/-- The header of the record. -/
def header (n : Snapshot) : RecordAad :=
  namespaceAad n.session.storeId n.session.generation n.bytes.length

/-- What is at a path of the disk is a record that seals the namespace. -/
def PublishedAs (P : Primitives) (n : Snapshot) (node : Option Node) : Prop :=
  ∃ bytes synced record, node = some (.file bytes synced) ∧
    EncryptedRecordV1.decode bytes = .ok record ∧ record.aad = n.header ∧
      EncryptedRecordV1.openRecord P n.session.key record = .ok n.bytes

/-- The code has written such a record: the namespace fitted into it. -/
def WrittenAs (P : Primitives) (n : Snapshot) (node : Option Node) : Prop :=
  n.PublishedAs P node ∧ n.bytes.length + 16 ≤ maxCiphertext

/-- The store into which the namespace was loaded. -/
def load (n : Snapshot) (identity : CapturedStoreIdentity) (key : StoreKey) : Store where
  identity := identity
  key := key
  directories := n.directories
  files := visible n.files
  namespaceGeneration := n.session.generation

end Snapshot

/-! ### Opening -/

/-- The store that is loaded from what is at the path of its namespace. -/
inductive Loads (P : Primitives) (identity : CapturedStoreIdentity) (key : StoreKey) :
    Option Node → Store → Prop
  | absent : Loads P identity key none { identity, key }
  | record {node : Option Node} {n : Snapshot} (hstore : n.session.storeId = identity.storeId)
      (hkey : n.session.key = key) (hplain : PlainEntries n.directories n.files)
      (hpublished : n.PublishedAs P node) : Loads P identity key node (n.load identity key)

/-- What opening a store leaves. -/
def Sys.opened (s : Sys) (store : Store) : Core :=
  { s.core with
    fs := s.disk.fs.insertDirs (Fs.ancestors (filesDir store.storeId)), store := store }

section Open

variable {identity : CapturedStoreIdentity} {loaded : Store}

theorem namespacePath_not_mem {other : StoreId} :
    namespacePath other ∉ Fs.ancestors (filesDir store) := by
  intro h
  obtain ⟨rest, h⟩ := (Fs.mem_ancestors.mp h).2
  exact namespaceName_ne_filesName (Option.some.inj (congrArg (fun q : Path => q[2]?) h))

theorem loadRecord_of_published {n : Snapshot} {raw : Bytes} {record : EncryptedRecordV1}
    (hs : s.store = { identity, key }) (hstore : n.session.storeId = identity.storeId)
    (hplain : PlainEntries n.directories n.files)
    (hdecode : EncryptedRecordV1.decode raw = .ok record) (hheader : record.aad = n.header)
    (hopens : EncryptedRecordV1.openRecord P key record = .ok n.bytes) :
    loadRecord P raw s = .ok () (s.mapStore fun _ => n.load identity key) := by
  have hnamespace : s.store.IsNamespaceRecord record := by
    rw [hs]
    refine ⟨congrArg RecordAad.formatVersion hheader, ?_, congrArg RecordAad.fileId hheader,
      congrArg RecordAad.recordKind hheader, congrArg RecordAad.chunkIndex hheader⟩
    exact (congrArg RecordAad.storeId hheader).trans (congrArg Identifier.toWire hstore)
  have hgeneration : record.generation = n.session.generation :=
    congrArg RecordAad.generation hheader
  have hkey : s.store.key = key := congrArg Store.key hs
  have hrecord : orReject P (EncryptedRecordV1.decode raw) s = .ok record s := by
    rw [hdecode]
    rfl
  have hcheck : orReject P (failIf (¬s.store.IsNamespaceRecord record)
      StorageError.integrityFailure) s = .ok () s := by
    rw [except_failIf_eq_ok.mpr (not_not_intro hnamespace)]
    rfl
  have hplaintext : orReject P (EncryptedRecordV1.openRecord P s.store.key record) s =
      .ok n.bytes s := by
    rw [hkey, hopens]
    rfl
  have htext : Act.ofOption (fromUtf8 n.bytes) StorageError.integrityFailure s =
      .ok (namespaceText n.directories n.files) s := by
    rw [Snapshot.bytes, fromUtf8_utf8]
    rfl
  have hlines := loadLines_namespaceText (P := P) (s := s) hplain
    (congrArg Store.directories hs) (congrArg Store.files hs)
  refine (bind_of_ok getStore_eq).trans ?_
  refine (bind_of_ok hrecord).trans ((bind_of_ok hcheck).trans ?_)
  refine (bind_of_ok hplaintext).trans ((bind_of_ok htext).trans ?_)
  refine (bind_of_ok hlines).trans (congrArg (Outcome.ok ()) ?_)
  simp only [Sys.loaded, Sys.mapStore, hs, hgeneration, Snapshot.load]

/-- What loading a namespace leaves; on a disk where nothing goes wrong, it succeeds. -/
theorem loadNamespace_of_loads (hs : s.store = { identity, key })
    (hl : Loads P identity key s.disk.fs[namespacePath identity.storeId]? loaded) :
    (loadNamespace P).wp (fun _ t => t.core = s.core.withStore loaded ∧
        (s.disk.fates = [] → t.disk.fates = []))
      (fun _ _ => s.disk.fates ≠ []) (fun _ => s.disk.fates ≠ []) s := by
  have hid : s.store.storeId = identity.storeId := congrArg Store.storeId hs
  have hne : namespacePath identity.storeId ≠ [] := List.cons_ne_nil _ _
  generalize hnode : s.disk.fs[namespacePath identity.storeId]? = node at hl
  have hexists : pathExists (namespacePath identity.storeId) s = .ok node.isSome s := by
    refine congrArg (Outcome.ok · s) ?_
    rw [Fs.present_eq hne, hnode]
  refine (wp_bind _ _).mpr ?_
  change (whenExists (namespacePath s.store.storeId) _).wp _ _ _ s
  rw [hid, whenExists, wp_bind]
  refine wp_of_ok hexists ?_
  cases hl with
  | absent => exact ⟨by rw [← hs]; rfl, id⟩
  | record hstore hkey hplain hpublished =>
    obtain ⟨bytes, synced, record, rfl, hdecode, hheader, hopens⟩ := hpublished
    have hread : s.disk.fs.read? (namespacePath identity.storeId) = some bytes :=
      Fs.read?_eq_some.mpr ⟨synced, hnode⟩
    have hload : ∀ u : Sys, u.store = s.store →
        loadRecord P bytes u = .ok () (u.mapStore fun _ => _) := fun u hu =>
      loadRecord_of_published (hu.trans hs) hstore hplain hdecode hheader (hkey ▸ hopens)
    refine (wp_bind _ _).mpr ((wp_zoom _).mpr ?_)
    rcases Disk.readFile_cases (namespacePath identity.storeId) s.disk with
      ⟨bytes', hread', h⟩ | ⟨kind, h⟩ | h
    · obtain rfl := Option.some.inj (hread.symm.trans hread')
      refine wp_of_ok h (wp_of_ok (hload _ rfl) ⟨rfl, fun hf => ?_⟩)
      change s.disk.fates.tail = []
      rw [hf]
      rfl
    · unfold Act.wp
      rw [h]
      exact fun hf => nomatch (Disk.readFile_of_nil hf hread).symm.trans h
    · unfold Act.wp
      rw [h]
      exact fun hf => nomatch (Disk.readFile_of_nil hf hread).symm.trans h

variable {node : Option Node}

section

variable (hl : Loads P identity key node loaded)

include hl

theorem Loads.storeId_eq : loaded.storeId = identity.storeId := by
  cases hl <;> rfl

theorem Loads.key_eq : loaded.key = key := by
  cases hl <;> rfl

theorem Loads.handles_eq : loaded.handles = ∅ := by
  cases hl <;> rfl

end

/-- The directory of the files is made before the namespace is loaded, which it leaves alone. -/
private theorem openStore_after {fs : Fs}
    (hio : io (.createDirAll (filesDir identity.storeId)) s = .ok () (s.ran fs))
    (hfs : fs = s.disk.fs.insertDirs (Fs.ancestors (filesDir identity.storeId)))
    (hl : Loads P identity key s.disk.fs[namespacePath identity.storeId]? loaded) :
    (openStore P identity key).wp (fun _ t => t.core = s.opened loaded ∧
        ((s.ran fs).disk.fates = [] → t.disk.fates = []))
      (fun _ _ => (s.ran fs).disk.fates ≠ []) (fun _ => (s.ran fs).disk.fates ≠ []) s := by
  have hnode : fs[namespacePath identity.storeId]? =
      s.disk.fs[namespacePath identity.storeId]? := by
    rw [hfs]
    exact (Fs.get_insertDirs _).trans (if_neg namespacePath_not_mem)
  let u : Sys := (s.ran fs).mapStore fun _ => { identity, key }
  have hstart : Loads P identity key u.disk.fs[namespacePath identity.storeId]? loaded :=
    hnode.symm ▸ hl
  refine wp_bind_of_ok hio ?_
  refine wp_bind_of_ok rfl ?_
  refine wp_imp (loadNamespace_of_loads rfl hstart) fun _ t ht => ⟨?_, ht.2⟩
  rw [ht.1, Sys.opened, hl.storeId_eq, ← hfs]
  rfl

/-- What a store that was opened holds. -/
theorem openStore_eq_ok (h : openStore P identity key s = .ok () t)
    (hl : Loads P identity key s.disk.fs[namespacePath identity.storeId]? loaded) :
    t.core = s.opened loaded := by
  obtain ⟨_, s₁, h₁, -⟩ := bind_eq_ok.mp h
  obtain ⟨fs, he, rfl⟩ := io_eq_ok h₁
  have hw := openStore_after h₁ (FsOp.effect_createDirAll.mp he).2 hl
  unfold Act.wp at hw
  rw [h] at hw
  exact hw.1

/-- On a disk where nothing goes wrong, a store can be opened if no file is in the way of its
directory. -/
theorem openStore_of_clear (hquiet : s.disk.fates = [])
    (hclear : ∀ q : Path, q ≠ [] → q <+: filesDir identity.storeId → s.disk.fs.read? q = none)
    (hl : Loads P identity key s.disk.fs[namespacePath identity.storeId]? loaded) : ∃ t,
    openStore P identity key s = .ok () t ∧ t.core = s.opened loaded ∧ t.disk.fates = [] := by
  let fs := s.disk.fs.insertDirs (Fs.ancestors (filesDir identity.storeId))
  have hio := io_of_nil hquiet (FsOp.effect_createDirAll.mpr ⟨hclear, rfl⟩)
  have hfates : (s.ran fs).disk.fates = [] := fates_ran hquiet
  have hw := wp_mono (openStore_after hio rfl hl) (fun _ _ => id)
    (fun _ _ hne => hne hfates) (fun _ hne => hne hfates)
  obtain ⟨_, t, ht, hcore, hquiet'⟩ := exists_of_wp hw
  exact ⟨t, ht, hcore, hquiet' hfates⟩

/-- In particular, it can be opened if the disk has the layout of the code. -/
theorem openStore_of_loads (hquiet : s.disk.fates = []) (hfits : s.disk.fs.Fits nodeKind)
    (hl : Loads P identity key s.disk.fs[namespacePath identity.storeId]? loaded) : ∃ t,
    openStore P identity key s = .ok () t ∧ t.core = s.opened loaded ∧ t.disk.fates = [] :=
  openStore_of_clear hquiet
    (fun _ hne hq => hfits.read?_eq_none (nodeKind_of_prefix_filesDir hne hq)) hl

end Open

end Wdlp
