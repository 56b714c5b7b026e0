import Wdlp.Storage.NamespaceRecord

/-!
# What happens to the names of a store

The names of a store, the namespace records on the disk and what the history says about names make
up a `View` of the state. The operations change it in steps (`View.Step`): a change is made in
memory only; or it is made, persisted and kept; or it cannot be persisted and is undone, and then
its record may have reached the disk all the same.

## Main definitions

* `View`, `Core.view` — the view of a state.
* `View.Committed`, `View.Marked`, `View.Failed` — what a change can lead to.
* `View.Move`, `View.Step` — a change, and a step, which may also undo one; `View.Moves` and
  `View.Steps` are any number of them.
* `View.Cut` — what is left for the next process when an operation was cut off.
* `KeepsView` — operations that have nothing to do with the names.

## Main results

* `persistNamespace_wp` — what persisting does, however it ends.
* `persistOr_wp` — a change that is persisted or undone is a step.
* `keepsView_flushFile`, `keepsView_recoverStore` — flushes and recovery leave the names alone.
-/

namespace Wdlp

open CrashSafe Act Function

/-! ### Views -/

/-- A file that was created in a store, with the number of which its name was made. -/
structure Creation where
  store : StoreId
  number : ℕ
  file : FileId
  deriving DecidableEq

def HistoryEntry.creation? : HistoryEntry → Option Creation
  | created store number file => some { store, number, file }
  | _ => none

def HistoryEntry.snapshot? : HistoryEntry → Option Snapshot
  | persisting key storeId generation directories files =>
    some { session := { storeId, key, generation }, directories, files }
  | _ => none

/-- The names of a store, what is on the disk at the paths of the namespaces, and the files created
and namespaces persisted so far. -/
@[ext] structure View where
  names : Names
  session : Session
  records : StoreId → Option Node
  created : List Creation
  persisted : List Snapshot

def Core.view (c : Core) : View where
  names := c.names
  session := c.store.session
  records store := c.fs[namespacePath store]?
  created := c.history.filterMap HistoryEntry.creation?
  persisted := c.history.filterMap HistoryEntry.snapshot?

def Sys.view (s : Sys) : View := s.core.view

/-- The namespace has the directories and files of the names. -/
def Snapshot.Lists (n : Snapshot) (names : Names) : Prop :=
  (fun key => n.directories[key]?.map DirectoryEntry.display) = names.directories ∧
    (fun key => n.files[key]?.map FileEntry.name) = names.files

/-- The files that a change creates. -/
def Change.creations (store : StoreId) : Change → List Creation
  | makeFile _ number file => [{ store, number, file }]
  | _ => []

/-! ### Steps -/

namespace View

variable (P : Primitives)

/-- A change was begun: what it creates is in the history. -/
def begun (v : View) (ch : Change) : View :=
  { v with created := v.created ++ ch.creations v.session.storeId }

/-- A namespace was sealed. -/
def sealed (v : View) (n : Snapshot) : View := { v with persisted := v.persisted ++ [n] }

/-- Something else is at the path of a namespace. -/
def withRecord (v : View) (store : StoreId) (node : Option Node) : View :=
  { v with records := update v.records store node }

/-- The process goes on with other names or in another session. -/
def now (v : View) (names : Names) (session : Session) : View :=
  { v with names := names, session := session }

/-- A namespace was sealed, and its record is on the disk. -/
def published (v : View) (n : Snapshot) (node : Option Node) : View :=
  (v.sealed n).withRecord n.session.storeId node

/-- What is left of a change that could not be persisted and was undone. -/
inductive Tried (v : View) (ch : Change) : View → Prop
  | refused : Tried v ch (v.begun ch)
  | sealed {n : Snapshot} (hsession : n.session = v.session.next)
      (hlists : n.Lists (ch.apply v.names)) : Tried v ch ((v.begun ch).sealed n)
  | published {n : Snapshot} {node : Option Node} (hsession : n.session = v.session.next)
      (hlists : n.Lists (ch.apply v.names)) (hnode : n.WrittenAs P node) :
      Tried v ch ((v.begun ch).published n node)

/-- A change was made and persisted. -/
inductive Committed (v : View) (ch : Change) : View → Prop
  | intro {n : Snapshot} {node : Option Node} (hdurable : ch.Durable) (henabled : ch.Enabled v.names)
      (hsession : n.session = v.session.next) (hlists : n.Lists (ch.apply v.names))
      (hnode : n.WrittenAs P node) :
      Committed v ch (((v.begun ch).published n node).now (ch.apply v.names) n.session)

/-- An operation failed: nothing was changed, or a change in `A` was undone. -/
inductive Failed (A : Names → Change → Prop) (v : View) : View → Prop
  | same : Failed A v v
  | tried {v' : View} (ch : Change) (hA : A v.names ch) (hdurable : ch.Durable)
      (henabled : ch.Enabled v.names) (h : Tried P v ch v') : Failed A v v'

/-- A change was made in memory. -/
inductive Marked (v : View) (ch : Change) : View → Prop
  | intro (hmemory : ¬ch.Durable) (henabled : ch.Enabled v.names) :
      Marked v ch (v.now (ch.apply v.names) v.session)

/-- A change in memory, or one that was made durable. The names and the changes made to them are in
`A`. -/
inductive Move (A : Names → Change → Prop) : View → View → Prop
  | mark {v v' : View} {ch : Change} (hA : A v.names ch) (h : Marked v ch v') : Move A v v'
  | commit {v v' : View} {ch : Change} (hA : A v.names ch) (h : Committed P v ch v') : Move A v v'

/-- One step: a change, or one that was undone. -/
inductive Step (A : Names → Change → Prop) : View → View → Prop
  | move {v v' : View} (h : Move P A v v') : Step A v v'
  | fail {v v' : View} (h : Failed P A v v') : Step A v v'

/-- Any number of changes. -/
abbrev Moves (A : Names → Change → Prop) : View → View → Prop := Relation.ReflTransGen (Move P A)

/-- Any number of steps. -/
abbrev Steps (A : Names → Change → Prop) : View → View → Prop := Relation.ReflTransGen (Step P A)

/-- The next process finds the same. -/
structure SameDisk (v v' : View) : Prop where
  records : v'.records = v.records
  created : v'.created = v.created
  persisted : v'.persisted = v.persisted

/-- What an operation leaves that was cut off: the memory is lost. -/
def Cut (A : Names → Change → Prop) (v v' : View) : Prop := ∃ u, Steps P A v u ∧ SameDisk u v'

variable {P} {A : Names → Change → Prop} {v v' : View} {ch : Change} {node : Option Node}

@[simp] theorem withRecord_self {store : StoreId} :
    (v.withRecord store node).records store = node := update_self ..

theorem withRecord_of_ne {store other : StoreId} (h : other ≠ store) :
    (v.withRecord store node).records other = v.records other := update_of_ne h ..

theorem SameDisk.refl : SameDisk v v := ⟨rfl, rfl, rfl⟩

theorem Cut.refl : Cut P A v v := ⟨v, .refl, .refl⟩

theorem Tried.names_eq (h : Tried P v ch v') : v'.names = v.names := by
  cases h <;> rfl

theorem Tried.session_eq (h : Tried P v ch v') : v'.session = v.session := by
  cases h <;> rfl

theorem Tried.created_eq (h : Tried P v ch v') :
    v'.created = v.created ++ ch.creations v.session.storeId := by
  cases h <;> rfl

theorem Failed.names_eq (h : Failed P A v v') : v'.names = v.names := by
  cases h with
  | same => rfl
  | tried ch hA hdurable henabled h => exact h.names_eq

theorem Marked.names_eq (h : Marked v ch v') : v'.names = ch.apply v.names := by
  cases h
  rfl

theorem Marked.enabled (h : Marked v ch v') : ch.Enabled v.names := by
  cases h
  assumption

theorem Committed.names_eq (h : Committed P v ch v') : v'.names = ch.apply v.names := by
  cases h
  rfl

theorem Committed.enabled (h : Committed P v ch v') : ch.Enabled v.names := by
  cases h
  assumption

/-- What a change makes of the names. -/
theorem Move.names_eq (h : Move P A v v') :
    ∃ ch : Change, A v.names ch ∧ ch.Enabled v.names ∧ v'.names = ch.apply v.names := by
  cases h with
  | mark hA h => exact ⟨_, hA, h.enabled, h.names_eq⟩
  | commit hA h => exact ⟨_, hA, h.enabled, h.names_eq⟩

/-- The steps keep the tree. -/
theorem Step.wellFormed (h : Step P A v v') (hv : v.names.WellFormed) : v'.names.WellFormed := by
  cases h with
  | move h =>
    obtain ⟨ch, -, he, hnames⟩ := h.names_eq
    exact hnames ▸ hv.apply he
  | fail h => exact h.names_eq ▸ hv

theorem Moves.steps (h : Moves P A v v') : Steps P A v v' := by
  induction h with
  | refl => exact .refl
  | tail _ hmove ih => exact ih.tail (.move hmove)

theorem Steps.wellFormed (h : Steps P A v v') (hv : v.names.WellFormed) : v'.names.WellFormed := by
  induction h with
  | refl => exact hv
  | tail _ hstep ih => exact hstep.wellFormed ih

end View

/-! ### Views of changed states -/

section Core

variable {c : Core}

theorem Core.view_withFs {fs : Fs}
    (h : ∀ store, fs[namespacePath store]? = c.fs[namespacePath store]?) :
    (c.withFs fs).view = c.view :=
  View.ext rfl rfl (funext h) rfl rfl

variable {entry : HistoryEntry}

theorem Core.view_noted (hc : entry.creation? = none)
    (hs : entry.snapshot? = none) : (c.noted entry).view = c.view := by
  refine View.ext rfl rfl rfl ?_ ?_
  · simp [view, noted, List.filterMap_append, hc]
  · simp [view, noted, List.filterMap_append, hs]

theorem Core.view_noted_snapshot {n : Snapshot} (hc : entry.creation? = none)
    (hs : entry.snapshot? = some n) : (c.noted entry).view = c.view.sealed n := by
  refine View.ext rfl rfl rfl ?_ ?_
  · simp [view, noted, View.sealed, List.filterMap_append, hc]
  · simp [view, noted, View.sealed, List.filterMap_append, hs]

theorem Core.view_withStore {store : Store} (hn : store.names c.counters.nextHandle = c.names)
    (hs : store.session = c.store.session) : (c.withStore store).view = c.view :=
  View.ext hn hs rfl rfl rfl

end Core

/-! ### Paths -/

section Paths

variable {store store' : StoreId} {file : FileId} {generation : UInt64} {op : FsOp}

theorem PersistTarget.ne_namespacePath {path : Path} (h : PersistTarget store generation path) :
    path ≠ namespacePath store' := by
  intro heq
  have hlast := congrArg (fun q : Path => q[2]?) heq
  cases h with
  | temporary => exact namespaceTmpName_ne_namespaceName _ (Option.some.inj hlast)
  | marker => exact namespaceName_ne_markerName (Option.some.inj hlast).symm

theorem StageOp.not_touches_namespace {count : ℕ} (h : StageOp store file generation count op) :
    ¬op.Touches (namespacePath store') := by
  intro hq
  rcases h.touches hq with ht | ⟨-, rest, ht⟩
  · obtain ⟨name, heq⟩ := ht.eq_generationItem
    exact absurd (congrArg List.length heq) (by simp [namespacePath, generationItem])
  · exact namespaceName_ne_filesName (Option.some.inj (congrArg (fun q : Path => q[2]?) ht))

theorem PublishOp.not_touches_namespace (h : PublishOp store file generation op) :
    ¬op.Touches (namespacePath store') := by
  intro hq
  obtain ⟨name, heq⟩ := h.eq_fileItem hq
  exact absurd (congrArg List.length heq) (by simp [namespacePath, fileItem])

theorem EvidenceOp.not_touches_namespace (h : EvidenceOp op) :
    ¬op.Touches (namespacePath store') := fun hq =>
  storesName_ne_evidenceName (Option.some.inj (h.touches hq))

theorem RecoverOp.not_touches_namespace (h : RecoverOp store file op) :
    ¬op.Touches (namespacePath store') := fun hq =>
  absurd (h.touches hq).length_le (by simp [fileDir, namespacePath])

end Paths

/-! ### Operations apart from the names -/

/-- The operation leaves the view as it is, however it ends. -/
def KeepsView {α : Type} (p : Op α) : Prop := ∀ v : View, Keeps (fun c => c.view = v) p

section KeepsView

variable {P : Primitives} {α β : Type} {file : FileId} {handle : FileHandle}

theorem allows_view {op : FsOp} {v : View} (h : ∀ store, ¬op.Touches (namespacePath store)) :
    Allows (fun c => c.view = v) op := by
  intro c fs hl hc
  rw [Core.view_withFs fun store => hl.get_eq (h store)]
  exact hc

theorem KeepsView.bind {p : Op α} {f : α → Op β} (hp : KeepsView p) (hf : ∀ a, KeepsView (f a)) :
    KeepsView (p >>= f) := fun v => .bind (hp v) fun a _ => hf a v

theorem KeepsView.attempt {p : Op α} (hp : KeepsView p) : KeepsView (Act.attempt p) :=
  fun v => (Act.Keeps.attempt (hp v)).weaken

theorem keepsView_pure {a : α} : KeepsView (pure a) := fun _ => .pure trivial

theorem keepsView_ofExcept {x : Except StorageError α} : KeepsView (Act.ofExcept x) :=
  fun _ => Act.Keeps.ofExcept.weaken

theorem keepsView_ofOption {x : Option α} {e : StorageError} : KeepsView (Act.ofOption x e) :=
  fun _ => Act.Keeps.ofOption.weaken

theorem keepsView_failIf {p : Prop} [Decidable p] {e : StorageError} :
    KeepsView (failIf p e : Op Unit) := fun _ => Act.Keeps.failIf.weaken

theorem keepsView_getStore : KeepsView getStore :=
  fun _ _ h => ⟨h, trivial⟩

theorem keepsView_readFile : KeepsView (readFile P file) := fun _ => keeps_readFile

theorem keepsView_modifyStore {f : Store → Store}
    (hn : ∀ store next, (f store).names next = store.names next)
    (hs : ∀ store, (f store).session = store.session) : KeepsView (modifyStore f) := by
  refine fun v => keeps_modifyStore fun c hc => ?_
  rw [Core.view_withStore (hn _ _) (hs _)]
  exact hc

/-- Flushes leave the names alone. -/
theorem keepsView_flushGeneration {generation : UInt64} {data : Bytes} :
    KeepsView (flushGeneration P file generation data) := by
  intro v
  have hkeeps : FlushKeeps (fun c => c.view = v) v.session.storeId v.session.key file generation
      data := by
    refine ⟨⟨?_, ?_, ?_, ?_⟩, ?_⟩
    · rintro c rfl
      exact ⟨rfl, rfl⟩
    · exact fun op hop => allows_view fun store => hop.not_touches_namespace
    · intro c aad plaintext hc _
      rw [Core.view_noted rfl rfl]
      exact hc
    · exact fun c hc => (Core.view_withStore rfl rfl).trans hc
    · exact fun op hop => allows_view fun store => hop.not_touches_namespace
  exact hkeeps.keeps_flushGeneration

theorem keepsView_flushFile : KeepsView (flushFile P file) := by
  have htake : KeepsView takeWriteFailure := by
    refine fun v => .of_state fun s hs => ?_
    unfold takeWriteFailure
    split
    · exact (Core.view_withStore rfl rfl).trans hs
    · exact hs
  have hnote : ∀ key store generation data,
      KeepsView (note (.flushing key store file generation data)) := by
    refine fun key store generation data v => keeps_note fun c hc => ?_
    rw [Core.view_noted rfl rfl]
    exact hc
  refine htake.bind fun _ => keepsView_getStore.bind fun store => ?_
  refine keepsView_ofOption.bind fun data => ?_
  refine KeepsView.bind (fun v s hs => ⟨hs, trivial⟩) fun generation => ?_
  refine (hnote _ _ _ _).bind fun _ => keepsView_flushGeneration.bind fun outcome => ?_
  refine KeepsView.bind (keepsView_modifyStore (fun _ _ => ?_) fun _ => ?_) fun _ => keepsView_pure
  · rfl
  · rfl

theorem keepsView_recoverStore : KeepsView (recoverStore P file) := by
  intro v
  have hkeeps : RecoverKeeps (fun c => c.view = v) v.session.storeId file := by
    refine ⟨⟨?_, ?_⟩, ?_, ?_⟩
    · exact fun op hop => allows_view fun store => hop.not_touches_namespace
    · exact fun c n _ hc => hc
    · rintro c rfl
      rfl
    · exact fun op hop => allows_view fun store => hop.not_touches_namespace
  exact hkeeps.keeps_recoverStore

variable {bytes : Bytes}

theorem keepsView_write : KeepsView (write file bytes) :=
  keepsView_modifyStore (fun _ _ => rfl) fun _ => rfl

theorem keepsView_writeAt {offset : UInt64} : KeepsView (writeAt P file offset bytes) := by
  refine keepsView_readFile.attempt.bind fun existing => keepsView_getStore.bind fun store => ?_
  exact keepsView_write.bind fun _ => keepsView_failIf.bind fun _ => keepsView_write

/-- The times of an entry are not part of the names. -/
theorem names_touched {store : Store} {key : Text} {entry : FileEntry} {metadata : EntryMetadata}
    {next : ℕ} (h : store.files[key]? = some entry) :
    { store with files := store.files.insert key { entry with metadata := metadata } }.names next =
      store.names next := by
  refine Names.ext rfl ((Map.lookup_insert _).trans ?_) rfl rfl
  refine (congrArg (update _ key) ?_).trans (update_eq_self key _)
  exact (congrArg (Option.map FileEntry.name) h).symm

theorem keepsView_touchFile {key : Text} {update : UInt64 → EntryMetadata → EntryMetadata} :
    KeepsView (touchFile key update) := by
  intro v s hs
  refine wp_bind_of_ok getStore_eq ?_
  cases hentry : s.store.files[key]? with
  | none => exact ⟨hs, trivial⟩
  | some entry =>
    exact ⟨(Core.view_withStore (c := s.core) (names_touched hentry) rfl).trans hs, trivial⟩

theorem keepsView_writeHandle {offset : UInt64} :
    KeepsView (writeHandle P handle offset bytes) := by
  refine keepsView_getStore.bind fun store => keepsView_ofExcept.bind fun file => ?_
  refine keepsView_writeAt.bind fun _ => keepsView_getStore.bind fun store => ?_
  exact keepsView_ofExcept.bind fun key => keepsView_touchFile

theorem keepsView_readHandle : KeepsView (readHandle P handle) := by
  refine keepsView_getStore.bind fun store => keepsView_ofExcept.bind fun file => ?_
  refine keepsView_readFile.bind fun data => keepsView_getStore.bind fun store => ?_
  refine keepsView_ofExcept.bind fun key => keepsView_touchFile.bind fun _ => keepsView_pure

theorem keepsView_currentData : KeepsView (currentData P file) := by
  refine keepsView_getStore.bind fun store => ?_
  cases store.staged[file.toWire]? with
  | some data => exact keepsView_pure
  | none => exact keepsView_readFile.attempt.bind fun _ => keepsView_pure

theorem keepsView_truncateHandle {length : UInt64} :
    KeepsView (truncateHandle P handle length) := by
  refine keepsView_getStore.bind fun store => keepsView_ofExcept.bind fun file => ?_
  refine keepsView_ofExcept.bind fun key => keepsView_currentData.bind fun data => ?_
  exact keepsView_write.bind fun _ => keepsView_touchFile

theorem keepsView_flushStaged : KeepsView (flushStaged P handle file) := by
  refine keepsView_flushFile.bind fun _ => keepsView_getStore.bind fun store => ?_
  exact keepsView_ofExcept.bind fun key => keepsView_touchFile

variable {path : VirtualPath}

theorem keepsView_readPath : KeepsView (readPath P path) := by
  refine keepsView_getStore.bind fun store => keepsView_ofOption.bind fun entry => ?_
  refine keepsView_failIf.bind fun _ => keepsView_readFile.bind fun data => ?_
  exact keepsView_touchFile.bind fun _ => keepsView_pure

theorem keepsView_entryMetadata : KeepsView (entryMetadata path) :=
  fun _ => keeps_entryMetadata

end KeepsView

/-! ### Persisting -/

/-- The process has the store and the counters of `s`, and the view is `v`. -/
structure At (s : Sys) (v : View) (c : Core) : Prop where
  store : c.store = s.store
  counters : c.counters = s.counters
  view : c.view = v

/-- What persisting leaves when it fails or is cut off. -/
structure Unpersisted (P : Primitives) (s t : Sys) : Prop where
  store : t.store = s.store
  counters : t.counters = s.counters
  view : t.view = s.view ∨ t.view = s.view.sealed s.store.snapshot ∨
    ∃ node, s.store.snapshot.WrittenAs P node ∧ t.view = s.view.published s.store.snapshot node

/-- What persisting leaves when it succeeds. -/
structure Persisted (P : Primitives) (s t : Sys) : Prop where
  store : t.store = { s.store with namespaceGeneration := s.store.namespaceGeneration + 1 }
  counters : t.counters = s.counters
  view : ∃ node, s.store.snapshot.WrittenAs P node ∧
    t.view = (s.view.published s.store.snapshot node).now s.view.names s.store.session.next

section Persist

variable {P : Primitives} {s t : Sys} {v : View}

theorem At.allows {op : FsOp} (h : ∀ store, ¬op.Touches (namespacePath store)) :
    Allows (At s v) op :=
  fun c fs hl hc => ⟨hc.store, hc.counters, allows_view h c fs hl hc.view⟩

variable {generation : UInt64}

theorem At.allowsFile {store : StoreId} {path : Path}
    (h : PersistTarget store generation path) : AllowsFile (At s v) path :=
  fun _ hop => At.allows fun _ hq => h.ne_namespacePath (hop.touches hq).symm

theorem At.keeps_sealRecord {aad : RecordAad} {plaintext : Bytes} {nonces : NonceTracker} :
    Keeps (At s v) (sealRecord P aad plaintext nonces) :=
  Wdlp.keeps_sealRecord fun _ hc _ _ =>
    ⟨hc.store, hc.counters, (Core.view_noted rfl rfl).trans hc.view⟩

/-- A namespace that was sealed and written at another path is published by a rename. -/
theorem Snapshot.writtenAs_of_sealed (hP : P.Correct) {n : Snapshot} {drawn : Nonce}
    {nonces next : NonceTracker} {record : EncryptedRecordV1} {bytes : Bytes} {synced : Bool}
    (hseal : EncryptedRecordV1.sealRecord P n.session.key drawn n.header n.bytes nonces =
      .ok (record, next)) (hencode : record.encode = .ok bytes) :
    n.WrittenAs P (some (.file bytes synced)) := by
  have hopens := EncryptedRecordV1.openRecord_sealRecord hP rfl rfl hseal
  obtain ⟨ciphertext, hciphertext, rfl, -, -⟩ := EncryptedRecordV1.sealRecord_eq_ok.mp hseal
  have hlength : ciphertext.length ≤ maxCiphertext :=
    (EncryptedRecordV1.encode_eq_ok.mp hencode).2.2.1
  rw [hP.length_encrypt hciphertext] at hlength
  refine ⟨⟨bytes, synced, _, rfl, EncryptedRecordV1.decode_encode ?_ ?_ hencode, rfl, hopens⟩,
    hlength⟩
  · exact isName_storeId
  · exact (by decide : Cursor.IsName namespaceIndex)

/-- The rename of a namespace record, as seen from the views. -/
theorem At.rename {bytes : Bytes} {u : Sys} {fs : Fs} (h : At s v u.core)
    (htmp : u.disk.fs[namespaceTmp s.store.storeId generation]? = some (.file bytes true))
    (he : (FsOp.rename (namespaceTmp s.store.storeId generation)
      (namespacePath s.store.storeId)).effect u.disk.fs = .ok fs) :
    At s (v.withRecord s.store.storeId (some (.file bytes true))) (u.ran fs).core := by
  obtain ⟨old, synced, hold, -, rfl⟩ := FsOp.effect_rename.mp he
  cases htmp.symm.trans hold
  refine ⟨h.store, h.counters, ?_⟩
  obtain rfl := h.view
  refine View.ext rfl rfl (funext fun store => ?_) rfl rfl
  by_cases hstore : store = s.store.storeId
  · subst hstore
    exact Map.get_insert_self.trans View.withRecord_self.symm
  · refine Eq.trans ?_ (View.withRecord_of_ne hstore).symm
    have hne : namespacePath store ≠ namespacePath s.store.storeId := fun heq =>
      hstore (Identifier.ext (Option.some.inj (congrArg (fun q : Path => q[1]?) heq)))
    refine (Map.get_insert_of_ne hne).trans (Map.get_erase_of_ne fun heq => ?_)
    exact PersistTarget.temporary.ne_namespacePath heq.symm

/-- What persisting does, however it ends. -/
theorem persistNamespace_wp (hP : P.Correct) : (persistNamespace P).wp
    (fun _ t => Persisted P s t) (fun _ t => Unpersisted P s t) (Unpersisted P s) s := by
  let n := s.store.snapshot
  let s₁ : Sys := { s with
    history := s.history ++ [.persisting s.store.key s.store.storeId
      (s.store.namespaceGeneration + 1) s.store.directories s.store.files] }
  have hbegun : At s (s.view.sealed n) s₁.core :=
    ⟨rfl, rfl, Core.view_noted_snapshot (c := s.core) rfl rfl⟩
  have hsealed : ∀ u : Sys, At s (s.view.sealed n) u.core → Unpersisted P s u :=
    fun u hu => ⟨hu.store, hu.counters, .inr (.inl hu.view)⟩
  have hpublished : ∀ u : Sys,
      (∃ node, n.WrittenAs P node ∧ At s (s.view.published n node) u.core) → Unpersisted P s u :=
    fun u ⟨node, hnode, hu⟩ => ⟨hu.store, hu.counters, .inr (.inr ⟨node, hnode, hu.view⟩)⟩
  rw [persistNamespace, wp_bind]
  change Act.wp (failIf _ _ >>= _) _ _ _ s
  rw [wp_bind, wp_failIf]
  refine ⟨fun _ => ⟨rfl, rfl, .inl rfl⟩, fun _ => ?_⟩
  rw [wp_bind]
  change Act.wp (sealRecord P n.header n.bytes {} >>= _) _ _ _ s₁
  refine wp_bind_of_keeps At.keeps_sealRecord hbegun (fun sealed s₂ h₂ hat₂ _ => ?_)
    (fun _ => hsealed) hsealed
  obtain ⟨record, next⟩ := sealed
  obtain ⟨⟨drawn, hseal⟩, -⟩ := sealRecord_eq_ok h₂
  refine wp_bind_of_keeps (keeps_writeRecord (At.allowsFile .temporary)) hat₂
    (fun _ s₃ h₃ hat₃ _ => ?_) (fun _ => hsealed) hsealed
  obtain ⟨bytes, hencode, hcore⟩ := writeRecord_eq_ok h₃
  have htmp : s₃.disk.fs[namespaceTmp s.store.storeId (s.store.namespaceGeneration + 1)]? =
      some (.file bytes true) := by
    rw [show s₃.disk.fs = _ from congrArg Core.fs hcore]
    exact Map.get_insert_self
  -- the rename happens completely or not at all
  let op : FsOp := .rename (namespaceTmp s.store.storeId (s.store.namespaceGeneration + 1))
    (namespacePath s.store.storeId)
  have hrenamed : ∀ fs, op.effect s₃.disk.fs = .ok fs →
      ∃ node, n.WrittenAs P node ∧ At s (s.view.published n node) (s₃.ran fs).core :=
    fun fs he => ⟨_, Snapshot.writtenAs_of_sealed hP hseal hencode, hat₃.rename htmp he⟩
  have hleft : ∀ fs, op.Leaves s₃.disk.fs fs → Unpersisted P s (s₃.ran fs) := by
    intro fs hl
    rcases hl.of_atomic trivial with rfl | he
    · exact hsealed _ hat₃
    · exact hpublished _ (hrenamed fs he)
  refine (wp_bind _ _).mpr (wp_io (fun fs he => ?_) (fun _ fs hl => hleft fs hl)
    (fun fs hl => hleft fs hl))
  obtain ⟨node, hnode, hat₄⟩ := hrenamed fs he
  have hmarker : PersistTarget s.store.storeId 0 (markerPath (storeDir s.store.storeId)) := .marker
  refine wp_bind_of_keeps (keeps_flushDirectoryMarker (At.allowsFile hmarker)) hat₄
    (fun _ s₅ _ hat₅ _ => ?_) (fun _ u hu => hpublished u ⟨node, hnode, hu⟩)
    (fun u hu => hpublished u ⟨node, hnode, hu⟩)
  refine ⟨?_, hat₅.counters, node, hnode, ?_⟩
  · exact congrArg (fun store : Store =>
      { store with namespaceGeneration := s.store.namespaceGeneration + 1 }) hat₅.store
  · have hstore : s₅.store = s.store := hat₅.store
    change s₅.core.view.now s₅.core.view.names ⟨s₅.store.storeId, s₅.store.key, _⟩ = _
    rw [hat₅.view, hstore]
    rfl

/-! ### Changes that are persisted or undone -/

variable {A : Names → Change → Prop} {ch : Change}

/-- What persisting a changed store leaves, told from the view before the change. -/
theorem Unpersisted.tried (h : Unpersisted P s t)
    (hs : s.view = (v.begun ch).now (ch.apply v.names) v.session) :
    View.Tried P v ch (t.view.now v.names v.session) := by
  have hsession : s.store.snapshot.session = v.session.next :=
    congrArg (fun v : View => v.session.next) hs
  have hlists : s.store.snapshot.Lists (ch.apply v.names) :=
    ⟨congrArg (fun v : View => v.names.directories) hs,
      congrArg (fun v : View => v.names.files) hs⟩
  rcases h.view with hview | hview | ⟨node, hnode, hview⟩
  · rw [hview, hs]
    exact .refused
  · rw [hview, hs]
    exact .sealed hsession hlists
  · rw [hview, hs]
    exact .published hsession hlists hnode

theorem View.Tried.cut {v' v'' : View} (h : View.Tried P v ch v') (hA : A v.names ch)
    (hd : ch.Durable) (he : ch.Enabled v.names) (hsame : View.SameDisk v' v'') :
    View.Cut P A v v'' :=
  ⟨v', .single (.fail (.tried ch hA hd he h)), hsame⟩

/-- From the view, the operation meets the postcondition, or fails without an effect; cut off, it
leaves a state that whole steps lead to. -/
abbrev View.From (P : Primitives) (A : Names → Change → Prop) (v : View) {α : Type} (p : Op α)
    (Q : α → Sys → Prop) (s : Sys) : Prop :=
  p.wp Q (fun _ t => View.Failed P A v t.view) (fun t => View.Cut P A v t.view) s

/-- A change that is persisted or undone. -/
theorem persistOr_wp (hP : P.Correct) {undo : Store → Store} (ch : Change) (hA : A v.names ch)
    (hd : ch.Durable) (he : ch.Enabled v.names)
    (hs : s.view = (v.begun ch).now (ch.apply v.names) v.session)
    (hnames : (undo s.store).names s.counters.nextHandle = v.names)
    (hsession : (undo s.store).session = s.store.session) :
    View.From P A v (persistOr P undo) (fun _ t => View.Committed P v ch t.view) s := by
  rw [View.From, persistOr, wp_orRollback]
  refine wp_mono (persistNamespace_wp hP) (fun _ t ht => ?_) (fun _ t ht => ?_) fun t ht => ?_
  · obtain ⟨node, hnode, hview⟩ := ht.view
    rw [hview, hs]
    refine .intro hd he ?_ ?_ hnode
    · exact congrArg (fun v : View => v.session.next) hs
    · exact ⟨congrArg (fun v : View => v.names.directories) hs,
        congrArg (fun v : View => v.names.files) hs⟩
  · have hview : (t.mapStore undo).view = t.view.now v.names v.session := by
      refine View.ext ?_ ?_ rfl rfl rfl
      · change (undo t.store).names t.counters.nextHandle = v.names
        rw [ht.store, ht.counters, hnames]
      · change (undo t.store).session = v.session
        rw [ht.store, hsession]
        exact congrArg View.session hs
    rw [hview]
    exact .tried ch hA hd he (ht.tried hs)
  · exact (ht.tried hs).cut hA hd he ⟨rfl, rfl, rfl⟩

/-- The namespace is persisted as it is. -/
theorem persistNamespace_stay (hP : P.Correct) (hA : A s.view.names .stay) : View.From
    P A s.view (persistNamespace P) (fun _ t => View.Committed P s.view .stay t.view) s := by
  have hs : s.view = (s.view.begun .stay).now (Change.stay.apply s.view.names) s.view.session := by
    refine View.ext rfl rfl rfl ?_ rfl
    exact (List.append_nil _).symm
  have hw : View.From P A s.view (persistOr P id) _ s :=
    persistOr_wp hP .stay hA trivial trivial hs rfl rfl
  rwa [View.From, persistOr, wp_orRollback] at hw

end Persist

end Wdlp
