import Wdlp.Storage.View

/-!
# The operations on names

What each operation on names does to the view, however it ends: which change it makes when it
returns, that it makes none when it fails (with the exceptions that the code has), and that the
next process finds a state that whole steps lead to when it is cut off.

## Main definitions

* `View.Deleted`, `View.Opened`, `View.Renamed`, `View.Closed` — the effects of the operations that
  have more than one.

## Main results

* `createDirectory_wp`, `createOrOpen_wp`, `delete_wp`, `rename_wp`, `closeHandle_wp`,
  `flushHandle_wp` — what the operations do.
* `call_wp` — every call is made of changes and steps.
-/

namespace Wdlp

open CrashSafe Act Function

variable {P : Primitives} {A : Names → Change → Prop} {s t : Sys} {path : ParsedPath}

/-! ### What the checks say about the names -/

section Checks

variable {store : Store} {key : Text} {next : ℕ}

theorem not_mem_directories : key ∉ store.directories ↔ (store.names next).directories key = none :=
  Map.not_mem_iff_get.trans Option.map_eq_none_iff.symm

theorem not_mem_files : key ∉ store.files ↔ (store.names next).files key = none :=
  Map.not_mem_iff_get.trans Option.map_eq_none_iff.symm

theorem mem_directories : key ∈ store.directories ↔ (store.names next).directories key ≠ none :=
  not_iff_comm.mp not_mem_directories |>.symm

theorem mem_files : key ∈ store.files ↔ (store.names next).files key ≠ none :=
  not_iff_comm.mp not_mem_files |>.symm

theorem requireParent_cases (store : Store) (path : VirtualPath) (next : ℕ) :
    (store.requireParent path = .ok () ∧ (store.names next).HasParent path.lookupKey) ∨
      (store.requireParent path = .error .notFound ∧
        ¬(store.names next).HasParent path.lookupKey) := by
  unfold Store.requireParent Names.HasParent
  cases parentKey path.lookupKey with
  | none => exact .inl ⟨rfl, nofun⟩
  | some parent =>
    by_cases hp : parent ∈ store.directories
    · refine .inl ⟨if_pos hp, ?_⟩
      rintro _ ⟨⟩
      exact mem_directories.mp hp
    · exact .inr ⟨if_neg hp, fun h => hp (mem_directories.mpr (h parent rfl))⟩

/-- A path that was parsed is not the root. -/
theorem isDirectory_iff :
    store.isDirectory path.1 = true ↔ (store.names next).directories path.1.lookupKey ≠ none := by
  have hne : path.1.lookupKey ≠ [] := path.lookup_ne_nil
  rw [← mem_directories, Store.isDirectory, decide_eq_false hne, Bool.false_or, decide_eq_true_iff]

/-- No key of the store starts with the key of the directory. -/
theorem empty_iff : ¬(store.directories.keys.any ((key ++ ['/']).isPrefixOf ·) = true ∨
    store.files.keys.any ((key ++ ['/']).isPrefixOf ·) = true) ↔ (store.names next).Empty key := by
  simp only [Names.Empty, Names.Has, ← mem_directories, ← mem_files, isInside, List.any_eq_true,
    Std.ExtTreeMap.mem_keys]
  grind

/-- A handle of the store is open on the key. -/
theorem open_iff : store.handles.values.any (fun handle => decide (handle.pathKey = key)) = true ↔
    (store.names next).Open key := by
  simp only [List.any_eq_true, Map.mem_values, decide_eq_true_eq]
  constructor
  · rintro ⟨state, ⟨number, hstate⟩, hkey⟩
    exact ⟨number, state, hstate, hkey⟩
  · rintro ⟨number, state, hstate, hkey⟩
    exact ⟨state, ⟨number, hstate⟩, hkey⟩

/-- No handle on the key forbids its deletion. -/
theorem shared_iff : ¬store.handles.values.any (fun handle => decide (handle.pathKey = key) &&
    !handle.allowDelete) = true ↔ (store.names next).Shared key := by
  simp only [List.any_eq_true, Map.mem_values, Bool.and_eq_true, decide_eq_true_eq,
    Bool.not_eq_true', not_exists, not_and, Bool.not_eq_false]
  constructor
  · exact fun h number state hstate hkey => h state ⟨number, hstate⟩ hkey
  · rintro h state ⟨number, hstate⟩ hkey
    exact h number state hstate hkey

end Checks

/-! ### Creating -/

section Create

/-- Only the creation of a file adds to the files created. -/
theorem View.begun_eq {v : View} {ch : Change} (h : ch.creations v.session.storeId = []) :
    v.begun ch = v := by
  rw [View.begun, h, List.append_nil]

/-- The state with another store, and with what is left of the clock. -/
theorem view_withStore (s : Sys) (store : Store) (clock : Stream' UInt64) :
    { s with clock := clock, store := store }.view =
      s.view.now (store.names s.counters.nextHandle) store.session := rfl

theorem createDirectory_wp (hP : P.Correct) (hA : A s.view.names (.makeDirectory path)) :
    View.From P A s.view (createDirectory P path.1)
      (fun _ t => View.Committed P s.view (.makeDirectory path) t.view) s := by
  refine wp_bind_of_ok rfl (wp_bind_failIf (fun _ => .same) fun hnew => ?_)
  obtain ⟨hfile, hdir⟩ := not_or.mp hnew
  rcases requireParent_cases s.store path.1 s.counters.nextHandle with ⟨hok, hparent⟩ | ⟨herr, -⟩
  · rw [hok]
    refine wp_bind_of_ok rfl (wp_bind_of_ok rfl (wp_bind_of_ok rfl ?_))
    have he : (Change.makeDirectory path).Enabled s.view.names :=
      ⟨not_mem_directories.mp hdir, not_mem_files.mp hfile, hparent⟩
    refine persistOr_wp hP (.makeDirectory path) hA trivial he ?_ ?_ rfl
    · rw [View.begun_eq rfl]
      refine (view_withStore s _ _).trans (congrArg (s.view.now · _) ?_)
      exact Names.ext (Map.lookup_insert _) rfl rfl rfl
    · refine Names.ext ?_ rfl rfl rfl
      exact congrArg (fun (m : Map Text DirectoryEntry) key => m[key]?.map DirectoryEntry.display)
        (Map.erase_insert hdir)
  · rw [herr]
    exact .same

/-- The state in which a file was created. -/
theorem view_created (s : Sys) (store : Store) (clock : Stream' UInt64)
    (next : ℕ) (creation : Creation) : { s with
      clock := clock, counters := { s.counters with nextFile := next }, store := store
      history := s.history ++
        [HistoryEntry.created creation.store creation.number creation.file] }.view =
    { s.view with created := s.view.created ++ [creation] }.now
      (store.names s.counters.nextHandle) store.session := by
  refine View.ext rfl rfl rfl ?_ ?_
  · exact List.filterMap_append
  · exact List.filterMap_append.trans (List.append_nil _)

theorem createFile_wp (hP : P.Correct)
    (hA : ∀ number file, A s.view.names (.makeFile path number file))
    (habsent : s.store.files[path.1.lookupKey]? = none) : View.From P A s.view (createFile P path.1)
    (fun _ t => ∃ number file, View.Committed P s.view (.makeFile path number file) t.view) s := by
  have hfile := Map.not_mem_iff_get.mpr habsent
  refine wp_bind_of_ok rfl ?_
  rcases requireParent_cases s.store path.1 s.counters.nextHandle with ⟨hok, hparent⟩ | ⟨herr, -⟩
  · rw [hok]
    refine wp_bind_of_ok rfl (wp_bind_of_ok rfl ?_)
    cases hid : newFileId s.counters.nextFile with
    | error e => exact .same
    | ok file =>
      refine wp_bind_of_ok rfl (wp_bind_of_ok rfl ?_)
      refine wp_bind_of_ok rfl (wp_bind_of_ok rfl ?_)
      have he : (Change.makeFile path s.counters.nextFile file).Enabled s.view.names :=
        ⟨not_mem_files.mp hfile, hparent, hid⟩
      refine wp_imp (persistOr_wp hP (.makeFile path s.counters.nextFile file) (hA _ _) trivial
        he ?_ ?_ rfl) (fun _ t ht => ⟨_, _, ht⟩)
      · refine (view_created s _ _ _ ⟨s.store.storeId, s.counters.nextFile, file⟩).trans ?_
        refine congrArg (View.now _ · _) ?_
        exact Names.ext rfl (Map.lookup_insert _) rfl rfl
      · refine Names.ext rfl ?_ rfl rfl
        exact congrArg (fun (m : Map Text FileEntry) key => m[key]?.map FileEntry.name)
          (Map.erase_insert hfile)
  · rw [herr]
    exact .same

/-- A file was found, or made. -/
inductive View.Found (P : Primitives) (v : View) (path : ParsedPath) : View → Prop
  | found (h : ∃ f, v.names.files path.1.lookupKey = some f ∧ f.deletePending = false) :
      Found P v path v
  | made {v' : View} {number : ℕ} {file : FileId}
      (h : View.Committed P v (.makeFile path number file) v') : Found P v path v'

/-- A file was found or made, and a handle on it was opened. -/
def View.Opened (P : Primitives) (v : View) (path : ParsedPath) (allowDelete : Bool) (v' : View) :
    Prop :=
  ∃ v₁, View.Found P v path v₁ ∧ View.Marked v₁ (.openHandle path.1.lookupKey allowDelete) v'

theorem View.Found.openable {v v' : View} (h : View.Found P v path v') :
    ∃ f, v'.names.files path.1.lookupKey = some f ∧ f.deletePending = false := by
  cases h with
  | found h => exact h
  | made h =>
    rw [h.names_eq]
    exact ⟨_, update_self .., rfl⟩

theorem View.Found.nextHandle_eq {v v' : View} (h : View.Found P v path v') :
    v'.names.nextHandle = v.names.nextHandle := by
  cases h with
  | found h => rfl
  | made h =>
    rw [h.names_eq]
    rfl

theorem findOrCreate_wp (hP : P.Correct)
    (hA : ∀ number file, A s.view.names (.makeFile path number file)) {create : Bool} :
    View.From P A s.view (findOrCreate P path.1 create) (fun _ t => View.Found P s.view path t.view) s := by
  refine wp_bind_of_ok rfl ?_
  split
  · next entry hentry =>
    refine wp_bind_failIf (fun _ => .same) fun hvisible => ?_
    have hfound : View.Found P s.view path s.view :=
      .found ⟨entry.name, congrArg (Option.map FileEntry.name) hentry,
        Bool.eq_false_of_not_eq_true hvisible⟩
    refine wp_of_keeps (keepsView_touchFile s.view) rfl (fun _ t _ ht _ => ?_)
      (fun _ t ht => ?_) (fun t ht => ?_)
    · exact ht.symm ▸ hfound
    · exact ht.symm ▸ .same
    · exact ht.symm ▸ .refl
  · next habsent =>
    refine wp_bind_failIf (fun _ => .same) fun _ => ?_
    refine wp_imp (createFile_wp hP hA habsent) (fun _ t ht => ?_)
    obtain ⟨number, file, ht⟩ := ht
    exact .made ht

theorem createOrOpen_wp (hP : P.Correct)
    (hA : ∀ number file, A s.view.names (.makeFile path number file)) {create allowDelete : Bool} :
    View.From P A s.view (createOrOpen P path.1 create allowDelete)
      (fun handle t => handle.number = s.view.names.nextHandle ∧
        View.Opened P s.view path allowDelete t.view) s := by
  refine wp_seq (findOrCreate_wp hP hA) fun _ s₁ hfound => ?_
  refine wp_bind_of_ok rfl (wp_bind_of_ok rfl ⟨hfound.nextHandle_eq, s₁.view, hfound, ?_⟩)
  have hview : ∀ store' : Store, { s₁ with
        counters := { s₁.counters with nextHandle := s₁.counters.nextHandle + 1 }
        store := store' }.view =
      s₁.view.now (store'.names (s₁.counters.nextHandle + 1)) store'.session := fun _ => rfl
  have hnames : { s₁.store with
      handles := s₁.store.handles.insert s₁.counters.nextHandle
        { pathKey := path.1.lookupKey, allowDelete } }.names (s₁.counters.nextHandle + 1) =
      (Change.openHandle path.1.lookupKey allowDelete).apply s₁.view.names := by
    exact Names.ext rfl rfl Map.get_insert_update rfl
  rw [hview, hnames]
  exact .intro id hfound.openable

end Create

/-! ### Deleting -/

/-- A directory or a file was deleted, or a file was marked because it is open. -/
inductive View.Deleted (P : Primitives) (v : View) (key : Text) : View → Prop
  | directory {v' : View} (h : View.Committed P v (.dropDirectory key) v') : Deleted P v key v'
  | file {v' : View} (hdir : v.names.directories key = none)
      (h : View.Committed P v (.dropFile key) v') : Deleted P v key v'
  | pending {v' : View} (hdir : v.names.directories key = none)
      (h : View.Marked v (.markPending key) v') : Deleted P v key v'

/-- The changes that delete what is at a key. -/
def Change.Removes (key : Text) (ch : Change) : Prop :=
  ch = .dropDirectory key ∨ ch = .dropFile key ∨ ch = .markPending key

section Delete

theorem deleteDirectory_wp (hP : P.Correct)
    (hA : ∀ ch : Change, ch.Removes path.1.lookupKey → A s.view.names ch) :
    View.From P A s.view (deleteDirectory P path.1)
      (fun _ t => View.Committed P s.view (.dropDirectory path.1.lookupKey) t.view) s := by
  refine wp_bind_of_ok rfl (wp_bind_failIf (fun _ => .same) fun _ => ?_)
  refine wp_bind_failIf (fun _ => .same) fun hdir => ?_
  refine wp_bind_failIf (fun _ => .same) fun hempty => wp_bind_of_ok rfl ?_
  have he : (Change.dropDirectory path.1.lookupKey).Enabled s.view.names :=
    ⟨mem_directories.mp (not_not.mp hdir), empty_iff.mp hempty⟩
  refine persistOr_wp hP (.dropDirectory path.1.lookupKey) (hA _ (.inl rfl)) trivial he ?_ rfl rfl
  rw [View.begun_eq rfl]
  refine (view_withStore s _ s.clock).trans (congrArg (s.view.now · _) ?_)
  exact Names.ext (Map.lookup_erase _) rfl rfl rfl

/-- A file without open handles is removed. -/
theorem removeFile_wp (hP : P.Correct) {key : Text} (hA : A s.view.names (.dropFile key))
    (hfile : s.view.names.files key ≠ none) (hclosed : ¬s.view.names.Open key) :
    View.From P A s.view (do
      modifyStore fun store => { store with files := store.files.erase key }
      persistOr P fun current => { current with files := s.store.files } : Op Unit)
      (fun _ t => View.Committed P s.view (.dropFile key) t.view) s := by
  refine wp_bind_of_ok rfl ?_
  refine persistOr_wp hP (.dropFile key) hA trivial ⟨hfile, hclosed⟩ ?_ rfl rfl
  rw [View.begun_eq rfl]
  refine (view_withStore s _ s.clock).trans (congrArg (s.view.now · _) ?_)
  exact Names.ext rfl (Map.lookup_erase _) rfl rfl

theorem names_marked {store : Store} {key : Text} {entry : FileEntry} {next : ℕ}
    (h : store.files[key]? = some entry) :
    { store with files := store.files.insert key { entry with deletePending := true } }.names next =
      (Change.markPending key).apply (store.names next) := by
  refine Names.ext rfl ((Map.lookup_insert _).trans ?_) rfl rfl
  refine congrArg (update _ key) ?_
  exact (congrArg (fun f : Option FileEntry =>
    (f.map FileEntry.name).map fun f => { f with deletePending := true }) h).symm

theorem deleteFile_wp (hP : P.Correct)
    (hA : ∀ ch : Change, ch.Removes path.1.lookupKey → A s.view.names ch)
    (hdir : s.view.names.directories path.1.lookupKey = none) :
    View.From P A s.view (deleteFile P path.1) (fun _ t => View.Deleted P s.view path.1.lookupKey t.view) s := by
  refine wp_bind_of_ok rfl ((wp_bind _ _).mpr ((wp_ofOption _ _).mpr ?_))
  split
  · next entry hentry =>
    have hfile : s.view.names.files path.1.lookupKey = some entry.name :=
      congrArg (Option.map FileEntry.name) hentry
    have hsome : s.view.names.files path.1.lookupKey ≠ none := hfile ▸ Option.some_ne_none _
    refine wp_bind_failIf (fun _ => .same) fun hshared => ?_
    refine wp_ite.mpr ⟨fun hopen => ?_, fun hclosed => ?_⟩
    · refine .pending hdir ?_
      have hview := (view_withStore s _ s.clock).trans (congrArg (s.view.now · _)
        (names_marked hentry))
      refine hview ▸ ?_
      exact .intro id ⟨hsome, open_iff.mp hopen, shared_iff.mp hshared⟩
    · refine wp_imp (removeFile_wp hP (hA _ (.inr (.inl rfl))) hsome fun h =>
        hclosed (open_iff.mpr h)) fun _ t ht => .file hdir ht
  · exact .same

theorem delete_wp (hP : P.Correct)
    (hA : ∀ ch : Change, ch.Removes path.1.lookupKey → A s.view.names ch) :
    View.From P A s.view (delete P path.1) (fun _ t => View.Deleted P s.view path.1.lookupKey t.view) s := by
  refine wp_bind_of_ok rfl (wp_ite.mpr ⟨fun _ => ?_, fun hfile => ?_⟩)
  · exact wp_imp (deleteDirectory_wp hP hA) (fun _ t ht => .directory ht)
  · exact deleteFile_wp hP hA (not_not.mp fun hdir => hfile (isDirectory_iff.mpr hdir))

end Delete

/-! ### Closing and flushing handles -/

/-- A handle was closed, and with the last handle of a file that is about to be deleted the file was
removed. -/
inductive View.Closed (P : Primitives) (v : View) (number : ℕ) : View → Prop
  | closed {v' : View} (h : View.Marked v (.closeHandle number) v') : Closed P v number v'
  | removed {v₁ v' : View} {key : Text} (h : View.Marked v (.closeHandle number) v₁)
      (hremoved : View.Committed P v₁ (.dropFile key) v') : Closed P v number v'

/-- A handle that could not be closed: it is not known, or it is gone and its file stays. -/
inductive View.ClosedInPart (P : Primitives) (A : Names → Change → Prop) (v : View) (number : ℕ) :
    View → Prop
  | unknown (h : v.names.handles number = none) : ClosedInPart P A v number v
  | stays {v₁ v' : View} (h : View.Marked v (.closeHandle number) v₁)
      (hfailed : View.Failed P A v₁ v') : ClosedInPart P A v number v'

section Handles

variable {handle : FileHandle}

/-- A cut-off after some steps. -/
theorem View.Cut.after {v v₁ v' : View} (hsteps : View.Steps P A v v₁) (h : View.Cut P A v₁ v') :
    View.Cut P A v v' := by
  obtain ⟨u, hu, hsame⟩ := h
  exact ⟨u, hsteps.trans hu, hsame⟩

theorem finishDelete_wp (hP : P.Correct) {key : Text} (hA : A s.view.names (.dropFile key)) :
    View.From P A s.view (finishDelete P key)
      (fun _ t => t.view = s.view ∨ View.Committed P s.view (.dropFile key) t.view) s := by
  refine wp_bind_of_ok rfl (wp_ite.mpr ⟨fun hpending => ?_, fun _ => .inl rfl⟩)
  have hclosed : ¬s.view.names.Open key := fun hopen =>
    Bool.false_ne_true (hpending.2.symm.trans (open_iff.mpr hopen))
  have hfile : s.view.names.files key ≠ none := by
    intro hnone
    have hget : s.store.files[key]? = none := Option.map_eq_none_iff.mp hnone
    have hany := hpending.1
    rw [hget] at hany
    cases hany
  exact wp_imp (removeFile_wp hP hA hfile hclosed) (fun _ _ => .inr)

theorem closeHandle_wp (hP : P.Correct) (hA : A s.view.names (.closeHandle handle.number))
    (hdrop : ∀ n key, A n (.dropFile key)) :
    (closeHandle P handle).wp (fun _ t => View.Closed P s.view handle.number t.view)
      (fun _ t => View.ClosedInPart P A s.view handle.number t.view)
      (fun t => View.Cut P A s.view t.view) s := by
  refine wp_bind_of_ok rfl ((wp_bind _ _).mpr ((wp_ofOption _ _).mpr ?_))
  split
  · next state hstate =>
    refine wp_bind_of_ok rfl ?_
    let s₁ : Sys := s.mapStore fun store =>
      { store with handles := store.handles.erase handle.number }
    have hmarked : View.Marked s.view (.closeHandle handle.number) s₁.view := by
      have hnames : s₁.store.names s₁.counters.nextHandle =
          (Change.closeHandle handle.number).apply s.view.names :=
        Names.ext rfl rfl Map.get_erase_update rfl
      have hview : s₁.view = s.view.now _ s.view.session :=
        (view_withStore s _ s.clock).trans (congrArg (s.view.now · _) hnames)
      rw [hview]
      refine .intro id ?_
      exact fun hnone => Option.some_ne_none _ (hstate.symm.trans hnone)
    refine wp_mono (finishDelete_wp (s := s₁) hP (hdrop _ _)) (fun _ t ht => ?_) (fun _ t ht => ?_)
      fun t ht => ?_
    · rcases ht with ht | ht
      · exact .closed (ht ▸ hmarked)
      · exact .removed hmarked ht
    · exact .stays hmarked ht
    · exact .after (.single (.move (.mark hA hmarked))) ht
  · next hnone => exact .unknown hnone

/-- The namespace is persisted whether or not something was committed. -/
theorem flushHandle_wp (hP : P.Correct) (hA : A s.view.names .stay) :
    View.From P A s.view (flushHandle P handle) (fun _ t => View.Committed P s.view .stay t.view) s := by
  refine wp_bind_of_ok rfl ((wp_bind _ _).mpr ((wp_ofExcept _).mpr ?_))
  split
  · next file hfile =>
    refine wp_ite.mpr ⟨fun _ => ?_, fun _ => persistNamespace_stay hP hA⟩
    refine wp_bind_of_keeps (keepsView_flushStaged s.view) rfl (fun _ s₁ _ h₁ _ => ?_)
      (fun _ t ht => ?_) (fun t ht => ?_)
    · have hview : s₁.view = s.view := h₁
      rw [← hview] at hA ⊢
      exact persistNamespace_stay hP hA
    · exact ht.symm ▸ .same
    · exact ht.symm ▸ .refl
  · exact .same

end Handles

/-! ### Renaming -/

namespace Names

variable (n : Names)

/-- The change that moves what is at the source. -/
def moving (source : Text) (destination : ParsedPath) : Change :=
  match n.directories source with
  | none => .moveFile source destination
  | some _ => .moveTree source destination

/-- Something is at the destination that has to be replaced. -/
def Occupied (source destination : Text) : Prop :=
  n.files destination ≠ none ∨ (n.directories source ≠ none ∧ n.directories destination ≠ none)

/-- A rename that may replace gets as far as deleting what is at its destination. -/
def Replaces (source destination : Text) : Prop :=
  n.HasParent destination ∧ n.Occupied source destination ∧
    if n.directories source = none then ∃ f, n.files source = some f ∧ f.deletePending = false
    else isInside source destination = false

end Names

/-- What a rename did with its destination before it moved its source. -/
inductive View.Replaced (P : Primitives) (v : View) (source destination : Text) : View → Prop
  | absent (h : ¬v.names.Occupied source destination) : Replaced P v source destination v
  | deleted {v' : View} (h : v.names.Replaces source destination)
      (hdeleted : View.Deleted P v destination v') : Replaced P v source destination v'

/-- The state in which a rename moves its source. -/
inductive Vacated (P : Primitives) (s : Sys) (source destination : ParsedPath) (replace : Bool) :
    Sys → Prop
  | absent (h : ¬s.view.names.Occupied source.1.lookupKey destination.1.lookupKey) :
      Vacated P s source destination replace s
  | deleted {u : Sys} (hreplace : replace = true)
      (h : s.view.names.Replaces source.1.lookupKey destination.1.lookupKey)
      (hrun : delete P destination.1 s = .ok () u)
      (hdeleted : View.Deleted P s.view destination.1.lookupKey u.view) :
      Vacated P s source destination replace u

/-- The source was moved, after the destination was replaced. -/
def Renamed (P : Primitives) (s : Sys) (source destination : ParsedPath) (replace : Bool)
    (v' : View) : Prop :=
  ∃ u, Vacated P s source destination replace u ∧
    View.Committed P u.view (s.view.names.moving source.1.lookupKey destination) v'

/-- A rename that failed: nothing was changed, or its destination was deleted and nothing else. -/
inductive RenamedInPart (P : Primitives) (A : Names → Change → Prop) (s : Sys)
    (source destination : ParsedPath) (replace : Bool) : View → Prop
  | same {v' : View} (hkept : replace = true →
        s.view.names.Replaces source.1.lookupKey destination.1.lookupKey →
          ∀ u, delete P destination.1 s ≠ .ok () u)
      (h : View.Failed P A s.view v') : RenamedInPart P A s source destination replace v'
  | deleted {u : Sys} {v' : View} (hreplace : replace = true)
      (hreplaces : s.view.names.Replaces source.1.lookupKey destination.1.lookupKey)
      (hrun : delete P destination.1 s = .ok () u)
      (hdeleted : View.Deleted P s.view destination.1.lookupKey u.view)
      (h : View.Failed P A u.view v') : RenamedInPart P A s source destination replace v'

/-- What a rename can change. -/
structure View.MayRename (P : Primitives) (A : Names → Change → Prop) (v : View) (source : Text)
    (destination : ParsedPath) : Prop where
  removes : ∀ ch : Change, ch.Removes destination.1.lookupKey → A v.names ch
  moves : ∀ v', View.Replaced P v source destination.1.lookupKey v' →
    A v'.names (v.names.moving source destination)

section Rename

variable {source destination : ParsedPath} {replace : Bool} {key : Text} {v v' : View}

section

variable (h : View.Deleted P v key v')

include h

theorem View.Deleted.move
    (hA : ∀ ch : Change, ch.Removes key → A v.names ch) : View.Move P A v v' := by
  cases h with
  | directory h => exact .commit (hA _ (.inl rfl)) h
  | file hdir h => exact .commit (hA _ (.inr (.inl rfl))) h
  | pending hdir h => exact .mark (hA _ (.inr (.inr rfl))) h

theorem View.Deleted.directories_eq :
    v'.names.directories = update v.names.directories key none := by
  cases h with
  | directory h => rw [h.names_eq]; rfl
  | file hdir h => rw [h.names_eq, ← hdir, update_eq_self]; rfl
  | pending hdir h => rw [h.names_eq, ← hdir, update_eq_self]; rfl

theorem View.Deleted.wellFormed (hv : v.names.WellFormed) : v'.names.WellFormed :=
  View.Step.wellFormed (.move (h.move (A := fun _ _ => True) fun _ _ => trivial)) hv

/-- The directory that the destination lies in is not the one that is replaced. -/
theorem View.Deleted.hasParent (hv : v.names.HasParent key) : v'.names.HasParent key := by
  intro parent hparent
  have hne : parent ≠ key := by
    rintro rfl
    exact absurd (isInside_of_parentKey hparent) (by rw [isInside_self]; exact Bool.false_ne_true)
  rw [h.directories_eq, update_of_ne hne]
  exact hv parent hparent

end

namespace Vacated

variable {u : Sys}

section

variable (h : Vacated P s source destination replace u)

include h

theorem replaced : View.Replaced P s.view source.1.lookupKey destination.1.lookupKey u.view := by
  cases h with
  | absent h => exact .absent h
  | deleted hreplace h hrun hdeleted => exact .deleted h hdeleted

theorem moves (hA : View.MayRename P A s.view source.1.lookupKey destination) :
    View.Moves P A s.view u.view := by
  cases h with
  | absent h => exact .refl
  | deleted hreplace h hrun hdeleted => exact .single (hdeleted.move hA.removes)

theorem wellFormed (hwf : s.view.names.WellFormed) : u.view.names.WellFormed := by
  cases h with
  | absent h => exact hwf
  | deleted hreplace h hrun hdeleted => exact hdeleted.wellFormed hwf

theorem hasParent (hparent : s.view.names.HasParent destination.1.lookupKey) :
    u.view.names.HasParent destination.1.lookupKey := by
  cases h with
  | absent h => exact hparent
  | deleted hreplace h hrun hdeleted => exact hdeleted.hasParent hparent

theorem failed (hf : View.Failed P A u.view v') :
    RenamedInPart P A s source destination replace v' := by
  cases h with
  | absent h => exact .same (fun _ hreplaces => absurd hreplaces.2.1 h) hf
  | deleted hreplace h hrun hdeleted => exact .deleted hreplace h hrun hdeleted hf

/-- The move of a rename, once the destination was replaced. -/
theorem wp (hA : View.MayRename P A s.view source.1.lookupKey destination) {p : Op Unit} {t : Sys}
    (hp : p.wp (fun _ t => View.Committed P u.view
        (s.view.names.moving source.1.lookupKey destination) t.view)
      (fun _ t => View.Failed P A u.view t.view) (fun t => View.Cut P A u.view t.view) t) :
    p.wp (fun _ t => Renamed P s source destination replace t.view)
      (fun _ t => RenamedInPart P A s source destination replace t.view)
      (fun t => View.Cut P A s.view t.view) t :=
  wp_mono hp (fun _ _ ht => ⟨u, h, ht⟩) (fun _ _ ht => h.failed ht)
    (fun _ ht => .after (h.moves hA).steps ht)

end

end Vacated

theorem replaceDestination_wp (hP : P.Correct) {present : Bool}
    (hA : View.MayRename P A s.view source.1.lookupKey destination)
    (hpresent : present = true ↔
      s.view.names.Occupied source.1.lookupKey destination.1.lookupKey)
    (hreplaces : present = true →
      s.view.names.Replaces source.1.lookupKey destination.1.lookupKey) :
    (replaceDestination P destination.1 replace present).wp
      (fun _ t => Vacated P s source destination replace t)
      (fun _ t => RenamedInPart P A s source destination replace t.view)
      (fun t => View.Cut P A s.view t.view) s := by
  refine wp_ite.mpr ⟨fun hp => ?_, fun habsent => .absent fun h => habsent (hpresent.mpr h)⟩
  refine wp_bind_failIf (fun hnot => ?_) fun hreplace => ?_
  · exact .same (fun htrue => absurd htrue (by rw [hnot]; exact Bool.false_ne_true)) .same
  · have hreplace : replace = true := by simpa using hreplace
    refine wp_mono (wp_eq (delete_wp hP hA.removes)) (fun _ t ht => ?_) (fun _ t ht => ?_)
      (fun _ ht => ht.2)
    · exact .deleted hreplace (hreplaces hp) ht.1 ht.2
    · refine .same (fun _ _ u hu => ?_) ht.2
      cases ht.1.symm.trans hu

variable {handles : Map ℕ HandleState}

/-- The handles of a moved file go with it. -/
theorem get_renameHandles {a b : Text} : (fun number => (renameHandles a b handles)[number]?) =
      Change.moveHandles (fun key => if key = a then b else key) (fun number => handles[number]?) := by
  funext number
  refine Std.ExtTreeMap.getElem?_map.trans (congrArg (Option.map · _) (funext fun state => ?_))
  by_cases h : state.pathKey = a <;> simp [h]

/-- The handles of the files in a moved tree go with them. -/
theorem get_moveHandles {a b : Text} : (fun number => (moveHandles a b handles)[number]?) =
      Change.moveHandles (fun key => if isInside a key then movedKey a b key else key)
        (fun number => handles[number]?) := by
  funext number
  refine Std.ExtTreeMap.getElem?_map.trans (congrArg (Option.map · _) (funext fun state => ?_))
  by_cases h : isInside a state.pathKey = true <;> simp [h]

variable {a : Text}

/-- A file entry is moved and gets another display name. -/
theorem names_moveFile {store : Store} {entry : FileEntry}
    {metadata : EntryMetadata} {next : ℕ} (h : store.files[a]? = some entry) : { store with
      files := (store.files.erase a).insert destination.1.lookupKey
        { entry with display := destination.1.displayName, metadata := metadata }
      handles := renameHandles a destination.1.lookupKey store.handles }.names next =
    (Change.moveFile a destination).apply (store.names next) := by
  refine Names.ext rfl ?_ get_renameHandles rfl
  refine (Map.lookup_insert _).trans (congr (congrArg (update · _) ?_) ?_)
  · exact Map.lookup_erase _
  · exact (congrArg (fun f : Option FileEntry => (f.map FileEntry.name).map fun f =>
      { f with display := destination.1.displayName }) h).symm

theorem renameFile_wp (hP : P.Correct)
    (hA : View.MayRename P A s.view source.1.lookupKey destination)
    (hdir : s.view.names.directories source.1.lookupKey = none)
    (hparent : s.view.names.HasParent destination.1.lookupKey) :
    (renameFile P source.1 destination.1 replace).wp
      (fun _ t => Renamed P s source destination replace t.view)
      (fun _ t => RenamedInPart P A s source destination replace t.view)
      (fun t => View.Cut P A s.view t.view) s := by
  have hmoving : s.view.names.moving source.1.lookupKey destination =
      .moveFile source.1.lookupKey destination := by rw [Names.moving, hdir]
  have hsource : s.view.names.Replaces source.1.lookupKey destination.1.lookupKey →
      ∃ f, s.view.names.files source.1.lookupKey = some f ∧ f.deletePending = false := by
    rintro ⟨-, -, h⟩
    rwa [if_pos hdir] at h
  refine wp_bind_of_ok rfl ((wp_bind _ _).mpr ((wp_ofOption _ _).mpr ?_))
  split
  case h_2 habsent =>
    refine .same (fun _ hreplaces => ?_) .same
    obtain ⟨f, hf, -⟩ := hsource hreplaces
    cases (congrArg (Option.map FileEntry.name) habsent).symm.trans hf
  next entry hentry =>
  have hfile : s.view.names.files source.1.lookupKey = some entry.name :=
    congrArg (Option.map FileEntry.name) hentry
  refine wp_bind_failIf (fun hpending => ?_) fun hvisible => ?_
  · refine .same (fun _ hreplaces => ?_) .same
    obtain ⟨f, hf, hf'⟩ := hsource hreplaces
    cases hfile.symm.trans hf
    exact absurd (hf'.symm.trans hpending) Bool.false_ne_true
  have hoccupied : decide (destination.1.lookupKey ∈ s.store.files) = true ↔
      s.view.names.Occupied source.1.lookupKey destination.1.lookupKey := by
    have hmem : destination.1.lookupKey ∈ s.store.files ↔
        s.view.names.files destination.1.lookupKey ≠ none := mem_files
    rw [decide_eq_true_iff, hmem]
    exact ⟨.inl, fun h => h.resolve_right fun h => h.1 hdir⟩
  refine wp_seq (replaceDestination_wp hP hA hoccupied fun hpresent => ?_) fun _ s₁ hready => ?_
  · refine ⟨hparent, hoccupied.mp hpresent, ?_⟩
    rw [if_pos hdir]
    exact ⟨_, hfile, Bool.eq_false_of_not_eq_true hvisible⟩
  refine wp_bind_of_ok rfl (wp_bind_failIf (fun _ => hready.failed .same) fun hgone => ?_)
  -- whether or not it was there before, no file is at the destination now
  have hfree : destination.1.lookupKey ∉ s₁.store.files := by
    cases hready with
    | absent h => exact fun hmem => h (hoccupied.mp (decide_eq_true hmem))
    | deleted hreplace h hrun hdeleted =>
      exact fun hmem => hgone ⟨of_decide_eq_true (hoccupied.mpr h.2.1), hmem⟩
  refine (wp_bind _ _).mpr ((wp_ofOption _ _).mpr ?_)
  split
  case h_2 => exact hready.failed .same
  next moved hmoved =>
  have he : (Change.moveFile source.1.lookupKey destination).Enabled s₁.view.names := by
    refine ⟨?_, not_mem_files.mp hfree, hready.hasParent hparent⟩
    exact fun hnone => Option.some_ne_none _ (hmoved.symm.trans (Option.map_eq_none_iff.mp hnone))
  refine wp_bind_of_ok rfl (wp_bind_of_ok rfl (hready.wp hA ?_))
  have hmoves := hA.moves _ hready.replaced
  rw [hmoving] at hmoves ⊢
  refine persistOr_wp hP (.moveFile source.1.lookupKey destination) hmoves trivial he ?_ rfl rfl
  rw [View.begun_eq rfl]
  exact (view_withStore s₁ _ _).trans (congrArg (s₁.view.now · _) (names_moveFile hmoved))

variable {E : StorageError → Sys → Prop} {C : Sys → Prop}

/-- Entries are moved one after the other. `get` and `put` select the entries among the names. -/
theorem forEach_relocate_wp {α : Type} (get : Names → Text → Option α)
    (put : Names → (Text → Option α) → Names) (move : Text → Text) (change : Text → α → α)
    {p : Text → Op Unit}
    (hget : ∀ n g, get (put n g) = g) (hput : ∀ n g g', put (put n g) g' = put n g')
    (hsame : ∀ n, put n (get n) = n)
    (hp : ∀ t key, get t.view.names key ≠ none → (p key).wp (fun _ t' => t'.view =
      t.view.now (put t.view.names (relocate move change (get t.view.names) key)) t.view.session)
      E C t) {keys : List Text} (hnodup : keys.Nodup)
    (hinj : ∀ a ∈ keys, ∀ b ∈ keys, move a = move b → a = b)
    (hapart : ∀ a ∈ keys, ∀ b ∈ keys, move a ≠ b)
    (hthere : ∀ key ∈ keys, get s.view.names key ≠ none) :
    (Act.forEach keys p).wp (fun _ t => t.view = s.view.now (put s.view.names
      (keys.foldl (relocate move change) (get s.view.names))) s.view.session) E C s := by
  let g := get s.view.names
  -- some of the entries have been moved, the others are where they were
  let I : List Text → Sys → Prop := fun l t => ∃ moved, keys = moved ++ l ∧ t.view =
    s.view.now (put s.view.names (moved.foldl (relocate move change) g)) s.view.session
  have hloop := wp_forEach (f := p) (E := E) (C := C) I (fun key l t ht => ?_) keys s ⟨[], rfl, ?_⟩
  · refine wp_imp hloop (fun _ t ht => ?_)
    obtain ⟨moved, hkeys, hview⟩ := ht
    rw [List.append_nil] at hkeys
    rw [hview, hkeys]
  · obtain ⟨moved, hkeys, hview⟩ := ht
    have hmem : ∀ k ∈ moved, k ∈ keys := fun k hk => hkeys ▸ List.mem_append_left _ hk
    have hkey : key ∈ keys := hkeys ▸ List.mem_append_right _ List.mem_cons_self
    have hnames : get t.view.names = moved.foldl (relocate move change) g := by
      rw [hview]
      exact hget _ _
    have hnew : key ∉ moved := by
      rw [hkeys] at hnodup
      exact fun h => (List.nodup_append.mp hnodup).2.2 key h key List.mem_cons_self rfl
    have hstill : moved.foldl (relocate move change) g key = g key := by
      have hrest := (foldl_relocate move change key moved (g := g)
        (hnodup.sublist (hkeys ▸ List.sublist_append_left _ _))
        (fun a ha b hb => hinj a (hmem a ha) b (hmem b hb))
        (fun a ha b hb => hapart a (hmem a ha) b (hmem b hb))).2
        fun k hk => hapart k (hmem k hk) key hkey
      rw [hrest, if_neg hnew]
    have hfound : get t.view.names key ≠ none := by
      rw [hnames, hstill]
      exact hthere key hkey
    refine wp_imp (hp t key hfound) (fun _ t' ht' => ?_)
    refine ⟨moved ++ [key], by rw [hkeys, List.append_assoc, List.singleton_append], ?_⟩
    rw [ht', hnames, List.foldl_append, hview]
    exact congrArg (View.now _ · _) (hput _ _ _)
  · refine (congrArg (s.view.now · _) (hsame s.view.names)).symm.trans ?_
    rfl

theorem moveDirectory_wp (h : s.view.names.directories key ≠ none) :
    (moveDirectory a destination.1 key).wp (fun _ t => t.view = s.view.now { s.view.names with
        directories := relocate (movedKey a destination.1.lookupKey)
          (fun key display => if stripStart a key = [] then destination.1.displayName else display)
          s.view.names.directories key } s.view.session) E C s := by
  obtain ⟨display, hdisplay⟩ := Option.ne_none_iff_exists'.mp h
  obtain ⟨entry, hentry, rfl⟩ := Option.map_eq_some_iff.mp hdisplay
  refine wp_bind_of_ok rfl (wp_bind_of_ok rfl ?_)
  refine (view_withStore s _ _).trans (congrArg (s.view.now · _) (Names.ext ?_ rfl rfl rfl))
  refine (Map.lookup_insert _).trans (congr (congrArg (update · _) ?_) ?_)
  · exact Map.lookup_erase _
  · have hget : s.store.directories[key]? = some entry := hentry
    rw [hdisplay, hget]
    rfl

theorem moveFile_wp (h : s.view.names.files key ≠ none) :
    (moveFile a destination.1 key).wp (fun _ t => t.view = s.view.now { s.view.names with
        files := relocate (movedKey a destination.1.lookupKey) (fun _ f => f)
          s.view.names.files key } s.view.session) E C s := by
  obtain ⟨f, hf⟩ := Option.ne_none_iff_exists'.mp h
  obtain ⟨entry, hentry, rfl⟩ := Option.map_eq_some_iff.mp hf
  have hget : s.store.files[key]? = some entry := hentry
  refine wp_bind_of_ok rfl ?_
  rw [hget]
  refine wp_bind_of_ok rfl ?_
  refine (view_withStore s _ _).trans (congrArg (s.view.now · _) (Names.ext rfl ?_ rfl rfl))
  refine (Map.lookup_insert _).trans (congr (congrArg (update · _) ?_) ?_)
  · exact Map.lookup_erase _
  · rw [hf]
    exact congrArg some (entry.name_retimed _)

/-- A tree is moved, entry by entry, and persisted or moved back. -/
theorem moveTree_wp (hP : P.Correct)
    (hA : A s.view.names (.moveTree a destination)) (hwf : s.view.names.WellFormed)
    (he : (Change.moveTree a destination).Enabled s.view.names) : View.From P A s.view (do
      Act.forEach (s.store.directories.keys.filter fun key => decide (key = a) || isInside a key)
        (moveDirectory a destination.1)
      Act.forEach (s.store.files.keys.filter (isInside a)) (moveFile a destination.1)
      modifyStore fun store =>
        { store with handles := moveHandles a destination.1.lookupKey store.handles }
      persistOr P s.store.restore : Op Unit)
      (fun _ t => View.Committed P s.view (.moveTree a destination) t.view) s := by
  have hdirs : ∀ key, key ∈ s.store.directories.keys.filter
      (fun key => decide (key = a) || isInside a key) ↔ s.view.names.directories key ≠ none ∧
        (key = a ∨ isInside a key = true) := by
    intro key
    rw [List.mem_filter, Std.ExtTreeMap.mem_keys, Bool.or_eq_true, decide_eq_true_iff]
    exact and_congr_left' mem_directories
  have hfiles : ∀ key, key ∈ s.store.files.keys.filter (isInside a) ↔
      s.view.names.files key ≠ none ∧ isInside a key = true := by
    intro key
    rw [List.mem_filter, Std.ExtTreeMap.mem_keys]
    exact and_congr_left' mem_files
  have hdirectories := forEach_relocate_wp (s := s)
    (E := fun _ t => View.Failed P A s.view t.view) (C := fun t => View.Cut P A s.view t.view)
    Names.directories (fun n g => { n with directories := g })
    (movedKey a destination.1.lookupKey)
    (fun key display => if stripStart a key = [] then destination.1.displayName else display)
    (fun _ _ => rfl) (fun _ _ _ => rfl) (fun _ => rfl) (fun _ _ h => moveDirectory_wp h)
    (Map.nodup_keys.filter _)
    (fun b hb c hc => Names.movedKey_inj ((hdirs b).mp hb).2 ((hdirs c).mp hc).2)
    (fun b hb c hc hbc => ((hdirs c).mp hc).1
      (hbc ▸ Names.moveTree_free_directory hwf he ((hdirs b).mp hb).2))
    (fun key hkey => ((hdirs key).mp hkey).1)
  refine wp_seq hdirectories fun _ s₂ h₂ => ?_
  have hnames₂ : s₂.view.names.files = s.view.names.files := by rw [h₂]; rfl
  have hmoved := forEach_relocate_wp (s := s₂)
    (E := fun _ t => View.Failed P A s.view t.view) (C := fun t => View.Cut P A s.view t.view)
    Names.files (fun n g => { n with files := g }) (movedKey a destination.1.lookupKey)
    (fun _ f => f) (fun _ _ => rfl) (fun _ _ _ => rfl) (fun _ => rfl) (fun _ _ h => moveFile_wp h)
    (Map.nodup_keys.filter _)
    (fun b hb c hc => Names.movedKey_inj (.inr ((hfiles b).mp hb).2)
      (.inr ((hfiles c).mp hc).2))
    (fun b hb c hc hbc => ((hfiles c).mp hc).1
      (hbc ▸ Names.moveTree_free_file hwf he ((hfiles b).mp hb).2))
    (fun key hkey => hnames₂ ▸ ((hfiles key).mp hkey).1)
  refine wp_seq hmoved fun _ s₃ h₃ => ?_
  refine wp_bind_of_ok rfl ?_
  have hview : s₃.view = s.view.now { s.view.names with
      directories := ((Change.moveTree a destination).apply s.view.names).directories
      files := ((Change.moveTree a destination).apply s.view.names).files } s.view.session := by
    rw [h₃, h₂, ← Names.moveTree_directories hwf he (Map.nodup_keys.filter _) hdirs,
      ← Names.moveTree_files hwf he (Map.nodup_keys.filter _) hfiles]
    rfl
  refine persistOr_wp hP (.moveTree a destination) hA trivial he ?_ ?_ rfl
  · rw [View.begun_eq rfl]
    refine (view_withStore s₃ _ s₃.clock).trans ?_
    rw [hview]
    refine congr (congrArg (View.now _) (Names.ext ?_ ?_ ?_ ?_)) ?_
    · exact congrArg (fun v : View => v.names.directories) hview
    · exact congrArg (fun v : View => v.names.files) hview
    · refine get_moveHandles.trans ?_
      exact congrArg (fun v : View => Change.moveHandles _ v.names.handles) hview
    · exact congrArg (fun v : View => v.names.nextHandle) hview
    · exact congrArg View.session hview
  · refine Names.ext rfl rfl rfl ?_
    exact congrArg (fun v : View => v.names.nextHandle) hview

theorem renameDirectory_wp (hP : P.Correct)
    (hA : View.MayRename P A s.view source.1.lookupKey destination)
    (hdir : s.view.names.directories source.1.lookupKey ≠ none) (hwf : s.view.names.WellFormed) :
    (renameDirectory P source.1 destination.1 replace).wp
      (fun _ t => Renamed P s source destination replace t.view)
      (fun _ t => RenamedInPart P A s source destination replace t.view)
      (fun t => View.Cut P A s.view t.view) s := by
  have hmoving : s.view.names.moving source.1.lookupKey destination =
      .moveTree source.1.lookupKey destination := by
    obtain ⟨display, hdisplay⟩ := Option.ne_none_iff_exists'.mp hdir
    rw [Names.moving, hdisplay]
  refine wp_bind_failIf (fun hroot => ?_) fun hroot => wp_bind_of_ok rfl ?_
  · refine .same (fun _ hreplaces => ?_) .same
    have houtside := hreplaces.2.2
    rw [if_neg hdir] at houtside
    rcases hroot with hroot | hinside
    · exact absurd hroot source.lookup_ne_nil
    · exact absurd (houtside.symm.trans hinside) Bool.false_ne_true
  have houtside : isInside source.1.lookupKey destination.1.lookupKey = false :=
    Bool.eq_false_of_not_eq_true (not_or.mp hroot).2
  rcases requireParent_cases s.store destination.1 s.counters.nextHandle with
    ⟨hok, hparent⟩ | ⟨herr, hnone⟩
  case inr =>
    rw [herr]
    exact .same (fun _ hreplaces => absurd hreplaces.1 hnone) .same
  rw [hok]
  refine wp_bind_of_ok rfl ?_
  have hoccupied : decide (destination.1.lookupKey ∈ s.store.files ∨
      destination.1.lookupKey ∈ s.store.directories) = true ↔
        s.view.names.Occupied source.1.lookupKey destination.1.lookupKey := by
    have hmem : destination.1.lookupKey ∈ s.store.directories ↔
        s.view.names.directories destination.1.lookupKey ≠ none := mem_directories
    rw [decide_eq_true_iff]
    exact or_congr mem_files (hmem.trans ⟨fun h => ⟨hdir, h⟩, And.right⟩)
  refine wp_seq (replaceDestination_wp hP hA hoccupied fun hpresent => ?_) fun _ s₁ hready => ?_
  · refine ⟨hparent, hoccupied.mp hpresent, ?_⟩
    rw [if_neg hdir]
    exact houtside
  have hfree : s₁.view.names.directories destination.1.lookupKey = none := by
    cases hready with
    | absent h => exact not_not.mp fun hdest => h (.inr ⟨hdir, hdest⟩)
    | deleted hreplace h hrun hdeleted => rw [hdeleted.directories_eq, update_self]
  have hmoves := hA.moves _ hready.replaced
  refine wp_bind_of_ok rfl (hready.wp hA ?_)
  rw [hmoving] at hmoves ⊢
  exact moveTree_wp hP hmoves (hready.wellFormed hwf) ⟨houtside, hfree, hready.hasParent hparent⟩

theorem rename_wp (hP : P.Correct) (hA : View.MayRename P A s.view source.1.lookupKey destination)
    (hwf : s.view.names.WellFormed) : (rename P source.1 destination.1 replace).wp
    (fun _ t => Renamed P s source destination replace t.view)
    (fun _ t => RenamedInPart P A s source destination replace t.view)
    (fun t => View.Cut P A s.view t.view) s := by
  refine wp_bind_of_ok rfl ?_
  rcases requireParent_cases s.store destination.1 s.counters.nextHandle with
    ⟨hok, hparent⟩ | ⟨herr, hnone⟩
  case inr =>
    rw [herr]
    exact .same (fun _ hreplaces => absurd hreplaces.1 hnone) .same
  rw [hok]
  refine wp_bind_of_ok rfl (wp_ite.mpr ⟨fun hdir => ?_, fun hfile => ?_⟩)
  · exact renameDirectory_wp hP hA (isDirectory_iff.mp hdir) hwf
  · exact renameFile_wp hP hA (not_not.mp fun hdir => hfile (isDirectory_iff.mpr hdir)) hparent

end Rename

/-! ### Calls -/

/-- Every change that the call can make is in `A`. -/
def Call.Within (P : Primitives) (A : Names → Change → Prop) (v : View) : Call → Prop
  | createDirectory path => A v.names (.makeDirectory path)
  | createOrOpen path _ allowDelete => (∀ number file, A v.names (.makeFile path number file)) ∧
      ∀ n, A n (.openHandle path.1.lookupKey allowDelete)
  | rename source destination _ => View.MayRename P A v source.1.lookupKey destination
  | delete path => ∀ ch : Change, ch.Removes path.1.lookupKey → A v.names ch
  | flushHandle _ => A v.names .stay
  | closeHandle handle => A v.names (.closeHandle handle.number) ∧ ∀ n key, A n (.dropFile key)
  | writeHandle _ _ _ | readHandle _ | truncateHandle _ _ | readPath _ | write _ _ | writeAt _ _ _
  | flushFile _ | read _ | recoverStore _ | entryMetadata _ => True

section Calls

variable {v v' : View} {source destination : ParsedPath} {handle : FileHandle} {replace : Bool}

theorem View.Opened.moves {allowDelete : Bool} (h : View.Opened P v path allowDelete v')
    (hmake : ∀ number file, A v.names (.makeFile path number file))
    (hopen : ∀ n, A n (.openHandle path.1.lookupKey allowDelete)) : View.Moves P A v v' := by
  obtain ⟨v₁, hfound, hmarked⟩ := h
  cases hfound with
  | found hf => exact .single (.mark (hopen _) hmarked)
  | made hmade => exact .tail (.single (.commit (hmake _ _) hmade)) (.mark (hopen _) hmarked)

theorem View.Closed.moves {number : ℕ} (h : View.Closed P v number v')
    (hclose : A v.names (.closeHandle number)) (hdrop : ∀ n key, A n (.dropFile key)) :
    View.Moves P A v v' := by
  cases h with
  | closed h => exact .single (.mark hclose h)
  | removed h hremoved => exact .tail (.single (.mark hclose h)) (.commit (hdrop _ _) hremoved)

theorem View.ClosedInPart.steps {number : ℕ} (h : View.ClosedInPart P A v number v')
    (hclose : A v.names (.closeHandle number)) : View.Steps P A v v' := by
  cases h with
  | unknown h => exact .refl
  | stays h hfailed => exact .tail (.single (.move (.mark hclose h))) (.fail hfailed)

theorem Renamed.moves (h : Renamed P s source destination replace v')
    (hA : View.MayRename P A s.view source.1.lookupKey destination) : View.Moves P A s.view v' := by
  obtain ⟨u, hready, hmoved⟩ := h
  exact .tail (hready.moves hA) (.commit (hA.moves _ hready.replaced) hmoved)

theorem RenamedInPart.steps (h : RenamedInPart P A s source destination replace v')
    (hA : View.MayRename P A s.view source.1.lookupKey destination) : View.Steps P A s.view v' := by
  cases h with
  | same hkept h => exact .single (.fail h)
  | deleted hreplace hreplaces hrun hdeleted h =>
    exact .tail (.single (.move (hdeleted.move hA.removes))) (.fail h)

/-- An operation that has nothing to do with the names takes no step. -/
theorem KeepsView.wp_steps {α : Type} {p : Op α} (h : KeepsView p) :
    p.wp (fun _ t => View.Moves P A s.view t.view) (fun _ t => View.Steps P A s.view t.view)
      (fun t => View.Cut P A s.view t.view) s := by
  refine wp_of_keeps (h s.view) rfl (fun _ t _ ht _ => ?_) (fun _ t ht => ?_) (fun t ht => ?_)
  · exact ht.symm ▸ .refl
  · exact ht.symm ▸ .refl
  · exact ht.symm ▸ .refl

theorem KeepsView.ignore {α : Type} {p : Op α} (h : KeepsView p) :
    KeepsView (do let _ ← p : Op Unit) := h.bind fun _ => keepsView_pure

/-- A call that returns makes changes, one that fails takes steps; after one that was cut off, the
next process finds a state that steps lead to. -/
theorem call_wp (hP : P.Correct) (hwf : s.view.names.WellFormed) (call : Call)
    (hA : call.Within P A s.view) : (call.run P).wp (fun _ t => View.Moves P A s.view t.view)
    (fun _ t => View.Steps P A s.view t.view) (fun t => View.Cut P A s.view t.view) s := by
  have hfailed : ∀ {v'}, View.Failed P A s.view v' → View.Steps P A s.view v' :=
    fun h => .single (.fail h)
  cases call with
  | createDirectory path =>
    exact wp_mono (createDirectory_wp hP hA) (fun _ _ h => .single (.commit hA h))
      (fun _ _ => hfailed) (fun _ => id)
  | createOrOpen path create allowDelete =>
    refine (wp_bind _ _).mpr (wp_mono (createOrOpen_wp hP hA.1)
      (fun _ _ h => h.2.moves hA.1 hA.2) (fun _ _ => hfailed) (fun _ => id))
  | rename source destination replace =>
    exact wp_mono (rename_wp hP hA hwf) (fun _ _ h => h.moves hA) (fun _ _ h => h.steps hA)
      (fun _ => id)
  | delete path =>
    exact wp_mono (delete_wp hP hA) (fun _ _ h => .single (h.move hA)) (fun _ _ => hfailed)
      (fun _ => id)
  | writeHandle handle offset bytes => exact keepsView_writeHandle.wp_steps
  | readHandle handle => exact keepsView_readHandle.ignore.wp_steps
  | truncateHandle handle length => exact keepsView_truncateHandle.wp_steps
  | flushHandle handle =>
    exact wp_mono (flushHandle_wp hP hA) (fun _ _ h => .single (.commit hA h))
      (fun _ _ => hfailed) (fun _ => id)
  | closeHandle handle =>
    exact wp_mono (closeHandle_wp hP hA.1 hA.2) (fun _ _ h => h.moves hA.1 hA.2)
      (fun _ _ h => h.steps hA.1) (fun _ => id)
  | readPath path => exact keepsView_readPath.ignore.wp_steps
  | entryMetadata path => exact keepsView_entryMetadata.ignore.wp_steps
  | write file bytes => exact keepsView_write.wp_steps
  | writeAt file offset bytes => exact keepsView_writeAt.wp_steps
  | flushFile file => exact keepsView_flushFile.ignore.wp_steps
  | read file => exact keepsView_readFile.ignore.wp_steps
  | recoverStore file => exact keepsView_recoverStore.ignore.wp_steps

end Calls

end Wdlp
