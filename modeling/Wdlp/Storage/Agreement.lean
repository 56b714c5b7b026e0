import Wdlp.Storage.DiskRun

/-!
# Memory and disk agree on the names

The names that an open store holds are those of the namespace record on the disk, apart from the
files that are about to be deleted, as long as the record has the generation that the store
remembers. It has a later one when persisting failed after the record was put in place: then the
change was undone in memory only.

## Main definitions

* `Names.Agree` — two sets of names that differ only in files about to be deleted.
* `View.InSync`, `View.Ahead` — the record on the disk agrees with memory, or has a generation of
  which the store does not know.
* `Sys.RecordCurrent` — the record on the disk has the generation that the store remembers.

## Main results

* `World.tracked_run` — over whole runs, the record agrees with memory or is ahead of it.
* `reopened_names` — a store that is opened again has the names of the running one.
-/

namespace Wdlp

open CrashSafe Function

variable {P : Primitives} {keys : StoreId → StoreKey} {A : Names → Change → Prop} {v v' : View}

/-! ### Names that agree -/

/-- The names `m` agree with `n`, apart from the files that are about to be deleted. -/
structure Names.Agree (m n : Names) : Prop where
  directories : m.directories = n.directories
  absent : ∀ key, n.files key = none → (m.files key).filter (!·.deletePending) = none
  visible : ∀ key f, n.files key = some f → f.deletePending = false → m.files key = some f

namespace Names

variable {m n : Names}

theorem Agree.of_eq (hd : m.directories = n.directories) (hf : m.files = n.files) : m.Agree n where
  directories := hd
  absent key h := by
    rw [hf, h]
    rfl
  visible key f h _ := by
    rw [hf, h]

theorem Agree.reloaded (h : m.Agree n) (nextHandle : ℕ) : (m.reloaded nextHandle).Agree n where
  directories := h.directories
  absent key hkey := by
    change ((m.files key).filter _).filter _ = none
    rw [h.absent key hkey]
    rfl
  visible key f hkey hf := by
    change (m.files key).filter _ = some f
    rw [h.visible key f hkey hf, Option.filter_some, hf]
    rfl

/-- When no file is about to be deleted, the names of a loaded namespace that agree are the same. -/
theorem Agree.files_eq {nextHandle : ℕ} (h : m.Agree n)
    (hn : ∀ key f, n.files key = some f → f.deletePending = false) :
    (m.reloaded nextHandle).files = n.files := by
  funext key
  cases hkey : n.files key with
  | none => exact h.absent key hkey
  | some f => exact (h.reloaded nextHandle).visible key f hkey (hn key f hkey)

/-- Changes in memory only do not touch the directories, and add no files. -/
theorem apply_of_memory {ch : Change} (h : ¬ch.Durable) : (ch.apply n).directories = n.directories ∧
    ∀ key, (ch.apply n).files key = n.files key ∨ ∃ f, n.files
    key = some f ∧ (ch.apply n).files key = some { f with deletePending := true } := by
  cases ch with
  | markPending marked =>
    refine ⟨rfl, fun key => ?_⟩
    change update n.files marked _ key = _ ∨ ∃ f, _ ∧ update n.files marked _ key = _
    by_cases hkey : key = marked
    · subst hkey
      rw [update_self]
      cases hf : n.files key with
      | none => exact .inl rfl
      | some f => exact .inr ⟨f, rfl, rfl⟩
    · exact .inl (update_of_ne hkey ..)
  | openHandle | closeHandle => exact ⟨rfl, fun _ => .inl rfl⟩
  | _ => exact absurd trivial h

theorem Agree.apply_of_memory (h : m.Agree n) {ch : Change} (hmemory : ¬ch.Durable) :
    m.Agree (ch.apply n) := by
  obtain ⟨hdirectories, hfiles⟩ := Names.apply_of_memory (n := n) hmemory
  refine ⟨h.directories.trans hdirectories.symm, fun key hkey => ?_, fun key f hkey hf => ?_⟩
  · rcases hfiles key with heq | ⟨f, -, heq⟩
    · exact h.absent key (heq ▸ hkey)
    · rw [heq] at hkey
      cases hkey
  · rcases hfiles key with heq | ⟨f', -, heq⟩
    · exact h.visible key f (heq ▸ hkey) hf
    · rw [heq] at hkey
      cases hkey
      cases hf

end Names

/-! ### The record and the memory -/

namespace View

/-- The record on the disk has the generation that the store remembers, and agrees with its names; a
store without a record has none. -/
inductive InSync (P : Primitives) (v : View) : Prop
  | absent (hrecord : v.records v.session.storeId = none)
      (hdirectories : ∀ key, v.names.directories key = none) (hfiles : ∀ key, v.names.files key = none)
  | record {n : Snapshot} (hn : n ∈ v.persisted) (hstore : n.session.storeId = v.session.storeId)
      (hpublished : n.PublishedAs P (v.records v.session.storeId))
      (hgeneration : n.session.generation = v.session.generation) (hagree : n.names.Agree v.names)

/-- The record on the disk has a generation other than the one that the store remembers. -/
def Ahead (P : Primitives) (v : View) : Prop :=
  ∃ n ∈ v.persisted, n.session.storeId = v.session.storeId ∧
    n.PublishedAs P (v.records v.session.storeId) ∧ n.session.generation ≠ v.session.generation

/-- The view `v'` differs from `v` at most in namespaces that were sealed and not published. -/
structure SameRecord (v v' : View) : Prop where
  names : v'.names = v.names
  session : v'.session = v.session
  records : v'.records = v.records
  persisted : v.persisted ⊆ v'.persisted

theorem InSync.sameRecord (h : InSync P v) (hsame : SameRecord v v') : InSync P v' := by
  obtain ⟨hnames, hsession, hrecords, hpersisted⟩ := hsame
  cases h with
  | absent hrecord hdirectories hfiles =>
    refine .absent ?_ ?_ ?_
    · rw [hrecords, hsession, hrecord]
    · rwa [hnames]
    · rwa [hnames]
  | record hn hstore hpublished hgeneration hagree =>
    refine .record (hpersisted hn) ?_ ?_ ?_ ?_
    · rw [hsession, hstore]
    · rwa [hrecords, hsession]
    · rw [hsession, hgeneration]
    · rwa [hnames]

theorem Ahead.sameRecord (h : Ahead P v) (hsame : SameRecord v v') : Ahead P v' := by
  obtain ⟨hnames, hsession, hrecords, hpersisted⟩ := hsame
  obtain ⟨n, hn, hstore, hpublished, hgeneration⟩ := h
  refine ⟨n, hpersisted hn, ?_, ?_, ?_⟩
  · rw [hsession, hstore]
  · rwa [hrecords, hsession]
  · rwa [hsession]

/-- A change that was made durable brings memory and disk together. -/
theorem Committed.inSync {ch : Change} (h : Committed P v ch v') : InSync P v' := by
  obtain ⟨hdurable, he, hsession, hlists, hnode⟩ := h
  refine .record (List.mem_append_right _ (List.mem_singleton_self _)) rfl ?_ rfl ?_
  · refine Eq.mpr (congrArg _ ?_) hnode.1
    exact withRecord_self
  · rw [hlists.names_eq]
    exact .of_eq rfl rfl

theorem InSync.move (h : InSync P v) (hm : Move P A v v') : InSync P v' := by
  cases hm with
  | mark hA hm =>
    obtain ⟨hmemory, he⟩ := hm
    cases h with
    | absent hrecord hdirectories hfiles =>
      obtain ⟨hd, hf⟩ := Names.apply_of_memory (n := v.names) hmemory
      refine .absent hrecord (fun key => ?_) fun key => ?_
      · change (Change.apply v.names _).directories key = none
        rw [hd]
        exact hdirectories key
      · rcases hf key with heq | ⟨f, hkey, -⟩
        · exact heq.trans (hfiles key)
        · rw [hfiles key] at hkey
          cases hkey
    | record hn hstore hpublished hgeneration hagree =>
      exact .record hn hstore hpublished hgeneration (hagree.apply_of_memory hmemory)
  | commit hA hc => exact hc.inSync

theorem InSync.moves (h : InSync P v) (hm : Moves P A v v') : InSync P v' := by
  induction hm with
  | refl => exact h
  | tail _ hmove ih => exact ih.move hmove

/-- A change that was undone leaves the record as it was, or a record that is ahead. -/
theorem Tried.cases {ch : Change} (h : Tried P v ch v') : SameRecord v v' ∨ Ahead P v' := by
  cases h with
  | refused => exact .inl ⟨rfl, rfl, rfl, fun _ hn => hn⟩
  | sealed hsession hlists => exact .inl ⟨rfl, rfl, rfl, fun _ hn => List.mem_append_left _ hn⟩
  | @published n node hsession hlists hnode =>
    have hstore : n.session.storeId = v.session.storeId :=
      (congrArg Session.storeId hsession).trans rfl
    refine .inr ⟨n, List.mem_append_right _ (List.mem_singleton_self _), hstore, ?_, ?_⟩
    · change n.PublishedAs P ((View.withRecord _ _ _).records v.session.storeId)
      rw [← hstore, withRecord_self]
      exact hnode.1
    · rw [hsession]
      change v.session.generation + 1 ≠ v.session.generation
      intro heq
      simp at heq

/-- The steps keep the record in agreement with memory or ahead of it. -/
theorem tracked_steps (hs : Steps P A v v') (h : InSync P v ∨ Ahead P v) :
    InSync P v' ∨ Ahead P v' := by
  induction hs with
  | refl => exact h
  | tail _ hstep ih =>
    cases hstep with
    | move hm =>
      rcases ih with ih | ih
      · exact .inl (ih.move hm)
      · cases hm with
        | mark hA hm =>
          obtain ⟨hmemory, he⟩ := hm
          exact .inr ih
        | commit hA hc => exact .inl hc.inSync
    | fail hf =>
      cases hf with
      | same => exact ih
      | tried ch hA hdurable he ht =>
        rcases ht.cases with hsame | hahead
        · exact ih.imp (·.sameRecord hsame) (·.sameRecord hsame)
        · exact .inr hahead

end View

/-! ### Opening the store again -/

/-- Two stores have the same directories and files, with their display names and file ids. -/
structure Store.SameNames (a b : Store) : Prop where
  directories : ∀ key : Text, a.directories[key]?.map DirectoryEntry.display =
    b.directories[key]?.map DirectoryEntry.display
  files : ∀ key : Text, a.files[key]?.map FileEntry.name = b.files[key]?.map FileEntry.name

section Reopen

variable {s t : Sys} {K : StoreId → List Creation → Names → Prop} {key : StoreKey}
  {identity : CapturedStoreIdentity}

/-- The generation of the namespace record on the disk. -/
def Sys.recordGeneration? (s : Sys) : Option UInt64 :=
  match s.disk.fs[namespacePath s.store.storeId]? with
  | some (.file raw _) => (EncryptedRecordV1.decode raw).toOption.map EncryptedRecordV1.generation
  | _ => none

/-- The namespace record on the disk, if there is one, has the generation that the store
remembers. -/
def Sys.RecordCurrent (s : Sys) : Prop :=
  s.recordGeneration? = none ∨ s.recordGeneration? = some s.store.namespaceGeneration

theorem Sys.recordGeneration?_eq {n : Snapshot}
    (h : n.PublishedAs P (s.view.records s.view.session.storeId)) :
    s.recordGeneration? = some n.session.generation := by
  obtain ⟨raw, synced, record, hnode, hdecode, hheader, -⟩ := h
  have hget : s.disk.fs[namespacePath s.store.storeId]? = some (.file raw synced) := hnode
  have hgeneration : record.generation = n.session.generation :=
    congrArg RecordAad.generation hheader
  rw [recordGeneration?, hget]
  simp only [hdecode, Except.toOption, Option.map_some, hgeneration]

theorem View.Ahead.not_current (h : s.view.Ahead P) : ¬s.RecordCurrent := by
  obtain ⟨n, -, -, hpublished, hgeneration⟩ := h
  have heq := Sys.recordGeneration?_eq hpublished
  rintro (hnone | hsome)
  · rw [heq] at hnone
    cases hnone
  · rw [heq] at hsome
    exact hgeneration (Option.some.inj hsome)

/-- A store that has just been opened is in agreement with the disk. -/
theorem Stored.opened_inSync (hK : NamesInvariant A K) (h : Stored P keys K s.view)
    (hkey : key = keys identity.storeId) (hopen : openStore P identity key s = .ok () t) :
    t.view.InSync P := by
  have hview : ∀ {loaded : Store}, Loads P identity key s.disk.fs[namespacePath identity.storeId]?
      loaded → t.view = s.view.now (loaded.names s.counters.nextHandle) loaded.session :=
    fun hloads => (congrArg Core.view (openStore_eq_ok hopen hloads)).trans view_opened
  rcases h.recorded identity.storeId with hnone | ⟨n, hn, hstore, hpublished⟩
  · have hget : s.disk.fs[namespacePath identity.storeId]? = none := hnone
    have hloads : Loads P identity key s.disk.fs[namespacePath identity.storeId]?
        { identity, key } := hget ▸ .absent
    rw [hview hloads, names_new]
    exact .absent hnone (fun _ => rfl) fun _ => rfl
  · have hkeyed : n.session.key = key := by
      rw [h.keyed n hn, hstore, hkey]
    rw [hview (.record hstore hkeyed (hK.wellFormed (h.persisted n hn)).plainEntries hpublished.1)]
    refine .record hn hstore hpublished.1 rfl ?_
    change n.names.Agree ((n.load identity key).names _)
    rw [names_load]
    refine ⟨rfl, fun _ hkey => hkey, fun name f hf _ => ?_⟩
    exact (Option.filter_eq_some_iff.mp hf).1

/-- What a store in agreement with the disk has in memory is what is loaded. -/
theorem View.InSync.reopens (hK : NamesInvariant A K) (hsync : v.InSync P) (hlive : Live P keys K v)
    (hid : v.session.storeId = identity.storeId) (hkey : v.session.key = key)
    (hrecords : t.view.records = v.records) (hfits : t.disk.fs.Fits nodeKind)
    (hquiet : t.disk.fates = []) : ∃ u, ∃ m : Names, openStore P identity key t = .ok
    () u ∧ m.Agree v.names ∧ ∀ nextHandle, u.store.names nextHandle = m.reloaded nextHandle := by
  have hopens : ∀ {loaded : Store}, Loads P identity key (v.records v.session.storeId) loaded →
      ∃ u, openStore P identity key t = .ok () u ∧ u.store = loaded := by
    intro loaded hloads
    rw [hid, ← hrecords] at hloads
    obtain ⟨u, hu, hcore, -⟩ := openStore_of_loads hquiet hfits hloads
    exact ⟨u, hu, congrArg Core.store hcore⟩
  cases hsync with
  | absent hrecord hdirectories hfiles =>
    have hloads : Loads P identity key (v.records v.session.storeId) { identity, key } :=
      hrecord ▸ .absent
    obtain ⟨u, hu, hstore⟩ := hopens hloads
    refine ⟨u, Names.blank 0, hu, .of_eq ?_ ?_, fun nextHandle => ?_⟩
    · exact (funext hdirectories).symm
    · exact (funext hfiles).symm
    · rw [hstore, names_new]
      rfl
  | @record n hn hsame hpublished hgeneration hagree =>
    have hkey' : n.session.key = key := by
      rw [hlive.keyed n hn, hsame, ← hlive.key, hkey]
    obtain ⟨u, hu, hstore⟩ := hopens (.record (hsame.trans hid) hkey'
      (hK.wellFormed (hlive.persisted n hn)).plainEntries hpublished)
    refine ⟨u, n.names, hu, hagree, fun nextHandle => ?_⟩
    rw [hstore]
    exact names_load

end Reopen

/-! ### Runs -/

namespace World

variable {w w₀ : World}

/-- What is on the disk is sound, and the record of an open store agrees with memory or is ahead of
it. -/
structure Tracked (P : Primitives) (keys : StoreId → StoreKey) (w : World) : Prop where
  holds : w.Holds P keys fun _ _ n => n.WellFormed
  tracked : w.phase = .opened → w.sys.view.InSync P ∨ w.sys.view.Ahead P

theorem Tracked.step (hP : P.Correct) (h : w.Tracked P keys) {i : Input} (hi : i.Keyed keys) :
    (w.step P i).Tracked P keys := by
  refine ⟨h.holds.step hP wellFormed_invariant (admits_of_keyed hi), ?_⟩
  cases i with
  | start => simp [World.step]
  | openStore identity key =>
    rw [World.step]
    split
    · exact h.tracked
    · cases hrun : Wdlp.openStore P identity key w.sys with
      | ok u t => exact fun _ => .inl (h.holds.stored.opened_inSync wellFormed_invariant hi hrun)
      | err e t => rintro ⟨⟩
      | crash t => rintro ⟨⟩
  | call call =>
    rw [World.step]
    split
    · next hphase =>
      have hcall := call_wp hP (h.holds.live hphase).names call
        ((admits_of_keyed hi).within call rfl hphase)
      cases hrun : call.run P w.sys with
      | ok u t =>
        exact fun _ => View.tracked_steps (View.Moves.steps (Act.ok_of_wp hcall hrun))
          (h.tracked hphase)
      | err e t => exact fun _ => View.tracked_steps (Act.err_of_wp hcall hrun) (h.tracked hphase)
      | crash t => rintro ⟨⟩
    · exact h.tracked
  | tamper fs => exact hi.elim

/-- At every moment of every run, the record agrees with memory or is ahead of it. -/
theorem tracked_run (hP : P.Correct) (hfresh : w₀.Fresh) {inputs : List Input}
    (hkeyed : ∀ i ∈ inputs, i.Keyed keys) : (w₀.run P inputs).Tracked P keys := by
  refine run_induction (fun w i hi h => h.step hP hi) inputs hkeyed ⟨hfresh.holds, fun h => ?_⟩
  rw [hfresh.2.2] at h
  cases h

end World

section Runs

variable {w w₀ : World}

/-- At every moment of every run at which no file is about to be deleted and the record on the disk
has the generation that the open store remembers, the store that a process opens on that disk has the
same directories and files. -/
theorem reopened_names (hP : P.Correct) (hfresh : w₀.Fresh) {inputs : List Input}
    (hkeyed : ∀ i ∈ inputs, i.Keyed keys) (hw : w = w₀.run P inputs) (hopened : w.phase = .opened)
    {store : Store} (hstore : store = w.sys.store)
    (hpending : ∀ entry ∈ store.files.toList, entry.2.deletePending = false)
    (hcurrent : w.sys.RecordCurrent) {s : Sys} (hfs : s.disk.fs = w.sys.disk.fs)
    (hquiet : s.disk.fates = []) :
    ∃ t, openStore P store.identity store.key s = .ok () t ∧ t.store.SameNames store := by
  subst hw hstore
  obtain ⟨hholds, htracked⟩ := World.tracked_run hP hfresh hkeyed
  have hsync := (htracked hopened).resolve_right fun hahead => hahead.not_current hcurrent
  have hrecords : s.view.records = (w₀.run P inputs).sys.view.records :=
    congrArg (fun fs : Fs => fun store => fs[namespacePath store]?) hfs
  obtain ⟨t, m, ht, hagree, hnames⟩ := hsync.reopens wellFormed_invariant (hholds.live hopened)
    rfl rfl hrecords (hfs ▸ World.fits_run hP hfresh hkeyed) hquiet
  have hvisible : ∀ key f, (w₀.run P inputs).sys.view.names.files key = some f →
      f.deletePending = false := by
    intro key f hf
    obtain ⟨entry, hentry, rfl⟩ := Option.map_eq_some_iff.mp hf
    exact hpending (key, entry) (Std.ExtTreeMap.mem_toList_iff_getElem?_eq_some.mpr hentry)
  refine ⟨t, ht, fun key => ?_, fun key => ?_⟩
  · exact congrFun ((congrArg Names.directories (hnames 0)).trans hagree.directories) key
  · exact congrFun ((congrArg Names.files (hnames 0)).trans (hagree.files_eq hvisible)) key

/-- A directory and a file in it were made, after a directory could not be made. -/
def settledWorld : World :=
  (World.empty [.ok, .fail .other 0]).run .plain (soleOpening ++ [.createDirectory otherPath,
    .createDirectory solePath, .createOrOpen innerPath true true].map .call)

theorem reopened_names_settledWorld :
    ∃ t, openStore .plain soleIdentity zeroKey settledWorld.sys = .ok () t ∧
      t.store.SameNames settledWorld.sys.store := by
  have hstore : settledWorld.sys.store.identity = soleIdentity ∧
      settledWorld.sys.store.key = zeroKey := by
    decide +kernel
  rw [← hstore.1, ← hstore.2]
  exact reopened_names Primitives.plain_correct World.empty_fresh soleOpening_keyed rfl
    (by decide +kernel) rfl (by decide +kernel) (by unfold Sys.RecordCurrent; decide +kernel) rfl
    (by decide +kernel)

/-- A directory was made, and the step that puts the marker of the namespace on the disk failed. -/
def undoneDirectory : World :=
  (World.empty [.ok, .ok, .ok, .ok, .ok, .fail .other 0]).run .plain
    (soleOpening ++ [.createDirectory solePath].map .call)

theorem undone_directory_reopened :
    undoneDirectory.phase = .opened ∧ undoneDirectory.sys.store.files.isEmpty = true ∧
      undoneDirectory.sys.store.directories[solePath.1.lookupKey]?.isNone = true ∧
      (openStore .plain soleIdentity zeroKey undoneDirectory.sys).result? = some (.ok ()) ∧
      (openStore .plain soleIdentity zeroKey
        undoneDirectory.sys).state.store.directories[solePath.1.lookupKey]?.isSome = true := by
  decide +kernel

end Runs

end Wdlp
