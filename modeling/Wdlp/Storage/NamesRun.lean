import Wdlp.Storage.NameCalls

/-!
# Names over whole runs

A property of names that survives the changes, the end of the process and the reloading of a
namespace holds of every store at every moment of every run: processes start, open stores, make
calls and are cut off, and any step on the disk may fail.

## Main definitions

* `NamesInvariant` — a property of names that the changes keep.
* `Stored`, `Live` — what is on the disk is sound; and so is what a process holds in memory.

## Main results

* `Live.steps`, `Live.cut` — the steps keep it.
* `World.holds_run` — it holds over whole runs.
-/

namespace Wdlp

open CrashSafe

variable {P : Primitives} {keys : StoreId → StoreKey}
  {K : StoreId → List Creation → Names → Prop} {A : Names → Change → Prop} {v v' : View}

/-! ### Invariants -/

/-- A property of the names of a store, which may speak of the files created so far, that survives
the changes in `A` and the reloading of the names. -/
structure NamesInvariant (A : Names → Change → Prop) (K : StoreId → List Creation → Names → Prop) :
    Prop where
  wellFormed : ∀ {store created n}, K store created n → n.WellFormed
  grows : ∀ {store created n} {later : List Creation}, K store created n →
    (∀ c ∈ later, newFileId c.number = .ok c.file) → K store (created ++ later) n
  changes : ∀ {store created n} {ch : Change}, K store created n → A n ch → ch.Enabled n →
    K store (created ++ ch.creations store) (ch.apply n)
  closes : ∀ {store created n}, K store created n → K store created n.closed
  reloads : ∀ {store created n} (nextHandle : ℕ), K store created n →
    K store created (n.reloaded nextHandle)
  blank : ∀ {store} {created : List Creation} (nextHandle : ℕ),
    (∀ c ∈ created, newFileId c.number = .ok c.file) → K store created (Names.blank nextHandle)

/-- The names of a persisted namespace. -/
def Snapshot.names (n : Snapshot) : Names := namesOf n.directories n.files ∅ 0

variable {n : Snapshot}

theorem Snapshot.Lists.names_eq {names : Names} (h : n.Lists names) : n.names = names.closed :=
  Names.ext h.1 h.2 (funext fun _ => Map.get_empty) rfl

/-- Every namespace on the disk was persisted before, with the key of its store, and everything that
was persisted has the property. New files were named by their numbers. -/
structure Stored (P : Primitives) (keys : StoreId → StoreKey)
    (K : StoreId → List Creation → Names → Prop) (v : View) : Prop where
  recorded : ∀ store, v.records store = none ∨
    ∃ n ∈ v.persisted, n.session.storeId = store ∧ n.WrittenAs P (v.records store)
  keyed : ∀ n ∈ v.persisted, n.session.key = keys n.session.storeId
  persisted : ∀ n ∈ v.persisted, K n.session.storeId v.created n.names
  named : ∀ c ∈ v.created, newFileId c.number = .ok c.file

/-- What an open store holds in memory has the property too. -/
structure Live (P : Primitives) (keys : StoreId → StoreKey)
    (K : StoreId → List Creation → Names → Prop) (v : View) : Prop extends Stored P keys K v where
  key : v.session.key = keys v.session.storeId
  names : K v.session.storeId v.created v.names

theorem Stored.sameDisk (h : Stored P keys K v) (hsame : View.SameDisk v v') :
    Stored P keys K v' := by
  obtain ⟨hrecords, hcreated, hpersisted⟩ := hsame
  refine ⟨?_, ?_, ?_, ?_⟩
  · rw [hrecords, hpersisted]
    exact h.recorded
  · rw [hpersisted]
    exact h.keyed
  · rw [hpersisted, hcreated]
    exact h.persisted
  · rw [hcreated]
    exact h.named

variable {ch : Change}

/-- A file is named by its number. -/
theorem Change.Enabled.named {n : Names} (he : ch.Enabled n) {store : StoreId} :
    ∀ c ∈ ch.creations store, newFileId c.number = .ok c.file := by
  intro c hc
  cases ch with
  | makeFile path number file =>
    obtain rfl := List.mem_singleton.mp hc
    exact he.2.2
  | _ => cases hc

theorem Stored.begun (hK : NamesInvariant A K) (h : Stored P keys K v)
    (he : ch.Enabled v.names) : Stored P keys K (v.begun ch) := by
  refine ⟨h.recorded, h.keyed, fun n hn => hK.grows (h.persisted n hn) he.named, fun c hc => ?_⟩
  rcases List.mem_append.mp hc with hc | hc
  · exact h.named c hc
  · exact he.named c hc

/-- A namespace with the property is sealed, and perhaps published. -/
theorem Stored.sealed (h : Stored P keys K v) (hkey : n.session.key = keys n.session.storeId)
    (hn : K n.session.storeId v.created n.names) : Stored P keys K (v.sealed n) := by
  refine ⟨fun store => ?_, fun m hm => ?_, fun m hm => ?_, h.named⟩
  · rcases h.recorded store with hnone | ⟨m, hm, hstore, hpublished⟩
    · exact Or.inl hnone
    · exact Or.inr ⟨m, List.mem_append_left _ hm, hstore, hpublished⟩
  · rcases List.mem_append.mp hm with hm | hm
    · exact h.keyed m hm
    · obtain rfl := List.mem_singleton.mp hm
      exact hkey
  · rcases List.mem_append.mp hm with hm | hm
    · exact h.persisted m hm
    · obtain rfl := List.mem_singleton.mp hm
      exact hn

theorem Stored.published {node : Option Node} (h : Stored P keys K v)
    (hkey : n.session.key = keys n.session.storeId) (hn : K n.session.storeId v.created n.names)
    (hnode : n.WrittenAs P node) : Stored P keys K (v.published n node) := by
  have hsealed := h.sealed hkey hn
  refine ⟨fun store => ?_, hsealed.keyed, hsealed.persisted, h.named⟩
  by_cases hstore : store = n.session.storeId
  · subst hstore
    refine Or.inr ⟨n, List.mem_append_right _ (List.mem_singleton_self _), rfl, ?_⟩
    rw [View.published, View.withRecord_self]
    exact hnode
  · rw [View.published, View.withRecord_of_ne hstore]
    exact hsealed.recorded store

/-- The names that a change leads to, as they are persisted. -/
theorem Live.snapshot (hK : NamesInvariant A K) (h : Live P keys K v)
    (hA : A v.names ch) (he : ch.Enabled v.names) (hsession : n.session = v.session.next)
    (hlists : n.Lists (ch.apply v.names)) :
    n.session.key = keys n.session.storeId ∧ K n.session.storeId (v.begun ch).created n.names := by
  rw [hsession, hlists.names_eq]
  exact ⟨h.key, hK.closes (hK.changes h.names hA he)⟩

theorem Live.tried (hK : NamesInvariant A K) (h : Live P keys K v) (hA : A v.names ch)
    (he : ch.Enabled v.names) (ht : View.Tried P v ch v') : Stored P keys K v' := by
  have hbegun := h.toStored.begun hK he
  cases ht with
  | refused => exact hbegun
  | sealed hsession hlists =>
    obtain ⟨hkey, hn⟩ := h.snapshot hK hA he hsession hlists
    exact hbegun.sealed hkey hn
  | published hsession hlists hnode =>
    obtain ⟨hkey, hn⟩ := h.snapshot hK hA he hsession hlists
    exact hbegun.published hkey hn hnode

theorem Change.creations_of_memory {store : StoreId} (h : ¬ch.Durable) :
    ch.creations store = [] := by
  cases ch with
  | makeFile path number file => exact absurd trivial h
  | _ => rfl

section

variable (hK : NamesInvariant A K)

include hK

theorem Live.move (h : Live P keys K v) (hm : View.Move P A v v') : Live P keys K v' := by
  cases hm with
  | mark hA hm =>
    obtain ⟨hmemory, he⟩ := hm
    have hnames := hK.changes h.names hA he
    rw [Change.creations_of_memory hmemory, List.append_nil] at hnames
    exact ⟨⟨h.recorded, h.keyed, h.persisted, h.named⟩, h.key, hnames⟩
  | commit hA hc =>
    obtain ⟨hdurable, he, hsession, hlists, hnode⟩ := hc
    have hstored := h.tried hK hA he (.published hsession hlists hnode)
    refine ⟨hstored.sameDisk ⟨rfl, rfl, rfl⟩, ?_, ?_⟩
    · exact (h.snapshot hK hA he hsession hlists).1
    · rw [hsession]
      exact hK.changes h.names hA he

theorem Live.step (h : Live P keys K v) (hs : View.Step P A v v') : Live P keys K v' := by
  cases hs with
  | move hm => exact h.move hK hm
  | fail hf =>
    cases hf with
    | same => exact h
    | tried ch hA hdurable he ht =>
      refine ⟨h.tried hK hA he ht, ?_, ?_⟩
      · rw [ht.session_eq]
        exact h.key
      · rw [ht.session_eq, ht.names_eq, ht.created_eq]
        exact hK.grows h.names he.named

/-- The steps keep the invariant. -/
theorem Live.steps (h : Live P keys K v) (hs : View.Steps P A v v') : Live P keys K v' := by
  induction hs with
  | refl => exact h
  | tail _ hstep ih => exact ih.step hK hstep

/-- What the next process finds is sound, wherever the process was cut off. -/
theorem Live.cut (h : Live P keys K v) (hc : View.Cut P A v v') : Stored P keys K v' := by
  obtain ⟨u, hsteps, hsame⟩ := hc
  exact (h.steps hK hsteps).toStored.sameDisk hsame

end

/-! ### Opening -/

section Open

variable {s t : Sys} {identity : CapturedStoreIdentity} {key : StoreKey}

/-- Opening a store leaves alone what the next process finds, however it ends. -/
theorem openStore_sameDisk : Keeps (fun c => View.SameDisk v c.view) (openStore P identity key) := by
  have hallows : ∀ op : FsOp, (∀ store, ¬op.Touches (namespacePath store)) →
      Allows (fun c => View.SameDisk v c.view) op := by
    intro op hop c fs hl hc
    exact Core.view_withFs (fun store => hl.get_eq (hop store)) ▸ hc
  have hopens : OpenKeeps (fun c => View.SameDisk v c.view) identity.storeId := by
    refine ⟨⟨?_, ?_⟩, ?_, ?_⟩
    · exact fun op hop => hallows op fun store => hop.not_touches_namespace
    · exact fun c n _ hc => hc
    · exact hallows _ fun store hq => namespacePath_not_mem (Fs.mem_ancestors.mpr hq)
    · exact fun c store hc => ⟨hc.records, hc.created, hc.persisted⟩
  exact hopens.keeps_openStore rfl

theorem names_load {n : Snapshot} {nextHandle : ℕ} :
    (n.load identity key).names nextHandle = n.names.reloaded nextHandle := by
  refine Names.ext rfl (funext fun name => ?_) (funext fun _ => Map.get_empty) rfl
  change (visible n.files)[name]?.map FileEntry.name = _
  rw [get_visible]
  change _ = (n.files[name]?.map FileEntry.name).filter _
  cases n.files[name]? with
  | none => rfl
  | some entry =>
    rw [Option.map_some, Option.filter_some, Option.filter_some]
    split <;> simp_all [FileEntry.name]

theorem names_new {nextHandle : ℕ} :
    ({ identity, key } : Store).names nextHandle = Names.blank nextHandle := by
  refine Names.ext ?_ ?_ ?_ rfl <;> funext name
  · exact congrArg (Option.map DirectoryEntry.display)
      (Map.get_empty : (∅ : Map Text DirectoryEntry)[name]? = none)
  · exact congrArg (Option.map FileEntry.name)
      (Map.get_empty : (∅ : Map Text FileEntry)[name]? = none)
  · exact Map.get_empty

/-- What the disk holds can be loaded. -/
theorem Stored.loads (hK : NamesInvariant A K) (h : Stored P keys K s.view)
    (hkey : key = keys identity.storeId) :
    ∃ loaded, Loads P identity key s.disk.fs[namespacePath identity.storeId]? loaded ∧
      ∀ nextHandle, K identity.storeId s.view.created (loaded.names nextHandle) := by
  rcases h.recorded identity.storeId with hnone | ⟨n, hn, hstore, hpublished⟩
  · have hget : s.disk.fs[namespacePath identity.storeId]? = none := hnone
    refine ⟨{ identity, key }, hget ▸ .absent, fun nextHandle => ?_⟩
    rw [names_new]
    exact hK.blank nextHandle h.named
  · have hnames := h.persisted n hn
    refine ⟨n.load identity key, .record hstore ?_ ?_ hpublished.1, fun nextHandle => ?_⟩
    · rw [h.keyed n hn, hstore, hkey]
    · exact (hK.wellFormed hnames).plainEntries
    · rw [names_load, ← hstore]
      exact hK.reloads nextHandle hnames

theorem view_opened {loaded : Store} : (s.opened loaded).view =
    s.view.now (loaded.names s.counters.nextHandle) loaded.session := by
  refine View.ext rfl rfl (funext fun store => ?_) rfl rfl
  exact (Fs.get_insertDirs _).trans (if_neg namespacePath_not_mem)

/-- A store that was opened is sound. -/
theorem Stored.opened (hK : NamesInvariant A K) (h : Stored P keys K s.view)
    (hkey : key = keys identity.storeId) (hopen : openStore P identity key s = .ok () t) :
    Live P keys K t.view := by
  obtain ⟨loaded, hloads, hnames⟩ := h.loads hK hkey
  have hview : t.view = s.view.now (loaded.names s.counters.nextHandle) loaded.session :=
    (congrArg Core.view (openStore_eq_ok hopen hloads)).trans view_opened
  rw [hview]
  refine ⟨h.sameDisk ⟨rfl, rfl, rfl⟩, ?_, ?_⟩
  · change loaded.key = keys loaded.storeId
    rw [hloads.storeId_eq, hloads.key_eq, hkey]
  · change K loaded.storeId _ _
    rw [hloads.storeId_eq]
    exact hnames _

end Open

/-! ### Runs -/

namespace World

variable {w w₀ : World}

/-- What is on the disk is sound, and so is the store that a process has opened. -/
structure Holds (P : Primitives) (keys : StoreId → StoreKey)
    (K : StoreId → List Creation → Names → Prop) (w : World) : Prop where
  stored : Stored P keys K w.sys.view
  live : w.phase = .opened → Live P keys K w.sys.view

theorem Fresh.holds (h : w.Fresh) : w.Holds P keys K where
  stored := by
    obtain ⟨hfs, hhistory, -⟩ := h
    refine ⟨fun store => Or.inl ?_, ?_, ?_, ?_⟩
    · change w.sys.disk.fs[namespacePath store]? = none
      rw [hfs]
      exact Map.get_empty
    · intro n hn
      change n ∈ w.sys.history.filterMap _ at hn
      rw [hhistory] at hn
      cases hn
    · intro n hn
      change n ∈ w.sys.history.filterMap _ at hn
      rw [hhistory] at hn
      cases hn
    · intro c hc
      change c ∈ w.sys.history.filterMap _ at hc
      rw [hhistory] at hc
      cases hc
  live hphase := by
    rw [h.2.2] at hphase
    cases hphase

/-- The input opens a store with its key, or is a call that makes changes in `A` only. -/
structure Admits (P : Primitives) (keys : StoreId → StoreKey) (A : Names → Change → Prop) (w : World)
    (i : Input) : Prop where
  keyed : i.Keyed keys
  within : ∀ call, i = .call call → w.phase = .opened → call.Within P A w.sys.view

theorem Holds.step (hP : P.Correct) (hK : NamesInvariant A K) (h : w.Holds P keys K) {i : Input}
    (hi : w.Admits P keys A i) : (w.step P i).Holds P keys K := by
  cases i with
  | start => exact ⟨h.stored.sameDisk ⟨rfl, rfl, rfl⟩, nofun⟩
  | openStore identity key =>
    rw [World.step]
    split
    · exact h
    · have hkeeps : View.SameDisk w.sys.view (Wdlp.openStore P identity key w.sys).state.view :=
        openStore_sameDisk.state View.SameDisk.refl
      cases hrun : Wdlp.openStore P identity key w.sys with
      | ok u t =>
        have hlive := h.stored.opened hK hi.keyed hrun
        exact ⟨hlive.toStored, fun _ => hlive⟩
      | err e t =>
        rw [hrun] at hkeeps
        exact ⟨h.stored.sameDisk hkeeps, nofun⟩
      | crash t =>
        rw [hrun] at hkeeps
        exact ⟨h.stored.sameDisk hkeeps, nofun⟩
  | call call =>
    rw [World.step]
    split
    · next hphase =>
      have hlive := h.live hphase
      have hcall := call_wp hP (hK.wellFormed hlive.names) call (hi.within call rfl hphase)
      cases hrun : call.run P w.sys with
      | ok u t =>
        have hlive' := hlive.steps hK (View.Moves.steps (Act.ok_of_wp hcall hrun))
        exact ⟨hlive'.toStored, fun _ => hlive'⟩
      | err e t =>
        have hlive' := hlive.steps hK (Act.err_of_wp hcall hrun)
        exact ⟨hlive'.toStored, fun _ => hlive'⟩
      | crash t => exact ⟨hlive.cut hK (Act.crash_of_wp hcall hrun), nofun⟩
    · exact h
  | tamper fs => exact hi.keyed.elim

variable {inputs : List Input}

/-- A property of names that the changes in `A` keep holds over the runs that make only these. -/
theorem holds_along (hP : P.Correct) (hK : NamesInvariant A K) (hfresh : w₀.Fresh)
    (h : w₀.Along P (Admits P keys A) inputs) : (w₀.run P inputs).Holds P keys K :=
  along_induction (fun _ _ hi h => h.step hP hK hi) inputs h hfresh.holds

theorem admits_of_keyed {i : Input} (h : i.Keyed keys) : w.Admits P keys (fun _ _ => True) i where
  keyed := h
  within call _ _ := by
    cases call with
    | rename => exact ⟨fun _ _ => trivial, fun _ _ => trivial⟩
    | createOrOpen => exact ⟨fun _ _ => trivial, fun _ => trivial⟩
    | closeHandle => exact ⟨trivial, fun _ _ => trivial⟩
    | _ => simp [Call.Within]

/-- A property of names that all changes keep holds over whole runs. -/
theorem holds_run (hP : P.Correct) (hK : NamesInvariant (fun _ _ => True) K) (hfresh : w₀.Fresh)
    (hkeyed : ∀ i ∈ inputs, i.Keyed keys) : (w₀.run P inputs).Holds P keys K :=
  holds_along hP hK hfresh (along_of_forall (fun _ _ => admits_of_keyed) inputs hkeyed)

end World

end Wdlp
