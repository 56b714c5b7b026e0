import Wdlp.Storage.Agreement

/-!
# Two hosts on one store

A user with two sessions has two drive hosts, and both open the same store. Each host has the names
in its own memory and persists all of them, so that the record on the disk agrees with the host that
persisted last. What the other host has changed since it opened the store is not in it.

## Main definitions

* `TwoHosts`, `TwoHosts.run` — two processes that share a disk, and the interleavings of their calls
  in which each call returns.
* `HostCall.Persists` — the calls that may persist the names.

## Main results

* `TwoHosts.sound_run` — after every interleaving, the record agrees with one of the hosts.
* `sole_writer_reopened` — if only one host makes calls that persist names, nothing is lost.
-/

namespace Wdlp

open CrashSafe

/-! ### Hosts -/

inductive Side where
  | left
  | right
  deriving DecidableEq, Repr

/-- What a process has of its own: what it draws from, its counters, and the store in its memory once
it has opened it. -/
structure Host where
  nonces : Stream' Nonce
  clock : Stream' UInt64
  counters : Counters
  store : Store
  opened : Bool

/-- Two processes over one disk. -/
structure TwoHosts where
  disk : Disk
  history : List HistoryEntry
  host : Side → Host

/-- A process opens the store, or makes a call on it. -/
inductive HostCall where
  | openStore
  | call (call : Call)

/-- The call may persist the names. -/
def HostCall.Persists : HostCall → Prop
  | call (.createDirectory _) | call (.createOrOpen _ _ _) | call (.rename _ _ _)
  | call (.delete _) | call (.closeHandle _) | call (.flushHandle _) => True
  | _ => False

namespace TwoHosts

variable (P : Primitives) (identity : CapturedStoreIdentity) (key : StoreKey)

/-- The state that a process sees. -/
def sys (w : TwoHosts) (side : Side) : Sys where
  disk := w.disk
  nonces := (w.host side).nonces
  clock := (w.host side).clock
  counters := (w.host side).counters
  store := (w.host side).store
  history := w.history

/-- The state that a process has left. -/
def put (w : TwoHosts) (side : Side) (s : Sys) : TwoHosts where
  disk := s.disk
  history := s.history
  host := Function.update w.host side
    { nonces := s.nonces, clock := s.clock, counters := s.counters, store := s.store, opened := true }

/-- The state in which a process starts again. -/
def restarted (w : TwoHosts) (side : Side) : Sys := { w.sys side with counters := {} }

/-- The operation behind a call of a process. -/
def operation (w : TwoHosts) (side : Side) : HostCall → Option (Outcome Sys StorageError Unit)
  | .openStore => some (Wdlp.openStore P identity key (w.restarted side))
  | .call call => if (w.host side).opened then some (call.run P (w.sys side)) else none

/-- A call that returns. -/
def step (w : TwoHosts) (c : Side × HostCall) : Option TwoHosts :=
  match w.operation P identity key c.1 c.2 with
  | some (.ok _ s) => some (w.put c.1 s)
  | _ => none

/-- An interleaving of calls that return. -/
def run (w : TwoHosts) (calls : List (Side × HostCall)) : Option TwoHosts :=
  calls.foldlM (step P identity key) w

end TwoHosts

variable {P : Primitives} {keys : StoreId → StoreKey} {A : Names → Change → Prop} {v v' : View}
  {identity : CapturedStoreIdentity} {key : StoreKey}

/-! ### Views -/

namespace View

/-- A durable change stays in its session. -/
theorem Move.session_eq (h : Move P A v v') :
    v'.session.storeId = v.session.storeId ∧ v'.session.key = v.session.key := by
  cases h with
  | mark hA h =>
    cases h
    exact ⟨rfl, rfl⟩
  | commit hA h =>
    obtain ⟨hdurable, he, hsession, hlists, hnode⟩ := h
    exact ⟨(congrArg Session.storeId hsession).trans rfl, (congrArg Session.key hsession).trans rfl⟩

theorem Moves.session_eq (h : Moves P A v v') :
    v'.session.storeId = v.session.storeId ∧ v'.session.key = v.session.key := by
  induction h with
  | refl => exact ⟨rfl, rfl⟩
  | tail _ hmove ih => exact ⟨hmove.session_eq.1.trans ih.1, hmove.session_eq.2.trans ih.2⟩

/-- Changes leave the disk alone, or bring it in agreement with memory. -/
theorem Moves.cases (h : Moves P A v v') : SameDisk v v' ∨ InSync P v' := by
  induction h with
  | refl => exact Or.inl .refl
  | tail _ hmove ih =>
    rcases ih with ⟨hrecords, hcreated, hpersisted⟩ | hsync
    · cases hmove with
      | mark hA hm =>
        obtain ⟨hmemory, he⟩ := hm
        exact Or.inl ⟨hrecords, hcreated, hpersisted⟩
      | commit hA hc => exact Or.inr hc.inSync
    · exact Or.inr (hsync.move hmove)

end View

theorem HostCall.keepsView {call : Call} (h : ¬(HostCall.call call).Persists) :
    KeepsView (call.run P) := by
  cases call with
  | writeHandle handle offset bytes => exact keepsView_writeHandle
  | readHandle handle => exact keepsView_readHandle.ignore
  | truncateHandle handle length => exact keepsView_truncateHandle
  | readPath path => exact keepsView_readPath.ignore
  | entryMetadata path => exact keepsView_entryMetadata.ignore
  | write file bytes => exact keepsView_write
  | writeAt file offset bytes => exact keepsView_writeAt
  | flushFile file => exact keepsView_flushFile.ignore
  | read file => exact keepsView_readFile.ignore
  | recoverStore file => exact keepsView_recoverStore.ignore
  | _ => exact absurd trivial h

/-! ### Interleavings -/

namespace TwoHosts

variable {w w' : TwoHosts} {side other : Side} {s : Sys}

/-- A process that has opened the store has sound names, and works on that store. -/
structure Works (P : Primitives) (keys : StoreId → StoreKey) (identity : CapturedStoreIdentity)
    (w : TwoHosts) (side : Side) : Prop where
  live : Live P keys (fun _ _ n => n.WellFormed) (w.sys side).view
  storeId : (w.sys side).view.session.storeId = identity.storeId

/-- What is on the disk is sound, and so are the processes that have opened the store; the record on
the disk agrees with one of them. -/
structure Sound (P : Primitives) (keys : StoreId → StoreKey) (identity : CapturedStoreIdentity)
    (w : TwoHosts) : Prop where
  fits : w.disk.fs.Fits nodeKind
  stored : Stored P keys (fun _ _ n => n.WellFormed) (w.sys .left).view
  works : ∀ side, (w.host side).opened = true → w.Works P keys identity side
  inSync : ∀ side, (w.host side).opened = true →
    ∃ other, (w.host other).opened = true ∧ (w.sys other).view.InSync P

@[simp] theorem sys_put_self : (w.put side s).sys side = s := by
  simp [sys, put]

theorem host_put_of_ne (h : other ≠ side) : (w.put side s).host other = w.host other :=
  Function.update_of_ne h ..

@[simp] theorem opened_put_self : ((w.put side s).host side).opened = true := by
  simp [put]

/-- The other process sees the same disk, and has its own memory. -/
theorem view_sys_put (h : other ≠ side) : ((w.put side s).sys other).view =
    s.view.now (w.sys other).view.names (w.sys other).view.session := by
  simp only [sys, host_put_of_ne h]
  rfl

/-- The record still agrees with a process when the other one has left the disk alone. -/
theorem inSync_put_of_ne (h : other ≠ side) (hsame : View.SameDisk (w.sys side).view s.view)
    (hsync : (w.sys other).view.InSync P) : ((w.put side s).sys other).view.InSync P := by
  refine hsync.sameRecord ?_
  rw [view_sys_put h]
  exact ⟨rfl, rfl, hsame.records, fun _ hn => hsame.persisted.symm ▸ hn⟩

/-- What is known when a process in the state `u` has made a call that returned and left `s`. -/
structure Returned (P : Primitives) (keys : StoreId → StoreKey) (identity : CapturedStoreIdentity)
    (u s : Sys) : Prop where
  fits : s.disk.fs.Fits nodeKind
  live : Live P keys (fun _ _ n => n.WellFormed) s.view
  storeId : s.view.session.storeId = identity.storeId
  disk : View.SameDisk u.view s.view ∨ s.view.InSync P

theorem Sound.put (h : w.Sound P keys identity) (hs : Returned P keys identity (w.sys side) s)
    (hself : (w.host side).opened = true → (w.sys side).view.InSync P → s.view.InSync P)
    (hnew : (w.host side).opened = false → s.view.InSync P) : (w.put side s).Sound P keys identity where
  fits := hs.fits
  stored := hs.live.toStored.sameDisk ⟨rfl, rfl, rfl⟩
  works other hopened := by
    by_cases hne : other = side
    · subst hne
      refine ⟨?_, ?_⟩ <;> rw [sys_put_self]
      · exact hs.live
      · exact hs.storeId
    · rw [host_put_of_ne hne] at hopened
      obtain ⟨hlive, hid⟩ := h.works other hopened
      have hview := view_sys_put (w := w) (s := s) hne
      refine ⟨?_, ?_⟩ <;> rw [hview]
      · exact ⟨hs.live.toStored.sameDisk ⟨rfl, rfl, rfl⟩, hlive.key, hlive.names⟩
      · exact hid
  inSync _ _ := by
    by_cases hsync : s.view.InSync P
    · exact ⟨side, opened_put_self, by rwa [sys_put_self]⟩
    · have hopened : (w.host side).opened = true := by
        by_contra hclosed
        exact hsync (hnew (Bool.eq_false_iff.mpr hclosed))
      obtain ⟨other, hother, hagrees⟩ := h.inSync side hopened
      have hne : other ≠ side := by
        rintro rfl
        exact hsync (hself hopened hagrees)
      refine ⟨other, ?_, inSync_put_of_ne hne (hs.disk.resolve_right hsync) hagrees⟩
      rw [host_put_of_ne hne]
      exact hother

theorem Sound.opens (h : w.Sound P keys identity) (hkey : key = keys identity.storeId)
    (hopen : openStore P identity key (w.restarted side) = .ok () s) : Returned
    P keys identity (w.sys side) s ∧ View.SameDisk (w.sys side).view s.view ∧ s.view.InSync P := by
  have hstored : Stored P keys (fun _ _ n => n.WellFormed) (w.restarted side).view :=
    h.stored.sameDisk ⟨rfl, rfl, rfl⟩
  have hsame : View.SameDisk (w.sys side).view
      (openStore P identity key (w.restarted side)).state.view :=
    openStore_sameDisk.state ⟨rfl, rfl, rfl⟩
  have hinvariant : DiskInvariant keys fun fs _ _ => fs.Fits nodeKind := fits_invariant
  have hfits : (openStore P identity key (w.restarted side)).state.disk.fs.Fits nodeKind :=
    hinvariant.keeps_openStore.state h.fits
  rw [hopen] at hsame hfits
  have hid : s.view.session.storeId = identity.storeId := by
    obtain ⟨loaded, hloads, -⟩ := hstored.loads wellFormed_invariant hkey
    exact (congrArg (fun c : Core => c.store.storeId) (openStore_eq_ok hopen hloads)).trans
      hloads.storeId_eq
  exact ⟨⟨hfits, hstored.opened wellFormed_invariant hkey hopen, hid, Or.inl hsame⟩, hsame,
    hstored.opened_inSync wellFormed_invariant hkey hopen⟩

theorem Sound.calls (hP : P.Correct) (h : w.Sound P keys identity) (hopened : (w.host side).opened = true)
    {call : Call} (hcall : call.run P (w.sys side) = .ok () s) :
    Returned P keys identity (w.sys side) s ∧
      View.Moves P (fun _ _ => True) (w.sys side).view s.view := by
  obtain ⟨hlive, hid⟩ := h.works side hopened
  have hadmits : World.Admits P keys (fun _ _ => True) ⟨w.sys side, .opened⟩ (.call call) :=
    World.admits_of_keyed trivial
  have hmoves := Act.ok_of_wp (call_wp hP hlive.names call (hadmits.within call rfl rfl)) hcall
  have hholding : Holding (fun fs _ _ => fs.Fits nodeKind) (w.sys side).store.storeId
      (keys (w.sys side).store.storeId) (w.sys side).core := ⟨h.fits, rfl, hlive.key⟩
  have hfits : (call.run P (w.sys side)).state.disk.fs.Fits nodeKind :=
    ((fits_invariant.callKeeps.keeps_call call).state hholding).holds
  rw [hcall] at hfits
  refine ⟨⟨hfits, hlive.steps wellFormed_invariant hmoves.steps, ?_, hmoves.cases⟩, hmoves⟩
  exact hmoves.session_eq.1.trans hid

variable {c : Side × HostCall}

theorem step_eq_some (h : w.step P identity key c = some w') :
    ∃ s, w.operation P identity key c.1 c.2 = some (.ok () s) ∧ w' = w.put c.1 s := by
  unfold step at h
  split at h
  · next s hoperation => exact ⟨s, hoperation, (Option.some.inj h).symm⟩
  · cases h

/-- A call that returns keeps the processes sound. -/
theorem Sound.step (hP : P.Correct) (h : w.Sound P keys identity) (hkey : key = keys identity.storeId)
    (hstep : w.step P identity key c = some w') : w'.Sound P keys identity := by
  obtain ⟨side, c⟩ := c
  obtain ⟨s, hoperation, rfl⟩ := step_eq_some hstep
  cases c with
  | openStore =>
    obtain ⟨hs, -, hsync⟩ := h.opens hkey (Option.some.inj hoperation)
    exact h.put hs (fun _ _ => hsync) fun _ => hsync
  | call call =>
    simp only [operation] at hoperation
    split at hoperation
    · next hopened =>
      obtain ⟨hs, hmoves⟩ := h.calls hP hopened (Option.some.inj hoperation)
      refine h.put hs (fun _ hsync => hsync.moves hmoves) fun hclosed => ?_
      rw [hopened] at hclosed
      cases hclosed
    · cases hoperation

/-- If the process that made the call is another one, or the record agreed with it before, then the
record agrees with the process afterwards. -/
theorem Sound.step_inSync (hP : P.Correct) (h : w.Sound P keys identity)
    (hkey : key = keys identity.storeId) (hc : c.2.Persists → c.1 = side)
    (hstep : w.step P identity key c = some w')
    (hsync : (w.host side).opened = true → (w.sys side).view.InSync P) :
    (w'.host side).opened = true → (w'.sys side).view.InSync P := by
  obtain ⟨actor, c⟩ := c
  obtain ⟨s, hoperation, rfl⟩ := step_eq_some hstep
  intro hopened
  by_cases hne : side = actor
  · subst hne
    rw [sys_put_self]
    cases c with
    | openStore => exact (h.opens hkey (Option.some.inj hoperation)).2.2
    | call call =>
      simp only [operation] at hoperation
      split at hoperation
      · next hbefore =>
        exact (hsync hbefore).moves (h.calls hP hbefore (Option.some.inj hoperation)).2
      · cases hoperation
  · rw [host_put_of_ne hne] at hopened
    refine inSync_put_of_ne hne ?_ (hsync hopened)
    cases c with
    | openStore => exact (h.opens hkey (Option.some.inj hoperation)).2.1
    | call call =>
      simp only [operation] at hoperation
      split at hoperation
      · have hkeeps : (call.run P (w.sys actor)).state.view = (w.sys actor).view :=
          (HostCall.keepsView (fun hp => hne (hc hp).symm) _).state rfl
        rw [Option.some.inj hoperation] at hkeeps
        exact ⟨congrArg View.records hkeeps, congrArg View.created hkeeps,
          congrArg View.persisted hkeeps⟩
      · cases hoperation

theorem run_cons {calls : List (Side × HostCall)} : w.run P identity key (c :: calls) =
      (w.step P identity key c).bind fun u => u.run P identity key calls := rfl

/-- After every interleaving of calls that return, the record on the disk agrees with one of the
processes. -/
theorem sound_run (hP : P.Correct) (hkey : key = keys identity.storeId) :
    (calls : List (Side × HostCall)) → {w : TwoHosts} → w.Sound P keys identity →
    w.run P identity key calls = some w' → w'.Sound P keys identity
  | [], _, h, hrun => Option.some.inj hrun ▸ h
  | c :: calls, _, h, hrun => by
    rw [run_cons] at hrun
    obtain ⟨u, hstep, hrest⟩ := Option.bind_eq_some_iff.mp hrun
    exact sound_run hP hkey calls (h.step hP hkey hstep) hrest

theorem inSync_run (hP : P.Correct) (hkey : key = keys identity.storeId) :
    (calls : List (Side × HostCall)) → {w : TwoHosts} → w.Sound P keys identity →
    (∀ c ∈ calls, c.2.Persists → c.1 = side) → w.run P identity key calls = some w' →
    ((w.host side).opened = true → (w.sys side).view.InSync P) →
    (w'.host side).opened = true → (w'.sys side).view.InSync P
  | [], _, _, _, hrun, hsync => Option.some.inj hrun ▸ hsync
  | c :: calls, _, h, hsole, hrun, hsync => by
    rw [run_cons] at hrun
    obtain ⟨u, hstep, hrest⟩ := Option.bind_eq_some_iff.mp hrun
    exact inSync_run hP hkey calls (h.step hP hkey hstep)
      (fun d hd => hsole d (List.mem_cons_of_mem _ hd)) hrest
      (h.step_inSync hP hkey (hsole c List.mem_cons_self) hstep hsync)

end TwoHosts

/-! ### Results -/

/-- The store has all the directories of the other one, and its files that are not about to be
deleted. -/
structure Store.Contains (a b : Store) : Prop where
  directories : ∀ key : Text, a.directories[key]?.map DirectoryEntry.display =
    b.directories[key]?.map DirectoryEntry.display
  files : ∀ (key : Text) (entry : FileEntry), b.files[key]? = some entry →
    entry.deletePending = false → a.files[key]?.map FileEntry.name = some entry.name

section Results

variable {w₀ : World} {hosts w : TwoHosts}

/-- Two processes open a store and make calls that return, in any interleaving, over a disk as a run
leaves it. If only one of them makes calls that persist names, then the store that is opened
afterwards has all the names of that process. -/
theorem sole_writer_reopened (hP : P.Correct) (hfresh : w₀.Fresh) {inputs : List Input}
    (hkeyed : ∀ i ∈ inputs, i.Keyed keys) (hkey : key = keys identity.storeId)
    (hdisk : hosts.disk = (w₀.run P inputs).sys.disk)
    (hhistory : hosts.history = (w₀.run P inputs).sys.history)
    (hclosed : ∀ side, (hosts.host side).opened = false) {calls : List (Side × HostCall)}
    (hrun : hosts.run P identity key calls = some w) {side : Side}
    (hopened : (w.host side).opened = true) (hsole : ∀ c ∈ calls, c.2.Persists → c.1 = side)
    {s : Sys} (hfs : s.disk.fs = w.disk.fs) (hquiet : s.disk.fates = []) :
    ∃ t, openStore P identity key s = .ok () t ∧ t.store.Contains (w.host side).store := by
  have hopen : ∀ side, (hosts.host side).opened ≠ true := fun side => by simp [hclosed side]
  have hsound : hosts.Sound P keys identity := by
    refine ⟨?_, ?_, fun side h => absurd h (hopen side), fun side h => absurd h (hopen side)⟩
    · rw [hdisk]
      exact World.fits_run hP hfresh hkeyed
    · refine (World.holds_run hP wellFormed_invariant hfresh hkeyed).stored.sameDisk ⟨?_, ?_, ?_⟩
      · exact congrArg (fun d : Disk => fun store => d.fs[namespacePath store]?) hdisk
      · exact congrArg (List.filterMap HistoryEntry.creation?) hhistory
      · exact congrArg (List.filterMap HistoryEntry.snapshot?) hhistory
  have hafter := TwoHosts.sound_run hP hkey calls hsound hrun
  have hsync := TwoHosts.inSync_run hP hkey calls hsound hsole hrun
    (fun h => absurd h (hopen side)) hopened
  obtain ⟨hlive, hid⟩ := hafter.works side hopened
  have hkey' : (w.sys side).view.session.key = key := by
    rw [hlive.key, hid, hkey]
  have hrecords : s.view.records = (w.sys side).view.records :=
    congrArg (fun fs : Fs => fun store => fs[namespacePath store]?) hfs
  obtain ⟨t, m, ht, hagree, hnames⟩ := hsync.reopens wellFormed_invariant hlive hid hkey' hrecords
    (hfs ▸ hafter.fits) hquiet
  refine ⟨t, ht, fun name => ?_, fun name entry hentry hvisible => ?_⟩
  · exact congrFun ((congrArg Names.directories (hnames 0)).trans hagree.directories) name
  · have hfile := (hagree.reloaded 0).visible name entry.name
      (congrArg (Option.map FileEntry.name) hentry) hvisible
    rw [← hnames 0] at hfile
    exact hfile

/-- Two processes that have not opened the store yet, on an empty disk. -/
def twoSessions : TwoHosts where
  disk := { fs := ∅, fates := [] }
  history := []
  host side :=
    { nonces := if side = .left then countingNonces else fun n => countingNonces (n + 1000)
      clock := fun _ => 0
      counters := {}
      store := { identity := soleIdentity, key := zeroKey }
      opened := false }

/-- Both open the store; one makes a directory and a file in it, the other one writes to a file. -/
def oneWriter : TwoHosts :=
  (twoSessions.run .plain soleIdentity zeroKey [(.left, .openStore), (.right, .openStore),
    (.left, .call (.createDirectory solePath)), (.right, .call (.write soleFile [1])),
    (.left, .call (.createOrOpen innerPath true true))]).get (by decide +kernel)

theorem sole_writer_reopened_oneWriter :
    ∃ t, openStore .plain soleIdentity zeroKey (oneWriter.sys .right) = .ok () t ∧
      t.store.Contains (oneWriter.host .left).store := by
  have hfresh : (World.empty []).Fresh := World.empty_fresh
  have hkeyed : ∀ i ∈ ([] : List Input), i.Keyed soleKeys := nofun
  exact sole_writer_reopened Primitives.plain_correct hfresh hkeyed rfl rfl rfl
    (fun side => by cases side <;> rfl) (Option.some_get _).symm (by decide +kernel)
    (by simp [HostCall.Persists]) rfl (by decide +kernel)

/-- Both open the store, and then each makes a directory. -/
def twoWriters : TwoHosts :=
  (twoSessions.run .plain soleIdentity zeroKey [(.left, .openStore), (.right, .openStore),
    (.left, .call (.createDirectory solePath)),
    (.right, .call (.createDirectory otherPath))]).get (by decide +kernel)

theorem two_writers_lose_directory :
    (twoWriters.host .left).store.directories[solePath.1.lookupKey]?.isSome = true ∧
      (openStore .plain soleIdentity zeroKey (twoWriters.sys .left)).result? = some (.ok ()) ∧
      (openStore .plain soleIdentity zeroKey
        (twoWriters.sys .left)).state.store.directories[solePath.1.lookupKey]?.isNone = true := by
  decide +kernel

end Results

end Wdlp
