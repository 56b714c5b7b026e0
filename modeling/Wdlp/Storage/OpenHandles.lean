import Wdlp.Storage.NamesRun

/-!
# Open handles

A handle refers to its file by a key, and the key changes when the file or a directory above it is
moved. From the moment it is opened until it is closed, a handle nevertheless stays with one file,
whatever else happens to the names, and a handle that does not allow it keeps its file from being
deleted.

## Main definitions

* `Names.Binds` — a handle is open on a file.
* `Names.Bound` — every handle is open on some file.

## Main results

* `Names.Binds.apply` — a change that does not close the handle leaves it with its file.
* `open_handle_bound` — the same for calls, over whole runs.
-/

namespace Wdlp

open CrashSafe Function

/-! ### Handles and their files -/

/-- The handle is open on the file, which is not about to be deleted unless the handle allows it. -/
def Names.Binds (n : Names) (number : ℕ) (allowDelete : Bool) (file : FileId) : Prop :=
  ∃ state f, n.handles number = some state ∧ state.allowDelete = allowDelete ∧
    n.files state.pathKey = some f ∧ f.fileId = file ∧ (allowDelete = false → f.deletePending = false)

/-- Every handle is open on some file. -/
def Names.Bound (n : Names) : Prop :=
  ∀ number state, n.handles number = some state → ∃ file, n.Binds number state.allowDelete file

namespace Names

variable {n n' : Names} {number : ℕ} {allowDelete : Bool} {file : FileId} {ch : Change}

section

variable (h : n.Binds number allowDelete file)

include h

/-- The handle stays, and at its key the files are what they were. -/
theorem Binds.of_same (hh : n'.handles number = n.handles number)
    (hf : ∀ state f, n.handles number = some state → n.files state.pathKey = some f →
      n'.files state.pathKey = some f) : n'.Binds number allowDelete file := by
  obtain ⟨state, f, hstate, hallow, hfile, hid, hpending⟩ := h
  exact ⟨state, f, hh.trans hstate, hallow, hf state f hstate hfile, hid, hpending⟩

variable {destination : ParsedPath}

theorem Binds.moveFile {source : Text} (he : (Change.moveFile source destination).Enabled n) :
    ((Change.moveFile source destination).apply n).Binds number allowDelete file := by
  obtain ⟨state, f, hstate, hallow, hfile, hid, hpending⟩ := h
  have hmoved : ((Change.moveFile source destination).apply n).handles number = some { state with
      pathKey := if state.pathKey = source then destination.1.lookupKey else state.pathKey } :=
    congrArg (Option.map _) hstate
  by_cases hsource : state.pathKey = source
  · rw [if_pos hsource] at hmoved
    refine ⟨_, { f with display := destination.1.displayName }, hmoved, hallow, ?_, hid, hpending⟩
    simp only [Change.apply, update_self, ← hsource, hfile, Option.map_some]
  · rw [if_neg hsource] at hmoved
    refine ⟨_, f, hmoved, hallow, ?_, hid, hpending⟩
    have hne : state.pathKey ≠ destination.1.lookupKey := by
      intro heq
      rw [heq, he.2.1] at hfile
      cases hfile
    simp only [Change.apply, update_of_ne hne, update_of_ne hsource, hfile]

theorem Binds.moveTree (hwf : n.WellFormed) {source : Text}
    (he : (Change.moveTree source destination).Enabled n) :
    ((Change.moveTree source destination).apply n).Binds number allowDelete file := by
  obtain ⟨state, f, hstate, hallow, hfile, hid, hpending⟩ := h
  have hmoved : ((Change.moveTree source destination).apply n).handles number = some { state with
      pathKey := if isInside source state.pathKey then
        movedKey source destination.1.lookupKey state.pathKey else state.pathKey } :=
    congrArg (Option.map _) hstate
  refine ⟨_, f, hmoved, hallow, ?_, hid, hpending⟩
  by_cases hin : isInside source state.pathKey = true
  · obtain ⟨rest, hrest⟩ := isInside_iff.mp hin
    simp only [hrest] at hfile
    simp only [hrest, Change.apply, isInside_childKey, if_true, movedKey_childKey, hfile]
  · have hout : ¬isInside destination.1.lookupKey state.pathKey = true := fun h =>
      hwf.empty_of_absent he.2.1 _ h (.inr (hfile ▸ Option.some_ne_none _))
    simp only [Change.apply, if_neg hin, if_neg hout, hfile]

/-- A change that does not close the handle leaves it with its file. -/
theorem Binds.apply (hwf : n.WellFormed) (he : ch.Enabled n)
    (hne : ch ≠ .closeHandle number) : (ch.apply n).Binds number allowDelete file := by
  cases ch with
  | stay | makeDirectory _ | dropDirectory _ => exact h.of_same rfl fun _ _ _ hf => hf
  | makeFile path number' file' =>
    refine h.of_same rfl fun state f _ hf => ?_
    have hkey : state.pathKey ≠ path.1.lookupKey := fun heq => by
      rw [heq, he.1] at hf
      cases hf
    exact (update_of_ne hkey _ _).trans hf
  | dropFile key =>
    refine h.of_same rfl fun state f hstate hf => ?_
    have hkey : state.pathKey ≠ key := fun heq => he.2 ⟨number, state, hstate, heq⟩
    exact (update_of_ne hkey _ _).trans hf
  | moveFile source destination => exact h.moveFile he
  | moveTree source destination => exact h.moveTree hwf he
  | markPending key =>
    obtain ⟨state, f, hstate, hallow, hfile, hid, hpending⟩ := h
    by_cases hkey : state.pathKey = key
    · subst hkey
      -- every handle on a file that is marked allows its deletion
      have hshared := he.2.2 number state hstate rfl
      refine ⟨state, { f with deletePending := true }, hstate, hallow, ?_, hid, fun hfalse => ?_⟩
      · simp only [Change.apply, update_self, hfile, Option.map_some]
      · rw [hallow, hfalse] at hshared
        cases hshared
    · exact ⟨state, f, hstate, hallow, (update_of_ne hkey _ _).trans hfile, hid, hpending⟩
  | openHandle key allowDelete' =>
    refine h.of_same (update_of_ne ?_ _ _) fun _ _ _ hf => hf
    obtain ⟨state, f, hstate, -⟩ := h
    exact (hwf.numbered number (hstate ▸ Option.some_ne_none _)).ne
  | closeHandle closed =>
    refine h.of_same (update_of_ne ?_ _ _) fun _ _ _ hf => hf
    rintro rfl
    exact hne rfl

end

/-- A handle that was just opened. -/
theorem binds_openHandle {key : Text} {f : FileName} (hf : n.files key = some f)
    (hpending : f.deletePending = false) :
    ((Change.openHandle key allowDelete).apply n).Binds n.nextHandle allowDelete f.fileId :=
  ⟨{ pathKey := key, allowDelete }, f, update_self .., rfl, hf, rfl, fun _ => hpending⟩

/-- A change opens no handle, or one on a file. -/
theorem handles_apply {state : HandleState} (h : (ch.apply n).handles number = some state) :
    (∃ old, n.handles number = some old ∧ old.allowDelete = state.allowDelete ∧
      ch ≠ .closeHandle number) ∨
    ∃ key, ch = .openHandle key state.allowDelete ∧ number = n.nextHandle := by
  cases ch with
  | stay | makeDirectory _ | makeFile _ _ _ | dropDirectory _ | dropFile _ | markPending _ =>
    exact .inl ⟨state, h, rfl, by simp⟩
  | moveFile source destination | moveTree source destination =>
    obtain ⟨old, hold, rfl⟩ := Option.map_eq_some_iff.mp h
    exact .inl ⟨old, hold, rfl, by simp⟩
  | openHandle key allowDelete =>
    by_cases hnumber : number = n.nextHandle
    · subst hnumber
      simp only [Change.apply, update_self, Option.some.injEq] at h
      subst h
      exact .inr ⟨key, rfl, rfl⟩
    · simp only [Change.apply, update_of_ne hnumber] at h
      exact .inl ⟨state, h, rfl, by simp⟩
  | closeHandle closed =>
    by_cases hnumber : number = closed
    · simp [Change.apply, hnumber] at h
    · simp only [Change.apply, update_of_ne hnumber] at h
      exact .inl ⟨state, h, rfl, fun heq => hnumber (Change.closeHandle.inj heq).symm⟩

theorem Bound.apply (hwf : n.WellFormed) (h : n.Bound) (he : ch.Enabled n) : (ch.apply n).Bound := by
  intro number state hstate
  rcases handles_apply hstate with ⟨old, hold, hallow, hne⟩ | ⟨key, rfl, rfl⟩
  · obtain ⟨file, hbinds⟩ := h number old hold
    exact ⟨file, hallow ▸ hbinds.apply hwf he hne⟩
  · obtain ⟨f, hf, hpending⟩ := he
    exact ⟨f.fileId, binds_openHandle hf hpending⟩

end Names

theorem bound_invariant : NamesInvariant (fun _ _ => True) fun _ _ n => n.WellFormed ∧ n.Bound where
  wellFormed h := h.1
  grows h _ := h
  changes h _ he := ⟨h.1.apply he, h.2.apply h.1 he⟩
  closes h := ⟨h.1.closed, nofun⟩
  reloads _ h := ⟨h.1.reloaded, nofun⟩
  blank _ _ := ⟨Names.blank_wellFormed, nofun⟩

/-! ### Runs -/

section Runs

variable {P : Primitives} {keys : StoreId → StoreKey} {v v' : View} {number : ℕ}
  {allowDelete : Bool} {file : FileId}

/-- The changes that do not close the handle. -/
def Spares (number : ℕ) (_ : Names) (ch : Change) : Prop := ch ≠ .closeHandle number

theorem View.Steps.binds (hs : View.Steps P (Spares number) v v') (hwf : v.names.WellFormed)
    (h : v.names.Binds number allowDelete file) : v'.names.Binds number allowDelete file := by
  induction hs with
  | refl => exact h
  | tail hs hstep ih =>
    have hwf' := View.Steps.wellFormed hs hwf
    cases hstep with
    | move hm =>
      obtain ⟨ch, hne, he, hnames⟩ := hm.names_eq
      exact hnames ▸ ih.apply hwf' he hne
    | fail hf => exact hf.names_eq ▸ ih

theorem Change.Removes.spares {key : Text} {ch : Change} {n : Names} (h : ch.Removes key) :
    Spares number n ch := by
  rcases h with rfl | rfl | rfl <;> exact nofun

variable {handle : FileHandle}

/-- Only the closing of a handle closes it. -/
theorem Call.within_spares {call : Call} (h : call ≠ .closeHandle handle) :
    call.Within P (Spares handle.number) v := by
  cases call with
  | closeHandle other =>
    obtain ⟨number⟩ := handle
    refine ⟨fun heq => h ?_, fun _ _ => nofun⟩
    exact congrArg (fun n => Call.closeHandle ⟨n⟩) (Change.closeHandle.inj heq)
  | createDirectory path => exact nofun
  | createOrOpen path create allowDelete => exact ⟨fun _ _ => nofun, fun _ => nofun⟩
  | rename source destination replace =>
    refine ⟨fun _ hch => hch.spares, fun _ _ => ?_⟩
    unfold Names.moving
    split <;> exact nofun
  | delete path => exact fun _ hch => hch.spares
  | flushHandle other => exact nofun
  | _ => exact trivial

/-- A call that does not close the handle leaves it with its file. -/
theorem World.step_binds (hP : P.Correct) {w : World} {call : Call}
    (hcall : call ≠ .closeHandle handle)
    (h : w.Holds P keys (fun _ _ n => n.WellFormed ∧ n.Bound) ∧ (w.phase = .opened →
      w.sys.view.names.Binds handle.number allowDelete file)) :
    (w.step P (.call call)).Holds P keys (fun _ _ n => n.WellFormed ∧ n.Bound) ∧
      ((w.step P (.call call)).phase = .opened →
        (w.step P (.call call)).sys.view.names.Binds handle.number allowDelete file) := by
  refine ⟨h.1.step hP bound_invariant (admits_of_keyed trivial), ?_⟩
  rw [World.step]
  split
  · next hphase =>
    have hwf := (h.1.live hphase).names.1
    have hbinds : ∀ {v'}, View.Steps P (Spares handle.number) w.sys.view v' →
        v'.names.Binds handle.number allowDelete file := fun hsteps =>
      View.Steps.binds hsteps hwf (h.2 hphase)
    have hsteps := call_wp hP hwf call (Call.within_spares hcall)
    cases hrun : call.run P w.sys with
    | ok u t => exact fun _ => hbinds (View.Moves.steps (Act.ok_of_wp hsteps hrun))
    | err e t => exact fun _ => hbinds (Act.err_of_wp hsteps hrun)
    | crash t => rintro ⟨⟩
  · exact h.2

/-- Calls that do not close the handle leave it with its file. -/
theorem World.run_binds (hP : P.Correct) {w : World} {calls : List Call}
    (hcalls : .closeHandle handle ∉ calls)
    (h : w.Holds P keys (fun _ _ n => n.WellFormed ∧ n.Bound) ∧ (w.phase = .opened →
      w.sys.view.names.Binds handle.number allowDelete file)) :
    (w.run P (calls.map .call)).phase = .opened →
      (w.run P (calls.map .call)).sys.view.names.Binds handle.number allowDelete file := by
  refine (World.run_induction (A := fun i => ∃ call, i = .call call ∧ call ≠ .closeHandle handle)
    (I := fun w => w.Holds P keys (fun _ _ n => n.WellFormed ∧ n.Bound) ∧ (w.phase = .opened →
      w.sys.view.names.Binds handle.number allowDelete file)) ?_ (calls.map .call) ?_ h).2
  · rintro w _ ⟨call, rfl, hcall⟩ h
    exact World.step_binds hP hcall h
  · rintro _ hi
    obtain ⟨call, hmem, rfl⟩ := List.mem_map.mp hi
    exact ⟨call, rfl, fun heq => hcalls (heq ▸ hmem)⟩

/-- What a bound handle is resolved to. -/
theorem Names.Binds.handleFile {store : Store} {nextHandle : ℕ}
    (h : (store.names nextHandle).Binds handle.number allowDelete file) :
    store.handleFile handle = .ok file ∧ (allowDelete = false →
      ∃ key entry, store.handlePathKey handle = .ok key ∧ store.files[key]? = some entry ∧
        entry.fileId = file ∧ entry.deletePending = false) := by
  obtain ⟨state, f, hstate, -, hfile, rfl, hpending⟩ := h
  have hget : store.handles[handle.number]? = some state := hstate
  obtain ⟨entry, hentry, rfl⟩ := Option.map_eq_some_iff.mp hfile
  have hkey : store.handlePathKey handle = .ok state.pathKey := by
    rw [Store.handlePathKey, hget]
    rfl
  refine ⟨?_, fun hallow => ⟨state.pathKey, entry, hkey, hentry, rfl, hpending hallow⟩⟩
  simp only [Store.handleFile, hget, hentry]
  rfl

theorem View.Opened.binds {path : ParsedPath} (h : View.Opened P v path allowDelete v') :
    ∃ f, v'.names.files path.1.lookupKey = some f ∧
      v'.names.Binds v.names.nextHandle allowDelete f.fileId := by
  obtain ⟨v₁, hfound, hmarked⟩ := h
  obtain ⟨f, hf, hpending⟩ := hfound.openable
  rw [hmarked.names_eq, ← hfound.nextHandle_eq]
  exact ⟨f, hf, Names.binds_openHandle hf hpending⟩

/-- From the moment it is opened until it is closed, a handle is resolved to one file, whatever other
calls are made and wherever they fail; and unless the handle allows it, this file stays in the
namespace and is not about to be deleted. -/
theorem open_handle_bound (hP : P.Correct) {w₀ : World} (hfresh : w₀.Fresh) {inputs : List Input}
    (hkeyed : ∀ i ∈ inputs, i.Keyed keys) (hopened : (w₀.run P inputs).phase = .opened)
    {path : ParsedPath} {create : Bool} {handle : FileHandle} {t : Sys}
    (hcreate : createOrOpen P path.1 create allowDelete (w₀.run P inputs).sys = .ok handle t)
    {calls : List Call} (hcalls : .closeHandle handle ∉ calls) {w : World}
    (hw : w = World.run P ⟨t, .opened⟩ (calls.map .call)) (hphase : w.phase = .opened) :
    ∃ file, t.store.files[path.1.lookupKey]?.map FileEntry.fileId = some file ∧
      t.store.handleFile handle = .ok file ∧ w.sys.store.handleFile handle = .ok file ∧
      (allowDelete = false → ∃ key entry, w.sys.store.handlePathKey handle = .ok key ∧
        w.sys.store.files[key]? = some entry ∧ entry.fileId = file ∧
        entry.deletePending = false) := by
  have hholds := World.holds_run hP bound_invariant hfresh hkeyed
  have hstep : (w₀.run P inputs).step P (.call (.createOrOpen path create allowDelete)) =
      ⟨t, .opened⟩ := by
    have hrun : (Call.createOrOpen path create allowDelete).run P (w₀.run P inputs).sys = .ok () t :=
      Act.bind_of_ok hcreate
    rw [World.step, if_pos hopened, hrun]
    rfl
  have hstart : World.Holds P keys (fun _ _ n => n.WellFormed ∧ n.Bound) ⟨t, .opened⟩ :=
    hstep ▸ hholds.step hP bound_invariant (World.admits_of_keyed trivial)
  obtain ⟨hnumber, hopens⟩ := Act.ok_of_wp
    (createOrOpen_wp (A := fun _ _ => True) hP fun _ _ => trivial) hcreate
  obtain ⟨f, hf, hbinds⟩ := hopens.binds
  rw [← hnumber] at hbinds
  obtain ⟨entry, hentry, rfl⟩ := Option.map_eq_some_iff.mp hf
  have hlater : w.sys.view.names.Binds handle.number allowDelete entry.fileId := by
    rw [hw] at hphase ⊢
    exact World.run_binds hP hcalls ⟨hstart, fun _ => hbinds⟩ hphase
  exact ⟨entry.fileId, congrArg (Option.map FileEntry.fileId) hentry, hbinds.handleFile.1,
    hlater.handleFile⟩

/-- A store with a directory, in which a file was created through a handle that does not allow its
deletion. -/
def heldOpen : Outcome Sys StorageError FileHandle :=
  createOrOpen .plain innerPath.1 true false
    ((World.empty []).run .plain (soleOpening ++ [.createDirectory solePath].map .call)).sys

/-- The directory is moved, and its old name given to a file. -/
def heldMoved : World :=
  World.run .plain ⟨heldOpen.state, .opened⟩ ([.rename solePath otherPath false,
    .createOrOpen solePath true true, .delete otherPath].map .call)

theorem open_handle_bound_heldMoved :
    ∃ file, heldOpen.state.store.files[innerPath.1.lookupKey]?.map FileEntry.fileId = some file ∧
      heldOpen.state.store.handleFile ⟨1⟩ = .ok file ∧ heldMoved.sys.store.handleFile ⟨1⟩ = .ok file ∧
      (false = false → ∃ key entry, heldMoved.sys.store.handlePathKey ⟨1⟩ = .ok key ∧
        heldMoved.sys.store.files[key]? = some entry ∧ entry.fileId = file ∧
        entry.deletePending = false) :=
  open_handle_bound Primitives.plain_correct World.empty_fresh soleOpening_keyed (by decide +kernel)
    (Outcome.eq_ok (by decide +kernel)) (by simp) rfl (by decide +kernel)

end Runs

end Wdlp
