import Wdlp.Storage.NamesRun

/-!
# Files and directories under one name

A key should name a file or a directory. Creating a directory checks both maps, but creating a file
and moving one look for a file only, and a directory that is moved over an open file takes the key of
a file that stays until it is closed. As long as no call does one of these (`Call.Clashes`), no key
is in both maps; the first call that does it, and returns, puts a key in both.

## Main definitions

* `Names.Disjoint` — no key is in both maps.
* `Change.Clean` — the changes that keep it so.
* `Call.Clashes` — the calls that do not.

## Main results

* `Names.Disjoint.apply` — clean changes keep the maps apart.
* `keys_disjoint_of_no_clash` — the maps over whole runs.
-/

namespace Wdlp

open CrashSafe Function

/-! ### Changes -/

/-- No key is both a directory and a file. -/
def Names.Disjoint (n : Names) : Prop := ∀ key, n.directories key = none ∨ n.files key = none

/-- The change gives no key a second meaning. -/
def Change.Clean (n : Names) : Change → Prop
  | makeFile path _ _ => n.directories path.1.lookupKey = none
  | moveFile _ destination => n.directories destination.1.lookupKey = none
  | moveTree _ destination => n.files destination.1.lookupKey = none
  | stay | makeDirectory _ | dropDirectory _ | dropFile _ | markPending _ | openHandle _ _
  | closeHandle _ => True

namespace Names

variable {n : Names} {ch : Change}

theorem Disjoint.moveTree (h : n.Disjoint) {source : Text} {destination : ParsedPath}
    (he : (Change.moveTree source destination).Enabled n)
    (hclean : n.files destination.1.lookupKey = none) :
    ((Change.moveTree source destination).apply n).Disjoint := by
  intro key
  by_cases hkey : key = destination.1.lookupKey
  · right
    simp only [hkey, Change.apply, isInside_self, he.1, hclean, Bool.false_eq_true, if_false]
  · by_cases hin : isInside destination.1.lookupKey key = true
    · simp only [Change.apply, if_neg hkey, if_pos hin]
      exact h _
    · simp only [Change.apply, if_neg hkey, if_neg hin]
      by_cases hsource : isInside source key = true
      · exact .inl (if_pos (.inr hsource))
      · rw [if_neg hsource]
        refine (h key).imp_left fun hnone => ?_
        rw [hnone, ite_self]

/-- Clean changes keep the maps apart. -/
theorem Disjoint.apply (h : n.Disjoint) (hclean : ch.Clean n) (he : ch.Enabled n) :
    (ch.apply n).Disjoint := by
  cases ch with
  | stay | openHandle _ _ | closeHandle _ => exact h
  | makeDirectory path =>
    intro key
    by_cases hkey : key = path.1.lookupKey
    · exact .inr (hkey ▸ he.2.1)
    · exact (h key).imp_left fun hnone => (update_of_ne hkey _ _).trans hnone
  | makeFile path number file =>
    intro key
    by_cases hkey : key = path.1.lookupKey
    · exact .inl (hkey ▸ hclean)
    · exact (h key).imp_right fun hnone => (update_of_ne hkey _ _).trans hnone
  | dropDirectory directory =>
    intro key
    by_cases hkey : key = directory
    · exact .inl (hkey ▸ update_self ..)
    · exact (h key).imp_left fun hnone => (update_of_ne hkey _ _).trans hnone
  | dropFile file =>
    intro key
    by_cases hkey : key = file
    · exact .inr (hkey ▸ update_self ..)
    · exact (h key).imp_right fun hnone => (update_of_ne hkey _ _).trans hnone
  | moveFile source destination =>
    intro key
    by_cases hkey : key = destination.1.lookupKey
    · exact .inl (hkey ▸ hclean)
    · refine (h key).imp_right fun hnone => (update_of_ne hkey _ _).trans ?_
      by_cases hsource : key = source
      · exact hsource ▸ update_self ..
      · exact (update_of_ne hsource _ _).trans hnone
  | moveTree source destination => exact h.moveTree he hclean
  | markPending file =>
    intro key
    by_cases hkey : key = file
    · subst hkey
      refine (h key).imp_right fun hnone => (update_self ..).trans ?_
      rw [hnone, Option.map_none]
    · exact (h key).imp_right fun hnone => (update_of_ne hkey _ _).trans hnone

end Names

theorem disjoint_invariant :
    NamesInvariant (fun n ch => ch.Clean n) fun _ _ n => n.WellFormed ∧ n.Disjoint where
  wellFormed h := h.1
  grows h _ := h
  changes h hA he := ⟨h.1.apply he, h.2.apply hA he⟩
  closes h := ⟨h.1.closed, h.2⟩
  reloads _ h := by
    refine ⟨h.1.reloaded, fun key => (h.2 key).imp_right fun hnone => ?_⟩
    exact congrArg (Option.filter _) hnone
  blank _ _ := ⟨Names.blank_wellFormed, fun _ => .inl rfl⟩

/-! ### Calls -/

/-- The call gives a directory's key to a file: a file is created or moved there. Or it gives the key
of an open file to a directory: the file is marked, and stays. -/
def Call.Clashes (n : Names) : Call → Prop
  | createOrOpen path _ _ => n.directories path.1.lookupKey ≠ none
  | rename source destination _ =>
    if n.directories source.1.lookupKey = none then n.directories destination.1.lookupKey ≠ none
    else n.files destination.1.lookupKey ≠ none ∧ n.Open destination.1.lookupKey
  | _ => False

section Calls

variable {P : Primitives} {s t : Sys} {v v' : View} {source destination : ParsedPath}
  {replace : Bool}

theorem Change.Removes.clean {key : Text} {ch : Change} {n : Names} (h : ch.Removes key) :
    ch.Clean n := by
  rcases h with rfl | rfl | rfl <;> exact trivial

/-- A rename that does not clash. -/
theorem mayRename_clean (h : v.names.Disjoint)
    (hc : ¬(Call.rename source destination replace).Clashes v.names) :
    View.MayRename P (fun n ch => ch.Clean n) v source.1.lookupKey destination := by
  refine ⟨fun _ hch => hch.clean, fun v' hreplaced => ?_⟩
  unfold Names.moving
  split
  · next hfile =>
    rw [Call.Clashes, if_pos hfile, not_not] at hc
    cases hreplaced with
    | absent habsent => exact hc
    | deleted hreplaces hdeleted =>
      change v'.names.directories _ = none
      rw [hdeleted.directories_eq, update_self]
  · next display hdir =>
    rw [Call.Clashes, if_neg (hdir ▸ Option.some_ne_none _)] at hc
    cases hreplaced with
    | absent habsent => exact not_not.mp fun hne => habsent (.inl hne)
    | deleted hreplaces hdeleted =>
      cases hdeleted with
      | directory hd =>
        change v'.names.files _ = none
        rw [hd.names_eq]
        exact (h _).resolve_left hd.enabled.1
      | file hnone hd =>
        change v'.names.files _ = none
        rw [hd.names_eq]
        exact update_self ..
      | pending hnone hd => exact absurd ⟨hd.enabled.1, hd.enabled.2.1⟩ hc

/-- A call that does not clash makes clean changes only. -/
theorem Call.within_clean {call : Call} (h : v.names.Disjoint) (hc : ¬call.Clashes v.names) :
    call.Within P (fun n ch => ch.Clean n) v := by
  cases call with
  | createDirectory path => exact trivial
  | createOrOpen path create allowDelete => exact ⟨fun _ _ => not_not.mp hc, fun _ => trivial⟩
  | rename source destination replace => exact mayRename_clean h hc
  | delete path => exact fun _ hch => hch.clean
  | flushHandle handle => exact trivial
  | closeHandle handle => exact ⟨trivial, fun _ _ => trivial⟩
  | _ => exact trivial

/-- A file that is created at the key of a directory. -/
theorem View.Opened.not_disjoint {path : ParsedPath} {allowDelete : Bool}
    (h : View.Opened P v path allowDelete v') (hd : v.names.Disjoint)
    (hclash : v.names.directories path.1.lookupKey ≠ none) : ¬v'.names.Disjoint := by
  obtain ⟨v₁, hfound, hmarked⟩ := h
  rw [hmarked.names_eq]
  intro hdisjoint
  cases hfound with
  | found hf =>
    obtain ⟨f, hf, -⟩ := hf
    cases hf.symm.trans ((hd _).resolve_left hclash)
  | made hmade =>
    have hnames := hmade.names_eq
    rcases hdisjoint path.1.lookupKey with hnone | hnone
    · change v₁.names.directories _ = none at hnone
      rw [hnames] at hnone
      exact hclash hnone
    · change v₁.names.files _ = none at hnone
      rw [hnames] at hnone
      cases (update_self ..).symm.trans hnone

/-- A file that is moved to the key of a directory, or a directory to that of an open file. -/
theorem Renamed.not_disjoint (h : Renamed P s source destination replace v')
    (hd : s.view.names.Disjoint)
    (hclash : (Call.rename source destination replace).Clashes s.view.names) :
    ¬v'.names.Disjoint := by
  obtain ⟨u, hvacated, hmoved⟩ := h
  have hnames := hmoved.names_eq
  have he := hmoved.enabled
  intro hdisjoint
  rw [hnames] at hdisjoint
  have hkey := hdisjoint destination.1.lookupKey
  rw [Call.Clashes] at hclash
  cases hsource : s.view.names.directories source.1.lookupKey with
  | none =>
    rw [if_pos hsource] at hclash
    simp only [Names.moving, hsource] at he hkey
    have hnofile := (hd destination.1.lookupKey).resolve_left hclash
    cases hvacated with
    | absent habsent =>
      rcases hkey with hnone | hnone
      · exact hclash hnone
      · obtain ⟨f, hf⟩ := Option.ne_none_iff_exists'.mp he.1
        simp only [Change.apply, update_self, hf, Option.map_some, reduceCtorEq] at hnone
    | deleted hreplace hreplaces hrun hdeleted =>
      rcases hreplaces.2.1 with hfile | ⟨hdir, -⟩
      · exact hfile hnofile
      · exact hdir hsource
  | some display =>
    rw [if_neg (hsource ▸ Option.some_ne_none _)] at hclash
    simp only [Names.moving, hsource] at he hkey
    have hnodir := (hd destination.1.lookupKey).resolve_right hclash.1
    cases hvacated with
    | absent habsent => exact habsent (.inl hclash.1)
    | deleted hreplace hreplaces hrun hdeleted =>
      have hne : source.1.lookupKey ≠ destination.1.lookupKey := fun heq => by
        rw [heq, hnodir] at hsource
        cases hsource
      have hsame : u.view.names.directories source.1.lookupKey = some display := by
        rw [hdeleted.directories_eq, update_of_ne hne, hsource]
      have hfile : u.view.names.files destination.1.lookupKey ≠ none := by
        cases hdeleted with
        | directory hdrop => exact absurd hnodir hdrop.enabled.1
        | file hnone hdrop => exact absurd hclash.2 hdrop.enabled.2
        | pending hnone hmark =>
          obtain ⟨f, hf⟩ := Option.ne_none_iff_exists'.mp hclash.1
          rw [hmark.names_eq]
          simp [Change.apply, hf]
      rcases hkey with hnone | hnone
      · simp [Change.apply, hsame] at hnone
      · simp only [Change.apply, isInside_self, he.1, Bool.false_eq_true, if_false] at hnone
        exact hfile hnone

/-- A call that clashes, and returns, puts a key in both maps. -/
theorem Call.not_disjoint_of_clashes (hP : P.Correct) {call : Call} (hwf : s.view.names.WellFormed)
    (hd : s.view.names.Disjoint) (hclash : call.Clashes s.view.names)
    (hrun : call.run P s = .ok () t) : ¬t.view.names.Disjoint := by
  cases call with
  | createOrOpen path create allowDelete =>
    obtain ⟨handle, t', hopen, hpure⟩ := Act.bind_eq_ok.mp hrun
    obtain ⟨-, rfl⟩ := Act.pure_eq_ok.mp hpure
    have hopened := Act.ok_of_wp (createOrOpen_wp (A := fun _ _ => True) hP fun _ _ => trivial) hopen
    exact hopened.2.not_disjoint hd hclash
  | rename source destination replace =>
    have hrenamed := Act.ok_of_wp (rename_wp (A := fun _ _ => True) hP
      ⟨fun _ _ => trivial, fun _ _ => trivial⟩ hwf) hrun
    exact hrenamed.not_disjoint hd hclash
  | _ => exact hclash.elim

end Calls

/-! ### Runs -/

section Runs

variable {P : Primitives} {keys : StoreId → StoreKey} {w w₀ : World}

theorem disjoint_iff {store : Store} {next : ℕ} : (store.names next).Disjoint ↔
    ∀ key, ¬(key ∈ store.directories ∧ key ∈ store.files) := by
  unfold Names.Disjoint
  refine forall_congr' fun key => ?_
  rw [← not_mem_directories, ← not_mem_files, not_and_or]

/-- The input is a call that does not clash, or no call at all. -/
def World.Apart (keys : StoreId → StoreKey) (w : World) (i : Input) : Prop :=
  i.Keyed keys ∧ (w.phase = .opened → ∀ call, i = .call call → ¬call.Clashes w.sys.view.names)

/-- As long as no call clashes, no key is both a directory and a file; and a call that returns keeps
it so exactly if it does not clash. -/
theorem keys_disjoint_of_no_clash (hP : P.Correct) (hfresh : w₀.Fresh) {inputs : List Input}
    (hapart : w₀.Along P (World.Apart keys) inputs) (hw : w = w₀.run P inputs)
    (hopened : w.phase = .opened) :
    (∀ key, ¬(key ∈ w.sys.store.directories ∧ key ∈ w.sys.store.files)) ∧
    ∀ (call : Call) (t : Sys), call.run P w.sys = .ok () t →
      ((∀ key, ¬(key ∈ t.store.directories ∧ key ∈ t.store.files)) ↔
        ¬call.Clashes w.sys.view.names) := by
  have hholds : w.Holds P keys fun _ _ n => n.WellFormed ∧ n.Disjoint := by
    rw [hw]
    refine World.along_induction (fun w i hi h => h.step hP disjoint_invariant ⟨hi.1, ?_⟩) inputs
      hapart hfresh.holds
    exact fun call hcall hphase => Call.within_clean (h.live hphase).names.2 (hi.2 hphase call hcall)
  obtain ⟨hwf, hd⟩ := (hholds.live hopened).names
  refine ⟨disjoint_iff.mp hd, fun call t hrun => ?_⟩
  rw [← disjoint_iff]
  refine ⟨fun h hclash => Call.not_disjoint_of_clashes hP hwf hd hclash hrun h, fun hc => ?_⟩
  have hmoves := Act.ok_of_wp (call_wp hP hwf call (Call.within_clean hd hc)) hrun
  exact (Live.steps disjoint_invariant (hholds.live hopened) (View.Moves.steps hmoves)).names.2

/-- A directory, a file beside it, and the file moved into the directory. -/
def apartWorld : World :=
  (World.empty []).run .plain (soleOpening ++ [.createDirectory solePath,
    .createOrOpen otherPath true true, .rename otherPath innerPath false].map .call)

theorem keys_disjoint_of_no_clash_apartWorld :
    (∀ key, ¬(key ∈ apartWorld.sys.store.directories ∧ key ∈ apartWorld.sys.store.files)) ∧
    ∀ (call : Call) (t : Sys), call.run .plain apartWorld.sys = .ok () t →
      ((∀ key, ¬(key ∈ t.store.directories ∧ key ∈ t.store.files)) ↔
        ¬call.Clashes apartWorld.sys.view.names) := by
  have hapart : (World.empty []).Along .plain (World.Apart soleKeys) (soleOpening ++
      [.createDirectory solePath, .createOrOpen otherPath true true,
        .rename otherPath innerPath false].map .call) := by
    refine ⟨⟨trivial, nofun⟩, ⟨rfl, fun _ _ => nofun⟩, ⟨trivial, ?_⟩, ⟨trivial, ?_⟩, ⟨trivial, ?_⟩,
      trivial⟩
    · rintro - _ ⟨⟩
      exact id
    · rintro - _ ⟨⟩
      unfold Call.Clashes
      decide +kernel
    · rintro - _ ⟨⟩
      rw [Call.Clashes, if_pos (by decide +kernel)]
      decide +kernel
  exact keys_disjoint_of_no_clash Primitives.plain_correct World.empty_fresh hapart rfl
    (by decide +kernel)

/-- A file is created at the key of a directory. -/
theorem file_created_over_directory :
    let store := ((World.empty []).run .plain (soleOpening ++ [.createDirectory solePath,
      .createOrOpen solePath true true].map .call)).sys.store
    solePath.1.lookupKey ∈ store.directories ∧ solePath.1.lookupKey ∈ store.files := by
  decide +kernel

end Runs

end Wdlp
