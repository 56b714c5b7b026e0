import Wdlp.Storage.Tree

/-!
# What failed calls and renames leave behind

A call that changes names and fails changes them back, with two exceptions: a handle that could not
be closed is gone all the same, and a rename that fails after it has deleted what was at its
destination does not bring it back. A rename loses nothing but what it replaces, with one exception:
when the two names differ in nothing but the case of letters, what it replaces is its source. A
deletion ends as the check before it says, if it can be persisted.

## Main definitions

* `Call.LeavesTrace` — the calls that, when they fail, have changed something.
* `Names.LosesOnly` — all entries are kept but the one that a rename replaces.

## Main results

* `failed_call_names_iff` — when a failed call leaves the names as they were.
* `rename_loses_only_iff` — when a rename loses only what it replaces.
* `delete_predicted` — the check before a deletion predicts it.
-/

namespace Wdlp

open CrashSafe Act Function

variable {P : Primitives} {keys : StoreId → StoreKey} {s t : Sys} {w w₀ : World}

/-! ### Failed calls -/

/-- The calls that change names. -/
def Call.ChangesNames : Call → Prop
  | createDirectory _ | createOrOpen _ _ _ | rename _ _ _ | delete _ | closeHandle _ => True
  | _ => False

/-- If the call fails, it has closed a handle, or deleted what was at the destination of a rename. -/
def Call.LeavesTrace (P : Primitives) (s : Sys) : Call → Prop
  | closeHandle handle => handle.number ∈ s.store.handles
  | rename source destination replace => replace = true ∧
      s.view.names.Replaces source.1.lookupKey destination.1.lookupKey ∧
      ∃ u, Wdlp.delete P destination.1 s = .ok () u ∧ u.view.names ≠ s.view.names
  | _ => False

section Failed

variable {A : Names → Change → Prop} {v v' : View} {source destination : ParsedPath}
  {replace : Bool}

theorem View.ClosedInPart.names_eq_iff {number : ℕ} (h : View.ClosedInPart P A v number v') :
    v'.names = v.names ↔ v.names.handles number = none := by
  cases h with
  | unknown h => exact iff_of_true rfl h
  | stays h hfailed =>
    refine iff_of_false (fun heq => ?_) h.enabled
    rw [hfailed.names_eq, h.names_eq] at heq
    exact h.enabled ((congrFun (congrArg Names.handles heq) number).symm.trans (update_self ..))

theorem RenamedInPart.names_eq_iff (h : RenamedInPart P A s source destination replace v') :
    v'.names = s.view.names ↔ ¬(Call.rename source destination replace).LeavesTrace P s := by
  cases h with
  | same hkept h =>
    refine iff_of_true h.names_eq ?_
    rintro ⟨hreplace, hreplaces, u, hu, -⟩
    exact hkept hreplace hreplaces u hu
  | deleted hreplace hreplaces hrun hdeleted h =>
    rw [h.names_eq, iff_not_comm]
    constructor
    · rintro ⟨-, -, u', hu', hne⟩
      cases hrun.symm.trans hu'
      exact hne
    · exact fun hne => ⟨hreplace, hreplaces, _, hrun, hne⟩

theorem Call.names_eq_iff_of_failed (hP : P.Correct) (hwf : s.view.names.WellFormed) {call : Call}
    (hcall : call.ChangesNames) {e : StorageError} (hrun : call.run P s = .err e t) :
    t.view.names = s.view.names ↔ ¬call.LeavesTrace P s := by
  have hfailed : ∀ {v'}, View.Failed P (fun _ _ => True) s.view v' → v'.names = s.view.names :=
    fun h => h.names_eq
  cases call with
  | createDirectory path =>
    exact iff_of_true (hfailed (err_of_wp (createDirectory_wp hP trivial) hrun)) id
  | createOrOpen path create allowDelete =>
    have hwp : Act.wp (Call.run P (.createOrOpen path create allowDelete)) (fun _ _ => True)
        (fun _ t => View.Failed P (fun _ _ => True) s.view t.view) (fun _ => True) s :=
      (wp_bind _ _).mpr (wp_mono (createOrOpen_wp hP fun _ _ => trivial)
        (fun _ _ _ => trivial) (fun _ _ => id) (fun _ _ => trivial))
    exact iff_of_true (hfailed (err_of_wp hwp hrun)) id
  | rename source destination replace =>
    have hpart := err_of_wp (rename_wp (A := fun _ _ => True) hP
      ⟨fun _ _ => trivial, fun _ _ => trivial⟩ hwf) hrun
    exact hpart.names_eq_iff
  | delete path =>
    exact iff_of_true (hfailed (err_of_wp (delete_wp hP fun _ _ => trivial) hrun)) id
  | closeHandle handle =>
    have hpart := err_of_wp (closeHandle_wp (A := fun _ _ => True) hP trivial
      fun _ _ => trivial) hrun
    exact hpart.names_eq_iff.trans Map.not_mem_iff_get.symm
  | _ => exact hcall.elim

/-- Two files, both of them open. -/
def twoOpen : World :=
  (World.empty []).run .plain (soleOpening ++ [.createOrOpen solePath true true,
    .createOrOpen otherPath true true].map .call)

/-- One file is to replace the other, which is open. -/
def replaceOpen : Call := .rename otherPath solePath true

end Failed

/-! ### Renames -/

/-- Where an entry is after a rename: where it was, or, in the tree that is moved, at its new
place. -/
def MovedTo (source destination key key' : Text) : Prop :=
  key' = key ∨ ((key = source ∨ isInside source key = true) ∧
    key' = movedKey source destination key)

/-- The file is still there and as much or as little about to be deleted as before. -/
def Names.KeepsFile (n : Names) (source destination key : Text) (f : FileName) : Prop :=
  ∃ key' f', MovedTo source destination key key' ∧ n.files key' = some f' ∧
    f'.fileId = f.fileId ∧ f'.deletePending = f.deletePending

/-- The directory is still there. -/
def Names.KeepsDirectory (n : Names) (source destination key : Text) : Prop :=
  ∃ key', MovedTo source destination key key' ∧ n.directories key' ≠ none

/-- From the first names to the second, nothing is lost but the file or the empty directory at the
destination, if it is to be replaced and is not the source. A source that is its own destination has
the new display name if the rename returned. -/
structure Names.LosesOnly (n n' : Names) (source : Text) (destination : ParsedPath)
    (replace returned : Bool) : Prop where
  files : ∀ key f, n.files key = some f → n'.KeepsFile source destination.1.lookupKey key f ∨
    (replace = true ∧ key = destination.1.lookupKey ∧ source ≠ destination.1.lookupKey)
  directories : ∀ key, n.directories key ≠ none →
    n'.KeepsDirectory source destination.1.lookupKey key ∨
    (replace = true ∧ key = destination.1.lookupKey ∧ source ≠ destination.1.lookupKey ∧
      n.Empty key)
  single : (∀ f, n.files destination.1.lookupKey = some f →
      n'.KeepsFile source destination.1.lookupKey destination.1.lookupKey f) ∨
    (n.directories destination.1.lookupKey ≠ none →
      n'.KeepsDirectory source destination.1.lookupKey destination.1.lookupKey)
  display : returned = true → source = destination.1.lookupKey →
    if n.directories source = none then
      n'.files source |>.any fun f => decide (f.display = destination.1.displayName)
    else n'.directories source = some destination.1.displayName

section Rename

variable {n n' : Names} {v v' : View} {source : Text} {destination : ParsedPath} {f : FileName}

theorem Names.keepsFile_of_eq {d key : Text} (h : n.files key = some f) :
    n.KeepsFile source d key f := ⟨key, f, .inl rfl, h, rfl, rfl⟩

theorem Names.keepsDirectory_of_ne {d key : Text} (h : n.directories key ≠ none) :
    n.KeepsDirectory source d key := ⟨key, .inl rfl, h⟩

variable {key : Text}

/-- The move of a file keeps all files. -/
theorem Names.keepsFile_moveFile (he : (Change.moveFile source destination).Enabled n)
    (hf : n.files key = some f) :
    ((Change.moveFile source destination).apply n).KeepsFile source destination.1.lookupKey key
      f := by
  by_cases hkey : key = source
  · subst hkey
    refine ⟨destination.1.lookupKey, { f with display := destination.1.displayName },
      .inr ⟨.inl rfl, movedKey_self.symm⟩, ?_, rfl, rfl⟩
    simp only [Change.apply, update_self, hf, Option.map_some]
  · have hne : key ≠ destination.1.lookupKey := fun heq => by
      rw [heq, he.2.1] at hf
      cases hf
    refine Names.keepsFile_of_eq ?_
    simp only [Change.apply, update_of_ne hne, update_of_ne hkey, hf]

/-- The move of a tree keeps all files. -/
theorem Names.keepsFile_moveTree (hwf : n.WellFormed)
    (he : (Change.moveTree source destination).Enabled n)
    (hf : n.files key = some f) : ((Change.moveTree source destination).apply n).KeepsFile
    source destination.1.lookupKey key f := by
  by_cases hin : isInside source key = true
  · refine ⟨movedKey source destination.1.lookupKey key, f, .inr ⟨.inr hin, rfl⟩, ?_, rfl, rfl⟩
    obtain ⟨rest, rfl⟩ := isInside_iff.mp hin
    simp only [Change.apply, movedKey_childKey, isInside_childKey, if_true, hf]
  · have hout : ¬isInside destination.1.lookupKey key = true := fun h =>
      hwf.empty_of_absent he.2.1 _ h (.inr (hf ▸ Option.some_ne_none _))
    refine Names.keepsFile_of_eq ?_
    simp only [Change.apply, if_neg hin, if_neg hout, hf]

/-- The move of a tree keeps all directories. -/
theorem Names.keepsDirectory_moveTree (hwf : n.WellFormed)
    (he : (Change.moveTree source destination).Enabled n)
    (hd : n.directories key ≠ none) : ((Change.moveTree source destination).apply n).KeepsDirectory
    source destination.1.lookupKey key := by
  by_cases hkey : key = source
  · subst hkey
    exact ⟨_, .inr ⟨.inl rfl, movedKey_self.symm⟩, Names.moveTree_top hd⟩
  by_cases hin : isInside source key = true
  · obtain ⟨rest, rfl⟩ := isInside_iff.mp hin
    exact ⟨_, .inr ⟨.inr hin, movedKey_childKey.symm⟩, Names.moveTree_inside hd⟩
  · have hne : key ≠ destination.1.lookupKey := fun heq => hd (heq ▸ he.2.1)
    have hout : isInside destination.1.lookupKey key = false := Bool.eq_false_of_not_eq_true fun h =>
      hwf.empty_of_absent he.2.1 _ h (.inl hd)
    refine Names.keepsDirectory_of_ne ?_
    rw [Names.moveTree_outside hne hout hkey (Bool.eq_false_of_not_eq_true hin)]
    exact hd

/-- The move of a rename keeps everything. -/
theorem Names.keeps_moving (hwf : n.WellFormed) {ch : Change} (he : ch.Enabled n)
    (hch : ch = .moveFile source destination ∨ ch = .moveTree source destination) :
    (∀ key f, n.files key = some f → (ch.apply n).KeepsFile source destination.1.lookupKey key f) ∧
    ∀ key, n.directories key ≠ none → (ch.apply n).KeepsDirectory
    source destination.1.lookupKey key := by
  rcases hch with rfl | rfl
  · exact ⟨fun _ _ => Names.keepsFile_moveFile he, fun _ => Names.keepsDirectory_of_ne⟩
  · exact ⟨fun _ _ => Names.keepsFile_moveTree hwf he, fun _ =>
      Names.keepsDirectory_moveTree hwf he⟩

theorem Names.moving_cases (n : Names) (source : Text) (destination : ParsedPath) :
    n.moving source destination = .moveFile source destination ∨
      n.moving source destination = .moveTree source destination := by
  unfold Names.moving
  split
  · exact .inl rfl
  · exact .inr rfl

/-- A deletion leaves everything else, and loses one thing only. -/
theorem View.Deleted.loses (h : View.Deleted P v key v') :
    (v'.names.files = v.names.files ∧ v.names.Empty key ∨ v.names.directories key = none) ∧
      (∀ other, other ≠ key → v'.names.files other = v.names.files other) ∧
      ∀ other, other ≠ key → v'.names.directories other = v.names.directories other := by
  refine ⟨?_, fun other hne => ?_, fun other hne => ?_⟩
  · cases h with
    | directory h => exact .inl ⟨by rw [h.names_eq]; rfl, h.enabled.2⟩
    | file hdir h => exact .inr hdir
    | pending hdir h => exact .inr hdir
  · cases h with
    | directory h => rw [h.names_eq]; rfl
    | file hdir h => rw [h.names_eq]; exact update_of_ne hne _ _
    | pending hdir h => rw [h.names_eq]; exact update_of_ne hne _ _
  · rw [h.directories_eq, update_of_ne hne]

/-- What is kept after a deletion of the destination. -/
theorem View.Deleted.losesOnly {returned : Bool}
    (h : View.Deleted P v destination.1.lookupKey v') (hne : source ≠ destination.1.lookupKey)
    (hf : ∀ key f, v'.names.files key = some f →
      n'.KeepsFile source destination.1.lookupKey key f)
    (hd : ∀ key, v'.names.directories key ≠ none →
      n'.KeepsDirectory source destination.1.lookupKey key) :
    v.names.LosesOnly n' source destination true returned := by
  obtain ⟨hone, hfiles, hdirectories⟩ := h.loses
  refine ⟨fun key f hfile => ?_, fun key hdir => ?_, ?_, fun _ heq => absurd heq hne⟩
  · by_cases hkey : key = destination.1.lookupKey
    · exact .inr ⟨rfl, hkey, hne⟩
    · exact .inl (hf key f ((hfiles key hkey).trans hfile))
  · by_cases hkey : key = destination.1.lookupKey
    · rcases hone with ⟨-, hempty⟩ | hnone
      · exact .inr ⟨rfl, hkey, hne, hkey ▸ hempty⟩
      · exact absurd (hkey ▸ hnone) hdir
    · exact .inl (hd key (hdirectories key hkey ▸ hdir))
  · rcases hone with ⟨hsame, -⟩ | hnone
    · exact .inl fun f hfile => hf _ f (hsame ▸ hfile)
    · exact .inr fun hdir => absurd hnone hdir

/-- When nothing is lost. -/
theorem Names.losesOnly_of_keeps {replace returned : Bool}
    (hf : ∀ key f, n.files key = some f → n'.KeepsFile source destination.1.lookupKey key f)
    (hd : ∀ key, n.directories key ≠ none → n'.KeepsDirectory source destination.1.lookupKey key)
    (hdisplay : returned = true → source ≠ destination.1.lookupKey) :
    n.LosesOnly n' source destination replace returned where
  files key f h := .inl (hf key f h)
  directories key h := .inl (hd key h)
  single := .inl fun f h => hf _ f h
  display hreturned heq := absurd heq (hdisplay hreturned)

end Rename

section Runs

variable {A : Names → Change → Prop} {v' : View} {source destination : ParsedPath}
  {replace : Bool}

/-- The rename of an entry to its own key that gets as far as deleting it. -/
def DeletesSource (P : Primitives) (s : Sys) (source destination : ParsedPath) (replace : Bool) :
    Prop :=
  source.1.lookupKey = destination.1.lookupKey ∧ replace = true ∧
    s.view.names.Replaces source.1.lookupKey destination.1.lookupKey ∧
      ∃ u, delete P destination.1 s = .ok () u

theorem Renamed.losesOnly (h : Renamed P s source destination replace v')
    (hwf : s.view.names.WellFormed) (hgood : ¬DeletesSource P s source destination replace) :
    s.view.names.LosesOnly v'.names source.1.lookupKey destination replace true := by
  obtain ⟨u, hvacated, hmoved⟩ := h
  obtain ⟨hfiles, hdirectories⟩ := Names.keeps_moving (hvacated.wellFormed hwf) hmoved.enabled
    (s.view.names.moving_cases source.1.lookupKey destination)
  rw [← hmoved.names_eq] at hfiles hdirectories
  cases hvacated with
  | absent habsent =>
    refine Names.losesOnly_of_keeps hfiles hdirectories fun _ heq => ?_
    -- a source that is there occupies its own key
    have he := hmoved.enabled
    refine habsent ?_
    unfold Names.moving at he
    split at he
    · exact .inl (heq ▸ he.1)
    · next display hdisplay =>
      rw [heq] at hdisplay
      cases hdisplay.symm.trans he.2.1
  | deleted hreplace hreplaces hrun hdeleted =>
    subst hreplace
    exact hdeleted.losesOnly (fun heq => hgood ⟨heq, rfl, hreplaces, u, hrun⟩) hfiles hdirectories

theorem RenamedInPart.losesOnly (h : RenamedInPart P A s source destination replace v')
    (hgood : ¬DeletesSource P s source destination replace) :
    s.view.names.LosesOnly v'.names source.1.lookupKey destination replace false := by
  cases h with
  | same hkept h =>
    rw [h.names_eq]
    exact Names.losesOnly_of_keeps (fun _ _ => Names.keepsFile_of_eq)
      (fun _ => Names.keepsDirectory_of_ne) nofun
  | @deleted u _ hreplace hreplaces hrun hdeleted h =>
    subst hreplace
    rw [h.names_eq]
    exact hdeleted.losesOnly (fun heq => hgood ⟨heq, rfl, hreplaces, u, hrun⟩)
      (fun _ _ => Names.keepsFile_of_eq) (fun _ => Names.keepsDirectory_of_ne)

/-- An entry that was to replace itself is where it was, if anywhere. -/
theorem MovedTo.eq_of_self {d key' : Text} (h : MovedTo d d d key') : key' = d := by
  rcases h with h | ⟨-, h⟩
  · exact h
  · rw [h, movedKey_self]

/-- A deletion of the destination loses the source, if it is the same. -/
theorem View.Deleted.not_losesOnly {v : View} {returned : Bool} {d : Text}
    (h : View.Deleted P v d v') (hd : d = destination.1.lookupKey) (hreplaces : v.names.Replaces d d) :
    ¬v.names.LosesOnly v'.names d destination replace returned := by
  subst hd
  intro hloses
  cases h with
  | directory h =>
    rcases hloses.directories _ h.enabled.1 with ⟨key', hkey', hdir⟩ | ⟨-, -, hne, -⟩
    · rw [hkey'.eq_of_self, h.names_eq] at hdir
      exact hdir (update_self ..)
    · exact hne rfl
  | file hdir h =>
    obtain ⟨f, hf⟩ := Option.ne_none_iff_exists'.mp h.enabled.1
    rcases hloses.files _ f hf with ⟨key', f', hkey', hf', -⟩ | ⟨-, -, hne⟩
    · rw [hkey'.eq_of_self, h.names_eq] at hf'
      cases (update_self ..).symm.trans hf'
    · exact hne rfl
  | pending hdir h =>
    have hsource := hreplaces.2.2
    rw [if_pos hdir] at hsource
    obtain ⟨f, hf, hvisible⟩ := hsource
    rcases hloses.files _ f hf with ⟨key', f', hkey', hf', -, hpending⟩ | ⟨-, -, hne⟩
    · rw [hkey'.eq_of_self, h.names_eq] at hf'
      simp only [Change.apply, update_self, hf, Option.map_some, Option.some.injEq] at hf'
      rw [← hf', hvisible] at hpending
      cases hpending
    · exact hne rfl

theorem Renamed.not_losesOnly (h : Renamed P s source destination replace v')
    (hbad : DeletesSource P s source destination replace) :
    ¬s.view.names.LosesOnly v'.names source.1.lookupKey destination replace true := by
  obtain ⟨heq, hreplace, hreplaces, -⟩ := hbad
  obtain ⟨u, hvacated, hmoved⟩ := h
  intro hloses
  have he := hmoved.enabled
  have hnames := hmoved.names_eq
  unfold Names.moving at he hnames
  split at he
  · exact he.1 (heq ▸ he.2.1)
  · next display hdisplay =>
    simp only [hdisplay] at hnames
    have hsource : s.view.names.directories source.1.lookupKey ≠ none :=
      hdisplay ▸ Option.some_ne_none _
    rcases hloses.directories _ hsource with ⟨key', hkey', hdir⟩ | ⟨-, -, hne, -⟩
    · rw [← heq] at hkey'
      have hgone : u.view.names.directories source.1.lookupKey = none := heq ▸ he.2.1
      rw [hkey'.eq_of_self, hnames] at hdir
      simp [Change.apply, ← heq, hgone] at hdir
    · exact hne heq

theorem RenamedInPart.not_losesOnly (h : RenamedInPart P A s source destination replace v')
    (hbad : DeletesSource P s source destination replace) :
    ¬s.view.names.LosesOnly v'.names source.1.lookupKey destination replace false := by
  obtain ⟨heq, hreplace, hreplaces, u, hu⟩ := hbad
  cases h with
  | same hkept h => exact absurd hu (hkept hreplace hreplaces u)
  | deleted _ _ hrun hdeleted h =>
    rw [← heq] at hdeleted hreplaces
    rw [h.names_eq]
    exact hdeleted.not_losesOnly heq hreplaces

/-- A directory with a file in it, and an empty one. -/
def twoDirectories : World :=
  (World.empty []).run .plain (soleOpening ++ [.createDirectory solePath,
    .createOrOpen innerPath true true, .createDirectory otherPath].map .call)

/-- A file that no one has open. -/
def oneFile : World :=
  (World.empty []).run .plain (soleOpening ++ [.createOrOpen solePath true true,
    .closeHandle ⟨1⟩].map .call)

/-- The same name in lower case. -/
def lowerPath : ParsedPath := .ofInput ['d'] (by decide +kernel)

end Runs

/-! ### The check before a deletion -/

/-- The store without the entry at the path. -/
def Store.without (path : VirtualPath) (store : Store) : Store :=
  if store.isDirectory path then
    { store with directories := store.directories.erase path.lookupKey }
  else { store with files := store.files.erase path.lookupKey }

/-- The entry may be deleted, but the namespace without it cannot be persisted. -/
def Stuck (P : Primitives) (path : VirtualPath) (s : Sys) : Prop :=
  s.store.ensureDeleteAllowed path = .ok () ∧
    ∀ t, persistNamespace P { s with store := s.store.without path } ≠ .ok () t

theorem remove_wp {path : VirtualPath} {f undo : Store → Store}
    (hok : s.store.ensureDeleteAllowed path = .ok ()) (hf : s.store.without path = f s.store) :
    (do modifyStore f; persistOr P undo : Op Unit).wp
      (fun _ _ => s.store.ensureDeleteAllowed path = .ok ())
      (fun e t => s.store.ensureDeleteAllowed path = .error e ∧ t = s ∨ Stuck P path s)
      (fun _ => Stuck P path s) s := by
  unfold Stuck
  rw [hf]
  refine wp_bind_of_ok rfl ((wp_orRollback _ _).mpr ?_)
  unfold wp
  cases persistNamespace P { s with store := f s.store } <;> simp [hok]

end Wdlp
