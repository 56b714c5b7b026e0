import Wdlp.Storage.Run

/-!
# The namespace as a system of names

What a store says about its names, apart from the times of the entries: which keys are directories
and which are files, and what the open handles refer to (`Names`). The operations of the store
change it in a few ways only (`Change`), each under a condition (`Change.Enabled`) and with an
effect that is stated here on its own terms (`Change.apply`); that the operations do nothing else
is proved where they are.

## Main definitions

* `Names`, `Store.names` — the names, and those of a store.
* `Change`, `Change.Enabled`, `Change.apply` — the changes.
* `Names.WellFormed` — the names make up a tree whose keys belong to the display names.

## Main results

* `Names.WellFormed.inside` — whatever lies in a directory, the directory is there.
* `Names.WellFormed.apply` — the changes keep the tree.
-/

namespace Wdlp

open CrashSafe Function

/-! ### Names -/

/-- A file in the namespace, without its times. -/
structure FileName where
  fileId : FileId
  display : Text
  deletePending : Bool
  deriving DecidableEq

/-- The names of a store: the display names of its directories, its files and its handles. -/
@[ext] structure Names where
  directories : Text → Option Text
  files : Text → Option FileName
  handles : ℕ → Option HandleState
  nextHandle : ℕ

def FileEntry.name (entry : FileEntry) : FileName where
  fileId := entry.fileId
  display := entry.display
  deletePending := entry.deletePending

/-- The times of a file are not part of its name. -/
theorem FileEntry.name_retimed (entry : FileEntry) (metadata : EntryMetadata) :
    { entry with metadata := metadata }.name = entry.name := rfl

/-- The names in a namespace. -/
def namesOf (directories : Map Text DirectoryEntry) (files : Map Text FileEntry)
    (handles : Map ℕ HandleState) (nextHandle : ℕ) : Names where
  directories key := directories[key]?.map DirectoryEntry.display
  files key := files[key]?.map FileEntry.name
  handles number := handles[number]?
  nextHandle := nextHandle

def Store.names (store : Store) (nextHandle : ℕ) : Names :=
  namesOf store.directories store.files store.handles nextHandle

def Core.names (c : Core) : Names := c.store.names c.counters.nextHandle

namespace Names

variable (n : Names)

/-- The key names something. -/
def Has (key : Text) : Prop := n.directories key ≠ none ∨ n.files key ≠ none

/-- The directory that a key lies in is there; the root always is. -/
def HasParent (key : Text) : Prop :=
  ∀ parent, parentKey key = some parent → n.directories parent ≠ none

/-- Nothing lies in the directory. -/
def Empty (directory : Text) : Prop := ∀ key, isInside directory key = true → ¬n.Has key

/-- A handle is open on the key. -/
def Open (key : Text) : Prop := ∃ number state, n.handles number = some state ∧ state.pathKey = key

/-- Every handle on the key allows its deletion. -/
def Shared (key : Text) : Prop :=
  ∀ number state, n.handles number = some state → state.pathKey = key → state.allowDelete = true

/-- No names at all. -/
def blank (nextHandle : ℕ) : Names := ⟨fun _ => none, fun _ => none, fun _ => none, nextHandle⟩

end Names

/-! ### Changes -/

/-- The ways in which the operations change the names; with `stay` they are persisted unchanged. -/
inductive Change where
  | stay
  | makeDirectory (path : ParsedPath)
  | makeFile (path : ParsedPath) (number : ℕ) (file : FileId)
  | dropDirectory (key : Text)
  | dropFile (key : Text)
  | moveFile (source : Text) (destination : ParsedPath)
  | moveTree (source : Text) (destination : ParsedPath)
  | markPending (key : Text)
  | openHandle (key : Text) (allowDelete : Bool)
  | closeHandle (number : ℕ)

namespace Change

/-- The changes that the operations make durable; the others are made in memory only. -/
def Durable : Change → Prop
  | stay | makeDirectory _ | makeFile _ _ _ | dropDirectory _ | dropFile _ | moveFile _ _
  | moveTree _ _ => True
  | markPending _ | openHandle _ _ | closeHandle _ => False

/-- When a change can be made. -/
def Enabled (n : Names) : Change → Prop
  | stay => True
  | makeDirectory path =>
    n.directories path.1.lookupKey = none ∧ n.files path.1.lookupKey = none ∧
      n.HasParent path.1.lookupKey
  | makeFile path number file =>
    n.files path.1.lookupKey = none ∧ n.HasParent path.1.lookupKey ∧ newFileId number = .ok file
  | dropDirectory key => n.directories key ≠ none ∧ n.Empty key
  | dropFile key => n.files key ≠ none ∧ ¬n.Open key
  | moveFile source destination =>
    n.files source ≠ none ∧ n.files destination.1.lookupKey = none ∧
      n.HasParent destination.1.lookupKey
  | moveTree source destination =>
    isInside source destination.1.lookupKey = false ∧
      n.directories destination.1.lookupKey = none ∧ n.HasParent destination.1.lookupKey
  | markPending key => n.files key ≠ none ∧ n.Open key ∧ n.Shared key
  | openHandle key _ => ∃ f, n.files key = some f ∧ f.deletePending = false
  | closeHandle number => n.handles number ≠ none

/-- The handles after the keys that they refer to were moved. -/
def moveHandles (move : Text → Text) (handles : ℕ → Option HandleState) :
    ℕ → Option HandleState := fun number =>
  (handles number).map fun state => { state with pathKey := move state.pathKey }

/-- The effect of a change. -/
def apply (n : Names) : Change → Names
  | stay => n
  | makeDirectory path =>
    { n with
      directories := update n.directories path.1.lookupKey (some path.1.displayName) }
  | makeFile path _ file =>
    { n with
      files := update n.files path.1.lookupKey
        (some { fileId := file, display := path.1.displayName, deletePending := false }) }
  | dropDirectory key => { n with directories := update n.directories key none }
  | dropFile key => { n with files := update n.files key none }
  | moveFile source destination =>
    { n with
      files := update (update n.files source none) destination.1.lookupKey
        ((n.files source).map fun f => { f with display := destination.1.displayName })
      handles := moveHandles
        (fun key => if key = source then destination.1.lookupKey else key) n.handles }
  | moveTree source destination =>
    { n with
      directories := fun key =>
        if key = destination.1.lookupKey then
          (n.directories source).map fun _ => destination.1.displayName
        else if isInside destination.1.lookupKey key then
          n.directories (movedKey destination.1.lookupKey source key)
        else if key = source ∨ isInside source key = true then none else n.directories key
      files := fun key =>
        if isInside destination.1.lookupKey key then
          n.files (movedKey destination.1.lookupKey source key)
        else if isInside source key then none else n.files key
      handles := moveHandles (fun key =>
        if isInside source key then movedKey source destination.1.lookupKey key else key)
          n.handles }
  | markPending key =>
    { n with
      files := update n.files key
        ((n.files key).map fun f => { f with deletePending := true }) }
  | openHandle key allowDelete =>
    { n with
      handles := update n.handles n.nextHandle (some { pathKey := key, allowDelete })
      nextHandle := n.nextHandle + 1 }
  | closeHandle number => { n with handles := update n.handles number none }

end Change

/-! ### Keys inside a directory -/

section Inside

variable {directory key rest source destination : Text}

theorem isInside_iff : isInside directory key = true ↔ ∃ rest, key = childKey directory rest := by
  simp only [isInside, List.isPrefixOf_iff_prefix, childKey]
  constructor
  · rintro ⟨rest, rfl⟩
    exact ⟨rest, by rw [List.append_assoc, List.singleton_append]⟩
  · rintro ⟨rest, rfl⟩
    exact ⟨rest, by rw [List.append_assoc, List.singleton_append]⟩

@[simp] theorem isInside_childKey : isInside directory (childKey directory rest) = true :=
  isInside_iff.mpr ⟨rest, rfl⟩

theorem isInside_trans (h : isInside directory key = true) :
    isInside directory (childKey key rest) = true := by
  obtain ⟨r, rfl⟩ := isInside_iff.mp h
  refine isInside_iff.mpr ⟨childKey r rest, ?_⟩
  simp [childKey]

theorem length_lt_of_isInside (h : isInside directory key = true) :
    directory.length < key.length := by
  obtain ⟨r, rfl⟩ := isInside_iff.mp h
  rw [childKey, List.length_append, List.length_cons]
  omega

theorem isInside_self : isInside directory directory = false := by
  rw [Bool.eq_false_iff]
  exact fun h => absurd (length_lt_of_isInside h) (lt_irrefl _)

theorem childKey_ne : childKey directory rest ≠ directory := by
  intro h
  have hinside : isInside directory (childKey directory rest) = true := isInside_childKey
  rw [h, isInside_self] at hinside
  exact Bool.false_ne_true hinside

theorem childKey_inj {rest' : Text} (h : childKey directory rest = childKey directory rest') :
    rest = rest' := List.cons.inj (List.append_cancel_left h) |>.2

theorem stripStart_childKey : stripStart source (childKey source rest) = '/' :: rest := by
  have hpre : source.isPrefixOf (childKey source rest) = true :=
    List.isPrefixOf_iff_prefix.mpr ⟨_, rfl⟩
  rw [stripStart, if_pos hpre, childKey, List.drop_left]

theorem stripStart_self : stripStart source source = [] := by
  have hpre : source.isPrefixOf source = true := List.isPrefixOf_iff_prefix.mpr (List.prefix_refl _)
  rw [stripStart, if_pos hpre, List.drop_length]

@[simp] theorem movedKey_childKey :
    movedKey source destination (childKey source rest) = childKey destination rest := by
  rw [movedKey, stripStart_childKey, childKey]

@[simp] theorem movedKey_self : movedKey source destination source = destination := by
  rw [movedKey, stripStart_self, List.append_nil]

/-- The directory of a key inside a directory is that directory or lies in it. -/
theorem parentKey_cases {parent : Text} (h : parentKey key = some parent)
    (hin : isInside directory key = true) :
    parent = directory ∨ isInside directory parent = true := by
  obtain ⟨r, rfl⟩ := isInside_iff.mp hin
  rw [parentKey_childKey] at h
  obtain rfl := Option.some.inj h
  cases parentKey r with
  | none => exact .inl rfl
  | some p => exact .inr isInside_childKey

theorem isInside_of_parentKey {parent : Text} (h : parentKey key = some parent) :
    isInside parent key = true := by
  rw [eq_childKey_of_parentKey h]
  exact isInside_childKey

end Inside

/-! ### Trees -/

/-- A text that stands in one column of a line. -/
def Plain (text : Text) : Prop := text ≠ [] ∧ '\t' ∉ text ∧ '\n' ∉ text

/-- The key and the display name of one entry. -/
structure NamesEntry (key display : Text) : Prop where
  base : baseName key = asciiLower display
  key : Plain key
  display : Plain display

/-- Every entry lies in a directory that is there and has a key that belongs to its display name;
the numbers of the handles are below the next one. -/
structure Names.WellFormed (n : Names) : Prop where
  parents : ∀ key, n.Has key → n.HasParent key
  directoryNames : ∀ key display, n.directories key = some display → NamesEntry key display
  fileNames : ∀ key f, n.files key = some f → NamesEntry key f.display
  numbered : ∀ number, n.handles number ≠ none → number < n.nextHandle

theorem ParsedPath.namesEntry (p : ParsedPath) : NamesEntry p.1.lookupKey p.1.displayName where
  base := p.baseName_lookup
  key := ⟨p.lookup_ne_nil, p.not_mem_lookup (by decide) (by decide) (by decide),
    p.not_mem_lookup (by decide) (by decide) (by decide)⟩
  display := ⟨p.displayName_ne_nil, p.not_mem_component (by decide) p.displayName_mem,
    p.not_mem_component (by decide) p.displayName_mem⟩

theorem NamesEntry.moved {source destination rest display : Text} (hd : Plain destination)
    (h : NamesEntry (childKey source rest) display) :
    NamesEntry (childKey destination rest) display where
  base := (baseName_childKey destination rest).trans ((baseName_childKey source rest).symm.trans
    h.base)
  key := by
    obtain ⟨-, htab, hline⟩ := h.key
    obtain ⟨-, htab', hline'⟩ := hd
    simp only [childKey, List.mem_append, List.mem_cons, not_or] at htab hline
    refine ⟨?_, ?_, ?_⟩
    · simp [childKey]
    · simp [childKey, htab', htab.2.2]
    · simp [childKey, hline', hline.2.2]
  display := h.display

namespace Names

variable {n : Names} {key directory : Text} {ch : Change}

/-- Whatever lies in a directory, the directory is there. -/
theorem WellFormed.inside (h : n.WellFormed) (hin : isInside directory key = true)
    (hhas : n.Has key) : n.directories directory ≠ none := by
  -- going up from the key, each step shortens it
  induction hlen : key.length using Nat.strong_induction_on generalizing key with
  | _ length ih =>
    cases hparent : parentKey key with
    | none =>
      obtain ⟨rest, rfl⟩ := isInside_iff.mp hin
      rw [parentKey_childKey] at hparent
      cases hparent
    | some parent =>
      have hdir := h.parents key hhas parent hparent
      rcases parentKey_cases hparent hin with rfl | hin'
      · exact hdir
      · have hlt := length_lt_of_isInside (isInside_of_parentKey hparent)
        exact ih parent.length (hlen ▸ hlt) hin' (.inl hdir) rfl

theorem WellFormed.empty_of_absent (h : n.WellFormed) (habsent : n.directories directory = none) :
    n.Empty directory := fun _ hin hhas => h.inside hin hhas habsent

theorem blank_wellFormed {nextHandle : ℕ} : (blank nextHandle).WellFormed where
  parents _ h := by
    rcases h with h | h <;> exact absurd rfl h
  directoryNames _ _ h := by cases h
  fileNames _ _ h := by cases h
  numbered _ h := absurd rfl h

/-- The directories stay: each file was there under the same name, or it is a new one. -/
theorem WellFormed.of_files {n' : Names} (h : n.WellFormed) (hd : n'.directories = n.directories)
    (hf : ∀ key f, n'.files key = some f →
      (∃ f₀, n.files key = some f₀ ∧ f.display = f₀.display) ∨
        (n.HasParent key ∧ NamesEntry key f.display))
    (hn : ∀ number, n'.handles number ≠ none → number < n'.nextHandle) : n'.WellFormed where
  parents key hhas parent hparent := by
    rw [hd]
    rcases hhas with hdir | hfile
    · exact h.parents key (.inl (hd ▸ hdir)) parent hparent
    · obtain ⟨f, hfile⟩ := Option.ne_none_iff_exists'.mp hfile
      rcases hf key f hfile with ⟨f₀, hf₀, -⟩ | ⟨hnew, -⟩
      · exact h.parents key (.inr (by rw [hf₀]; exact Option.some_ne_none _)) parent hparent
      · exact hnew parent hparent
  directoryNames key display hdir := h.directoryNames key display (hd ▸ hdir)
  fileNames key f hfile := by
    rcases hf key f hfile with ⟨f₀, hf₀, hdisplay⟩ | ⟨-, hentry⟩
    · exact hdisplay ▸ h.fileNames key f₀ hf₀
    · exact hentry
  numbered := hn

theorem WellFormed.makeDirectory (h : n.WellFormed) {path : ParsedPath}
    (he : (Change.makeDirectory path).Enabled n) :
    ((Change.makeDirectory path).apply n).WellFormed where
  parents key hhas parent hparent := by
    have hold : n.directories parent ≠ none := by
      rcases hhas with hdir | hfile
      · by_cases hkey : key = path.1.lookupKey
        · exact he.2.2 parent (hkey ▸ hparent)
        · refine h.parents key (.inl ?_) parent hparent
          simpa only [Change.apply, update_of_ne hkey] using hdir
      · exact h.parents key (.inr hfile) parent hparent
    by_cases hkey : parent = path.1.lookupKey
    · rw [hkey]
      simp [Change.apply]
    · simpa only [Change.apply, update_of_ne hkey] using hold
  directoryNames key display hdir := by
    by_cases hkey : key = path.1.lookupKey
    · subst hkey
      simp only [Change.apply, update_self, Option.some.injEq] at hdir
      exact hdir ▸ path.namesEntry
    · simp only [Change.apply, update_of_ne hkey] at hdir
      exact h.directoryNames key display hdir
  fileNames := h.fileNames
  numbered := h.numbered

theorem WellFormed.dropDirectory (h : n.WellFormed)
    (he : (Change.dropDirectory directory).Enabled n) :
    ((Change.dropDirectory directory).apply n).WellFormed where
  parents key hhas parent hparent := by
    have hold : n.Has key := by
      rcases hhas with hdir | hfile
      · by_cases hkey : key = directory
        · simp [Change.apply, hkey] at hdir
        · exact .inl (by simpa only [Change.apply, update_of_ne hkey] using hdir)
      · exact .inr hfile
    have hne : parent ≠ directory := by
      rintro rfl
      exact he.2 key (isInside_of_parentKey hparent) hold
    simpa only [Change.apply, update_of_ne hne] using h.parents key hold parent hparent
  directoryNames key display hdir := by
    by_cases hkey : key = directory
    · simp [Change.apply, hkey] at hdir
    · simp only [Change.apply, update_of_ne hkey] at hdir
      exact h.directoryNames key display hdir
  fileNames := h.fileNames
  numbered := h.numbered

theorem moveHandles_ne_none {move : Text → Text} {handles : ℕ → Option HandleState} {number : ℕ}
    (h : Change.moveHandles move handles number ≠ none) : handles number ≠ none := by
  intro hnone
  simp [Change.moveHandles, hnone] at h

section MoveTree

variable {source : Text} {destination : ParsedPath}

/-- Where an entry of the names after the move of a tree comes from. -/
inductive MovedFrom (source destination : Text) : Text → Text → Prop
  | top : MovedFrom source destination destination source
  | inside (rest : Text) :
      MovedFrom source destination (childKey destination rest) (childKey source rest)
  | outside {key : Text} (hne : key ≠ destination) (hout : isInside destination key = false)
      (hsource : key ≠ source) (hin : isInside source key = false) :
      MovedFrom source destination key key

theorem movedFrom_directory {key display : Text}
    (h : ((Change.moveTree source destination).apply n).directories key = some display) : ∃ old
    display₀, MovedFrom source destination.1.lookupKey key old ∧ n.directories old = some display₀ ∧
    display = if key = destination.1.lookupKey then destination.1.displayName else display₀ := by
  simp only [Change.apply] at h
  by_cases hkey : key = destination.1.lookupKey
  · rw [if_pos hkey] at h
    obtain ⟨display₀, hold, rfl⟩ := Option.map_eq_some_iff.mp h
    exact ⟨source, display₀, hkey ▸ .top, hold, (if_pos hkey).symm⟩
  · rw [if_neg hkey] at h
    by_cases hin : isInside destination.1.lookupKey key = true
    · obtain ⟨rest, rfl⟩ := isInside_iff.mp hin
      rw [if_pos hin, movedKey_childKey] at h
      exact ⟨_, display, .inside rest, h, (if_neg hkey).symm⟩
    · rw [if_neg hin] at h
      split_ifs at h with hsource
      rw [not_or, Bool.not_eq_true] at hsource
      exact ⟨key, display, .outside hkey (Bool.not_eq_true _ ▸ hin) hsource.1 hsource.2, h,
        (if_neg hkey).symm⟩

variable {key : Text}

theorem movedFrom_file {f : FileName}
    (h : ((Change.moveTree source destination).apply n).files key = some f) :
    (∃ rest, key = childKey destination.1.lookupKey rest ∧
      n.files (childKey source rest) = some f) ∨
    (isInside destination.1.lookupKey key = false ∧ isInside source key = false ∧
      n.files key = some f) := by
  simp only [Change.apply] at h
  by_cases hin : isInside destination.1.lookupKey key = true
  · obtain ⟨rest, rfl⟩ := isInside_iff.mp hin
    rw [if_pos hin, movedKey_childKey] at h
    exact .inl ⟨rest, rfl, h⟩
  · rw [if_neg hin] at h
    split_ifs at h with hsource
    exact .inr ⟨Bool.not_eq_true _ ▸ hin, Bool.not_eq_true _ ▸ hsource, h⟩

/-- A directory inside the moved one goes with it. -/
theorem moveTree_inside {rest : Text} (h : n.directories (childKey source rest) ≠ none) :
    ((Change.moveTree source destination).apply n).directories
      (childKey destination.1.lookupKey rest) ≠ none := by
  simpa only [Change.apply, if_neg childKey_ne, isInside_childKey, if_true, movedKey_childKey]
    using h

theorem moveTree_top (h : n.directories source ≠ none) :
    ((Change.moveTree source destination).apply n).directories destination.1.lookupKey ≠ none := by
  simpa [Change.apply] using h

/-- The directory of a moved key is moved too. -/
theorem moveTree_parent (h : n.WellFormed) {rest : Text} (hhas : n.Has (childKey source rest)) :
    ((Change.moveTree source destination).apply n).HasParent
      (childKey destination.1.lookupKey rest) := by
  intro parent hparent
  rw [parentKey_childKey] at hparent
  have hold := h.parents _ hhas
  unfold HasParent at hold
  rw [parentKey_childKey] at hold
  cases hrest : parentKey rest with
  | none =>
    rw [hrest] at hparent hold
    obtain rfl := Option.some.inj hparent
    exact moveTree_top (hold _ rfl)
  | some p =>
    rw [hrest] at hparent hold
    obtain rfl := Option.some.inj hparent
    exact moveTree_inside (hold _ rfl)

/-- A directory outside of both trees stays. -/
theorem moveTree_outside (hne : key ≠ destination.1.lookupKey)
    (hout : isInside destination.1.lookupKey key = false) (hsource : key ≠ source)
    (hin : isInside source key = false) :
    ((Change.moveTree source destination).apply n).directories key = n.directories key := by
  simp [Change.apply, hne, hout, hsource, hin]

/-- The directory of a key outside of both trees stays. -/
theorem moveTree_parent_outside (h : n.HasParent key)
    (hout : isInside destination.1.lookupKey key = false) (hin : isInside source key = false) :
    ((Change.moveTree source destination).apply n).HasParent key := by
  intro parent hparent
  have hchild := eq_childKey_of_parentKey hparent
  have hnot : ∀ {d}, isInside d key = false → parent ≠ d ∧ isInside d parent = false := by
    intro d hd
    refine ⟨?_, ?_⟩
    · rintro rfl
      rw [isInside_of_parentKey hparent] at hd
      cases hd
    · rw [Bool.eq_false_iff]
      intro hp
      rw [hchild, isInside_trans hp] at hd
      cases hd
  rw [moveTree_outside (hnot hout).1 (hnot hout).2 (hnot hin).1 (hnot hin).2]
  exact h parent hparent

theorem WellFormed.moveTree (h : n.WellFormed)
    (he : (Change.moveTree source destination).Enabled n) :
    ((Change.moveTree source destination).apply n).WellFormed where
  parents key hhas := by
    have hparent : ∀ old, MovedFrom source destination.1.lookupKey key old → n.Has old →
        ((Change.moveTree source destination).apply n).HasParent key := by
      intro old hfrom hold
      cases hfrom with
      | top => exact moveTree_parent_outside he.2.2 isInside_self he.1
      | inside rest => exact moveTree_parent h hold
      | outside hne hout hsource hin =>
        exact moveTree_parent_outside (h.parents key hold) hout hin
    rcases hhas with hdir | hfile
    · obtain ⟨display, hdir⟩ := Option.ne_none_iff_exists'.mp hdir
      obtain ⟨old, display₀, hfrom, hold, -⟩ := movedFrom_directory hdir
      exact hparent old hfrom (.inl (by rw [hold]; exact Option.some_ne_none _))
    · obtain ⟨f, hfile⟩ := Option.ne_none_iff_exists'.mp hfile
      rcases movedFrom_file hfile with ⟨rest, rfl, hold⟩ | ⟨hout, hin, hold⟩
      · exact hparent _ (.inside rest) (.inr (by rw [hold]; exact Option.some_ne_none _))
      · have hhas : n.Has key := .inr (by rw [hold]; exact Option.some_ne_none _)
        exact moveTree_parent_outside (h.parents key hhas) hout hin
  directoryNames key display hdir := by
    obtain ⟨old, display₀, hfrom, hold, rfl⟩ := movedFrom_directory hdir
    cases hfrom with
    | top => rw [if_pos rfl]; exact destination.namesEntry
    | inside rest =>
      rw [if_neg childKey_ne]
      exact (h.directoryNames _ _ hold).moved destination.namesEntry.key
    | outside hne hout hsource hin => rw [if_neg hne]; exact h.directoryNames key _ hold
  fileNames key f hfile := by
    rcases movedFrom_file hfile with ⟨rest, rfl, hold⟩ | ⟨-, -, hold⟩
    · exact (h.fileNames _ _ hold).moved destination.namesEntry.key
    · exact h.fileNames key f hold
  numbered number hn := by
    simp only [Change.apply] at hn
    exact h.numbered number (moveHandles_ne_none hn)

theorem movedKey_inj {d a b : Text} (ha : a = source ∨ isInside source a = true)
    (hb : b = source ∨ isInside source b = true) (h : movedKey source d a = movedKey source d b) :
    a = b := by
  rcases ha with rfl | ha
  · rcases hb with rfl | hb
    · rfl
    · obtain ⟨r, rfl⟩ := isInside_iff.mp hb
      rw [movedKey_self, movedKey_childKey] at h
      exact absurd h.symm childKey_ne
  · obtain ⟨r, rfl⟩ := isInside_iff.mp ha
    rcases hb with rfl | hb
    · rw [movedKey_self, movedKey_childKey] at h
      exact absurd h childKey_ne
    · obtain ⟨r', rfl⟩ := isInside_iff.mp hb
      rw [movedKey_childKey, movedKey_childKey] at h
      rw [childKey_inj h]

variable {keys : List Text}

/-- The entries of a tree are moved one after the other to a place where nothing is. -/
private theorem foldl_relocate_tree {α : Type} {d : Text} {g : Text → Option α}
    (change : Text → α → α) {T : Text → Prop} (hnodup : keys.Nodup)
    (hkeys : ∀ key, key ∈ keys ↔ g key ≠ none ∧ T key)
    (htree : ∀ key, T key → key = source ∨ isInside source key = true)
    (hfree : ∀ key, T key → g (movedKey source d key) = none) (q : Text) :
    (∀ key, T key → movedKey source d key = q →
      keys.foldl (relocate (movedKey source d) change) g q = (g key).map (change key)) ∧
    ((∀ key, T key → movedKey source d key ≠ q) → (T q → keys.foldl
        (relocate (movedKey source d) change) g q = none) ∧
      (¬T q → keys.foldl (relocate (movedKey source d) change) g q = g q)) := by
  have hin : ∀ key ∈ keys, T key := fun key hkey => ((hkeys key).mp hkey).2
  have hinj : ∀ a ∈ keys, ∀ b, T b → movedKey source d a = movedKey source d b → a = b :=
    fun a ha b hb => movedKey_inj (htree a (hin a ha)) (htree b hb)
  obtain ⟨hmoved, hrest⟩ := foldl_relocate (movedKey source d) change q keys (g := g) hnodup
    (fun a ha b hb => hinj a ha b (hin b hb))
    (fun a ha b hb hab => ((hkeys b).mp hb).1 (hab ▸ hfree a (hin a ha)))
  refine ⟨fun key hT hq => ?_, fun hnot => ⟨fun hT => ?_, fun hT => ?_⟩⟩
  · by_cases hkey : key ∈ keys
    · exact hmoved key hkey hq
    · have hnone : g key = none := not_not.mp fun hne => hkey ((hkeys key).mpr ⟨hne, hT⟩)
      rw [hrest fun k hk hkq => hkey (hinj k hk key hT (hkq.trans hq.symm) ▸ hk), hnone, ← hq,
        hfree key hT, ite_self, Option.map_none]
  · rw [hrest fun k hk => hnot k (hin k hk)]
    by_cases hq : q ∈ keys
    · rw [if_pos hq]
    · rw [if_neg hq]
      exact not_not.mp fun hne => hq ((hkeys q).mpr ⟨hne, hT⟩)
  · rw [hrest fun k hk => hnot k (hin k hk), if_neg fun hq => hT (hin q hq)]

/-- Nothing is at the places that a tree is moved to. -/
theorem moveTree_free_directory (h : n.WellFormed)
    (he : (Change.moveTree source destination).Enabled n)
    (hkey : key = source ∨ isInside source key = true) :
    n.directories (movedKey source destination.1.lookupKey key) = none := by
  rcases hkey with rfl | hkey
  · rw [movedKey_self, he.2.1]
  · obtain ⟨rest, rfl⟩ := isInside_iff.mp hkey
    rw [movedKey_childKey]
    exact not_not.mp fun hne => h.empty_of_absent he.2.1 _ isInside_childKey (.inl hne)

theorem moveTree_free_file (h : n.WellFormed) (he : (Change.moveTree source destination).Enabled n)
    (hkey : isInside source key = true) :
    n.files (movedKey source destination.1.lookupKey key) = none := by
  obtain ⟨rest, rfl⟩ := isInside_iff.mp hkey
  rw [movedKey_childKey]
  exact not_not.mp fun hne => h.empty_of_absent he.2.1 _ isInside_childKey (.inr hne)

/-- The directories of a tree, moved one after the other. -/
theorem moveTree_directories (h : n.WellFormed) (he : (Change.moveTree source destination).Enabled n)
    (hnodup : keys.Nodup) (hkeys : ∀ key, key ∈ keys ↔ n.directories key ≠ none ∧
      (key = source ∨ isInside source key = true)) :
    keys.foldl (relocate (movedKey source destination.1.lookupKey) fun key display =>
      if stripStart source key = [] then destination.1.displayName else display) n.directories =
      ((Change.moveTree source destination).apply n).directories := by
  funext q
  obtain ⟨hmoved, hrest⟩ := foldl_relocate_tree (fun key display =>
    if stripStart source key = [] then destination.1.displayName else display)
    hnodup hkeys (fun _ => id) (fun _ => moveTree_free_directory h he) q
  simp only [Change.apply]
  by_cases hq : q = destination.1.lookupKey
  · rw [hmoved source (.inl rfl) (hq ▸ movedKey_self), if_pos hq]
    simp only [stripStart_self, if_true]
  rw [if_neg hq]
  by_cases hin : isInside destination.1.lookupKey q = true
  · obtain ⟨rest, rfl⟩ := isInside_iff.mp hin
    rw [hmoved (childKey source rest) (.inr isInside_childKey) movedKey_childKey, if_pos hin,
      movedKey_childKey]
    simp only [stripStart_childKey, reduceCtorEq, if_false, Option.map_id']
  · have hnot : ∀ key, key = source ∨ isInside source key = true →
        movedKey source destination.1.lookupKey key ≠ q := by
      rintro key (rfl | hkey) rfl
      · exact hq movedKey_self
      · obtain ⟨rest, rfl⟩ := isInside_iff.mp hkey
        exact hin (by rw [movedKey_childKey]; exact isInside_childKey)
    rw [if_neg hin]
    by_cases htree : q = source ∨ isInside source q = true
    · rw [(hrest hnot).1 htree, if_pos htree]
    · rw [(hrest hnot).2 htree, if_neg htree]

/-- The files of a tree, moved one after the other. -/
theorem moveTree_files (h : n.WellFormed) (he : (Change.moveTree source destination).Enabled n)
    (hnodup : keys.Nodup)
    (hkeys : ∀ key, key ∈ keys ↔ n.files key ≠ none ∧ isInside source key = true) :
    keys.foldl (relocate (movedKey source destination.1.lookupKey) fun _ f => f) n.files =
      ((Change.moveTree source destination).apply n).files := by
  funext q
  obtain ⟨hmoved, hrest⟩ := foldl_relocate_tree (fun _ f => f) hnodup hkeys (fun _ => .inr)
    (fun _ => moveTree_free_file h he) q
  simp only [Change.apply]
  by_cases hin : isInside destination.1.lookupKey q = true
  · obtain ⟨rest, rfl⟩ := isInside_iff.mp hin
    rw [hmoved (childKey source rest) isInside_childKey movedKey_childKey, if_pos hin,
      movedKey_childKey, Option.map_id']
  · have hnot : ∀ key, isInside source key = true →
        movedKey source destination.1.lookupKey key ≠ q := by
      rintro key hkey rfl
      obtain ⟨rest, rfl⟩ := isInside_iff.mp hkey
      exact hin (by rw [movedKey_childKey]; exact isInside_childKey)
    rw [if_neg hin]
    by_cases htree : isInside source q = true
    · rw [(hrest hnot).1 htree, if_pos htree]
    · rw [(hrest hnot).2 htree, if_neg htree]

end MoveTree

/-- The changes keep the tree. -/
theorem WellFormed.apply (h : n.WellFormed) (he : ch.Enabled n) : (ch.apply n).WellFormed := by
  cases ch with
  | stay => exact h
  | makeDirectory path => exact h.makeDirectory he
  | makeFile path number file =>
    refine h.of_files rfl (fun key f hf => ?_) h.numbered
    by_cases hkey : key = path.1.lookupKey
    · subst hkey
      simp only [Change.apply, update_self, Option.some.injEq] at hf
      exact .inr ⟨he.2.1, hf ▸ path.namesEntry⟩
    · simp only [Change.apply, update_of_ne hkey] at hf
      exact .inl ⟨f, hf, rfl⟩
  | dropDirectory key => exact h.dropDirectory he
  | dropFile directory =>
    refine h.of_files rfl (fun key f hf => ?_) h.numbered
    by_cases hkey : key = directory
    · simp [Change.apply, hkey] at hf
    · simp only [Change.apply, update_of_ne hkey] at hf
      exact .inl ⟨f, hf, rfl⟩
  | moveFile source destination =>
    refine h.of_files rfl (fun key f hf => ?_) fun number hn => ?_
    · by_cases hkey : key = destination.1.lookupKey
      · subst hkey
        simp only [Change.apply, update_self, Option.map_eq_some_iff] at hf
        obtain ⟨f₀, -, rfl⟩ := hf
        exact .inr ⟨he.2.2, destination.namesEntry⟩
      · simp only [Change.apply, update_of_ne hkey] at hf
        by_cases hsource : key = source
        · simp [hsource] at hf
        · rw [update_of_ne hsource] at hf
          exact .inl ⟨f, hf, rfl⟩
    · simp only [Change.apply] at hn
      exact h.numbered number (moveHandles_ne_none hn)
  | moveTree source destination => exact h.moveTree he
  | markPending directory =>
    refine h.of_files rfl (fun key f hf => ?_) h.numbered
    by_cases hkey : key = directory
    · subst hkey
      simp only [Change.apply, update_self, Option.map_eq_some_iff] at hf
      obtain ⟨f₀, hf₀, rfl⟩ := hf
      exact .inl ⟨f₀, hf₀, rfl⟩
    · simp only [Change.apply, update_of_ne hkey] at hf
      exact .inl ⟨f, hf, rfl⟩
  | openHandle key allowDelete =>
    refine h.of_files rfl (fun key f hf => .inl ⟨f, hf, rfl⟩) fun number hn => ?_
    change number < n.nextHandle + 1
    by_cases hnum : number = n.nextHandle
    · omega
    · simp only [Change.apply, update_of_ne hnum] at hn
      exact (h.numbered number hn).trans (Nat.lt_succ_self _)
  | closeHandle closed =>
    refine h.of_files rfl (fun key f hf => .inl ⟨f, hf, rfl⟩) fun number hn => ?_
    by_cases hnum : number = closed
    · simp [Change.apply, hnum] at hn
    · simp only [Change.apply, update_of_ne hnum] at hn
      exact h.numbered number hn

/-- What is left of the names when the store is opened again: files that were about to be deleted
are gone, and there are no handles. -/
def reloaded (n : Names) (nextHandle : ℕ) : Names where
  directories := n.directories
  files key := (n.files key).filter (!·.deletePending)
  handles _ := none
  nextHandle := nextHandle

/-- The names without the handles. -/
def closed (n : Names) : Names where
  directories := n.directories
  files := n.files
  handles _ := none
  nextHandle := 0

theorem WellFormed.closed (h : n.WellFormed) : n.closed.WellFormed :=
  h.of_files rfl (fun _ f hf => .inl ⟨f, hf, rfl⟩) fun _ hn => absurd rfl hn

theorem WellFormed.reloaded (h : n.WellFormed) {nextHandle : ℕ} :
    (n.reloaded nextHandle).WellFormed :=
  h.of_files rfl (fun _ f hf => .inl ⟨f, (Option.filter_eq_some_iff.mp hf).1, rfl⟩)
    fun _ hn => absurd rfl hn

end Names

end Wdlp
