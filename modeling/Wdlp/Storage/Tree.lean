import Wdlp.Storage.NamesRun

/-!
# The namespace is a tree

At every moment of every run, each entry of an open store lies in a directory that is there, its
key ends with its display name in lower case, and a listing shows the entries of a directory and
nothing else, in order.

## Main definitions

* `Store.childrenOf` — the display names of what lies in a directory.

## Main results

* `directChild_iff`, `directChild_root_iff` — what a listing takes for an entry of the directory.
* `readDirectory_of_wellFormed` — a listing.
* `namespace_tree` — the tree over whole runs.
-/

namespace Wdlp

open CrashSafe

variable {P : Primitives} {keys : StoreId → StoreKey}

/-! ### Listings -/

/-- The key of the directory at a path; the root has none. -/
def VirtualPath.directoryKey (path : VirtualPath) : Option Text :=
  if path.lookupKey = [] then none else some path.lookupKey

/-- The display names of the directories and of the files that are not about to be deleted whose
parent is the directory at the path. -/
def Store.childrenOf (store : Store) (path : VirtualPath) : List Text :=
  (store.directories.toList.filter fun entry => decide (parentKey entry.1 = path.directoryKey)).map
      (·.2.display) ++
    (store.files.toList.filter fun entry =>
      !entry.2.deletePending && decide (parentKey entry.1 = path.directoryKey)).map (·.2.display)

section Listing

variable {key directory : Text} {store : Store} {path : VirtualPath} {nextHandle : ℕ}

theorem directChild_iff (h : baseName key ≠ []) :
    directChild key (directory ++ ['/']) = true ↔ parentKey key = some directory := by
  simp only [directChild, Bool.and_eq_true, decide_eq_true_eq]
  constructor
  · rintro ⟨⟨hstarts, -⟩, hslash⟩
    obtain ⟨rest, rfl⟩ := List.isPrefixOf_iff_prefix.mp hstarts
    rw [List.drop_left] at hslash
    rw [List.append_assoc, List.singleton_append, show directory ++ '/' :: rest =
      childKey directory rest from rfl, parentKey_childKey, parentKey_eq_none.mpr hslash]
  · intro hparent
    have hkey : key = (directory ++ ['/']) ++ baseName key := by
      rw [List.append_assoc, List.singleton_append]
      exact eq_childKey_of_parentKey hparent
    have hdrop : key.drop (directory ++ ['/']).length = baseName key := by
      conv_lhs => rw [hkey]
      exact List.drop_left
    refine ⟨⟨List.isPrefixOf_iff_prefix.mpr ⟨_, hkey.symm⟩, ?_⟩, ?_⟩
    · rw [hdrop]
      exact h
    · rw [hdrop]
      exact baseName_no_slash key

theorem directChild_root_iff (h : key ≠ []) : directChild key [] = true ↔ parentKey key = none := by
  rw [parentKey_eq_none]
  simp [directChild, h]

/-- What a listing takes for an entry of the directory is one. -/
theorem directChild_eq {display : Text} (h : NamesEntry key display) :
    directChild key (if path.lookupKey = [] then [] else path.lookupKey ++ ['/']) =
      decide (parentKey key = path.directoryKey) := by
  rw [Bool.eq_iff_iff, decide_eq_true_iff, VirtualPath.directoryKey]
  split
  · exact directChild_root_iff h.key.1
  · refine directChild_iff ?_
    rw [h.base, ne_eq, asciiLower_eq_nil]
    exact h.display.1

theorem childNames_of_wellFormed (h : (store.names nextHandle).WellFormed) : store.childNames
    (if path.lookupKey = [] then [] else path.lookupKey ++ ['/']) = store.childrenOf path := by
  have hdirectories : ∀ entry ∈ store.directories.toList, NamesEntry entry.1 entry.2.display :=
    fun entry hentry => h.directoryNames entry.1 entry.2.display (congrArg (Option.map _)
      (Std.ExtTreeMap.mem_toList_iff_getElem?_eq_some.mp hentry))
  have hfiles : ∀ entry ∈ store.files.toList, NamesEntry entry.1 entry.2.display :=
    fun entry hentry => h.fileNames entry.1 entry.2.name (congrArg (Option.map _)
      (Std.ExtTreeMap.mem_toList_iff_getElem?_eq_some.mp hentry))
  unfold Store.childNames Store.childrenOf
  refine congr (congrArg _ (congrArg _ (List.filter_congr fun entry hentry => ?_)))
    (congrArg _ (List.filter_congr fun entry hentry => ?_))
  · exact directChild_eq (hdirectories entry hentry)
  · rw [directChild_eq (hfiles entry hentry)]

theorem nameLe_trans (a b c : Text) (hab : nameLe a b = true) (hbc : nameLe b c = true) :
    nameLe a c = true := Std.TransCmp.isLE_trans hab hbc

theorem nameLe_total (a b : Text) : (nameLe a b || nameLe b a) = true := by
  have hswap : compare (asciiLower b) (asciiLower a) =
      (compare (asciiLower a) (asciiLower b)).swap := Std.OrientedCmp.eq_swap
  unfold nameLe
  rw [hswap]
  cases compare (asciiLower a) (asciiLower b) <;> rfl

/-- A listing shows the entries of the directory and nothing else, in order. -/
theorem readDirectory_of_wellFormed (h : (store.names nextHandle).WellFormed)
    (hdir : store.isDirectory path = true) : ∃ names, store.readDirectory path = .ok
    names ∧ names.Perm (store.childrenOf path) ∧ names.Pairwise fun a b => nameLe a b = true := by
  refine ⟨(store.childrenOf path).mergeSort nameLe, ?_, List.mergeSort_perm _ _,
    List.pairwise_mergeSort nameLe_trans nameLe_total _⟩
  have hcheck : (failIf (store.isDirectory path = false) StorageError.notFound :
      Except StorageError Unit) = .ok () := except_failIf_eq_ok.mpr (by simp [hdir])
  rw [Store.readDirectory, hcheck]
  exact congrArg (fun names => Except.ok (names.mergeSort nameLe)) (childNames_of_wellFormed h)

end Listing

/-! ### Runs -/

theorem wellFormed_invariant : NamesInvariant (fun _ _ => True) fun _ _ n => n.WellFormed where
  wellFormed h := h
  grows h _ := h
  changes h _ he := h.apply he
  closes h := h.closed
  reloads _ h := h.reloaded
  blank _ _ := Names.blank_wellFormed

/-- At every moment of every run, the namespace of an open store is a tree, and its listings show
it. -/
theorem namespace_tree (hP : P.Correct) {w₀ : World} (hfresh : w₀.Fresh) {inputs : List Input}
    (hkeyed : ∀ i ∈ inputs, i.Keyed keys) {store : Store} (hopened : (w₀.run P inputs).phase = .opened)
    (hstore : store = (w₀.run P inputs).sys.store) :
    (∀ key, key ∈ store.directories ∨ key ∈ store.files → '/' ∈ key →
      ∃ parent, parentKey key = some parent ∧ parent ∈ store.directories) ∧
    (∀ key entry, store.directories[key]? = some entry → baseName key = asciiLower entry.display) ∧
    (∀ key entry, store.files[key]? = some entry → baseName key = asciiLower entry.display) ∧
    ∀ path, store.isDirectory path = true → ∃ names, store.readDirectory path = .ok names ∧
      names.Perm (store.childrenOf path) ∧ names.Pairwise fun a b => nameLe a b = true := by
  have hwf : (store.names (w₀.run P inputs).sys.counters.nextHandle).WellFormed := by
    rw [hstore]
    exact ((World.holds_run hP wellFormed_invariant hfresh hkeyed).live hopened).names
  refine ⟨fun key hkey hslash => ?_, fun key entry hentry => ?_, fun key entry hentry => ?_,
    fun path hdir => readDirectory_of_wellFormed hwf hdir⟩
  · obtain ⟨parent, hparent⟩ := Option.ne_none_iff_exists'.mp
      fun hnone => parentKey_eq_none.mp hnone hslash
    exact ⟨parent, hparent, mem_directories.mpr
      (hwf.parents key (hkey.imp mem_directories.mp mem_files.mp) parent hparent)⟩
  · exact (hwf.directoryNames key entry.display (congrArg (Option.map _) hentry)).base
  · exact (hwf.fileNames key entry.name (congrArg (Option.map _) hentry)).base

/-- A store in which a directory and a file in it were created, after persisting had failed once. -/
def treeStore : Store :=
  ((World.empty [.ok, .fail .other 0]).run .plain (soleOpening ++ [.createDirectory solePath,
    .createDirectory solePath, .createOrOpen innerPath true true].map .call)).sys.store

theorem namespace_tree_treeStore :
    (∀ key, key ∈ treeStore.directories ∨ key ∈ treeStore.files → '/' ∈ key →
      ∃ parent, parentKey key = some parent ∧ parent ∈ treeStore.directories) ∧
    (∀ key entry, treeStore.directories[key]? = some entry →
      baseName key = asciiLower entry.display) ∧
    (∀ key entry, treeStore.files[key]? = some entry → baseName key = asciiLower entry.display) ∧
    ∀ path, treeStore.isDirectory path = true → ∃ names, treeStore.readDirectory path = .ok names ∧
      names.Perm (treeStore.childrenOf path) ∧ names.Pairwise fun a b => nameLe a b = true :=
  namespace_tree Primitives.plain_correct World.empty_fresh soleOpening_keyed (by decide +kernel) rfl

example : treeStore.readDirectory solePath.1 = .ok [['F']] := by decide +kernel

end Wdlp
