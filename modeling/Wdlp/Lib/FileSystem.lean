import Wdlp.Lib.Act
import Wdlp.Lib.Map

/-!
# A file system whose steps can fail or be cut off

A file system (`Fs`) is a finite map from paths to directories and files, a path being the list of
its components below a root that is always a directory. The steps a program can take on it are
values of `FsOp`; `FsOp.effect` is the effect of a completed step and `FsOp.interrupted` what a step
leaves that failed or was cut off in the middle: nothing, its full effect, or, where bytes are
written, copied or appended, any prefix of them.

A `Disk` is a file system with the fate of the steps to come: each step completes, fails, or is
the one at which the process is cut off (`Disk.perform`).

## Main definitions

* `Path`, `Node`, `Fs` — file systems; `Fs.read?`, `Fs.isDir`, `Fs.readDir` query them; in a closed
  one (`Fs.Closed`) everything is in a directory.
* `FsOp`, `FsOp.effect`, `FsOp.interrupted`, `FsOp.Leaves` — steps and what they leave behind;
  `FsOp.Touches` — the paths they can change.
* `Fs.Fits`, `FsOp.Suits` — layouts, which say what each path can be.
* `Fate`, `Disk`, `Disk.perform`, `Disk.performAtomic`, `Disk.pathExists`, `Disk.readFile`,
  `Disk.listDir` — steps on a disk.

## Main results

* `FsOp.Leaves.get_eq` — a step, completed or not, changes only paths it touches.
* `Fs.Fits.leaves` — a step, completed or not, keeps a layout that it suits.
* `Disk.perform_cases` — everything a step on a disk can do.
-/

namespace CrashSafe

/-- A string, as the list of its characters. -/
abbrev Text := List Char

/-- A string of bytes. -/
abbrev Bytes := List UInt8

/-- A path, as the list of its components below the root. -/
abbrev Path := List Text

instance : LawfulBEq Text := inferInstance

instance : LawfulBEq Bytes := inferInstance

instance : Std.TransOrd Text := inferInstance

instance : Std.TransOrd Path := inferInstance

/-- A directory, or a file with its bytes; `synced` tells whether they were flushed to the device
after the last write. -/
inductive Node where
  | dir
  | file (bytes : Bytes) (synced : Bool)
  deriving DecidableEq

/-- A file system: the nodes below the root. -/
abbrev Fs := Map Path Node

namespace Fs

variable (fs : Fs) (p q : Path)

/-- The path is a directory; the root always is. -/
def isDir : Bool := decide (p = []) || decide (fs[p]? = some .dir)

/-- Something is at the path. -/
def present : Bool := decide (p = []) || fs[p]?.isSome

/-- The bytes of a file. -/
def read? : Option Bytes :=
  match fs[p]? with
  | some (.file bytes _) => some bytes
  | _ => none

/-- The names in a directory. -/
def readDir : List Text :=
  fs.keys.filterMap fun q => if q ≠ [] ∧ q.dropLast = p then q.getLast? else none

/-- The directories a path lies in, and the path itself, without the root. -/
def ancestors : List Path := p.inits.filter (· ≠ [])

/-- The paths of a file system inside a directory, the directory itself among them. -/
def under : List Path := fs.keys.filter (p.isPrefixOf ·)

/-- The file system without some of its paths. -/
def eraseAll (ps : List Path) : Fs := ps.foldl (fun fs p => fs.erase p) fs

/-- The file system with a directory at each of the given paths. -/
def insertDirs (ps : List Path) : Fs := ps.foldl (fun fs p => fs.insert p .dir) fs

variable {fs p q}

theorem get_eraseAll (ps : List Path) : (fs.eraseAll ps)[q]? = if q ∈ ps then none else fs[q]? := by
  unfold eraseAll
  induction ps generalizing fs with
  | nil => simp
  | cons a ps ih =>
    rw [List.foldl_cons, ih, Map.get_erase]
    by_cases h : q ∈ ps
    · simp [h]
    · by_cases ha : a = q
      · simp [ha]
      · simp [h, ha, Ne.symm ha]

theorem get_insertDirs (ps : List Path) :
    (fs.insertDirs ps)[q]? = if q ∈ ps then some .dir else fs[q]? := by
  unfold insertDirs
  induction ps generalizing fs with
  | nil => simp
  | cons a ps ih =>
    rw [List.foldl_cons, ih, Map.get_insert]
    by_cases h : q ∈ ps
    · simp [h]
    · by_cases ha : a = q
      · simp [ha]
      · simp [h, ha, Ne.symm ha]

theorem mem_ancestors : q ∈ ancestors p ↔ q ≠ [] ∧ q <+: p := by
  simp [ancestors, and_comm]

theorem mem_under : q ∈ fs.under p ↔ p <+: q ∧ fs[q]?.isSome := by
  simp [under, and_comm]

theorem mem_readDir {n : Text} : n ∈ fs.readDir p ↔ fs[p ++ [n]]?.isSome := by
  simp only [readDir, List.mem_filterMap, Std.ExtTreeMap.mem_keys]
  constructor
  · rintro ⟨q, hq, h⟩
    split_ifs at h with hp
    obtain ⟨hne, rfl⟩ := hp
    rw [List.dropLast_append_getLast? n h]
    simpa using hq
  · intro h
    refine ⟨p ++ [n], by simpa using h, ?_⟩
    simp

variable {fs' : Fs}

/-- The names in a directory, in the order in which they are listed, depend on what is there
only. -/
theorem readDir_congr (h : ∀ n, fs'[p ++ [n]]?.isSome = fs[p ++ [n]]?.isSome) :
    fs'.readDir p = fs.readDir p := by
  have hfilter : ∀ fs : Fs, fs.readDir p =
      (fs.keys.filter fun q => q ≠ [] ∧ q.dropLast = p).filterMap List.getLast? := by
    intro fs
    rw [List.filterMap_filter]
    simp [readDir]
  have hmem : ∀ (fs : Fs) (q : Path), (q ∈ fs.keys.filter fun q => q ≠ [] ∧ q.dropLast = p) ↔
      ∃ n, q = p ++ [n] ∧ fs[p ++ [n]]?.isSome = true := by
    intro fs q
    simp only [List.mem_filter, Std.ExtTreeMap.mem_keys, decide_eq_true_eq]
    constructor
    · rintro ⟨hq, hne, rfl⟩
      have hlast := List.dropLast_append_getLast hne
      exact ⟨q.getLast hne, hlast.symm, by rw [hlast]; simpa using hq⟩
    · rintro ⟨n, rfl, hsome⟩
      exact ⟨by simpa using hsome, by simp, by simp⟩
  -- the paths of the entries are sorted, and they are the same
  have hsorted : ∀ fs : Fs, (fs.keys.filter fun q => q ≠ [] ∧ q.dropLast = p).Pairwise
      fun a b => compare a b = .lt := fun fs => Std.ExtTreeMap.ordered_keys.filter _
  rw [hfilter, hfilter]
  refine congrArg _ (List.Perm.eq_of_pairwise ?_ (hsorted fs') (hsorted fs) ?_)
  · intro a b _ _ hab hba
    cases (Std.OrientedCmp.gt_of_lt hab).symm.trans hba
  · refine (List.perm_ext_iff_of_nodup (Map.nodup_keys.filter _) (Map.nodup_keys.filter _)).mpr ?_
    intro q
    rw [hmem, hmem]
    simp only [h]

/-- A directory lists each of its names once. -/
theorem nodup_readDir : (fs.readDir p).Nodup := by
  refine List.Nodup.filterMap (fun a b c ha hb => ?_) Map.nodup_keys
  simp only [Option.mem_def] at ha hb
  split_ifs at ha hb with h₁ h₂
  rw [← List.dropLast_append_getLast? c ha, ← List.dropLast_append_getLast? c hb, h₁.2, h₂.2]

theorem read?_eq_some {b : Bytes} : fs.read? p = some b ↔ ∃ y, fs[p]? = some (.file b y) := by
  unfold read?
  split
  · next c y h => simp [h]
  · next h =>
    simp only [reduceCtorEq, false_iff, not_exists]
    exact fun y hy => h b y hy

theorem read?_congr (h : fs'[p]? = fs[p]?) : fs'.read? p = fs.read? p := by
  simp only [read?, h]

theorem present_eq (hp : p ≠ []) : fs.present p = fs[p]?.isSome := by
  simp only [present, hp, decide_false, Bool.false_or]

theorem isDir_congr (h : fs'[p]? = fs[p]?) : fs'.isDir p = fs.isDir p := by
  simp only [isDir, h]

theorem isSome_of_isDir (hp : p ≠ []) (h : fs.isDir p = true) : fs[p]?.isSome = true := by
  simp only [isDir, hp, decide_false, Bool.false_or, decide_eq_true_eq] at h
  rw [h]
  rfl

theorem not_isDir_of_read? {b : Bytes} (hp : p ≠ []) (h : fs.read? p = some b) :
    ¬fs.isDir p = true := by
  obtain ⟨synced, hnode⟩ := read?_eq_some.mp h
  simp [isDir, hnode, hp]

theorem isDir_insertDirs {ps : List Path} (h : p ∈ ps ∨ fs.isDir p = true) :
    (fs.insertDirs ps).isDir p = true := by
  by_cases hp : p ∈ ps
  · simp [isDir, get_insertDirs, hp]
  · exact (isDir_congr ((get_insertDirs ..).trans (if_neg hp))).trans (h.resolve_left hp)

/-- Everything is in directories that are there. -/
def Closed (fs : Fs) : Prop := ∀ q ∈ fs.keys, ∀ p ∈ q.inits, p ≠ q → fs.isDir p = true

instance (fs : Fs) : Decidable fs.Closed := inferInstanceAs (Decidable (∀ q ∈ fs.keys, _))

theorem Closed.isDir (h : fs.Closed) (hq : fs[q]?.isSome = true) (hp : p <+: q) (hne : p ≠ q) :
    fs.isDir p = true :=
  h q (by simpa using hq) p (by simpa using hp) hne

/-- Everything below a path is in directories that are there. -/
def ClosedBelow (fs : Fs) (d : Path) : Prop :=
  ∀ p q, d <+: p → p <+: q → p ≠ q → fs[q]?.isSome = true → fs.isDir p = true

theorem Closed.below (h : fs.Closed) (d : Path) : fs.ClosedBelow d :=
  fun _ _ _ hp hne hq => h.isDir hq hp hne

namespace ClosedBelow

variable {d : Path}

theorem congr {fs' : Fs} (h : fs.ClosedBelow d) (hsame : ∀ q, d <+: q → fs'[q]? = fs[q]?) :
    fs'.ClosedBelow d := by
  intro p q hp hq hne hsome
  rw [isDir_congr (hsame p hp)]
  exact h p q hp hq hne (hsame q (hp.trans hq) ▸ hsome)

theorem mono (h : fs.ClosedBelow d) (hp : d <+: p) : fs.ClosedBelow p :=
  fun p' q hp' => h p' q (hp.trans hp')

/-- Paths are removed, but none without those below it. -/
theorem eraseAll (h : fs.ClosedBelow d) {ps : List Path}
    (hps : ∀ p q, p <+: q → fs[q]?.isSome = true → p ∈ ps → q ∈ ps) :
    (fs.eraseAll ps).ClosedBelow d := by
  intro p q hp hq hne hsome
  rw [get_eraseAll] at hsome
  split_ifs at hsome with hmem
  · cases hsome
  · have hsame : (fs.eraseAll ps)[p]? = fs[p]? :=
      (get_eraseAll ps).trans (if_neg fun hmem' => hmem (hps p q hq hsome hmem'))
    exact (isDir_congr hsame).trans (h p q hp hq hne hsome)

end ClosedBelow

/-- A path comes before those below it. -/
theorem compare_lt_extension {p q : Path} (h : p <+: q) (hne : p ≠ q) : compare p q = .lt := by
  obtain ⟨rest, rfl⟩ := h
  induction p with
  | nil =>
    cases rest with
    | nil => exact absurd rfl hne
    | cons a rest => rfl
  | cons a p ih =>
    have hcons : compare (a :: p) (a :: (p ++ rest)) = (compare a a).then (compare p (p ++ rest)) :=
      List.compareLex_cons_cons
    refine hcons.trans ?_
    rw [ih fun heq => hne (congrArg (a :: ·) heq)]
    simp

/-- A directory that was removed in part is still closed: what is deepest goes first. -/
theorem ClosedBelow.removing {d : Path} (h : fs.ClosedBelow d) (n : ℕ) :
    (fs.eraseAll ((fs.under p).reverse.take n)).ClosedBelow d := by
  refine h.eraseAll fun a b hab hb ha => ?_
  by_cases heq : a = b
  · exact heq ▸ ha
  have hsorted : (fs.under p).Pairwise fun a b => compare a b = .lt :=
    Std.ExtTreeMap.ordered_keys.filter _
  have hmem : b ∈ fs.under p :=
    mem_under.mpr ⟨(mem_under.mp (List.mem_reverse.mp (List.mem_of_mem_take ha))).1.trans hab, hb⟩
  -- otherwise `b` would be among the first ones, which come before `a`
  rw [List.take_reverse, List.mem_reverse] at ha ⊢
  rw [← List.take_append_drop ((fs.under p).length - n) (fs.under p), List.mem_append] at hmem
  rcases hmem with hmem | hmem
  · rw [← List.take_append_drop ((fs.under p).length - n) (fs.under p)] at hsorted
    have hba := (List.pairwise_append.mp hsorted).2.2 b hmem a ha
    cases (Std.OrientedCmp.gt_of_lt hba).symm.trans (compare_lt_extension hab heq)
  · exact hmem

theorem ClosedBelow.removed {d : Path} (h : fs.ClosedBelow d) :
    (fs.eraseAll (fs.under p)).ClosedBelow d :=
  h.eraseAll fun _ _ hab hb ha => mem_under.mpr ⟨(mem_under.mp ha).1.trans hab, hb⟩

/-- There is not more below a path when nothing was added. -/
theorem length_under_le (h : ∀ q, p <+: q → fs'[q]?.isSome = true → fs[q]?.isSome = true) :
    (fs'.under p).length ≤ (fs.under p).length := by
  have hnodup : (fs'.under p).Nodup := Map.nodup_keys.filter _
  refine (hnodup.subperm fun q hq => ?_).length_le
  obtain ⟨hp, hsome⟩ := mem_under.mp hq
  exact mem_under.mpr ⟨hp, h q hp hsome⟩

/-- What is below the entries of a directory is below the directory. -/
theorem sum_length_under_le {names : List Text} (hnames : names.Nodup) :
    (names.map fun name => (fs.under (p ++ [name])).length).sum ≤ (fs.under p).length := by
  have hnodup : (names.flatMap fun name => fs.under (p ++ [name])).Nodup := by
    refine List.nodup_flatMap.mpr ⟨fun _ _ => Map.nodup_keys.filter _, ?_⟩
    refine hnames.imp fun {a b} hab q ha hb => hab ?_
    have hpre := (mem_under.mp ha).1
    have hpre' := (mem_under.mp hb).1
    have heq := List.prefix_of_prefix_length_le hpre hpre' (by simp)
    exact List.singleton_inj.mp (List.append_cancel_left (heq.eq_of_length (by simp)))
  rw [← List.length_flatMap]
  refine (hnodup.subperm fun q hq => ?_).length_le
  obtain ⟨name, -, hq⟩ := List.mem_flatMap.mp hq
  obtain ⟨hpre, hsome⟩ := mem_under.mp hq
  exact mem_under.mpr ⟨List.IsPrefix.trans ⟨[name], rfl⟩ hpre, hsome⟩

/-- What survives when the writes that were not synced are lost. -/
def synced (fs : Fs) : Fs := fs.filter fun _ node =>
  match node with
  | .dir => true
  | .file _ synced => synced

theorem get_synced : fs.synced[p]? = fs[p]?.filter fun node =>
    match node with
    | .dir => true
    | .file _ synced => synced :=
  Std.ExtTreeMap.getElem?_filter'

theorem synced_congr (h : fs'[p]? = fs[p]?) : fs'.synced[p]? = fs.synced[p]? := by
  rw [get_synced, get_synced, h]

theorem read?_synced {bytes : Bytes} :
    fs.synced.read? p = some bytes ↔ fs[p]? = some (.file bytes true) := by
  rw [read?_eq_some, get_synced]
  simp only [Option.filter_eq_some_iff]
  constructor
  · rintro ⟨y, hnode, rfl⟩
    exact hnode
  · exact fun hnode => ⟨true, hnode, rfl⟩

end Fs

/-! ### Steps -/

/-- The kinds of input/output errors that a caller tells apart. -/
inductive IoErrorKind where
  | notFound
  | alreadyExists
  | writeZero
  | storageFull
  | other
  deriving DecidableEq, Repr

/-- One step on a file system. -/
inductive FsOp where
  | createDirAll (path : Path)
  | createDir (path : Path)
  | create (path : Path)
  | openAppend (path : Path)
  | write (path : Path) (bytes : Bytes)
  | sync (path : Path)
  | copy (source target : Path)
  | removeFile (path : Path)
  | removeDirAll (path : Path)
  | rename (source target : Path)
  deriving DecidableEq

namespace FsOp

/-- A file can be put at `p`: its directory is there, and `p` is not a directory. -/
def Placeable (fs : Fs) (p : Path) : Prop := fs.isDir p.dropLast = true ∧ fs.isDir p = false

instance (fs : Fs) (p : Path) : Decidable (Placeable fs p) := inferInstanceAs (Decidable (_ ∧ _))

/-- The effect of a completed step. -/
def effect (op : FsOp) (fs : Fs) : Except IoErrorKind Fs :=
  match op with
  | createDirAll p =>
    if (Fs.ancestors p).any (fun q => (fs.read? q).isSome) then .error .other
    else .ok (fs.insertDirs (Fs.ancestors p))
  | createDir p =>
    if fs.present p then .error .alreadyExists
    else if fs.isDir p.dropLast then .ok (fs.insert p .dir)
    else .error .notFound
  | create p =>
    if Placeable fs p then .ok (fs.insert p (.file [] false)) else .error .notFound
  | openAppend p =>
    match fs.read? p with
    | some _ => .ok fs
    | none => if Placeable fs p then .ok (fs.insert p (.file [] false)) else .error .notFound
  | write p bytes =>
    match fs.read? p with
    | some old => .ok (fs.insert p (.file (old ++ bytes) false))
    | none => .error .notFound
  | sync p =>
    match fs.read? p with
    | some bytes => .ok (fs.insert p (.file bytes true))
    | none => .error .notFound
  | copy p q =>
    match fs.read? p with
    | some bytes =>
      if Placeable fs q then .ok (fs.insert q (.file bytes false)) else .error .notFound
    | none => .error .notFound
  | removeFile p =>
    match fs.read? p with
    | some _ => .ok (fs.erase p)
    | none => .error .notFound
  | removeDirAll p =>
    if fs.isDir p then .ok (fs.eraseAll (fs.under p)) else .error .notFound
  | rename p q =>
    match fs[p]? with
    | some (.file bytes synced) =>
      if Placeable fs q then .ok ((fs.erase p).insert q (.file bytes synced))
      else .error .notFound
    | _ => .error .notFound

/-- What a step leaves that did not complete, `progress` saying how far it came. -/
def interrupted (op : FsOp) (progress : Nat) (fs : Fs) : Fs :=
  match op, progress with
  | write p bytes, n => ((write p (bytes.take n)).effect fs).toOption.getD fs
  | copy _ _, 0 => fs
  | copy p q, n + 1 =>
    match fs.read? p, (copy p q).effect fs with
    | some bytes, .ok _ => fs.insert q (.file (bytes.take n) false)
    | _, _ => fs
  | removeDirAll p, n => fs.eraseAll ((fs.under p).reverse.take n)
  | _, 0 => fs
  | op, _ + 1 => (op.effect fs).toOption.getD fs

/-- The paths a step can change. -/
def Touches (op : FsOp) (q : Path) : Prop :=
  match op with
  | createDirAll p => q ≠ [] ∧ q <+: p
  | createDir p => q = p
  | create p => q = p
  | openAppend p => q = p
  | write p _ => q = p
  | sync p => q = p
  | copy _ t => q = t
  | removeFile p => q = p
  | removeDirAll p => p <+: q
  | rename p t => q = p ∨ q = t

section Effect

variable {fs fs' : Fs} {p q : Path} {bytes : Bytes}

theorem effect_createDirAll : (createDirAll p).effect fs = .ok fs' ↔
    (∀ q, q ≠ [] → q <+: p → fs.read? q = none) ∧ fs' = fs.insertDirs (Fs.ancestors p) := by
  have hany : (Fs.ancestors p).any (fun q => (fs.read? q).isSome) = true ↔
      ¬∀ q, q ≠ [] → q <+: p → fs.read? q = none := by
    simp only [List.any_eq_true, Fs.mem_ancestors, Option.isSome_iff_ne_none, and_assoc]
    push Not
    rfl
  simp only [effect]
  split_ifs with h
  · simp [hany.mp h]
  · have hnone := not_not.mp (mt hany.mpr h)
    exact ⟨fun he => ⟨hnone, (Except.ok.inj he).symm⟩, fun he => congrArg _ he.2.symm⟩

theorem effect_createDir : (createDir p).effect fs = .ok fs' ↔
    fs.present p = false ∧ fs.isDir p.dropLast = true ∧ fs' = fs.insert p .dir := by
  simp only [effect]
  split_ifs with hp hd
  · simp [hp]
  · simp [hp, hd, eq_comm]
  · simp [hd]

theorem effect_create : (create p).effect fs = .ok fs' ↔
    Placeable fs p ∧ fs' = fs.insert p (.file [] false) := by
  simp only [effect]
  split_ifs with h <;> simp [h, eq_comm]

theorem effect_openAppend : (openAppend p).effect fs = .ok fs' ↔ (fs.read? p ≠ none ∧ fs' = fs) ∨
    (fs.read? p = none ∧ Placeable fs p ∧ fs' = fs.insert p (.file [] false)) := by
  simp only [effect]
  cases fs.read? p with
  | some old => simp [eq_comm]
  | none => split_ifs with h <;> simp [h, eq_comm]

theorem effect_write : (write p bytes).effect fs = .ok fs' ↔
    ∃ old, fs.read? p = some old ∧ fs' = fs.insert p (.file (old ++ bytes) false) := by
  simp only [effect]
  cases fs.read? p <;> simp [eq_comm]

theorem effect_sync : (sync p).effect fs = .ok fs' ↔
    ∃ old, fs.read? p = some old ∧ fs' = fs.insert p (.file old true) := by
  simp only [effect]
  cases fs.read? p <;> simp [eq_comm]

theorem effect_copy : (copy p q).effect fs = .ok fs' ↔
    ∃ old, fs.read? p = some old ∧ Placeable fs q ∧ fs' = fs.insert q (.file old false) := by
  simp only [effect]
  cases fs.read? p with
  | none => simp
  | some old => simp only; split_ifs with h <;> simp [h, eq_comm]

theorem effect_removeFile : (removeFile p).effect fs = .ok fs' ↔
    fs.read? p ≠ none ∧ fs' = fs.erase p := by
  simp only [effect]
  cases fs.read? p <;> simp [eq_comm]

theorem effect_removeDirAll : (removeDirAll p).effect fs = .ok fs' ↔
    fs.isDir p = true ∧ fs' = fs.eraseAll (fs.under p) := by
  simp only [effect]
  split_ifs with h <;> simp [h, eq_comm]

theorem effect_rename : (rename p q).effect fs = .ok fs' ↔ ∃ old synced, fs[p]? = some
    (.file old synced) ∧ Placeable fs q ∧ fs' = (fs.erase p).insert q (.file old synced) := by
  simp only [effect]
  split
  · next old synced h =>
    split_ifs with hq
    · refine ⟨fun he => ⟨old, synced, h, hq, (Except.ok.inj he).symm⟩, ?_⟩
      rintro ⟨old', synced', h', -, rfl⟩
      cases h.symm.trans h'
      rfl
    · simp [hq]
  · next h =>
    simp only [reduceCtorEq, false_iff, not_exists, not_and]
    exact fun old synced hp => absurd hp (h old synced)

end Effect

variable {op : FsOp} {fs fs' : Fs} {q : Path}

/-- A completed step changes only paths it touches. -/
theorem get_effect (h : op.effect fs = .ok fs') (hq : ¬op.Touches q) : fs'[q]? = fs[q]? := by
  cases op with
  | createDirAll p =>
    obtain ⟨-, rfl⟩ := effect_createDirAll.mp h
    rw [Fs.get_insertDirs, if_neg fun hm => hq (Fs.mem_ancestors.mp hm)]
  | createDir p =>
    obtain ⟨-, -, rfl⟩ := effect_createDir.mp h
    exact Map.get_insert_of_ne hq
  | create p =>
    obtain ⟨-, rfl⟩ := effect_create.mp h
    exact Map.get_insert_of_ne hq
  | openAppend p =>
    obtain ⟨-, rfl⟩ | ⟨-, -, rfl⟩ := effect_openAppend.mp h
    · rfl
    · exact Map.get_insert_of_ne hq
  | write p bytes =>
    obtain ⟨old, -, rfl⟩ := effect_write.mp h
    exact Map.get_insert_of_ne hq
  | sync p =>
    obtain ⟨old, -, rfl⟩ := effect_sync.mp h
    exact Map.get_insert_of_ne hq
  | copy p t =>
    obtain ⟨old, -, -, rfl⟩ := effect_copy.mp h
    exact Map.get_insert_of_ne hq
  | removeFile p =>
    obtain ⟨-, rfl⟩ := effect_removeFile.mp h
    exact Map.get_erase_of_ne hq
  | removeDirAll p =>
    obtain ⟨-, rfl⟩ := effect_removeDirAll.mp h
    rw [Fs.get_eraseAll, if_neg fun hm => hq (Fs.mem_under.mp hm).1]
  | rename p t =>
    obtain ⟨old, synced, -, -, rfl⟩ := effect_rename.mp h
    simp only [Touches, not_or] at hq
    rw [Map.get_insert_of_ne hq.2, Map.get_erase_of_ne hq.1]

private theorem get_effect_getD (hq : ¬op.Touches q) :
    ((op.effect fs).toOption.getD fs)[q]? = fs[q]? := by
  cases h : op.effect fs with
  | ok fs' => exact get_effect h hq
  | error e => rfl

/-- A step that did not complete changes only paths it touches. -/
theorem get_interrupted (n : Nat) (hq : ¬op.Touches q) : (op.interrupted n fs)[q]? = fs[q]? := by
  cases op with
  | write p bytes => exact @get_effect_getD (.write p (bytes.take n)) _ _ hq
  | copy p t =>
    cases n with
    | zero => rfl
    | succ n =>
      simp only [interrupted]
      split
      · exact Map.get_insert_of_ne hq
      · rfl
  | removeDirAll p =>
    simp only [interrupted]
    rw [Fs.get_eraseAll, if_neg]
    intro hm
    exact hq (Fs.mem_under.mp (List.mem_reverse.mp (List.mem_of_mem_take hm))).1
  | _ =>
    cases n with
    | zero => rfl
    | succ n => exact get_effect_getD hq

/-- What a step may leave behind: its effect, a part of it, or nothing. -/
def Leaves (op : FsOp) (fs fs' : Fs) : Prop :=
  op.effect fs = .ok fs' ∨ (∃ n, fs' = op.interrupted n fs) ∨ fs' = fs

/-- Whatever a step leaves behind, only paths it touches have changed. -/
theorem Leaves.get_eq (h : op.Leaves fs fs') (hq : ¬op.Touches q) : fs'[q]? = fs[q]? := by
  rcases h with h | ⟨n, rfl⟩ | rfl
  · exact get_effect h hq
  · exact get_interrupted n hq
  · rfl

/-- The steps that happen completely or not at all. -/
def Atomic : FsOp → Prop
  | write _ _ => False
  | copy _ _ => False
  | removeDirAll _ => False
  | _ => True

theorem Leaves.of_atomic (h : op.Leaves fs fs') (hop : op.Atomic) :
    fs' = fs ∨ op.effect fs = .ok fs' := by
  have hgetD : ∀ e : Except IoErrorKind Fs, e.toOption.getD fs = fs ∨ e = .ok (e.toOption.getD fs)
    | .ok _ => .inr rfl
    | .error _ => .inl rfl
  rcases h with h | ⟨n, rfl⟩ | rfl
  · exact .inr h
  · cases op with
    | write | copy | removeDirAll => exact hop.elim
    | _ =>
      cases n with
      | zero => exact .inl rfl
      | succ n => exact hgetD _
  · exact .inl rfl

end FsOp

/-! ### Layouts -/

/-- What a path can be. -/
inductive NodeKind where
  | dir
  | file
  deriving DecidableEq, Repr

/-- What a node is. -/
def Node.kind : Node → NodeKind
  | dir => .dir
  | file _ _ => .file

/-- Every node is of the kind that the layout gives its path. -/
def Fs.Fits (kind : Path → NodeKind) (fs : Fs) : Prop := ∀ p n, fs[p]? = some n → n.kind = kind p

/-- The step makes nodes of the kind that the layout gives their paths. -/
def FsOp.Suits (kind : Path → NodeKind) : FsOp → Prop
  | createDirAll p => ∀ q, q ≠ [] → q <+: p → kind q = .dir
  | createDir p => kind p = .dir
  | create p => kind p = .file
  | openAppend p => kind p = .file
  | write p _ => kind p = .file
  | sync p => kind p = .file
  | copy _ t => kind t = .file
  | removeFile _ => True
  | removeDirAll _ => True
  | rename _ t => kind t = .file

namespace FsOp.Suits

variable {kind : Path → NodeKind} {fs fs' : Fs} {op : FsOp} {p q : Path} {n m : Node}

private theorem get_insert (hq : (fs.insert p n)[q]? = some m) (hn : n.kind = kind p) :
    fs[q]? = some m ∨ m.kind = kind q := by
  rw [Map.get_insert] at hq
  split_ifs at hq with hpq
  · cases hq
    exact .inr (hpq ▸ hn)
  · exact .inl hq

private theorem get_erase (hq : (fs.erase p)[q]? = some m) : fs[q]? = some m := by
  rw [Map.get_erase] at hq
  split_ifs at hq with hpq
  exact hq

private theorem get_eraseAll {ps : List Path} (hq : (fs.eraseAll ps)[q]? = some m) :
    fs[q]? = some m := by
  rw [Fs.get_eraseAll] at hq
  split_ifs at hq with hpq
  exact hq

/-- A node after a completed step was there before, or is of the kind that the layout gives its
path. -/
theorem effect (hop : op.Suits kind) (he : op.effect fs = .ok fs') (hq : fs'[q]? = some m) :
    fs[q]? = some m ∨ m.kind = kind q := by
  cases op with
  | createDirAll p =>
    obtain ⟨-, rfl⟩ := effect_createDirAll.mp he
    rw [Fs.get_insertDirs] at hq
    split_ifs at hq with hmem
    · cases hq
      obtain ⟨hne, hpre⟩ := Fs.mem_ancestors.mp hmem
      exact .inr (hop q hne hpre).symm
    · exact .inl hq
  | createDir p =>
    obtain ⟨-, -, rfl⟩ := effect_createDir.mp he
    exact get_insert hq hop.symm
  | create p =>
    obtain ⟨-, rfl⟩ := effect_create.mp he
    exact get_insert hq hop.symm
  | openAppend p =>
    obtain ⟨-, rfl⟩ | ⟨-, -, rfl⟩ := effect_openAppend.mp he
    · exact .inl hq
    · exact get_insert hq hop.symm
  | write p bytes =>
    obtain ⟨old, -, rfl⟩ := effect_write.mp he
    exact get_insert hq hop.symm
  | sync p =>
    obtain ⟨old, -, rfl⟩ := effect_sync.mp he
    exact get_insert hq hop.symm
  | copy p t =>
    obtain ⟨old, -, -, rfl⟩ := effect_copy.mp he
    exact get_insert hq hop.symm
  | removeFile p =>
    obtain ⟨-, rfl⟩ := effect_removeFile.mp he
    exact .inl (get_erase hq)
  | removeDirAll p =>
    obtain ⟨-, rfl⟩ := effect_removeDirAll.mp he
    exact .inl (get_eraseAll hq)
  | rename p t =>
    obtain ⟨old, synced, -, -, rfl⟩ := effect_rename.mp he
    exact (get_insert hq hop.symm).imp_left get_erase

private theorem effect_getD (hop : op.Suits kind)
    (hq : ((op.effect fs).toOption.getD fs)[q]? = some m) : fs[q]? = some m ∨ m.kind = kind q := by
  cases he : op.effect fs with
  | ok fs' =>
    rw [he] at hq
    exact hop.effect he hq
  | error e =>
    rw [he] at hq
    exact .inl hq

/-- The same holds whatever the step leaves behind. -/
theorem leaves (hop : op.Suits kind) (hl : op.Leaves fs fs') (hq : fs'[q]? = some m) :
    fs[q]? = some m ∨ m.kind = kind q := by
  rcases hl with he | ⟨n, rfl⟩ | rfl
  · exact hop.effect he hq
  · cases op with
    | write p bytes => exact @effect_getD _ _ (.write p (bytes.take n)) _ _ hop hq
    | copy p t =>
      cases n with
      | zero => exact .inl hq
      | succ n =>
        simp only [FsOp.interrupted] at hq
        split at hq
        · exact get_insert hq hop.symm
        · exact .inl hq
    | removeDirAll p => exact .inl (get_eraseAll hq)
    | _ =>
      cases n with
      | zero => exact .inl hq
      | succ n => exact effect_getD hop hq
  · exact .inl hq

end FsOp.Suits

namespace Fs.Fits

variable {kind : Path → NodeKind} {fs fs' : Fs} {op : FsOp} {p q : Path} {n : Node}

theorem empty : Fits kind ∅ := by
  intro p n h
  rw [Map.get_empty] at h
  cases h

section

variable (h : fs.Fits kind)

include h

theorem insert (hn : n.kind = kind p) : Fits kind (fs.insert p n) := by
  intro q m hq
  rw [Map.get_insert] at hq
  split_ifs at hq with hpq
  · cases hq
    rwa [← hpq]
  · exact h q m hq

theorem erase : Fits kind (fs.erase p) := by
  intro q m hq
  rw [Map.get_erase] at hq
  split_ifs at hq with hpq
  exact h q m hq

theorem insertDirs {ps : List Path} (hps : ∀ p ∈ ps, kind p = .dir) :
    (fs.insertDirs ps).Fits kind := by
  intro q m hq
  rw [get_insertDirs] at hq
  split_ifs at hq with hmem
  · cases hq
    exact (hps q hmem).symm
  · exact h q m hq

/-- A completed step that suits a layout keeps it. -/
theorem effect (hop : op.Suits kind) (he : op.effect fs = .ok fs') : fs'.Fits kind :=
  fun q m hq => (hop.effect he hq).elim (h q m) id

/-- Whatever a step that suits a layout leaves behind fits the layout. -/
theorem leaves (hop : op.Suits kind) (hl : op.Leaves fs fs') : fs'.Fits kind :=
  fun q m hq => (hop.leaves hl hq).elim (h q m) id

/-- A path of a directory that is there is a directory, and a path of a file is not. -/
theorem isDir_eq_false (hp : p ≠ []) (hk : kind p = .file) : fs.isDir p = false := by
  simp only [isDir, hp, decide_false, Bool.false_or, decide_eq_false_iff_not]
  intro hd
  have hdir := h p .dir hd
  rw [hk] at hdir
  cases hdir

theorem read?_eq_none (hk : kind p = .dir) : fs.read? p = none := by
  rw [Option.eq_none_iff_forall_ne_some]
  intro bytes hb
  obtain ⟨y, hy⟩ := read?_eq_some.mp hb
  have hfile := h p _ hy
  rw [hk] at hfile
  cases hfile

/-- What is at the path of a file can be read. -/
theorem read?_ne_none (hk : kind p = .file) {n : Node} (hn : fs[p]? = some n) :
    fs.read? p ≠ none := by
  cases n with
  | dir => exact absurd ((h p _ hn).trans hk) nofun
  | file bytes synced =>
    exact fun hnone => Option.some_ne_none _ ((read?_eq_some.mpr ⟨synced, hn⟩).symm.trans hnone)

end

end Fs.Fits

/-! ### Disks -/

/-- What happens to a step: it completes, it fails, or the process is cut off in it. -/
inductive Fate where
  | ok
  | fail (kind : IoErrorKind) (progress : Nat)
  | crash (progress : Nat)
  deriving DecidableEq, Repr

/-- A file system and the fates of the steps to come, all of which complete once the list is used
up. -/
structure Disk where
  fs : Fs
  fates : List Fate

namespace Disk

/-- The disk after the fate of one step is drawn. -/
def advance (d : Disk) : Disk := { d with fates := d.fates.tail }

/-- The disk after a step that has turned its file system into `fs`. -/
def next (d : Disk) (fs : Fs) : Disk := { fs := fs, fates := d.fates.tail }

/-- Take one step. -/
def perform (op : FsOp) : Act Disk IoErrorKind Unit := fun d =>
  match d.fates.headD .ok with
  | .ok =>
    match op.effect d.fs with
    | .ok fs => .ok () (d.next fs)
    | .error kind => .err kind (d.next d.fs)
  | .fail kind n => .err kind (d.next (op.interrupted n d.fs))
  | .crash n => .crash (d.next (op.interrupted n d.fs))

/-- Take one step that changes nothing when it fails. -/
def performAtomic (op : FsOp) : Act Disk IoErrorKind Unit := fun d =>
  match d.fates.headD .ok with
  | .fail kind _ => .err kind (d.next d.fs)
  | _ => perform op d

/-- Whether something is at a path; a check that fails says no. -/
def pathExists (p : Path) : Act Disk IoErrorKind Bool := fun d =>
  match d.fates.headD .ok with
  | .ok => .ok (d.fs.present p) d.advance
  | .fail _ _ => .ok false d.advance
  | .crash _ => .crash d.advance

/-- Read a whole file. -/
def readFile (p : Path) : Act Disk IoErrorKind Bytes := fun d =>
  match d.fates.headD .ok with
  | .ok =>
    match d.fs[p]? with
    | some (.file bytes _) => .ok bytes d.advance
    | some .dir => .err .other d.advance
    | none => .err .notFound d.advance
  | .fail kind _ => .err kind d.advance
  | .crash _ => .crash d.advance

/-- The names in a directory. -/
def listDir (p : Path) : Act Disk IoErrorKind (List Text) := fun d =>
  match d.fates.headD .ok with
  | .ok => if d.fs.isDir p then .ok (d.fs.readDir p) d.advance else .err .notFound d.advance
  | .fail kind _ => .err kind d.advance
  | .crash _ => .crash d.advance

@[simp] theorem advance_fs (d : Disk) : d.advance.fs = d.fs := rfl

@[simp] theorem advance_fates (d : Disk) : d.advance.fates = d.fates.tail := rfl

@[simp] theorem next_fs (d : Disk) (fs : Fs) : (d.next fs).fs = fs := rfl

@[simp] theorem next_fates (d : Disk) (fs : Fs) : (d.next fs).fates = d.fates.tail := rfl

variable {d : Disk}

theorem advance_of_nil (h : d.fates = []) : d.advance = d := by
  cases d
  subst h
  rfl

/-- Everything a step can do: it completes, it fails or it is cut off. -/
theorem perform_cases (op : FsOp)
    (d : Disk) : (∃ fs, op.effect d.fs = .ok fs ∧ perform op d = .ok () (d.next fs)) ∨
    (∃ kind, op.effect d.fs = .error kind ∧ perform op d = .err kind (d.next d.fs)) ∨
    (∃ kind n, .fail kind n ∈ d.fates ∧ perform op d = .err kind (d.next (op.interrupted n d.fs))) ∨
    (∃ n, .crash n ∈ d.fates ∧ perform op d = .crash (d.next (op.interrupted n d.fs))) := by
  unfold perform
  cases hf : d.fates with
  | nil =>
    cases ha : op.effect d.fs with
    | ok fs => exact .inl ⟨fs, rfl, rfl⟩
    | error kind => exact .inr (.inl ⟨kind, rfl, rfl⟩)
  | cons fate fates =>
    cases fate with
    | ok =>
      cases ha : op.effect d.fs with
      | ok fs => exact .inl ⟨fs, rfl, rfl⟩
      | error kind => exact .inr (.inl ⟨kind, rfl, rfl⟩)
    | fail kind n => exact .inr (.inr (.inl ⟨kind, n, List.mem_cons_self, rfl⟩))
    | crash n => exact .inr (.inr (.inr ⟨n, List.mem_cons_self, rfl⟩))

/-- However a step ends, the disk holds what the step may leave. -/
theorem perform_state (op : FsOp) (d : Disk) :
    ∃ fs, op.Leaves d.fs fs ∧ (perform op d).state = d.next fs := by
  rcases perform_cases op d with ⟨fs, he, hp⟩ | ⟨kind, -, hp⟩ | ⟨kind, n, -, hp⟩ | ⟨n, -, hp⟩
  · exact ⟨fs, .inl he, by rw [hp]; rfl⟩
  · exact ⟨d.fs, .inr (.inr rfl), by rw [hp]; rfl⟩
  · exact ⟨_, .inr (.inl ⟨n, rfl⟩), by rw [hp]; rfl⟩
  · exact ⟨_, .inr (.inl ⟨n, rfl⟩), by rw [hp]; rfl⟩

/-- Everything a step can do that changes nothing when it fails. -/
theorem performAtomic_cases (op : FsOp) (d : Disk) :
    (∃ fs, op.effect d.fs = .ok fs ∧ performAtomic op d = .ok () (d.next fs)) ∨
    (∃ kind, performAtomic op d = .err kind (d.next d.fs)) ∨
    (∃ n, performAtomic op d = .crash (d.next (op.interrupted n d.fs))) := by
  unfold performAtomic
  split
  · exact .inr (.inl ⟨_, rfl⟩)
  · next hfate =>
    rcases perform_cases op d with ⟨fs, he, hp⟩ | ⟨kind, -, hp⟩ | ⟨kind, n, -, hp⟩ | ⟨n, -, hp⟩
    · exact .inl ⟨fs, he, hp⟩
    · exact .inr (.inl ⟨kind, hp⟩)
    · -- A step whose fate is not to fail does not fail in the middle.
      unfold perform at hp ⊢
      split at hp
      · split at hp
        · cases hp
        · exact .inr (.inl ⟨_, rfl⟩)
      · next hfail => exact absurd hfail (hfate _ _)
      · cases hp
    · exact .inr (.inr ⟨n, hp⟩)

variable {op : FsOp}

theorem performAtomic_of_nil (hf : d.fates = []) : performAtomic op d = perform op d := by
  simp only [performAtomic, hf, List.headD_nil]

/-- A step on a disk where nothing goes wrong. -/
theorem perform_of_nil {fs : Fs} (hf : d.fates = []) (ha : op.effect d.fs = .ok fs) :
    perform op d = .ok () { d with fs := fs } := by
  simp only [perform, hf, List.headD_nil, ha, next, List.tail_nil]

theorem perform_error_of_nil {kind : IoErrorKind} (hf : d.fates = [])
    (ha : op.effect d.fs = .error kind) : perform op d = .err kind d := by
  cases d
  subst hf
  simp only [perform, List.headD_nil, ha, next, List.tail_nil]

variable {p : Path}

theorem pathExists_of_nil (hf : d.fates = []) : pathExists p d = .ok (d.fs.present p) d := by
  simp only [pathExists, hf, List.headD_nil, advance_of_nil hf]

/-- Reading changes nothing but the fates. -/
theorem readFile_cases (p : Path) (d : Disk) :
    (∃ bytes, d.fs.read? p = some bytes ∧ readFile p d = .ok bytes d.advance) ∨
    (∃ kind, readFile p d = .err kind d.advance) ∨ readFile p d = .crash d.advance := by
  unfold readFile
  split
  · cases hp : d.fs[p]? with
    | none => exact .inr (.inl ⟨_, rfl⟩)
    | some node =>
      cases node with
      | dir => exact .inr (.inl ⟨_, rfl⟩)
      | file bytes synced => exact .inl ⟨bytes, Fs.read?_eq_some.mpr ⟨synced, hp⟩, rfl⟩
  · exact .inr (.inl ⟨_, rfl⟩)
  · exact .inr (.inr rfl)

theorem readFile_of_nil {bytes : Bytes} (hf : d.fates = [])
    (h : d.fs.read? p = some bytes) : readFile p d = .ok bytes d := by
  obtain ⟨y, hy⟩ := Fs.read?_eq_some.mp h
  simp only [readFile, hf, List.headD_nil, hy, advance_of_nil hf]

theorem readFile_of_absent (hf : d.fates = []) (h : d.fs[p]? = none) :
    readFile p d = .err .notFound d := by
  simp only [readFile, hf, List.headD_nil, h, advance_of_nil hf]

/-- Reading a disk on which nothing goes wrong changes nothing. -/
theorem reads_readFile (hf : d.fates = []) (p : Path) : (readFile p).Reads d := by
  rcases readFile_cases p d with ⟨bytes, -, h⟩ | ⟨kind, h⟩ | h
  · exact ⟨.ok bytes, h.trans (congrArg _ (advance_of_nil hf))⟩
  · exact ⟨.error kind, h.trans (congrArg _ (advance_of_nil hf))⟩
  · simp only [readFile, hf, List.headD_nil] at h
    split at h <;> cases h

theorem listDir_of_nil (hf : d.fates = []) (h : d.fs.isDir p = true) :
    listDir p d = .ok (d.fs.readDir p) d := by
  simp only [listDir, hf, List.headD_nil, h, if_true, advance_of_nil hf]

end Disk

end CrashSafe
