import Wdlp.Storage.Recovery
import Wdlp.Storage.NamespaceRecord

/-!
# Crash atomicity of flushes

A process opens a store on an empty root and flushes contents of its files, one after the other.
If it is cut off in a later flush, at whatever point, then reopening the store, recovering the file
and reading it gives the content of the last completed flush of the file or the new content.

The invariant `Flushed` ties the pointer of a file to a complete generation after every flush; it
also keeps what recovery relies on, which is that the disk fits the layout, that there is no
evidence yet and that a generation holds nothing but its records.

## Main definitions

* `flushAll`, `lastContent` — a history of flushes, and what it committed last.
* `Flushed` — the invariant of a history.

## Main results

* `Flushed.flushAll` — the invariant holds after a history.
* `recoverStore_after_crash` — recovery after a flush that was cut off.
-/

namespace Wdlp

open CrashSafe Act

variable {P : Primitives} {key : StoreKey} {store : StoreId} {file other : FileId}
  {generation : UInt64} {data : Bytes} {s t : Sys} {op : FsOp} {q : Path}

/-! ### What recovery relies on -/

/-- The names of the records of a generation. -/
def IsRecordName (name : Text) : Prop :=
  name = manifestName ∨ name = commitName ∨ ∃ i < 2 ^ 63, name = chunkName i

/-- The disk fits the layout, there are no evidence and no namespace, and the generations of a file
hold nothing but their records. -/
structure PreparedDisk (store : StoreId) (file : FileId) (fs : Fs) : Prop where
  fits : fs.Fits nodeKind
  noEvidence : ∀ q : Path, q.head? = some evidenceName → fs[q]? = none
  noNamespace : fs[namespacePath store]? = none
  items : ∀ entry rest, rest ≠ [] → fs[generationEntry store file entry ++ rest]?.isSome →
    ∃ name, rest = [name] ∧ IsRecordName name

/-- A process works on a store on such a disk. -/
def Prepared (store : StoreId) (key : StoreKey) (file : FileId) (c : Core) : Prop :=
  (c.store.storeId = store ∧ c.store.key = key) ∧ PreparedDisk store file c.fs

theorem StageTarget.isRecordName {count : ℕ} {entry : Text} {rest : Path}
    (h : StageTarget store other generation count (generationEntry store file entry ++ rest))
    (hcount : count ≤ 2 ^ 63) : ∃ name, rest = [name] ∧ IsRecordName name := by
  have hrest : ∀ {name}, generationEntry store file entry ++ rest =
      generationEntry store other (generationName generation) ++ [name] → rest = [name] :=
    fun heq => (List.append_inj heq rfl).2
  generalize hq : generationEntry store file entry ++ rest = q at h
  cases h with
  | chunk h => exact ⟨_, hrest hq, .inr (.inr ⟨_, h.trans_le hcount, rfl⟩)⟩
  | manifest => exact ⟨_, hrest hq, .inl rfl⟩
  | commit => exact ⟨_, hrest hq, .inr (.inl rfl)⟩

namespace PreparedDisk

variable {fs fs' : Fs}

private theorem of_leaves (h : PreparedDisk store file fs) (hl : op.Leaves fs fs')
    (hsuits : op.Suits nodeKind) (hhead : ∀ q, op.Touches q → q.head? = some storesName)
    (hnamespace : ¬op.Touches (namespacePath store))
    (hitems : ∀ entry rest, rest ≠ [] → op.Touches (generationEntry store file entry ++ rest) →
      ∃ name, rest = [name] ∧ IsRecordName name) : PreparedDisk store file fs' where
  fits := h.fits.leaves hsuits hl
  noEvidence q hq := by
    refine (hl.get_eq fun ht => ?_).trans (h.noEvidence q hq)
    exact storesName_ne_evidenceName (Option.some.inj ((hhead q ht).symm.trans hq))
  noNamespace := (hl.get_eq hnamespace).trans h.noNamespace
  items entry rest hne hsome := by
    by_cases ht : op.Touches (generationEntry store file entry ++ rest)
    · exact hitems entry rest hne ht
    · exact h.items entry rest hne (hl.get_eq ht ▸ hsome)

/-- A flush of any file of the store keeps what recovery relies on. -/
theorem flushKeeps (hdata : data.length < 2 ^ 63) :
    FlushKeeps (Prepared store key file) store key other generation data where
  session _ hc := hc.1
  stages op hop c fs hl hc := by
    refine ⟨hc.1, hc.2.of_leaves hl hop.suits (fun q hq => hop.head hq) (fun hq => ?_)
      fun entry rest hne hq => ?_⟩
    · rcases hop.touches hq with ht | ⟨-, ht⟩
      · obtain ⟨name, heq⟩ := ht.eq_generationItem
        exact absurd (congrArg List.length heq) (by simp [namespacePath, generationItem])
      · obtain ⟨rest, ht⟩ := ht
        have hname := congrArg (fun q : Path => q[2]?) ht
        exact namespaceName_ne_filesName (Option.some.inj hname)
    · rcases hop.touches hq with ht | ⟨-, ht⟩
      · exact ht.isRecordName ((length_chunks_le data).trans hdata.le)
      · have hlength := List.length_pos_iff.mpr hne
        exact absurd ht.length_le (by simp [generationEntry, generationDir]; omega)
  seals c _ _ hc _ := hc
  faults c hc := hc
  publishes op hop c fs hl hc := by
    refine ⟨hc.1, hc.2.of_leaves hl hop.suits (fun q hq => hop.head hq) (fun hq => ?_)
      fun entry rest hne hq => ?_⟩
    · obtain ⟨name, heq⟩ := hop.eq_fileItem hq
      exact absurd (congrArg List.length heq) (by simp [namespacePath, fileItem])
    · obtain ⟨name', heq⟩ := hop.eq_fileItem hq
      exact absurd (congrArg List.length heq) (by simp [generationEntry, fileItem])

/-- There are not many records of a generation. -/
private theorem length_le_of_isRecordName {paths : List Path} (base : Path) {n : ℕ}
    (hnd : paths.Nodup) (h : ∀ q ∈ paths, q = base ∨ ∃ name, q = base ++ [name] ∧
      (name = manifestName ∨ name = commitName ∨ ∃ i < n, name = chunkName i)) :
    paths.length ≤ n + 3 := by
  have hsub : paths ⊆ base :: (manifestName :: commitName ::
      (List.range n).map chunkName).map fun name => base ++ [name] := by
    intro q hq
    rcases h q hq with rfl | ⟨name, rfl, hname⟩
    · exact List.mem_cons_self
    · refine List.mem_cons_of_mem _ (List.mem_map_of_mem ?_)
      rcases hname with rfl | rfl | ⟨i, hi, rfl⟩
      · exact List.mem_cons_self
      · exact List.mem_cons_of_mem _ List.mem_cons_self
      · exact List.mem_cons_of_mem _ (List.mem_cons_of_mem _
          (List.mem_map_of_mem (List.mem_range.mpr hi)))
  have hle := (List.subperm_of_subset hnd hsub).length_le
  rwa [List.length_cons, List.length_map, List.length_cons, List.length_cons, List.length_map,
    List.length_range] at hle

theorem fewBelow (h : PreparedDisk store file fs) (entry : Text) :
    FewBelow fs (generationEntry store file entry) := by
  have hle : (fs.under (generationEntry store file entry)).length ≤ 2 ^ 63 + 3 := by
    refine length_le_of_isRecordName (generationEntry store file entry) (Map.nodup_keys.filter _)
      fun q hq => ?_
    obtain ⟨⟨rest, rfl⟩, hsome⟩ := Fs.mem_under.mp hq
    rcases eq_or_ne rest [] with rfl | hne
    · exact .inl (List.append_nil _)
    · obtain ⟨name, rfl, hname⟩ := h.items entry rest hne hsome
      exact .inr ⟨name, rfl, hname⟩
  unfold FewBelow
  omega

/-- A process that opens the store on such a disk can recover the file. -/
theorem tidy (h : PreparedDisk store file s.disk.fs) (hquiet : s.disk.fates = []) : Tidy s where
  quiet := hquiet
  fits := h.fits
  room _ _ := h.noEvidence _ rfl

theorem empty : PreparedDisk store file ∅ where
  fits := Fs.Fits.empty
  noEvidence _ _ := Map.get_empty
  noNamespace := Map.get_empty
  items entry rest _ h := by
    rw [Map.get_empty] at h
    cases h

/-- Opening the store changes directories only. -/
theorem insertDirs (h : PreparedDisk store file fs) :
    PreparedDisk store file (fs.insertDirs (Fs.ancestors (filesDir store))) where
  fits := h.fits.insertDirs fun q hq =>
    nodeKind_of_prefix_filesDir (Fs.mem_ancestors.mp hq).1 (Fs.mem_ancestors.mp hq).2
  noEvidence q hq := by
    refine (Fs.get_insertDirs _).trans ((if_neg fun hmem => ?_).trans (h.noEvidence q hq))
    obtain ⟨hne, rest, hpre⟩ := Fs.mem_ancestors.mp hmem
    cases q with
    | nil => exact hne rfl
    | cons a q =>
      exact storesName_ne_evidenceName (Option.some.inj ((congrArg List.head? hpre).symm.trans hq))
  noNamespace := (Fs.get_insertDirs _).trans ((if_neg namespacePath_not_mem).trans h.noNamespace)
  items entry rest hne hsome := by
    refine h.items entry rest hne ?_
    rwa [Fs.get_insertDirs, if_neg fun hmem => ?_] at hsome
    exact absurd (Fs.mem_ancestors.mp hmem).2.length_le (by simp [generationEntry, filesDir])

end PreparedDisk

theorem get_insertDirs_of_fileDir {fs : Fs} (hq : fileDir store file <+: q) :
    (fs.insertDirs (Fs.ancestors (filesDir store)))[q]? = fs[q]? := by
  refine (Fs.get_insertDirs _).trans (if_neg fun hmem => ?_)
  have hle := hq.length_le.trans (Fs.mem_ancestors.mp hmem).2.length_le
  exact absurd hle (by simp [fileDir, filesDir])

/-! ### Histories -/

section Definitions

variable (P)

/-- Stage a content and flush it. -/
def stageAndFlush (file : FileId) (data : Bytes) : Op CommitOutcome := do
  write file data
  flushFile P file

/-- Stage and flush contents of files, one after the other. -/
def flushAll (history : List (FileId × Bytes)) : Op Unit :=
  Act.forEach history fun content => do
    let _ ← stageAndFlush P content.1 content.2

end Definitions

/-- The content that a history of flushes committed last to a file. -/
def lastContent (history : List (FileId × Bytes)) (file : FileId) : Option Bytes :=
  ((history.filter (·.1 = file)).getLast?).map (·.2)

/-- The number of flushes of other files. -/
def othersFlushed (history : List (FileId × Bytes)) (file : FileId) : ℕ :=
  (history.filter (·.1 ≠ file)).length

/-- The state in which a content is staged and its flush has drawn a generation. -/
def Sys.staging (s : Sys) (file : FileId) (data : Bytes) : Sys :=
  (s.mapStore fun store =>
    { store with staged := store.staged.insert file.toWire data }).begun file data

/-- The flush of a content fails at once, or it writes and publishes a generation. -/
theorem stageAndFlush_cases : (∃ e t, stageAndFlush P file data s = .err e t) ∨
    stageAndFlush P file data s = (do
      let outcome ← flushGeneration P file s.counters.nextGeneration data
      modifyStore (·.unstage file)
      return outcome) (s.staging file data) := by
  have hwrite : stageAndFlush P file data s = flushFile P file (s.mapStore fun store =>
      { store with staged := store.staged.insert file.toWire data }) := rfl
  rw [hwrite, flushFile_eq]
  split
  · exact .inl ⟨_, _, rfl⟩
  · have hget : (s.mapStore fun store => { store with
        staged := store.staged.insert file.toWire data }).store.staged[file.toWire]? =
          some data := Map.get_insert_self
    rw [hget]
    exact .inr rfl

theorem stageAndFlush_eq_ok {outcome : CommitOutcome}
    (h : stageAndFlush P file data s = .ok outcome t) :
    ∃ t', flushGeneration P file s.counters.nextGeneration data (s.staging file data) =
      .ok outcome t' ∧ t = t'.mapStore (·.unstage file) := by
  rcases stageAndFlush_cases with ⟨e, t', he⟩ | he
  · rw [h] at he
    cases he
  · rw [he] at h
    obtain ⟨outcome', t', h₁, h⟩ := bind_eq_ok.mp h
    obtain ⟨_, _, h₂, h⟩ := bind_eq_ok.mp h
    obtain ⟨rfl, rfl⟩ := pure_eq_ok.mp h
    cases h₂
    exact ⟨t', h₁, rfl⟩

theorem stageAndFlush_eq_crash (h : stageAndFlush P file data s = .crash t) :
    flushGeneration P file s.counters.nextGeneration data (s.staging file data) = .crash t := by
  rcases stageAndFlush_cases with ⟨e, t', he⟩ | he
  · rw [h] at he
    cases he
  · rw [he, bind_apply] at h
    cases hflush : flushGeneration P file s.counters.nextGeneration data (s.staging file data) with
    | ok outcome t' => rw [hflush] at h; cases h
    | err e t' => rw [hflush] at h; cases h
    | crash t' => rw [hflush] at h; exact h

/-! ### The invariant of a history -/

/-- The pointer of a file selects the generation, and the directory of the file is there. -/
structure GenerationRecords.Current (R : GenerationRecords) (P : Primitives) (key : StoreKey)
    (store : StoreId) (file : FileId) (generation : UInt64) (data : Bytes) (fs : Fs) : Prop where
  seals : R.Seals P key store file generation data
  selected : R.Selected fs (selectedPath store file) store file generation
  directory : fs[fileDir store file]? = some .dir

variable {R : GenerationRecords}

theorem GenerationRecords.Current.congr {fs fs' : Fs}
    (h : R.Current P key store file generation data fs)
    (hfs : ∀ q, fileDir store file <+: q → fs'[q]? = fs[q]?) :
    R.Current P key store file generation data fs' where
  seals := h.seals
  selected := h.selected.congr (fun _ => hfs _ fileDir_prefix_generationItem)
    (hfs _ fileDir_prefix_fileItem)
  directory := (hfs _ (List.prefix_refl _)).trans h.directory

/-- What a file holds: nothing yet, or a content whose generation is so recent that its number is
not drawn again after at most `age` flushes of other files. -/
inductive Pointing (P : Primitives) (key : StoreKey) (store : StoreId) (file : FileId) (age : ℕ)
    (c : Core) : Option Bytes → Prop
  | absent (selected : c.fs[selectedPath store file]? = none)
      (previous : c.fs[previousPath store file]? = none) :
      Pointing P key store file age c none
  | current {R : GenerationRecords} {generation : UInt64} {data : Bytes} {flushes : ℕ}
      (recent : flushes ≤ age)
      (next : c.counters.nextGeneration = generation + UInt64.ofNat (flushes + 1))
      (holds : R.Current P key store file generation data c.fs) :
      Pointing P key store file age c (some data)

/-- The invariant of a history of flushes. -/
structure Flushed (P : Primitives) (key : StoreKey) (store : StoreId) (file : FileId)
    (history : List (FileId × Bytes)) (c : Core) : Prop where
  prepared : Prepared store key file c
  pointing : Pointing P key store file (othersFlushed history file) c (lastContent history file)

variable {history : List (FileId × Bytes)}

theorem lastContent_append_self : lastContent (history ++ [(file, data)]) file = some data := by
  simp [lastContent]

theorem lastContent_append_other (h : other ≠ file) :
    lastContent (history ++ [(other, data)]) file = lastContent history file := by
  simp [lastContent, h]

theorem othersFlushed_append_other (h : other ≠ file) :
    othersFlushed (history ++ [(other, data)]) file = othersFlushed history file + 1 := by
  simp [othersFlushed, h]

/-- A flush leaves the counters alone once it has drawn its generation. -/
theorem counted_flushKeeps (file : FileId) (hdata : data.length < 2 ^ 63) (next : UInt64) :
    FlushKeeps (fun c => Prepared store key file c ∧ c.counters.nextGeneration = next) store key
      other generation data :=
  (PreparedDisk.flushKeeps hdata).and (fun _ _ _ _ _ hc => hc) (fun _ _ _ _ _ hc => hc)
    (fun _ _ hc => hc) (fun _ _ hc => hc)

/-- A flush of one file leaves another one as it is. -/
theorem others_flushKeeps (hdata : data.length < 2 ^ 63) (hne : other ≠ file) (next : UInt64)
    (before : Fs) :
    FlushKeeps (fun c => (Prepared store key file c ∧ c.counters.nextGeneration = next) ∧
      ∀ q, fileDir store file <+: q → c.fs[q]? = before[q]?) store key other generation data := by
  refine (counted_flushKeeps file hdata next).and (fun op hop c fs hl hc q hq => ?_)
    (fun op hop c fs hl hc q hq => ?_) (fun _ _ hc => hc) (fun _ _ hc => hc)
  · exact (hl.get_eq fun ht => hne (hop.file_eq ht hq).2.symm).trans (hc q hq)
  · exact (hl.get_eq fun ht => hne (hop.file_eq ht hq).2.symm).trans (hc q hq)

/-- A flush leaves the directory of its file and its other generations as they are. -/
theorem own_flushKeeps (hdata : data.length < 2 ^ 63) {old : UInt64} (hold : old ≠ generation) :
    FlushKeeps (fun c => Prepared store key file c ∧ (R.Stored c.fs store file old ∧
      c.fs[fileDir store file]? = some .dir)) store key file generation data := by
  refine (PreparedDisk.flushKeeps hdata).and (fun op hop c fs hl hc => ⟨?_, ?_⟩)
    (fun op hop c fs hl hc => ⟨?_, ?_⟩) (fun _ _ hc => hc) (fun _ _ hc => hc)
  · exact hc.1.congr fun name => hl.get_eq fun ht => hold (hop.generation_eq ht)
  · exact hop.keeps_directory hl hc.2
  · refine hc.1.congr fun name => hl.get_eq fun ht => ?_
    obtain ⟨name', heq⟩ := hop.eq_fileItem ht
    exact generationItem_ne_fileItem heq
  · refine (hl.get_eq fun ht => ?_).trans hc.2
    obtain ⟨name', heq⟩ := hop.eq_fileItem ht
    exact fileDir_ne_fileItem heq

namespace Flushed

variable {history : List (FileId × Bytes)} {outcome : CommitOutcome}

/-- A flush of the file. -/
theorem own (hP : P.Correct) (hdata : data.length < 2 ^ 63)
    (h : Flushed P key store file history s.core)
    (hok : stageAndFlush P file data s = .ok outcome t) :
    Flushed P key store file (history ++ [(file, data)]) t.core := by
  obtain ⟨t', hflush, rfl⟩ := stageAndFlush_eq_ok hok
  have hstart : Prepared store key file (s.staging file data).core := h.prepared
  have hid : (s.staging file data).store.storeId = store := hstart.1.1
  obtain ⟨R, hs, hsel, hdir⟩ := flushGeneration_eq_ok hP hid hstart.1.2 hflush
  have hkeeps : FlushKeeps _ store key file s.counters.nextGeneration data :=
    counted_flushKeeps file hdata (s.counters.nextGeneration + 1)
  obtain ⟨⟨hprepared, hnext⟩, -⟩ := hkeeps.keeps_flushGeneration.of_ok ⟨hstart, rfl⟩ hflush
  refine ⟨hprepared, ?_⟩
  rw [lastContent_append_self]
  exact .current (Nat.zero_le _) hnext ⟨hs, hsel, hdir⟩

/-- A flush of another file. -/
theorem others (hdata : data.length < 2 ^ 63) (hne : other ≠ file)
    (h : Flushed P key store file history s.core)
    (hok : stageAndFlush P other data s = .ok outcome t) :
    Flushed P key store file (history ++ [(other, data)]) t.core := by
  obtain ⟨t', hflush, rfl⟩ := stageAndFlush_eq_ok hok
  have hkeeps : FlushKeeps _ store key other s.counters.nextGeneration data :=
    others_flushKeeps hdata hne (s.counters.nextGeneration + 1) s.disk.fs
  have hstart : Prepared store key file (s.staging other data).core := h.prepared
  obtain ⟨⟨⟨hprepared, hnext⟩, hsame⟩, -⟩ :=
    hkeeps.keeps_flushGeneration.of_ok ⟨⟨hstart, rfl⟩, fun _ _ => rfl⟩ hflush
  refine ⟨hprepared, ?_⟩
  rw [lastContent_append_other hne, othersFlushed_append_other hne]
  have hpointing := h.pointing
  generalize lastContent history file = content at hpointing ⊢
  cases hpointing with
  | absent hsel hprev =>
    exact .absent ((hsame _ fileDir_prefix_fileItem).trans hsel)
      ((hsame _ fileDir_prefix_fileItem).trans hprev)
  | @current R generation data flushes hrecent hcounter hcurrent =>
    refine .current (Nat.succ_le_succ hrecent) ?_ (hcurrent.congr hsame)
    change t'.counters.nextGeneration = _
    rw [show t'.counters.nextGeneration = s.counters.nextGeneration + 1 from hnext,
      show s.counters.nextGeneration = _ from hcounter, UInt64.ofNat_add (flushes + 1), add_assoc]
    rfl

/-- The invariant holds after a history. -/
theorem flushAll (hP : P.Correct) : {rest history : List (FileId × Bytes)} → {s : Sys} →
    (∀ content ∈ rest, content.2.length < 2 ^ 63) → Flushed P key store file history s.core →
    flushAll P rest s = .ok () t → Flushed P key store file (history ++ rest) t.core
  | [], history, s, _, h, hok => by
    obtain ⟨-, rfl⟩ := pure_eq_ok.mp hok
    rwa [List.append_nil]
  | (other, data) :: rest, history, s, hsize, h, hok => by
    obtain ⟨_, s₁, h₁, hrest⟩ := bind_eq_ok.mp hok
    obtain ⟨outcome, s₂, h₂, hpure⟩ := bind_eq_ok.mp h₁
    obtain ⟨-, rfl⟩ := pure_eq_ok.mp hpure
    have hdata : data.length < 2 ^ 63 := hsize _ List.mem_cons_self
    have hnext : Flushed P key store file (history ++ [(other, data)]) s₂.core := by
      by_cases hfile : other = file
      · subst hfile
        exact h.own hP hdata h₂
      · exact h.others hdata hfile h₂
    have hall := flushAll hP (fun content hc => hsize content (List.mem_cons_of_mem _ hc)) hnext
      hrest
    rwa [List.append_assoc] at hall

end Flushed

/-! ### Recovery after a crash -/

/-- Recovering and then reading the file gives the content. -/
def RecoversTo (P : Primitives) (file : FileId) (s : Sys) (content : Bytes) : Prop :=
  ∃ report t, recoverStore P file s = .ok report t ∧ readFile P file t = .ok content t

theorem recoversTo_of_selected (h : Prepared store key file s.core)
    (hquiet : s.disk.fates = []) (hs : R.Seals P key store file generation data)
    (hsel : R.Selected s.disk.fs (selectedPath store file) store file generation) :
    RecoversTo P file s data := by
  obtain ⟨t, hrecover, hstore, hquiet', hsel'⟩ :=
    recoverStore_of_selected (h.2.tidy hquiet) h.1.1 h.1.2 h.2.fewBelow hs hsel
  exact ⟨_, t, hrecover, readFile_of_selected hquiet' ((congrArg Store.storeId hstore).trans h.1.1)
    ((congrArg Store.key hstore).trans h.1.2) hs hsel'⟩

theorem recoversTo_of_previous (h : Prepared store key file s.core)
    (hquiet : s.disk.fates = []) (hdir : s.disk.fs[fileDir store file]? = some .dir)
    (hs : R.Seals P key store file generation data)
    (hgone : s.disk.fs[selectedPath store file]? = none)
    (hprev : R.Selected s.disk.fs (previousPath store file) store file generation) :
    RecoversTo P file s data := by
  obtain ⟨t, hrecover, hstore, hquiet', hsel'⟩ :=
    recoverStore_of_previous (h.2.tidy hquiet) h.1.1 h.1.2 h.2.fewBelow hdir hs hgone hprev
  exact ⟨_, t, hrecover, readFile_of_selected hquiet' ((congrArg Store.storeId hstore).trans h.1.1)
    ((congrArg Store.key hstore).trans h.1.2) hs hsel'⟩

/-- The generation that is drawn next is not the current one. -/
theorem ne_nextGeneration {old next : UInt64} {flushes age : ℕ} (hrecent : flushes ≤ age)
    (hage : age + 1 < 2 ^ 64) (hnext : next = old + UInt64.ofNat (flushes + 1)) : old ≠ next := by
  rintro rfl
  have hzero : UInt64.ofNat (flushes + 1) = 0 := left_eq_add.mp hnext
  have hnat := congrArg UInt64.toNat hzero
  have hlt : flushes + 1 < 2 ^ 64 := by omega
  rw [UInt64.toNat_ofNat_of_lt' hlt] at hnat
  exact absurd hnat (Nat.succ_ne_zero _)

/-- Recovery on a disk that a flush has left that was cut off. -/
theorem recoverStore_after_crash (hP : P.Correct) {u : Sys}
    (h : Flushed P key store file history s.core) (hdata : data.length < 2 ^ 63)
    (hothers : othersFlushed history file + 1 < 2 ^ 64)
    (hcrash : stageAndFlush P file data s = .crash t)
    (hsession : u.store.storeId = store ∧ u.store.key = key) (hquiet : u.disk.fates = [])
    (hdisk : PreparedDisk store file t.disk.fs → PreparedDisk store file u.disk.fs)
    (hfile : ∀ q, fileDir store file <+: q → u.disk.fs[q]? = t.disk.fs[q]?) :
    (∃ content, (content = data ∨ lastContent history file = some content) ∧
      RecoversTo P file u content) ∨
    (lastContent history file = none ∧ recoverStore P file u = .err .recoveryRequired u) := by
  have hflush := stageAndFlush_eq_crash hcrash
  have hstart : Prepared store key file (s.staging file data).core := h.prepared
  have hid : (s.staging file data).store.storeId = store := hstart.1.1
  have hpointer := flushGeneration_eq_crash hP hid hstart.1.2 hflush
  have hsel : u.disk.fs[selectedPath store file]? = t.disk.fs[selectedPath store file]? :=
    hfile _ fileDir_prefix_fileItem
  have hprev : u.disk.fs[previousPath store file]? = t.disk.fs[previousPath store file]? :=
    hfile _ fileDir_prefix_fileItem
  have hitems : ∀ generation name, u.disk.fs[generationItem store file generation name]? =
      t.disk.fs[generationItem store file generation name]? :=
    fun _ _ => hfile _ fileDir_prefix_generationItem
  have hprepared : Prepared store key file u.core := by
    have hkeeps : FlushKeeps (Prepared store key file) store key file s.counters.nextGeneration
        data := PreparedDisk.flushKeeps hdata
    exact ⟨hsession, hdisk (hkeeps.keeps_flushGeneration.of_crash hstart hflush).2⟩
  have hnew : ∀ {R : GenerationRecords}, R.Seals P key store file s.counters.nextGeneration data →
      R.Selected t.disk.fs (selectedPath store file) store file s.counters.nextGeneration →
      RecoversTo P file u data := fun hs hsel' =>
    recoversTo_of_selected hprepared hquiet hs (hsel'.congr (hitems _) hsel)
  have hpointing := h.pointing
  generalize lastContent history file = content at hpointing ⊢
  cases hpointing with
  | absent hselected hprevious =>
    cases hpointer with
    | kept same untouched =>
      refine .inr ⟨rfl, recoverStore_of_absent hquiet hsession.1 ?_ ?_⟩
      · exact hsel.trans (same.trans hselected)
      · exact hprev.trans ((untouched hselected).trans hprevious)
    | moved was gone now => exact absurd (was.symm.trans hselected) (Option.some_ne_none _)
    | replaced seals selects => exact .inl ⟨data, .inl rfl, hnew seals selects.of_synced⟩
  | @current R old content flushes hrecent hnext hcurrent =>
    -- the flush has not touched the generation that was current
    have hold : old ≠ s.counters.nextGeneration := ne_nextGeneration hrecent hothers hnext
    obtain ⟨hstored, hdir⟩ : R.Stored t.disk.fs store file old ∧
        t.disk.fs[fileDir store file]? = some .dir := by
      have hkeeps : FlushKeeps _ store key file s.counters.nextGeneration data :=
        own_flushKeeps (R := R) hdata hold
      have hbefore := And.intro hstart (And.intro hcurrent.selected.toStored hcurrent.directory)
      exact (hkeeps.keeps_flushGeneration.of_crash hbefore hflush).2
    have hstored' := hstored.congr (hitems old)
    obtain ⟨bytes, hread, hdecode⟩ := hcurrent.selected.pointer
    cases hpointer with
    | kept same untouched =>
      refine .inl ⟨content, .inr rfl, recoversTo_of_selected hprepared hquiet hcurrent.seals
        ⟨hstored', hcurrent.selected.pointer.congr (hsel.trans same)⟩⟩
    | @moved bytes' synced synced' was gone now =>
      obtain rfl : bytes' = bytes :=
        Option.some.inj ((Fs.read?_eq_some.mpr ⟨synced, was⟩).symm.trans hread)
      have hpointer : StoredRecord u.disk.fs (previousPath store file) R.commit :=
        ⟨bytes', Fs.read?_eq_some.mpr ⟨synced', hprev.trans now⟩, hdecode⟩
      exact .inl ⟨content, .inr rfl, recoversTo_of_previous hprepared hquiet
        ((hfile _ (List.prefix_refl _)).trans hdir) hcurrent.seals (hsel.trans gone)
        ⟨hstored', hpointer⟩⟩
    | replaced seals selects => exact .inl ⟨data, .inl rfl, hnew seals selects.of_synced⟩

/-- A store that was opened on an empty root has no file. -/
theorem openStore_of_empty {identity : CapturedStoreIdentity}
    (hempty : s.disk.fs = ∅) (h : openStore P identity key s = .ok () t) : t.core = s.opened
    { identity, key } ∧ ∀ q, fileDir identity.storeId file <+: q → t.core.fs[q]? = none := by
  have habsent : s.disk.fs[namespacePath identity.storeId]? = none := by
    rw [hempty]
    exact Map.get_empty
  have hcore : t.core = s.opened { identity, key } := openStore_eq_ok h (habsent ▸ .absent)
  refine ⟨hcore, fun q hq => ?_⟩
  rw [hcore]
  refine (get_insertDirs_of_fileDir hq).trans ?_
  rw [hempty]
  exact Map.get_empty

/-- A process opens a store on an empty root, flushes contents of its files and is then cut off in
a flush. Opening the store again, recovering the file and reading it gives the content that was
flushed last to the file, or the new one; only if none was flushed before, recovery may tell that
there is nothing to recover. -/
theorem flush_crash_atomic (hP : P.Correct) {identity : CapturedStoreIdentity}
    {history : List (FileId × Bytes)} {s₀ s₁ s₂ : Sys} (hfresh : s₀.disk.fs = ∅)
    (hopen : openStore P identity key s₀ = .ok () s₁) (hhistory : flushAll P history s₁ = .ok () s₂)
    (hsize : ∀ content ∈ history, content.2.length < 2 ^ 63) (hdata : data.length < 2 ^ 63)
    (hothers : othersFlushed history file + 1 < 2 ^ 64)
    (hcrash : stageAndFlush P file data s₂ = .crash t) (hdisk : s.disk.fs = t.disk.fs)
    (hquiet : s.disk.fates = []) :
    ∃ u, openStore P identity key s = .ok () u ∧
      ((∃ content, (content = data ∨ lastContent history file = some content) ∧
        RecoversTo P file u content) ∨
      (lastContent history file = none ∧ recoverStore P file u = .err .recoveryRequired u)) := by
  have hstart : Flushed P key identity.storeId file [] s₁.core := by
    have hempty : PreparedDisk identity.storeId file s₀.disk.fs := hfresh ▸ PreparedDisk.empty
    obtain ⟨hcore, hnone⟩ := openStore_of_empty hfresh hopen
    rw [hcore] at hnone ⊢
    exact ⟨⟨⟨rfl, rfl⟩, hempty.insertDirs⟩,
      .absent (hnone _ fileDir_prefix_fileItem) (hnone _ fileDir_prefix_fileItem)⟩
  have hflushed : Flushed P key identity.storeId file history s₂.core :=
    Flushed.flushAll hP hsize hstart hhistory
  have hprepared : Prepared identity.storeId key file t.core := by
    have hkeeps : FlushKeeps (Prepared identity.storeId key file) identity.storeId key file
        s₂.counters.nextGeneration data := PreparedDisk.flushKeeps hdata
    have hbefore : Prepared identity.storeId key file (s₂.staging file data).core :=
      hflushed.prepared
    exact hkeeps.keeps_flushGeneration.of_crash hbefore (stageAndFlush_eq_crash hcrash)
  have hleft : PreparedDisk identity.storeId file s.disk.fs := hdisk ▸ hprepared.2
  have hloads : Loads P identity key s.disk.fs[namespacePath identity.storeId]?
      { identity, key } := hleft.noNamespace ▸ .absent
  obtain ⟨u, hu, hcore, hquiet'⟩ := openStore_of_loads hquiet hleft.fits hloads
  have hfs : u.disk.fs = t.disk.fs.insertDirs (Fs.ancestors (filesDir identity.storeId)) :=
    (congrArg Core.fs hcore).trans (congrArg (Fs.insertDirs · _) hdisk)
  have hstore : u.store = { identity, key } := congrArg Core.store hcore
  refine ⟨u, hu, recoverStore_after_crash hP hflushed hdata hothers hcrash ?_ hquiet' ?_ ?_⟩
  · rw [hstore]
    exact ⟨rfl, rfl⟩
  · rw [hfs]
    exact PreparedDisk.insertDirs
  · intro q hq
    rw [hfs, get_insertDirs_of_fileDir hq]

/-- A process that opens a store, flushes a file and is cut off in a second flush of the file, right
after it has removed the pointer. -/
def cutOff : Sys :=
  .fresh soleIdentity zeroKey countingNonces (List.replicate 35 .ok ++ [.crash 1])

/-- What is left of it: the disk, on which a new process starts. -/
def cutOffLeft : Sys :=
  let opened := (openStore .plain soleIdentity zeroKey cutOff).state
  let flushed := (flushAll .plain [(soleFile, [1])] opened).state
  { (stageAndFlush .plain soleFile [2] flushed).state with counters := {} }

theorem flush_crash_atomic_cutOff :
    ∃ u, openStore .plain soleIdentity zeroKey cutOffLeft = .ok () u ∧
      ((∃ content, (content = [2] ∨ lastContent [(soleFile, [1])] soleFile = some content) ∧
        RecoversTo .plain soleFile u content) ∨
      (lastContent [(soleFile, [1])] soleFile = none ∧
        recoverStore .plain soleFile u = .err .recoveryRequired u)) :=
  have hfresh : cutOff.disk.fs = ∅ := rfl
  flush_crash_atomic Primitives.plain_correct hfresh
    (Outcome.eq_ok (by decide +kernel)) (Outcome.eq_ok (by decide +kernel)) (by decide) (by decide)
    (by decide) (Outcome.eq_crash (by decide +kernel)) rfl (by decide +kernel)

end Wdlp
