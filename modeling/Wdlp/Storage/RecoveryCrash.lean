import Wdlp.Storage.OldEvidence
import Wdlp.Storage.FaultyReads
import Wdlp.Storage.Reopening

/-!
# Recovery that is cut off

When the current pointer of a file is gone, recovery copies the former one in its place and then
removes the generations that are not referenced. The copy is not atomic. A crash in it leaves a
pointer that holds a beginning of the bytes, and no stored record is the beginning of another one:
the next recovery finds a pointer and rejects it, although the former one is still there. A crash
after it leaves evidence behind, under names that the next process draws again.

## Main definitions

* `PriorOnly` — the current pointer is gone and the former one can be read in full.
* `Orderly` — evidence can be taken of the generations of the file.
* `Halfway` — what recovery leaves of a disk when it is cut off.

## Main results

* `halfway_recoverStore` — what recovery leaves, however it ends.
* `recoverStore_completes` — recovery from what was left returns when no name is taken.
* `recovery_resumes_iff` — when recovery can be taken up again.
-/

namespace Wdlp

open CrashSafe Act

variable {P : Primitives} {store : StoreId} {file : FileId} {generation : UInt64} {data : Bytes}
  {s t u : Sys} {path : Path}

/-- The current pointer of the file is gone, and the former one can be read in full. -/
structure PriorOnly (P : Primitives) (file : FileId) (generation : UInt64) (data : Bytes)
    (s : Sys) : Prop where
  gone : s.disk.fs[selectedPath s.store.storeId file]? = none
  read : readFromPointer P (previousPath s.store.storeId file) file s.quiet = .ok data s.quiet
  commit : commitGeneration P (previousPath s.store.storeId file) file s.quiet =
    .ok generation s.quiet

/-- The disk is a tree, what is in the evidence and the marker of the file are laid out as the code
does it, and there are numbers for the files of each generation. -/
structure Orderly (file : FileId) (s : Sys) : Prop where
  tree : s.disk.fs.Closed
  evidence : EvidenceFits s.disk.fs
  marker : s.disk.fs.isDir (fileItem s.store.storeId file markerName) = false
  few : ∀ name, FewBelow s.disk.fs (generationEntry s.store.storeId file name)

/-! ### What is left -/

section Halfway

variable {bytes : Bytes} {before fs fs' : Fs}

/-- What recovery leaves of a disk on which the former pointer holds the given bytes and commits the
given generation. -/
structure Halfway (store : StoreId) (file : FileId) (generation : UInt64) (bytes : Bytes)
    (before fs : Fs) : Prop where
  paths : ∀ q : Path, q.head? ≠ some evidenceName → q ≠ selectedPath store file →
    q ≠ fileItem store file markerName →
    (∀ name, generationEntry store file name <+: q → name = generationName generation) →
      fs[q]? = before[q]?
  selected : fs[selectedPath store file]? = none ∨
    ∃ n, fs.read? (selectedPath store file) = some (bytes.take n)
  marker : fs.isDir (fileItem store file markerName) = false
  below : ∀ q, generationsDir store file <+: q → fs[q]?.isSome = true → before[q]?.isSome = true
  closed : fs.ClosedBelow (generationsDir store file)
  evidence : EvidenceFits fs

theorem generationsDir_head {q : Path} (hq : generationsDir store file <+: q) :
    q.head? ≠ some evidenceName := by
  obtain ⟨rest, rfl⟩ := hq
  exact stores_head

namespace Halfway

section

variable (h : Halfway store file generation bytes before fs)

include h

variable {name : Text}

theorem fileItem (hselected : name ≠ selectedName) (hmarker : name ≠ markerName) :
    fs[fileItem store file name]? = before[Wdlp.fileItem store file name]? :=
  h.paths _ stores_head (fileItem_ne hselected) (fileItem_ne hmarker) fun _ hp =>
    absurd hp.length_le (by simp [Wdlp.fileItem, generationEntry])

theorem generationItem (name : Text) : fs[generationItem store file generation name]? =
      before[Wdlp.generationItem store file generation name]? := by
  have hhead : (Wdlp.generationItem store file generation name).head? ≠ some evidenceName :=
    stores_head
  exact h.paths _ hhead generationItem_ne_fileItem generationItem_ne_fileItem
    fun _ hp => generationEntry_inj hp ⟨[name], rfl⟩

/-- A change of the evidence. -/
theorem evidenceChanged (hsame : ∀ q : Path, q.head? ≠ some evidenceName → fs'[q]? = fs[q]?)
    (hevidence : EvidenceFits fs') : Halfway store file generation bytes before fs' where
  paths q hq hselected hmarker hname := (hsame q hq).trans (h.paths q hq hselected hmarker hname)
  selected := by
    have hget := hsame (selectedPath store file) stores_head
    rw [hget, Fs.read?_congr hget]
    exact h.selected
  marker := (Fs.isDir_congr (hsame _ stores_head)).trans h.marker
  below q hq hsome := h.below q hq (hsame q (generationsDir_head hq) ▸ hsome)
  closed := h.closed.congr fun q hq => hsame q (generationsDir_head hq)
  evidence := hevidence

/-- A change of a file in the directory of the file. -/
theorem itemChanged (hname : name = selectedName ∨ name = markerName)
    (hsame : ∀ q, q ≠ Wdlp.fileItem store file name → fs'[q]? = fs[q]?)
    (hselected : fs'[selectedPath store file]? = none ∨
      ∃ n, fs'.read? (selectedPath store file) = some (bytes.take n))
    (hmarker : fs'.isDir (Wdlp.fileItem store file markerName) = false) :
    Halfway store file generation bytes before fs' := by
  have hgenerations : ∀ q, generationsDir store file <+: q → fs'[q]? = fs[q]? := by
    rintro q hq
    refine hsame q ?_
    rintro rfl
    have heq : generationsName = name :=
      Option.some.inj (congrArg List.getLast? (hq.eq_of_length rfl))
    rcases hname with rfl | rfl
    · exact selectedName_ne_generationsName heq.symm
    · exact markerName_ne_generationsName heq.symm
  refine ⟨fun q hq hs hm hn => (hsame q ?_).trans (h.paths q hq hs hm hn), hselected, hmarker,
    fun q hq hsome => h.below q hq (hgenerations q hq ▸ hsome), h.closed.congr hgenerations,
    fun q node hq hnode => h.evidence q node hq ((hsame q ?_).symm.trans hnode)⟩
  · rcases hname with rfl | rfl
    · exact hs
    · exact hm
  · rintro rfl
    exact stores_head hq

/-- The former pointer was copied, or a beginning of it. -/
theorem copied (hbytes : before.read? (previousPath store file) = some bytes)
    (hl : FsOp.Leaves (.copy (previousPath store file) (selectedPath store file)) fs fs') :
    Halfway store file generation bytes before fs' := by
  have hread : fs.read? (previousPath store file) = some bytes :=
    (Fs.read?_congr (h.fileItem selectedName_ne_previousName.symm previousName_ne_markerName)).trans
      hbytes
  have hsame : ∀ q, q ≠ selectedPath store file → fs'[q]? = fs[q]? :=
    fun q hq => hl.get_eq fun ht => hq ht
  refine h.itemChanged (.inl rfl) hsame ?_ ((Fs.isDir_congr (hsame _
    (fileItem_ne selectedName_ne_markerName.symm))).trans h.marker)
  have hinsert : ∀ n, Fs.read? (fs.insert (selectedPath store file) (.file (bytes.take n) false))
      (selectedPath store file) = some (bytes.take n) :=
    fun n => Fs.read?_eq_some.mpr ⟨false, Map.get_insert_self⟩
  rcases hl with he | ⟨n, rfl⟩ | rfl
  · obtain ⟨bytes', hbytes', -, rfl⟩ := FsOp.effect_copy.mp he
    obtain rfl := Option.some.inj (hbytes'.symm.trans hread)
    refine .inr ⟨bytes'.length, ?_⟩
    have hall := hinsert bytes'.length
    rwa [List.take_length] at hall ⊢
  · cases n with
    | zero => exact h.selected
    | succ n =>
      simp only [FsOp.interrupted, hread]
      cases FsOp.effect (.copy (previousPath store file) (selectedPath store file)) fs with
      | ok fs => exact .inr ⟨n, hinsert n⟩
      | error kind => exact h.selected
  · exact h.selected

/-- The marker of the file was written. -/
theorem markerWritten {op : FsOp} (hop : WriteOp (· = markerPath (fileDir store file)) op)
    (hl : op.Leaves fs fs') : Halfway store file generation bytes before fs' := by
  have hsame : ∀ q, q ≠ Wdlp.fileItem store file markerName → fs'[q]? = fs[q]? :=
    fun q hq => hl.get_eq fun ht => hq (hop.touches ht)
  have hselected := hsame (selectedPath store file) (fileItem_ne selectedName_ne_markerName)
  refine h.itemChanged (.inr rfl) hsame ?_ (Bool.eq_false_iff.mpr fun hdir => ?_)
  · rw [hselected, Fs.read?_congr hselected]
    exact h.selected
  · -- what is written is a file
    have hsuits : op.Suits fun _ => NodeKind.file := hop.suits fun _ _ => rfl
    have hne : Wdlp.fileItem store file markerName ≠ [] := List.cons_ne_nil _ _
    have hnode : fs'[Wdlp.fileItem store file markerName]? = some .dir := by
      simpa [Fs.isDir, hne] using hdir
    rcases hsuits.leaves hl hnode with hold | hkind
    · exact Bool.false_ne_true (h.marker.symm.trans (by simp [Fs.isDir, hold]))
    · cases hkind

/-- A generation other than the given one was removed, or a part of it. -/
theorem removed (hname : name ≠ generationName generation)
    (hl : FsOp.Leaves (.removeDirAll (generationEntry store file name)) fs fs') :
    Halfway store file generation bytes before fs' := by
  have hsame : ∀ q, ¬generationEntry store file name <+: q → fs'[q]? = fs[q]? :=
    fun q hq => hl.get_eq hq
  have hitem : ∀ name', ¬generationEntry store file name <+: Wdlp.fileItem store file name' :=
    fun name' hp => absurd hp.length_le (by simp [Wdlp.fileItem, generationEntry])
  have hevidence : ∀ q : Path, q.head? = some evidenceName →
      ¬generationEntry store file name <+: q := by
    rintro _ hq ⟨rest, rfl⟩
    exact storesName_ne_evidenceName (Option.some.inj hq)
  have herased : fs'.ClosedBelow (generationsDir store file) ∧
      ∀ q : Path, fs'[q]?.isSome = true → fs[q]?.isSome = true := by
    have herase : ∀ (ps : List Path) (q : Path), (fs.eraseAll ps)[q]?.isSome = true → fs[q]?.isSome = true := by
      intro ps q hsome
      rw [Fs.get_eraseAll] at hsome
      split_ifs at hsome with hm
      · cases hsome
      · exact hsome
    rcases hl with he | ⟨n, rfl⟩ | rfl
    · obtain ⟨-, rfl⟩ := FsOp.effect_removeDirAll.mp he
      exact ⟨h.closed.removed, herase _⟩
    · exact ⟨h.closed.removing n, herase _⟩
    · exact ⟨h.closed, fun _ hsome => hsome⟩
  have hselected := hsame (selectedPath store file) (hitem _)
  refine ⟨fun q hq hs hm hn => (hsame q fun hp => hname (hn name hp)).trans
    (h.paths q hq hs hm hn), ?_, (Fs.isDir_congr (hsame _ (hitem _))).trans h.marker,
    fun q hq hsome => h.below q hq (herased.2 q hsome), herased.1,
    fun q node hq hnode => h.evidence q node hq ((hsame q (hevidence q hq)).symm.trans hnode)⟩
  rw [hselected, Fs.read?_congr hselected]
  exact h.selected

end

end Halfway

end Halfway

/-! ### Recovery that is cut off -/

variable {record : EncryptedRecordV1}

/-- A record that was read is there. -/
theorem read?_of_readRecord (h : readRecord path s = .ok record t) :
    ∃ bytes, s.disk.fs.read? path = some bytes ∧ EncryptedRecordV1.decode bytes = .ok record := by
  obtain ⟨bytes, s₁, hbytes, hof⟩ := bind_eq_ok.mp h
  obtain ⟨hdecode, rfl⟩ := ofExcept_eq_ok.mp hof
  obtain ⟨d, hd, rfl⟩ := zoom_eq_ok.mp hbytes
  rcases Disk.readFile_cases path s.disk with ⟨found, hfound, hread⟩ | ⟨kind, hread⟩ | hread
  · obtain ⟨rfl, rfl⟩ := Outcome.ok.inj (hread.symm.trans hd)
    exact ⟨found, hfound, hdecode⟩
  · cases hread.symm.trans hd
  · cases hread.symm.trans hd

section CutOff

variable {bytes : Bytes} (hprior : PriorOnly P file generation data s)
  (hbytes : s.disk.fs.read? (previousPath s.store.storeId file) = some bytes)

/-- The store is the one from the beginning, on what recovery leaves. -/
private def Left (s : Sys) (file : FileId) (generation : UInt64) (bytes : Bytes) (c : Core) : Prop :=
  c.store = s.store ∧ Halfway s.store.storeId file generation bytes s.disk.fs c.fs

private theorem left_evidenceKeeps : EvidenceKeeps (Left s file generation bytes) where
  ops op hop c fs hl hc := by
    refine ⟨hc.1, hc.2.evidenceChanged (fun q hq => hl.get_eq fun ht => hq (hop.touches ht)) ?_⟩
    exact fun q node hq hnode => (hop.suits.leaves hl hnode).elim (hc.2.evidence q node hq) id
  counts _ _ _ hc := hc

include hprior in
private theorem keeps_commitGeneration_prior : Keeps (Left s file generation bytes)
    (commitGeneration P (previousPath s.store.storeId file) file) (· = generation) := by
  intro s' hs'
  refine wp_of_keeps keeps_commitGeneration hs' (fun found t hrun ht _ => ⟨ht, ?_⟩)
    (fun _ _ => id) fun _ => id
  have hsession : SameSession s.quiet s'.quiet :=
    ⟨rfl, rfl, congrArg Store.storeId hs'.1, congrArg Store.key hs'.1⟩
  have hsame : s'.quiet.disk.fs[previousPath s.store.storeId file]? =
      s.quiet.disk.fs[previousPath s.store.storeId file]? :=
    hs'.2.fileItem selectedName_ne_previousName.symm previousName_ne_markerName
  have hsame := (hsession.alike_commitGeneration (.inl hsame)).ok hprior.commit
  have hquiet := (settled_commitGeneration _ _ _ hrun).2
  exact (Outcome.ok.inj (hquiet.symm.trans hsame)).1

include hprior hbytes in
private theorem keeps_recoverFromPriorPointer :
    Keeps (Left s file generation bytes) (recoverFromPriorPointer P file) := by
  have hid : ∀ c, Left s file generation bytes c → c.store.storeId = s.store.storeId :=
    fun c hc => congrArg Store.storeId hc.1
  have hstore : Keeps (Left s file generation bytes) getStore fun st =>
      st.storeId = s.store.storeId :=
    .mono keeps_getStore fun _ ⟨c, hc, hst⟩ => hst ▸ hid c hc
  refine .bind hstore fun st hst => ?_
  rw [hst]
  refine .bind (.attempt keeps_readFromPointer) fun result _ => ?_
  split
  · exact .throw _
  · exact .throw _
  · refine .bind (keeps_commitGeneration_prior hprior) fun found hfound => ?_
    subst hfound
    refine .bind (keeps_io fun c fs hl hc => ⟨hc.1, hc.2.copied hbytes hl⟩) fun _ _ => ?_
    refine .bind (keeps_flushDirectoryMarker fun op hop c fs hl hc =>
      ⟨hc.1, hc.2.markerWritten hop hl⟩) fun _ _ => ?_
    refine .bind (left_evidenceKeeps.keeps_cleanup hid fun name hname c fs hl hc =>
      ⟨hc.1, hc.2.removed hname hl⟩) fun _ _ => .pure trivial

include hprior hbytes in
/-- What recovery leaves when the current pointer is gone, however it ends. -/
theorem halfway_recoverStore
    (horder : Orderly file s) : (recoverStore P file s).state.store = s.store ∧ Halfway
    s.store.storeId file generation bytes s.disk.fs (recoverStore P file s).state.disk.fs := by
  have hinit : Left s file generation bytes s.core :=
    ⟨rfl, fun _ _ _ _ _ => rfl, .inl hprior.gone, horder.marker, fun _ _ hsome => hsome,
      horder.tree.below _, horder.evidence⟩
  have hattempt : Act.attempt (recoverSelectedFromPrior P file) s =
      Act.attempt (recoverFromPriorPointer P file) s := by
    rw [attempt_apply, attempt_apply, recoverSelectedFromPrior_of_gone rfl hprior.gone]
  have hrun : recoverStore P file s = (Act.attempt (recoverSelectedFromPrior P file) >>= _) s := rfl
  rw [hrun, bind_apply, hattempt, ← bind_apply]
  refine Keeps.state (R := fun _ => True)
    (.bind (.attempt (keeps_recoverFromPriorPointer hprior hbytes)) fun result _ => ?_) hinit
  split
  · refine .bind (R := fun _ => True) ?_ fun _ _ => .throw _
    exact .bind keeps_getStore fun _ _ =>
      left_evidenceKeeps.keeps_preserveEvidenceDirectory
  · exact .throw _
  · exact .pure trivial

end CutOff

/-! ### Recovery from what was left -/

/-- A pointer that was read is one that holds a record, as does the generation that it commits. -/
theorem read?_of_readFromPointer (hquiet : s.disk.fates = [])
    (h : readFromPointer P path file s = .ok data t) :
    (∃ bytes record, s.disk.fs.read? path = some bytes ∧
      EncryptedRecordV1.decode bytes = .ok record) ∧
    ∃ generation bytes, s.disk.fs.read? (commitPath s.store.storeId file generation) =
      some bytes := by
  obtain ⟨selected, hcommit, -⟩ := readCommit_of_readFromPointer hquiet h
  obtain ⟨selected', s₁, hcommit', hrest⟩ := bind_eq_ok.mp h
  obtain ⟨rfl, rfl⟩ := Outcome.ok.inj (hcommit.symm.trans hcommit')
  obtain ⟨_, s₂, hcheck, -⟩ := bind_eq_ok.mp hrest
  obtain ⟨store, s₃, hstore, hrecord⟩ := bind_eq_ok.mp hcheck
  obtain ⟨rfl, rfl⟩ := Outcome.ok.inj hstore
  obtain ⟨record, s₄, hrecord, -⟩ := bind_eq_ok.mp hrecord
  obtain ⟨bytes, hbytes, -⟩ := read?_of_readRecord hrecord
  obtain ⟨store, s₅, hstore, hpointer⟩ := bind_eq_ok.mp hcommit
  obtain ⟨rfl, rfl⟩ := Outcome.ok.inj hstore
  obtain ⟨pointer, s₆, hpointer, -⟩ := bind_eq_ok.mp hpointer
  obtain ⟨bytes', hbytes', hdecode⟩ := read?_of_readRecord hpointer
  exact ⟨⟨bytes', pointer, hbytes', hdecode⟩, _, bytes, hbytes⟩

theorem get_restored_generations {fs : Fs} {bytes : Bytes} {q : Path}
    (hq : generationsDir store file <+: q) : (restored fs store file bytes)[q]? = fs[q]? := by
  have hitem : ∀ name, name ≠ generationsName → q ≠ fileItem store file name := by
    rintro name hname rfl
    exact hname (Option.some.inj (congrArg List.getLast? (hq.eq_of_length rfl))).symm
  exact get_restored (hitem _ selectedName_ne_generationsName)
    (hitem _ markerName_ne_generationsName)

theorem unreferenced_congr {fs fs' : Fs}
    (h : ∀ q, generationsDir store file <+: q → fs'[q]? = fs[q]?) :
    unreferenced fs' store file generation = unreferenced fs store file generation := by
  have hentry : ∀ name, fs'[generationEntry store file name]? =
      fs[generationEntry store file name]? := fun name => h _ ⟨[name], rfl⟩
  have hnames : fs'.readDir (generationsDir store file) = fs.readDir (generationsDir store file) :=
    Fs.readDir_congr fun name => congrArg Option.isSome (hentry name)
  unfold unreferenced
  rw [hnames]
  exact List.filter_congr fun name _ => by rw [Fs.isDir_congr (hentry name)]

section Resumed

variable {bytes : Bytes} {c : Sys} (hprior : PriorOnly P file generation data s)
  (horder : Orderly file s)
  (hbytes : s.disk.fs.read? (previousPath s.store.storeId file) = some bytes)
  (hhalf : Halfway s.store.storeId file generation bytes s.disk.fs c.disk.fs)
  (hsession : SameSession s.quiet c)

include horder hbytes hhalf

/-- The directories above the file are there. -/
theorem Halfway.directory {q : Path} (hq : q <+: fileDir s.store.storeId file) (hne : q ≠ []) :
    c.disk.fs[q]? = some .dir := by
  obtain ⟨synced, hnode⟩ := Fs.read?_eq_some.mp hbytes
  have hlength : q.length ≤ 4 := hq.length_le
  have hdir : s.disk.fs.isDir q = true := by
    refine horder.tree.isDir (q := previousPath s.store.storeId file) (by rw [hnode]; rfl)
      (hq.trans ⟨[previousName], rfl⟩) fun heq => ?_
    rw [heq] at hlength
    exact absurd hlength (by simp [previousPath, Wdlp.fileItem])
  have hhead : q.head? ≠ some evidenceName := by
    cases q with
    | nil => exact absurd rfl hne
    | cons a rest =>
      obtain ⟨rest', hrest⟩ := hq
      obtain rfl : a = storesName := Option.some.inj (congrArg List.head? hrest)
      exact stores_head
  have hitem : ∀ name, q ≠ Wdlp.fileItem s.store.storeId file name := by
    rintro name rfl
    exact absurd hlength (by simp [Wdlp.fileItem])
  rw [hhalf.paths q hhead (hitem _) (hitem _) fun name hp => ?_]
  · simpa [Fs.isDir, hne] using hdir
  · exact absurd hp.length_le (by simp [generationEntry]; omega)

omit horder hbytes in
include hprior hsession in
/-- Pointers that hold what the former one held give the same. -/
theorem read_of_sameBytes (hsame : SameBytes s.quiet (previousPath s.store.storeId file) c path) :
    readFromPointer P path file c = .ok data c ∧
      commitGeneration P path file c = .ok generation c := by
  refine ⟨Act.Alike.ok (hsession.alike_readFromPointer hsame fun selected hselected => ?_)
    hprior.read, (hsession.alike_commitGeneration hsame).ok hprior.commit⟩
  obtain ⟨rfl, -⟩ := Outcome.ok.inj (hprior.commit.symm.trans (bind_of_ok hselected))
  exact hhalf.generationItem

omit horder hbytes in
theorem Halfway.previous :
    c.disk.fs[previousPath s.store.storeId file]? = s.disk.fs[previousPath s.store.storeId file]? :=
  hhalf.fileItem selectedName_ne_previousName.symm previousName_ne_markerName

include hprior hsession

omit hbytes in
/-- Cleaning up returns on what was left. -/
theorem cleanup_of_halfway
    (hfree : ∀ n, c.counters.nextEvidence ≤ n → c.disk.fs[evidenceDir (evidenceId n)]? = none) :
    (cleanupUnreferencedStaging P file generation).Completes (fun _ c' =>
      c'.counters.nextEvidence = c.counters.nextEvidence +
        (unreferenced c.disk.fs s.store.storeId file generation).length) c := by
  obtain ⟨hread, hcommit⟩ := read_of_sameBytes hprior hhalf hsession (.inl hhalf.previous)
  rw [← show c.store.storeId = s.store.storeId from hsession.storeId] at hread hcommit
  have hpg : priorGeneration P file c = .ok (some generation) c := by
    obtain ⟨selected, hselected, hpg⟩ := priorGeneration_of_read hsession.quiet' hread
    obtain ⟨rfl, -⟩ := Outcome.ok.inj (hcommit.symm.trans (bind_of_ok hselected))
    exact hpg
  have hgenerations : c.disk.fs.isDir (generationsDir s.store.storeId file) = true := by
    obtain ⟨-, found, bytes', hitem⟩ := read?_of_readFromPointer (s := s.quiet) rfl hprior.read
    obtain ⟨synced, hnode⟩ := Fs.read?_eq_some.mp hitem
    refine (Fs.isDir_congr (hhalf.fileItem selectedName_ne_generationsName.symm
      markerName_ne_generationsName.symm)).trans ?_
    refine horder.tree.isDir (q := commitPath s.store.storeId file found)
      ((congrArg Option.isSome hnode).trans rfl) ⟨[generationName found, commitName], rfl⟩ ?_
    exact fun heq => absurd (congrArg List.length heq)
      (by simp [Wdlp.fileItem, commitPath, Wdlp.generationItem])
  have hid : c.store.storeId = s.store.storeId := hsession.storeId
  refine (cleanup_completes ⟨hsession.quiet', hhalf.evidence⟩ hid hfree hgenerations hpg
    fun name => (horder.few name).mono fun q hq hsome => hhalf.below q
      (List.IsPrefix.trans ⟨[name], rfl⟩ hq) hsome).mono fun _ c' hc' => ?_
  refine hc'.count.trans (congrArg (c.counters.nextEvidence + List.length ·) ?_)
  exact List.filter_congr fun name _ => by simp [Sweepable]

omit hprior horder hbytes hsession in
/-- The former pointer was put in place, and the directory was flushed. -/
theorem Halfway.restored : Halfway s.store.storeId file generation bytes s.disk.fs
    (Wdlp.restored c.disk.fs s.store.storeId file bytes) := by
  refine ⟨fun q hq hs hm hn => (get_restored hs hm).trans (hhalf.paths q hq hs hm hn),
    .inr ⟨bytes.length, ?_⟩, ?_, fun q hq hsome => hhalf.below q hq
      (get_restored_generations hq ▸ hsome), hhalf.closed.congr fun _ => get_restored_generations,
    fun q node hq hnode => ?_⟩
  · rw [List.take_length]
    exact read?_restored
  · simp [Fs.isDir, Wdlp.restored, Wdlp.fileItem]
  · have hne : ∀ name, q ≠ Wdlp.fileItem s.store.storeId file name := by
      rintro name rfl
      exact stores_head hq
    exact hhalf.evidence q node hq ((get_restored (hne _) (hne _)).symm.trans hnode)

/-- Recovery returns on what was left, when the pointer is gone or whole and no name is taken. -/
theorem recoverStore_completes
    (hfree : ∀ n, c.counters.nextEvidence ≤ n → c.disk.fs[evidenceDir (evidenceId n)]? = none)
    (hpointer : c.disk.fs[selectedPath s.store.storeId file]? = none ∨
      c.disk.fs.read? (selectedPath s.store.storeId file) = some bytes) :
    ∃ fromPrior c', recoverStore P file c = .ok ⟨generation, fromPrior⟩ c' ∧
      c'.counters.nextEvidence = c.counters.nextEvidence +
        (unreferenced c.disk.fs s.store.storeId file generation).length := by
  rcases hpointer with hgone | hwhole
  · obtain ⟨hread, hcommit⟩ := read_of_sameBytes hprior hhalf hsession (.inl hhalf.previous)
    obtain ⟨c₁, hcore, hquiet, hrun⟩ := recoverStore_of_gone hsession.quiet' hsession.storeId hgone
      (hhalf.directory horder hbytes (List.prefix_refl _) (List.cons_ne_nil _ _)) hhalf.marker
      ((Fs.read?_congr hhalf.previous).trans hbytes) hread hcommit
    have hfs : c₁.disk.fs = Wdlp.restored c.disk.fs s.store.storeId file bytes :=
      congrArg Core.fs hcore
    have hstore : c₁.store = c.store := congrArg Core.store hcore
    have hnext : c₁.counters.nextEvidence = c.counters.nextEvidence :=
      congrArg (fun core => core.counters.nextEvidence) hcore
    have hhalf₁ : Halfway s.store.storeId file generation bytes s.disk.fs c₁.disk.fs :=
      hfs ▸ hhalf.restored
    have hsession₁ : SameSession s.quiet c₁ :=
      ⟨rfl, hquiet, hstore ▸ hsession.storeId, hstore ▸ hsession.key⟩
    have hfree₁ : ∀ n, c₁.counters.nextEvidence ≤ n →
        c₁.disk.fs[evidenceDir (evidenceId n)]? = none := by
      intro n hn
      have hne : ∀ name, evidenceDir (evidenceId n) ≠ Wdlp.fileItem s.store.storeId file name :=
        fun name heq => absurd (congrArg List.length heq) (by simp [evidenceDir, Wdlp.fileItem])
      rw [hfs, get_restored (hne _) (hne _)]
      exact hfree n (hnext ▸ hn)
    have hclean : (cleanupUnreferencedStaging P file generation).Completes _ c₁ :=
      cleanup_of_halfway hprior horder hhalf₁ hsession₁ hfree₁
    obtain ⟨_, c', hclean, hcount⟩ := hclean
    refine ⟨true, c', hrun c' hclean, ?_⟩
    rw [hcount, hnext, hfs, unreferenced_congr fun _ => get_restored_generations]
  · have hsame : SameBytes s.quiet (previousPath s.store.storeId file) c
        (selectedPath s.store.storeId file) := .inr ⟨bytes, hbytes, hwhole⟩
    obtain ⟨hread, hcommit⟩ := read_of_sameBytes hprior hhalf hsession hsame
    have hclean : (cleanupUnreferencedStaging P file generation).Completes _ c :=
      cleanup_of_halfway hprior horder hhalf hsession hfree
    obtain ⟨_, c', hclean, hcount⟩ := hclean
    exact ⟨false, c', recoverStore_of_clean hsession.storeId hsession.quiet' hread hcommit hclean,
      hcount⟩

end Resumed

/-! ### Results -/

/-- A pointer with a beginning of the bytes of the former one is rejected, unless it has them all. -/
theorem read?_selected_of_recoverStore {bytes : Bytes} {report : RecoveryReport} {n : ℕ}
    (hquiet : s.disk.fates = []) (hdecode : EncryptedRecordV1.decode bytes = .ok record)
    (hselected : s.disk.fs.read? (selectedPath s.store.storeId file) = some (bytes.take n))
    (h : recoverStore P file s = .ok report t) :
    s.disk.fs.read? (selectedPath s.store.storeId file) = some bytes := by
  obtain ⟨synced, hnode⟩ := Fs.read?_eq_some.mp hselected
  have hpresent : s.disk.fs.present (selectedPath s.store.storeId file) = true := by
    have hne : selectedPath s.store.storeId file ≠ [] := List.cons_ne_nil _ _
    rw [Fs.present_eq hne, hnode]
    rfl
  obtain ⟨data, u, hplace, -⟩ := recoverStore_eq_ok hquiet h
  have hread := hplace.read
  rw [usedPointer, if_pos hpresent] at hread
  obtain ⟨⟨bytes', record', hbytes', hdecode'⟩, -⟩ := read?_of_readFromPointer hquiet hread
  obtain rfl := Option.some.inj (hselected.symm.trans hbytes')
  rw [← List.take_append_drop n bytes] at hdecode
  have hrest := EncryptedRecordV1.decode_append hdecode' hdecode
  rw [hselected]
  refine congrArg some ?_
  conv_rhs => rw [← List.take_append_drop n bytes, hrest, List.append_nil]

/-- After a crash in recovery, recovery on the reopened store selects the former generation again
exactly when the copy of the pointer was not begun or has all bytes, and none of the names that are
needed for the evidence is taken. -/
theorem recovery_resumes_iff {identity : CapturedStoreIdentity} {key : StoreKey}
    (hprior : PriorOnly P file generation data s) (horder : Orderly file s)
    (hcrash : recoverStore P file s = .crash t) (hid : identity.storeId = s.store.storeId)
    (hkey : key = s.store.key)
    (hopen : openStore P identity key { t.quiet with counters := {} } = .ok () u) :
    (∃ fromPrior v, recoverStore P file u = .ok ⟨generation, fromPrior⟩ v ∧
      readFile P file v = .ok data v) ↔
    (t.disk.fs[selectedPath s.store.storeId file]? = none ∨
      t.disk.fs.read? (selectedPath s.store.storeId file) =
        t.disk.fs.read? (previousPath s.store.storeId file)) ∧
    ∀ n, 1 ≤ n → n ≤ (unreferenced t.disk.fs s.store.storeId file generation).length →
      t.disk.fs[evidenceDir (evidenceId n)]? = none := by
  obtain ⟨⟨bytes, record, hbytes, hdecode⟩, -⟩ :=
    read?_of_readFromPointer (s := s.quiet) rfl hprior.read
  -- what the crash has left, and the process that opens the store on it
  obtain ⟨hstore, hhalf⟩ := halfway_recoverStore hprior hbytes horder
  rw [hcrash] at hstore hhalf
  simp only [Outcome.state_crash] at hstore hhalf
  have hreopened : Reopened t u := by
    refine reopened_of_openStore (hid.trans (congrArg Store.storeId hstore).symm)
      (hkey.trans (congrArg Store.key hstore).symm) (fun q hne hq => ?_) hopen
    rw [hid] at hq
    exact hhalf.directory horder hbytes (hq.trans ⟨[file.toWire], rfl⟩) hne
  have hfs : u.disk.fs = t.disk.fs := Std.ExtTreeMap.ext_getElem? fun q => hreopened.disk q
  have huid : u.store.storeId = s.store.storeId :=
    hreopened.storeId.trans (congrArg Store.storeId hstore)
  have hukey : u.store.key = s.store.key := hreopened.key.trans (congrArg Store.key hstore)
  have hunext : u.counters.nextEvidence = 1 := congrArg Counters.nextEvidence hreopened.counters
  rw [← hfs] at hhalf ⊢
  have hprevious : u.disk.fs.read? (previousPath s.store.storeId file) = some bytes :=
    (Fs.read?_congr hhalf.previous).trans hbytes
  have hsession : SameSession s.quiet u := ⟨rfl, hreopened.quiet, huid, hukey⟩
  -- the same process on the disk without evidence
  have hinOrder : EvidenceInOrder u := ⟨hreopened.quiet, hhalf.evidence⟩
  have htwins := twins_withoutEvidence hinOrder
  have hclean : Halfway s.store.storeId file generation bytes s.disk.fs
      u.withoutEvidence.disk.fs := hhalf.evidenceChanged htwins.outside htwins.right.fits
  have hcsession : SameSession s.quiet u.withoutEvidence := ⟨rfl, hreopened.quiet, huid, hukey⟩
  have hcount : unreferenced u.withoutEvidence.disk.fs s.store.storeId file generation =
      unreferenced u.disk.fs s.store.storeId file generation :=
    unreferenced_congr fun q hq => htwins.outside q (generationsDir_head hq)
  have hcompletes : (u.disk.fs[selectedPath s.store.storeId file]? = none ∨
      u.disk.fs.read? (selectedPath s.store.storeId file) = some bytes) →
      ∃ fromPrior c', recoverStore P file u.withoutEvidence = .ok ⟨generation, fromPrior⟩ c' ∧
        c'.counters.nextEvidence = 1 +
          (unreferenced u.disk.fs s.store.storeId file generation).length := by
    intro hpointer
    have hget := htwins.outside (selectedPath s.store.storeId file) stores_head
    rw [← hget, ← Fs.read?_congr hget] at hpointer
    obtain ⟨fromPrior, c', hrun, hnext⟩ :=
      recoverStore_completes hprior horder hbytes hclean hcsession htwins.free hpointer
    refine ⟨fromPrior, c', hrun, hnext.trans ?_⟩
    rw [hcount, show u.withoutEvidence.counters.nextEvidence = 1 from hunext]
  have htracks : (recoverStore P file).Tracks (Twins u) .ioFailure (fun c => Clash u c.core) u
      (recoverStore P file) u.withoutEvidence := recoverStore_tracks htwins
  rw [hprevious]
  constructor
  · rintro ⟨fromPrior, v, hrun, -⟩
    have hpointer : u.disk.fs[selectedPath s.store.storeId file]? = none ∨
        u.disk.fs.read? (selectedPath s.store.storeId file) = some bytes := by
      refine hhalf.selected.imp_right fun ⟨n, hn⟩ => ?_
      rw [← huid] at hn ⊢
      exact read?_selected_of_recoverStore hreopened.quiet hdecode hn hrun
    refine ⟨hpointer, fun n hn hle => ?_⟩
    obtain ⟨fromPrior', c', hrun', hnext⟩ := hcompletes hpointer
    rcases htracks with ⟨x, s', c'', hs', hc'', h'⟩ | ⟨⟨s', hs'⟩, -⟩
    · have hstate : c'' = c' := by
        cases x with
        | ok report => exact (Outcome.ok.inj (hc''.symm.trans hrun')).2
        | error e => cases hc''.symm.trans hrun'
      subst hstate
      refine h'.unclashed n (hunext.trans_le hn) ?_
      rw [← h'.next, hnext]
      omega
    · cases hs'.symm.trans hrun
  · rintro ⟨hpointer, hfree⟩
    obtain ⟨fromPrior, c', hrun', hnext⟩ := hcompletes hpointer
    rcases htracks with ⟨x, v, c'', hv, hc'', -⟩ | ⟨-, hclash⟩
    · obtain rfl : x = .ok ⟨generation, fromPrior⟩ := by
        cases x with
        | ok report => exact congrArg Except.ok (Outcome.ok.inj (hc''.symm.trans hrun')).1
        | error e => cases hc''.symm.trans hrun'
      refine ⟨fromPrior, v, hv, ?_⟩
      obtain ⟨data', hread, -, hfile⟩ :=
        readFile_of_recoverStore hreopened.quiet (huid ▸ hhalf.closed) hv
      have hused : SameBytes s.quiet (previousPath s.store.storeId file) u (usedPointer u file) := by
        unfold usedPointer
        rw [huid]
        split_ifs with hpresent
        · refine .inr ⟨bytes, hbytes, hpointer.resolve_left fun hnone => ?_⟩
          have hne : selectedPath s.store.storeId file ≠ [] := List.cons_ne_nil _ _
          rw [Fs.present_eq hne, hnone] at hpresent
          cases hpresent
        · exact .inl hhalf.previous
      have hdata := (read_of_sameBytes hprior hhalf hsession hused).1
      obtain ⟨rfl, -⟩ := Outcome.ok.inj (hread.symm.trans hdata)
      exact hfile
    · obtain ⟨n, hn, hlt, htaken⟩ := hclash.taken
      rw [hrun'] at hlt
      have hlt' : n < c'.counters.nextEvidence := hlt
      exact absurd (hfree n (hunext ▸ hn) (by omega)) htaken

/-- The current pointer of a file is gone because a flush was cut off, and a process recovers it in
front of the given fates. -/
def atRecovery (fates : List Fate) : Sys :=
  let opened := (openStore .plain soleIdentity zeroKey cutOffLeft).state
  { opened with disk := { opened.disk with fates } }

/-- The process after it, when that one was cut off. -/
def afterRecovery (fates : List Fate) : Sys :=
  (openStore .plain soleIdentity zeroKey
    { (recoverStore .plain soleFile (atRecovery fates)).state.quiet with counters := {} }).state

/-- The copy of the pointer is cut off after four bytes. -/
def copyCutOff : List Fate := List.replicate 5 .ok ++ [.crash 5]

/-- With half of the copy, recovery is refused, although the former pointer can be read in full. -/
theorem copy_cut_off_is_rejected :
    (atRecovery copyCutOff).disk.fs[selectedPath soleIdentity.storeId soleFile]? = none ∧
      (readFromPointer .plain (previousPath soleIdentity.storeId soleFile) soleFile
        (atRecovery copyCutOff).quiet).result? = some (.ok [1]) ∧
      (recoverStore .plain soleFile (atRecovery copyCutOff)).result? = none ∧
      (recoverStore .plain soleFile (afterRecovery copyCutOff)).result? =
        some (.error .integrityFailure) := by
  decide +kernel

theorem recovery_resumes_cutOff :
    ∃ fromPrior v, recoverStore .plain soleFile (afterRecovery [.crash 0]) =
      .ok ⟨1, fromPrior⟩ v ∧ readFile .plain soleFile v = .ok [1] v := by
  have hnone : ∀ q ∈ (atRecovery [.crash 0]).disk.fs.keys, q.head? ≠ some evidenceName := by
    decide +kernel
  have hkeys : 1 + (atRecovery [.crash 0]).disk.fs.keys.length < 2 ^ 64 := by decide +kernel
  have hprior : PriorOnly .plain soleFile 1 [1] (atRecovery [.crash 0]) :=
    ⟨by decide +kernel, (reads_readFromPointer rfl).eq_ok (by decide +kernel),
      (reads_commitGeneration rfl).eq_ok (by decide +kernel)⟩
  have horder : Orderly soleFile (atRecovery [.crash 0]) := by
    refine ⟨by decide +kernel, fun q node hq hnode => absurd hq (hnone q ?_), by decide +kernel,
      fun name => ?_⟩
    · simpa using Map.mem_iff_get.mpr ⟨node, hnode⟩
    · have hle : ((atRecovery [.crash 0]).disk.fs.under (generationEntry
          (atRecovery [.crash 0]).store.storeId soleFile name)).length ≤ _ :=
        List.length_filter_le _ _
      unfold FewBelow
      omega
  have hcrash : recoverStore .plain soleFile (atRecovery [.crash 0]) =
      .crash (recoverStore .plain soleFile (atRecovery [.crash 0])).state :=
    Outcome.eq_crash (by decide +kernel)
  have hopen : openStore .plain soleIdentity zeroKey
      { (recoverStore .plain soleFile (atRecovery [.crash 0])).state.quiet with counters := {} } =
        .ok () (afterRecovery [.crash 0]) := Outcome.eq_ok (by decide +kernel)
  exact (recovery_resumes_iff hprior horder hcrash (by decide +kernel) (by decide +kernel) hopen).mpr
    ⟨by decide +kernel, by decide +kernel⟩

end Wdlp
