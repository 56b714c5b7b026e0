import Wdlp.Storage.CleaningUp

/-!
# Recovery on a disk without faults

After a crash, recovery reads the generation that the pointer selects, or the one of the former
pointer when the pointer is gone, and quarantines the generations that neither refers to. On a disk
where nothing goes wrong, with room for new evidence, it succeeds and leaves the generation it
chose.

## Main definitions

* `Tidy` — the disk fits the layout and has room for new evidence.

## Main results

* `reads_readFromPointer` — reading changes nothing.
* `recoverStore_of_gone` — the former pointer is put in place.
* `recoverStore_of_selected`, `recoverStore_of_previous`, `recoverStore_of_absent` — what recovery
  makes of the two pointers.
-/

namespace Wdlp

open CrashSafe Act

variable {P : Primitives} {key : StoreKey} {store : StoreId} {file : FileId} {generation : UInt64}
  {data : Bytes} {s t : Sys} {path : Path}

/-! ### Reading -/

section Reads

variable (hf : s.disk.fates = [])
include hf

theorem reads_readRecord : (readRecord path).Reads s :=
  .bind (.zoom (Disk.reads_readFile hf path) rfl) fun _ => .ofExcept _

theorem reads_readCommit : (readCommit P path file).Reads s := by
  refine .bind (.ofExcept (.ok s.store)) fun _ => ?_
  refine .bind (reads_readRecord hf) fun _ => .bind (.ofExcept _) fun _ => ?_
  exact .bind (.ofExcept _) fun _ => .bind .failIf fun _ => .pure _

theorem reads_commitGeneration : (commitGeneration P path file).Reads s :=
  .bind (reads_readCommit hf) fun _ => .pure _

private theorem reads_readChunks : (lengths : List UInt64) → (index : ℕ) → (nonces : NonceTracker) →
    (out : Bytes) → (readChunks P file generation index lengths nonces out).Reads s
  | [], _, _, _ => .pure _
  | _ :: lengths, index, nonces, out => by
    refine .bind .failIf fun _ => .bind (.ofExcept (.ok s.store)) fun _ => ?_
    refine .bind (reads_readRecord hf) fun _ => .bind (.ofExcept _) fun _ => ?_
    refine .bind .failIf fun _ => .bind (.ofExcept _) fun _ => ?_
    exact .bind (.ofExcept _) fun _ => reads_readChunks lengths (index + 1) _ _

/-- Reading changes nothing. -/
theorem reads_readFromPointer : (readFromPointer P path file).Reads s := by
  have hcheck : ∀ commit, (checkCommitted P file commit).Reads s := by
    intro commit
    refine .bind (.ofExcept (.ok s.store)) fun _ => ?_
    refine .bind (reads_readRecord hf) fun _ => .bind (.ofExcept _) fun _ => ?_
    exact .bind .failIf fun _ => .bind (.ofExcept _) fun _ => .failIf
  have hmanifest : ∀ generation, (readManifest P file generation).Reads s := by
    intro generation
    refine .bind (.ofExcept (.ok s.store)) fun _ => ?_
    refine .bind (reads_readRecord hf) fun _ => .bind (.ofExcept _) fun _ => ?_
    refine .bind .failIf fun _ => .bind (.ofExcept _) fun _ => ?_
    exact .bind .failIf fun _ => .pure _
  refine .bind (reads_readCommit hf) fun _ => .bind (hcheck _) fun _ => ?_
  refine .bind (hmanifest _) fun _ => .bind (.ofExcept _) fun _ => ?_
  refine .bind (.ofExcept _) fun _ => ?_
  refine .bind (reads_readChunks hf _ _ _ _) fun _ => ?_
  exact .bind .failIf fun _ => .pure _

theorem priorGeneration_of_nil : ∃ prior, priorGeneration P file s = .ok prior s := by
  unfold priorGeneration
  rw [bind_of_ok getStore_eq]
  cases hfound : s.disk.fs.present (previousPath s.store.storeId file) with
  | false =>
    have hexists : pathExists (previousPath s.store.storeId file) s = .ok false s :=
      congrArg (Outcome.ok · s) hfound
    exact ⟨none, bind_of_ok hexists⟩
  | true =>
    have hexists : pathExists (previousPath s.store.storeId file) s = .ok true s :=
      congrArg (Outcome.ok · s) hfound
    obtain ⟨x, hx⟩ := (reads_commitGeneration hf).attempt
    exact ⟨x.toOption, (bind_of_ok hexists).trans (bind_of_ok hx)⟩

/-- A pointer that is not there is not found. -/
theorem readFromPointer_of_absent (h : s.disk.fs[path]? = none) :
    readFromPointer P path file s = .err .notFound s := by
  have hread : readRecord path s = .err .notFound s := by
    refine bind_of_err ?_
    rw [zoom_apply, Disk.readFile_of_absent hf h]
    rfl
  refine bind_of_err ?_
  exact (bind_of_ok getStore_eq).trans (bind_of_err hread)

end Reads

/-! ### Cleaning up -/

/-- Nothing goes wrong on the disk, the disk fits the layout and it has room for new evidence. -/
structure Tidy (s : Sys) : Prop where
  quiet : s.disk.fates = []
  fits : s.disk.fs.Fits nodeKind
  room : ∀ n, s.counters.nextEvidence ≤ n → s.disk.fs[evidenceDir (evidenceId n)]? = none

/-- The state has changed in the evidence and in generations other than the given one only. -/
structure CleanedApart (store : StoreId) (file : FileId) (generation : UInt64) (s t : Sys) : Prop
    where
  sameStore : t.store = s.store
  paths : ∀ q : Path, q.head? ≠ some evidenceName →
    (∀ name, generationEntry store file name <+: q → name = generationName generation) →
      t.disk.fs[q]? = s.disk.fs[q]?

theorem CleanedApart.fileItem (h : CleanedApart store file generation s t) (name : Text) :
    t.disk.fs[fileItem store file name]? = s.disk.fs[fileItem store file name]? := by
  refine h.paths _ stores_head fun name' hp => ?_
  exact absurd hp.length_le (by simp [Wdlp.fileItem, generationEntry])

theorem CleanedApart.generationItem (h : CleanedApart store file generation s t) (name : Text) :
    t.disk.fs[generationItem store file generation name]? =
      s.disk.fs[generationItem store file generation name]? := by
  refine h.paths _ stores_head fun name' hp => ?_
  exact generationEntry_inj hp ⟨[name], rfl⟩

/-- Unreferenced generations are quarantined, and nothing else changes. -/
theorem Tidy.cleanup_completes (h : Tidy s) (hid : s.store.storeId = store)
    (hfew : ∀ name, FewBelow s.disk.fs (generationEntry store file name)) :
    (cleanupUnreferencedStaging P file generation).Completes
      (fun _ t => t.disk.fates = [] ∧ CleanedApart store file generation s t) s := by
  cases hnode : s.disk.fs[generationsDir store file]? with
  | none => exact .of_ok (cleanup_of_absent hid hnode) ⟨h.quiet, rfl, fun _ _ _ => rfl⟩
  | some node =>
    have hdir : s.disk.fs.isDir (generationsDir store file) = true := by
      have hkind := h.fits _ _ hnode
      rw [show nodeKind (generationsDir store file) = .dir from if_pos rfl] at hkind
      cases node with
      | dir => simp [Fs.isDir, hnode]
      | file bytes synced => cases hkind
    obtain ⟨prior, hprior⟩ := priorGeneration_of_nil h.quiet
    refine (Wdlp.cleanup_completes ⟨h.quiet, fun q node _ => h.fits q node⟩ hid h.room hdir hprior
      hfew).mono fun _ t ht => ⟨ht.order.quiet, ht.sameStore, fun q hq hnames => ?_⟩
    refine ht.paths q hq fun name _ hp hremoved => hremoved.2 ?_
    exact List.mem_map.mpr ⟨generation, List.mem_cons_self, (hnames name hp).symm⟩

/-! ### Recovery -/

section Recover

variable {R : GenerationRecords} {pointer : Path}

theorem GenerationRecords.Selected.cleaned {name : Text}
    (h : R.Selected s.disk.fs (fileItem store file name) store file generation)
    (hc : CleanedApart store file generation s t) :
    R.Selected t.disk.fs (fileItem store file name) store file generation :=
  h.congr hc.generationItem (hc.fileItem name)

theorem StoredRecord.present {r : EncryptedRecordV1} (h : StoredRecord s.disk.fs path r)
    (hne : path ≠ []) : s.disk.fs.present path = true := by
  obtain ⟨bytes, hread, -⟩ := h
  obtain ⟨synced, hfile⟩ := Fs.read?_eq_some.mp hread
  rw [Fs.present_eq hne, hfile]
  rfl

theorem recoverStore_of_ok {report : RecoveryReport}
    (h : recoverSelectedFromPrior P file s = .ok report t) :
    recoverStore P file s = .ok report t := by
  have hattempt : Act.attempt (recoverSelectedFromPrior P file) s = .ok (.ok report) t := by
    rw [attempt_apply, h]
  exact bind_of_ok hattempt

theorem readFromPointer_attempt (hf : s.disk.fates = []) (hid : s.store.storeId = store)
    (hkey : s.store.key = key) (hs : R.Seals P key store file generation data)
    (hsel : R.Selected s.disk.fs pointer store file generation) :
    Act.attempt (readFromPointer P pointer file) s = .ok (.ok data) s := by
  rw [attempt_apply, readFromPointer_of_selected hf hid hkey hs hsel]

/-- Recovery keeps the generation that the pointer selects. -/
theorem recoverStore_of_selected (h : Tidy s) (hid : s.store.storeId = store)
    (hkey : s.store.key = key) (hfew : ∀ name, FewBelow s.disk.fs (generationEntry store file name))
    (hs : R.Seals P key store file generation data)
    (hsel : R.Selected s.disk.fs (selectedPath store file) store file generation) : ∃ t,
    recoverStore P file s = .ok ⟨generation, false⟩ t ∧ t.store = s.store ∧
    t.disk.fates = [] ∧ R.Selected t.disk.fs (selectedPath store file) store file generation := by
  obtain ⟨_, t, hclean, hquiet, hc⟩ := h.cleanup_completes (P := P) hid hfew
  refine ⟨t, recoverStore_of_ok ?_, hc.sameStore, hquiet, hsel.cleaned hc⟩
  have hexists : pathExists (selectedPath store file) s = .ok true s :=
    congrArg (Outcome.ok · s) (hsel.pointer.present (List.cons_ne_nil _ _))
  unfold recoverSelectedFromPrior
  rw [bind_of_ok getStore_eq, hid, bind_of_ok hexists,
    if_pos rfl, bind_of_ok (readFromPointer_attempt h.quiet hid hkey hs hsel)]
  dsimp only
  rw [bind_of_ok (commitGeneration_of_seals h.quiet hid hkey hs hsel.pointer), bind_of_ok hclean]
  rfl

/-- Without a pointer, the former one is looked at. -/
theorem recoverSelectedFromPrior_of_gone (hid : s.store.storeId = store)
    (hsel : s.disk.fs[selectedPath store file]? = none) :
    recoverSelectedFromPrior P file s = recoverFromPriorPointer P file s := by
  have hne : selectedPath store file ≠ [] := List.cons_ne_nil _ _
  have hexists : pathExists (selectedPath store file) s = .ok false s := by
    refine congrArg (Outcome.ok · s) ?_
    rw [Fs.present_eq hne, hsel]
    rfl
  unfold recoverSelectedFromPrior
  rw [bind_of_ok getStore_eq, hid, bind_of_ok hexists, if_neg Bool.false_ne_true]

/-- Without pointers there is nothing to recover. -/
theorem recoverStore_of_absent (h : s.disk.fates = []) (hid : s.store.storeId = store)
    (hsel : s.disk.fs[selectedPath store file]? = none)
    (hprev : s.disk.fs[previousPath store file]? = none) :
    recoverStore P file s = .err .recoveryRequired s := by
  have hread : Act.attempt (readFromPointer P (previousPath store file) file) s =
      .ok (.error .notFound) s := by
    rw [attempt_apply, readFromPointer_of_absent h hprev]
  have hinner : recoverSelectedFromPrior P file s = .err .recoveryRequired s := by
    rw [recoverSelectedFromPrior_of_gone hid hsel, recoverFromPriorPointer,
      bind_of_ok getStore_eq, hid, bind_of_ok hread]
    rfl
  have hattempt : Act.attempt (recoverSelectedFromPrior P file) s =
      .ok (.error .recoveryRequired) s := by
    rw [attempt_apply, hinner]
  exact bind_of_ok hattempt

/-- The disk with the former pointer in place, in a directory that was flushed. -/
def restored (fs : Fs) (store : StoreId) (file : FileId) (bytes : Bytes) : Fs :=
  (fs.insert (selectedPath store file) (.file bytes false)).insert (fileItem store file markerName)
    (.file (utf8 "v1".toList) true)

variable {bytes : Bytes}

theorem get_restored {fs : Fs} {q : Path} (hq : q ≠ selectedPath store file)
    (hq' : q ≠ fileItem store file markerName) : (restored fs store file bytes)[q]? = fs[q]? :=
  (Map.get_insert_of_ne hq').trans (Map.get_insert_of_ne hq)

theorem read?_restored {fs : Fs} :
    (restored fs store file bytes).read? (selectedPath store file) = some bytes :=
  Fs.read?_eq_some.mpr ⟨false,
    (Map.get_insert_of_ne (fileItem_ne selectedName_ne_markerName)).trans Map.get_insert_self⟩

/-- When the pointer is gone and the former one can be read, recovery puts the former one in its
place and cleans up. -/
theorem recoverStore_of_gone (hquiet : s.disk.fates = [])
    (hid : s.store.storeId = store) (hgone : s.disk.fs[selectedPath store file]? = none)
    (hdir : s.disk.fs[fileDir store file]? = some .dir)
    (hmarker : s.disk.fs.isDir (fileItem store file markerName) = false)
    (hbytes : s.disk.fs.read? (previousPath store file) = some bytes)
    (hread : readFromPointer P (previousPath store file) file s = .ok data s)
    (hcommit : commitGeneration P (previousPath store file) file s = .ok generation s) :
    ∃ s', s'.core = s.core.withFs (restored s.disk.fs store file bytes) ∧ s'.disk.fates = [] ∧
      ∀ t, cleanupUnreferencedStaging P file generation s' = .ok () t →
        recoverStore P file s = .ok ⟨generation, true⟩ t := by
  have hisDir : ∀ {fs : Fs}, fs[fileDir store file]? = some .dir →
      fs.isDir (fileDir store file) = true := by
    intro fs hget
    simp [Fs.isDir, hget]
  have hplace : FsOp.Placeable s.disk.fs (selectedPath store file) := by
    refine ⟨hisDir hdir, Bool.eq_false_iff.mpr fun hd => ?_⟩
    exact Option.isSome_iff_ne_none.mp (Fs.isSome_of_isDir (List.cons_ne_nil _ _) hd) hgone
  -- the former pointer is copied
  let s₁ := s.ran (s.disk.fs.insert (selectedPath store file) (.file bytes false))
  have hcopy : io (.copy (previousPath store file) (selectedPath store file)) s = .ok () s₁ :=
    io_of_nil hquiet (FsOp.effect_copy.mpr ⟨bytes, hbytes, hplace, rfl⟩)
  -- the directory is flushed
  have hplace₁ : FsOp.Placeable s₁.disk.fs (fileItem store file markerName) :=
    ⟨hisDir ((Map.get_insert_of_ne fileDir_ne_fileItem).trans hdir), (Fs.isDir_congr
      (Map.get_insert_of_ne (fileItem_ne selectedName_ne_markerName.symm))).trans hmarker⟩
  obtain ⟨s₂, hflush, hcore, hquiet₂⟩ :=
    writeSynced_of_nil (fates_ran hquiet) hplace₁ (utf8 "v1".toList)
  have hflush' : flushDirectoryMarker (fileDir store file) s₁ = .ok () s₂ := hflush
  refine ⟨s₂, hcore, hquiet₂, fun t hclean => recoverStore_of_ok ?_⟩
  rw [recoverSelectedFromPrior_of_gone hid hgone, recoverFromPriorPointer,
    bind_of_ok getStore_eq, hid,
    bind_of_ok (attempt_eq_ok.mpr (Or.inl ⟨data, rfl, hread⟩))]
  dsimp only
  rw [bind_of_ok hcommit, bind_of_ok hcopy, bind_of_ok hflush', bind_of_ok hclean]
  rfl

/-- When the pointer is gone, recovery puts the former one in its place. -/
theorem recoverStore_of_previous (h : Tidy s) (hid : s.store.storeId = store)
    (hkey : s.store.key = key) (hfew : ∀ name, FewBelow s.disk.fs (generationEntry store file name))
    (hdir : s.disk.fs[fileDir store file]? = some .dir)
    (hs : R.Seals P key store file generation data)
    (hgone : s.disk.fs[selectedPath store file]? = none)
    (hprev : R.Selected s.disk.fs (previousPath store file) store file generation) : ∃ t,
    recoverStore P file s = .ok ⟨generation, true⟩ t ∧ t.store = s.store ∧
    t.disk.fates = [] ∧ R.Selected t.disk.fs (selectedPath store file) store file generation := by
  obtain ⟨bytes, hbytes, hdecode⟩ := hprev.pointer
  have hkind : nodeKind (fileItem store file markerName) = .file :=
    nodeKind_fileItem markerName_ne_generationsName
  obtain ⟨s₁, hcore, hquiet, hrun⟩ := recoverStore_of_gone h.quiet hid hgone hdir
    (h.fits.isDir_eq_false (List.cons_ne_nil _ _) hkind) hbytes
    (readFromPointer_of_selected h.quiet hid hkey hs hprev)
    (commitGeneration_of_seals h.quiet hid hkey hs hprev.pointer)
  have hfs : s₁.disk.fs = restored s.disk.fs store file bytes := congrArg Core.fs hcore
  have hstore : s₁.store = s.store := congrArg Core.store hcore
  have hother : ∀ q, (∀ name, q ≠ fileItem store file name) → s₁.disk.fs[q]? = s.disk.fs[q]? :=
    fun q hq => hfs ▸ get_restored (hq _) (hq _)
  have htidy : Tidy s₁ := by
    refine ⟨hquiet, ?_, fun n hn => ?_⟩
    · rw [hfs]
      exact Fs.Fits.insert (h.fits.insert nodeKind_selected.symm) hkind.symm
    · have hne : ∀ name, evidenceDir (evidenceId n) ≠ fileItem store file name :=
        fun name heq => absurd (congrArg List.length heq) (by simp [evidenceDir, fileItem])
      rw [hother _ hne]
      exact h.room n (congrArg (fun core => core.counters.nextEvidence) hcore ▸ hn)
  have hselected : R.Selected s₁.disk.fs (selectedPath store file) store file generation :=
    ⟨hprev.toStored.congr fun name => hother _ fun _ => generationItem_ne_fileItem, bytes,
      hfs ▸ read?_restored, hdecode⟩
  have hfew₁ : ∀ name, FewBelow s₁.disk.fs (generationEntry store file name) := by
    refine fun name => (hfew name).mono fun q hq hsome => ?_
    rwa [← hother q fun name' heq => ?_]
    exact absurd (heq ▸ hq.length_le) (by simp [generationEntry, fileItem])
  obtain ⟨_, t, hclean, hquiet', hc⟩ := htidy.cleanup_completes (P := P) (hstore ▸ hid) hfew₁
  exact ⟨t, hrun t hclean, hc.sameStore.trans hstore, hquiet', hselected.cleaned hc⟩

end Recover

end Wdlp
