import Wdlp.Storage.ReadBack

/-!
# What a flush leaves behind

A flush first writes the records of a new generation and then publishes it by replacing the pointer
of the file. However it ends, the pointer is the one it was, or it is gone and its bytes are those
of the former pointer, or it selects the new generation (`PointerAfter`); a flush that returns has
reached the third of these.

## Main definitions

* `Wrote` — a record was sealed and is on the disk.
* `PointerAfter` — what can have become of the pointer of a file.

## Main results

* `stageGeneration_eq_ok` — the records of a generation that was written are stored and seal its
  content.
* `flushGeneration_wp` — what a flush leaves behind, however it ends.
-/

namespace Wdlp

open CrashSafe Act
open EncryptedRecordV1 (decode decode_encode encode_eq_ok nonce sealRecord sealRecord_eq_ok)

variable {P : Primitives} {key : StoreKey} {store : StoreId} {file : FileId} {generation : UInt64}
  {data : Bytes} {s t : Sys}

/-! ### Sealed records -/

theorem hit_eq_ok {point : DurabilityFaultPoint} {u : Unit} (h : hit point s = .ok u t) :
    s = t := by
  unfold hit at h
  split at h
  · cases h
  · exact (Outcome.ok.inj h).2

variable {plaintext : Bytes} {nonces : NonceTracker} {sealed : EncryptedRecordV1 × NonceTracker}

theorem sealFor_eq_ok {aad : RecordAad} (h : sealFor P file aad plaintext nonces s = .ok sealed t) :
    (∃ drawn, EncryptedRecordV1.sealRecord P s.store.key drawn aad plaintext nonces = .ok sealed) ∧
      t.core = s.core.noted (.sealed s.store.key aad plaintext) := by
  obtain ⟨_, _, h₁, h⟩ := bind_eq_ok.mp h
  obtain ⟨_, _, h₂, h⟩ := bind_eq_ok.mp h
  obtain ⟨_, _, h₃, h⟩ := bind_eq_ok.mp h
  obtain ⟨-, rfl⟩ := failIf_eq_ok.mp h₃
  obtain ⟨rfl, rfl⟩ := pure_eq_ok.mp h
  cases h₂
  exact sealRecord_eq_ok h₁

/-- A text was sealed under a header, and its record is at a path and was synced. -/
structure Wrote (P : Primitives) (path : Path) (aad : RecordAad) (plaintext : Bytes)
    (nonces : NonceTracker) (s t : Sys) (sealed : EncryptedRecordV1 × NonceTracker) : Prop where
  header : sealed.1.aad = aad
  opens : EncryptedRecordV1.openRecord P s.store.key sealed.1 = .ok plaintext
  small : plaintext.length + 16 ≤ maxCiphertext
  encodes : ∃ bytes, sealed.1.encode = .ok bytes
  stored : StoredRecord t.disk.fs.synced path sealed.1
  fresh : sealed.1.nonce ∉ nonces.seen
  tracked : sealed.2.seen = sealed.1.nonce :: nonces.seen
  sameStore : t.store = s.store
  frame : ∀ q, q ≠ path → t.disk.fs[q]? = s.disk.fs[q]?

theorem writeSealed_eq_ok (hP : P.Correct) {kind : RecordKind} {index : UInt64}
    {path : Path} {before after : DurabilityFaultPoint}
    (h : writeSealed P file (fileAad store file generation kind index plaintext.length) plaintext
      nonces path before after s = .ok sealed t) :
    Wrote P path (fileAad store file generation kind index plaintext.length) plaintext nonces s t
      sealed := by
  obtain ⟨record, next⟩ := sealed
  obtain ⟨_, s₁, h₁, h⟩ := bind_eq_ok.mp h
  obtain ⟨_, _, h₂, h⟩ := bind_eq_ok.mp h
  obtain rfl := hit_eq_ok h₂
  obtain ⟨_, t', h₃, h⟩ := bind_eq_ok.mp h
  obtain ⟨_, _, h₄, h⟩ := bind_eq_ok.mp h
  obtain rfl := hit_eq_ok h₄
  obtain ⟨rfl, rfl⟩ := pure_eq_ok.mp h
  obtain ⟨⟨drawn, hseal⟩, hcore⟩ := sealFor_eq_ok h₁
  obtain ⟨bytes, hbytes, hcore'⟩ := writeRecord_eq_ok h₃
  obtain ⟨ciphertext, hc, rfl, hnew, rfl⟩ := EncryptedRecordV1.sealRecord_eq_ok.mp hseal
  have hfs : t'.core.fs = s.disk.fs.insert path (.file bytes true) := by
    rw [hcore']
    exact congrArg (·.insert path (.file bytes true)) (congrArg Core.fs hcore)
  have hsmall := (encode_eq_ok.mp hbytes).2.2.1
  exact {
    header := rfl
    opens := EncryptedRecordV1.openRecord_sealRecord hP rfl rfl hseal
    small := hP.length_encrypt hc ▸ hsmall
    encodes := ⟨bytes, hbytes⟩
    stored := by
      change StoredRecord t'.core.fs.synced path _
      rw [hfs]
      exact ⟨bytes, Fs.read?_synced.mpr Map.get_insert_self,
        decode_encode isName_storeId isName_fileId hbytes⟩
    fresh := hnew
    tracked := rfl
    sameStore := (congrArg Core.store hcore').trans (congrArg Core.store hcore)
    frame := fun q hq => by
      change t'.core.fs[q]? = _
      rw [hfs]
      exact Map.get_insert_of_ne hq }

/-! ### The records of a generation -/

theorem StoredChunks.congr {fs fs' : Fs} : {rs : List EncryptedRecordV1} → {index : ℕ} →
    StoredChunks fs store file generation index rs →
    (∀ i, index ≤ i → fs'[chunkPath store file generation i]? =
      fs[chunkPath store file generation i]?) → StoredChunks fs' store file generation index rs
  | [], _, _, _ => trivial
  | _ :: _, index, h, hfs =>
    ⟨h.1.congr (hfs index le_rfl), h.2.congr fun i hi => hfs i (Nat.le_of_succ_le hi)⟩

/-- The chunks that were written are stored, seal the content and have nonces of their own. -/
theorem flushChunks_eq_ok (hP : P.Correct) : {cs : List Bytes} →
    {index : ℕ} → {progress written : FlushProgress} → {s : Sys} →
    s.store.storeId = store → s.store.key = key → (∀ c ∈ cs, c.length ≤ chunkSize) →
    progress.nonces.seen.Nodup → flushChunks P file generation index cs progress s = .ok written t →
    ∃ rs, SealsChunks P key store file generation index cs rs ∧ StoredChunks t.disk.fs.synced store
    file generation index rs ∧ written.nonces.seen = (rs.map nonce).reverse ++
    progress.nonces.seen ∧ written.nonces.seen.Nodup ∧ t.store = s.store ∧
    (written.lengths = progress.lengths ++ cs.map fun c => UInt64.ofNat c.length) ∧
    ∀ q, (∀ i, index ≤ i → q ≠ chunkPath store file generation i) → t.disk.fs[q]? = s.disk.fs[q]?
  | [], index, progress, written, s, _, _, _, hnd, h => by
    obtain ⟨rfl, rfl⟩ := pure_eq_ok.mp h
    exact ⟨[], .nil index, trivial, rfl, hnd, rfl, by simp, fun _ _ => rfl⟩
  | c :: cs, index, progress, written, s, hid, hkey, hsize, hnd, h => by
    obtain ⟨_, _, h₁, h⟩ := bind_eq_ok.mp h
    cases h₁
    obtain ⟨sealed, s₁, h₂, h⟩ := bind_eq_ok.mp h
    rw [Store.aad, hid] at h₂
    have hw := writeSealed_eq_ok hP h₂
    have hnd' : ((progress.sealed sealed.1 sealed.2).chunkWritten c).nonces.seen.Nodup := by
      change sealed.2.seen.Nodup
      rw [hw.tracked]
      exact List.nodup_cons.mpr ⟨hw.fresh, hnd⟩
    obtain ⟨rs, hseals, hstored, hseen, hnodup, hstore, hlengths, hframe⟩ :=
      flushChunks_eq_ok hP ((congrArg Store.storeId hw.sameStore).trans hid)
        ((congrArg Store.key hw.sameStore).trans hkey)
        (fun c hc => hsize c (List.mem_cons_of_mem _ hc)) hnd' h
    refine ⟨sealed.1 :: rs, ?_, ?_, ?_, hnodup, hstore.trans hw.sameStore, ?_, fun q hq => ?_⟩
    · exact .cons hw.header (hkey ▸ hw.opens) (hsize c List.mem_cons_self) hseals
    · refine ⟨hw.stored.congr (Fs.synced_congr (hframe _ fun i hi heq => ?_)), hstored⟩
      have := chunkPath_inj heq
      omega
    · rw [hseen, List.map_cons, List.reverse_cons, List.append_assoc]
      exact congrArg _ hw.tracked
    · rw [hlengths, List.map_cons]
      simp [FlushProgress.sealed, FlushProgress.chunkWritten]
    · exact (hframe q fun i hi => hq i (Nat.le_of_succ_le hi)).trans (hw.frame q (hq index le_rfl))

/-- A manifest that is small enough to be written is small enough to be read. -/
private theorem decode_manifest {bytes : Bytes}
    (hb : (manifestOf file generation data).encode = .ok bytes)
    (hsmall : bytes.length + 16 ≤ maxCiphertext) :
    EncryptedManifestV1.decode bytes = .ok (manifestOf file generation data) := by
  have hlayout := (EncryptedManifestV1.encode_eq_ok.mp hb).2.2
  have hcount : (manifestOf file generation data).chunkLengths.length ≤ 1000000 := by
    have hlength := congrArg List.length hlayout
    simp only [EncryptedManifestV1.layout, List.length_append,
      EncryptedManifestV1.length_words] at hlength
    norm_num [maxCiphertext] at hsmall
    omega
  rw [EncryptedManifestV1.decode_encode isName_fileId hb, if_pos hcount]

private theorem flushManifest_eq_ok (hP : P.Correct)
    {progress listed : FlushProgress} (hid : s.store.storeId = store)
    (hp : progress.lengths = (chunks chunkSize data).map fun chunk => UInt64.ofNat chunk.length)
    (h : flushManifest P file generation data progress s = .ok listed t) : ∃ record
    bytes, EncryptedManifestV1.decode bytes = .ok (manifestOf file generation data) ∧ Wrote
    P (manifestPath store file generation) (fileAad store file generation .manifest 0 bytes.length)
    bytes progress.nonces s t (record, listed.nonces) := by
  obtain ⟨_, _, h₁, h⟩ := bind_eq_ok.mp h
  cases h₁
  rw [hp] at h
  obtain ⟨bytes, _, h₁, h⟩ := bind_eq_ok.mp h
  obtain ⟨hb, rfl⟩ := ofExcept_eq_ok.mp h₁
  obtain ⟨sealed, _, h₂, h⟩ := bind_eq_ok.mp h
  obtain ⟨rfl, rfl⟩ := pure_eq_ok.mp h
  rw [Store.aad, hid] at h₂
  have hw := writeSealed_eq_ok hP h₂
  exact ⟨sealed.1, bytes, decode_manifest hb hw.small, hw⟩

private theorem flushCommit_eq_ok (hP : P.Correct) {progress : FlushProgress}
    {committed : EncryptedRecordV1 × FlushProgress} (hid : s.store.storeId = store)
    (h : flushCommit P file generation progress s = .ok committed t) : Wrote
    P (commitPath store file generation)
    (fileAad store file generation .commit 0 (commitOf file generation).layout.length)
    (commitOf file generation).layout progress.nonces s t (committed.1, committed.2.nonces) := by
  obtain ⟨_, _, h₁, h⟩ := bind_eq_ok.mp h
  cases h₁
  obtain ⟨bytes, _, h₁, h⟩ := bind_eq_ok.mp h
  obtain ⟨hb, rfl⟩ := ofExcept_eq_ok.mp h₁
  obtain rfl : (commitOf file generation).layout = bytes :=
    Except.ok.inj ((CommitRecordV1.encode_of_isName isName_fileId).symm.trans hb)
  obtain ⟨sealed, _, h₂, h⟩ := bind_eq_ok.mp h
  obtain ⟨rfl, rfl⟩ := pure_eq_ok.mp h
  rw [Store.aad, hid] at h₂
  exact writeSealed_eq_ok hP h₂

/-- The records of a generation that was written are stored and synced, and seal its content. -/
theorem stageGeneration_eq_ok (hP : P.Correct) {staged : EncryptedRecordV1 × FlushProgress}
    (hid : s.store.storeId = store) (hkey : s.store.key = key)
    (h : stageGeneration P file generation data s = .ok staged t) :
    ∃ R : GenerationRecords, R.commit = staged.1 ∧ R.Seals P key store file generation data ∧
      R.Stored t.disk.fs.synced store file generation ∧ (∃ bytes, R.commit.encode = .ok bytes) ∧
      t.store = s.store ∧ t.disk.fs[fileDir store file]? = some .dir := by
  obtain ⟨_, _, h₁, h⟩ := bind_eq_ok.mp h
  cases h₁
  rw [hid] at h
  obtain ⟨_, s₁, h₁, h⟩ := bind_eq_ok.mp h
  obtain ⟨fs, he, hs₁⟩ := io_eq_ok h₁
  obtain ⟨-, rfl⟩ := FsOp.effect_createDirAll.mp he
  have hstore₁ : s₁.store = s.store := hs₁ ▸ rfl
  have hdir : s₁.disk.fs[fileDir store file]? = some .dir := by
    rw [hs₁]
    refine (Fs.get_insertDirs _).trans (if_pos (Fs.mem_ancestors.mpr ⟨?_, fileDir_prefix⟩))
    exact List.cons_ne_nil _ _
  obtain ⟨written, s₂, h₂, h⟩ := bind_eq_ok.mp h
  obtain ⟨listed, s₃, h₃, h₄⟩ := bind_eq_ok.mp h
  obtain ⟨rs, hseals, hchunks, hseen, hnd, hstore₂, hlengths, hframe₂⟩ :=
    flushChunks_eq_ok hP ((congrArg Store.storeId hstore₁).trans hid)
      ((congrArg Store.key hstore₁).trans hkey) (fun c hc => length_le_of_mem_chunks hc)
      List.nodup_nil h₂
  have hid₂ : s₂.store.storeId = store :=
    (congrArg Store.storeId (hstore₂.trans hstore₁)).trans hid
  have hlengths₂ : written.endChunks.lengths =
      (chunks chunkSize data).map fun chunk => UInt64.ofNat chunk.length := by
    rw [FlushProgress.lengths_endChunks, hlengths, List.nil_append]
  obtain ⟨record, bytes, hdecode, hmanifest⟩ := flushManifest_eq_ok hP hid₂ hlengths₂ h₃
  have hcommit := flushCommit_eq_ok hP ((congrArg Store.storeId hmanifest.sameStore).trans hid₂) h₄
  have hkey₂ : s₂.store.key = key := (congrArg Store.key (hstore₂.trans hstore₁)).trans hkey
  have hkey₃ : s₃.store.key = key := (congrArg Store.key hmanifest.sameStore).trans hkey₂
  refine ⟨⟨staged.1, record, rs⟩, rfl, ?_, ?_, hcommit.encodes, ?_, ?_⟩
  · refine ⟨hcommit.header, hkey₃ ▸ hcommit.opens, ⟨bytes, hmanifest.header,
      hkey₂ ▸ hmanifest.opens, hdecode⟩, hseals, ?_⟩
    have htracked : written.endChunks.nonces.seen = (rs.map nonce).reverse := by
      rw [FlushProgress.nonces_endChunks, hseen, List.append_nil]
    have hfresh := hmanifest.fresh
    have hfresh' := hcommit.fresh
    have hseen' := hmanifest.tracked
    dsimp only at hseen'
    rw [hseen', htracked] at hfresh'
    rw [htracked] at hfresh
    rw [hseen, List.append_nil, List.nodup_reverse] at hnd
    simp only [List.nodup_cons, List.mem_cons, List.mem_reverse] at hfresh hfresh' ⊢
    exact ⟨hfresh', hfresh, hnd⟩
  · refine ⟨hcommit.stored, hmanifest.stored.congr (Fs.synced_congr (hcommit.frame _
      manifestPath_ne_commitPath)), hchunks.congr fun i _ => Fs.synced_congr ?_⟩
    exact (hcommit.frame _ chunkPath_ne_commitPath).trans
      (hmanifest.frame _ chunkPath_ne_manifestPath)
  · exact hcommit.sameStore.trans (hmanifest.sameStore.trans (hstore₂.trans hstore₁))
  · rw [hcommit.frame _ fileDir_ne_generationItem, hmanifest.frame _ fileDir_ne_generationItem,
      hframe₂ _ fun i _ => fileDir_ne_generationItem]
    exact hdir

/-! ### The pointer -/

/-- What can have become of the pointer of a file when a flush ends: it is the one it was, it is
gone and its bytes are those of the former pointer, or it selects the new generation, synced. -/
inductive PointerAfter (P : Primitives) (key : StoreKey) (store : StoreId) (file : FileId)
    (generation : UInt64) (data : Bytes) (before after : Fs) : Prop
  | kept (same : after[selectedPath store file]? = before[selectedPath store file]?)
      (untouched : before[selectedPath store file]? = none →
        after[previousPath store file]? = before[previousPath store file]?)
  | moved {bytes : Bytes} {synced synced' : Bool}
      (was : before[selectedPath store file]? = some (.file bytes synced))
      (gone : after[selectedPath store file]? = none)
      (now : after[previousPath store file]? = some (.file bytes synced'))
  | replaced {R : GenerationRecords} (seals : R.Seals P key store file generation data)
      (selects : R.Selected after.synced (selectedPath store file) store file generation)

/-- The pointer is the one it was and, if there is one, its bytes are those of the former pointer;
a generation is stored. -/
structure PriorKept (store : StoreId) (file : FileId) (generation : UInt64) (R : GenerationRecords)
    (before : Fs) (c : Core) : Prop where
  session : c.store.storeId = store
  stored : R.Stored c.fs.synced store file generation
  same : c.fs[selectedPath store file]? = before[selectedPath store file]?
  saved : ∀ node, before[selectedPath store file]? = some node → ∃ bytes synced synced',
    node = .file bytes synced ∧ c.fs[previousPath store file]? = some (.file bytes synced')
  untouched : before[selectedPath store file]? = none →
    c.fs[previousPath store file]? = before[previousPath store file]?

theorem wp_whenExists {path : Path} {p : Op Unit} {Q : Unit → Sys → Prop}
    {E : StorageError → Sys → Prop} {C : Sys → Prop}
    (hp : ∀ node, s.disk.fs[path]? = some node → p.wp Q E C s)
    (hQ : s.disk.fs[path]? = none → Q () s) (hpath : path ≠ []) :
    (whenExists path p).wp Q E C s := by
  unfold whenExists
  rw [wp_bind]
  change (if s.disk.fs.present path = true then p else pure ()).wp Q E C s
  rw [Fs.present_eq hpath]
  cases h : s.disk.fs[path]? with
  | none => exact hQ h
  | some node => exact hp node h

/-- Writing a marker changes nothing else. -/
theorem flushDirectoryMarker_frame {directory q : Path} {u : Unit}
    (h : flushDirectoryMarker directory s = .ok u t) (hq : q ≠ markerPath directory) :
    t.disk.fs[q]? = s.disk.fs[q]? := by
  have hallows : AllowsFile (OnlyPaths s.core (· = markerPath directory)) (markerPath directory) :=
    OnlyPaths.allowsFile rfl
  exact ((keeps_flushDirectoryMarker hallows).of_ok OnlyPaths.refl h).1.2 q hq

section Publish

variable {R : GenerationRecords} {before : Fs} {c : Core}

theorem PriorKept.pointerAfter (h : PriorKept store file generation R before c) :
    PointerAfter P key store file generation data before c.fs := .kept h.same h.untouched

/-- Steps that change neither the pointers nor the generation. -/
theorem PriorKept.allows {op : FsOp} (hitem : ∀ name, ¬op.Touches
      (generationItem store file generation name))
    (hsel : ¬op.Touches (selectedPath store file)) (hprev : ¬op.Touches (previousPath store file)) :
    Allows (PriorKept store file generation R before) op := by
  intro c fs hl hc
  have hprev' : fs[previousPath store file]? = c.fs[previousPath store file]? := hl.get_eq hprev
  exact {
    session := hc.session
    stored := hc.stored.congr fun name => Fs.synced_congr (hl.get_eq (hitem name))
    same := (hl.get_eq hsel).trans hc.same
    saved := fun node hn => by
      obtain ⟨bytes, synced, synced', rfl, hp⟩ := hc.saved node hn
      exact ⟨bytes, synced, synced', rfl, hprev'.trans hp⟩
    untouched := fun hn => hprev'.trans (hc.untouched hn) }

theorem keepPrior_wp (hid : s.store.storeId = store)
    (hst : R.Stored s.disk.fs.synced store file generation) :
    (keepPrior file).wp (fun _ t => PriorKept store file generation R s.disk.fs t.core)
      (fun _ t => PointerAfter P key store file generation data s.disk.fs t.disk.fs)
      (fun t => PointerAfter P key store file generation data s.disk.fs t.disk.fs) s := by
  unfold keepPrior
  rw [wp_bind]
  change Act.wp (whenExists (selectedPath s.store.storeId file) _) _ _ _ s
  rw [hid]
  refine wp_whenExists (fun node hnode => ?_) (fun hnone => ?_) (List.cons_ne_nil _ _)
  · -- the copy and the marker leave the pointer alone, whether or not they complete
    set W : Path → Prop := fun q => q = previousPath store file ∨ q = fileItem store file markerName
    have hcopy : Allows (OnlyPaths s.core W)
        (.copy (selectedPath store file) (previousPath store file)) :=
      OnlyPaths.allows fun q hq => .inl hq
    have hmarker : AllowsFile (OnlyPaths s.core W) (markerPath (fileDir store file)) :=
      OnlyPaths.allowsFile (.inr rfl)
    have hsome : s.disk.fs[selectedPath store file]? ≠ none := by
      rw [hnode]
      exact Option.some_ne_none node
    have hsame : ∀ t : Sys, OnlyPaths s.core W t.core →
        t.disk.fs[selectedPath store file]? = s.disk.fs[selectedPath store file]? := by
      intro t ht
      refine ht.2 _ ?_
      rintro (heq | heq)
      · exact fileItem_ne selectedName_ne_previousName heq
      · exact fileItem_ne selectedName_ne_markerName heq
    have hkept : ∀ t : Sys, OnlyPaths s.core W t.core →
        PointerAfter P key store file generation data s.disk.fs t.disk.fs :=
      fun t ht => .kept (hsame t ht) fun hn => absurd hn hsome
    have hkeeps := Act.Keeps.bind (keeps_io hcopy) fun _ _ => keeps_flushDirectoryMarker hmarker
    refine wp_of_keeps hkeeps OnlyPaths.refl (fun _ t hok ht _ => ?_) (fun _ => hkept) hkept
    obtain ⟨_, s₁, h₁, h₂⟩ := bind_eq_ok.mp hok
    obtain ⟨fs, he, rfl⟩ := io_eq_ok h₁
    obtain ⟨bytes, hread, -, rfl⟩ := FsOp.effect_copy.mp he
    obtain ⟨synced, hfile⟩ := Fs.read?_eq_some.mp hread
    have hprevious := flushDirectoryMarker_frame h₂ (fileItem_ne previousName_ne_markerName)
    refine ⟨?_, ?_, hsame t ht, ?_, fun hn => absurd hn hsome⟩
    · rw [ht.1]
      exact hid
    · refine hst.congr fun name => Fs.synced_congr (ht.2 _ ?_)
      rintro (heq | heq) <;> exact generationItem_ne_fileItem heq
    · intro node' hnode'
      cases hfile.symm.trans hnode'
      exact ⟨bytes, synced, false, rfl, hprevious.trans Map.get_insert_self⟩
  · exact ⟨hid, hst, rfl, fun node hnode => absurd hnone (by rw [hnode]; nofun), fun _ => rfl⟩

/-- The pointer is gone, its bytes are those of the former pointer, and the temporary pointer holds
the commit record of a stored generation. -/
structure PointerGone (store : StoreId) (file : FileId) (generation : UInt64)
    (R : GenerationRecords) (before : Fs) (c : Core) : Prop where
  session : c.store.storeId = store
  stored : R.Stored c.fs.synced store file generation
  gone : c.fs[selectedPath store file]? = none
  saved : ∀ node, before[selectedPath store file]? = some node → ∃ bytes synced synced',
    node = .file bytes synced ∧ c.fs[previousPath store file]? = some (.file bytes synced')
  untouched : before[selectedPath store file]? = none →
    c.fs[previousPath store file]? = before[previousPath store file]?
  temporary : ∃ bytes, c.fs[selectedTmp store file generation]? = some (.file bytes true) ∧
    EncryptedRecordV1.decode bytes = .ok R.commit

theorem PointerGone.pointerAfter (h : PointerGone store file generation R before c) :
    PointerAfter P key store file generation data before c.fs := by
  cases hb : before[selectedPath store file]? with
  | none => exact .kept (h.gone.trans hb.symm) h.untouched
  | some node =>
    obtain ⟨bytes, synced, synced', rfl, hp⟩ := h.saved node hb
    exact .moved hb h.gone hp

/-- The pointer is removed from a state where it was saved. -/
theorem PriorKept.removed (h : PriorKept store file generation R before c)
    (htmp : ∃ bytes, c.fs[selectedTmp store file generation]? = some (.file bytes true) ∧
      decode bytes = .ok R.commit) : PointerGone store file generation R before
      (c.withFs (c.fs.erase (selectedPath store file))) := by
  have hprev : (c.fs.erase (selectedPath store file))[previousPath store file]? =
      c.fs[previousPath store file]? :=
    Map.get_erase_of_ne (fileItem_ne selectedName_ne_previousName.symm)
  refine ⟨h.session, h.stored.congr fun name => Fs.synced_congr
      (Map.get_erase_of_ne generationItem_ne_fileItem), Map.get_erase_self, ?_, fun hn => hprev.trans (h.untouched hn), ?_⟩
  · intro node hn
    obtain ⟨bytes, synced, synced', rfl, hp⟩ := h.saved node hn
    exact ⟨bytes, synced, synced', rfl, hprev.trans hp⟩
  · obtain ⟨bytes, hb, hd⟩ := htmp
    exact ⟨bytes,
      (Map.get_erase_of_ne (fileItem_ne (selectedTmpName_ne_selectedName _))).trans hb, hd⟩

/-- The temporary pointer takes the place of the pointer. -/
theorem PointerGone.renamed (h : PointerGone store file generation R before c)
    {fs : Fs} (he : FsOp.effect
      (.rename (selectedTmp store file generation) (selectedPath store file)) c.fs = .ok fs) :
    R.Selected fs.synced (selectedPath store file) store file generation := by
  obtain ⟨bytes, hb, hd⟩ := h.temporary
  obtain ⟨old, synced', ho, -, rfl⟩ := FsOp.effect_rename.mp he
  cases hb.symm.trans ho
  refine ⟨h.stored.congr fun name => Fs.synced_congr ?_, bytes,
    Fs.read?_synced.mpr Map.get_insert_self, hd⟩
  exact (Map.get_insert_of_ne generationItem_ne_fileItem).trans
    (Map.get_erase_of_ne generationItem_ne_fileItem)

theorem replacePointer_wp (hs : R.Seals P key store file generation data)
    (hprior : PriorKept store file generation R before s.core) :
    (replacePointer file generation R.commit).wp
      (fun _ t => R.Selected t.disk.fs.synced (selectedPath store file) store file generation ∧
        t.store.storeId = store)
      (fun _ t => PointerAfter P key store file generation data before t.disk.fs)
      (fun t => PointerAfter P key store file generation data before t.disk.fs) s := by
  have htemporary : AllowsFile (PriorKept store file generation R before)
      (selectedTmp store file generation) := by
    intro op hop
    refine PriorKept.allows (fun name hq => generationItem_ne_fileItem (hop.touches hq))
      (fun hq => ?_) (fun hq => ?_)
    · exact fileItem_ne (selectedTmpName_ne_selectedName _).symm (hop.touches hq)
    · exact fileItem_ne (selectedTmpName_ne_previousName _).symm (hop.touches hq)
  have hafter : ∀ t : Sys, PriorKept store file generation R before t.core →
      PointerAfter P key store file generation data before t.disk.fs := fun t ht => ht.pointerAfter
  unfold replacePointer
  rw [wp_bind]
  change Act.wp (hit .beforePointerReplace >>= fun _ => _) _ _ _ s
  rw [show s.store.storeId = store from hprior.session]
  have hhit : Keeps (PriorKept store file generation R before) (hit .beforePointerReplace) :=
    keeps_hit fun c hc => ⟨hc.session, hc.stored, hc.same, hc.saved, hc.untouched⟩
  refine wp_bind_of_keeps hhit hprior (fun _ s₁ _ h₁ _ => ?_) (fun _ => hafter) hafter
  refine wp_bind_of_keeps (keeps_writeRecord htemporary) h₁ (fun _ s₂ hok h₂ _ => ?_)
    (fun _ => hafter) hafter
  have htmp : ∃ bytes, s₂.core.fs[selectedTmp store file generation]? =
      some (.file bytes true) ∧ decode bytes = .ok R.commit := by
    obtain ⟨bytes, hb, hcore⟩ := writeRecord_eq_ok hok
    have hnames : R.commit.storeId = store.toWire ∧ R.commit.fileId = file.toWire :=
      ⟨congrArg RecordAad.storeId hs.commit_header, congrArg RecordAad.fileId hs.commit_header⟩
    refine ⟨bytes, ?_, decode_encode (hnames.1 ▸ isName_storeId)
      (hnames.2 ▸ isName_fileId) hb⟩
    rw [hcore]
    exact Map.get_insert_self
  have hremove : (whenExists (selectedPath store file)
      (io (.removeFile (selectedPath store file)))).wp
      (fun _ t => PointerGone store file generation R before t.core)
      (fun _ t => PointerAfter P key store file generation data before t.disk.fs)
      (fun t => PointerAfter P key store file generation data before t.disk.fs) s₂ := by
    refine wp_whenExists (fun node _ => ?_) (fun hnone => ?_) (List.cons_ne_nil _ _)
    · have hend : ∀ fs, FsOp.Leaves (.removeFile (selectedPath store file)) s₂.disk.fs fs →
          PointerAfter P key store file generation data before fs := by
        intro fs hl
        rcases hl.of_atomic trivial with rfl | he
        · exact h₂.pointerAfter
        · obtain ⟨-, rfl⟩ := FsOp.effect_removeFile.mp he
          exact (h₂.removed htmp).pointerAfter
      refine wp_io (fun fs he => ?_) (fun _ => hend) hend
      obtain ⟨-, rfl⟩ := FsOp.effect_removeFile.mp he
      exact h₂.removed htmp
    · exact ⟨h₂.session, h₂.stored, hnone, h₂.saved, h₂.untouched, htmp⟩
  refine wp_seq hremove fun _ s₃ h₃ => ?_
  have hend : ∀ fs, FsOp.Leaves (.rename (selectedTmp store file generation)
      (selectedPath store file)) s₃.disk.fs fs →
        PointerAfter P key store file generation data before fs := by
    intro fs hl
    rcases hl.of_atomic trivial with rfl | he
    · exact h₃.pointerAfter
    · exact .replaced hs (h₃.renamed he)
  exact wp_io (fun fs he => ⟨h₃.renamed he, h₃.session⟩) (fun _ => hend) hend

/-- What publishing a stored generation leaves behind, however it ends. -/
theorem publishPointer_wp (hid : s.store.storeId = store)
    (hs : R.Seals P key store file generation data)
    (hst : R.Stored s.disk.fs.synced store file generation) :
    (publishPointer file generation R.commit).wp
      (fun _ t => R.Selected t.disk.fs.synced (selectedPath store file) store file generation)
      (fun _ t => PointerAfter P key store file generation data s.disk.fs t.disk.fs)
      (fun t => PointerAfter P key store file generation data s.disk.fs t.disk.fs) s := by
  refine wp_seq (keepPrior_wp hid hst) fun _ s₁ h₁ => ?_
  refine wp_seq (replacePointer_wp hs h₁) fun _ s₂ h₂ => ?_
  -- the rest only writes the marker
  set J : Core → Prop := fun c =>
    R.Selected c.fs.synced (selectedPath store file) store file generation ∧ c.store.storeId = store
  have hfaults : ∀ c, J c → J (c.withStore
      { c.store with faultIo := { c.store.faultIo with fault := none } }) := fun c hc => hc
  have hmarker : AllowsFile J (markerPath (fileDir store file)) := by
    intro op hop c fs hl hc
    refine ⟨hc.1.congr (fun name => Fs.synced_congr (hl.get_eq fun hq => ?_))
      (Fs.synced_congr (hl.get_eq fun hq => ?_)), hc.2⟩
    · exact generationItem_ne_fileItem (hop.touches hq)
    · exact fileItem_ne selectedName_ne_markerName (hop.touches hq)
  have htail : Keeps J (do
      hit .afterPointerReplace
      hit .beforeDirectoryFlush
      let store ← getStore
      flushDirectoryMarker (fileDir store.storeId file)
      hit .afterDirectoryFlush) := by
    refine .bind (keeps_hit hfaults) fun _ _ => .bind (keeps_hit hfaults) fun _ _ => ?_
    refine .bind keeps_getStore fun st hst => ?_
    obtain ⟨c, hc, rfl⟩ := hst
    rw [hc.2]
    exact .bind (keeps_flushDirectoryMarker hmarker) fun _ _ => keeps_hit hfaults
  exact wp_of_keeps htail h₂ (fun _ t _ ht _ => ht.1) (fun _ t ht => .replaced hs ht.1)
    (fun t ht => .replaced hs ht.1)

end Publish

/-! ### The whole flush -/

/-- While a generation is written, the pointers of its file are the ones they were. -/
def SamePointers (store : StoreId) (key : StoreKey) (file : FileId) (before : Fs) (c : Core) :
    Prop :=
  (c.store.storeId = store ∧ c.store.key = key) ∧
    c.fs[selectedPath store file]? = before[selectedPath store file]? ∧
      c.fs[previousPath store file]? = before[previousPath store file]?

theorem samePointers_stageKeeps {before : Fs} :
    StageKeeps (SamePointers store key file before) store key file generation data where
  session _ hc := hc.1
  stages op hop c fs hl hc := by
    obtain ⟨hsel, hprev⟩ := hop.not_touches_pointer
    exact ⟨hc.1, (hl.get_eq hsel).trans hc.2.1, (hl.get_eq hprev).trans hc.2.2⟩
  seals _ _ _ hc _ := hc
  faults _ hc := hc

/-- What has become of the pointer since a state where both pointers were the same. -/
theorem PointerAfter.of_same {before before' after : Fs}
    (h : PointerAfter P key store file generation data before after)
    (hsel : before[selectedPath store file]? = before'[selectedPath store file]?)
    (hprev : before[previousPath store file]? = before'[previousPath store file]?) :
    PointerAfter P key store file generation data before' after := by
  cases h with
  | kept same untouched =>
    exact .kept (same.trans hsel) fun hn => (untouched (hsel.trans hn)).trans hprev
  | moved was gone now => exact .moved (hsel.symm.trans was) gone now
  | replaced seals selects => exact .replaced seals selects

/-- What a flush leaves behind, however it ends. -/
theorem flushGeneration_wp (hP : P.Correct) (hid : s.store.storeId = store)
    (hkey : s.store.key = key) :
    (flushGeneration P file generation data).wp
      (fun _ t => ∃ R : GenerationRecords, R.Seals P key store file generation data ∧
        R.Selected t.disk.fs.synced (selectedPath store file) store file generation)
      (fun _ t => PointerAfter P key store file generation data s.disk.fs t.disk.fs)
      (fun t => PointerAfter P key store file generation data s.disk.fs t.disk.fs) s := by
  have hafter : ∀ t : Sys, SamePointers store key file s.disk.fs t.core →
      PointerAfter P key store file generation data s.disk.fs t.disk.fs :=
    fun t ht => .kept ht.2.1 fun _ => ht.2.2
  have hstart : SamePointers store key file s.disk.fs s.core := ⟨⟨hid, hkey⟩, rfl, rfl⟩
  unfold flushGeneration
  refine wp_bind_of_keeps samePointers_stageKeeps.keeps_stageGeneration hstart
    (fun staged s₁ hok hsame _ => ?_) (fun _ => hafter) hafter
  obtain ⟨R, hcommit, hs, hst, -, -, -⟩ := stageGeneration_eq_ok hP hid hkey hok
  have hmoved : ∀ t : Sys, PointerAfter P key store file generation data s₁.disk.fs t.disk.fs →
      PointerAfter P key store file generation data s.disk.fs t.disk.fs :=
    fun t ht => ht.of_same hsame.2.1 hsame.2.2
  rw [← hcommit]
  rw [wp_bind]
  exact wp_mono (publishPointer_wp hsame.1.1 hs hst) (fun _ t ht => ⟨R, hs, ht⟩)
    (fun _ => hmoved) hmoved

/-- A flush leaves the directory of its file in place. -/
theorem directory_flushKeeps :
    FlushKeeps (fun c => (c.store.storeId = store ∧ c.store.key = key) ∧
      c.fs[fileDir store file]? = some .dir) store key file generation data where
  session _ hc := hc.1
  stages op hop c fs hl hc := ⟨hc.1, hop.keeps_directory hl hc.2⟩
  seals _ _ _ hc _ := hc
  faults _ hc := hc
  publishes op hop c fs hl hc := by
    refine ⟨hc.1, (hl.get_eq fun ht => ?_).trans hc.2⟩
    obtain ⟨name, heq⟩ := hop.eq_fileItem ht
    exact fileDir_ne_fileItem heq

/-- A flush that returned has committed its content. -/
theorem flushGeneration_eq_ok (hP : P.Correct) (hid : s.store.storeId = store)
    (hkey : s.store.key = key) {outcome : CommitOutcome}
    (h : flushGeneration P file generation data s = .ok outcome t) : ∃ R : GenerationRecords,
    R.Seals P key store file generation data ∧ R.Selected t.disk.fs (selectedPath store file)
    store file generation ∧ t.disk.fs[fileDir store file]? = some .dir := by
  have hwp : (flushGeneration P file generation data).wp _ _ _ s := flushGeneration_wp hP hid hkey
  unfold Act.wp at hwp
  rw [h] at hwp
  obtain ⟨R, hs, hsel⟩ := hwp
  obtain ⟨staged, s₁, h₁, h⟩ := bind_eq_ok.mp h
  obtain ⟨_, t', h₂, h⟩ := bind_eq_ok.mp h
  obtain ⟨-, rfl⟩ := pure_eq_ok.mp h
  obtain ⟨-, -, -, -, -, hstore, hdir⟩ := stageGeneration_eq_ok hP hid hkey h₁
  have hkeeps : FlushKeeps _ store key file generation data := directory_flushKeeps
  have hstart : (s₁.store.storeId = store ∧ s₁.store.key = key) ∧ _ :=
    ⟨⟨hstore ▸ hid, hstore ▸ hkey⟩, hdir⟩
  exact ⟨R, hs, hsel.of_synced, (hkeeps.keeps_publishPointer.of_ok hstart h₂).1.2⟩

/-- A flush that was cut off has left the pointer in one of three states. -/
theorem flushGeneration_eq_crash (hP : P.Correct) (hid : s.store.storeId = store)
    (hkey : s.store.key = key) (h : flushGeneration P file generation data s = .crash t) :
    PointerAfter P key store file generation data s.disk.fs t.disk.fs := by
  have hwp : (flushGeneration P file generation data).wp _ _ _ s := flushGeneration_wp hP hid hkey
  unfold Act.wp at hwp
  rw [h] at hwp
  exact hwp

/-- The state in which a flush has drawn its generation. -/
def Sys.begun (s : Sys) (file : FileId) (data : Bytes) : Sys :=
  { s with
    counters := { s.counters with nextGeneration := s.counters.nextGeneration + 1 }
    history := s.history ++ [.flushing s.store.key s.store.storeId file s.counters.nextGeneration
      data] }

/-- A flush fails at once, or it flushes what is staged. -/
theorem flushFile_eq : flushFile P file s =
    if s.store.failNextWrite then
      .err .ioFailure { s with store := { s.store with failNextWrite := false } }
    else match s.store.staged[file.toWire]? with
      | none => .err .notFound s
      | some data => (do
          let outcome ← flushGeneration P file s.counters.nextGeneration data
          modifyStore fun store => store.unstage file
          return outcome) (s.begun file data) := by
  unfold flushFile
  by_cases hfail : s.store.failNextWrite = true
  · have htake : takeWriteFailure s =
        .err .ioFailure { s with store := { s.store with failNextWrite := false } } := if_pos hfail
    rw [bind_of_err htake, if_pos hfail]
  · have htake : takeWriteFailure s = .ok () s := if_neg hfail
    rw [bind_of_ok htake, bind_of_ok getStore_eq, if_neg hfail]
    cases s.store.staged[file.toWire]? with
    | none => rfl
    | some data => rfl

end Wdlp
