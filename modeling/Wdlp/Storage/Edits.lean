import Wdlp.Storage.Content
import Wdlp.Storage.FaultyReads
import Wdlp.Storage.Rereading

/-!
# Edits and flushes that return

Whatever goes wrong on the disk, an edit that returns has staged the edited bytes, and a flush that
returns has committed what was staged. An edit starts from what is staged, or else from what it can
read of the file; if it cannot read, it starts from nothing.

## Main definitions

* `contentOf` — what a file holds, for a reader on a disk where nothing goes wrong.
* `editBase` — what an edit starts from.

## Main results

* `writeHandle_eq_ok`, `truncateHandle_eq_ok`, `flushHandle_eq_ok`, `readHandle_eq_ok` — the calls.
-/

namespace Wdlp

open CrashSafe Act

variable {P : Primitives} {file : FileId} {handle : FileHandle} {data : Bytes} {s t u : Sys}

/-! ### What is there -/

/-- Reading the file gives the bytes, if nothing goes wrong. -/
def ReadsBack (P : Primitives) (file : FileId) (s : Sys) (data : Bytes) : Prop :=
  readFile P file s.quiet = .ok data s.quiet

/-- What reading the file gives if nothing goes wrong; nothing, if it cannot be read. -/
def contentOf (P : Primitives) (file : FileId) (s : Sys) : Bytes :=
  ((readFile P file s.quiet).result?.map orDefault).getD []

/-- What an edit starts from: what is staged, or else what it can read. -/
def editBase (P : Primitives) (file : FileId) (s : Sys) : Bytes :=
  s.store.staged[file.toWire]?.getD (((readFile P file s).result?.map orDefault).getD [])

theorem ReadsBack.contentOf_eq (h : ReadsBack P file s data) : contentOf P file s = data := by
  rw [contentOf, h]
  rfl

theorem quiet_of_nil (h : s.disk.fates = []) : s.quiet = s := by
  unfold Sys.quiet Sys.withDisk
  rw [← h]

theorem editBase_of_staged (h : s.store.staged[file.toWire]? = some data) :
    editBase P file s = data := by
  rw [editBase, h]
  rfl

theorem editBase_of_nil (hquiet : s.disk.fates = [])
    (hstaged : s.store.staged[file.toWire]? = none) : editBase P file s = contentOf P file s := by
  rw [editBase, hstaged, contentOf, quiet_of_nil hquiet]
  rfl

theorem editBase_of_read (hstaged : s.store.staged[file.toWire]? = none)
    (hread : readFile P file s = .ok data t) : editBase P file s = contentOf P file s := by
  have hback : ReadsBack P file s data := (settled_readFile s data t hread).2
  rw [hback.contentOf_eq, editBase, hstaged, hread]
  rfl

/-- The disk holds the same, and the store is the same one. -/
structure SameFiles (s t : Sys) : Prop where
  fs : t.disk.fs = s.disk.fs
  storeId : t.store.storeId = s.store.storeId
  key : t.store.key = s.store.key

theorem SameFiles.trans (h : SameFiles s t) (h' : SameFiles t u) : SameFiles s u :=
  ⟨h'.fs.trans h.fs, h'.storeId.trans h.storeId, h'.key.trans h.key⟩

/-- The same is read. -/
theorem SameFiles.alike (h : SameFiles s t) :
    (readFile P file).Alike s.quiet (readFile P file) t.quiet := by
  have hsession : SameSession s.quiet t.quiet := ⟨rfl, rfl, h.storeId, h.key⟩
  have hfs : ∀ p : Path, t.quiet.disk.fs[p]? = s.quiet.disk.fs[p]? := fun p => by
    change t.disk.fs[p]? = s.disk.fs[p]?
    rw [h.fs]
  refine alike_getStore (hsession.alike_readFromPointer (Or.inl ?_) fun _ _ _ => hfs _)
  rw [hsession.storeId]
  exact hfs _

theorem SameFiles.contentOf_eq (h : SameFiles s t) : contentOf P file t = contentOf P file s := by
  obtain ⟨x, hs, ht⟩ := @SameFiles.alike P file s t h
  rw [contentOf, contentOf, hs, ht]
  cases x <;> rfl

theorem SameFiles.readsBack (h : SameFiles s t) (hs : ReadsBack P file s data) :
    ReadsBack P file t data := by
  obtain ⟨x, hx, ht⟩ := @SameFiles.alike P file s t h
  cases x with
  | ok found =>
    obtain ⟨rfl, -⟩ := Outcome.ok.inj (hx.symm.trans hs)
    exact ht
  | error e => cases hx.symm.trans hs

theorem Retimed.sameFiles (h : Retimed s t) : SameFiles s t := by
  obtain ⟨files, hstore, -⟩ := h.store
  exact ⟨by rw [h.disk], by rw [hstore]; rfl, by rw [hstore]⟩

/-- A read that may fail leaves disk and store as they are. -/
theorem core_of_attempt {existing : Except StorageError Bytes}
    (h : Act.attempt (readFile P file) s = .ok existing u) :
    u.core = s.core ∧ (readFile P file s).result? = some existing := by
  have hkeeps : Keeps (fun c => c = s.core) (readFile P file) := keeps_readFile
  rw [attempt_apply] at h
  cases hread : readFile P file s with
  | ok bytes v =>
    rw [hread] at h
    obtain ⟨rfl, rfl⟩ := Outcome.ok.inj h
    exact ⟨(hkeeps.of_ok rfl hread).1, rfl⟩
  | err e v =>
    rw [hread] at h
    obtain ⟨rfl, rfl⟩ := Outcome.ok.inj h
    exact ⟨err_of_wp (hkeeps s rfl) hread, rfl⟩
  | crash v =>
    rw [hread] at h
    cases h

/-! ### Edits -/

/-- The bytes were staged for the file, and nothing else was done to it. -/
structure Staged (file : FileId) (data : Bytes) (s t : Sys) : Prop extends SameFiles s t where
  staged : t.store.staged[file.toWire]? = some data

/-- What is staged, with times updated afterwards. -/
theorem staged_of_retimed (hcore : u.core = s.core)
    (h : Retimed (u.withStaged file data) t) : Staged file data s t := by
  have hfs : u.disk.fs = s.disk.fs := congrArg Core.fs hcore
  have hstore : u.store = s.store := congrArg Core.store hcore
  have hid : u.store.storeId = s.store.storeId := congrArg Store.storeId hstore
  have hkey : u.store.key = s.store.key := congrArg Store.key hstore
  have hsame : SameFiles s (u.withStaged file data) := ⟨hfs, hid, hkey⟩
  exact ⟨hsame.trans h.sameFiles, h.staged.trans Map.get_insert_self⟩

section

variable (hhandle : s.store.handleFile handle = .ok file)

include hhandle

theorem writeHandle_eq_ok {offset : UInt64} {bytes : Bytes}
    (h : writeHandle P handle offset bytes s = .ok () t) :
    Staged file (writeArray (editBase P file s) offset.toNat bytes) s t := by
  have hwrite : ∃ u, writeAt P file offset bytes s = .ok () u := by
    rw [writeHandle, bind_of_ok getStore_eq, hhandle, bind_of_ok (ofExcept_ok_apply s _)] at h
    obtain ⟨_, u, hu, -⟩ := bind_eq_ok.mp h
    exact ⟨u, hu⟩
  obtain ⟨u, hwrite⟩ := hwrite
  obtain ⟨existing, v, hread, -⟩ := bind_eq_ok.mp hwrite
  obtain ⟨hcore, hresult⟩ := core_of_attempt hread
  have hstore : v.store = s.store := congrArg Core.store hcore
  have hentry : v.store.staged[file.toWire]?.getD (orDefault existing) = editBase P file s := by
    rw [editBase, hresult, hstore]
    rfl
  have heq := writeAt_of_read hread hentry offset bytes
  rw [hwrite] at heq
  split_ifs at heq
  obtain ⟨-, rfl⟩ := Outcome.ok.inj heq
  have hhandles : v.store.handles = s.store.handles := congrArg Store.handles hstore
  obtain ⟨t', ht', hretimed⟩ := writeHandle_of_ok hhandle hwrite hhandles
  obtain ⟨-, rfl⟩ := Outcome.ok.inj (h.symm.trans ht')
  exact staged_of_retimed hcore hretimed

theorem truncateHandle_eq_ok {length : UInt64} (h : truncateHandle P handle length s = .ok () t) :
    Staged file (resizeArray (editBase P file s) length.toNat) s t := by
  have hdata : ∃ u, currentData P file s = .ok (editBase P file s) u ∧ u.core = s.core := by
    obtain ⟨_, s₁, hstore, h⟩ := bind_eq_ok.mp h
    obtain ⟨rfl, rfl⟩ := Outcome.ok.inj hstore
    obtain ⟨found, s₁, hfound, h⟩ := bind_eq_ok.mp h
    obtain ⟨hfile, rfl⟩ := ofExcept_eq_ok.mp hfound
    cases hhandle.symm.trans hfile
    obtain ⟨key, s₁, hkey, h⟩ := bind_eq_ok.mp h
    obtain ⟨-, rfl⟩ := ofExcept_eq_ok.mp hkey
    obtain ⟨data, u, hdata, -⟩ := bind_eq_ok.mp h
    have hcurrent := hdata
    rw [currentData, bind_of_ok getStore_eq] at hcurrent
    cases hstaged : s.store.staged[file.toWire]? with
    | some staged =>
      rw [hstaged] at hcurrent
      obtain ⟨rfl, rfl⟩ := pure_eq_ok.mp hcurrent
      rw [editBase_of_staged hstaged]
      exact ⟨s, hdata, rfl⟩
    | none =>
      rw [hstaged] at hcurrent
      obtain ⟨existing, v, hread, hpure⟩ := bind_eq_ok.mp hcurrent
      obtain ⟨rfl, rfl⟩ := pure_eq_ok.mp hpure
      obtain ⟨hcore, hresult⟩ := core_of_attempt hread
      refine ⟨v, ?_, hcore⟩
      rw [hdata, editBase, hstaged, hresult]
      rfl
  obtain ⟨u, hdata, hcore⟩ := hdata
  obtain ⟨t', ht', hretimed⟩ := truncateHandle_of_ok hhandle hdata length
  obtain ⟨-, rfl⟩ := Outcome.ok.inj (h.symm.trans ht')
  exact staged_of_retimed hcore hretimed

/-! ### Reads -/

/-- What a read gives is what is there. -/
theorem readHandle_eq_ok (h : readHandle P handle s = .ok data t) : ReadsBack P file s data ∧
    SameFiles s t ∧ t.store.staged = s.store.staged ∧ (s.disk.fates = [] → t.disk.fates = []) := by
  rw [readHandle, bind_of_ok getStore_eq, hhandle, bind_of_ok (ofExcept_ok_apply s _)] at h
  obtain ⟨found, u, hread, h⟩ := bind_eq_ok.mp h
  obtain ⟨store, v, hstore, h⟩ := bind_eq_ok.mp h
  obtain ⟨rfl, rfl⟩ := Outcome.ok.inj hstore
  obtain ⟨key, v, hkey, h⟩ := bind_eq_ok.mp h
  obtain ⟨-, rfl⟩ := ofExcept_eq_ok.mp hkey
  obtain ⟨_, v, htouch, h⟩ := bind_eq_ok.mp h
  obtain ⟨rfl, rfl⟩ := pure_eq_ok.mp h
  have hkeeps : Keeps (fun c => c = s.core) (readFile P file) := keeps_readFile
  have hcore : u.core = s.core := (hkeeps.of_ok rfl hread).1
  obtain ⟨w, hw, hretimed⟩ := touchFile_eq_ok key EntryMetadata.accessed u
  obtain ⟨-, rfl⟩ := Outcome.ok.inj (htouch.symm.trans hw)
  have hstore : u.store = s.store := congrArg Core.store hcore
  have hsame : SameFiles s u :=
    ⟨congrArg Core.fs hcore, congrArg Store.storeId hstore, congrArg Store.key hstore⟩
  obtain ⟨files, hfiles, -⟩ := hretimed.store
  have hsettled := settled_readFile s found u hread
  refine ⟨hsettled.2, hsame.trans hretimed.sameFiles, by rw [hfiles, ← hstore], fun hquiet => ?_⟩
  rw [hretimed.disk]
  rw [quiet_of_nil hquiet, hread] at hsettled
  rw [(Outcome.ok.inj hsettled.2).2, hquiet]

/-- A handle of a file that can be read. -/
theorem readHandle_of_readsBack (h : ReadsBack P file s data) :
    (readHandle P handle s.quiet).result? = some (.ok data) := by
  obtain ⟨state, -, hstate, -, -⟩ := handleFile_eq_ok hhandle
  obtain ⟨t, ht, -⟩ := touched_eq_ok (s := s.quiet) hstate EntryMetadata.accessed
  have hread : readHandle P handle s.quiet = .ok data t := by
    rw [readHandle, bind_of_ok (show getStore s.quiet = .ok s.store s.quiet from rfl), hhandle,
      bind_of_ok (ofExcept_ok_apply s.quiet _), bind_of_ok h]
    obtain ⟨store, s₁, h₁, ht⟩ := bind_eq_ok.mp ht
    obtain ⟨key, s₂, h₂, ht⟩ := bind_eq_ok.mp ht
    rw [bind_of_ok h₁, bind_of_ok h₂, bind_of_ok ht]
    rfl
  rw [hread]
  rfl

end

/-! ### Flushes -/

/-- The generation is selected and nothing is staged any more; persisting the namespace keeps it
so. -/
theorem selected_persistKeeps {store : StoreId} {key : StoreKey} {R : GenerationRecords}
    {generation : UInt64} :
    PersistKeeps (fun c => (c.store.storeId = store ∧ c.store.key = key) ∧
      R.Selected c.fs (selectedPath store file) store file generation ∧
        c.store.staged[file.toWire]? = none) store key where
  session _ hc := hc.1
  ops g op hop c fs hl hc := by
    have hframe : ∀ q : Path, q.length ≠ 3 → fs[q]? = c.fs[q]? := by
      refine fun q hq => hl.get_eq fun ht => hq ?_
      rcases hop.touches ht with ht | rfl
      · cases ht <;> rfl
      · rfl
    exact ⟨hc.1, hc.2.1.congr (fun _ => hframe _ (by simp [generationItem]))
      (hframe _ (by simp [selectedPath, fileItem])), hc.2.2⟩
  begins _ _ _ hc _ := hc
  seals _ _ _ hc _ _ := hc
  counts _ _ hc := hc

theorem flushHandle_eq_ok (hP : P.Correct) (hhandle : s.store.handleFile handle = .ok file)
    (hstaged : s.store.staged[file.toWire]? = some data) (h : flushHandle P handle s = .ok () t) :
    ReadsBack P file t data ∧ t.store.staged[file.toWire]? = none := by
  have hmem : file.toWire ∈ s.store.staged := Map.mem_iff_get.mpr ⟨data, hstaged⟩
  rw [flushHandle, bind_of_ok getStore_eq, hhandle,
    bind_of_ok (ofExcept_ok_apply s _), if_pos hmem] at h
  obtain ⟨_, u, hflushed, hpersist⟩ := bind_eq_ok.mp h
  obtain ⟨outcome, v, hfile, htouched⟩ := bind_eq_ok.mp hflushed
  -- the flush of the file
  rw [flushFile_eq, hstaged] at hfile
  split_ifs at hfile
  obtain ⟨_, w, hgeneration, hrest⟩ := bind_eq_ok.mp hfile
  obtain ⟨_, w', hunstage, hpure⟩ := bind_eq_ok.mp hrest
  obtain ⟨-, rfl⟩ := pure_eq_ok.mp hpure
  obtain ⟨-, rfl⟩ := Outcome.ok.inj hunstage
  obtain ⟨R, hseals, hselected, -⟩ := flushGeneration_eq_ok hP rfl rfl hgeneration
  have hkeeps : FlushKeeps _ s.store.storeId s.store.key file s.counters.nextGeneration data :=
    Held.counters_flushKeeps (s.begun file data).counters
  have hsession := (hkeeps.keeps_flushGeneration.of_ok (s := s.begun file data) ⟨⟨rfl, rfl⟩, rfl⟩
    hgeneration).1.1
  -- the time of the file, and the namespace
  obtain ⟨store, v', hstore, htouched⟩ := bind_eq_ok.mp htouched
  obtain ⟨rfl, rfl⟩ := Outcome.ok.inj hstore
  obtain ⟨key, v', hkey, htouched⟩ := bind_eq_ok.mp htouched
  obtain ⟨-, rfl⟩ := ofExcept_eq_ok.mp hkey
  obtain ⟨u', hu', hretimed⟩ := touchFile_eq_ok key EntryMetadata.written _
  obtain ⟨-, rfl⟩ := Outcome.ok.inj (htouched.symm.trans hu')
  have hsame := hretimed.sameFiles
  have hstart : (u.store.storeId = s.store.storeId ∧ u.store.key = s.store.key) ∧
      R.Selected u.disk.fs (selectedPath s.store.storeId file) s.store.storeId file
        s.counters.nextGeneration ∧ u.store.staged[file.toWire]? = none :=
    ⟨⟨hsame.storeId.trans hsession.1, hsame.key.trans hsession.2⟩, hsame.fs ▸ hselected,
      hretimed.staged.trans Map.get_erase_self⟩
  obtain ⟨⟨hsession', hselected', hnone⟩, -⟩ :=
    selected_persistKeeps.keeps_persistNamespace.of_ok hstart hpersist
  exact ⟨readFile_of_selected rfl hsession'.1 hsession'.2 hseals hselected', hnone⟩

end Wdlp
