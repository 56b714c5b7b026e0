import Wdlp.Storage.Content
import Wdlp.Storage.DiskRun

/-!
# Files as byte arrays

In one process, on a disk where nothing goes wrong, a flush that returns has made the byte array of
its file readable, and reads give it until the next such flush.

There is one exception. A file that was created but neither written nor truncated has nothing to
flush, so that flushing it succeeds without committing anything, and reading it fails.

A write or a truncation starts from what it can read, and from nothing if it cannot read. A file
whose committed content fails to be read is thus replaced by zeros.

## Main definitions

* `Content.step` — what a call does to what is held.
* `ReadsAs` — what a file reads as.

## Main results

* `Held.call`, `Held.calls` — the calls on a file keep to the byte array.
* `content_refines` — what can be read after a flush.
* `failed_read_staged` — edits of a file that cannot be read.
-/

namespace Wdlp

open CrashSafe Act

variable {P : Primitives} {file : FileId} {s t : Sys}

/-! ### Sequences of calls -/

/-- The content after a call, which has succeeded or not. -/
def Content.step (content : Content) (call : FileCall) (succeeded : Prop) [Decidable succeeded] :
    Content :=
  if call.isEdit then content.edited (call.apply content.current)
  else if succeeded then content.flushed else content

/-- There is something to read after a flush. -/
def Content.Present (content : Content) : Prop :=
  content.committed.isSome ∨ content.staged.isSome

namespace Content

variable {content : Content} {call : FileCall} {succeeded : Prop} [Decidable succeeded]

theorem current_flushed : content.flushed.current = content.current := by
  obtain ⟨committed, staged⟩ := content
  cases staged <;> rfl

theorem current_step : (content.step call succeeded).current = call.apply content.current := by
  cases call with
  | write handle offset bytes => rfl
  | truncate handle length => rfl
  | flush handle =>
    change (if succeeded then content.flushed else content).current = content.current
    split
    · exact current_flushed
    · rfl

theorem present_step :
    (content.step call succeeded).Present ↔ content.Present ∨ call.isEdit = true := by
  cases call with
  | write handle offset bytes => simp [step, FileCall.isEdit, edited, Present]
  | truncate handle length => simp [step, FileCall.isEdit, edited, Present]
  | flush handle =>
    change (if succeeded then content.flushed else content).Present ↔ content.Present ∨ _
    obtain ⟨committed, staged⟩ := content
    split <;> cases staged <;> simp [Present, flushed, FileCall.isEdit]

theorem committed_flushed : content.flushed.committed =
    if content.committed.isSome || content.staged.isSome then some content.current else none := by
  obtain ⟨committed, staged⟩ := content
  cases staged <;> cases committed <;> rfl

end Content

namespace Held

variable {content : Content} {left : ℕ}

/-- A call keeps to the byte array. -/
theorem call (hP : P.Correct) {call : FileCall} (h : Held P file content (left + 1) s)
    (hhandle : s.store.handleFile call.handle = .ok file) : (call.run P s).state.store.names
    0 = s.store.names 0 ∧ Held P file (content.step call ((call.run P s).result? = some (.ok ())))
    left (call.run P s).state := by
  cases call with
  | write handle offset bytes =>
    have hwp := (h.fewer (Nat.le_succ left)).writeHandle_wp hhandle offset bytes
    change (writeHandle P handle offset bytes s).state.store.names 0 = _ ∧
      Held P file (content.edited (FileCall.apply content.current (.write handle offset bytes))) left
        (writeHandle P handle offset bytes s).state
    cases hrun : writeHandle P handle offset bytes s with
    | ok u t =>
      obtain ⟨hfits, hnames, hheld⟩ := ok_of_wp hwp hrun
      rw [FileCall.apply, if_pos hfits]
      exact ⟨hnames, hheld⟩
    | err e t =>
      obtain ⟨hfits, hnames, hheld⟩ := err_of_wp hwp hrun
      rw [FileCall.apply, if_neg hfits]
      exact ⟨hnames, hheld⟩
    | crash t => exact (crash_of_wp hwp hrun).elim
  | truncate handle length =>
    have hfile : s.store.handleFile handle = .ok file := hhandle
    obtain ⟨u, t, hrun, hpost⟩ := exists_of_wp
      ((h.fewer (Nat.le_succ left)).truncateHandle_wp hfile length)
    change (truncateHandle P handle length s).state.store.names 0 = _ ∧
      Held P file (content.edited (resizeArray content.current length.toNat)) left
        (truncateHandle P handle length s).state
    rw [hrun]
    exact hpost
  | flush handle =>
    have hwp := h.flushHandle_wp hP hhandle
    change (flushHandle P handle s).state.store.names 0 = _ ∧
      Held P file (if (flushHandle P handle s).result? = some (.ok ()) then content.flushed
        else content) left (flushHandle P handle s).state
    cases hrun : flushHandle P handle s with
    | ok u t =>
      rw [if_pos (Outcome.result?_ok u t)]
      exact ok_of_wp hwp hrun
    | err e t =>
      obtain ⟨hnames, -, hheld⟩ := err_of_wp hwp hrun
      rw [if_neg (by simp)]
      exact ⟨hnames, hheld⟩
    | crash t => exact (crash_of_wp hwp hrun).elim

/-- Calls keep to the byte array. -/
theorem calls (hP : P.Correct) : (calls : List FileCall) → {s : Sys} →
    {content : Content} → Held P file content (calls.length + left)
    s → (∀ call ∈ calls, s.store.handleFile call.handle = .ok file) →
    ∃ content', (s.after P calls).store.names 0 = s.store.names
    0 ∧ Held P file content' left (s.after P calls) ∧ content'.current = calls.foldl FileCall.apply
    content.current ∧ (content'.Present ↔ content.Present ∨ calls.any FileCall.isEdit = true) ∧
    (Unflushed P s calls → content'.committed = content.committed)
  | [], _, content, h, _ =>
    ⟨content, rfl, h.fewer (Nat.le_add_left _ _), rfl, by simp, fun _ => rfl⟩
  | call :: calls, s, content, h, hhandles => by
    have h' : Held P file content (calls.length + left + 1) s := by
      rwa [List.length_cons, Nat.add_right_comm] at h
    obtain ⟨hnames, hstep⟩ := h'.call hP (hhandles call List.mem_cons_self)
    obtain ⟨content', hnames', hheld, hcurrent, hpresent, hcommitted⟩ := Held.calls hP calls hstep
      fun c hc => (handleFile_congr hnames _).trans (hhandles c (List.mem_cons_of_mem _ hc))
    refine ⟨content', hnames'.trans hnames, hheld, ?_, ?_, fun hunflushed => ?_⟩
    · rw [hcurrent, Content.current_step, List.foldl_cons]
    · rw [hpresent, Content.present_step, List.any_cons, Bool.or_eq_true, or_assoc]
    · rw [hcommitted hunflushed.2, Content.step]
      split
      · rfl
      · next hflush =>
        cases call with
        | flush handle => rw [if_neg (hunflushed.1 handle rfl)]
        | write handle offset bytes => exact absurd rfl hflush
        | truncate handle length => exact absurd rfl hflush

end Held

/-- Every handle on the file and every path of it reads the bytes. -/
def ReadsAs (P : Primitives) (file : FileId) (s : Sys) (data : Bytes) : Prop :=
  (∀ handle, s.store.handleFile handle = .ok file →
    (readHandle P handle s).result? = some (.ok data)) ∧
  ∀ (path : VirtualPath) (entry : FileEntry), s.store.files[path.lookupKey]? = some entry →
    entry.fileId = file → entry.deletePending = false →
      (readPath P path s).result? = some (.ok data)

/-- A flush that returns makes the byte array readable, until the next flush that returns, exactly
if there was anything to flush: a committed or staged content at the start, or an edit since then. -/
theorem content_refines (hP : P.Correct) {content : Content} {before later : List FileCall}
    {handle : FileHandle} (h : Held P file content (before.length + (later.length + 1)) s)
    (hbefore : ∀ call ∈ before, s.store.handleFile call.handle = .ok file)
    (hlater : ∀ call ∈ later, s.store.handleFile call.handle = .ok file)
    (hhandle : s.store.handleFile handle = .ok file)
    (hflush : flushHandle P handle (s.after P before) = .ok () t)
    (hunflushed : Unflushed P t later) :
    ReadsAs P file (t.after P later) (before.foldl FileCall.apply content.current) ↔
      content.committed.isSome ∨ content.staged.isSome ∨
        before.any FileCall.isEdit = true := by
  obtain ⟨content₁, hnames₁, hheld₁, hcurrent, hpresent, -⟩ := h.calls hP before hbefore
  have hwp := hheld₁.flushHandle_wp hP ((handleFile_congr hnames₁ handle).trans hhandle)
  obtain ⟨hnames₂, hheld₂⟩ := ok_of_wp hwp hflush
  have hsame := hnames₂.trans hnames₁
  have hstart : Held P file content₁.flushed (later.length + 0) t := hheld₂
  obtain ⟨content₃, hnames₃, hheld₃, -, -, hcommitted⟩ := hstart.calls hP later
    fun call hcall => (handleFile_congr hsame _).trans (hlater call hcall)
  have hcommitted₃ := (hcommitted hunflushed).trans Content.committed_flushed
  have hpresent₁ : (content₁.committed.isSome || content₁.staged.isSome) = true ↔
      content.committed.isSome ∨ content.staged.isSome ∨ before.any FileCall.isEdit = true := by
    rw [Bool.or_eq_true, ← or_assoc]
    exact hpresent
  rw [← hpresent₁]
  constructor
  · intro hreads
    by_contra habsent
    have hread := hreads.1 handle
      ((handleFile_congr (hnames₃.trans hsame) handle).trans hhandle)
    rw [hheld₃.readHandle_eq ((handleFile_congr (hnames₃.trans hsame) handle).trans hhandle),
      hcommitted₃, if_neg habsent] at hread
    cases hread
  · intro hthere
    rw [if_pos hthere, hcurrent] at hcommitted₃
    refine ⟨fun reader hreader => ?_, fun path entry hentry hfile hpending => ?_⟩
    · rw [hheld₃.readHandle_eq hreader, hcommitted₃]
      rfl
    · rw [hheld₃.readPath_eq hentry hfile hpending, hcommitted₃]
      rfl

theorem unrepeated_countingNonces : Unrepeated countingNonces := by
  intro i j hij hj heq
  have hbytes : leBytes 12 i = leBytes 12 j := congrArg Subtype.val heq
  have hmod := congrArg ofLeBytes hbytes
  rw [ofLeBytes_leBytes_mod, ofLeBytes_leBytes_mod] at hmod
  have hdvd := (Nat.modEq_iff_dvd' hij.le).mp hmod
  have hle := Nat.le_of_dvd (by omega) hdvd
  norm_num at hle hj
  omega

/-- A process that has created a file and opened it twice. -/
def createdSys : Sys :=
  { ((World.empty []).run .plain (soleOpening ++ [.createOrOpen solePath true true,
      .createOrOpen solePath false true].map .call)).sys with
    nonces := countingNonces }

theorem createdSys_held : Held .plain createdFile ⟨none, none⟩ 10 createdSys where
  calm := {
    sameStore := rfl
    tame := ⟨by decide +kernel, by decide +kernel, by decide +kernel⟩
    quiet := by decide +kernel
    fits := World.fits_run Primitives.plain_correct World.empty_fresh soleOpening_keyed
    there := by decide +kernel
    unrepeated := unrepeated_countingNonces
    recent := fun _ hn => absurd hn List.not_mem_nil }
  roomy := by decide +kernel
  records := by decide +kernel
  generations := by decide +kernel
  staged := by decide +kernel
  onDisk := .absent (by decide +kernel)

/-- Writes through two handles, with a gap, and a truncation. -/
def createdEdits : List FileCall :=
  [.write ⟨1⟩ 3 [7], .write ⟨2⟩ 1 [8], .truncate ⟨1⟩ 3]

/-- A write that is not flushed. -/
def createdLater : List FileCall := [.write ⟨1⟩ 0 [9]]

theorem content_refines_createdSys :
    ReadsAs .plain createdFile ((flushHandle .plain ⟨2⟩
      (createdSys.after .plain createdEdits)).state.after .plain createdLater) [0, 8, 0] := by
  have hhandles : ∀ n ∈ [1, 2], createdSys.store.handleFile ⟨n⟩ = .ok createdFile := by
    decide +kernel
  have hbefore : ∀ call ∈ createdEdits,
      createdSys.store.handleFile call.handle = .ok createdFile := by
    intro call hcall
    simp only [createdEdits, List.mem_cons, List.not_mem_nil, or_false] at hcall
    rcases hcall with rfl | rfl | rfl
    · exact hhandles 1 (by decide)
    · exact hhandles 2 (by decide)
    · exact hhandles 1 (by decide)
  have hlater : ∀ call ∈ createdLater,
      createdSys.store.handleFile call.handle = .ok createdFile := by
    intro call hcall
    simp only [createdLater, List.mem_singleton] at hcall
    subst hcall
    exact hhandles 1 (by decide)
  have hheld : Held .plain createdFile ⟨none, none⟩
      (createdEdits.length + (createdLater.length + 1)) createdSys :=
    createdSys_held.fewer (by decide)
  have hflush : flushHandle .plain ⟨2⟩ (createdSys.after .plain createdEdits) =
      .ok () (flushHandle .plain ⟨2⟩ (createdSys.after .plain createdEdits)).state :=
    Outcome.eq_ok (by decide +kernel)
  exact (content_refines Primitives.plain_correct hheld hbefore hlater (hhandles 2 (by decide))
    hflush ⟨nofun, trivial⟩).mpr (Or.inr (Or.inr rfl))

/-- A file that was never edited is flushed without an error, and cannot be read. -/
theorem unedited_flush_unreadable :
    (flushHandle .plain ⟨1⟩ createdSys).result? = some (.ok ()) ∧
      (readHandle .plain ⟨1⟩ (flushHandle .plain ⟨1⟩ createdSys).state).result? =
        some (.error .notFound) ∧
      (readPath .plain solePath.1 (flushHandle .plain ⟨1⟩ createdSys).state).result? =
        some (.error .notFound) := by
  decide +kernel

/-! ### Reads that fail -/

theorem readFile_eq_err {e : StorageError} (h : readFile P file s = .err e t) :
    t.store = s.store := by
  have hkeeps : Keeps (fun c => c.store = s.store) (readFile P file) := keeps_readFile
  exact err_of_wp (hkeeps s rfl) h

/-- When the content of a file cannot be read, whatever the reason, and nothing is staged for it,
each write and each truncation stages zeros in its place. -/
theorem failed_read_staged {handle : FileHandle} {e : StorageError}
    (hhandle : s.store.handleFile handle = .ok file)
    (hstaged : s.store.staged[file.toWire]? = none) (hread : readFile P file s = .err e t) :
    (∀ (offset : UInt64) (bytes : Bytes),
      (writeHandle P handle offset bytes s).result? =
          some (if offset.toNat + bytes.length < 2 ^ 64 then .ok () else .error .ioFailure) ∧
        (writeHandle P handle offset bytes s).state.store.staged[file.toWire]? =
          some (if offset.toNat + bytes.length < 2 ^ 64 then writeArray [] offset.toNat bytes
            else [])) ∧
    ∀ length : UInt64, (truncateHandle P handle length s).result? = some (.ok ()) ∧
      (truncateHandle P handle length s).state.store.staged[file.toWire]? =
        some (List.replicate length.toNat 0) := by
  have hstore := readFile_eq_err hread
  have hattempt : Act.attempt (readFile P file) s = .ok (.error e) t := by
    rw [attempt_apply, hread]
  refine ⟨fun offset bytes => ?_, fun length => ?_⟩
  · have hwrite := writeAt_of_read hattempt
      (show t.store.staged[file.toWire]?.getD _ = [] by rw [hstore, hstaged]; rfl) offset bytes
    by_cases hfits : offset.toNat + bytes.length < 2 ^ 64
    · rw [if_pos hfits] at hwrite ⊢
      have hhandles : t.store.handles = s.store.handles := congrArg Store.handles hstore
      obtain ⟨u, hu, hretimed⟩ := writeHandle_of_ok hhandle hwrite hhandles
      rw [hu, if_pos hfits]
      exact ⟨rfl, hretimed.staged.trans Map.get_insert_self⟩
    · rw [if_neg hfits] at hwrite ⊢
      rw [writeHandle_of_err hhandle hwrite, if_neg hfits]
      exact ⟨rfl, Map.get_insert_self⟩
  · have hdata : currentData P file s = .ok [] t := by
      rw [currentData, bind_of_ok getStore_eq, hstaged]
      exact bind_of_ok hattempt
    obtain ⟨u, hu, hretimed⟩ := truncateHandle_of_ok hhandle hdata length
    rw [hu]
    refine ⟨rfl, hretimed.staged.trans (Map.get_insert_self.trans (congrArg some ?_))⟩
    simp [resizeArray]

/-- A file with three bytes whose chunk was lost, and which is open. -/
def lostChunk : Sys :=
  let w := (World.empty []).run .plain (soleOpening ++ [.createOrOpen solePath true true,
    .writeHandle ⟨1⟩ 0 [1, 2, 3], .flushHandle ⟨1⟩].map .call)
  w.sys.withDisk { w.sys.disk with
    fs := w.sys.disk.fs.erase (chunkPath soleIdentity.storeId createdFile 1 0) }

/-- What the edits of that file leave staged. -/
def StagesZeros (P : Primitives) (handle : FileHandle) (file : FileId) (s : Sys) : Prop :=
  ∀ length : UInt64, (truncateHandle P handle length s).result? = some (.ok ()) ∧
    (truncateHandle P handle length s).state.store.staged[file.toWire]? =
      some (List.replicate length.toNat 0)

theorem failed_read_staged_lostChunk :
    (readFile .plain createdFile lostChunk).result? = some (.error .notFound) ∧
      StagesZeros .plain ⟨1⟩ createdFile lostChunk :=
  ⟨by decide +kernel, (failed_read_staged (by decide +kernel) (by decide +kernel)
    (Outcome.eq_err (e := .notFound) (by decide +kernel))).2⟩

/-- After a write of one byte and a flush, the rest of the file is gone for good. -/
theorem lost_chunk_zero_filled :
    (readHandle .plain ⟨1⟩ lostChunk).result? = some (.error .notFound) ∧
      (writeHandle .plain ⟨1⟩ 2 [9] lostChunk).result? = some (.ok ()) ∧
      (flushHandle .plain ⟨1⟩ (writeHandle .plain ⟨1⟩ 2 [9] lostChunk).state).result? =
        some (.ok ()) ∧
      (readHandle .plain ⟨1⟩ (flushHandle .plain ⟨1⟩
        (writeHandle .plain ⟨1⟩ 2 [9] lostChunk).state).state).result? = some (.ok [0, 0, 9]) := by
  decide +kernel

end Wdlp
