import Wdlp.Storage.Recovery

/-!
# Reading again

What is read through a pointer depends on the bytes of the pointer and on the directory of the
generation that it commits, and on nothing else. Two states that agree on these, with stores of the
same identity and key, give the same answer.

## Main definitions

* `SameSession` — nothing goes wrong on the disks of two states, and their stores have the same
  identifier and the same key.

## Main results

* `alike_readFromPointer` — reading through pointers that hold the same.
-/

namespace Wdlp

open CrashSafe

variable {P : Primitives} {file : FileId} {generation : UInt64} {s t : Sys} {p q : Path}

/-- Nothing goes wrong on either disk, and the stores have the same identifier and key. -/
structure SameSession (s t : Sys) : Prop where
  quiet : s.disk.fates = []
  quiet' : t.disk.fates = []
  storeId : t.store.storeId = s.store.storeId
  key : t.store.key = s.store.key

/-- The paths hold the same node, or files with the same bytes. -/
def SameBytes (s : Sys) (p : Path) (t : Sys) (q : Path) : Prop :=
  t.disk.fs[q]? = s.disk.fs[p]? ∨
    ∃ bytes, s.disk.fs.read? p = some bytes ∧ t.disk.fs.read? q = some bytes

theorem alike_getStore {α : Type} {f g : Store → Op α} (h : (f s.store).Alike s (g t.store) t) :
    (getStore >>= f).Alike s (getStore >>= g) t := h

namespace SameSession

variable (h : SameSession s t)

include h

theorem ensureIdentity : t.store.ensureIdentity = s.store.ensureIdentity := by
  funext record file kind index
  rw [Store.ensureIdentity, Store.ensureIdentity, h.storeId]

theorem openCommit : t.store.openCommit P = s.store.openCommit P := by
  funext record
  rw [Store.openCommit, Store.openCommit, h.key]

theorem openManifest : t.store.openManifest P = s.store.openManifest P := by
  funext record
  rw [Store.openManifest, Store.openManifest, h.key]

section

variable (hsame : SameBytes s p t q)

include hsame

theorem alike_readFile : (Disk.readFile p).Alike s.disk (Disk.readFile q) t.disk := by
  rcases hsame with hget | ⟨bytes, hp, hq⟩
  · have hread : ∀ {path : Path} {d : Disk}, d.fates = [] → Disk.readFile path d =
        Act.ofExcept ((d.fs.read? path).elim
          (.error (if d.fs[path]? = some .dir then .other else .notFound)) .ok) d := by
      intro path d hd
      simp only [Disk.readFile, hd, List.headD_nil, Disk.advance_of_nil hd, Fs.read?]
      cases d.fs[path]? with
      | none => rfl
      | some node => cases node <;> rfl
    refine ⟨_, hread h.quiet, ?_⟩
    rw [hread h.quiet', Fs.read?, hget, Fs.read?]
  · exact ⟨.ok bytes, Disk.readFile_of_nil h.quiet hp, Disk.readFile_of_nil h.quiet' hq⟩

theorem alike_readRecord : (readRecord p).Alike s (readRecord q) t :=
  .bind (.zoom (h.alike_readFile hsame) rfl rfl) fun _ _ => .ofExcept _

theorem alike_readCommit : (readCommit P p file).Alike s (readCommit P q file) t := by
  refine alike_getStore (.bind (h.alike_readRecord hsame) fun selected _ => ?_)
  rw [h.ensureIdentity, h.openCommit]
  refine .bind (.ofExcept _) fun _ _ => .bind (.ofExcept _) fun _ _ => ?_
  exact .bind .failIf fun _ _ => .pure _

theorem alike_commitGeneration :
    (commitGeneration P p file).Alike s (commitGeneration P q file) t :=
  .bind (h.alike_readCommit hsame) fun _ _ => .pure _

end

section Items

variable (hitems : ∀ name, t.disk.fs[generationItem s.store.storeId file generation name]? =
  s.disk.fs[generationItem s.store.storeId file generation name]?)

include hitems

theorem alike_readItem (name : Text) :
    (readRecord (generationItem s.store.storeId file generation name)).Alike s
      (readRecord (generationItem t.store.storeId file generation name)) t := by
  rw [h.storeId]
  exact h.alike_readRecord (Or.inl (hitems name))

theorem alike_checkCommitted {commit : CommitRecordV1} (hcommit : commit.generation = generation) :
    (checkCommitted P file commit).Alike s (checkCommitted P file commit) t := by
  subst hcommit
  refine alike_getStore (.bind (h.alike_readItem hitems commitName) fun record _ => ?_)
  rw [h.ensureIdentity, h.openCommit]
  refine .bind (.ofExcept _) fun _ _ => .bind .failIf fun _ _ => ?_
  exact .bind (.ofExcept _) fun _ _ => .failIf

theorem alike_readManifest :
    (readManifest P file generation).Alike s (readManifest P file generation) t := by
  refine alike_getStore (.bind (h.alike_readItem hitems manifestName) fun record _ => ?_)
  rw [h.ensureIdentity, h.openManifest]
  refine .bind (.ofExcept _) fun _ _ => .bind .failIf fun _ _ => ?_
  exact .bind (.ofExcept _) fun _ _ => .bind .failIf fun _ _ => .pure _

theorem alike_readChunks : (lengths : List UInt64) → (index : ℕ) → (nonces : NonceTracker) →
    (out : Bytes) → (readChunks P file generation index lengths nonces out).Alike s
      (readChunks P file generation index lengths nonces out) t
  | [], _, _, _ => .pure _
  | _ :: lengths, index, nonces, out => by
    refine .bind .failIf fun _ _ => alike_getStore ?_
    refine .bind (h.alike_readItem hitems (chunkName index)) fun record _ => ?_
    rw [h.ensureIdentity, h.key]
    refine .bind (.ofExcept _) fun _ _ => .bind .failIf fun _ _ => ?_
    refine .bind (.ofExcept _) fun _ _ => .bind (.ofExcept _) fun _ _ => ?_
    exact alike_readChunks lengths (index + 1) _ _

end Items

/-- Pointers that hold the same give the same answer, if the generation that they commit is the
same in both states. -/
theorem alike_readFromPointer (hsame : SameBytes s p t q)
    (hitems : ∀ selected, readCommit P p file s = .ok selected s →
      ∀ name, t.disk.fs[generationItem s.store.storeId file selected.2.generation name]? =
        s.disk.fs[generationItem s.store.storeId file selected.2.generation name]?) :
    (readFromPointer P p file).Alike s (readFromPointer P q file) t := by
  refine .bind (h.alike_readCommit hsame) fun selected hselected => ?_
  have hitems := hitems selected hselected
  refine .bind (h.alike_checkCommitted hitems rfl) fun _ _ => ?_
  refine .bind (h.alike_readManifest hitems) fun listed _ => ?_
  refine .bind (.ofExcept _) fun _ _ => .bind (.ofExcept _) fun _ _ => ?_
  refine .bind (h.alike_readChunks hitems _ _ _ _) fun _ _ => ?_
  exact .bind .failIf fun _ _ => .pure _

end SameSession

/-- A pointer that was read in full commits a generation. -/
theorem readCommit_of_readFromPointer {data : Bytes} {t : Sys} (hquiet : s.disk.fates = [])
    (h : readFromPointer P p file s = .ok data t) : ∃ selected, readCommit
    P p file s = .ok selected s ∧ commitGeneration P p file s = .ok selected.2.generation s := by
  obtain ⟨selected, s', hcommit, -⟩ := Act.bind_eq_ok.mp h
  obtain ⟨x, hx⟩ := reads_readCommit hquiet
  cases x with
  | error e => cases hx.symm.trans hcommit
  | ok a =>
    obtain ⟨rfl, rfl⟩ := Outcome.ok.inj (hx.symm.trans hcommit)
    exact ⟨a, hx, Act.bind_of_ok hx⟩

end Wdlp
