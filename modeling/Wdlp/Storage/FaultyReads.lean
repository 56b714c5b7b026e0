import Wdlp.Storage.Generations

/-!
# Reads on a faulty disk

The steps of a disk may fail, but a step that reads and returns gives what is there. A program that
only reads, and returns on a disk where steps may go wrong, thus returns the same on the same disk
when nothing goes wrong, and has changed nothing.

## Main definitions

* `Settled` — what a program returns, it returns without faults as well.

## Main results

* `settled_readFile` — reading a file.
-/

namespace Wdlp

open CrashSafe Act

variable {P : Primitives} {file : FileId} {generation : UInt64} {pointer path : Path} {s t : Sys}
  {α β : Type}

/-- If the program returns, it has changed nothing but the fates to come, and without faults it
returns the same. -/
def Settled (p : Op α) : Prop :=
  ∀ s a t, p s = .ok a t → t.quiet = s.quiet ∧ p s.quiet = .ok a s.quiet

theorem Settled.bind {p : Op α} {f : α → Op β} (hp : Settled p) (hf : ∀ a, Settled (f a)) :
    Settled (p >>= f) := by
  intro s b u h
  obtain ⟨a, t, ha, hb⟩ := bind_eq_ok.mp h
  obtain ⟨ht, hp'⟩ := hp s a t ha
  obtain ⟨hu, hf'⟩ := hf a t b u hb
  rw [ht] at hu hf'
  exact ⟨hu, (bind_of_ok hp').trans hf'⟩

theorem settled_pure {a : α} : Settled (pure a : Op α) := by
  intro s b t h
  obtain ⟨rfl, rfl⟩ := pure_eq_ok.mp h
  exact ⟨rfl, rfl⟩

theorem settled_getStore : Settled getStore := by
  intro s store t h
  obtain ⟨rfl, rfl⟩ := Outcome.ok.inj h
  exact ⟨rfl, rfl⟩

theorem settled_ofExcept {x : Except StorageError α} : Settled (Act.ofExcept x) := by
  intro s a t h
  obtain ⟨rfl, rfl⟩ := ofExcept_eq_ok.mp h
  exact ⟨rfl, rfl⟩

theorem settled_failIf {c : Prop} [Decidable c] {e : StorageError} :
    Settled (failIf c e : Op Unit) := by
  intro s a t h
  obtain ⟨hc, rfl⟩ := failIf_eq_ok.mp h
  exact ⟨rfl, failIf_eq_ok.mpr ⟨hc, rfl⟩⟩

/-- The one step that reads. -/
theorem settled_readRecord : Settled (readRecord path) := by
  refine Settled.bind (fun s bytes t h => ?_) fun _ => settled_ofExcept
  obtain ⟨d, hd, rfl⟩ := zoom_eq_ok.mp h
  rcases Disk.readFile_cases path s.disk with ⟨found, hfound, hread⟩ | ⟨kind, hread⟩ | hread
  · obtain ⟨rfl, rfl⟩ := Outcome.ok.inj (hread.symm.trans hd)
    refine ⟨rfl, ?_⟩
    rw [zoom_apply, Disk.readFile_of_nil (d := s.quiet.disk) rfl hfound]
    rfl
  · cases hread.symm.trans hd
  · cases hread.symm.trans hd

theorem settled_trackNonce {nonces : NonceTracker} {nonce : Nonce} :
    Settled (trackNonce nonces nonce) := settled_ofExcept

theorem settled_readCommit : Settled (readCommit P pointer file) := by
  refine settled_getStore.bind fun _ => settled_readRecord.bind fun _ => ?_
  refine settled_ofExcept.bind fun _ => settled_ofExcept.bind fun _ => ?_
  exact settled_failIf.bind fun _ => settled_pure

theorem settled_commitGeneration : Settled (commitGeneration P pointer file) :=
  settled_readCommit.bind fun _ => settled_pure

theorem settled_checkCommitted {commit : CommitRecordV1} :
    Settled (checkCommitted P file commit) := by
  refine settled_getStore.bind fun _ => settled_readRecord.bind fun _ => ?_
  refine settled_ofExcept.bind fun _ => settled_failIf.bind fun _ => ?_
  exact settled_ofExcept.bind fun _ => settled_failIf

theorem settled_readManifest : Settled (readManifest P file generation) := by
  refine settled_getStore.bind fun _ => settled_readRecord.bind fun _ => ?_
  refine settled_ofExcept.bind fun _ => settled_failIf.bind fun _ => ?_
  exact settled_ofExcept.bind fun _ => settled_failIf.bind fun _ => settled_pure

theorem settled_readChunks : (lengths : List UInt64) → (index : ℕ) → (nonces : NonceTracker) →
    (out : Bytes) → Settled (readChunks P file generation index lengths nonces out)
  | [], _, _, _ => settled_pure
  | _ :: lengths, index, nonces, out => by
    refine settled_failIf.bind fun _ => settled_getStore.bind fun _ => ?_
    refine settled_readRecord.bind fun _ => settled_ofExcept.bind fun _ => ?_
    refine settled_failIf.bind fun _ => settled_trackNonce.bind fun _ => ?_
    exact settled_ofExcept.bind fun _ => settled_readChunks lengths _ _ _

theorem settled_readFromPointer : Settled (readFromPointer P pointer file) := by
  refine settled_readCommit.bind fun _ => settled_checkCommitted.bind fun _ => ?_
  refine settled_readManifest.bind fun _ => settled_trackNonce.bind fun _ => ?_
  refine settled_trackNonce.bind fun _ => (settled_readChunks _ _ _ _).bind fun _ => ?_
  exact settled_failIf.bind fun _ => settled_pure

/-- What is read of a file on a faulty disk is what it holds. -/
theorem settled_readFile : Settled (readFile P file) :=
  settled_getStore.bind fun _ => settled_readFromPointer

end Wdlp
