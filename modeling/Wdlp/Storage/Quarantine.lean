import Wdlp.Storage.CrashAtomicity
import Wdlp.Storage.Rereading

/-!
# What recovery removes and what it keeps

Recovery authenticates the generation of a pointer and then removes every generation directory that
neither pointer commits, after it has copied the files in it, however deeply they are nested, into a
new evidence directory. This module follows a recovery that returns, on any disk: the generations
may be complete, partial or garbage, and the pointers may hold anything.

Which generations are referenced is decided by `commit_generation`, which reads only the pointer. A
pointer that can be read in full passes that check as well, so that its generation is kept.

## Main definitions

* `Copied` — files were copied into an evidence directory.
* `Preserved` — the files below a directory were kept as evidence.
* `Swept` — some generation directories were removed, after their files were kept as evidence.

## Main results

* `copyEvidenceFiles_yields`, `preserveEvidenceDirectory_yields`, `cleanup_yields` — what is left
  when these operations return.
* `recovery_keeps_referenced` — what the pointers refer to is kept, what was removed is in the
  evidence, and a second recovery changes nothing.
-/

namespace Wdlp

open CrashSafe Act

variable {P : Primitives} {file : FileId} {generation : UInt64} {s t u : Sys} {path source : Path}

/-! ### Steps that return -/

variable {bytes : Bytes}

theorem readBytes_ok (hquiet : s.disk.fates = [])
    (h : readBytes path s = .ok bytes t) : s.disk.fs.read? path = some bytes ∧ t = s := by
  obtain ⟨d, hd, rfl⟩ := zoom_eq_ok.mp h
  rcases Disk.readFile_cases path s.disk with ⟨found, hfound, hread⟩ | ⟨kind, hread⟩ | hread
  · obtain ⟨rfl, rfl⟩ := Outcome.ok.inj (hread.symm.trans hd)
    rw [Disk.advance_of_nil hquiet]
    exact ⟨hfound, rfl⟩
  · cases hread.symm.trans hd
  · cases hread.symm.trans hd

theorem readDir_ok {names : List Text} (hquiet : s.disk.fates = [])
    (h : readDir path s = .ok names t) :
    s.disk.fs.isDir path = true ∧ names = s.disk.fs.readDir path ∧ t = s := by
  obtain ⟨d, hd, rfl⟩ := zoom_eq_ok.mp h
  simp only [Disk.listDir, hquiet, List.headD_nil, Disk.advance_of_nil hquiet] at hd
  split_ifs at hd with hdir
  obtain ⟨rfl, rfl⟩ := Outcome.ok.inj hd
  exact ⟨hdir, rfl, rfl⟩

theorem io_yields {op : FsOp} :
    (io op).Yields (fun _ t => ∃ fs, op.effect s.disk.fs = .ok fs ∧ t = s.ran fs) s :=
  fun _ _ h => io_eq_ok h

/-- A file that was written holds the bytes, and nothing else has changed. -/
theorem writeBytes_yields : (writeBytes path bytes).Yields
      (fun _ t => t = (s.ran (s.disk.fs.insert path (.file [] false))).ran
        (s.disk.fs.insert path (.file bytes false))) s := by
  refine io_yields.bind fun _ t ⟨fs, heffect, ht⟩ => io_yields.mono fun _ u ⟨fs', heffect', hu⟩ => ?_
  obtain ⟨-, rfl⟩ := FsOp.effect_create.mp heffect
  subst ht hu
  obtain ⟨old, hold, rfl⟩ := FsOp.effect_write.mp heffect'
  obtain ⟨synced, hnode⟩ := Fs.read?_eq_some.mp hold
  obtain rfl := (Node.file.inj (Option.some.inj (Map.get_insert_self.symm.trans hnode))).1
  exact congrArg _ Map.insert_insert

theorem flushDirectoryMarker_yields {directory : Path} (hquiet : s.disk.fates = []) :
    (flushDirectoryMarker directory).Yields (fun _ t => t.store = s.store ∧
      t.counters = s.counters ∧ t.disk.fates = [] ∧
      ∀ q, q ≠ markerPath directory → t.disk.fs[q]? = s.disk.fs[q]?) s := by
  refine .bind io_yields ?_
  rintro _ _ ⟨fs₁, heffect₁, rfl⟩
  obtain ⟨-, rfl⟩ := FsOp.effect_create.mp heffect₁
  refine .bind io_yields ?_
  rintro _ _ ⟨fs₂, heffect₂, rfl⟩
  obtain ⟨old₂, -, rfl⟩ := FsOp.effect_write.mp heffect₂
  refine io_yields.mono ?_
  rintro _ _ ⟨fs₃, heffect₃, rfl⟩
  obtain ⟨old₃, -, rfl⟩ := FsOp.effect_sync.mp heffect₃
  refine ⟨rfl, rfl, fates_ran (fates_ran (fates_ran hquiet)), fun q hq => ?_⟩
  exact (Map.get_insert_of_ne hq).trans ((Map.get_insert_of_ne hq).trans (Map.get_insert_of_ne hq))

/-! ### Copies -/

variable {id : Text}

theorem diagnosticsPath_ne_evidenceRecord {k : ℕ} : diagnosticsPath ≠ evidenceRecord id k :=
  fun h => absurd (congrArg List.length h) (by simp [diagnosticsPath, evidenceRecord])

theorem evidenceRecord_inj {k k' : ℕ} (h : evidenceRecord id k = evidenceRecord id k') : k = k' :=
  evidenceRecordName_inj (Option.some.inj (congrArg List.getLast? h))

/-- From `s` to `t`, the log and the records with the numbers from `first` up to `next` of an
evidence directory were written, and nothing else. -/
structure Copied (id : Text) (s : Sys) (first : ℕ) (t : Sys) (next : ℕ) : Prop where
  core : t.core = s.core.withFs t.disk.fs
  quiet : t.disk.fates = []
  le : first ≤ next
  paths : ∀ q, q ≠ diagnosticsPath → (∀ k, first ≤ k → k < next → q ≠ evidenceRecord id k) →
    t.disk.fs[q]? = s.disk.fs[q]?

namespace Copied

variable {id : Text} {first next last : ℕ}

theorem refl (hquiet : s.disk.fates = []) : Copied id s first s first :=
  ⟨rfl, hquiet, le_rfl, fun _ _ _ => rfl⟩

theorem trans (h : Copied id s first t next) (h' : Copied id t next u last) :
    Copied id s first u last where
  core := by
    rw [h'.core, h.core]
    rfl
  quiet := h'.quiet
  le := h.le.trans h'.le
  paths q hlog hrecord :=
    (h'.paths q hlog fun k hk hlast => hrecord k (h.le.trans hk) hlast).trans
      (h.paths q hlog fun k hk hnext => hrecord k hk (hnext.trans_le h'.le))

theorem log (hquiet : s.disk.fates = []) (node : Node) :
    Copied id s first (s.ran (s.disk.fs.insert diagnosticsPath node)) first :=
  ⟨rfl, fates_ran hquiet, le_rfl, fun _ hlog _ => Map.get_insert_of_ne hlog⟩

/-- What is not evidence is as it was. -/
theorem outside (h : Copied id s first t next) {q : Path} (hq : q.head? ≠ some evidenceName) :
    t.disk.fs[q]? = s.disk.fs[q]? :=
  h.paths q (fun heq => hq (heq ▸ rfl)) fun _ _ _ heq => hq (heq ▸ rfl)

/-- A record that has its number already keeps its bytes. -/
theorem record (h : Copied id s first t next) {k : ℕ} (hk : k < first) :
    t.disk.fs[evidenceRecord id k]? = s.disk.fs[evidenceRecord id k]? :=
  h.paths _ diagnosticsPath_ne_evidenceRecord.symm fun _ hfirst _ heq =>
    absurd (evidenceRecord_inj heq) (by omega)

end Copied

/-- One of the records with the numbers from `first` up to `next` holds the bytes. -/
def HasCopy (t : Sys) (id : Text) (first next : ℕ) (bytes : Bytes) : Prop :=
  ∃ k, first ≤ k ∧ k < next ∧ t.disk.fs.read? (evidenceRecord id k) = some bytes

theorem HasCopy.copied {first next last : ℕ} (h : HasCopy t id first next bytes)
    (hcopied : Copied id t next u last) : HasCopy u id first last bytes := by
  obtain ⟨k, hfirst, hnext, hread⟩ := h
  exact ⟨k, hfirst, hnext.trans_le hcopied.le, (Fs.read?_congr (hcopied.record hnext)).trans hread⟩

theorem HasCopy.mono {first first' next : ℕ}
    (h : HasCopy t id first next bytes) (hle : first' ≤ first) : HasCopy t id first' next bytes := by
  obtain ⟨k, hfirst, hrest⟩ := h
  exact ⟨k, hle.trans hfirst, hrest⟩

variable {code : EvidenceCode}

/-- One file is copied under the next number. -/
theorem copyEvidenceFile_yields {next : ℕ} (hquiet : s.disk.fates = []) :
    (copyEvidenceFile P id code path next).Yields (fun n t => Copied id s next t n ∧
      ∀ bytes, s.disk.fs.read? path = some bytes → HasCopy t id next n bytes) s := by
  refine .bind (Q := fun _ t => t = s) (fun _ t h => (failIf_eq_ok.mp h).2.symm) ?_
  rintro _ _ rfl
  refine .bind (fun _ _ h => readBytes_ok hquiet h) ?_
  rintro bytes _ ⟨hbytes, rfl⟩
  refine .bind io_yields ?_
  rintro _ _ ⟨fs₁, heffect₁, rfl⟩
  obtain ⟨old, -, rfl⟩ := FsOp.effect_write.mp heffect₁
  refine .bind io_yields ?_
  rintro _ _ ⟨fs₂, heffect₂, rfl⟩
  obtain ⟨all, -, rfl⟩ := FsOp.effect_sync.mp heffect₂
  refine .bind writeBytes_yields ?_
  rintro _ u rfl
  refine .pure ⟨⟨rfl, ?_, Nat.le_succ next, fun q hlog hrecord => ?_⟩, ?_⟩
  · exact fates_ran (fates_ran (fates_ran (fates_ran hquiet)))
  · have hrecord := hrecord next le_rfl (Nat.lt_succ_self next)
    exact (Map.get_insert_of_ne hrecord).trans
      ((Map.get_insert_of_ne hlog).trans (Map.get_insert_of_ne hlog))
  · intro bytes' hbytes'
    obtain rfl := Option.some.inj (hbytes.symm.trans hbytes')
    exact ⟨next, le_rfl, Nat.lt_succ_self next, Fs.read?_eq_some.mpr ⟨false, Map.get_insert_self⟩⟩

/-- The files below a directory are copied, those of directories in it among them. -/
theorem copyEvidenceFiles_yields : (depth : ℕ) →
    {source : Path} → {next : ℕ} → {s : Sys} → s.disk.fates = [] → source ≠ [] →
    source.head? ≠ some evidenceName → s.disk.fs.ClosedBelow source →
    (copyEvidenceFiles P id code depth source next).Yields (fun n t => Copied id s next t n ∧
      ∀ rest bytes, rest ≠ [] → s.disk.fs.read? (source ++ rest) = some bytes →
        HasCopy t id next n bytes) s
  | 0, _, _, _, _, _, _, _ => Act.Yields.throw _
  | depth + 1, source, next, s, hquiet, hne, hhead, hclosed => by
    have hhead' : ∀ rest : Path, (source ++ rest).head? ≠ some evidenceName := by
      intro rest
      rwa [List.head?_append_of_ne_nil _ hne]
    refine Act.Yields.bind (fun _ _ h => readDir_ok hquiet h) ?_
    rintro names s ⟨-, rfl, rfl⟩
    -- the names that were passed are copied, and every name is one that is still to come or passed
    refine (Act.Yields.foldlM (fun names n t => Copied id s next t n ∧
      ∀ name rest bytes, s.disk.fs.read? (source ++ name :: rest) = some bytes →
        name ∈ names ∨ HasCopy t id next n bytes) (fun name names n t ht => ?_) _
      ⟨Copied.refl hquiet, fun name rest bytes hread => Or.inl ?_⟩).mono fun n t ht => ⟨ht.1, ?_⟩
    · obtain ⟨hcopied, hcopies⟩ := ht
      have hsame : ∀ q, source ++ [name] <+: q → t.disk.fs[q]? = s.disk.fs[q]? := by
        rintro q ⟨rest, rfl⟩
        rw [List.append_assoc]
        exact hcopied.outside (hhead' _)
      have hbytes : ∀ rest, t.disk.fs.read? (source ++ [name] ++ rest) =
          s.disk.fs.read? (source ++ name :: rest) := by
        intro rest
        rw [Fs.read?_congr (hsame _ ⟨rest, rfl⟩), List.append_assoc]
        rfl
      -- what one name adds to the copies
      have hstep : ∀ {n' : ℕ} {t' : Sys}, Copied id t n t' n' →
          (∀ rest bytes, s.disk.fs.read? (source ++ name :: rest) = some bytes →
            HasCopy t' id n n' bytes) → Copied id s next t' n' ∧
          ∀ name' rest bytes, s.disk.fs.read? (source ++ name' :: rest) = some bytes →
            name' ∈ names ∨ HasCopy t' id next n' bytes := by
        intro n' t' hcopied' hname
        refine ⟨hcopied.trans hcopied', fun name' rest bytes hread => ?_⟩
        rcases hcopies name' rest bytes hread with hmem | hcopy
        · rcases List.mem_cons.mp hmem with rfl | hmem
          · exact Or.inr ((hname rest bytes hread).mono hcopied.le)
          · exact Or.inl hmem
        · exact Or.inr (hcopy.copied hcopied')
      refine Act.Yields.bind (Q := fun isDir u => isDir = t.disk.fs.isDir (source ++ [name]) ∧
        u = t) (fun _ _ h => ?_) ?_
      · obtain ⟨rfl, rfl⟩ := Outcome.ok.inj h
        exact ⟨rfl, rfl⟩
      rintro _ _ ⟨rfl, rfl⟩
      refine Act.Yields.ite (fun hdir => ?_) fun hfile => ?_
      · refine (copyEvidenceFiles_yields depth hcopied.quiet (by simp) (hhead' _)
          ((hclosed.mono ⟨[name], rfl⟩).congr hsame)).mono fun n' t' ⟨hcopied', hcopies'⟩ =>
            hstep hcopied' fun rest bytes hread => ?_
        refine hcopies' rest bytes ?_ ((hbytes rest).trans hread)
        -- a directory is not a file
        rintro rfl
        have hread' := (hbytes []).trans hread
        rw [List.append_nil] at hread'
        exact Fs.not_isDir_of_read? (by simp) hread' hdir
      · refine (copyEvidenceFile_yields hcopied.quiet).mono fun n' t' ⟨hcopied', hcopies'⟩ =>
          hstep hcopied' fun rest bytes hread => ?_
        cases rest with
        | nil =>
          refine hcopies' bytes ?_
          have hread' := (hbytes []).trans hread
          rwa [List.append_nil] at hread'
        | cons name' rest =>
          -- a file has nothing below it
          refine absurd ?_ hfile
          obtain ⟨synced, hnode⟩ := Fs.read?_eq_some.mp hread
          have hparent := hclosed (source ++ [name]) (source ++ name :: name' :: rest) ⟨[name], rfl⟩
            ⟨name' :: rest, by simp⟩ (by simp) (by rw [hnode]; rfl)
          rwa [Fs.isDir_congr (hsame _ (List.prefix_refl _))]
    · rw [Fs.mem_readDir]
      obtain ⟨synced, hnode⟩ := Fs.read?_eq_some.mp hread
      cases rest with
      | nil => rw [hnode]; rfl
      | cons name' rest =>
        have hparent := hclosed (source ++ [name]) (source ++ name :: name' :: rest) ⟨[name], rfl⟩
          ⟨name' :: rest, by simp⟩ (by simp) (by rw [hnode]; rfl)
        exact Fs.isSome_of_isDir (by simp) hparent
    · rintro rest bytes hrest hread
      cases rest with
      | nil => exact absurd rfl hrest
      | cons name rest => exact (ht.2 name rest bytes hread).resolve_left List.not_mem_nil

/-! ### Evidence -/

/-- From `s` to `t`, one evidence directory was made and filled. -/
structure Preserved (s t : Sys) : Prop where
  store : t.store = s.store
  quiet : t.disk.fates = []
  next : t.counters.nextEvidence = s.counters.nextEvidence + 1
  outside : ∀ q : Path, q.head? ≠ some evidenceName → t.disk.fs[q]? = s.disk.fs[q]?
  records : ∀ number k, number ≠ s.counters.nextEvidence →
    t.disk.fs[evidenceRecord (evidenceId number) k]? =
      s.disk.fs[evidenceRecord (evidenceId number) k]?

/-- A record of an evidence directory with a number from `first` on holds the bytes. -/
def HasEvidence (t : Sys) (first : ℕ) (bytes : Bytes) : Prop :=
  ∃ number k, first ≤ number ∧ number < t.counters.nextEvidence ∧
    t.disk.fs.read? (evidenceRecord (evidenceId number) k) = some bytes

theorem HasEvidence.preserved {first : ℕ} (h : HasEvidence s first bytes)
    (hp : Preserved s t) : HasEvidence t first bytes := by
  obtain ⟨number, k, hfirst, hlt, hread⟩ := h
  refine ⟨number, k, hfirst, hp.next ▸ hlt.trans (Nat.lt_succ_self _), ?_⟩
  exact (Fs.read?_congr (hp.records number k hlt.ne)).trans hread

theorem HasEvidence.mono {first first' : ℕ} (h : HasEvidence s first bytes)
    (hle : first' ≤ first) : HasEvidence s first' bytes := by
  obtain ⟨number, k, hfirst, hrest⟩ := h
  exact ⟨number, k, hle.trans hfirst, hrest⟩

theorem evidenceRecord_ne {number number' k k' : ℕ} (h : number ≠ number') :
    evidenceRecord (evidenceId number) k ≠ evidenceRecord (evidenceId number') k' :=
  fun heq => h (evidenceId_inj (Option.some.inj (congrArg (fun q : Path => q[1]?) heq)))

/-- The files below a directory are kept as evidence. -/
theorem preserveEvidenceDirectory_yields (hquiet : s.disk.fates = [])
    (hne : source ≠ []) (hhead : source.head? ≠ some evidenceName)
    (hclosed : s.disk.fs.ClosedBelow source) :
    (preserveEvidenceDirectory P source code).Yields (fun _ t => Preserved s t ∧
      ∀ rest bytes, rest ≠ [] → s.disk.fs.read? (source ++ rest) = some bytes →
        HasEvidence t s.counters.nextEvidence bytes) s := by
  have hhead' : ∀ rest : Path, (source ++ rest).head? ≠ some evidenceName := by
    intro rest
    rwa [List.head?_append_of_ne_nil _ hne]
  -- the paths that are made before the files are copied
  let Made : Path → Prop := fun q =>
    q = evidenceRoot ∨ q = evidenceDir (evidenceId s.counters.nextEvidence) ∨ q = diagnosticsPath
  refine .bind io_yields ?_
  rintro _ _ ⟨fs₁, heffect₁, rfl⟩
  obtain ⟨-, rfl⟩ := FsOp.effect_createDirAll.mp heffect₁
  refine .bind (Q := fun number u => number = s.counters.nextEvidence ∧
    u.store = s.store ∧ u.disk.fates = [] ∧ u.counters.nextEvidence = number + 1 ∧
    ∀ q, ¬Made q → u.disk.fs[q]? = s.disk.fs[q]?) (fun _ _ h => ?_) ?_
  · obtain ⟨rfl, rfl⟩ := Outcome.ok.inj h
    refine ⟨rfl, rfl, fates_ran hquiet, rfl, fun q hq => ?_⟩
    exact (Fs.get_insertDirs _).trans
      (if_neg fun hmem => hq (.inl (mem_ancestors_evidenceRoot.mp hmem)))
  rintro _ s₂ ⟨rfl, hstore, hquiet₂, hnext, hpaths⟩
  refine .bind io_yields ?_
  rintro _ _ ⟨fs₃, heffect₃, rfl⟩
  obtain ⟨-, -, rfl⟩ := FsOp.effect_createDir.mp heffect₃
  refine .bind (Q := fun _ u => u.store = s.store ∧ u.disk.fates = [] ∧
    u.counters.nextEvidence = s.counters.nextEvidence + 1 ∧
    ∀ q, ¬Made q → u.disk.fs[q]? = s.disk.fs[q]?) (io_yields.mono ?_) ?_
  · rintro _ _ ⟨fs₄, heffect₄, rfl⟩
    refine ⟨hstore, fates_ran (fates_ran hquiet₂), hnext, fun q hq => ?_⟩
    have hdir : (s₂.disk.fs.insert (evidenceDir (evidenceId s.counters.nextEvidence)) .dir)[q]? =
        s₂.disk.fs[q]? := Map.get_insert_of_ne fun heq => hq (.inr (.inl heq))
    rcases FsOp.effect_openAppend.mp heffect₄ with ⟨-, rfl⟩ | ⟨-, -, rfl⟩
    · exact hdir.trans (hpaths q hq)
    · exact (Map.get_insert_of_ne fun heq => hq (.inr (.inr heq))).trans (hdir.trans (hpaths q hq))
  rintro _ s₄ ⟨hstore, hquiet₄, hnext, hpaths⟩
  have hmade : ∀ q : Path, q.head? ≠ some evidenceName → ¬Made q := by
    rintro q hq (rfl | rfl | rfl) <;> exact hq rfl
  have hsource : ∀ rest, s₄.disk.fs[source ++ rest]? = s.disk.fs[source ++ rest]? :=
    fun rest => hpaths _ (hmade _ (hhead' rest))
  refine .bind (fun a u h => (Outcome.ok.inj h)) ?_
  rintro _ s₄ ⟨rfl, rfl⟩
  refine .bind (copyEvidenceFiles_yields _ hquiet₄ hne hhead (hclosed.congr ?_)) ?_
  · rintro _ ⟨rest, rfl⟩
    exact hsource rest
  rintro last s₅ ⟨hcopied, hcopies⟩
  refine io_yields.mono ?_
  rintro _ _ ⟨fs₆, heffect₆, rfl⟩
  obtain ⟨all, -, rfl⟩ := FsOp.effect_sync.mp heffect₆
  have hsynced := @Copied.log _ (evidenceId s.counters.nextEvidence) last hcopied.quiet
    (.file all true)
  have hlog := hcopied.trans hsynced
  have hnext' := (congrArg (fun c => c.counters.nextEvidence) hlog.core).trans hnext
  refine ⟨⟨?_, hlog.quiet, ?_, fun q hq => (hlog.outside hq).trans (hpaths q (hmade q hq)),
    fun number k hne => ?_⟩, fun rest bytes hrest hread => ?_⟩
  · exact (congrArg Core.store hlog.core).trans hstore
  · exact hnext'
  · refine (hlog.paths _ diagnosticsPath_ne_evidenceRecord.symm
      fun _ _ _ => evidenceRecord_ne hne).trans (hpaths _ ?_)
    rintro (heq | heq | heq) <;>
      exact absurd (congrArg List.length heq)
        (by simp [evidenceRecord, evidenceRoot, evidenceDir, diagnosticsPath])
  · have hcopy := hcopies rest bytes hrest ((Fs.read?_congr (hsource rest)).trans hread)
    obtain ⟨k, -, -, hk⟩ := hcopy.copied hsynced
    exact ⟨_, k, le_rfl, hnext'.symm ▸ Nat.lt_succ_self _, hk⟩

/-! ### Cleaning up -/

section Cleanup

variable {store : StoreId} {referenced : List Path} {names : List Text}

/-- The directories of the generations that are referenced. -/
def referencedBy (store : StoreId) (file : FileId) (generation : UInt64) (prior : Option UInt64) :
    List Path :=
  (generation :: prior.toList).map (generationDir store file)

/-- An entry that stays: not a directory, or one of a generation that is referenced. -/
def Stays (s : Sys) (store : StoreId) (file : FileId) (referenced : List Path) (name : Text) :
    Prop :=
  s.disk.fs.isDir (generationEntry store file name) = false ∨
    generationEntry store file name ∈ referenced

/-- From `s` to `t`, the entries that do not stay were removed, those with the given names apart,
after their files were kept as evidence. -/
structure Swept (store : StoreId) (file : FileId) (referenced : List Path) (s : Sys)
    (names : List Text) (t : Sys) : Prop where
  sameStore : t.store = s.store
  nodup : names.Nodup
  quiet : t.disk.fates = []
  next : s.counters.nextEvidence ≤ t.counters.nextEvidence
  paths : ∀ q : Path, q.head? ≠ some evidenceName →
    (∀ name, generationEntry store file name <+: q →
      name ∈ names ∨ Stays s store file referenced name) → t.disk.fs[q]? = s.disk.fs[q]?
  gone : ∀ name, name ∈ names ∨ Stays s store file referenced name ∨
    ∀ q, generationEntry store file name <+: q → t.disk.fs[q]? = none
  copies : ∀ name rest bytes,
    s.disk.fs.read? (generationEntry store file name ++ rest) = some bytes →
      name ∈ names ∨ Stays s store file referenced name ∨
        HasEvidence t s.counters.nextEvidence bytes

namespace Swept

/-- Before anything is removed, the names are those in the directory. -/
theorem init (hquiet : s.disk.fates = []) (hnodup : names.Nodup)
    (hnames : ∀ name, s.disk.fs[generationEntry store file name]?.isSome → name ∈ names) :
    Swept store file referenced s names s := by
  have hstays : ∀ name, name ∈ names ∨ Stays s store file referenced name := by
    intro name
    by_cases hdir : s.disk.fs.isDir (generationEntry store file name) = true
    · exact .inl (hnames name (Fs.isSome_of_isDir (List.cons_ne_nil _ _) hdir))
    · exact .inr (.inl (Bool.eq_false_iff.mpr hdir))
  exact ⟨rfl, hnodup, hquiet, le_rfl, fun _ _ _ => rfl, fun name => (hstays name).imp_right .inl,
    fun name _ _ _ => (hstays name).imp_right .inl⟩

variable {name : Text}

section

variable (h : Swept store file referenced s (name :: names) t)

include h

/-- What is below an entry that is still to come is as it was. -/
theorem entry {q : Path}
    (hq : generationEntry store file name <+: q) : t.disk.fs[q]? = s.disk.fs[q]? := by
  refine h.paths q ?_ fun name' hname' => .inl ?_
  · obtain ⟨rest, rfl⟩ := hq
    exact stores_head
  · rw [generationEntry_inj hname' hq]
    exact List.mem_cons_self

/-- An entry that stays was passed. -/
theorem stayed
    (hstays : Stays s store file referenced name) : Swept store file referenced s names t := by
  have hcons : ∀ {name' : Text} {p : Prop}, name' ∈ name :: names ∨ p →
      name' ∈ names ∨ Stays s store file referenced name' ∨ p := by
    intro name' p hname'
    rcases hname' with hmem | hp
    · rcases List.mem_cons.mp hmem with rfl | hmem
      · exact .inr (.inl hstays)
      · exact .inl hmem
    · exact .inr (.inr hp)
  have hor : ∀ {p q : Prop}, p ∨ p ∨ q → p ∨ q := fun hpq => hpq.elim .inl id
  refine ⟨h.sameStore, (List.nodup_cons.mp h.nodup).2, h.quiet, h.next, fun q hq hnames => h.paths q hq fun name' hp => ?_,
    fun name' => (hcons (h.gone name')).imp_right hor,
    fun name' rest bytes hread => (hcons (h.copies name' rest bytes hread)).imp_right hor⟩
  exact (hnames name' hp).imp_left (List.mem_cons_of_mem _)

/-- An entry was removed after it was kept as evidence. -/
theorem removed {t' : Sys} (hstays : ¬Stays s store file referenced name) (hp : Preserved t t')
    (hcopies : ∀ rest bytes, s.disk.fs.read? (generationEntry store file name ++ rest) =
      some bytes → HasEvidence t' s.counters.nextEvidence bytes) :
    Swept store file referenced s names (t'.ran
      (t'.disk.fs.eraseAll (t'.disk.fs.under (generationEntry store file name)))) := by
  obtain ⟨hname, hnodup⟩ := List.nodup_cons.mp h.nodup
  have herase : ∀ q, ¬generationEntry store file name <+: q →
      (t'.disk.fs.eraseAll (t'.disk.fs.under (generationEntry store file name)))[q]? =
        t'.disk.fs[q]? :=
    fun q hq => (Fs.get_eraseAll _).trans (if_neg fun hm => hq (Fs.mem_under.mp hm).1)
  -- the evidence is elsewhere
  have hevidence : ∀ {bytes : Bytes}, HasEvidence t' s.counters.nextEvidence bytes →
      HasEvidence (t'.ran (t'.disk.fs.eraseAll
        (t'.disk.fs.under (generationEntry store file name)))) s.counters.nextEvidence bytes := by
    rintro bytes ⟨number, k, hfirst, hlt, hread⟩
    refine ⟨number, k, hfirst, hlt, (Fs.read?_congr (herase _ fun hpre => ?_)).trans hread⟩
    obtain ⟨rest, hrest⟩ := hpre
    exact storesName_ne_evidenceName (Option.some.inj (congrArg List.head? hrest))
  refine ⟨hp.store.trans h.sameStore, hnodup, fates_ran hp.quiet, ?_, fun q hq hnames => ?_, fun name' => ?_,
    fun name' rest bytes hread => ?_⟩
  · exact h.next.trans (hp.next ▸ Nat.le_succ _)
  · have hnot : ¬generationEntry store file name <+: q := fun hpre =>
      (hnames name hpre).elim hname hstays
    refine (herase q hnot).trans ((hp.outside q hq).trans (h.paths q hq fun name' hpre => ?_))
    exact (hnames name' hpre).imp_left (List.mem_cons_of_mem _)
  · by_cases heq : name' = name
    · subst heq
      refine .inr (.inr fun q hq => (Fs.get_eraseAll _).trans ?_)
      by_cases hsome : t'.disk.fs[q]?.isSome
      · exact if_pos (Fs.mem_under.mpr ⟨hq, hsome⟩)
      · rw [if_neg fun hm => hsome (Fs.mem_under.mp hm).2]
        exact Option.not_isSome_iff_eq_none.mp hsome
    · refine (h.gone name').imp (fun hmem => (List.mem_cons.mp hmem).resolve_left heq)
        (Or.imp_right fun hgone q hq => ?_)
      have hhead : q.head? ≠ some evidenceName := by
        obtain ⟨rest, rfl⟩ := hq
        exact stores_head
      rw [← hgone q hq, ← hp.outside q hhead]
      exact herase q fun hpre => heq (generationEntry_inj hq hpre)
  · by_cases heq : name' = name
    · subst heq
      exact .inr (.inr (hevidence (hcopies rest bytes hread)))
    · refine (h.copies name' rest bytes hread).imp
        (fun hmem => (List.mem_cons.mp hmem).resolve_left heq)
        (Or.imp_right fun hcopy => hevidence (hcopy.preserved hp))

end

end Swept

/-- The generations that are not referenced are removed after they were kept as evidence. -/
theorem cleanup_yields (hquiet : s.disk.fates = [])
    (hclosed : s.disk.fs.ClosedBelow (generationsDir s.store.storeId file)) :
    (cleanupUnreferencedStaging P file generation).Yields (fun _ t => ∃ prior,
      priorGeneration P file s = .ok prior s ∧
      (s.disk.fs.present (generationsDir s.store.storeId file) = true →
        s.disk.fs.isDir (generationsDir s.store.storeId file) = true) ∧
      Swept s.store.storeId file (referencedBy s.store.storeId file generation prior) s [] t) s := by
  have hprior : ∃ prior, priorGeneration P file s = .ok prior s := priorGeneration_of_nil hquiet
  obtain ⟨prior, hprior⟩ := hprior
  suffices hsuffices : (cleanupUnreferencedStaging P file generation).Yields (fun _ t =>
      (s.disk.fs.present (generationsDir s.store.storeId file) = true →
        s.disk.fs.isDir (generationsDir s.store.storeId file) = true) ∧
      Swept s.store.storeId file (referencedBy s.store.storeId file generation prior) s [] t) s from
    hsuffices.mono fun _ t ht => ⟨prior, hprior, ht⟩
  change (whenExists (generationsDir s.store.storeId file) _).Yields _ s
  generalize hstore : s.store.storeId = store at hclosed ⊢
  have hparent : ∀ name, s.disk.fs[generationEntry store file name]?.isSome →
      s.disk.fs.isDir (generationsDir store file) = true := fun name hsome =>
    hclosed _ _ (List.prefix_refl _) ⟨[name], rfl⟩
      (fun heq => absurd (congrArg List.length heq) (by simp [generationsDir, fileItem])) hsome
  refine .bind_of_ok rfl ?_
  refine Act.Yields.ite (fun _ => ?_) fun hnone => Act.Yields.pure
    ⟨fun hpresent => absurd hpresent hnone,
      Swept.init hquiet List.nodup_nil fun name hsome => absurd ?_ hnone⟩
  · refine Act.Yields.bind (fun _ _ h => Outcome.ok.inj (hprior.symm.trans h)) ?_
    rintro _ s ⟨rfl, rfl⟩
    refine Act.Yields.bind (fun _ _ h => readDir_ok hquiet h) ?_
    rintro _ s ⟨hgenerations, rfl, rfl⟩
    refine (Act.Yields.forEach (Swept store file (referencedBy store file generation prior) s)
      (fun name names t ht => ?_) _ (Swept.init hquiet Fs.nodup_readDir
        fun name hsome => Fs.mem_readDir.mpr hsome)).mono fun _ t ht => ⟨fun _ => hgenerations, ht⟩
    have hbelow : t.disk.fs.ClosedBelow (generationEntry store file name) :=
      (hclosed.mono ⟨[name], rfl⟩).congr fun q hq => ht.entry hq
    have hisDir : t.disk.fs.isDir (generationEntry store file name) =
        s.disk.fs.isDir (generationEntry store file name) :=
      Fs.isDir_congr (ht.entry (List.prefix_refl _))
    refine .bind_of_ok rfl ?_
    refine Act.Yields.ite (fun hremoved => ?_) fun hkept => Act.Yields.pure (ht.stayed ?_)
    · obtain ⟨hdir, hmem⟩ := hremoved
      have hstays : ¬Stays s store file _ name := fun hstays => hstays.elim
        (fun hfile => absurd (hdir.symm.trans (hisDir.trans hfile)) (by simp)) hmem
      refine Act.Yields.bind (preserveEvidenceDirectory_yields ht.quiet (List.cons_ne_nil _ _)
        (generationEntry_head name) hbelow) ?_
      rintro _ t' ⟨hp, hcopies⟩
      refine io_yields.mono ?_
      rintro _ _ ⟨fs, heffect, rfl⟩
      obtain ⟨-, rfl⟩ := FsOp.effect_removeDirAll.mp heffect
      refine ht.removed hstays hp fun rest bytes hread => ?_
      have hread' : t.disk.fs.read? (generationEntry store file name ++ rest) = some bytes :=
        (Fs.read?_congr (ht.entry ⟨rest, rfl⟩)).trans hread
      have hrest : rest ≠ [] := by
        -- a directory is not a file
        rintro rfl
        rw [List.append_nil] at hread'
        exact Fs.not_isDir_of_read? (List.cons_ne_nil _ _) hread' hdir
      exact (hcopies rest bytes hrest hread').mono ht.next
    · by_cases hdir : t.disk.fs.isDir (generationEntry store file name) = true
      · exact Or.inr (not_not.mp fun hmem => hkept ⟨hdir, hmem⟩)
      · exact Or.inl (hisDir.symm.trans (Bool.eq_false_iff.mpr hdir))
  · exact (Fs.present_eq (List.cons_ne_nil _ _)).trans
      (Fs.isSome_of_isDir (List.cons_ne_nil _ _) (hparent name hsome))

/-- Without an entry to remove, nothing is done. -/
theorem cleanup_of_stays {prior : Option UInt64} (hquiet : s.disk.fates = [])
    (hid : s.store.storeId = store) (hprior : priorGeneration P file s = .ok prior s)
    (hdir : s.disk.fs.present (generationsDir store file) = true →
      s.disk.fs.isDir (generationsDir store file) = true)
    (hstays : ∀ name, Stays s store file (referencedBy store file generation prior) name) :
    cleanupUnreferencedStaging P file generation s = .ok () s := by
  subst hid
  by_cases hpresent : s.disk.fs.present (generationsDir s.store.storeId file) = true
  · have hlist : readDir (generationsDir s.store.storeId file) s =
        .ok (s.disk.fs.readDir (generationsDir s.store.storeId file)) s := by
      rw [readDir, zoom_apply, Disk.listDir_of_nil hquiet (hdir hpresent)]
      rfl
    have hexists : pathExists (generationsDir s.store.storeId file) s = .ok true s :=
      congrArg (Outcome.ok · s) hpresent
    have hdone : (cleanupUnreferencedStaging P file generation).Completes (fun _ t => t = s) s := by
      refine .bind_of_ok getStore_eq ?_
      refine .bind_of_ok hexists ?_
      refine .bind_of_ok hprior (.bind_of_ok hlist ?_)
      refine .forEach (fun name t ht => ?_) _ rfl
      subst ht
      have hisDir : pathIsDir (generationsDir t.store.storeId file ++ [name]) t =
          .ok (t.disk.fs.isDir (generationEntry t.store.storeId file name)) t := rfl
      refine .bind_of_ok hisDir ?_
      rw [if_neg]
      · exact ⟨(), t, rfl, rfl⟩
      · rintro ⟨hentry, hmem⟩
        exact (hstays name).elim (fun hfile => Bool.false_ne_true (hfile.symm.trans hentry)) hmem
    obtain ⟨_, _, hrun, rfl⟩ := hdone
    exact hrun
  · have hexists : pathExists (generationsDir s.store.storeId file) s = .ok false s :=
      congrArg (Outcome.ok · s) (Bool.eq_false_iff.mpr hpresent)
    unfold cleanupUnreferencedStaging whenExists
    rw [bind_of_ok getStore_eq, bind_of_ok hexists]
    rfl

end Cleanup

/-! ### Recovery -/

/-- The pointer that recovery authenticates. -/
def usedPointer (s : Sys) (file : FileId) : Path :=
  if s.disk.fs.present (selectedPath s.store.storeId file) = true
  then selectedPath s.store.storeId file
  else previousPath s.store.storeId file

/-- Recovery has authenticated a pointer and has it in place as the current one, in the state `u`.
What is left to do is to clean up. -/
structure InPlace (P : Primitives) (file : FileId) (s : Sys) (generation : UInt64) (data : Bytes)
    (u : Sys) : Prop where
  read : readFromPointer P (usedPointer s file) file s = .ok data s
  commit : commitGeneration P (usedPointer s file) file s = .ok generation s
  store : u.store = s.store
  quiet : u.disk.fates = []
  counters : u.counters = s.counters
  pointer : SameBytes s (usedPointer s file) u (selectedPath s.store.storeId file)
  paths : ∀ q, q ≠ selectedPath s.store.storeId file →
    q ≠ fileItem s.store.storeId file markerName → u.disk.fs[q]? = s.disk.fs[q]?

/-- Reading that returns has changed nothing. -/
theorem readFromPointer_yields {pointer : Path} (hquiet : s.disk.fates = []) :
    (Act.attempt (readFromPointer P pointer file)).Yields (fun r t => t = s ∧
      ∀ data, r = .ok data → readFromPointer P pointer file s = .ok data s) s := by
  intro r t h
  have hreads : (readFromPointer P pointer file).Reads s := reads_readFromPointer hquiet
  obtain ⟨x, hx⟩ := hreads
  cases x with
  | ok data =>
    obtain ⟨rfl, rfl⟩ := Outcome.ok.inj ((attempt_eq_ok.mpr (.inl ⟨data, rfl, hx⟩)).symm.trans h)
    exact ⟨rfl, fun data' heq => (Except.ok.inj heq) ▸ hx⟩
  | error e =>
    obtain ⟨rfl, rfl⟩ := Outcome.ok.inj ((attempt_eq_ok.mpr (.inr ⟨e, rfl, hx⟩)).symm.trans h)
    exact ⟨rfl, nofun⟩

theorem commitGeneration_yields {pointer : Path} (hquiet : s.disk.fates = []) :
    (commitGeneration P pointer file).Yields
      (fun generation t => t = s ∧ commitGeneration P pointer file s = .ok generation s) s := by
  intro generation t h
  have hreads : (commitGeneration P pointer file).Reads s := reads_commitGeneration hquiet
  obtain ⟨x, hx⟩ := hreads
  cases x with
  | ok generation' =>
    obtain ⟨rfl, rfl⟩ := Outcome.ok.inj (hx.symm.trans h)
    exact ⟨rfl, hx⟩
  | error e => cases hx.symm.trans h

/-- Recovery that returns puts the pointer in place and cleans up. -/
theorem recoverSelectedFromPrior_yields (hquiet : s.disk.fates = []) :
    (recoverSelectedFromPrior P file).Yields (fun report t => ∃ data u,
      InPlace P file s report.selectedGeneration data u ∧
      cleanupUnreferencedStaging P file report.selectedGeneration u = .ok () t) s := by
  refine .bind_of_ok rfl ?_
  refine .bind_of_ok rfl ?_
  refine .ite (fun hfound => ?_) fun hgone => ?_
  · have hused : usedPointer s file = selectedPath s.store.storeId file := if_pos hfound
    refine .bind (readFromPointer_yields hquiet) ?_
    rintro r s ⟨rfl, hread⟩
    match r with
    | .error error => cases error <;> exact .throw _
    | .ok data =>
      refine .bind (commitGeneration_yields hquiet) ?_
      rintro generation s ⟨rfl, hcommit⟩
      refine .bind (fun _ t h => h) fun _ t hclean => .pure ⟨data, s, ?_, hclean⟩
      exact ⟨hused ▸ hread data rfl, hused ▸ hcommit, rfl, hquiet, rfl,
        .inl (congrArg (s.disk.fs[·]?) hused.symm), fun _ _ _ => rfl⟩
  · have hused : usedPointer s file = previousPath s.store.storeId file := if_neg hgone
    refine .bind_of_ok rfl ?_
    refine .bind (readFromPointer_yields hquiet) ?_
    rintro r s ⟨rfl, hread⟩
    match r with
    | .error error => cases error <;> exact .throw _
    | .ok data =>
      refine .bind (commitGeneration_yields hquiet) ?_
      rintro generation s ⟨rfl, hcommit⟩
      refine .bind io_yields ?_
      rintro _ _ ⟨fs₁, heffect₁, rfl⟩
      obtain ⟨bytes, hbytes, -, rfl⟩ := FsOp.effect_copy.mp heffect₁
      refine .bind (flushDirectoryMarker_yields (fates_ran hquiet)) ?_
      rintro _ u ⟨hstore, hcounters, hquiet', hpaths⟩
      refine .bind (fun _ t h => h) fun _ t hclean => .pure ⟨data, u, ?_, hclean⟩
      refine ⟨hused ▸ hread data rfl, hused ▸ hcommit, hstore, hquiet', hcounters,
        .inr ⟨bytes, hused ▸ hbytes, ?_⟩, fun q hselected hmarker => ?_⟩
      · exact Fs.read?_eq_some.mpr ⟨false, (hpaths _ (fileItem_ne selectedName_ne_markerName)).trans
          Map.get_insert_self⟩
      · exact (hpaths q hmarker).trans (Map.get_insert_of_ne hselected)

variable {report : RecoveryReport}

theorem recoverStore_eq_ok (hquiet : s.disk.fates = []) (h : recoverStore P file s = .ok report t) :
    ∃ data u, InPlace P file s report.selectedGeneration data
    u ∧ cleanupUnreferencedStaging P file report.selectedGeneration u = .ok () t := by
  obtain ⟨result, s', hattempt, hresult⟩ := bind_eq_ok.mp h
  rcases attempt_eq_ok.mp hattempt with ⟨report', rfl, hrun⟩ | ⟨error, rfl, -⟩
  · obtain ⟨rfl, rfl⟩ := Outcome.ok.inj hresult
    exact recoverSelectedFromPrior_yields hquiet _ _ hrun
  · by_cases herror : error = .integrityFailure
    · subst herror
      obtain ⟨_, _, -, hthrow⟩ := bind_eq_ok.mp hresult
      cases hthrow
    · cases error <;> first | cases hresult | exact absurd rfl herror

/-- Which generation the former pointer commits depends on that pointer only. -/
theorem SameSession.alike_priorGeneration (h : SameSession s t)
    (hpointer : t.disk.fs[previousPath s.store.storeId file]? =
      s.disk.fs[previousPath s.store.storeId file]?) :
    (priorGeneration P file).Alike s (priorGeneration P file) t := by
  refine alike_getStore ?_
  rw [h.storeId]
  have hexists : (pathExists (previousPath s.store.storeId file)).Alike s
      (pathExists (previousPath s.store.storeId file)) t := by
    refine ⟨.ok (s.disk.fs.present (previousPath s.store.storeId file)), rfl,
      congrArg (Outcome.ok · t) ?_⟩
    simp only [Fs.present, hpointer]
  refine .bind hexists fun found _ => ?_
  cases found with
  | false => exact .pure _
  | true =>
    exact .bind (h.alike_commitGeneration (.inl hpointer)).attempt fun _ _ => .pure _

variable {data : Bytes}

/-- A former pointer that can be read in full is taken into account. -/
theorem priorGeneration_of_read (hquiet : s.disk.fates = [])
    (h : readFromPointer P (previousPath s.store.storeId file) file s = .ok data s) :
    ∃ selected, readCommit P (previousPath s.store.storeId file) file s = .ok selected s ∧
      priorGeneration P file s = .ok (some selected.2.generation) s := by
  obtain ⟨selected, hcommit, hgeneration⟩ := readCommit_of_readFromPointer hquiet h
  have hpresent : s.disk.fs.present (previousPath s.store.storeId file) = true := by
    have hne : previousPath s.store.storeId file ≠ [] := List.cons_ne_nil _ _
    rw [Fs.present_eq hne, Option.isSome_iff_ne_none]
    exact fun hnone => by cases (readFromPointer_of_absent hquiet hnone).symm.trans h
  have hexists : pathExists (previousPath s.store.storeId file) s = .ok true s :=
    congrArg (Outcome.ok · s) hpresent
  have hattempt : Act.attempt (commitGeneration P (previousPath s.store.storeId file) file) s =
      .ok (.ok selected.2.generation) s := attempt_eq_ok.mpr (.inl ⟨_, rfl, hgeneration⟩)
  refine ⟨selected, hcommit, ?_⟩
  unfold priorGeneration
  rw [bind_of_ok getStore_eq, bind_of_ok hexists]
  exact bind_of_ok hattempt

/-- A current pointer that can be read in full. -/
theorem recoverStore_of_clean {store : StoreId} (hid : s.store.storeId = store)
    (hquiet : s.disk.fates = [])
    (hread : readFromPointer P (selectedPath store file) file s = .ok data s)
    (hcommit : commitGeneration P (selectedPath store file) file s = .ok generation s)
    (hclean : cleanupUnreferencedStaging P file generation s = .ok () t) :
    recoverStore P file s = .ok ⟨generation, false⟩ t := by
  have hpresent : s.disk.fs.present (selectedPath store file) = true := by
    have hne : selectedPath store file ≠ [] := List.cons_ne_nil _ _
    rw [Fs.present_eq hne, Option.isSome_iff_ne_none]
    exact fun hnone => by cases (readFromPointer_of_absent hquiet hnone).symm.trans hread
  have hexists : pathExists (selectedPath store file) s = .ok true s :=
    congrArg (Outcome.ok · s) hpresent
  refine recoverStore_of_ok ?_
  unfold recoverSelectedFromPrior
  rw [bind_of_ok getStore_eq, hid, bind_of_ok hexists,
    if_pos rfl, bind_of_ok (attempt_eq_ok.mpr (.inl ⟨data, rfl, hread⟩))]
  dsimp only
  rw [bind_of_ok hcommit, bind_of_ok hclean]
  rfl

section Recovered

variable {report : RecoveryReport} {data : Bytes} {prior : Option UInt64}
  (hplace : InPlace P file s generation data u)
  (hswept : Swept s.store.storeId file (referencedBy s.store.storeId file generation prior) u [] t)

include hswept

theorem recovered_fileItem (name : Text) :
    t.disk.fs[fileItem s.store.storeId file name]? =
      u.disk.fs[fileItem s.store.storeId file name]? := by
  refine hswept.paths _ stores_head ?_
  exact fun name' hp => absurd hp.length_le (by simp [Wdlp.fileItem, generationEntry])

include hplace

theorem recovered_sameSession (hquiet : s.disk.fates = []) : SameSession s t := by
  have hstore := hswept.sameStore.trans hplace.store
  exact ⟨hquiet, hswept.quiet, congrArg Store.storeId hstore, congrArg Store.key hstore⟩

/-- The generations that are referenced are as they were. -/
theorem recovered_generationItem {g : UInt64} (hg : g ∈ generation :: prior.toList) (name : Text) :
    t.disk.fs[generationItem s.store.storeId file g name]? =
      s.disk.fs[generationItem s.store.storeId file g name]? := by
  have hhead : (generationItem s.store.storeId file g name).head? ≠ some evidenceName :=
    stores_head
  refine (hswept.paths _ hhead fun name' hp => .inr (.inr ?_)).trans
    (hplace.paths _ generationItem_ne_fileItem generationItem_ne_fileItem)
  rw [generationEntry_inj hp ⟨[name], rfl⟩]
  exact List.mem_map_of_mem hg

/-- The pointer that was authenticated is the current one, for every store on that disk. -/
theorem recovered_read {v : Sys} (hv : SameSession s v) (hfs : v.disk.fs = t.disk.fs) :
    readFromPointer P (selectedPath s.store.storeId file) file v = .ok data v ∧
      commitGeneration P (selectedPath s.store.storeId file) file v = .ok generation v := by
  have hpointer : SameBytes s (usedPointer s file) v (selectedPath s.store.storeId file) := by
    have hsame := recovered_fileItem hswept selectedName
    rw [← hfs] at hsame
    exact hplace.pointer.imp hsame.trans fun ⟨bytes, hs, hu⟩ =>
      ⟨bytes, hs, (Fs.read?_congr hsame).trans hu⟩
  refine ⟨Act.Alike.ok (hv.alike_readFromPointer hpointer fun selected hselected => ?_) hplace.read,
    (hv.alike_commitGeneration hpointer).ok hplace.commit⟩
  obtain ⟨rfl, -⟩ := Outcome.ok.inj (hplace.commit.symm.trans (bind_of_ok hselected))
  rw [hfs]
  exact recovered_generationItem hplace hswept List.mem_cons_self

end Recovered

/-- The generations are not touched when the pointer is put in place. -/
theorem InPlace.generations (h : InPlace P file s generation data u) {q : Path}
    (hq : generationsDir s.store.storeId file <+: q) : u.disk.fs[q]? = s.disk.fs[q]? := by
  obtain ⟨rest, rfl⟩ := hq
  cases rest with
  | nil =>
    rw [List.append_nil]
    exact h.paths _ (fileItem_ne selectedName_ne_generationsName.symm)
      (fileItem_ne markerName_ne_generationsName.symm)
  | cons name rest =>
    refine h.paths _ (fun heq => ?_) fun heq => ?_ <;>
      exact absurd (congrArg List.length heq) (by simp [generationsDir, selectedPath, fileItem])

/-- Recovery that returns, from the authentication to the end. -/
theorem recoverStore_swept (hquiet : s.disk.fates = [])
    (hclosed : s.disk.fs.ClosedBelow (generationsDir s.store.storeId file))
    (h : recoverStore P file s = .ok report t) :
    ∃ data u prior, InPlace P file s report.selectedGeneration data u ∧
      priorGeneration P file u = .ok prior u ∧
      (u.disk.fs.present (generationsDir s.store.storeId file) = true →
        u.disk.fs.isDir (generationsDir s.store.storeId file) = true) ∧ Swept s.store.storeId file
        (referencedBy s.store.storeId file report.selectedGeneration prior) u [] t := by
  obtain ⟨data, u, hplace, hclean⟩ := recoverStore_eq_ok hquiet h
  have hbelow : u.disk.fs.ClosedBelow (generationsDir u.store.storeId file) := by
    rw [hplace.store]
    exact hclosed.congr fun q hq => hplace.generations hq
  obtain ⟨prior, hprior, hdir, hswept⟩ := cleanup_yields hplace.quiet hbelow () t hclean
  rw [hplace.store] at hswept hdir
  exact ⟨data, u, prior, hplace, hprior, hdir, hswept⟩

/-- What recovery has authenticated can be read when it has returned. -/
theorem readFile_of_recoverStore (hquiet : s.disk.fates = [])
    (hclosed : s.disk.fs.ClosedBelow (generationsDir s.store.storeId file))
    (h : recoverStore P file s = .ok report t) : ∃ data, readFromPointer
    P (usedPointer s file) file s = .ok data s ∧ commitGeneration P (usedPointer s file)
    file s = .ok report.selectedGeneration s ∧ readFile P file t = .ok data t := by
  obtain ⟨data, u, prior, hplace, -, -, hswept⟩ := recoverStore_swept hquiet hclosed h
  have hsession := recovered_sameSession hplace hswept hquiet
  refine ⟨data, hplace.read, hplace.commit, ?_⟩
  change readFromPointer P (selectedPath t.store.storeId file) file t = _
  rw [hsession.storeId]
  exact (recovered_read hplace hswept hsession rfl).1

/-- Recovery keeps what the pointers refer to and removes nothing without evidence, and a second
recovery has nothing left to do. -/
theorem recovery_keeps_referenced {report : RecoveryReport} (hquiet : s.disk.fates = [])
    (hclosed : s.disk.fs.Closed) (h : recoverStore P file s = .ok report t) :
    (∃ data, readFromPointer P (usedPointer s file) file s = .ok data s ∧
      commitGeneration P (usedPointer s file) file s = .ok report.selectedGeneration s ∧
      readFile P file t = .ok data t) ∧
    (∀ data, readFromPointer P (previousPath s.store.storeId file) file s = .ok data s →
      readFromPointer P (previousPath s.store.storeId file) file t = .ok data t) ∧
    (∀ name rest bytes,
      s.disk.fs.read? (generationEntry s.store.storeId file name ++ rest) = some bytes →
      t.disk.fs.read? (generationEntry s.store.storeId file name ++ rest) = some bytes ∨
        HasEvidence t s.counters.nextEvidence bytes) ∧
    ∀ u, SameSession t u → u.disk.fs = t.disk.fs →
      recoverStore P file u = .ok ⟨report.selectedGeneration, false⟩ u := by
  obtain ⟨data, u, prior, hplace, hprior, hdir, hswept⟩ :=
    recoverStore_swept hquiet (hclosed.below _) h
  have hentry : ∀ name rest, u.disk.fs[generationEntry s.store.storeId file name ++ rest]? =
      s.disk.fs[generationEntry s.store.storeId file name ++ rest]? :=
    fun name rest => hplace.generations ⟨name :: rest, rfl⟩
  have hsession := recovered_sameSession hplace hswept hquiet
  have hu : SameSession s u := ⟨hquiet, hplace.quiet, congrArg Store.storeId hplace.store,
    congrArg Store.key hplace.store⟩
  have hprevious : u.disk.fs[previousPath s.store.storeId file]? =
      s.disk.fs[previousPath s.store.storeId file]? :=
    hplace.paths _ (fileItem_ne selectedName_ne_previousName.symm)
      (fileItem_ne previousName_ne_markerName)
  refine ⟨readFile_of_recoverStore hquiet (hclosed.below _) h, ?_, ?_, ?_⟩
  · intro data' hread
    obtain ⟨selected, hselected, hprior'⟩ := priorGeneration_of_read hquiet hread
    obtain ⟨rfl, -⟩ := Outcome.ok.inj
      (hprior.symm.trans ((hu.alike_priorGeneration hprevious).ok hprior'))
    have hpointer : SameBytes s (previousPath s.store.storeId file) t
        (previousPath s.store.storeId file) :=
      .inl ((recovered_fileItem hswept previousName).trans hprevious)
    refine (hsession.alike_readFromPointer hpointer fun selected' hselected' => ?_).ok hread
    obtain ⟨rfl, -⟩ := Outcome.ok.inj (hselected.symm.trans hselected')
    exact recovered_generationItem hplace hswept (List.mem_cons_of_mem _ (by simp))
  · intro name rest bytes hread
    have hread' := (Fs.read?_congr (hentry name rest)).trans hread
    rcases hswept.copies name rest bytes hread' with hmem | hstays | hcopy
    · cases hmem
    · left
      rw [← hread']
      refine Fs.read?_congr (hswept.paths _ ?_ fun name' hp => .inr ?_)
      · exact stores_head
      · rwa [generationEntry_inj hp ⟨rest, rfl⟩]
    · exact .inr (hplace.counters ▸ hcopy)
  · intro v hv hfs
    have hv' : SameSession s v := ⟨hquiet, hv.quiet', hv.storeId.trans hsession.storeId,
      hv.key.trans hsession.key⟩
    obtain ⟨hread, hcommit⟩ := recovered_read hplace hswept hv' hfs
    refine recoverStore_of_clean hv'.storeId hv'.quiet' hread hcommit ?_
    have hprior' : priorGeneration P file v = .ok prior v := by
      refine (SameSession.alike_priorGeneration ⟨hplace.quiet, hv.quiet', ?_, ?_⟩ ?_).ok hprior
      · exact hv'.storeId.trans hu.storeId.symm
      · exact hv'.key.trans hu.key.symm
      · rw [hfs, hplace.store]
        exact recovered_fileItem hswept previousName
    refine cleanup_of_stays hv'.quiet' hv'.storeId hprior' ?_ fun name => ?_
    · have hsame := recovered_fileItem hswept generationsName
      rw [← hfs] at hsame
      intro hpresent
      refine (Fs.isDir_congr hsame).trans (hdir ?_)
      rw [← hpresent]
      simp only [Fs.present, generationsDir, hsame]
    · rcases hswept.gone name with hmem | hstays | hgone
      · cases hmem
      · refine hstays.imp_left fun hfile => ?_
        rw [← hfile]
        refine Fs.isDir_congr ?_
        rw [hfs]
        refine hswept.paths _ (generationEntry_head name) fun name' hp => .inr ?_
        rwa [generationEntry_inj hp (List.prefix_refl _)]
      · refine .inl (Bool.eq_false_iff.mpr fun hisDir => ?_)
        have hsome := Fs.isSome_of_isDir (List.cons_ne_nil _ _) hisDir
        rw [hfs] at hsome
        exact absurd (hgone _ (List.prefix_refl _)) (Option.isSome_iff_ne_none.mp hsome)

/-- A file was flushed three times, and something was left in a directory of its own among the
generations. -/
def littered : Sys :=
  let opened := (openStore .plain soleIdentity zeroKey
    (.fresh soleIdentity zeroKey countingNonces [])).state
  let flushed := (flushAll .plain [(soleFile, [1]), (soleFile, [2]), (soleFile, [3])] opened).state
  let entry := generationEntry soleIdentity.storeId soleFile "left".toList
  let fs := (flushed.disk.fs.insert entry .dir).insert (entry ++ ["inner".toList]) .dir
  { flushed with disk := { fs := fs.insert (entry ++ ["inner".toList, "part".toList]) (.file [7] false)
                           fates := [] } }

theorem recovery_keeps_referenced_littered :
    ∃ report t, recoverStore .plain soleFile littered = .ok report t ∧
      HasEvidence t littered.counters.nextEvidence [7] := by
  have hrun := Outcome.eq_ok (o := recoverStore .plain soleFile littered) (a := ⟨3, false⟩)
    (by decide +kernel)
  have hkept := recovery_keeps_referenced (by decide +kernel) (by decide +kernel) hrun
  refine ⟨_, _, hrun, (hkept.2.2.1 "left".toList ["inner".toList, "part".toList] [7] ?_).resolve_left
    ?_⟩ <;> decide +kernel

end Wdlp
