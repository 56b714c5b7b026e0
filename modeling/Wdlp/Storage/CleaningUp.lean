import Wdlp.Storage.Commit

/-!
# Cleaning up to the end

On a disk where nothing goes wrong and no name for evidence is taken, cleaning up returns. Each file
below a directory gets a number in the evidence of that directory, so the copies end as long as
there are numbers left, and each generation that is removed takes one name.

## Main definitions

* `EvidenceInOrder`, `EvidenceOpen` — nothing goes wrong with the evidence, and new files can be
  added to it.
* `FewBelow` — there are numbers for all files below a directory.
* `Sweepable`, `unreferenced` — the generations that cleaning up removes.

## Main results

* `copyEvidenceFiles_completes`, `preserveEvidenceDirectory_completes` — evidence can be taken.
* `cleanup_completes` — cleaning up returns and draws one name for each generation it removes.
-/

namespace Wdlp

open CrashSafe Act

variable {P : Primitives} {file : FileId} {generation : UInt64} {s t u : Sys} {path source : Path}
  {number : ℕ} {code : EvidenceCode}

/-! ### Taking evidence -/

/-- The files of the evidence. -/
inductive EvidenceFile : Path → Prop
  | log : EvidenceFile diagnosticsPath
  | record (id : Text) (index : ℕ) : EvidenceFile (evidenceRecord id index)

theorem EvidenceFile.kind (h : EvidenceFile path) : nodeKind path = .file := by
  cases h with
  | log => exact if_pos ⟨rfl, rfl⟩
  | record id index => exact if_neg fun h => storesName_ne_evidenceName h.1.symm

theorem EvidenceFile.head (h : EvidenceFile path) : path.head? = some evidenceName := by
  cases h <;> rfl

theorem EvidenceFile.ne_evidenceDir (h : EvidenceFile path) (n : ℕ) :
    evidenceDir (evidenceId n) ≠ path := by
  cases h with
  | log =>
    exact fun heq => evidenceId_ne_diagnosticsName n (Option.some.inj (congrArg List.getLast? heq))
  | record id index =>
    exact fun heq => absurd (congrArg List.length heq) (by simp [evidenceDir, evidenceRecord])

variable {fs : Fs}

theorem wp_io_of_nil {op : FsOp} {Q : Unit → Sys → Prop}
    {E : StorageError → Sys → Prop} {C : Sys → Prop} (hf : s.disk.fates = [])
    (he : op.effect s.disk.fs = .ok fs) (hQ : Q () (s.ran fs)) : (io op).wp Q E C s :=
  wp_of_ok (io_of_nil hf he) hQ

/-- What is in the evidence is laid out as the code does it. -/
def EvidenceFits (fs : Fs) : Prop :=
  ∀ (q : Path) node, q.head? = some evidenceName → fs[q]? = some node → node.kind = nodeKind q

/-- Nothing goes wrong, and the evidence is laid out as the code does it. -/
structure EvidenceInOrder (s : Sys) : Prop where
  quiet : s.disk.fates = []
  fits : EvidenceFits s.disk.fs

/-- The states differ in files of the evidence only. -/
structure SameFrame (s t : Sys) : Prop where
  store : t.store = s.store
  counters : t.counters = s.counters
  outside : ∀ q : Path, q.head? ≠ some evidenceName → t.disk.fs[q]? = s.disk.fs[q]?
  directories : ∀ n, t.disk.fs[evidenceDir (evidenceId n)]? =
    s.disk.fs[evidenceDir (evidenceId n)]?

namespace SameFrame

theorem refl : SameFrame s s := ⟨rfl, rfl, fun _ _ => rfl, fun _ => rfl⟩

theorem trans (h : SameFrame s t) (h' : SameFrame t u) : SameFrame s u where
  store := h'.store.trans h.store
  counters := h'.counters.trans h.counters
  outside q hq := (h'.outside q hq).trans (h.outside q hq)
  directories n := (h'.directories n).trans (h.directories n)

/-- A file of the evidence was written. -/
theorem wrote (hp : EvidenceFile path) {node : Node} :
    SameFrame s (s.ran (s.disk.fs.insert path node)) where
  store := rfl
  counters := rfl
  outside _ hq := Map.get_insert_of_ne fun heq => hq (heq ▸ hp.head)
  directories n := Map.get_insert_of_ne (hp.ne_evidenceDir n)

end SameFrame

theorem EvidenceInOrder.step (h : EvidenceInOrder s) {op : FsOp} (hop : EvidenceOp op)
    (he : op.effect s.disk.fs = .ok fs) : EvidenceInOrder (s.ran fs) where
  quiet := fates_ran h.quiet
  fits q node hq hnode := (hop.suits.effect he hnode).elim (h.fits q node hq) id

/-- There is a directory for the evidence with the given number, and the log is open. -/
structure EvidenceOpen (number : ℕ) (s : Sys) : Prop extends EvidenceInOrder s where
  directory : s.disk.fs[evidenceDir (evidenceId number)]? = some .dir
  log : s.disk.fs.read? diagnosticsPath ≠ none

/-- The operation completes, and changes files of the evidence only. -/
def Fills (number : ℕ) (p : Op Unit) : Prop :=
  ∀ s, EvidenceOpen number s → ∃ t, p s = .ok () t ∧ EvidenceOpen number t ∧ SameFrame s t

namespace EvidenceOpen

theorem wrote (h : EvidenceOpen number s) {op : FsOp} (hop : EvidenceOp op)
    (hp : EvidenceFile path) {bytes : Bytes} {synced : Bool}
    (he : op.effect s.disk.fs = .ok (s.disk.fs.insert path (.file bytes synced))) :
    EvidenceOpen number (s.ran (s.disk.fs.insert path (.file bytes synced))) where
  toEvidenceInOrder := h.step hop he
  directory := (SameFrame.wrote hp).directories number |>.trans h.directory
  log := by
    by_cases heq : diagnosticsPath = path
    · subst heq
      have hread : Fs.read? (s.disk.fs.insert diagnosticsPath (.file bytes synced))
          diagnosticsPath = some bytes := Fs.read?_eq_some.mpr ⟨synced, Map.get_insert_self⟩
      exact fun hnone => Option.some_ne_none _ (hread.symm.trans hnone)
    · exact fun hnone => h.log ((Fs.read?_congr (Map.get_insert_of_ne heq)).symm.trans hnone)

theorem fills_writeLog (bytes : Bytes) : Fills number (io (.write diagnosticsPath bytes)) := by
  intro s h
  obtain ⟨old, hold⟩ := Option.ne_none_iff_exists'.mp h.log
  have he : (FsOp.write diagnosticsPath bytes).effect s.disk.fs = .ok _ :=
    FsOp.effect_write.mpr ⟨old, hold, rfl⟩
  exact ⟨_, io_of_nil h.quiet he, h.wrote (.writeLog bytes) .log he, .wrote .log⟩

theorem fills_syncLog : Fills number (io (.sync diagnosticsPath)) := by
  intro s h
  obtain ⟨old, hold⟩ := Option.ne_none_iff_exists'.mp h.log
  have he := FsOp.effect_sync.mpr ⟨old, hold, rfl⟩
  exact ⟨_, io_of_nil h.quiet he, h.wrote .syncLog .log he, .wrote .log⟩

theorem fills_record (index : ℕ) (bytes : Bytes) :
    Fills number (writeBytes (evidenceRecord (evidenceId number) index) bytes) := by
  intro s h
  have hfile : EvidenceFile (evidenceRecord (evidenceId number) index) := .record _ _
  have hplace : FsOp.Placeable s.disk.fs (evidenceRecord (evidenceId number) index) := by
    refine ⟨?_, Bool.eq_false_iff.mpr fun hdir => ?_⟩
    · change s.disk.fs.isDir (evidenceDir (evidenceId number)) = true
      simp [Fs.isDir, h.directory]
    · obtain ⟨node, hnode⟩ := Option.isSome_iff_exists.mp
        (Fs.isSome_of_isDir (List.cons_ne_nil _ _) hdir)
      have hkind := (h.fits _ _ hfile.head hnode).trans hfile.kind
      cases node with
      | dir => cases hkind
      | file bytes synced =>
        exact Fs.not_isDir_of_read? (List.cons_ne_nil _ _) (Fs.read?_eq_some.mpr ⟨synced, hnode⟩)
          hdir
  have he := FsOp.effect_create.mpr ⟨hplace, rfl⟩
  have h₁ := h.wrote (.create number index) hfile he
  have he₁ : (FsOp.write (evidenceRecord (evidenceId number) index) bytes).effect
      (s.disk.fs.insert (evidenceRecord (evidenceId number) index) (.file [] false)) = .ok _ :=
    FsOp.effect_write.mpr ⟨[], Fs.read?_eq_some.mpr ⟨false, Map.get_insert_self⟩, rfl⟩
  refine ⟨_, (bind_of_ok (io_of_nil h.quiet he)).trans (io_of_nil h₁.quiet he₁),
    h₁.wrote (.write number index bytes) hfile he₁, .trans (.wrote hfile) (.wrote hfile)⟩

end EvidenceOpen

/-- From `s` to `t`, an evidence directory was made. -/
structure EvidenceBegun (s t : Sys) : Prop where
  opened : EvidenceOpen s.counters.nextEvidence t
  store : t.store = s.store
  next : t.counters.nextEvidence = s.counters.nextEvidence + 1
  outside : ∀ q : Path, q.head? ≠ some evidenceName → t.disk.fs[q]? = s.disk.fs[q]?
  directories : ∀ n, n ≠ s.counters.nextEvidence → t.disk.fs[evidenceDir (evidenceId n)]? =
    s.disk.fs[evidenceDir (evidenceId n)]?

/-- The root of the evidence can be made. -/
theorem EvidenceInOrder.makeRoot (h : EvidenceInOrder s) : ∃ t, io (.createDirAll evidenceRoot)
    s = .ok () t ∧ EvidenceInOrder t ∧ SameFrame s t ∧ t.disk.fs.isDir evidenceRoot = true := by
  have he : (FsOp.createDirAll evidenceRoot).effect s.disk.fs =
      .ok (s.disk.fs.insertDirs (Fs.ancestors evidenceRoot)) := by
    refine FsOp.effect_createDirAll.mpr ⟨fun q hne hpre => ?_, rfl⟩
    obtain rfl := mem_ancestors_evidenceRoot.mp (Fs.mem_ancestors.mpr ⟨hne, hpre⟩)
    rw [Option.eq_none_iff_forall_ne_some]
    intro bytes hread
    obtain ⟨synced, hnode⟩ := Fs.read?_eq_some.mp hread
    cases h.fits _ _ rfl hnode
  refine ⟨_, io_of_nil h.quiet he, h.step .root he, ⟨rfl, rfl, fun q hq => ?_, fun n => ?_⟩, ?_⟩
  · refine (Fs.get_insertDirs _).trans (if_neg fun hm => hq ?_)
    rw [mem_ancestors_evidenceRoot.mp hm]
    rfl
  · refine (Fs.get_insertDirs _).trans (if_neg fun hm => ?_)
    exact absurd (congrArg List.length (mem_ancestors_evidenceRoot.mp hm))
      (by simp [evidenceDir, evidenceRoot])
  · exact Fs.isDir_insertDirs (.inl (mem_ancestors_evidenceRoot.mpr rfl))

/-- The log can be opened. -/
theorem EvidenceInOrder.openLog
    (h : EvidenceInOrder s) (hroot : s.disk.fs.isDir evidenceRoot = true)
    (hdir : s.disk.fs[evidenceDir (evidenceId number)]? = some .dir) : ∃ t,
    io (.openAppend diagnosticsPath) s = .ok () t ∧ EvidenceOpen number t ∧ SameFrame s t := by
  by_cases hread : s.disk.fs.read? diagnosticsPath = none
  · have hplace : FsOp.Placeable s.disk.fs diagnosticsPath := by
      refine ⟨hroot, Bool.eq_false_iff.mpr fun hisDir => ?_⟩
      obtain ⟨node, hnode⟩ := Option.isSome_iff_exists.mp
        (Fs.isSome_of_isDir (List.cons_ne_nil _ _) hisDir)
      have hkind := (h.fits _ _ rfl hnode).trans EvidenceFile.log.kind
      cases node with
      | dir => cases hkind
      | file bytes synced =>
        exact Option.some_ne_none _ ((Fs.read?_eq_some.mpr ⟨synced, hnode⟩).symm.trans hread)
    have he := FsOp.effect_openAppend.mpr (.inr ⟨hread, hplace, rfl⟩)
    have hnew : Fs.read? (s.disk.fs.insert diagnosticsPath (.file [] false)) diagnosticsPath =
        some [] := Fs.read?_eq_some.mpr ⟨false, Map.get_insert_self⟩
    refine ⟨_, io_of_nil h.quiet he, ⟨h.step .openLog he, ?_, ?_⟩, .wrote .log⟩
    · exact ((SameFrame.wrote .log).directories number).trans hdir
    · exact fun hnone => Option.some_ne_none _ (hnew.symm.trans hnone)
  · have he := FsOp.effect_openAppend.mpr (.inl ⟨hread, rfl⟩)
    exact ⟨_, io_of_nil h.quiet he, ⟨h.step .openLog he, hdir, hread⟩,
      ⟨rfl, rfl, fun _ _ => rfl, fun _ => rfl⟩⟩

/-- The state after a number for new evidence was drawn. -/
def Sys.evidenceDrawn (s : Sys) : Sys :=
  { s with counters := { s.counters with nextEvidence := s.counters.nextEvidence + 1 } }

theorem drawEvidence_eq : drawEvidence s = .ok s.counters.nextEvidence s.evidenceDrawn := rfl

/-- With its name free, an evidence directory is made. -/
theorem EvidenceInOrder.begin (h : EvidenceInOrder s) (P : Primitives) (source : Path)
    (code : EvidenceCode)
    (hfree : s.disk.fs[evidenceDir (evidenceId s.counters.nextEvidence)]? = none) :
    ∃ t, EvidenceBegun s t ∧ preserveEvidenceDirectory P source code s =
      (copyEvidenceFiles P (evidenceId s.counters.nextEvidence) code (depthBound t.disk.fs) source
        1 >>= fun _ => io (.sync diagnosticsPath)) t := by
  obtain ⟨s₁, hrun₁, hs₁, hframe₁, hroot⟩ := h.makeRoot
  have hnext : s₁.counters.nextEvidence = s.counters.nextEvidence :=
    congrArg Counters.nextEvidence hframe₁.counters
  let directory := evidenceDir (evidenceId s.counters.nextEvidence)
  have habsent : s₁.disk.fs.present directory = false := by
    have hne : directory ≠ [] := List.cons_ne_nil _ _
    rw [Fs.present_eq hne, hframe₁.directories, hfree]
    rfl
  have hs₂ : EvidenceInOrder s₁.evidenceDrawn := ⟨hs₁.quiet, hs₁.fits⟩
  have he : (FsOp.createDir directory).effect s₁.evidenceDrawn.disk.fs = .ok _ :=
    FsOp.effect_createDir.mpr ⟨habsent, hroot, rfl⟩
  have hother : ∀ q, q ≠ directory →
      (s₁.disk.fs.insert directory .dir)[q]? = s₁.disk.fs[q]? := fun q hq =>
    Map.get_insert_of_ne hq
  have hroot' : Fs.isDir (s₁.disk.fs.insert directory .dir) evidenceRoot = true := by
    refine (Fs.isDir_congr (hother evidenceRoot fun heq => ?_)).trans hroot
    exact absurd (congrArg List.length heq) (by simp [directory, evidenceDir, evidenceRoot])
  obtain ⟨s₄, hrun₄, hs₄, hframe₄⟩ := (hs₂.step (.directory _) he).openLog hroot'
    Map.get_insert_self
  refine ⟨s₄, ⟨hs₄, hframe₄.store.trans hframe₁.store, ?_, fun q hq => ?_, fun n hn => ?_⟩, ?_⟩
  · exact (congrArg Counters.nextEvidence hframe₄.counters).trans (congrArg (· + 1) hnext)
  · refine (hframe₄.outside q hq).trans ((hother q ?_).trans (hframe₁.outside q hq))
    exact fun heq => hq (heq ▸ rfl)
  · refine (hframe₄.directories n).trans ((hother _ ?_).trans (hframe₁.directories n))
    exact fun heq => hn (evidenceId_inj (Option.some.inj (congrArg List.getLast? heq)))
  · unfold preserveEvidenceDirectory
    rw [bind_of_ok hrun₁, bind_of_ok drawEvidence_eq, hnext,
      bind_of_ok (io_of_nil hs₂.quiet he), bind_of_ok hrun₄,
      bind_of_ok (get_apply s₄)]

/-- No path below the given one is deeper than the bound. -/
def Shallow (fs : Fs) (source : Path) (depth : ℕ) : Prop :=
  ∀ q, source <+: q → fs[q]?.isSome = true → q.length < source.length + depth

theorem Shallow.entry {depth : ℕ} (h : Shallow fs source (depth + 1)) (name : Text) :
    Shallow fs (source ++ [name]) depth := by
  intro q hq hsome
  have hlt := h q (List.IsPrefix.trans ⟨[name], rfl⟩ hq) hsome
  rw [List.length_append, List.length_singleton]
  omega

/-- The depth that is passed down is enough. -/
theorem Shallow.depth_ne_zero {depth : ℕ} (h : Shallow fs source depth)
    (hsome : fs[source]?.isSome = true) : depth ≠ 0 := by
  have hlt := h source (List.prefix_refl _) hsome
  omega

theorem shallow_depthBound (hne : source ≠ []) : Shallow fs source (depthBound fs) := by
  intro q hq hsome
  have hle : ∀ (l : List ℕ) (n m : ℕ), n ∈ l ∨ n ≤ m → n ≤ l.foldl max m := by
    intro l
    induction l with
    | nil => exact fun n m h => h.resolve_left List.not_mem_nil
    | cons a l ih =>
      intro n m h
      refine ih n (max m a) ?_
      rcases h with h | h
      · rcases List.mem_cons.mp h with rfl | h
        · exact .inr (le_max_right _ _)
        · exact .inl h
      · exact .inr (h.trans (le_max_left _ _))
  have hmem : q.length ∈ fs.keys.map List.length :=
    List.mem_map_of_mem (by simpa using hsome)
  have hlength := hle _ _ 0 (.inl hmem)
  have hpos := List.length_pos_iff.mpr hne
  unfold depthBound
  omega

/-! ### Copies -/

/-- There are numbers for all files below a directory. -/
def FewBelow (fs : Fs) (source : Path) : Prop := 1 + (fs.under source).length < 2 ^ 64

theorem FewBelow.mono {fs fs' : Fs} (h : FewBelow fs source)
    (hsome : ∀ q, source <+: q → fs'[q]?.isSome = true → fs[q]?.isSome = true) :
    FewBelow fs' source :=
  (Nat.add_le_add_left (Fs.length_under_le hsome) 1).trans_lt h

theorem Fills.completes {p : Op Unit} (hp : Fills number p) (h : EvidenceOpen number s) :
    p.Completes (fun _ t => EvidenceOpen number t ∧ SameFrame s t) s := by
  obtain ⟨t, hrun, ht⟩ := hp s h
  exact .of_ok hrun ht

theorem copyEvidenceFile_completes {next : ℕ} {bytes : Bytes} (h : EvidenceOpen number s)
    (hnext : next + 1 < 2 ^ 64) (hread : s.disk.fs.read? path = some bytes) :
    (copyEvidenceFile P (evidenceId number) code path next).Completes
      (fun n t => n = next + 1 ∧ EvidenceOpen number t ∧ SameFrame s t) s := by
  have hcheck : (failIf (next + 1 ≥ 2 ^ 64) StorageError.ioFailure : Op Unit) s = .ok () s :=
    failIf_of_not (by omega)
  have hbytes : readBytes path s = .ok bytes s :=
    zoom_of_ok (Disk.readFile_of_nil h.quiet hread)
  refine .bind_of_ok hcheck (.bind_of_ok hbytes ?_)
  refine .bind ((EvidenceOpen.fills_writeLog _).completes h) fun _ s₁ ⟨h₁, hf₁⟩ => ?_
  refine .bind (EvidenceOpen.fills_syncLog.completes h₁) fun _ s₂ ⟨h₂, hf₂⟩ => ?_
  refine .bind ((EvidenceOpen.fills_record next bytes).completes h₂) fun _ s₃ ⟨h₃, hf₃⟩ => ?_
  exact .of_ok rfl ⟨rfl, h₃, (hf₁.trans hf₂).trans hf₃⟩

/-- The copies of what is below a directory end, with at most one number for each path. -/
theorem copyEvidenceFiles_completes : (depth : ℕ) → {source : Path} → {next : ℕ} → {s : Sys} →
    EvidenceOpen number s → source ≠ [] → source.head? ≠ some evidenceName →
    Shallow s.disk.fs source depth → s.disk.fs.isDir source = true →
    next + (s.disk.fs.under source).length < 2 ^ 64 →
    (copyEvidenceFiles P (evidenceId number) code depth source next).Completes
      (fun n t => n ≤ next + (s.disk.fs.under source).length ∧ EvidenceOpen number t ∧
        SameFrame s t) s
  | 0, _, _, _, _, hne, _, hshallow, hdir, _ =>
    absurd rfl (hshallow.depth_ne_zero (Fs.isSome_of_isDir hne hdir))
  | depth + 1, source, next, s, h, hne, hhead, hshallow, hdir, hfew => by
    have hentry : ∀ rest, (source ++ rest).head? ≠ some evidenceName := by
      intro rest
      rwa [List.head?_append_of_ne_nil _ hne]
    have hlist : readDir source s = .ok (s.disk.fs.readDir source) s :=
      zoom_of_ok (Disk.listDir_of_nil h.quiet hdir)
    have hall : ((s.disk.fs.readDir source).map fun name =>
        (s.disk.fs.under (source ++ [name])).length).sum ≤ (s.disk.fs.under source).length :=
      Fs.sum_length_under_le Fs.nodup_readDir
    -- the numbers given out and the paths below the names still to come do not exceed the bound
    refine .bind_of_ok hlist (.of_wp (wp_mono (wp_foldlM
      (fun names n t => EvidenceOpen number t ∧ SameFrame s t ∧
        n + (names.map fun name => (s.disk.fs.under (source ++ [name])).length).sum ≤
          next + (s.disk.fs.under source).length ∧
        ∀ name ∈ names, s.disk.fs[source ++ [name]]?.isSome = true)
      (fun name names n t ht => ?_) _ next s
      ⟨h, .refl, Nat.add_le_add_left hall next, fun name hname => Fs.mem_readDir.mp hname⟩)
      (fun n t ht => ⟨by simpa using ht.2.2.1, ht.1, ht.2.1⟩) (fun _ _ => id) fun _ => id))
    obtain ⟨hopen, hframe, hsum, hnames⟩ := ht
    rw [List.map_cons, List.sum_cons] at hsum
    have hsome := hnames name List.mem_cons_self
    have hsame : ∀ q, source ++ [name] <+: q → t.disk.fs[q]? = s.disk.fs[q]? := by
      rintro _ ⟨rest, rfl⟩
      rw [List.append_assoc]
      exact hframe.outside _ (hentry _)
    have hunder : (t.disk.fs.under (source ++ [name])).length ≤
        (s.disk.fs.under (source ++ [name])).length :=
      Fs.length_under_le fun q hq hsome => hsame q hq ▸ hsome
    have hpos : 0 < (s.disk.fs.under (source ++ [name])).length :=
      List.length_pos_of_mem (Fs.mem_under.mpr ⟨List.prefix_refl _, hsome⟩)
    -- one name takes at most one number for each path below it
    suffices hstep : (do
        let isDir ← pathIsDir (source ++ [name])
        if isDir then copyEvidenceFiles P (evidenceId number) code depth (source ++ [name]) n
        else copyEvidenceFile P (evidenceId number) code (source ++ [name]) n : Op ℕ).Completes
        (fun n' t' => n' ≤ n + (s.disk.fs.under (source ++ [name])).length ∧
          EvidenceOpen number t' ∧ SameFrame t t') t by
      obtain ⟨n', t', hrun, hle, hopen', hframe'⟩ := hstep
      exact wp_of_ok hrun ⟨hopen', hframe.trans hframe', by omega,
        fun name' hname' => hnames name' (List.mem_cons_of_mem _ hname')⟩
    refine .bind_of_ok (show pathIsDir (source ++ [name]) t =
      .ok (t.disk.fs.isDir (source ++ [name])) t from rfl) ?_
    split_ifs with hisDir
    · have hshallow' : Shallow t.disk.fs (source ++ [name]) depth := by
        intro q hq hsome
        exact hshallow.entry name q hq (hsame q hq ▸ hsome)
      refine (copyEvidenceFiles_completes depth hopen (by simp) (hentry _) hshallow' hisDir
        (by omega)).mono fun n' t' hn' => ⟨hn'.1.trans (by omega), hn'.2⟩
    · obtain ⟨node, hnode⟩ := Option.isSome_iff_exists.mp hsome
      rw [← hsame _ (List.prefix_refl _)] at hnode
      cases node with
      | dir => exact absurd (by simp [Fs.isDir, hnode]) hisDir
      | file bytes synced =>
        refine (copyEvidenceFile_completes hopen (by omega)
          (Fs.read?_eq_some.mpr ⟨synced, hnode⟩)).mono fun n' t' hn' => ⟨hn'.1.trans_le (by omega), hn'.2⟩

/-- With its name free, a directory is kept as evidence. -/
theorem preserveEvidenceDirectory_completes (h : EvidenceInOrder s)
    (hfree : s.disk.fs[evidenceDir (evidenceId s.counters.nextEvidence)]? = none)
    (hne : source ≠ []) (hhead : source.head? ≠ some evidenceName)
    (hdir : s.disk.fs.isDir source = true) (hfew : FewBelow s.disk.fs source) :
    (preserveEvidenceDirectory P source code).Completes (fun _ t => EvidenceBegun s t) s := by
  obtain ⟨t, ht, hrun⟩ := h.begin P source code hfree
  have hsource : ∀ q, source <+: q → t.disk.fs[q]? = s.disk.fs[q]? := by
    rintro _ ⟨rest, rfl⟩
    exact ht.outside _ (by rwa [List.head?_append_of_ne_nil _ hne])
  have hunder : (t.disk.fs.under source).length ≤ (s.disk.fs.under source).length :=
    Fs.length_under_le fun q hq hsome => hsource q hq ▸ hsome
  have hdir' : t.disk.fs.isDir source = true :=
    (Fs.isDir_congr (hsource _ (List.prefix_refl _))).trans hdir
  unfold FewBelow at hfew
  have hcopies : (copyEvidenceFiles P (evidenceId s.counters.nextEvidence) code
      (depthBound t.disk.fs) source 1).Completes _ t :=
    copyEvidenceFiles_completes _ ht.opened hne hhead (shallow_depthBound hne) hdir' (by omega)
  obtain ⟨_, u, hcopied, -, hopen, hframe⟩ := hcopies
  obtain ⟨_, v, hsynced, hopen', hframe'⟩ := EvidenceOpen.fills_syncLog.completes hopen
  have hall := hframe.trans hframe'
  refine ⟨(), v, hrun.trans ((bind_of_ok hcopied).trans hsynced), hopen',
    hall.store.trans ht.store, ?_, fun q hq => (hall.outside q hq).trans (ht.outside q hq),
    fun n hn => (hall.directories n).trans (ht.directories n hn)⟩
  exact (congrArg Counters.nextEvidence hall.counters).trans ht.next

/-! ### Generations -/

section Cleanup

variable {store : StoreId} {kept : List UInt64} {names : List Text}

/-- The entry among the generations is a directory, and not that of a generation that is kept. -/
def Sweepable (fs : Fs) (store : StoreId) (file : FileId) (kept : List UInt64) (name : Text) :
    Prop :=
  fs.isDir (generationEntry store file name) = true ∧ name ∉ kept.map generationName

instance (fs : Fs) (name : Text) : Decidable (Sweepable fs store file kept name) :=
  inferInstanceAs (Decidable (_ ∧ _))

/-- The entries among the generations that recovery of the given one removes. -/
def unreferenced (fs : Fs) (store : StoreId) (file : FileId) (generation : UInt64) : List Text :=
  (fs.readDir (generationsDir store file)).filter fun name =>
    fs.isDir (generationEntry store file name) ∧ name ≠ generationName generation

theorem generationEntry_head (name : Text) :
    (generationEntry store file name).head? ≠ some evidenceName := stores_head

/-- The state while the entries with the given names are still to come. -/
structure Sweeping (store : StoreId) (file : FileId) (kept : List UInt64) (s : Sys)
    (names : List Text) (t : Sys) : Prop where
  order : EvidenceInOrder t
  free : ∀ n, t.counters.nextEvidence ≤ n → t.disk.fs[evidenceDir (evidenceId n)]? = none
  count : t.counters.nextEvidence + (names.filter (Sweepable s.disk.fs store file kept)).length =
    s.counters.nextEvidence + ((s.disk.fs.readDir (generationsDir store file)).filter
      (Sweepable s.disk.fs store file kept)).length
  nodup : names.Nodup
  sameStore : t.store = s.store
  paths : ∀ q : Path, q.head? ≠ some evidenceName →
    (∀ name, name ∉ names → generationEntry store file name <+: q →
      ¬Sweepable s.disk.fs store file kept name) → t.disk.fs[q]? = s.disk.fs[q]?

namespace Sweeping

variable {name : Text}

theorem entry (h : Sweeping store file kept s names t) (hname : name ∈ names) {q : Path}
    (hq : generationEntry store file name <+: q) : t.disk.fs[q]? = s.disk.fs[q]? := by
  refine h.paths q ?_ fun name' hname' hq' => absurd (generationEntry_inj hq hq' ▸ hname) hname'
  obtain ⟨rest, rfl⟩ := hq
  exact stores_head

theorem stayed (h : Sweeping store file kept s (name :: names) t)
    (hstays : ¬Sweepable s.disk.fs store file kept name) : Sweeping store file kept s names t where
  order := h.order
  free := h.free
  count := by
    have hcount := h.count
    rwa [List.filter_cons_of_neg (by simpa using hstays)] at hcount
  nodup := (List.nodup_cons.mp h.nodup).2
  sameStore := h.sameStore
  paths q hq hnames := by
    refine h.paths q hq fun name' hname' => hnames name' fun hmem => ?_
    exact hname' (List.mem_cons_of_mem _ hmem)

/-- An entry was removed after it was kept as evidence. -/
theorem removed {t' : Sys} (h : Sweeping store file kept s (name :: names) t)
    (hremoved : Sweepable s.disk.fs store file kept name) (ht : EvidenceBegun t t') :
    Sweeping store file kept s names (t'.ran
      (t'.disk.fs.eraseAll (t'.disk.fs.under (generationEntry store file name)))) := by
  have herase : ∀ q, ¬generationEntry store file name <+: q →
      (t'.disk.fs.eraseAll (t'.disk.fs.under (generationEntry store file name)))[q]? =
        t'.disk.fs[q]? :=
    fun q hq => (Fs.get_eraseAll _).trans (if_neg fun hm => hq (Fs.mem_under.mp hm).1)
  have hevidence : ∀ q : Path, q.head? = some evidenceName →
      ¬generationEntry store file name <+: q := by
    rintro _ hq ⟨rest, rfl⟩
    exact stores_head hq
  refine ⟨⟨fates_ran ht.opened.quiet, fun q node hq hnode => ?_⟩, fun n hn => ?_, ?_,
    (List.nodup_cons.mp h.nodup).2, ht.store.trans h.sameStore, fun q hq hnames => ?_⟩
  · exact ht.opened.fits q node hq ((herase q (hevidence q hq)).symm.trans hnode)
  · have hle : t.counters.nextEvidence + 1 ≤ n := ht.next ▸ hn
    refine (herase _ (hevidence _ rfl)).trans ((ht.directories n (by omega)).trans ?_)
    exact h.free n (by omega)
  · have hcount := h.count
    rw [List.filter_cons_of_pos (by simpa using hremoved), List.length_cons] at hcount
    change t'.counters.nextEvidence + _ = _
    rw [ht.next]
    omega
  · have hnot : ¬generationEntry store file name <+: q := fun hp =>
      hnames name (List.nodup_cons.mp h.nodup).1 hp hremoved
    refine (herase q hnot).trans ((ht.outside q hq).trans (h.paths q hq fun name' hname' => ?_))
    exact hnames name' fun hmem => hname' (List.mem_cons_of_mem _ hmem)

end Sweeping

/-- Cleaning up returns. It removes the generations that are not kept, with one name for each. -/
theorem cleanup_completes {prior : Option UInt64} (h : EvidenceInOrder s)
    (hid : s.store.storeId = store)
    (hfree : ∀ n, s.counters.nextEvidence ≤ n → s.disk.fs[evidenceDir (evidenceId n)]? = none)
    (hdir : s.disk.fs.isDir (generationsDir store file) = true)
    (hprior : priorGeneration P file s = .ok prior s)
    (hfew : ∀ name, FewBelow s.disk.fs (generationEntry store file name)) :
    (cleanupUnreferencedStaging P file generation).Completes
      (fun _ t => Sweeping store file (generation :: prior.toList) s [] t) s := by
  have hexists : pathExists (generationsDir store file) s = .ok true s := by
    refine congrArg (Outcome.ok · s) ((Fs.present_eq (List.cons_ne_nil _ _)).trans ?_)
    exact Fs.isSome_of_isDir (List.cons_ne_nil _ _) hdir
  have hlist : readDir (generationsDir store file) s =
      .ok (s.disk.fs.readDir (generationsDir store file)) s :=
    zoom_of_ok (Disk.listDir_of_nil h.quiet hdir)
  unfold cleanupUnreferencedStaging
  refine .bind_of_ok getStore_eq ?_
  rw [hid]
  refine .bind_of_ok hexists ?_
  refine .bind_of_ok hprior (.bind_of_ok hlist (.of_wp ?_))
  refine wp_forEach (Sweeping store file (generation :: prior.toList) s)
    (fun name names t ht => ?_) _ s ⟨h, hfree, rfl, Fs.nodup_readDir, rfl, fun _ _ _ => rfl⟩
  have hentry : ∀ q, generationEntry store file name <+: q → t.disk.fs[q]? = s.disk.fs[q]? :=
    fun q hq => ht.entry List.mem_cons_self hq
  have hisDir : t.disk.fs.isDir (generationEntry store file name) =
      s.disk.fs.isDir (generationEntry store file name) :=
    Fs.isDir_congr (hentry _ (List.prefix_refl _))
  have hmem : generationEntry store file name ∈ (generation :: prior.toList).map
      (generationDir store file) ↔ name ∈ (generation :: prior.toList).map generationName := by
    simp [generationDir, generationEntry]
  rw [wp_bind]
  change Act.wp (ite (t.disk.fs.isDir (generationEntry store file name) = true ∧
    generationEntry store file name ∉ List.map _ _) _ _) _ _ _ t
  refine wp_ite.mpr ⟨fun hc => ?_, fun hc => ht.stayed fun hremoved => hc ?_⟩
  · have hremoved : Sweepable s.disk.fs store file (generation :: prior.toList) name :=
      ⟨hisDir ▸ hc.1, fun hname => hc.2 (hmem.mpr hname)⟩
    have hfew' : FewBelow t.disk.fs (generationEntry store file name) :=
      (hfew name).mono fun q hq hsome => hentry q hq ▸ hsome
    have hcompletes : (preserveEvidenceDirectory P (generationEntry store file name)
        .recoveryQuarantine).Completes _ t :=
      preserveEvidenceDirectory_completes ht.order (ht.free _ le_rfl) (List.cons_ne_nil _ _)
        stores_head hc.1 hfew'
    obtain ⟨_, t', hrun, ht'⟩ := hcompletes
    have hdir' : t'.disk.fs.isDir (generationEntry store file name) = true :=
      (Fs.isDir_congr (ht'.outside _ stores_head)).trans hc.1
    exact wp_bind_of_ok hrun (wp_io_of_nil ht'.opened.quiet
      (FsOp.effect_removeDirAll.mpr ⟨hdir', rfl⟩) (ht.removed hremoved ht'))
  · exact ⟨hisDir.trans hremoved.1, fun hm => hremoved.2 (hmem.mp hm)⟩

/-- Without generations there is nothing to remove. -/
theorem cleanup_of_absent (hid : s.store.storeId = store)
    (habsent : s.disk.fs[generationsDir store file]? = none) :
    cleanupUnreferencedStaging P file generation s = .ok () s := by
  have hexists : pathExists (generationsDir store file) s = .ok false s := by
    refine congrArg (Outcome.ok · s) ((Fs.present_eq (List.cons_ne_nil _ _)).trans ?_)
    exact congrArg Option.isSome habsent
  unfold cleanupUnreferencedStaging
  rw [bind_of_ok getStore_eq, hid, whenExists, bind_of_ok hexists]
  rfl

end Cleanup

end Wdlp
