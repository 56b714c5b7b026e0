import Wdlp.Lib.Tracking
import Wdlp.Storage.Quarantine
import Wdlp.Storage.Generations

/-!
# Recovery over old evidence

Evidence directories are named after a counter that starts from the beginning in every process, and
they stay on the disk. Two recoveries are followed side by side, one on a disk with evidence of
earlier processes and one on the same disk without it. They take the same steps until the name that
the counter gives is taken; the first one then fails to make the directory.

## Main definitions

* `Sys.withoutEvidence` — the same state without any evidence on the disk.
* `Twins` — two states that differ in the evidence only.
* `Clash` — a name that was drawn is taken by old evidence.

## Main results

* `recoverStore_tracks` — the two recoveries end alike, or the one over old evidence fails on a name
  that is taken.
* `World.evidence_run` — in every run, the evidence keeps to the layout.
* `recovery_ignores_evidence_iff` — when the result does not depend on old evidence.
-/

namespace Wdlp

open CrashSafe Act

variable {P : Primitives} {file : FileId} {generation : UInt64} {s t c : Sys} {path source : Path}
  {number : ℕ}

/-! ### Two copies of the evidence -/

section Copying

variable {s₁ c₁ : Sys}

/-- Two states while evidence is copied, compared with those at the beginning. -/
structure Copying (number : ℕ) (s₁ c₁ s c : Sys) : Prop where
  left : EvidenceOpen number s
  right : EvidenceOpen number c
  leftFrame : SameFrame s₁ s
  rightFrame : SameFrame c₁ c

/-- The disks agree outside of the evidence, and the stores are the same. -/
structure Beside (s c : Sys) : Prop where
  store : c.store = s.store
  outside : ∀ q : Path, q.head? ≠ some evidenceName → c.disk.fs[q]? = s.disk.fs[q]?

theorem Copying.beside (h : Copying number s₁ c₁ s c) (hb : Beside s₁ c₁) : Beside s c where
  store := h.rightFrame.store.trans (hb.store.trans h.leftFrame.store.symm)
  outside q hq := (h.rightFrame.outside q hq).trans
    ((hb.outside q hq).trans (h.leftFrame.outside q hq).symm)

theorem Beside.sameSession (h : Beside s c) (hs : s.disk.fates = []) (hc : c.disk.fates = []) :
    SameSession s c :=
  ⟨hs, hc, congrArg Store.storeId h.store, congrArg Store.key h.store⟩

/-- Both copies go on. -/
theorem Fills.tracks {p : Op Unit} (hp : Fills number p) (h : Copying number s₁ c₁ s c) :
    p.Tracks (Copying number s₁ c₁) .ioFailure (fun _ => False) s p c := by
  obtain ⟨s', hs, hopen, hframe⟩ := hp s h.left
  obtain ⟨c', hc, hopen', hframe'⟩ := hp c h.right
  exact .of_ok hs hc ⟨hopen, hopen', h.leftFrame.trans hframe, h.rightFrame.trans hframe'⟩

variable {code : EvidenceCode}

theorem copyEvidenceFile_tracks {next : ℕ} (hb : Beside s₁ c₁)
    (hhead : path.head? ≠ some evidenceName) (h : Copying number s₁ c₁ s c) :
    (copyEvidenceFile P (evidenceId number) code path next).Tracks (Copying number s₁ c₁)
      .ioFailure (fun _ => False) s (copyEvidenceFile P (evidenceId number) code path next) c := by
  have hsession := (h.beside hb).sameSession h.left.quiet h.right.quiet
  have hread : (readBytes path).Alike s (readBytes path) c :=
    .zoom (hsession.alike_readFile (.inl ((h.beside hb).outside path hhead))) rfl rfl
  refine .bind_of_unstopped (.of_alike .failIf h) fun _ s' c' hs hc h => ?_
  obtain ⟨-, rfl⟩ := failIf_eq_ok.mp hs
  obtain ⟨-, rfl⟩ := failIf_eq_ok.mp hc
  refine .bind_of_unstopped (.of_alike hread h) fun bytes s' c' _ _ h => ?_
  refine .bind_of_unstopped ((EvidenceOpen.fills_writeLog _).tracks h) fun _ s' c' _ _ h => ?_
  refine .bind_of_unstopped (EvidenceOpen.fills_syncLog.tracks h) fun _ s' c' _ _ h => ?_
  exact .bind_of_unstopped ((EvidenceOpen.fills_record next bytes).tracks h)
    fun _ s' c' _ _ h => .pure h

/-- A directory that is not evidence lists the same names on both disks. -/
theorem Beside.alike_readDir (h : Beside s c) (hs : s.disk.fates = []) (hc : c.disk.fates = [])
    (hne : source ≠ []) (hhead : source.head? ≠ some evidenceName) :
    (readDir source).Alike s (readDir source) c := by
  have hnames : c.disk.fs.readDir source = s.disk.fs.readDir source := by
    refine Fs.readDir_congr fun name => congrArg Option.isSome (h.outside _ ?_)
    rwa [List.head?_append_of_ne_nil _ hne]
  have hlist : ∀ d : Disk, d.fates = [] → Disk.listDir source d =
      Act.ofExcept (if d.fs.isDir source then .ok (d.fs.readDir source) else .error .notFound) d := by
    intro d hd
    simp only [Disk.listDir, hd, List.headD_nil, Disk.advance_of_nil hd]
    split <;> rfl
  have halike : (Disk.listDir source).Alike s.disk (Disk.listDir source) c.disk := by
    refine ⟨_, hlist _ hs, ?_⟩
    rw [hlist _ hc, hnames, Fs.isDir_congr (h.outside source hhead)]
  exact .zoom halike rfl rfl

/-- Both copies take the same files, whatever depths the two disks have. -/
theorem copyEvidenceFiles_tracks (hb : Beside s₁ c₁) : (depth depth' : ℕ) →
    {source : Path} → {next : ℕ} → {s c : Sys} → depth ≠ 0 → depth' ≠ 0 → source ≠ [] →
    source.head? ≠ some evidenceName → Shallow s₁.disk.fs source depth →
    Shallow s₁.disk.fs source depth' → Copying number s₁ c₁ s c →
    (copyEvidenceFiles P (evidenceId number) code depth source next).Tracks
      (Copying number s₁ c₁) .ioFailure (fun _ => False) s
      (copyEvidenceFiles P (evidenceId number) code depth' source next) c
  | 0, _, _, _, _, _, hdepth, _, _, _, _, _, _ => absurd rfl hdepth
  | _ + 1, 0, _, _, _, _, _, hdepth, _, _, _, _, _ => absurd rfl hdepth
  | depth + 1, depth' + 1, source, next, s, c, _, _, hne, hhead, hshallow, hshallow', h => by
    have hentry : ∀ name, (source ++ [name]).head? ≠ some evidenceName := by
      intro name
      rwa [List.head?_append_of_ne_nil _ hne]
    have hlist := (h.beside hb).alike_readDir h.left.quiet h.right.quiet hne hhead
    refine .bind_of_unstopped (.of_alike hlist h) fun names s' c' _ _ h => ?_
    refine .foldlM (fun next name s c h => ?_) (fun _ _ _ => False.elim) _ h
    have hget := (h.beside hb).outside (source ++ [name]) (hentry name)
    have hisDir : (pathIsDir (source ++ [name])).Alike s (pathIsDir (source ++ [name])) c :=
      ⟨.ok (s.disk.fs.isDir (source ++ [name])), rfl,
        congrArg (Outcome.ok · c) (Fs.isDir_congr hget)⟩
    refine .bind_of_unstopped (.of_alike hisDir h) fun isDir s' c' hs hc h' => ?_
    obtain ⟨rfl, rfl⟩ := Outcome.ok.inj hs
    refine .ite (fun hdir => ?_) fun _ => copyEvidenceFile_tracks hb (hentry name) h'
    have hsome := Fs.isSome_of_isDir (by simp) hdir
    rw [h.leftFrame.outside _ (hentry name)] at hsome
    exact copyEvidenceFiles_tracks hb depth depth' ((hshallow.entry name).depth_ne_zero hsome)
      ((hshallow'.entry name).depth_ne_zero hsome) (by simp) (hentry name) (hshallow.entry name)
      (hshallow'.entry name) h'

end Copying

/-! ### Twins -/

/-- The states are those of two runs that began with the same state, apart from the evidence that
was on the disk of the first one; no name was drawn that this evidence has taken. -/
structure Twins (s₀ s c : Sys) : Prop extends Beside s c where
  storeId : s.store.storeId = s₀.store.storeId
  left : EvidenceInOrder s
  right : EvidenceInOrder c
  next : c.counters.nextEvidence = s.counters.nextEvidence
  later : s₀.counters.nextEvidence ≤ s.counters.nextEvidence
  free : ∀ n, s.counters.nextEvidence ≤ n → c.disk.fs[evidenceDir (evidenceId n)]? = none
  kept : ∀ n, s.counters.nextEvidence ≤ n → s.disk.fs[evidenceDir (evidenceId n)]? =
    s₀.disk.fs[evidenceDir (evidenceId n)]?
  unclashed : ∀ n, s₀.counters.nextEvidence ≤ n → n < s.counters.nextEvidence →
    s₀.disk.fs[evidenceDir (evidenceId n)]? = none

/-- A name that was drawn is taken by evidence from the beginning. -/
structure Clash (s₀ : Sys) (c : Core) : Prop where
  storeId : c.store.storeId = s₀.store.storeId
  taken : ∃ n, s₀.counters.nextEvidence ≤ n ∧ n < c.counters.nextEvidence ∧
    s₀.disk.fs[evidenceDir (evidenceId n)]? ≠ none

variable {s₀ : Sys}

/-- What was drawn stays drawn. -/
theorem clash_evidenceKeeps : EvidenceKeeps (Clash s₀) where
  ops _ _ _ _ _ hc := ⟨hc.storeId, hc.taken⟩
  counts _ _ hle hc := by
    obtain ⟨n, hn, hlt, htaken⟩ := hc.taken
    exact ⟨hc.storeId, n, hn, hlt.trans_le hle, htaken⟩

theorem clash_recoverKeeps : RecoverKeeps (Clash s₀) s₀.store.storeId file where
  toEvidenceKeeps := clash_evidenceKeeps
  session _ hc := hc.storeId
  recovers _ _ _ _ _ hc := ⟨hc.storeId, hc.taken⟩

/-- With its name taken, no evidence directory is made. -/
theorem EvidenceInOrder.taken (h : EvidenceInOrder s) (P : Primitives) (source : Path)
    (code : EvidenceCode)
    (htaken : s.disk.fs[evidenceDir (evidenceId s.counters.nextEvidence)]? ≠ none) :
    ∃ t, preserveEvidenceDirectory P source code s = .err .ioFailure t := by
  obtain ⟨s₁, hrun₁, hs₁, hframe₁, hroot⟩ := h.makeRoot
  have hnext : s₁.counters.nextEvidence = s.counters.nextEvidence :=
    congrArg Counters.nextEvidence hframe₁.counters
  have hpresent : s₁.disk.fs.present (evidenceDir (evidenceId s.counters.nextEvidence)) = true := by
    have hne : evidenceDir (evidenceId s.counters.nextEvidence) ≠ [] := List.cons_ne_nil _ _
    rwa [Fs.present_eq hne, hframe₁.directories, Option.isSome_iff_ne_none]
  have he : (FsOp.createDir (evidenceDir (evidenceId s.counters.nextEvidence))).effect
      s₁.evidenceDrawn.disk.fs = .error .alreadyExists := if_pos hpresent
  have hquiet : s₁.evidenceDrawn.disk.fates = [] := hs₁.quiet
  unfold preserveEvidenceDirectory
  rw [bind_of_ok hrun₁, bind_of_ok drawEvidence_eq, hnext]
  exact ⟨_, bind_of_err (io_of_error hquiet he)⟩

/-- Two runs keep a directory as evidence, until a name is taken. -/
theorem preserveEvidenceDirectory_tracks {code : EvidenceCode} (h : Twins s₀ s c)
    (hne : source ≠ []) (hhead : source.head? ≠ some evidenceName) :
    (preserveEvidenceDirectory P source code).Tracks (Twins s₀) .ioFailure
      (fun c => Clash s₀ c.core) s (preserveEvidenceDirectory P source code) c := by
  have hfree : c.disk.fs[evidenceDir (evidenceId c.counters.nextEvidence)]? = none :=
    h.free _ h.next.ge
  obtain ⟨c₁, hc₁, hrun'⟩ := h.right.begin P source code hfree
  rw [h.next] at hrun'
  by_cases htaken : s.disk.fs[evidenceDir (evidenceId s.counters.nextEvidence)]? = none
  · obtain ⟨s₁, hs₁, hrun⟩ := h.left.begin P source code htaken
    have hopened := hc₁.opened
    rw [h.next] at hopened
    have hb : Beside s₁ c₁ := by
      refine ⟨hc₁.store.trans (h.store.trans hs₁.store.symm), fun q hq => ?_⟩
      exact (hc₁.outside q hq).trans ((h.outside q hq).trans (hs₁.outside q hq).symm)
    have hshallow : Shallow s₁.disk.fs source (depthBound c₁.disk.fs) := by
      intro q hq hsome
      refine shallow_depthBound hne q hq ?_
      obtain ⟨rest, rfl⟩ := hq
      rw [hb.outside _ (by rwa [List.head?_append_of_ne_nil _ hne])]
      exact hsome
    have hcopies : (copyEvidenceFiles P (evidenceId s.counters.nextEvidence) code
        (depthBound s₁.disk.fs) source 1).Tracks (Copying s.counters.nextEvidence s₁ c₁)
        .ioFailure (fun _ => False) s₁ (copyEvidenceFiles P (evidenceId s.counters.nextEvidence)
          code (depthBound c₁.disk.fs) source 1) c₁ :=
      copyEvidenceFiles_tracks hb _ _ (Nat.succ_ne_zero _) (Nat.succ_ne_zero _) hne hhead
        (shallow_depthBound hne) hshallow ⟨hs₁.opened, hopened, .refl, .refl⟩
    have htracks := hcopies.bind_of_unstopped
      fun _ _ _ _ _ h' => EvidenceOpen.fills_syncLog.tracks h'
    have htwins : ∀ s' c', Copying s.counters.nextEvidence s₁ c₁ s' c' → Twins s₀ s' c' := by
      intro s' c' h'
      have hnext' : s'.counters.nextEvidence = s.counters.nextEvidence + 1 :=
        (congrArg Counters.nextEvidence h'.leftFrame.counters).trans hs₁.next
      refine ⟨h'.beside hb, ?_, h'.left.toEvidenceInOrder, h'.right.toEvidenceInOrder, ?_, ?_,
        fun n hn => ?_, fun n hn => ?_, fun n hn hlt => ?_⟩
      · rw [h'.leftFrame.store, hs₁.store, h.storeId]
      · rw [hnext', h'.rightFrame.counters, hc₁.next, h.next]
      · exact hnext' ▸ h.later.trans (Nat.le_succ _)
      · rw [hnext'] at hn
        rw [h'.rightFrame.directories, hc₁.directories n (by rw [h.next]; omega)]
        exact h.free n (by omega)
      · rw [hnext'] at hn
        rw [h'.leftFrame.directories, hs₁.directories n (by omega)]
        exact h.kept n (by omega)
      · rw [hnext'] at hlt
        rcases Nat.lt_succ_iff_lt_or_eq.mp hlt with hlt | rfl
        · exact h.unclashed n hn hlt
        · exact (h.kept _ le_rfl).symm.trans htaken
    have hclash : ∀ c' : Sys, False → Clash s₀ c'.core := fun _ => False.elim
    have hmono := htracks.mono htwins hclash
    unfold Act.Tracks at hmono ⊢
    rwa [hrun, hrun']
  · obtain ⟨s', hs'⟩ := h.left.taken P source code htaken
    refine .stopped hs' ?_
    rw [hrun']
    have hclash : Clash s₀ c₁.core := by
      refine ⟨?_, s.counters.nextEvidence, h.later, ?_, h.kept _ le_rfl ▸ htaken⟩
      · exact (congrArg Store.storeId (hc₁.store.trans h.store)).trans h.storeId
      · change _ < c₁.counters.nextEvidence
        rw [hc₁.next, h.next]
        exact Nat.lt_succ_self _
    exact Act.Keeps.state (Act.Keeps.bind (clash_evidenceKeeps.keeps_copyEvidenceFiles _ _ _)
      fun _ _ => keeps_io (clash_evidenceKeeps.ops _ .syncLog)) hclash

/-! ### Recovery -/

variable {op : FsOp}

/-- A step of recovery does the same on two disks that agree outside of the evidence. -/
theorem RecoverOp.effect_beside {store : StoreId} {fs fs' : Fs} (hop : RecoverOp store file op)
    (h : ∀ q : Path, q.head? ≠ some evidenceName → fs'[q]? = fs[q]?) :
    (∃ kind, op.effect fs = .error kind ∧ op.effect fs' = .error kind) ∨ ∃ g g', op.effect fs = .ok
    g ∧ op.effect fs' = .ok g' ∧ ∀ q : Path, q.head? ≠ some evidenceName → g'[q]? = g[q]? := by
  have hstores : ∀ rest : Path, (storesName :: rest).head? ≠ some evidenceName :=
    fun _ => stores_head
  have hread : ∀ rest, fs'.read? (storesName :: rest) = fs.read? (storesName :: rest) :=
    fun rest => Fs.read?_congr (h _ (hstores rest))
  have hisDir : ∀ rest, fs'.isDir (storesName :: rest) = fs.isDir (storesName :: rest) :=
    fun rest => Fs.isDir_congr (h _ (hstores rest))
  have hplace : ∀ name, FsOp.Placeable fs' (fileItem store file name) ↔
      FsOp.Placeable fs (fileItem store file name) :=
    fun name => and_congr (by rw [show (fileItem store file name).dropLast = storesName :: _ from
      rfl, hisDir]) (by rw [show fileItem store file name = storesName :: _ from rfl, hisDir])
  have hinsert : ∀ (p : Path) (node : Node) (q : Path), q.head? ≠ some evidenceName →
      (fs'.insert p node)[q]? = (fs.insert p node)[q]? := by
    intro p node q hq
    rw [Map.get_insert, Map.get_insert, h q hq]
  cases hop with
  | copy =>
    have hprevious : fs'.read? (previousPath store file) = fs.read? (previousPath store file) :=
      hread _
    simp only [FsOp.effect, hprevious]
    cases fs.read? (previousPath store file) with
    | none => exact .inl ⟨_, rfl, rfl⟩
    | some bytes =>
      by_cases hp : FsOp.Placeable fs (selectedPath store file)
      · exact .inr ⟨_, _, if_pos hp, if_pos ((hplace _).mpr hp), hinsert _ _⟩
      · exact .inl ⟨_, if_neg hp, if_neg fun hp' => hp ((hplace _).mp hp')⟩
  | marker hwrite =>
    have hmarker : fs'.read? (markerPath (fileDir store file)) =
        fs.read? (markerPath (fileDir store file)) := hread _
    cases hwrite with
    | create hpath =>
      subst hpath
      by_cases hp : FsOp.Placeable fs (fileItem store file markerName)
      · exact .inr ⟨_, _, if_pos hp, if_pos ((hplace _).mpr hp), hinsert _ _⟩
      · exact .inl ⟨_, if_neg hp, if_neg fun hp' => hp ((hplace _).mp hp')⟩
    | write hpath bytes =>
      subst hpath
      simp only [FsOp.effect, hmarker]
      cases fs.read? (markerPath (fileDir store file)) with
      | none => exact .inl ⟨_, rfl, rfl⟩
      | some old => exact .inr ⟨_, _, rfl, rfl, hinsert _ _⟩
    | sync hpath =>
      subst hpath
      simp only [FsOp.effect, hmarker]
      cases fs.read? (markerPath (fileDir store file)) with
      | none => exact .inl ⟨_, rfl, rfl⟩
      | some old => exact .inr ⟨_, _, rfl, rfl, hinsert _ _⟩
  | remove name =>
    have hentry : fs'.isDir (generationsDir store file ++ [name]) =
        fs.isDir (generationsDir store file ++ [name]) := hisDir _
    simp only [FsOp.effect, hentry]
    by_cases hdir : fs.isDir (generationsDir store file ++ [name]) = true
    · refine .inr ⟨_, _, if_pos hdir, if_pos hdir, fun q hq => ?_⟩
      simp only [Fs.get_eraseAll, Fs.mem_under, h q hq]
    · exact .inl ⟨_, if_neg hdir, if_neg hdir⟩

theorem RecoverOp.head {store : StoreId} {q : Path} (hop : RecoverOp store file op)
    (hq : op.Touches q) : q.head? ≠ some evidenceName := by
  obtain ⟨rest, rfl⟩ := hop.touches hq
  exact stores_head

/-- The twins take a step of recovery. -/
theorem Twins.tracks_io (h : Twins s₀ s c) (hop : RecoverOp s₀.store.storeId file op) :
    (io op).Tracks (Twins s₀) .ioFailure (fun _ => False) s (io op) c := by
  -- the evidence stays as it is
  have hevidence : ∀ {fs fs' : Fs}, op.Leaves fs fs' → ∀ q : Path, q.head? = some evidenceName →
      fs'[q]? = fs[q]? := fun hl q hq => hl.get_eq fun ht => hop.head ht hq
  have htwins : ∀ fs fs', op.Leaves s.disk.fs fs → op.Leaves c.disk.fs fs' →
      (∀ q : Path, q.head? ≠ some evidenceName → fs'[q]? = fs[q]?) →
      Twins s₀ (s.ran fs) (c.ran fs') := by
    intro fs fs' hl hl' houtside
    refine ⟨⟨h.store, houtside⟩, h.storeId, ⟨fates_ran h.left.quiet, fun q node hq hnode => ?_⟩,
      ⟨fates_ran h.right.quiet, fun q node hq hnode => ?_⟩, h.next, h.later, fun n hn => ?_,
      fun n hn => ?_, h.unclashed⟩
    · exact h.left.fits q node hq ((hevidence hl q hq).symm.trans hnode)
    · exact h.right.fits q node hq ((hevidence hl' q hq).symm.trans hnode)
    · exact (hevidence hl' _ rfl).trans (h.free n hn)
    · exact (hevidence hl _ rfl).trans (h.kept n hn)
  rcases hop.effect_beside h.outside with ⟨kind, he, he'⟩ | ⟨fs, fs', he, he', houtside⟩
  · refine .inl ⟨.error (mapIo kind), _, _, io_of_error h.left.quiet he,
      io_of_error h.right.quiet he', ?_⟩
    exact htwins _ _ (.inr (.inr rfl)) (.inr (.inr rfl)) h.outside
  · exact .of_ok (io_of_nil h.left.quiet he) (io_of_nil h.right.quiet he')
      (htwins _ _ (.inl he) (.inl he') houtside)

theorem Beside.alike_getStore (h : Beside s c) : getStore.Alike s getStore c :=
  ⟨.ok s.store, rfl, congrArg (Outcome.ok · c) h.store⟩

/-- What is not evidence is there for both twins, or for neither. -/
theorem Beside.alike_pathExists (h : Beside s c) (hpath : path.head? ≠ some evidenceName) :
    (pathExists path).Alike s (pathExists path) c := by
  refine ⟨.ok (s.disk.fs.present path), rfl, congrArg (Outcome.ok · c) ?_⟩
  simp only [Fs.present, h.outside path hpath]

theorem Beside.alike_pathIsDir (h : Beside s c) (hpath : path.head? ≠ some evidenceName) :
    (pathIsDir path).Alike s (pathIsDir path) c :=
  ⟨.ok (s.disk.fs.isDir path), rfl,
    congrArg (Outcome.ok · c) (Fs.isDir_congr (h.outside path hpath))⟩

/-- Two runs clean up, until a name is taken. -/
theorem cleanup_tracks (h : Twins s₀ s c) :
    (cleanupUnreferencedStaging P file generation).Tracks (Twins s₀) .ioFailure
      (fun c => Clash s₀ c.core) s (cleanupUnreferencedStaging P file generation) c := by
  have hstores : ∀ rest : Path, (storesName :: rest).head? ≠ some evidenceName :=
    fun _ => stores_head
  refine .bind_of_unstopped (.of_alike h.alike_getStore h) fun store s' c' hs hc h => ?_
  obtain ⟨rfl, rfl⟩ := Outcome.ok.inj hs
  rw [h.storeId]
  refine .bind_of_unstopped (.of_alike (h.toBeside.alike_pathExists (hstores _)) h)
    fun found s' c' _ _ h => .ite (fun _ => ?_) fun _ => .pure h
  have hsession := h.toBeside.sameSession h.left.quiet h.right.quiet
  refine .bind_of_unstopped (.of_alike (hsession.alike_priorGeneration (h.outside _ (hstores _))) h)
    fun prior s' c' _ _ h => ?_
  refine .bind_of_unstopped (.of_alike (h.toBeside.alike_readDir h.left.quiet h.right.quiet
    (List.cons_ne_nil _ _) (hstores _)) h) fun names s' c' _ _ h => ?_
  refine .forEach (fun name s c h => ?_) (fun names t ht => Act.Keeps.state (Act.Keeps.forEach names
    fun name _ => ?_) ht) names h
  · refine .bind_of_unstopped (.of_alike (h.toBeside.alike_pathIsDir (hstores _)) h)
      fun isDir s' c' _ _ h => .ite (fun _ => ?_) fun _ => .pure h
    refine .bind (preserveEvidenceDirectory_tracks h (List.cons_ne_nil _ _) (hstores _))
      (fun _ s' c' _ _ h => ?_) fun _ t ht => (keeps_io (clash_recoverKeeps.recovers _ (.remove name))).state ht
    exact (h.tracks_io (.remove name)).mono (fun _ _ => id) fun _ => False.elim
  · refine Act.Keeps.bind keeps_pathIsDir fun _ _ => Act.Keeps.ite (fun _ => ?_) fun _ =>
      .pure trivial
    exact .bind clash_evidenceKeeps.keeps_preserveEvidenceDirectory fun _ _ =>
      keeps_io (clash_recoverKeeps.recovers _ (.remove name))

section Recover

variable {s₀ : Sys}

/-- Both twins read the same through a pointer. -/
theorem Twins.alike_readFromPointer (h : Twins s₀ s c) (name : Text) :
    (readFromPointer P (fileItem s₀.store.storeId file name) file).Alike s
      (readFromPointer P (fileItem s₀.store.storeId file name) file) c := by
  have hstores : ∀ rest : Path, (storesName :: rest).head? ≠ some evidenceName :=
    fun _ => stores_head
  have hsession := h.toBeside.sameSession h.left.quiet h.right.quiet
  exact hsession.alike_readFromPointer (.inl (h.outside _ (hstores _)))
    fun _ _ _ => h.outside _ (hstores _)

theorem Twins.alike_commitGeneration (h : Twins s₀ s c) (name : Text) :
    (commitGeneration P (fileItem s₀.store.storeId file name) file).Alike s
      (commitGeneration P (fileItem s₀.store.storeId file name) file) c := by
  have hhead : (fileItem s₀.store.storeId file name).head? ≠ some evidenceName :=
    stores_head
  exact (h.toBeside.sameSession h.left.quiet h.right.quiet).alike_commitGeneration
    (.inl (h.outside _ hhead))

theorem recoverFromPriorPointer_tracks (h : Twins s₀ s c) : (recoverFromPriorPointer P file).Tracks
    (Twins s₀) .ioFailure (fun c => Clash s₀ c.core) s (recoverFromPriorPointer P file) c := by
  refine .bind_of_unstopped (.of_alike h.toBeside.alike_getStore h) fun store s' c' hs _ h => ?_
  obtain ⟨rfl, rfl⟩ := Outcome.ok.inj hs
  rw [h.storeId]
  refine .bind_of_unstopped (.of_alike (h.alike_readFromPointer previousName).attempt h)
    fun result s' c' _ _ h => ?_
  match result with
  | .error error => cases error <;> exact .throw h
  | .ok _ =>
    refine .bind_of_unstopped (.of_alike (h.alike_commitGeneration previousName) h)
      fun generation s' c' _ _ h => ?_
    have hcopy : RecoverOp s₀.store.storeId file (.copy (previousPath s₀.store.storeId file)
      (selectedPath s₀.store.storeId file)) := .copy
    have hwrite : ∀ op, WriteOp (· = markerPath (fileDir s₀.store.storeId file)) op →
        RecoverOp s₀.store.storeId file op := fun _ => .marker
    refine .bind_of_unstopped (h.tracks_io hcopy) fun _ s' c' _ _ h => ?_
    have hmarker : (flushDirectoryMarker (fileDir s₀.store.storeId file)).Tracks (Twins s₀)
        .ioFailure (fun _ => False) s' (flushDirectoryMarker (fileDir s₀.store.storeId file)) c' := by
      refine .bind_of_unstopped (h.tracks_io (hwrite _ (.create rfl))) fun _ s' c' _ _ h => ?_
      refine .bind_of_unstopped (h.tracks_io (hwrite _
        (@WriteOp.write (· = markerPath (fileDir s₀.store.storeId file)) _ rfl _)))
        fun _ s' c' _ _ h => ?_
      exact h.tracks_io (hwrite _ (.sync rfl))
    refine .bind_of_unstopped hmarker fun _ s' c' _ _ h => ?_
    exact .bind (cleanup_tracks h) (fun _ s' c' _ _ h => .pure h) fun _ _ ht => ht

theorem recoverSelectedFromPrior_tracks (h : Twins s₀ s c) :
    (recoverSelectedFromPrior P file).Tracks (Twins s₀) .ioFailure
      (fun c => Clash s₀ c.core) s (recoverSelectedFromPrior P file) c := by
  have hhead : (selectedPath s₀.store.storeId file).head? ≠ some evidenceName :=
    stores_head
  refine .bind_of_unstopped (.of_alike h.toBeside.alike_getStore h) fun store s' c' hs _ h => ?_
  obtain ⟨rfl, rfl⟩ := Outcome.ok.inj hs
  rw [h.storeId]
  refine .bind_of_unstopped (.of_alike (h.toBeside.alike_pathExists hhead) h)
    fun found s' c' _ _ h => .ite (fun _ => ?_) fun _ => recoverFromPriorPointer_tracks h
  refine .bind_of_unstopped (.of_alike (h.alike_readFromPointer selectedName).attempt h)
    fun result s' c' _ _ h => ?_
  match result with
  | .error error => cases error <;> exact .throw h
  | .ok _ =>
    refine .bind_of_unstopped (.of_alike (h.alike_commitGeneration selectedName) h)
      fun generation s' c' _ _ h => ?_
    exact .bind (cleanup_tracks h) (fun _ s' c' _ _ h => .pure h) fun _ _ ht => ht

omit s₀ in
/-- Recovery that fails with an error other than one of integrity takes no evidence of the file. -/
theorem recoverStore_of_err {error : StorageError} (hne : error ≠ .integrityFailure)
    (h : recoverSelectedFromPrior P file s = .err error t) :
    recoverStore P file s = .err error t := by
  refine (bind_of_ok (attempt_eq_ok.mpr (.inr ⟨error, rfl, h⟩))).trans ?_
  cases error <;> first | rfl | exact absurd rfl hne

omit s₀ in
theorem recoverStore_of_integrityFailure
    (h : recoverSelectedFromPrior P file s = .err .integrityFailure t) :
    recoverStore P file s =
      (preserveIntegrityEvidence P file >>= fun _ => throw StorageError.integrityFailure :
        Op RecoveryReport) t :=
  bind_of_ok (attempt_eq_ok.mpr (.inr ⟨StorageError.integrityFailure, rfl, h⟩))

/-- Two recoveries end alike, or the first one finds a name taken. -/
theorem recoverStore_tracks (h : Twins s₀ s c) : (recoverStore P file).Tracks
    (Twins s₀) .ioFailure (fun c => Clash s₀ c.core) s (recoverStore P file) c := by
  have hpreserve : Keeps (Clash s₀) (preserveIntegrityEvidence P file >>= fun _ =>
      throw StorageError.integrityFailure : Op RecoveryReport) := by
    refine .bind (R := fun _ => True) ?_ fun _ _ => .throw _
    exact .bind keeps_getStore fun _ _ =>
      clash_evidenceKeeps.keeps_preserveEvidenceDirectory
  have htracks : (recoverSelectedFromPrior P file).Tracks (Twins s₀) .ioFailure
      (fun c => Clash s₀ c.core) s (recoverSelectedFromPrior P file) c :=
    recoverSelectedFromPrior_tracks h
  rcases htracks with ⟨x, s', c', hs, hc, h'⟩ | ⟨⟨s', hs⟩, hclash⟩
  · cases x with
    | ok report => exact .of_ok (recoverStore_of_ok hs) (recoverStore_of_ok hc) h'
    | error error =>
      by_cases herror : error = .integrityFailure
      · subst herror
        have hevidence : (preserveIntegrityEvidence P file).Tracks (Twins s₀) .ioFailure
            (fun c => Clash s₀ c.core) s' (preserveIntegrityEvidence P file) c' := by
          refine .bind_of_unstopped (.of_alike h'.toBeside.alike_getStore h')
            fun store s' c' _ _ h => ?_
          exact preserveEvidenceDirectory_tracks h (List.cons_ne_nil _ _) stores_head
        have hrest := hevidence.bind (f := fun _ => throw StorageError.integrityFailure)
          (g := fun _ => (throw StorageError.integrityFailure : Op RecoveryReport))
          (fun _ _ _ _ _ h => .throw h) fun _ _ ht => ht
        unfold Act.Tracks at hrest ⊢
        rwa [recoverStore_of_integrityFailure hs, recoverStore_of_integrityFailure hc]
      · exact .inl ⟨.error error, s', c', recoverStore_of_err herror hs,
          recoverStore_of_err herror hc, h'⟩
  · refine .stopped (recoverStore_of_err (by decide) hs) ?_
    cases hc : recoverSelectedFromPrior P file c with
    | ok report c' =>
      rw [hc] at hclash
      rwa [recoverStore_of_ok hc]
    | err error c' =>
      rw [hc] at hclash
      by_cases herror : error = .integrityFailure
      · subst herror
        rw [recoverStore_of_integrityFailure hc]
        exact hpreserve.state hclash
      · rwa [recoverStore_of_err herror hc]
    | crash c' =>
      rw [hc] at hclash
      have hattempt : Act.attempt (recoverSelectedFromPrior P file) c = .crash c' := by
        rw [attempt_apply, hc]
      rwa [recoverStore, bind_of_crash hattempt]

end Recover

/-! ### Runs -/

/-- The same state without any evidence on the disk. -/
def Sys.withoutEvidence (s : Sys) : Sys :=
  s.withDisk { s.disk with fs := s.disk.fs.eraseAll (s.disk.fs.under evidenceRoot) }

theorem get_withoutEvidence {q : Path} : s.withoutEvidence.disk.fs[q]? =
      if q.head? = some evidenceName then none else s.disk.fs[q]? := by
  refine (Fs.get_eraseAll _).trans ?_
  by_cases hq : q.head? = some evidenceName
  · rw [if_pos hq]
    by_cases hsome : s.disk.fs[q]?.isSome
    · refine if_pos (Fs.mem_under.mpr ⟨?_, hsome⟩)
      obtain ⟨rest, rfl⟩ := List.head?_eq_some_iff.mp hq
      exact ⟨rest, rfl⟩
    · rw [if_neg fun hm => hsome (Fs.mem_under.mp hm).2]
      exact Option.not_isSome_iff_eq_none.mp hsome
  · rw [if_neg hq]
    refine if_neg fun hm => hq ?_
    obtain ⟨rest, rfl⟩ := (Fs.mem_under.mp hm).1
    rfl

/-- A state and the same state without evidence. -/
theorem twins_withoutEvidence (h : EvidenceInOrder s) : Twins s s s.withoutEvidence where
  store := rfl
  outside _ hq := get_withoutEvidence.trans (if_neg hq)
  storeId := rfl
  left := h
  right := ⟨h.quiet, fun q node hq hnode => by
    rw [get_withoutEvidence, if_pos hq] at hnode
    cases hnode⟩
  next := rfl
  later := le_rfl
  free _ _ := get_withoutEvidence.trans (if_pos rfl)
  kept _ _ := rfl
  unclashed _ hle hlt := absurd hlt (not_lt.mpr hle)

theorem evidenceFits_invariant {keys : StoreId → StoreKey} :
    DiskInvariant keys fun fs _ _ => EvidenceFits fs :=
  ⟨fun hop hl h q node hq hnode => (hop.suits.leaves hl hnode).elim (h q node hq) id,
    fun _ h => h, fun h => h⟩

namespace World

/-- When the disk is changed from outside, the evidence is left alone. -/
def SparesEvidence (w : World) : Input → Prop
  | .tamper fs => ∀ q : Path, q.head? = some evidenceName → fs[q]? = w.sys.disk.fs[q]?
  | _ => True

/-- However the processes before it ended, a process finds the evidence laid out as the code does
it. -/
theorem evidence_run {w₀ : World} (hfresh : w₀.Fresh) {inputs : List Input}
    (hspares : w₀.Along P SparesEvidence inputs) : EvidenceFits (w₀.run P inputs).sys.disk.fs := by
  refine along_induction (I := fun w => EvidenceFits w.sys.disk.fs) (fun w i hi h => ?_) inputs
    hspares ?_
  · by_cases htamper : ∃ fs, i = .tamper fs
    · obtain ⟨fs, rfl⟩ := htamper
      exact fun q node hq hnode => h q node hq ((hi q hq).symm.trans hnode)
    · have hI : DiskInvariant (fun _ => w.sys.store.key) fun fs _ _ => EvidenceFits fs :=
        evidenceFits_invariant
      exact disk_step hI (fun fs heq => htamper ⟨fs, heq⟩) (fun _ => rfl) (fun _ => h) h
  · intro q node _ hnode
    rw [hfresh.1, Map.get_empty] at hnode
    cases hnode

end World

section Results

variable {w₀ : World} {inputs : List Input}

/-- A process flushes a file three times and recovers it, and a second process flushes it once
more. -/
def twoLifetimes : List Input :=
  [.start, .openStore soleIdentity zeroKey, .call (.write soleFile [1]), .call (.flushFile soleFile),
    .call (.write soleFile [2]), .call (.flushFile soleFile), .call (.write soleFile [3]),
    .call (.flushFile soleFile), .call (.recoverStore soleFile), .start,
    .openStore soleIdentity zeroKey, .call (.write soleFile [4]), .call (.flushFile soleFile)]

/-- The state in which the second process recovers. -/
def secondRecovery : Sys := ((World.empty []).run .plain twoLifetimes).sys.quiet

end Results

end Wdlp
