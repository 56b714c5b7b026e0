import Wdlp.Drive.Paging
import Wdlp.Drive.Steps
import Wdlp.Lib.Runs

/-!
# File contexts and handles

Each file context that the drive hands out owns one handle of the store, which is closed with the
context. The handle is opened before the information about the file is read; when that fails, the
callback fails, and no context owns the handle. As long as this does not happen, the handles of the
store are exactly those that open contexts own.

## Main definitions

* `Drive.OwnsHandles` — the handles of the store are those that open contexts own.
* `Drive.Balanced` — the handles are those of open contexts and those that were left behind.

## Main results

* `Drive.Balanced.takes` — what a callback does to the handles.
* `Drive.run_refines_calls` — runs of callbacks are runs of calls.
* `Drive.handles_owned_iff` — over a run, all handles are owned iff no callback leaves one behind.
-/

namespace Wdlp

open CrashSafe Act Function

variable {P : Primitives} {U : LowerCase} {F : DirInfoFormat}

namespace Drive

/-- A context that is open owns the handle. -/
def Owns (d : Drive) (number : ℕ) : Prop :=
  ∃ (m : ℕ) (context : DlpFileHandle), d.contexts[m]? = some context ∧
    context.handle = some ⟨number⟩

/-- As long as the process runs, the handles of its store are those that open contexts own. -/
def OwnsHandles (d : Drive) : Prop :=
  d.world.phase = .opened → ∀ number, number ∈ d.world.sys.store.handles ↔ d.Owns number

/-- The handles are those of the contexts and those that were left behind. To keep track of them,
the tree of names is sound, and every context has a number and a handle of its own. -/
structure Balanced (lost : ℕ → Prop) (d : Drive) : Prop where
  wellFormed : d.names.WellFormed
  named : ∀ (m : ℕ) (context : DlpFileHandle), d.contexts[m]? = some context → context.Named
  numbered : ∀ (m : ℕ) (context : DlpFileHandle), d.contexts[m]? = some context →
    m < d.nextContext
  owned : ∀ number, d.names.handles number ≠ none ↔ d.Owns number ∨ lost number
  unowned : ∀ number, lost number → ¬d.Owns number
  apart : ∀ (m m' : ℕ) (context context' : DlpFileHandle) (handle : FileHandle),
    d.contexts[m]? = some context → d.contexts[m']? = some context' →
      context.handle = some handle → context'.handle = some handle → m = m'

end Drive

/-! ### What the callbacks do to the handles -/

section Effects

variable {A : Names → Change → Prop} {v v' : View} {s : Sys} {path : ParsedPath} {number : ℕ}

theorem View.Opened.handles_eq (h : View.Opened P v path true v') :
    v'.names.handles = update v.names.handles v.names.nextHandle
      (some { pathKey := path.1.lookupKey, allowDelete := true }) := by
  obtain ⟨v₁, hfound, hmarked⟩ := h
  have hhandles : v₁.names.handles = v.names.handles := by
    cases hfound with
    | found hf => rfl
    | made hmade => exact (congrArg Names.handles hmade.names_eq).trans rfl
  rw [hmarked.names_eq, ← hhandles, ← hfound.nextHandle_eq]
  rfl

theorem View.Opened.wellFormed (h : View.Opened P v path true v') (hv : v.names.WellFormed) :
    v'.names.WellFormed :=
  (h.moves (A := fun _ _ => True) (fun _ _ => trivial) fun _ => trivial).steps.wellFormed hv

/-- A handle is closed whether or not its file could be removed. -/
theorem View.Closed.handles_eq (h : View.Closed P v number v') :
    v'.names.handles = update v.names.handles number none := by
  cases h with
  | closed h => exact congrArg Names.handles h.names_eq
  | removed h hremoved =>
    exact (congrArg Names.handles hremoved.names_eq).trans (congrArg Names.handles h.names_eq)

theorem View.ClosedInPart.handles_eq (h : View.ClosedInPart P A v number v') :
    v'.names.handles = update v.names.handles number none := by
  cases h with
  | unknown h => rw [← h, update_eq_self]
  | stays h hfailed =>
    exact (congrArg Names.handles hfailed.names_eq).trans (congrArg Names.handles h.names_eq)

theorem View.Closed.wellFormed (h : View.Closed P v number v') (hv : v.names.WellFormed) :
    v'.names.WellFormed :=
  (h.moves (A := fun _ _ => True) trivial fun _ _ => trivial).steps.wellFormed hv

theorem View.Deleted.handles_eq {key : Text} (h : View.Deleted P v key v') :
    v'.names.handles = v.names.handles := by
  cases h with
  | directory h => exact (congrArg Names.handles h.names_eq).trans rfl
  | file hdir h => exact (congrArg Names.handles h.names_eq).trans rfl
  | pending hdir h => exact (congrArg Names.handles h.names_eq).trans rfl

/-- Where a rename moves a key. -/
def Names.movedBy (n : Names) (source destination key : Text) : Text :=
  if n.directories source = none then if key = source then destination else key
  else if isInside source key then movedKey source destination key else key

variable {source destination : ParsedPath} {replace : Bool}

theorem Vacated.handles_eq {u : Sys} (h : Vacated P s source destination replace u) :
    u.view.names.handles = s.view.names.handles := by
  cases h with
  | absent h => rfl
  | deleted _ _ _ hdeleted => exact hdeleted.handles_eq

/-- A rename moves the handles on what it moves. -/
theorem Renamed.handles_eq (h : Renamed P s source destination replace v') :
    v'.names.handles = Change.moveHandles
      (s.view.names.movedBy source.1.lookupKey destination.1.lookupKey) s.view.names.handles := by
  obtain ⟨u, hvacated, hmoved⟩ := h
  rw [hmoved.names_eq, ← hvacated.handles_eq, Names.moving]
  cases hdir : s.view.names.directories source.1.lookupKey with
  | none =>
    have hmove : s.view.names.movedBy source.1.lookupKey destination.1.lookupKey =
        fun key => if key = source.1.lookupKey then destination.1.lookupKey else key :=
      funext fun key => if_pos hdir
    rw [hmove]
    rfl
  | some display =>
    have hmove : s.view.names.movedBy source.1.lookupKey destination.1.lookupKey =
        fun key => if isInside source.1.lookupKey key then
          movedKey source.1.lookupKey destination.1.lookupKey key else key :=
      funext fun key => if_neg (by rw [hdir]; exact Option.some_ne_none _)
    rw [hmove]
    rfl

theorem RenamedInPart.handles_eq (h : RenamedInPart P A s source destination replace v') :
    v'.names.handles = s.view.names.handles := by
  cases h with
  | same _ h => rw [h.names_eq]
  | deleted _ _ _ hdeleted h => rw [h.names_eq, hdeleted.handles_eq]

end Effects

namespace Drive

variable {lost : ℕ → Prop} {d d' : Drive} {s : Sys}

/-! ### Callbacks -/

section

variable (h : d.Balanced lost)

include h

/-- Contexts with the same handles own the same handles. -/
theorem Balanced.of_same (hwf : d'.names.WellFormed)
    (hopen : ∀ number, d'.names.handles number ≠ none ↔ d.names.handles number ≠ none)
    (hnamed : ∀ (m : ℕ) (context : DlpFileHandle), d'.contexts[m]? = some context → context.Named)
    (hsame : ∀ m : ℕ, d'.contexts[m]?.map DlpFileHandle.handle =
      d.contexts[m]?.map DlpFileHandle.handle)
    (hnext : d'.nextContext = d.nextContext) : d'.Balanced lost := by
  have hback : ∀ (m : ℕ) (context : DlpFileHandle), d'.contexts[m]? = some context →
      ∃ before : DlpFileHandle, d.contexts[m]? = some before ∧ before.handle = context.handle := by
    intro m context hcontext
    have hm := hsame m
    rw [hcontext] at hm
    exact Option.map_eq_some_iff.mp hm.symm
  have hforth : ∀ (m : ℕ) (context : DlpFileHandle), d.contexts[m]? = some context →
      ∃ later : DlpFileHandle, d'.contexts[m]? = some later ∧ later.handle = context.handle := by
    intro m context hcontext
    have hm := hsame m
    rw [hcontext] at hm
    exact Option.map_eq_some_iff.mp hm
  have howns : ∀ number, d.Owns number ↔ d'.Owns number := by
    intro number
    constructor
    · rintro ⟨m, context, hcontext, hhandle⟩
      obtain ⟨later, hlater, heq⟩ := hforth m context hcontext
      exact ⟨m, later, hlater, heq.trans hhandle⟩
    · rintro ⟨m, context, hcontext, hhandle⟩
      obtain ⟨before, hbefore, heq⟩ := hback m context hcontext
      exact ⟨m, before, hbefore, heq.trans hhandle⟩
  refine ⟨hwf, hnamed, fun m context hcontext => ?_, fun number => ?_, fun number hlost => ?_, ?_⟩
  · obtain ⟨before, hbefore, -⟩ := hback m context hcontext
    rw [hnext]
    exact h.numbered m before hbefore
  · rw [hopen, h.owned, howns]
  · rw [← howns]
    exact h.unowned number hlost
  · intro m m' context context' handle hm hm' hhandle hhandle'
    obtain ⟨before, hbefore, heq⟩ := hback m context hm
    obtain ⟨before', hbefore', heq'⟩ := hback m' context' hm'
    exact h.apart m m' before before' handle hbefore hbefore' (heq.trans hhandle)
      (heq'.trans hhandle')

/-- The number of the next handle is not in use. -/
theorem Balanced.next_free : ¬(d.Owns d.names.nextHandle ∨ lost d.names.nextHandle) := by
  rw [← h.owned]
  exact fun hin => Nat.lt_irrefl _ (h.wellFormed.numbered _ hin)

variable {context : DlpFileHandle}

/-- A context was opened. -/
theorem Balanced.opened (hwf : d'.names.WellFormed) (hnamed : context.Named)
    (hhandles : (context.handle = none ∧ d'.names.handles = d.names.handles) ∨
      ∃ state, context.handle = some ⟨d.names.nextHandle⟩ ∧
        d'.names.handles = update d.names.handles d.names.nextHandle (some state))
    (hcontexts : d'.contexts = d.contexts.insert d.nextContext context)
    (hnext : d'.nextContext = d.nextContext + 1) : d'.Balanced lost := by
  have hnew : ∀ number, context.handle = some ⟨number⟩ → ¬(d.Owns number ∨ lost number) := by
    intro number hnumber
    rcases hhandles with ⟨hnone, -⟩ | ⟨-, hsome, -⟩
    · cases hnone.symm.trans hnumber
    · cases hsome.symm.trans hnumber
      exact h.next_free
  have hcases : ∀ (m : ℕ) (found : DlpFileHandle),
      d'.contexts[m]? = some found →
        (m = d.nextContext ∧ found = context) ∨ d.contexts[m]? = some found := by
    intro m found hfound
    rw [hcontexts, Map.get_insert] at hfound
    split_ifs at hfound with hm
    · exact .inl ⟨hm.symm, (Option.some.inj hfound).symm⟩
    · exact .inr hfound
  have hkept : ∀ (m : ℕ) (found : DlpFileHandle), d.contexts[m]? = some found →
      d'.contexts[m]? = some found := by
    intro m found hfound
    rw [hcontexts, Map.get_insert_of_ne (Nat.ne_of_lt (h.numbered m found hfound))]
    exact hfound
  have howns : ∀ number, d'.Owns number ↔
      d.Owns number ∨ context.handle = some ⟨number⟩ := by
    intro number
    constructor
    · rintro ⟨m, found, hfound, hhandle⟩
      rcases hcases m found hfound with ⟨-, rfl⟩ | hold
      · exact .inr hhandle
      · exact .inl ⟨m, found, hold, hhandle⟩
    · rintro (⟨m, found, hfound, hhandle⟩ | hhandle)
      · exact ⟨m, found, hkept m found hfound, hhandle⟩
      · exact ⟨d.nextContext, context, hcontexts ▸ Map.get_insert_self, hhandle⟩
  refine ⟨hwf, fun m found hfound => ?_, fun m found hfound => ?_, fun number => ?_,
    fun number hlost => ?_, ?_⟩
  · rcases hcases m found hfound with ⟨-, rfl⟩ | hold
    · exact hnamed
    · exact h.named m found hold
  · rw [hnext]
    rcases hcases m found hfound with ⟨rfl, -⟩ | hold
    · exact Nat.lt_succ_self _
    · exact Nat.lt_succ_of_lt (h.numbered m found hold)
  · rw [howns, or_right_comm, ← h.owned]
    rcases hhandles with ⟨hnone, hsame⟩ | ⟨state, hsome, hupdate⟩
    · rw [hsame, hnone]
      simp
    · rw [hupdate, hsome, update_apply]
      split_ifs with hnumber
      · simp [hnumber]
      · simp [Ne.symm hnumber]
  · rw [howns]
    rintro (hold | hown)
    · exact h.unowned number hlost hold
    · exact hnew number hown (.inr hlost)
  · intro m m' found found' handle hm hm' hhandle hhandle'
    rcases hcases m found hm with ⟨rfl, rfl⟩ | hold <;>
      rcases hcases m' found' hm' with ⟨rfl, rfl⟩ | hold'
    · rfl
    · exact absurd (.inl ⟨m', found', hold', hhandle'⟩) (hnew handle.number hhandle)
    · exact absurd (.inl ⟨m, found, hold, hhandle⟩) (hnew handle.number hhandle')
    · exact h.apart m m' found found' handle hold hold' hhandle hhandle'

/-- A context was closed, and its handle with it. -/
theorem Balanced.closed {m : ℕ}
    (hcontext : d.contexts[m]? = some context) (hwf : d'.names.WellFormed)
    (hhandles : (context.handle = none ∧ d'.names.handles = d.names.handles) ∨
      ∃ handle, context.handle = some handle ∧
        d'.names.handles = update d.names.handles handle.number none)
    (hcontexts : d'.contexts = d.contexts.erase m) (hnext : d'.nextContext = d.nextContext) :
    d'.Balanced lost := by
  have hcases : ∀ (k : ℕ) (found : DlpFileHandle), d'.contexts[k]? = some found ↔
      k ≠ m ∧ d.contexts[k]? = some found := by
    intro k found
    rw [hcontexts, Map.get_erase]
    split_ifs with hk
    · simp [hk]
    · simp [Ne.symm hk]
  have howns : ∀ number, d'.Owns number ↔
      d.Owns number ∧ context.handle ≠ some ⟨number⟩ := by
    intro number
    constructor
    · rintro ⟨k, found, hfound, hhandle⟩
      obtain ⟨hk, hold⟩ := (hcases k found).mp hfound
      exact ⟨⟨k, found, hold, hhandle⟩, fun heq => hk
        (h.apart k m found context _ hold hcontext hhandle heq)⟩
    · rintro ⟨⟨k, found, hfound, hhandle⟩, hother⟩
      refine ⟨k, found, (hcases k found).mpr ⟨?_, hfound⟩, hhandle⟩
      rintro rfl
      cases hfound.symm.trans hcontext
      exact hother hhandle
  refine ⟨hwf, fun k found hfound => h.named k found ((hcases k found).mp hfound).2,
    fun k found hfound => hnext ▸ h.numbered k found ((hcases k found).mp hfound).2,
    fun number => ?_,
    fun number hlost howned => h.unowned number hlost ((howns number).mp howned).1, ?_⟩
  · rw [howns]
    rcases hhandles with ⟨hnone, hsame⟩ | ⟨handle, hsome, hupdate⟩
    · rw [hsame, hnone, h.owned]
      simp
    · obtain ⟨own⟩ := handle
      have hkept : ¬lost own := fun hlost => h.unowned own hlost ⟨m, context, hcontext, hsome⟩
      rw [hupdate, hsome, update_apply]
      split_ifs with hnumber
      · simp [hnumber, hkept]
      · rw [h.owned]
        simp [Ne.symm hnumber]
  · intro k k' found found' handle hk hk' hhandle hhandle'
    exact h.apart k k' found found' handle ((hcases k found).mp hk).2 ((hcases k' found').mp hk').2
      hhandle hhandle'

/-- A context was updated without giving up its handle. -/
theorem Balanced.updated {m : ℕ} {context context' : DlpFileHandle}
    (hcontext : d.contexts[m]? = some context)
    (hcontexts : d'.contexts = d.contexts.insert m context')
    (hnext : d'.nextContext = d.nextContext) (hwf : d'.names.WellFormed)
    (hopen : ∀ number, d'.names.handles number ≠ none ↔ d.names.handles number ≠ none)
    (hnamed : context'.Named) (hhandle : context'.handle = context.handle) : d'.Balanced lost := by
  refine h.of_same hwf hopen (fun k found hfound => ?_) (fun k => ?_) hnext
  · rw [hcontexts, Map.get_insert] at hfound
    split_ifs at hfound
    · cases hfound
      exact hnamed
    · exact h.named k found hfound
  · rw [hcontexts, Map.get_insert]
    split_ifs with hk
    · rw [← hk, hcontext, Option.map_some, Option.map_some, hhandle]
    · rfl

end

theorem moveHandles_ne_none {move : Text → Text} {handles : ℕ → Option HandleState} {number : ℕ} :
    Change.moveHandles move handles number ≠ none ↔ handles number ≠ none := by
  rw [Change.moveHandles, ne_eq, Option.map_eq_none_iff]

/-- A callback that leaves a handle behind fails. -/
theorem Leaks.openFile_eq {fileName : Text} (h : Leaks P fileName s) :
    ∃ e t, openFile P fileName s = .err e t := by
  obtain ⟨path, handle, u, e, t, hpath, hfile, hopened, hinfo⟩ := h
  refine ⟨e, t, ?_⟩
  have hfound : (Act.ofExcept (virtualPath fileName) : Callback (Option VirtualPath)) s =
      .ok (some path) s := ofExcept_eq_ok.mpr ⟨hpath, rfl⟩
  have hstore : stored getStore s = .ok s.store s := rfl
  have hhandle : stored (createOrOpen P path false true) s = .ok handle u :=
    zoom_eq_ok.mpr ⟨u, hopened, rfl⟩
  rw [openFile, bind_of_ok hfound, bind_of_ok hstore, if_neg (by simp [hfile])]
  exact (bind_of_ok hhandle).trans (bind_of_err hinfo)

variable {path : ParsedPath}

/-- A handle was left behind. -/
theorem Balanced.leaked (h : d.Balanced lost)
    (hopened : HandleOpened P d.world.sys path d'.names) (hcontexts : d'.contexts = d.contexts)
    (hnext : d'.nextContext = d.nextContext) :
    d'.Balanced fun number => lost number ∨ number = d.names.nextHandle := by
  obtain ⟨v, hv, hnames⟩ := hopened
  have hfree := not_or.mp h.next_free
  have howns : ∀ number, d'.Owns number ↔ d.Owns number := fun number => by
    rw [Owns, hcontexts, Owns]
  refine ⟨hnames ▸ hv.wellFormed h.wellFormed, hcontexts ▸ h.named, ?_, fun number => ?_, ?_,
    hcontexts ▸ h.apart⟩
  · rw [hcontexts, hnext]
    exact h.numbered
  · rw [hnames, hv.handles_eq, howns, ← or_assoc, ← h.owned, names, update_apply]
    split_ifs with hnumber <;> simp [hnumber]
  · rintro number (hlost | rfl) hown
    · exact h.unowned number hlost ((howns number).mp hown)
    · exact hfree.1 ((howns _).mp hown)

variable {request : Request}

/-- What a callback does keeps the handles accounted for; it may add one that no context owns. -/
theorem Balanced.takes (h : d.Balanced lost) (ht : Takes P d d' request) :
    d'.Balanced lost ∨ (∃ fileName, request = .openFile fileName ∧ Leaks P fileName d.world.sys) ∧
    d'.Balanced fun number => lost number ∨ number = d.names.nextHandle := by
  have hsame : d'.contexts = d.contexts → d'.nextContext = d.nextContext →
      d'.names.WellFormed → d'.names.handles = d.names.handles → d'.Balanced lost := by
    intro hcontexts hnext hwf hhandles
    exact h.of_same hwf (fun number => by rw [hhandles]) (hcontexts ▸ h.named)
      (fun m => by rw [hcontexts]) hnext
  cases ht with
  | same _ hnames hcontexts hnext =>
    exact .inl (hsame hcontexts hnext (hnames ▸ h.wellFormed) (congrArg Names.handles hnames))
  | opened _ hhandle hcontexts hnext =>
    obtain ⟨v, hv, hnames⟩ := hhandle
    exact .inl (h.opened (hnames ▸ hv.wellFormed h.wellFormed) (.inl ⟨_, rfl⟩)
      (.inr ⟨_, rfl, hnames ▸ hv.handles_eq⟩) hcontexts hnext)
  | entered _ hnamed hhandle hnames hcontexts hnext =>
    refine .inl (h.opened ?_ hnamed (.inl ⟨hhandle, ?_⟩) hcontexts hnext)
    · rcases hnames with hnames | ⟨path, hmade⟩
      · exact hnames ▸ h.wellFormed
      · rw [names, hmade.names_eq]
        exact h.wellFormed.apply hmade.enabled
    · rcases hnames with hnames | ⟨path, hmade⟩
      · exact congrArg Names.handles hnames
      · exact (congrArg Names.handles hmade.names_eq).trans rfl
  | leaked hleak hhandle hcontexts hnext =>
    exact .inr ⟨⟨_, rfl, hleak⟩, h.leaked hhandle hcontexts hnext⟩
  | closed hcontext hnames hcontexts hnext =>
    refine .inl (h.closed hcontext ?_ ?_ hcontexts hnext)
    · rcases hnames with ⟨-, hnames⟩ | ⟨handle, -, hclosed | hclosed⟩
      · exact hnames ▸ h.wellFormed
      · exact hclosed.wellFormed h.wellFormed
      · exact (hclosed.steps trivial).wellFormed h.wellFormed
    · rcases hnames with ⟨hnone, hnames⟩ | ⟨handle, hsome, hclosed | hclosed⟩
      · exact .inl ⟨hnone, congrArg Names.handles hnames⟩
      · exact .inr ⟨handle, hsome, hclosed.handles_eq⟩
      · exact .inr ⟨handle, hsome, hclosed.handles_eq⟩
  | cleaned hcontext hpath hdeleted hcontexts hnext =>
    exact .inl (hsame hcontexts hnext (hdeleted.wellFormed h.wellFormed) hdeleted.handles_eq)
  | renamed hcontext hpath hrun hrenamed hcontexts hnext =>
    refine .inl (h.updated hcontext hcontexts hnext ?_ (fun number => ?_) (.inl ⟨_, rfl⟩) rfl)
    · exact (hrenamed.moves (A := fun _ _ => True)
        ⟨fun _ _ => trivial, fun _ _ => trivial⟩).steps.wellFormed h.wellFormed
    · rw [names, hrenamed.handles_eq, moveHandles_ne_none]
      rfl
  | renamedInPart hcontext hpath hpart hcontexts hnext =>
    exact .inl (hsame hcontexts hnext ((hpart.steps
      ⟨fun _ _ => trivial, fun _ _ => trivial⟩).wellFormed h.wellFormed) hpart.handles_eq)
  | requested hcontext hnames hcontexts hnext =>
    have hnamed := h.named _ _ hcontext
    exact .inl (h.updated hcontext hcontexts hnext (hnames ▸ h.wellFormed)
      (fun number => by rw [hnames]) hnamed rfl)

/-- A callback keeps the handles owned, unless it leaves one behind. -/
theorem Balanced.step (hP : P.Correct) (h : d.Balanced lost) (hopened : d.world.phase = .opened)
    (hleak : ∀ fileName, request = .openFile fileName → ¬Leaks P fileName d.world.sys)
    (hphase : (d.step P U F request).world.phase = .opened) :
    (d.step P U F request).Balanced lost := by
  rcases h.takes (step_takes hP h.wellFormed h.named hopened hphase) with hnext |
    ⟨⟨fileName, heq, hleaks⟩, -⟩
  · exact hnext
  · exact absurd hleaks (hleak fileName heq)

/-- After any callback, the handles are those of the contexts and those that were left behind. -/
theorem Balanced.step_any (hP : P.Correct) (h : d.Balanced lost) (hopened : d.world.phase = .opened)
    (hphase : (d.step P U F request).world.phase = .opened) : ∃ lost',
    (d.step P U F request).Balanced lost' := by
  rcases h.takes (step_takes hP h.wellFormed h.named hopened hphase) with hnext | ⟨-, hnext⟩
  · exact ⟨_, hnext⟩
  · exact ⟨_, hnext⟩

/-! ### Runs -/

theorem mem_handles {number : ℕ} :
    number ∈ d.world.sys.store.handles ↔ d.names.handles number ≠ none := by
  rw [Map.mem_iff_get, ← Option.ne_none_iff_exists']
  rfl

theorem Balanced.ownsHandles (h : d.Balanced fun _ => False) : d.OwnsHandles :=
  fun _ number => mem_handles.trans ((h.owned number).trans (or_false _).to_iff)

/-- The callback leaves no handle behind that no context owns. -/
def LeavesNone (P : Primitives) (d : Drive) (request : Request) : Prop :=
  d.world.phase = .opened → ∀ fileName, request = .openFile fileName →
    ¬Leaks P fileName d.world.sys

/-- The handle that was left behind has no owner. -/
theorem Balanced.not_ownsHandles (hP : P.Correct) (h : d.Balanced lost)
    (hopened : d.world.phase = .opened) {fileName : Text}
    (hleak : Leaks P fileName d.world.sys) : ¬(d.step P U F (.openFile fileName)).OwnsHandles := by
  obtain ⟨e, s, hrun⟩ := hleak.openFile_eq
  rw [step_openFile hopened, hrun]
  have hw := @openFile_wp P fileName d.world.sys hP
  intro howned
  rcases err_of_wp hw hrun with ⟨hnot, -⟩ | ⟨-, path, v, hv, hnames⟩
  · exact hnot hleak
  · refine h.next_free (.inl ((howned rfl d.names.nextHandle).mp (mem_handles.mpr ?_)))
    change s.view.names.handles d.names.nextHandle ≠ none
    rw [hnames, hv.handles_eq, names, update_self]
    exact Option.some_ne_none _

/-- A file that no handle is open on is deleted at once. -/
theorem deleted_at_once (hP : P.Correct) {t : Sys}
    (hfile : s.store.isDirectory path.1 = false) (hclosed : ¬s.view.names.Open path.1.lookupKey)
    (h : delete P path.1 s = .ok () t) : path.1.lookupKey ∉ t.store.files := by
  have hdir : s.view.names.directories path.1.lookupKey = none :=
    not_not.mp fun hne => by
      have htrue : s.store.isDirectory path.1 = true := isDirectory_iff.mpr hne
      cases hfile.symm.trans htrue
  have hdelete := @delete_wp P (fun _ _ => True) s path hP fun _ _ => trivial
  refine (@not_mem_files _ _ t.counters.nextHandle).mpr ?_
  change t.view.names.files path.1.lookupKey = none
  cases ok_of_wp hdelete h with
  | directory hdropped => exact absurd hdir hdropped.enabled.1
  | file _ hdropped =>
    rw [hdropped.names_eq]
    exact update_self ..
  | pending _ hmarked => exact absurd hmarked.enabled.2.1 hclosed

variable {keys : StoreId → StoreKey}

theorem Mounted.wellFormed (hP : P.Correct) (h : d.Mounted P keys) : d.names.WellFormed := by
  obtain ⟨w₀, inputs, identity, key, hfresh, hkeyed, rfl, hopened⟩ := h
  exact ((World.holds_run hP wellFormed_invariant hfresh hkeyed).live hopened).names

/-- A store that was just opened has no handles. -/
theorem Mounted.handles_eq (hP : P.Correct) (h : d.Mounted P keys) :
    d.world.sys.store.handles = ∅ := by
  obtain ⟨w₀, inputs, identity, key, hfresh, hkeyed, rfl, hopened⟩ := h
  have hbefore : ∀ i ∈ inputs, i.Keyed keys :=
    fun i hi => hkeyed i (List.mem_append_left _ hi)
  have hkey : key = keys identity.storeId := hkeyed _ (List.mem_append_right _ List.mem_cons_self)
  obtain ⟨loaded, hloads, -⟩ :=
    (World.holds_run hP wellFormed_invariant hfresh hbefore).stored.loads wellFormed_invariant hkey
  change (w₀.run P (inputs ++ [.openStore identity key])).phase = .opened at hopened
  change (w₀.run P (inputs ++ [.openStore identity key])).sys.store.handles = ∅
  rw [World.run_append, World.run_cons, World.run_nil, World.step] at hopened ⊢
  split_ifs at hopened ⊢ with hstopped
  · rw [hstopped] at hopened
    cases hopened
  · cases hrun : openStore P identity key (w₀.run P inputs).sys with
    | ok _ t =>
      change t.core.store.handles = ∅
      rw [openStore_eq_ok hrun hloads]
      exact hloads.handles_eq
    | err e t =>
      rw [hrun] at hopened
      cases hopened
    | crash t =>
      rw [hrun] at hopened
      cases hopened

theorem Mounted.balanced (hP : P.Correct) (h : d.Mounted P keys) : d.Balanced fun _ => False := by
  have hempty : d.contexts = ∅ := by
    obtain ⟨w₀, inputs, identity, key, -, -, rfl, -⟩ := h
    rfl
  have hnone : ∀ (m : ℕ) (context : DlpFileHandle), d.contexts[m]? ≠ some context := by
    intro m context
    rw [hempty, Map.get_empty]
    exact nofun
  refine ⟨h.wellFormed hP, fun m context hm => absurd hm (hnone m context),
    fun m context hm => absurd hm (hnone m context), fun number => ?_, fun _ => False.elim,
    fun m _ context _ _ hm => absurd hm (hnone m context)⟩
  rw [or_false]
  refine iff_of_false (fun hin => hin ?_) fun ⟨m, context, hm, _⟩ => hnone m context hm
  change d.world.sys.store.handles[number]? = none
  rw [h.handles_eq hP, Map.get_empty]

/-- A drive that callbacks lead to. -/
structure Reached (P : Primitives) (keys : StoreId → StoreKey) (d : Drive) : Prop where
  world : ∃ (w₀ : World) (inputs : List Input), w₀.Fresh ∧ (∀ i ∈ inputs, i.Keyed keys) ∧
    d.world = w₀.run P inputs
  balanced : d.world.phase = .opened → ∃ lost, d.Balanced lost

theorem Mounted.reached (hP : P.Correct) (h : d.Mounted P keys) : d.Reached P keys where
  world := by
    obtain ⟨w₀, inputs, identity, key, hfresh, hkeyed, rfl, -⟩ := h
    exact ⟨w₀, _, hfresh, hkeyed, rfl⟩
  balanced _ := ⟨_, h.balanced hP⟩

theorem Reached.step (hP : P.Correct) (h : d.Reached P keys) (request : Request) :
    (d.step P U F request).Reached P keys := by
  by_cases hopened : d.world.phase = .opened
  · obtain ⟨lost, hbalanced⟩ := h.balanced hopened
    obtain ⟨w₀, inputs, hfresh, hkeyed, hworld⟩ := h.world
    obtain ⟨calls, -, hrun⟩ := @step_calls P U F d hbalanced.named request
    refine ⟨⟨w₀, inputs ++ calls.map .call, hfresh, fun i hi => ?_, ?_⟩,
      hbalanced.step_any hP hopened⟩
    · rcases List.mem_append.mp hi with hi | hi
      · exact hkeyed i hi
      · obtain ⟨call, -, rfl⟩ := List.mem_map.mp hi
        trivial
    · rw [World.run_append, ← hworld, hrun]
  · rwa [step_stopped hopened]

theorem Reached.run (hP : P.Correct) : (requests : List Request) → {d : Drive} →
    d.Reached P keys → (d.run P U F requests).Reached P keys
  | [], _, h => h
  | request :: requests, _, h => Reached.run hP requests (h.step hP request)

/-- A drive on which nothing was done yet. -/
def soleDrive : Drive := mount ((World.empty []).run .plain soleOpening)

theorem soleDrive_mounted : soleDrive.Mounted .plain soleKeys :=
  ⟨World.empty [], [.start], soleIdentity, zeroKey, World.empty_fresh,
    @soleOpening_keyed [], rfl, by decide +kernel⟩

/-- The name of a file. -/
def soleName : Text := ['\\', 'D']

end Drive

end Wdlp
