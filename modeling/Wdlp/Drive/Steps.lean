import Wdlp.Drive.Run

/-!
# What a callback does

To contexts and names, a callback does one of a few things: it opens a context with its handle or a
context of a directory, it closes, deletes or renames, it notes that a file is to be deleted, or it
leaves them as they are. An open callback that fails too late opens a handle without a context.

## Main definitions

* `Drive.names` — the names in the store of the process.
* `Drive.Takes` — what a callback can do.

## Main results

* `Drive.step_takes` — a callback does one of these things.
-/

namespace Wdlp

open CrashSafe Act

namespace Drive

variable {P : Primitives} {U : LowerCase} {F : DirInfoFormat} {d d' : Drive} {s : Sys}

/-- The names in the store of the process. -/
def names (d : Drive) : Names := d.world.sys.view.names

/-- What a callback does to contexts and names. -/
inductive Takes (P : Primitives) (d d' : Drive) : Request → Prop
  | same {request : Request} (hrequest : ∀ m, request = .on m .close → d.contexts[m]? = none)
      (hnames : d'.names = d.names) (hcontexts : d'.contexts = d.contexts)
      (hnext : d'.nextContext = d.nextContext) : Takes P d d' request
  | opened {request : Request} (hrequest : ∀ m operation, request ≠ .on m operation)
      {path : ParsedPath} (hhandle : HandleOpened P d.world.sys path d'.names)
      (hcontexts : d'.contexts =
        d.contexts.insert d.nextContext (.ofFile path.1 ⟨d.names.nextHandle⟩))
      (hnext : d'.nextContext = d.nextContext + 1) : Takes P d d' request
  | entered {request : Request} (hrequest : ∀ m operation, request ≠ .on m operation)
      {context : DlpFileHandle} (hnamed : context.Named) (hhandle : context.handle = none)
      (hnames : d'.names = d.names ∨ ∃ path : ParsedPath,
        View.Committed P d.world.sys.view (.makeDirectory path) d'.world.sys.view)
      (hcontexts : d'.contexts = d.contexts.insert d.nextContext context)
      (hnext : d'.nextContext = d.nextContext + 1) : Takes P d d' request
  | leaked {fileName : Text} {path : ParsedPath} (hleak : Leaks P fileName d.world.sys)
      (hhandle : HandleOpened P d.world.sys path d'.names) (hcontexts : d'.contexts = d.contexts)
      (hnext : d'.nextContext = d.nextContext) : Takes P d d' (.openFile fileName)
  | closed {m : ℕ} {context : DlpFileHandle} (hcontext : d.contexts[m]? = some context)
      (hnames : (context.handle = none ∧ d'.names = d.names) ∨
        ∃ handle, context.handle = some handle ∧
          (View.Closed P d.world.sys.view handle.number d'.world.sys.view ∨
            View.ClosedInPart P (fun _ _ => True) d.world.sys.view handle.number
              d'.world.sys.view))
      (hcontexts : d'.contexts = d.contexts.erase m) (hnext : d'.nextContext = d.nextContext) :
      Takes P d d' (.on m .close)
  | cleaned {m : ℕ} {context : DlpFileHandle} {path : ParsedPath}
      (hcontext : d.contexts[m]? = some context) (hpath : context.path = path.1)
      (hdeleted : View.Deleted P d.world.sys.view path.1.lookupKey d'.world.sys.view)
      (hcontexts : d'.contexts = d.contexts) (hnext : d'.nextContext = d.nextContext) :
      Takes P d d' (.on m .cleanup)
  | renamed {m : ℕ} {context : DlpFileHandle} {source destination : ParsedPath} {fileName : Text}
      {replace : Bool} (hcontext : d.contexts[m]? = some context) (hpath : context.path = source.1)
      (hrun : rename P context fileName replace d.world.sys =
        .ok { context with path := destination.1 } d'.world.sys)
      (hrenamed : Renamed P d.world.sys source destination replace d'.world.sys.view)
      (hcontexts : d'.contexts = d.contexts.insert m { context with path := destination.1 })
      (hnext : d'.nextContext = d.nextContext) : Takes P d d' (.on m (.rename fileName replace))
  | renamedInPart {m : ℕ} {context : DlpFileHandle} {source destination : ParsedPath}
      {fileName : Text} {replace : Bool} (hcontext : d.contexts[m]? = some context)
      (hpath : context.path = source.1)
      (hpart : RenamedInPart P (fun _ _ => True) d.world.sys source destination replace
        d'.world.sys.view)
      (hcontexts : d'.contexts = d.contexts) (hnext : d'.nextContext = d.nextContext) :
      Takes P d d' (.on m (.rename fileName replace))
  | requested {m : ℕ} {context : DlpFileHandle} {requested : Bool}
      (hcontext : d.contexts[m]? = some context) (hnames : d'.names = d.names)
      (hcontexts : d'.contexts =
        d.contexts.insert m { context with deleteRequested := requested })
      (hnext : d'.nextContext = d.nextContext) : Takes P d d' (.on m (.setDelete requested))

/-! ### Contexts that stay open -/

section

variable {request : Request} {m : ℕ}

theorem Takes.nextContext_le (h : Takes P d d' request) : d.nextContext ≤ d'.nextContext := by
  cases h with
  | opened _ _ _ hnext | entered _ _ _ _ _ hnext => exact hnext ▸ Nat.le_succ _
  | same _ _ _ hnext | leaked _ _ _ hnext | closed _ _ _ hnext | cleaned _ _ _ _ hnext
  | renamed _ _ _ _ _ hnext | renamedInPart _ _ _ _ hnext | requested _ _ _ hnext =>
    exact hnext.ge

/-- A context that is open after a callback, and is not a new one, was open before with the same
handle, and it was not closed. -/
theorem Takes.context (h : Takes P d d' request) (hm : m < d.nextContext)
    {context : DlpFileHandle} (hcontext : d'.contexts[m]? = some context) : request ≠ .on m .close ∧
    ∃ before : DlpFileHandle, d.contexts[m]? = some before ∧ before.handle = context.handle := by
  have hsame : d'.contexts = d.contexts → ∃ before : DlpFileHandle,
      d.contexts[m]? = some before ∧ before.handle = context.handle :=
    fun hcontexts => ⟨context, hcontexts ▸ hcontext, rfl⟩
  -- a context whose handle stays was put in the place of another
  have hupdated : ∀ {k : ℕ} {old new : DlpFileHandle}, d'.contexts = d.contexts.insert k new →
      d.contexts[k]? = some old → old.handle = new.handle → ∃ before : DlpFileHandle,
        d.contexts[m]? = some before ∧ before.handle = context.handle := by
    intro k old new hcontexts hold hhandle
    rw [hcontexts, Map.get_insert] at hcontext
    split_ifs at hcontext with hk
    · cases hcontext
      exact ⟨old, hk ▸ hold, hhandle⟩
    · exact ⟨context, hcontext, rfl⟩
  have hnew : ∀ {new : DlpFileHandle}, d'.contexts = d.contexts.insert d.nextContext new →
      ∃ before : DlpFileHandle, d.contexts[m]? = some before ∧ before.handle = context.handle := by
    intro new hcontexts
    rw [hcontexts, Map.get_insert_of_ne hm.ne] at hcontext
    exact ⟨context, hcontext, rfl⟩
  cases h with
  | same hrequest _ hcontexts =>
    refine ⟨fun heq => ?_, hsame hcontexts⟩
    rw [hcontexts, hrequest m heq] at hcontext
    cases hcontext
  | opened hrequest _ hcontexts => exact ⟨hrequest m .close, hnew hcontexts⟩
  | entered hrequest _ _ _ hcontexts => exact ⟨hrequest m .close, hnew hcontexts⟩
  | leaked _ _ hcontexts => exact ⟨nofun, hsame hcontexts⟩
  | closed _ _ hcontexts =>
    rw [hcontexts, Map.get_erase] at hcontext
    split_ifs at hcontext with hk
    exact ⟨fun heq => hk (Request.on.inj heq).1, context, hcontext, rfl⟩
  | cleaned _ _ _ hcontexts => exact ⟨nofun, hsame hcontexts⟩
  | renamed hold _ _ _ hcontexts => exact ⟨nofun, hupdated hcontexts hold rfl⟩
  | renamedInPart _ _ _ hcontexts => exact ⟨nofun, hsame hcontexts⟩
  | requested hold _ hcontexts => exact ⟨nofun, hupdated hcontexts hold rfl⟩

end

/-! ### Callbacks on contexts -/

/-- What an operation on contents and information answers: it changes no context, or only whether
the file is to be deleted. -/
theorem operate_reply {context : DlpFileHandle} {operation : Operation} {reply : Reply} {t : Sys}
    (hkeeps : operation.KeepsNames) (h : operate P U F context operation s = .ok reply t) :
    (∀ contexts m, contextsAfter contexts m reply = contexts) ∨ ∃ requested, operation = .setDelete
    requested ∧ reply = .updated { context with deleteRequested := requested } := by
  have hplain : ∀ {α : Type} {p : Callback α} {f : α → Reply},
      (∀ a contexts m, contextsAfter contexts m (f a) = contexts) →
        (do let a ← p; return f a : Callback Reply) s = .ok reply t →
          ∀ contexts m, contextsAfter contexts m reply = contexts := by
    intro α p f hf hrun
    obtain ⟨a, u, -, hreply⟩ := bind_eq_ok.mp hrun
    obtain ⟨rfl, -⟩ := pure_eq_ok.mp hreply
    exact hf a
  cases operation with
  | close => exact hkeeps.elim
  | cleanup => exact hkeeps.elim
  | rename => exact hkeeps.elim
  | flush => exact .inl (hplain (fun _ _ _ => rfl) h)
  | overwrite => exact .inl (hplain (fun _ _ _ => rfl) h)
  | getFileInfo => exact .inl (hplain (fun _ _ _ => rfl) h)
  | setBasicInfo => exact .inl (hplain (fun _ _ _ => rfl) h)
  | setFileSize => exact .inl (hplain (fun _ _ _ => rfl) h)
  | read => exact .inl (hplain (fun _ _ _ => rfl) h)
  | write buffer offset eof constrained =>
    obtain ⟨⟨count, info⟩, u, -, hreply⟩ := bind_eq_ok.mp h
    obtain ⟨rfl, -⟩ := pure_eq_ok.mp hreply
    exact .inl fun _ _ => rfl
  | readDirectory => exact .inl (hplain (fun _ _ _ => rfl) h)
  | setDelete deleteFile =>
    obtain ⟨updated, u, hupdated, hreply⟩ := bind_eq_ok.mp h
    obtain ⟨rfl, -⟩ := pure_eq_ok.mp hreply
    refine .inr ⟨deleteFile, rfl, congrArg Reply.updated ?_⟩
    unfold setDelete at hupdated
    split_ifs at hupdated with hdelete
    · obtain ⟨_, _, -, hupdated⟩ := bind_eq_ok.mp hupdated
      obtain ⟨_, _, -, hupdated⟩ := bind_eq_ok.mp hupdated
      obtain ⟨rfl, -⟩ := pure_eq_ok.mp hupdated
      rw [hdelete]
    · obtain ⟨rfl, -⟩ := pure_eq_ok.mp hupdated
      rw [Bool.eq_false_of_not_eq_true hdelete]

section

variable {m : ℕ} {context : DlpFileHandle}

/-- Operations on contents and information. -/
theorem takes_kept (hcontext : d.contexts[m]? = some context) (hnamed : context.Named)
    {operation : Operation} (hkeeps : operation.KeepsNames)
    (hphase : (d.afterOn m (operate P U F context operation d.world.sys)).world.phase = .opened) :
    Takes P d (d.afterOn m (operate P U F context operation d.world.sys)) (.on m operation) := by
  have hnames : Act.Keeps (fun s : Sys => s.view.names = d.names)
    (operate P U F context operation) := keepsNames_operate hnamed hkeeps d.names
  have hrequest : ∀ k, Request.on m operation = .on k .close → d.contexts[k]? = none := by
    rintro k ⟨⟩
    exact hkeeps.elim
  cases hrun : operate P U F context operation d.world.sys with
  | ok reply s =>
    have hsame : s.view.names = d.names := (hnames.of_ok rfl hrun).1
    rcases operate_reply hkeeps hrun with hcontexts | ⟨requested, rfl, rfl⟩
    · exact .same hrequest hsame (hcontexts d.contexts m) rfl
    · exact .requested hcontext hsame rfl rfl
  | err e s => exact .same hrequest (err_of_wp (hnames d.world.sys rfl) hrun) rfl rfl
  | crash s =>
    rw [hrun] at hphase
    cases hphase

theorem takes_close (hP : P.Correct) (hcontext : d.contexts[m]? = some context)
    (hphase : (d.afterOn m (operate P U F context .close d.world.sys)).world.phase = .opened) :
    Takes P d (d.afterOn m (operate P U F context .close d.world.sys)) (.on m .close) := by
  have hw : (operate P U F context .close).wp (fun reply t => reply = .closed ∧
      ((context.handle = none ∧ t.view.names = d.world.sys.view.names) ∨
        ∃ handle, context.handle = some handle ∧
          (View.Closed P d.world.sys.view handle.number t.view ∨
            View.ClosedInPart P (fun _ _ => True) d.world.sys.view handle.number t.view)))
      (fun _ _ => False) (fun _ => True) d.world.sys :=
    wp_seq (close_wp hP) fun _ _ ht => ⟨rfl, ht⟩
  cases hrun : operate P U F context .close d.world.sys with
  | ok reply s =>
    obtain ⟨rfl, hnames⟩ := ok_of_wp hw hrun
    exact .closed hcontext hnames rfl rfl
  | err e s => exact (err_of_wp hw hrun).elim
  | crash s =>
    rw [hrun] at hphase
    cases hphase

theorem takes_cleanup (hP : P.Correct) (hcontext : d.contexts[m]? = some context)
    (hnamed : context.Named)
    (hphase : (d.afterOn m (operate P U F context .cleanup d.world.sys)).world.phase = .opened) :
    Takes P d (d.afterOn m (operate P U F context .cleanup d.world.sys)) (.on m .cleanup) := by
  have hw : (operate P U F context .cleanup).wp (fun reply t => reply = .done ∧
      (t.view.names = d.world.sys.view.names ∨ (context.deleteRequested = true ∧
        ∃ path : ParsedPath, context.path = path.1 ∧
          View.Deleted P d.world.sys.view path.1.lookupKey t.view)))
      (fun _ _ => False) (fun _ => True) d.world.sys :=
    wp_seq (cleanup_wp hP hnamed) fun _ _ ht => ⟨rfl, ht⟩
  cases hrun : operate P U F context .cleanup d.world.sys with
  | ok reply s =>
    obtain ⟨rfl, hsame | ⟨-, path, hpath, hdeleted⟩⟩ := ok_of_wp hw hrun
    · exact .same nofun hsame rfl rfl
    · exact .cleaned hcontext hpath hdeleted rfl rfl
  | err e s => exact (err_of_wp hw hrun).elim
  | crash s =>
    rw [hrun] at hphase
    cases hphase

theorem takes_rename (hP : P.Correct) (hcontext : d.contexts[m]? = some context)
    (hnamed : context.Named) (hwf : d.names.WellFormed) {fileName : Text} {replace : Bool}
    (hphase : (d.afterOn m
      (operate P U F context (.rename fileName replace) d.world.sys)).world.phase = .opened) :
    Takes P d (d.afterOn m (operate P U F context (.rename fileName replace) d.world.sys))
      (.on m (.rename fileName replace)) := by
  have hw := @rename_wp P context fileName d.world.sys hP hnamed hwf replace
  cases hrun : rename P context fileName replace d.world.sys with
  | ok context' s =>
    rw [show operate P U F context (.rename fileName replace) d.world.sys =
      .ok (.updated context') s from bind_of_ok hrun]
    obtain ⟨source, destination, hpath, rfl, hrenamed⟩ := ok_of_wp hw hrun
    exact .renamed hcontext hpath hrun hrenamed rfl rfl
  | err e s =>
    rw [show operate P U F context (.rename fileName replace) d.world.sys = .err e s
      from bind_of_err hrun]
    rcases err_of_wp hw hrun with hsame | ⟨source, destination, hpath, hpart⟩
    · exact .same nofun hsame rfl rfl
    · exact .renamedInPart hcontext hpath hpart rfl rfl
  | crash s =>
    rw [show operate P U F context (.rename fileName replace) d.world.sys = .crash s
      from bind_of_crash hrun] at hphase
    cases hphase

end

/-! ### Callbacks that open contexts -/

theorem takes_openFile (hP : P.Correct) {fileName : Text}
    (hphase : (d.afterOpen (openFile P fileName d.world.sys)).world.phase = .opened) :
    Takes P d (d.afterOpen (openFile P fileName d.world.sys)) (.openFile fileName) := by
  have hw := @openFile_wp P fileName d.world.sys hP
  cases hrun : openFile P fileName d.world.sys with
  | ok r s =>
    obtain ⟨context, info⟩ := r
    rcases ok_of_wp hw hrun with ⟨hnamed, hnone, hsame⟩ | ⟨path, heq, hopened⟩
    · exact .entered nofun hnamed hnone (.inl hsame) rfl rfl
    · obtain rfl : context = _ := heq
      exact .opened nofun hopened rfl rfl
  | err e s =>
    rcases err_of_wp hw hrun with ⟨-, hsame⟩ | ⟨hleak, path, hopened⟩
    · exact .same nofun hsame rfl rfl
    · exact .leaked hleak hopened rfl rfl
  | crash s =>
    rw [hrun] at hphase
    cases hphase

theorem takes_create (hP : P.Correct) {fileName : Text} {createOptions attributes : UInt32}
    {reparse : Bool} (hphase : (d.afterOpen
      (create P fileName createOptions attributes reparse d.world.sys)).world.phase = .opened) :
    Takes P d (d.afterOpen (create P fileName createOptions attributes reparse d.world.sys))
      (.create fileName createOptions attributes reparse) := by
  have hw := @create_wp P fileName d.world.sys hP createOptions attributes reparse
  cases hrun : create P fileName createOptions attributes reparse d.world.sys with
  | ok r s =>
    obtain ⟨context, info⟩ := r
    rcases ok_of_wp hw hrun with ⟨path, heq, hmade⟩ | ⟨path, heq, hopened⟩
    · obtain rfl : context = _ := heq
      exact .entered nofun (.inl ⟨path, rfl⟩) rfl (.inr ⟨path, hmade⟩) rfl rfl
    · obtain rfl : context = _ := heq
      exact .opened nofun hopened rfl rfl
  | err e s => exact .same nofun (err_of_wp hw hrun) rfl rfl
  | crash s =>
    rw [hrun] at hphase
    cases hphase

/-- A callback after which the process still runs. -/
theorem step_takes (hP : P.Correct) (hwf : d.names.WellFormed)
    (hnamed : ∀ (m : ℕ) (context : DlpFileHandle), d.contexts[m]? = some context → context.Named)
    (hopened : d.world.phase = .opened) {request : Request}
    (hphase : (d.step P U F request).world.phase = .opened) :
    Takes P d (d.step P U F request) request := by
  cases request with
  | getSecurityByName fileName =>
    rw [step, if_pos hopened]
    exact .same (by simp) rfl rfl rfl
  | flushVolume =>
    rw [step, if_pos hopened]
    exact .same (by simp) rfl rfl rfl
  | openFile fileName =>
    rw [step_openFile hopened] at hphase ⊢
    exact takes_openFile hP hphase
  | create fileName createOptions attributes reparse =>
    rw [step_create hopened] at hphase ⊢
    exact takes_create hP hphase
  | on m operation =>
    cases hcontext : d.contexts[m]? with
    | none =>
      rw [step_on_none hcontext]
      refine .same ?_ rfl rfl rfl
      rintro k ⟨⟩
      exact hcontext
    | some context =>
      have hname := hnamed m context hcontext
      rw [step_on hopened hcontext] at hphase ⊢
      cases operation with
      | close => exact takes_close hP hcontext hphase
      | cleanup => exact takes_cleanup hP hcontext hname hphase
      | rename fileName replace => exact takes_rename hP hcontext hname hwf hphase
      | _ => exact takes_kept hcontext hname trivial hphase

end Drive

end Wdlp
