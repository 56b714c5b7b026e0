import Wdlp.Drive.Run
import Wdlp.Lib.Paging
import Wdlp.Storage.Tree

/-!
# Directory listings in pages

A directory is listed by calls of `read_directory` that each fill a buffer. The names of a listing
are ordered without regard to ASCII case, and a call goes on after its marker in the same order. As
long as no two names are the same up to case, the order is strict and the calls return every name
that matches the pattern exactly once.

## Main definitions

* `ReadsChildren` — the entries of some children can be made one after the other.
* `pageNames` — the names that a call returns.

## Main results

* `addEntries_of_readsChildren` — a call returns the names that fit into its buffer.
* `readDirectory_pages_complete` — the calls return the whole listing and then nothing.
-/

namespace Wdlp

open CrashSafe Act

/-! ### Listings -/

/-- The children of a directory, from the names of the entries. -/
theorem Store.childNames_eq (store : Store) (start : Text) :
    store.childNames start =
      (((store.directories.toList.map fun entry => (entry.1, entry.2.display)).filter
          fun entry => directChild entry.1 start).map Prod.snd) ++
        (((store.files.toList.map fun entry => (entry.1, entry.2.name)).filter
          fun entry => !entry.2.deletePending && directChild entry.1 start).map
            fun entry => entry.2.display) := by
  simp only [Store.childNames, List.filter_map, List.map_map]
  rfl

variable {path : VirtualPath}

/-- What a listing shows depends on the names only. -/
theorem Store.readDirectory_congr {a b : Store} {i j : ℕ}
    (h : a.names i = b.names j) : a.readDirectory path = b.readDirectory path := by
  have hdirectories := congrFun (congrArg Names.directories h)
  have hfiles := congrFun (congrArg Names.files h)
  have hchildren : ∀ start, a.childNames start = b.childNames start := fun start => by
    rw [Store.childNames_eq, Store.childNames_eq,
      Map.map_toList_congr DirectoryEntry.display hdirectories,
      Map.map_toList_congr FileEntry.name hfiles]
  have hmem : path.lookupKey ∈ a.directories ↔ path.lookupKey ∈ b.directories :=
    (mem_directories.trans (iff_of_eq (congrArg (· ≠ none) (hdirectories _)))).trans
      mem_directories.symm
  have hdirectory : a.isDirectory path = b.isDirectory path := by
    rw [Store.isDirectory, Store.isDirectory, decide_eq_decide.mpr hmem]
  simp only [Store.readDirectory, hdirectory, hchildren]

theorem readDirectory_eq_ok {store : Store}
    {names : List Text} (h : store.readDirectory path = .ok names) : names = List.mergeSort
    (store.childNames (if path.lookupKey = [] then [] else path.lookupKey ++ ['/'])) nameLe := by
  obtain ⟨_, -, h⟩ := except_bind_eq_ok.mp h
  exact (Except.ok.inj h).symm

namespace Drive

variable {P : Primitives} {U : LowerCase} {F : DirInfoFormat} {path : VirtualPath} {s t : Sys}

theorem nameLt_iff {a b : Text} :
    nameLt a b = true ↔ compare (asciiLower a) (asciiLower b) = .lt := by
  rw [nameLt, decide_eq_true_iff, Std.OrientedCmp.gt_iff_lt]

instance : Std.Asymm fun a b : Text => nameLt a b = true where
  asymm a b hab hba := by
    rw [nameLt_iff] at hab hba
    have hgt := Std.OrientedCmp.gt_iff_lt.mpr hab
    rw [hba] at hgt
    cases hgt

/-- Names in order that are distinct up to case are in strict order. -/
theorem pairwise_nameLt {names : List Text} (hsorted : names.Pairwise fun a b => nameLe a b = true)
    (hdistinct : (names.map asciiLower).Nodup) : names.Pairwise fun a b => nameLt a b = true := by
  have hne : names.Pairwise fun a b => asciiLower a ≠ asciiLower b := List.pairwise_map.mp hdistinct
  refine (hsorted.and hne).imp fun ⟨hle, hab⟩ => ?_
  rw [nameLt_iff]
  rcases Ordering.isLE_iff_eq_lt_or_eq_eq.mp hle with hlt | heq
  · exact hlt
  · exact absurd (Std.LawfulEqCmp.compare_eq_iff_eq.mp heq) hab

/-! ### One call -/

/-- The entries of the children can be made one after the other. -/
def ReadsChildren (P : Primitives) (F : DirInfoFormat) (path : VirtualPath) (entries : List Text)
    (s : Sys) : Prop :=
  ∃ t, Act.forEach entries (fun entry => do let _ ← childInfo P F path entry) s = .ok () t

/-- Making an entry leaves the names alone. -/
theorem names_of_childInfo {entry : Text} {info : FileInfo}
    (h : childInfo P F path entry s = .ok info t) : t.view.names = s.view.names :=
  ((keepsNames_childInfo s.view.names).of_ok rfl h).1

/-- A call adds the entries that fit into its buffer, and leaves the names alone. -/
theorem addEntries_of_readsChildren : (entries : List Text) → (room : ℕ) →
    (s : Sys) → ReadsChildren P F path entries s → ∃ page t, addEntries P F path room entries
    s = .ok page t ∧ page.map Prod.fst = fill F.entrySize room entries ∧ t.view.names = s.view.names
  | [], _, s, _ => ⟨[], s, rfl, rfl, rfl⟩
  | entry :: entries, room, s, h => by
    obtain ⟨t, ht⟩ := h
    obtain ⟨_, u, hu, hrest⟩ := bind_eq_ok.mp ht
    obtain ⟨info, v, hinfo, hv⟩ := bind_eq_ok.mp hu
    obtain ⟨-, rfl⟩ := pure_eq_ok.mp hv
    by_cases hfits : F.entrySize entry ≤ room
    · obtain ⟨page, w, hpage, hnames, hview⟩ :=
        addEntries_of_readsChildren entries (room - F.entrySize entry) v ⟨t, hrest⟩
      refine ⟨(entry, info) :: page, w, ?_, ?_, hview.trans (names_of_childInfo hinfo)⟩
      · rw [addEntries, bind_of_ok hinfo, if_pos hfits, bind_of_ok hpage]
        rfl
      · rw [List.map_cons, hnames, fill, if_pos hfits]
    · refine ⟨[], v, ?_, ?_, names_of_childInfo hinfo⟩
      · rw [addEntries, bind_of_ok hinfo, if_neg hfits]
        rfl
      · rw [fill, if_neg hfits]
        rfl

/-! ### All calls -/

variable {context : DlpFileHandle} {pattern : Option Text} {names : List Text}

/-- The names of a listing that match the pattern, which is a star by default. -/
def matching (U : LowerCase) (pattern : Option Text) (names : List Text) : List Text :=
  names.filter (matchesPattern U (pattern.getD ['*']))

/-- A call of the callback returns the names after its marker that fit into its buffer. -/
theorem readDirectory_of_reads {front rest : List Text} {room : ℕ}
    (hdir : context.directory = true) (hlisted : s.store.readDirectory context.path = .ok names)
    (hstrict : (matching U pattern names).Pairwise fun a b => nameLt a b = true)
    (hsplit : front ++ rest = matching U pattern names)
    (hreads : ReadsChildren P F context.path rest s) :
    ∃ page t, readDirectory P U F context pattern front.getLast? room s = .ok page t ∧
      page.map Prod.fst = fill F.entrySize room rest ∧ t.view.names = s.view.names := by
  have hrest : (names.filter fun entry => (front.getLast?.all fun marker => nameLt marker entry) &&
      matchesPattern U (pattern.getD ['*']) entry) = rest := by
    rw [← hsplit] at hstrict
    have hafter := after_append hstrict
    rw [hsplit, after, matching, List.filter_filter] at hafter
    simpa only [Bool.decide_eq_true] using hafter
  obtain ⟨page, t, hpage, hnames, hview⟩ := addEntries_of_readsChildren rest room s hreads
  refine ⟨page, t, ?_, hnames, hview⟩
  have hcheck : (failIf (context.directory = false) Status.notSupported : Callback Unit) s =
      .ok () s := failIf_eq_ok.mpr ⟨by simp [hdir], rfl⟩
  have hentries : stored (Act.ofExcept (s.store.readDirectory context.path)) s = .ok names s := by
    rw [hlisted]
    rfl
  refine (bind_of_ok hcheck).trans ?_
  refine (bind_of_ok (show stored getStore s = .ok s.store s from rfl)).trans ?_
  refine (bind_of_ok hentries).trans ?_
  rw [hrest]
  exact hpage

/-- The names that a call returns, or none if it fails. -/
def pageNames (P : Primitives) (U : LowerCase) (F : DirInfoFormat) (context : DlpFileHandle)
    (pattern : Option Text) (states : ℕ → Sys) (room : ℕ → ℕ) (call : ℕ) (marker : Option Text) :
    List Text :=
  match readDirectory P U F context pattern marker (room call) (states call) with
  | .ok page _ => page.map Prod.fst
  | _ => []

/-- Listing a directory page by page, first without a marker and then with the last name that was
returned: the calls return the children that match the pattern, once each and in order, until one
returns nothing. The state may change between the calls, but not what the directory shows. -/
theorem readDirectory_pages_complete (hdir : context.directory = true) {states : ℕ → Sys}
    {room : ℕ → ℕ} (hlisted : ∀ k, (states k).store.readDirectory context.path = .ok names)
    (hdistinct : (names.map asciiLower).Nodup)
    (hreads : ∀ k rest, rest <:+ matching U pattern names →
      ReadsChildren P F context.path rest (states k))
    (hroom : ∀ k, ∀ name ∈ matching U pattern names, F.entrySize name ≤ room k) :
    (∀ k, names.Perm ((states k).store.childNames
      (if context.path.lookupKey = [] then [] else context.path.lookupKey ++ ['/']))) ∧
    (matching U pattern names).Pairwise (fun a b => nameLt a b = true) ∧
    ∃ n ≤ (matching U pattern names).length,
      returned (pageNames P U F context pattern states room) n = matching U pattern names ∧
      ∀ k ≤ n, ∃ page t, readDirectory P U F context pattern
          (returned (pageNames P U F context pattern states room) k).getLast? (room k) (states k) =
            .ok page t ∧
        (page = [] ↔ k = n) ∧ t.store.readDirectory context.path = .ok names := by
  have hsorted : names.Pairwise fun a b => nameLe a b = true := by
    rw [readDirectory_eq_ok (hlisted 0)]
    exact List.pairwise_mergeSort nameLe_trans nameLe_total _
  have hstrict : (matching U pattern names).Pairwise fun a b => nameLt a b = true :=
    (pairwise_nameLt hsorted hdistinct).filter _
  -- what a call returns when some names were returned before
  have hcall : ∀ k front rest, front ++ rest = matching U pattern names →
      ∃ page t, readDirectory P U F context pattern front.getLast? (room k) (states k) =
          .ok page t ∧
        page.map Prod.fst = fill F.entrySize (room k) rest ∧ t.view.names = (states k).view.names :=
    fun k front rest hsplit => readDirectory_of_reads hdir (hlisted k) hstrict hsplit
      (hreads k rest ⟨front, hsplit⟩)
  have hnames : ∀ k front rest, front ++ rest = matching U pattern names →
      pageNames P U F context pattern states room k front.getLast? =
        fill F.entrySize (room k) rest := by
    intro k front rest hsplit
    obtain ⟨page, t, hpage, hfill, -⟩ := hcall k front rest hsplit
    rw [pageNames, hpage]
    exact hfill
  have hpart : ∀ k front rest, front ++ rest = matching U pattern names →
      pageNames P U F context pattern states room k front.getLast? <+: rest :=
    fun k front rest hsplit => hnames k front rest hsplit ▸ fill_isPrefix _ _ _
  refine ⟨fun k => ?_, hstrict, ?_⟩
  · rw [readDirectory_eq_ok (hlisted k)]
    exact List.mergeSort_perm _ _
  obtain ⟨n, hn, hmore, hlast, hall⟩ := returned_complete hpart fun k front rest hsplit hnil => by
    rw [hnames k front rest hsplit] at hnil
    refine eq_nil_of_fill_eq_nil (fun name hname => hroom k name ?_) hnil
    rw [← hsplit]
    exact List.mem_append_right front hname
  refine ⟨n, hn, hall, fun k hk => ?_⟩
  obtain ⟨rest, hsplit⟩ := returned_isPrefix hpart k
  obtain ⟨page, t, hpage, hfill, hview⟩ := hcall k _ rest hsplit
  have hempty : page = [] ↔ pageNames P U F context pattern states room k
      (returned (pageNames P U F context pattern states room) k).getLast? = [] := by
    rw [hnames k _ rest hsplit, ← hfill, List.map_eq_nil_iff]
  refine ⟨page, t, hpage, hempty.trans ⟨fun hnil => ?_, fun heq => heq ▸ hlast⟩, ?_⟩
  · by_contra hne
    exact hmore k (lt_of_le_of_ne hk hne) hnil
  · exact (Store.readDirectory_congr hview).trans (hlisted k)

/-- A store with a directory and a file that holds one byte. -/
def twoEntries : Sys :=
  ((World.empty []).run .plain (soleOpening ++ [.createDirectory solePath,
    .createOrOpen otherPath true true, .writeHandle ⟨1⟩ 0 [7], .flushHandle ⟨1⟩].map .call)).sys

/-- Entries that take one byte each. -/
def unitEntries : DirInfoFormat where
  setName _ := .ok ()
  entrySize _ := 1

theorem readDirectory_pages_complete_sample :
    ∃ n ≤ 2, returned (pageNames .plain .ascii unitEntries (.ofDirectory .root) none
      (fun _ => twoEntries) fun _ => 1) n = [['D'], ['E']] := by
  have hchildren : twoEntries.store.childNames [] = [['D'], ['E']] := by decide +kernel
  have hlisted : twoEntries.store.readDirectory VirtualPath.root = .ok [['D'], ['E']] := by
    change Except.ok ((twoEntries.store.childNames []).mergeSort nameLe) = _
    rw [hchildren, List.mergeSort_of_pairwise (by decide +kernel)]
  have hall : matching .ascii none [['D'], ['E']] = [['D'], ['E']] := by decide +kernel
  have hreads : ∀ rest ∈ [['D'], ['E']].tails, ((Act.forEach rest fun entry => do
      let _ ← childInfo .plain unitEntries .root entry) twoEntries).result? = some (.ok ()) := by
    decide +kernel
  obtain ⟨-, -, n, hn, hreturned, -⟩ := @readDirectory_pages_complete .plain .ascii unitEntries
    (.ofDirectory .root) none [['D'], ['E']] rfl (fun _ => twoEntries) (fun _ => 1)
    (fun _ => hlisted) (by decide +kernel)
    (fun _ rest hrest => ⟨_, Outcome.eq_ok (hreads rest ((List.mem_tails _ _).mpr (hall ▸ hrest)))⟩)
    fun _ _ _ => Nat.le_refl 1
  rw [hall] at hn hreturned
  exact ⟨n, hn, hreturned⟩

end Drive

end Wdlp
