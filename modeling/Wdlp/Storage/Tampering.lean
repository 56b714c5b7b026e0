import Wdlp.Storage.FileIdentity
import Wdlp.Storage.DiskRun

/-!
# Reads against a tampered disk

An attacker may change the disk in any way, but cannot seal records: a record that opens was sealed
under its key with its header. The code seals nothing but the records of flushes and of namespaces,
and the headers tell these apart, so that a read gives the whole content of one flush of that file,
and opening a store gives a namespace that was persisted for it, or fails.

## Main definitions

* `Ledger` — what was sealed belongs to flushes and to namespaces.
* `Unforged` — the records on a disk that open were sealed.
* `FlushedAs` — a content of a file whose commit record was sealed.

## Main results

* `Ledger.commit`, `Ledger.manifest`, `Ledger.chunk`, `Ledger.namespace` — what a sealed record is,
  by its header.
* `readFromPointer_sound`, `openStore_sound` — what is read from a tampered disk.
* `tampered_reads` — the two over whole runs.
-/

namespace Wdlp

open CrashSafe Act
open EncryptedRecordV1 (aad decode openRecord)

variable {P : Primitives} {keys : StoreId → StoreKey} {key : StoreKey} {store : StoreId}
  {file : FileId} {generation : UInt64} {data : Bytes} {s t : Sys}

/-! ### What was sealed -/

/-- A flush: the content of a file, and the generation under which it is stored. -/
structure Flush where
  store : StoreId
  file : FileId
  generation : UInt64
  data : Bytes
  deriving DecidableEq

def HistoryEntry.flush? : HistoryEntry → Option Flush
  | flushing _ store file generation data => some { store, file, generation, data }
  | _ => none

/-- The flushes in a history. -/
def flushes (history : List HistoryEntry) : List Flush := history.filterMap HistoryEntry.flush?

/-- The namespaces persisted in a history. -/
def snapshots (history : List HistoryEntry) : List Snapshot :=
  history.filterMap HistoryEntry.snapshot?

/-- The files created in a history. -/
def creations (history : List HistoryEntry) : List Creation :=
  history.filterMap HistoryEntry.creation?

/-- The record belongs to a flush or to a namespace of the history. -/
inductive Belongs (history : List HistoryEntry) (aad : RecordAad) (plaintext : Bytes) : Prop
  | flush {f : Flush} (h : f ∈ flushes history)
      (hr : FlushRecord f.store f.file f.generation f.data aad plaintext)
  | persist {n : Snapshot} (h : n ∈ snapshots history) (haad : aad = n.header)
      (hplaintext : plaintext = n.bytes)

/-- Everything that was sealed belongs to a flush or to a namespace. -/
def Ledger (history : List HistoryEntry) : Prop :=
  ∀ key aad plaintext, .sealed key aad plaintext ∈ history → Belongs history aad plaintext

variable {history : List HistoryEntry} {entry : HistoryEntry}

theorem Belongs.append {aad : RecordAad} {plaintext : Bytes} (h : Belongs history aad plaintext) :
    Belongs (history ++ [entry]) aad plaintext := by
  cases h with
  | flush h hr =>
    refine .flush ?_ hr
    rw [flushes, List.filterMap_append]
    exact List.mem_append_left _ h
  | persist h haad hplaintext =>
    refine .persist ?_ haad hplaintext
    rw [snapshots, List.filterMap_append]
    exact List.mem_append_left _ h

theorem Ledger.append (h : Ledger history)
    (hentry : ∀ key aad plaintext, entry = .sealed key aad plaintext →
      Belongs history aad plaintext) : Ledger (history ++ [entry]) := by
  intro key aad plaintext hmem
  refine Belongs.append ?_
  rcases List.mem_append.mp hmem with hmem | hmem
  · exact h key aad plaintext hmem
  · exact hentry key aad plaintext (List.mem_singleton.mp hmem).symm

theorem ledger_invariant : DiskInvariant keys fun _ history _ => Ledger history where
  ops _ _ h := h
  flushes h := h.append nofun
  notes hnote h := by
    refine h.append fun key aad plaintext heq => ?_
    cases hnote with
    | sealedFlush hflushing hr =>
      cases heq
      exact .flush (List.mem_filterMap.mpr ⟨_, hflushing, rfl⟩) hr
    | @sealedNamespace store generation st hpersisting =>
      cases heq
      exact .persist (n := ⟨⟨store, keys store, generation⟩, st.directories, st.files⟩)
        (List.mem_filterMap.mpr ⟨_, hpersisting, rfl⟩) rfl rfl
    | _ => cases heq

/-! ### Headers -/

theorem fileAad_inj {store' : StoreId} {file' : FileId} {generation' : UInt64}
    {kind kind' : RecordKind} {index index' : UInt64} {n n' : ℕ}
    (h : fileAad store file generation kind index n =
      fileAad store' file' generation' kind' index' n') :
    store = store' ∧ file = file' ∧ generation = generation' ∧ kind = kind' ∧ index = index' :=
  ⟨Identifier.ext (congrArg RecordAad.storeId h), Identifier.ext (congrArg RecordAad.fileId h),
    congrArg RecordAad.generation h, congrArg RecordAad.recordKind h,
    congrArg RecordAad.chunkIndex h⟩

theorem bounded_fileAad {kind : RecordKind} {index : UInt64} {n : ℕ} :
    (fileAad store file generation kind index n).Bounded :=
  ⟨store.length_utf8_toWire, file.length_utf8_toWire⟩

theorem Snapshot.bounded_header (n : Snapshot) : n.header.Bounded :=
  ⟨n.session.storeId.length_utf8_toWire, by
    change (utf8 namespaceIndex).length < 2 ^ 16
    decide⟩

namespace Ledger

variable {history : List HistoryEntry} {aad : RecordAad} {plaintext : Bytes} {index : UInt64} {n : ℕ}

section

variable (h : Ledger history)

include h

theorem bounded (hmem : .sealed key aad plaintext ∈ history) : aad.Bounded := by
  cases h key aad plaintext hmem with
  | flush hflushing hr => cases hr <;> exact bounded_fileAad
  | persist hn haad hplaintext => exact haad ▸ Snapshot.bounded_header _

/-- A sealed commit record belongs to a flush. -/
theorem commit (hmem : .sealed key
      (fileAad store file generation .commit index n) plaintext ∈ history) :
    (∃ data, ⟨store, file, generation, data⟩ ∈ flushes history) ∧
      plaintext = (commitOf file generation).layout := by
  rcases h key _ plaintext hmem with ⟨hflushing, hr⟩ | ⟨-, heq, -⟩
  · generalize haad : fileAad store file generation .commit index n = aad at hr
    cases hr with
    | chunk => exact absurd (fileAad_inj haad).2.2.2.1 nofun
    | manifest => exact absurd (fileAad_inj haad).2.2.2.1 nofun
    | commit hbytes =>
      obtain ⟨rfl, rfl, rfl, -⟩ := fileAad_inj haad
      rw [CommitRecordV1.encode_of_isName isName_fileId] at hbytes
      exact ⟨⟨_, hflushing⟩, (Except.ok.inj hbytes).symm⟩
  · exact absurd (congrArg RecordAad.recordKind heq) nofun

/-- A sealed manifest belongs to a flush, unless it is the record of a namespace. -/
theorem manifest (hfile : file.toWire ≠ namespaceIndex) (hmem : .sealed key
      (fileAad store file generation .manifest index n) plaintext ∈ history) :
    ∃ data, ⟨store, file, generation, data⟩ ∈ flushes history ∧
      (manifestOf file generation data).encode = .ok plaintext := by
  rcases h key _ plaintext hmem with ⟨hflushing, hr⟩ | ⟨-, heq, -⟩
  · generalize haad : fileAad store file generation .manifest index n = aad at hr
    cases hr with
    | chunk => exact absurd (fileAad_inj haad).2.2.2.1 nofun
    | manifest hbytes =>
      obtain ⟨rfl, rfl, rfl, -⟩ := fileAad_inj haad
      exact ⟨_, hflushing, hbytes⟩
    | commit => exact absurd (fileAad_inj haad).2.2.2.1 nofun
  · exact absurd (congrArg RecordAad.fileId heq) hfile

/-- A sealed chunk belongs to a flush. -/
theorem chunk (hmem : .sealed key
      (fileAad store file generation .chunk index n) plaintext ∈ history) :
    ∃ data j, ⟨store, file, generation, data⟩ ∈ flushes history ∧ index = UInt64.ofNat j ∧
      (chunks chunkSize data)[j]? = some plaintext := by
  rcases h key _ plaintext hmem with ⟨hflushing, hr⟩ | ⟨-, heq, -⟩
  · generalize haad : fileAad store file generation .chunk index n = aad at hr
    cases hr with
    | @chunk j _ hchunk =>
      obtain ⟨rfl, rfl, rfl, -, hindex⟩ := fileAad_inj haad
      exact ⟨_, j, hflushing, hindex, hchunk⟩
    | manifest => exact absurd (fileAad_inj haad).2.2.2.1 nofun
    | commit => exact absurd (fileAad_inj haad).2.2.2.1 nofun
  · exact absurd (congrArg RecordAad.recordKind heq) nofun

/-- A sealed record with the header of a namespace is one, unless a file has its name. -/
theorem persisted (hfiles : ∀ f ∈ flushes history, f.file.toWire ≠ namespaceIndex)
    (hmem : .sealed key (namespaceAad store generation n) plaintext ∈ history) :
    ∃ m ∈ snapshots history, namespaceAad store generation n = m.header ∧ plaintext = m.bytes := by
  rcases h key _ plaintext hmem with ⟨hflushing, hr⟩ | ⟨hm, heq, hplaintext⟩
  · generalize haad : namespaceAad store generation n = aad at hr
    cases hr <;> exact absurd (congrArg RecordAad.fileId haad).symm (hfiles _ hflushing)
  · exact ⟨_, hm, heq, hplaintext⟩

end

end Ledger

/-! ### A disk with forgeries excluded -/

/-- The entry seals the plaintext with the header of the record. -/
def HistoryEntry.Seals (key : StoreKey) (r : EncryptedRecordV1) (plaintext : Bytes) :
    HistoryEntry → Prop
  | «sealed» key' aad plaintext' =>
    key' = key ∧ aad.canonicalBytes = r.aad.canonicalBytes ∧ plaintext' = plaintext
  | _ => False

instance (key : StoreKey) (r : EncryptedRecordV1) (plaintext : Bytes) :
    DecidablePred (HistoryEntry.Seals key r plaintext)
  | .sealed _ _ _ => inferInstanceAs (Decidable (_ ∧ _ ∧ _))
  | .flushing _ _ _ _ _ => .isFalse id
  | .persisting _ _ _ _ _ => .isFalse id
  | .created _ _ _ => .isFalse id

/-- The record that a node holds and what it opens to. -/
def opensAs (P : Primitives) (key : StoreKey) : Node → Option (EncryptedRecordV1 × Bytes)
  | .dir => none
  | .file bytes _ => do
    let r ← (EncryptedRecordV1.decode bytes).toOption
    let plaintext ← (EncryptedRecordV1.openRecord P key r).toOption
    return (r, plaintext)

/-- Every record on the disk that opens was sealed, under that key and with that header. -/
def Unforged (P : Primitives) (key : StoreKey) (history : List HistoryEntry) (fs : Fs) : Prop :=
  ∀ e ∈ fs.toList, ∀ x ∈ opensAs P key e.2, ∃ entry ∈ history, entry.Seals key x.1 x.2

/-- The disk holds the record, and it opens. -/
def Opens (P : Primitives) (key : StoreKey) (fs : Fs) (r : EncryptedRecordV1) (plaintext : Bytes) :
    Prop :=
  ∃ (path : Path) (bytes : Bytes) (synced : Bool), fs[path]? = some (.file bytes synced) ∧
    EncryptedRecordV1.decode bytes = .ok r ∧ EncryptedRecordV1.openRecord P key r = .ok plaintext

section Unforged

variable {history : List HistoryEntry} {fs : Fs} {r : EncryptedRecordV1} {plaintext : Bytes}
  {aad : RecordAad}

theorem Unforged.seals (h : Unforged P key history fs) (hledger : Ledger history)
    (hopens : Opens P key fs r plaintext) (haad : r.aad = aad) (hbounded : aad.Bounded) :
    .sealed key aad plaintext ∈ history := by
  obtain ⟨path, bytes, synced, hnode, hdecode, hopen⟩ := hopens
  have hmem : (r, plaintext) ∈ opensAs P key (.file bytes synced) := by
    simp [opensAs, hdecode, hopen, Except.toOption]
  obtain ⟨entry, hentry, hseals⟩ :=
    h (path, _) (Std.ExtTreeMap.mem_toList_iff_getElem?_eq_some.mpr hnode) _ hmem
  cases entry with
  | «sealed» key' aad' plaintext' =>
    obtain ⟨rfl, hbytes, rfl⟩ := hseals
    rw [haad] at hbytes
    obtain rfl := RecordAad.canonicalBytes_inj (hledger.bounded hentry) hbounded hbytes
    exact hentry
  | _ => exact hseals.elim

end Unforged

/-! ### Reading -/

/-- A process with the key of a store, in front of a disk. -/
structure Facing (store : StoreId) (key : StoreKey) (fs : Fs) (c : Core) : Prop where
  storeId : c.store.storeId = store
  key : c.store.key = key
  fs : c.fs = fs

section Read

variable {fs : Fs} {path : Path} {r : EncryptedRecordV1} {kind : RecordKind} {index : UInt64}

theorem facing_getStore : Keeps (Facing store key fs) getStore fun st =>
    st.storeId = store ∧ st.key = key :=
  fun _ h => ⟨h, h.storeId, h.key⟩

theorem facing_readRecord : Keeps (Facing store key fs) (readRecord path) fun r =>
    ∃ (bytes : Bytes) (synced : Bool), fs[path]? = some (.file bytes synced) ∧
      decode bytes = .ok r := by
  have hread : Keeps (Facing store key fs)
      (Act.zoom Sys.disk (fun d s => s.withDisk d) mapOpen (Disk.readFile path)) fun bytes =>
        ∃ synced : Bool, fs[path]? = some (.file bytes synced) := by
    intro s hs
    rw [wp_zoom]
    rcases Disk.readFile_cases path s.disk with ⟨bytes, hbytes, heq⟩ | ⟨_, heq⟩ | heq
    · refine wp_of_ok heq ⟨hs, ?_⟩
      obtain ⟨synced, hnode⟩ := Fs.read?_eq_some.mp hbytes
      have hfs : s.disk.fs = fs := hs.fs
      exact ⟨synced, hfs ▸ hnode⟩
    · unfold Act.wp
      rw [heq]
      exact hs
    · unfold Act.wp
      rw [heq]
      exact hs
  refine Act.Keeps.bind hread fun bytes hbytes => Act.Keeps.ofExcept.mono fun r hr => ?_
  obtain ⟨synced, hnode⟩ := hbytes
  exact ⟨bytes, synced, hnode, hr⟩

theorem ensureIdentity_eq_ok {st : Store} {u : Unit}
    (h : st.ensureIdentity r file kind index = .ok u) :
    r.aad = fileAad st.storeId file r.generation kind index r.plaintextLength.toNat := by
  have hall := except_failIf_eq_ok.mp h
  simp only [not_or, not_not] at hall
  obtain ⟨hversion, hstore, hfile, hkind, hindex⟩ := hall
  simp only [aad, fileAad, hversion, hstore, hfile, hkind, hindex,
    UInt64.ofNat_toNat]

/-- What is known of a commit record that is read. -/
theorem facing_readCommit : Keeps (Facing store key fs) (readCommit P path file) fun x =>
    ∃ plaintext, Opens P key fs x.1 plaintext ∧ CommitRecordV1.decode plaintext = .ok x.2 ∧
      x.1.aad = fileAad store file x.1.generation .commit 0 x.1.plaintextLength.toNat := by
  refine .bind facing_getStore fun st hst => .bind facing_readRecord fun r hr => ?_
  obtain ⟨hstore, hkey⟩ := hst
  refine .bind .ofExcept fun _ hid => ?_
  refine .bind .ofExcept fun commit hcommit => ?_
  refine .bind .failIf fun _ _ => .pure ?_
  obtain ⟨plaintext, hopen, hdecode⟩ := except_bind_eq_ok.mp hcommit
  obtain ⟨bytes, synced, hnode, hrecord⟩ := hr
  exact ⟨plaintext, ⟨path, bytes, synced, hnode, hrecord, hkey ▸ hopen⟩, hdecode,
    hstore ▸ ensureIdentity_eq_ok hid⟩

/-- What is known of a manifest that is read. -/
theorem facing_readManifest : Keeps (Facing store key fs) (readManifest P file generation) fun x =>
      ∃ plaintext, Opens P key fs x.1 plaintext ∧ EncryptedManifestV1.decode plaintext = .ok x.2 ∧
        x.1.aad = fileAad store file generation .manifest 0 x.1.plaintextLength.toNat := by
  refine .bind facing_getStore fun st hst => .bind facing_readRecord fun r hr => ?_
  obtain ⟨hstore, hkey⟩ := hst
  refine .bind .ofExcept fun _ hid => ?_
  refine .bind .failIf fun _ hgeneration => ?_
  refine .bind .ofExcept fun manifest hmanifest => ?_
  refine .bind .failIf fun _ _ => .pure ?_
  obtain ⟨plaintext, hopen, hdecode⟩ := except_bind_eq_ok.mp hmanifest
  obtain ⟨bytes, synced, hnode, hrecord⟩ := hr
  have haad := ensureIdentity_eq_ok hid
  rw [hstore, not_not.mp hgeneration] at haad
  exact ⟨plaintext, ⟨_, bytes, synced, hnode, hrecord, hkey ▸ hopen⟩, hdecode, haad⟩

/-- If every chunk that can be read at an index is the one of a list, then so is what is read. -/
theorem facing_readChunks {cs : List Bytes}
    (hcs : ∀ index r plaintext, index < cs.length → Opens P key fs r plaintext →
      r.aad = fileAad store file generation .chunk (UInt64.ofNat index) r.plaintextLength.toNat →
      cs[index]? = some plaintext) :
    (lengths : List UInt64) → (index : ℕ) → (nonces : NonceTracker) → (out : Bytes) →
    index + lengths.length ≤ cs.length →
    Keeps (Facing store key fs) (readChunks P file generation index lengths nonces out)
      fun result => result = out ++ ((cs.drop index).take lengths.length).flatten
  | [], _, _, _, _ => .pure (by simp)
  | length :: lengths, index, nonces, out, hle => by
    rw [List.length_cons] at hle
    refine .bind .failIf fun _ _ => ?_
    refine .bind facing_getStore fun st hst => ?_
    refine .bind facing_readRecord fun r hr => ?_
    obtain ⟨hstore, hkey⟩ := hst
    obtain ⟨bytes, synced, hnode, hrecord⟩ := hr
    refine .bind .ofExcept fun _ hid => ?_
    refine .bind .failIf fun _ hgeneration => ?_
    refine .bind .ofExcept fun nonces' _ => ?_
    refine .bind .ofExcept fun plaintext hopen => ?_
    have haad := ensureIdentity_eq_ok hid
    rw [hstore, not_not.mp (not_or.mp hgeneration).1] at haad
    have hchunk : cs[index]? = some plaintext := hcs index r plaintext (by omega)
      ⟨_, bytes, synced, hnode, hrecord, hkey ▸ hopen⟩ haad
    obtain ⟨hlt, hget⟩ := List.getElem?_eq_some_iff.mp hchunk
    refine (facing_readChunks hcs lengths (index + 1) nonces' _ (by omega)).mono fun result h => ?_
    rw [h, List.append_assoc, List.drop_eq_getElem_cons hlt, hget, List.length_cons,
      List.take_succ_cons, List.flatten_cons]

end Read

/-! ### What is read -/

/-- The content of a flush whose commit record was sealed. -/
def FlushedAs (history : List HistoryEntry) (key : StoreKey) (store : StoreId) (file : FileId)
    (generation : UInt64) (data : Bytes) : Prop :=
  ⟨store, file, generation, data⟩ ∈ flushes history ∧
    ∃ n plaintext, .sealed key (fileAad store file generation .commit 0 n) plaintext ∈ history

/-- No two flushes of a file in a store had the same generation. -/
def GenerationsApart (history : List HistoryEntry) : Prop :=
  ∀ f ∈ flushes history, ∀ g ∈ flushes history, f.store = g.store → f.file = g.file →
    f.generation = g.generation → f.data = g.data

/-- No file that was flushed has the name under which namespaces are sealed. -/
def FilesNamed (history : List HistoryEntry) : Prop :=
  ∀ f ∈ flushes history, f.file.toWire ≠ namespaceIndex

section Sound

variable {history : List HistoryEntry} {fs : Fs} {pointer : Path}
  {identity : CapturedStoreIdentity}

/-- The chunks on the disk are those of the flush of their generation. -/
theorem Unforged.chunk (hunforged : Unforged P key history fs) (hledger : Ledger history)
    (hapart : GenerationsApart history)
    (hflushing : ⟨store, file, generation, data⟩ ∈ flushes history)
    (hcount : (chunks chunkSize data).length ≤ 2 ^ 32 - 1) (index : ℕ) (r : EncryptedRecordV1)
    (plaintext : Bytes) (hlt : index < (chunks chunkSize data).length)
    (hopens : Opens P key fs r plaintext)
    (haad : r.aad =
      fileAad store file generation .chunk (UInt64.ofNat index) r.plaintextLength.toNat) :
    (chunks chunkSize data)[index]? = some plaintext := by
  obtain ⟨data', j, hflushing', hindex, hchunk⟩ :=
    hledger.chunk (hunforged.seals hledger hopens haad bounded_fileAad)
  obtain rfl : data = data' := hapart _ hflushing _ hflushing' rfl rfl rfl
  have hj := (List.getElem?_eq_some_iff.mp hchunk).1
  have hnat := congrArg UInt64.toNat hindex
  rw [UInt64.toNat_ofNat_of_lt' (by norm_num [UInt64.size]; omega),
    UInt64.toNat_ofNat_of_lt' (by norm_num [UInt64.size]; omega)] at hnat
  rw [hnat]
  exact hchunk

/-- A pointer that can be read refers to a flush of that file whose commit record was sealed. -/
theorem facing_readCommit_sealed (hledger : Ledger history) (hunforged : Unforged P key history fs) :
    Keeps (Facing store key fs) (readCommit P pointer file) fun x =>
      ∃ data, FlushedAs history key store file x.2.generation data := by
  refine facing_readCommit.mono fun x hx => ?_
  obtain ⟨plaintext, hopens, hdecode, haad⟩ := hx
  have hcommit := hunforged.seals hledger hopens haad bounded_fileAad
  obtain ⟨⟨data, hflushing⟩, hplaintext⟩ := hledger.commit hcommit
  rw [hplaintext, CommitRecordV1.decode_layout isName_fileId] at hdecode
  have hgeneration : x.2.generation = x.1.generation :=
    congrArg CommitRecordV1.generation (Except.ok.inj hdecode).symm
  rw [hgeneration]
  exact ⟨data, hflushing, _, _, hcommit⟩

/-- A read gives the whole content of a flush of that file. -/
theorem facing_readFromPointer (hledger : Ledger history) (hapart : GenerationsApart history)
    (hnamed : FilesNamed history) (hunforged : Unforged P key history fs) :
    Keeps (Facing store key fs) (readFromPointer P pointer file) fun data =>
      ∃ generation, FlushedAs history key store file generation data := by
  refine .bind (facing_readCommit_sealed hledger hunforged) fun selected hselected => ?_
  obtain ⟨data, hflushing, hcommit⟩ := hselected
  refine .bind keeps_checkCommitted fun _ _ => ?_
  refine .bind facing_readManifest fun listed hlisted => ?_
  obtain ⟨bytes, hopens', hdecode', haad'⟩ := hlisted
  obtain ⟨data', hflushing', hencode⟩ := hledger.manifest (hnamed _ hflushing)
    (hunforged.seals hledger hopens' haad' bounded_fileAad)
  obtain rfl : data = data' := hapart _ hflushing _ hflushing' rfl rfl rfl
  have hmanifest : listed.2 = manifestOf file selected.2.generation data := by
    rw [EncryptedManifestV1.decode_encode isName_fileId hencode] at hdecode'
    split at hdecode'
    · exact (Except.ok.inj hdecode').symm
    · cases hdecode'
  have hlengths : listed.2.chunkLengths.length = (chunks chunkSize data).length := by
    rw [hmanifest]
    exact List.length_map ..
  have hcount : (chunks chunkSize data).length ≤ 2 ^ 32 - 1 := by
    have hle := (EncryptedManifestV1.encode_eq_ok.mp hencode).2.1
    rwa [← hmanifest, hlengths] at hle
  refine .bind .ofExcept fun _ _ => .bind .ofExcept fun _ _ => ?_
  refine .bind (facing_readChunks (hunforged.chunk hledger hapart hflushing hcount) _ 0 _ []
    (by omega)) fun out hout => ?_
  refine .bind .failIf fun _ _ => .pure ⟨selected.2.generation, ?_, hcommit⟩
  rw [hlengths, List.drop_zero, List.take_length, List.nil_append,
    flatten_chunks (by rw [chunkSize_eq]; norm_num)] at hout
  rw [hout]
  exact hflushing

theorem orReject_eq_ok {α : Type} {x : Except StorageError α} {a : α}
    (h : orReject P x s = .ok a t) : x = .ok a ∧ s = t := by
  cases x with
  | ok b =>
    obtain ⟨rfl, rfl⟩ := pure_eq_ok.mp h
    exact ⟨rfl, rfl⟩
  | error e =>
    have hkeeps : EvidenceKeeps fun _ => True :=
      ⟨fun _ _ _ _ _ _ => trivial, fun _ _ _ _ => trivial⟩
    exact ((hkeeps.keeps_rejectNamespace (R := fun _ : α => False)).of_ok trivial h).2.elim

/-- The record from which a store was loaded opens with the header of its namespace, and its lines
were loaded. -/
theorem loadRecord_eq_ok {raw : Bytes} {u : Unit} (h : loadRecord P raw s = .ok u t) :
    ∃ record plaintext text v, decode raw = .ok record ∧
      record.aad = namespaceAad s.store.storeId record.generation record.plaintextLength.toNat ∧
      openRecord P s.store.key record = .ok plaintext ∧
      fromUtf8 plaintext = some text ∧ loadLines P (textLines text) s = .ok () v ∧
      t = v.mapStore fun store => { store with namespaceGeneration := record.generation } := by
  obtain ⟨st, _, hst, h⟩ := bind_eq_ok.mp h
  cases hst
  obtain ⟨record, _, hrecord, h⟩ := bind_eq_ok.mp h
  obtain ⟨hdecode, rfl⟩ := orReject_eq_ok hrecord
  obtain ⟨_, _, hcheck, h⟩ := bind_eq_ok.mp h
  obtain ⟨hheader, rfl⟩ := orReject_eq_ok hcheck
  obtain ⟨plaintext, _, hplaintext, h⟩ := bind_eq_ok.mp h
  obtain ⟨hopen, rfl⟩ := orReject_eq_ok hplaintext
  obtain ⟨text, _, hdecoded, h⟩ := bind_eq_ok.mp h
  obtain ⟨htext, rfl⟩ := ofOption_eq_ok.mp hdecoded
  obtain ⟨_, v, hlines, h⟩ := bind_eq_ok.mp h
  cases h
  refine ⟨record, plaintext, text, v, hdecode, ?_, hopen, htext, hlines, rfl⟩
  obtain ⟨hversion, hstore, hfile, hkind, hindex⟩ := not_not.mp (except_failIf_eq_ok.mp hheader)
  simp only [aad, namespaceAad, hversion, hstore, hfile, hkind, hindex,
    UInt64.ofNat_toNat]

theorem readBytes_eq_ok {path : Path} {bytes : Bytes} (h : readBytes path s = .ok bytes t) :
    (∃ synced, s.disk.fs[path]? = some (.file bytes synced)) ∧ t.store = s.store := by
  unfold readBytes at h
  rw [zoom_apply] at h
  rcases Disk.readFile_cases path s.disk with ⟨bytes', hbytes, heq⟩ | ⟨_, heq⟩ | heq
  · rw [heq] at h
    cases h
    exact ⟨Fs.read?_eq_some.mp hbytes, rfl⟩
  · rw [heq] at h
    cases h
  · rw [heq] at h
    cases h

/-- A store that was opened found no namespace, or loaded the record that it found. -/
theorem openStore_loaded (h : openStore P identity key s = .ok () t) :
    s.disk.fs[namespacePath identity.storeId]? = none ∨
      ∃ raw synced u, s.disk.fs[namespacePath identity.storeId]? = some (.file raw synced) ∧
        u.store = { identity, key } ∧ loadRecord P raw u = .ok () t := by
  obtain ⟨_, s₁, h₁, h⟩ := bind_eq_ok.mp h
  obtain ⟨fs, he, rfl⟩ := io_eq_ok h₁
  have hnode : fs[namespacePath identity.storeId]? =
      s.disk.fs[namespacePath identity.storeId]? := by
    rw [(FsOp.effect_createDirAll.mp he).2]
    exact (Fs.get_insertDirs _).trans (if_neg namespacePath_not_mem)
  obtain ⟨_, s₂, h₂, h⟩ := bind_eq_ok.mp h
  cases h₂
  obtain ⟨st, s₃, h₃, h⟩ := bind_eq_ok.mp h
  cases h₃
  obtain ⟨found, s₄, h₄, h⟩ := bind_eq_ok.mp h
  cases h₄
  split at h
  · obtain ⟨raw, s₅, h₅, h⟩ := bind_eq_ok.mp h
    obtain ⟨⟨synced, hraw⟩, hstore⟩ := readBytes_eq_ok h₅
    exact Or.inr ⟨raw, synced, s₅, hnode.symm.trans hraw, hstore, h⟩
  · next habsent =>
    change ¬fs.present (namespacePath identity.storeId) = true at habsent
    rw [Fs.present_eq (show namespacePath identity.storeId ≠ [] from List.cons_ne_nil _ _)] at habsent
    exact Or.inl (hnode.symm.trans (Option.not_isSome_iff_eq_none.mp habsent))

/-- A store that was opened found no namespace, or a record that it could open. -/
theorem openStore_found (h : openStore P identity key s = .ok () t) :
    s.disk.fs[namespacePath identity.storeId]? = none ∨ ∃ raw synced record plaintext,
    s.disk.fs[namespacePath identity.storeId]? = some (.file raw synced) ∧ decode
    raw = .ok record ∧ record.aad = namespaceAad identity.storeId record.generation
    record.plaintextLength.toNat ∧ openRecord P key record = .ok plaintext := by
  refine (openStore_loaded h).imp_right ?_
  rintro ⟨raw, synced, u, hraw, hstore, hload⟩
  obtain ⟨record, plaintext, -, -, hdecode, haad, hopen, -⟩ := loadRecord_eq_ok hload
  rw [hstore] at haad hopen
  exact ⟨raw, synced, record, plaintext, hraw, hdecode, haad, hopen⟩

/-- Opening a store loads a namespace that was sealed for it, or none. -/
theorem openStore_sound (hledger : Ledger history) (hnamed : FilesNamed history)
    (hplain : ∀ n ∈ snapshots history, n.session.key = keys n.session.storeId ∧
      PlainEntries n.directories n.files)
    (hkey : key = keys identity.storeId) (hunforged : Unforged P key history s.disk.fs)
    (h : openStore P identity key s = .ok () t) :
    (s.disk.fs[namespacePath identity.storeId]? = none ∧ t.store = { identity, key }) ∨
      ∃ n ∈ snapshots history, n.session.storeId = identity.storeId ∧
        .sealed key n.header n.bytes ∈ history ∧ t.store = n.load identity key := by
  have hstore : ∀ {loaded : Store},
      Loads P identity key s.disk.fs[namespacePath identity.storeId]? loaded → t.store = loaded :=
    fun hloads => congrArg Core.store (openStore_eq_ok h hloads)
  rcases openStore_found h with hnone | ⟨raw, synced, record, plaintext, hnode, hdecode, haad, hopen⟩
  · have hloads : Loads P identity key s.disk.fs[namespacePath identity.storeId]?
        { identity, key } := hnone ▸ .absent
    exact Or.inl ⟨hnone, hstore hloads⟩
  · have hbounded : (namespaceAad identity.storeId record.generation
        record.plaintextLength.toNat).Bounded :=
      ⟨identity.storeId.length_utf8_toWire, by
        change (utf8 namespaceIndex).length < 2 ^ 16
        decide⟩
    have hsealed := hunforged.seals hledger ⟨_, raw, synced, hnode, hdecode, hopen⟩ haad hbounded
    obtain ⟨n, hn, hheader, rfl⟩ := hledger.persisted hnamed hsealed
    have hid : n.session.storeId = identity.storeId :=
      (Identifier.ext (congrArg RecordAad.storeId hheader)).symm
    have hsame : n.session.key = key := by
      rw [(hplain n hn).1, hid, hkey]
    have hpublished : n.PublishedAs P s.disk.fs[namespacePath identity.storeId]? :=
      ⟨raw, synced, record, hnode, hdecode, haad.trans hheader, hsame ▸ hopen⟩
    exact Or.inr ⟨n, hn, hid, hheader ▸ hsealed,
      hstore (.record hid hsame (hplain n hn).2 hpublished)⟩

end Sound

/-! ### Runs -/

section Runs

variable {w w₀ : World}

/-- The files that were flushed were created through the namespace. -/
def FlushedFilesCreated (history : List HistoryEntry) : Prop :=
  ∀ f ∈ flushes history, ∃ c ∈ creations history, c.store = f.store ∧ c.file = f.file

theorem FlushedFilesCreated.named {history : List HistoryEntry} (h : FlushedFilesCreated history)
    (hcreated : ∀ c ∈ creations history, newFileId c.number = .ok c.file) : FilesNamed history := by
  intro f hf heq
  obtain ⟨c, hc, -, hfile⟩ := h f hf
  rw [← hfile, toWire_of_newFileId (hcreated c hc)] at heq
  have hhead : some 'f' = some 'n' := congrArg List.head? heq
  exact absurd hhead (by decide)

/-- After any run in which files created through the namespace were flushed, each time under a
generation of its own, and on any disk whose records were not forged: a read fails or gives the whole
content of one flush of that file whose commit record was sealed, and opening a store fails or loads
one namespace that was sealed for it, or the empty one if there is none on the disk. -/
theorem tampered_reads (hP : P.Correct) (hfresh : w₀.Fresh) {inputs : List Input}
    (hkeyed : ∀ i ∈ inputs, i.Keyed keys) (hw : w = w₀.run P inputs)
    (hcreated : FlushedFilesCreated w.sys.history) (hapart : GenerationsApart w.sys.history)
    (hkey : key = keys store) (hunforged : Unforged P key w.sys.history s.disk.fs) :
    (∀ file data t, s.store.storeId = store → s.store.key = key →
      readFile P file s = .ok data t →
        ∃ generation, FlushedAs w.sys.history key store file generation data) ∧
    ∀ identity t, identity.storeId = store → openStore P identity key s = .ok () t →
      (s.disk.fs[namespacePath store]? = none ∧ t.store = { identity, key }) ∨
        ∃ n ∈ snapshots w.sys.history, n.session.storeId = store ∧
          .sealed key n.header n.bytes ∈ w.sys.history ∧ t.store = n.load identity key := by
  have hledger : Ledger w.sys.history := by
    rw [hw]
    exact World.disk_run (I := fun _ history => Ledger history) hP ledger_invariant hfresh nofun
      hkeyed
  have hstored : Stored P keys (fun _ _ n => n.WellFormed) w.sys.view := by
    rw [hw]
    exact (World.holds_run hP wellFormed_invariant hfresh hkeyed).stored
  have hnamed : FilesNamed w.sys.history := hcreated.named hstored.named
  constructor
  · intro file data t hstore hsame hread
    obtain ⟨_, _, hget, hread⟩ := bind_eq_ok.mp hread
    cases hget
    exact ((facing_readFromPointer hledger hapart hnamed hunforged).of_ok ⟨hstore, hsame, rfl⟩
      hread).2
  · rintro identity t rfl hopen
    exact openStore_sound hledger hnamed
      (fun n hn => ⟨hstored.keyed n hn, (hstored.persisted n hn).plainEntries⟩) hkey hunforged hopen

/-- A file was created, written and flushed. -/
def oneFlush : World :=
  (World.empty []).run .plain (soleOpening ++ [.createOrOpen solePath true true,
    .writeHandle ⟨1⟩ 0 [7], .flushHandle ⟨1⟩].map .call)

/-- The namespace is gone, and the pointer of the file is also the one of another file. -/
def tampered : Sys :=
  let selected := selectedPath soleIdentity.storeId
  let fs := oneFlush.sys.disk.fs
  oneFlush.sys.withDisk { oneFlush.sys.disk with
    fs := (fs.erase (namespacePath soleIdentity.storeId)).insert (selected soleFile)
      (fs[selected createdFile]?.getD .dir) }

theorem tampered_reads_tampered :
    (∀ file data t, tampered.store.storeId = soleIdentity.storeId → tampered.store.key = zeroKey →
      readFile .plain file tampered = .ok data t →
        ∃ generation, FlushedAs oneFlush.sys.history zeroKey soleIdentity.storeId file generation data) ∧
    ∀ identity t, identity.storeId = soleIdentity.storeId →
      openStore .plain identity zeroKey tampered = .ok () t →
      (tampered.disk.fs[namespacePath soleIdentity.storeId]? = none ∧
        t.store = { identity, key := zeroKey }) ∨
        ∃ n ∈ snapshots oneFlush.sys.history, n.session.storeId = soleIdentity.storeId ∧
          .sealed zeroKey n.header n.bytes ∈ oneFlush.sys.history ∧
            t.store = n.load identity zeroKey :=
  tampered_reads Primitives.plain_correct World.empty_fresh soleOpening_keyed rfl
    (by unfold FlushedFilesCreated; decide +kernel) (by unfold GenerationsApart; decide +kernel) rfl
    (by unfold Unforged; decide +kernel)

example : (readFile .plain createdFile tampered).result? = some (.ok [7]) := by decide +kernel

example : (readFile .plain soleFile tampered).result? = some (.error .integrityFailure) := by
  decide +kernel

end Runs

end Wdlp
