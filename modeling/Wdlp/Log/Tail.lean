import Wdlp.Lib.Lines
import Wdlp.Lib.Text

/-!
# The bounded tail of a log

The debug service shows the end of a log: as many of the last lines as were asked for, as far as
they are complete and lie in the last bytes of the file. The service seeks to the beginning of that
window, looks at the byte in front of it, drops a first line that began earlier and a last line that
is not ended, and counts the newlines from the end.

Each access to the file may fail; the file does not change while it is read.

## Main definitions

* `LogFile`, `readBoundedTailFile` — a file, and the end of it that is shown.
* `fileLines`, `linesWithin`, `lastLines` — the lines of a file, how many of them begin in the last
  bytes, and the last of them.

## Main results

* `WindowCut.linesWithin_eq` — the lines that begin in the window are those of what is kept of it.
* `lastRequested_flatten` — counting newlines from the end finds the last lines.
* `readBoundedTailFile_exact` — the tail is exact.
-/

namespace Wdlp

open CrashSafe

inductive TailReadError where
  | io
  | invalidText
  deriving DecidableEq, Repr

/-- The accesses to the file, in order. -/
inductive TailAccess where
  | metadata
  | seekBefore
  | readBefore
  | seek
  | readToEnd
  deriving DecidableEq, Repr

/-- An open file: its content, and the accesses that fail. -/
structure LogFile where
  content : Bytes
  fails : TailAccess → Bool

/-- An access to the file. -/
def LogFile.access (file : LogFile) (a : TailAccess) : Except TailReadError Unit :=
  if file.fails a then .error .io else .ok ()

def newline : UInt8 := 10

/-- The position of the first newline. -/
def position (bytes : Bytes) : Option ℕ := bytes.findIdx? (· == newline)

/-- The position of the last newline. -/
def rposition (bytes : Bytes) : Option ℕ :=
  (bytes.zipIdx.reverse.find? (·.1 == newline)).map Prod.snd

/-- The bytes that are read without an unfinished line at either end, if there are any. -/
def completeLines (startsAtLineBoundary : Bool) (bytes : Bytes) : Option Bytes := do
  let bytes ← if startsAtLineBoundary then some bytes else
    (position bytes).map fun firstNewline => bytes.drop (firstNewline + 1)
  let lastNewline ← rposition bytes
  return bytes.take (lastNewline + 1)

/-- The loop that counts newlines from the end, over the bytes and their positions: where the
requested lines begin. -/
def startOfLines (requestedLines : ℕ) : List (UInt8 × ℕ) → (lineCount : ℕ) → ℕ
  | [], _ => 0
  | (byte, index) :: rest, lineCount =>
    if byte = newline then
      if requestedLines < lineCount + 1 then index + 1
      else startOfLines requestedLines rest (lineCount + 1)
    else startOfLines requestedLines rest lineCount

/-- The requested lines at the end. -/
def lastRequested (requestedLines : ℕ) (bytes : Bytes) : Bytes :=
  let start := startOfLines requestedLines bytes.zipIdx.reverse 0
  if start ≠ 0 then bytes.drop start else bytes

/-- Whether the window begins where a line does. -/
def LogFile.startsAtLineBoundary (file : LogFile) (readStart : ℕ) : Except TailReadError Bool :=
  if readStart = 0 then .ok true
  else do
    file.access .seekBefore
    file.access .readBefore
    return file.content[readStart - 1]? == some newline

/-- `read_bounded_tail_file`. -/
def readBoundedTailFile (file : LogFile) (requestedLines maxResponseBytes : ℕ) :
    Except TailReadError Text := do
  failIf (requestedLines = 0 ∨ maxResponseBytes = 0) TailReadError.io
  file.access .metadata
  let length := file.content.length
  let readStart := length - maxResponseBytes
  let startsAtLineBoundary ← file.startsAtLineBoundary readStart
  file.access .seek
  file.access .readToEnd
  let bytes := (file.content.drop readStart).take maxResponseBytes
  match completeLines startsAtLineBoundary bytes with
  | none => return []
  | some bytes =>
    match fromUtf8 (lastRequested requestedLines bytes) with
    | some text => return text
    | none => throw .invalidText

/-! ### The lines of a file -/

/-- The lines of a file that are ended by a newline, each with it. -/
def fileLines (content : Bytes) : List Bytes := terminated newline content

/-- How many lines begin in the last bytes of a file: the line with the number `i` begins behind the
lines before it. -/
def linesWithin (content : Bytes) (maxBytes : ℕ) : ℕ :=
  ((List.range (fileLines content).length).filter fun i =>
    content.length - maxBytes ≤ ((fileLines content).take i).flatten.length).length

/-- The last lines of a file, one behind the other. -/
def lastLines (content : Bytes) (count : ℕ) : Bytes :=
  ((fileLines content).drop ((fileLines content).length - count)).flatten

/-! ### Positions of newlines -/

variable {bytes : Bytes}

theorem position_eq_none (h : newline ∉ bytes) : position bytes = none := by
  rw [position, List.findIdx?_eq_none_iff]
  intro byte hbyte
  exact beq_false_of_ne fun heq => h (heq ▸ hbyte)

theorem position_append : (b : Bytes) → {l : Bytes} → newline ∉ b →
    position (b ++ newline :: l) = some b.length
  | [], _, _ => rfl
  | byte :: b, l, h => by
    rw [List.mem_cons, not_or] at h
    have ih := position_append b (l := l) h.2
    rw [position] at ih
    rw [position, List.cons_append, List.findIdx?_cons, beq_false_of_ne (Ne.symm h.1), ih]
    rfl

theorem find_newline_eq_none (h : newline ∉ bytes) (start : ℕ) :
    (bytes.zipIdx start).reverse.find? (·.1 == newline) = none := by
  rw [List.find?_eq_none]
  intro entry hentry heq
  have hmem := List.fst_mem_of_mem_zipIdx (List.mem_reverse.mp hentry)
  exact h (beq_iff_eq.mp heq ▸ hmem)

theorem rposition_eq_none (h : newline ∉ bytes) : rposition bytes = none := by
  rw [rposition, find_newline_eq_none h]
  rfl

theorem rposition_append (l : Bytes) {rest : Bytes} (h : newline ∉ rest) :
    rposition (l ++ newline :: rest) = some l.length := by
  rw [rposition, List.zipIdx_append, List.zipIdx_cons, List.reverse_append, List.reverse_cons,
    List.find?_append, List.find?_append, find_newline_eq_none h]
  simp

/-- Lines end in a newline. -/
theorem exists_flatten_eq_concat (h : fileLines bytes ≠ []) :
    ∃ front, (fileLines bytes).flatten = front ++ [newline] := by
  obtain ⟨lines, line, hconcat⟩ := (List.eq_nil_or_concat' _).resolve_left h
  have hline : line ∈ terminated newline bytes := by
    rw [← fileLines, hconcat]
    exact List.mem_append_right _ List.mem_cons_self
  obtain ⟨b, -, rfl⟩ := exists_of_mem_terminated hline
  exact ⟨lines.flatten ++ b, by
    rw [hconcat, List.flatten_append, List.flatten_singleton, List.append_assoc]⟩

/-- A file is its lines and a rest without a newline. -/
theorem exists_rest (bytes : Bytes) :
    ∃ rest, newline ∉ rest ∧ bytes = (fileLines bytes).flatten ++ rest :=
  exists_flatten_terminated newline bytes

/-- Up to the last newline there are the lines, if there are any. -/
theorem take_rposition (bytes : Bytes) : (rposition bytes).map (fun last => bytes.take (last + 1)) =
      if fileLines bytes = [] then none else some (fileLines bytes).flatten := by
  obtain ⟨rest, hrest, hbytes⟩ := exists_rest bytes
  split_ifs with hlines
  · rw [hlines, List.flatten_nil, List.nil_append] at hbytes
    rw [rposition_eq_none (hbytes ▸ hrest)]
    rfl
  · -- the lines end in a newline, behind which there is none
    obtain ⟨front, hfront⟩ := exists_flatten_eq_concat hlines
    rw [hfront, List.append_assoc, List.singleton_append] at hbytes
    rw [hfront, hbytes, rposition_append front hrest, Option.map_some, List.take_length_add_append]
    rfl

/-! ### The window -/

theorem completeLines_true (bytes : Bytes) : completeLines true bytes =
      if fileLines bytes = [] then none else some (fileLines bytes).flatten := by
  rw [← take_rposition]
  cases h : rposition bytes <;> simp [completeLines, h]

theorem completeLines_of_notMem (h : newline ∉ bytes) : completeLines false bytes = none := by
  simp [completeLines, position_eq_none h]

theorem completeLines_false {b l : Bytes} (h : newline ∉ b) :
    completeLines false (b ++ newline :: l) = completeLines true l := by
  have hdrop : (b ++ newline :: l).drop (b.length + 1) = l := by
    rw [List.drop_length_add_append]
    rfl
  simp [completeLines, position_append b h, hdrop]

/-- What is kept of a window that begins at `readStart`: in front of it there are whole lines, which
all begin before the window; what is kept lies in the window, unless it holds no line. -/
structure WindowCut (content : Bytes) (readStart : ℕ) (front back : Bytes) : Prop where
  split : content = front ++ back
  whole : (fileLines front).flatten = front
  before : ∀ i < (fileLines front).length, ((fileLines front).take i).flatten.length < readStart
  within : fileLines back ≠ [] → readStart ≤ front.length

namespace WindowCut

variable {content front back : Bytes} {readStart : ℕ}

theorem fileLines_eq (h : WindowCut content readStart front back) :
    fileLines content = fileLines front ++ fileLines back := by
  rw [h.split]
  exact terminated_append h.whole

/-- The lines that begin in the window are those of what is kept of it. -/
theorem linesWithin_eq {maxBytes : ℕ}
    (h : WindowCut content (content.length - maxBytes) front back) :
    linesWithin content maxBytes = (fileLines back).length := by
  have hfront : (List.range (fileLines front).length).filter (fun i =>
      content.length - maxBytes ≤ ((fileLines content).take i).flatten.length) = [] := by
    refine List.filter_eq_nil_iff.mpr fun i hi => ?_
    have hlt := List.mem_range.mp hi
    rw [h.fileLines_eq, List.take_append_of_le_length hlt.le, decide_eq_true_eq]
    exact not_le.mpr (h.before i hlt)
  have hback : ((List.range (fileLines back).length).map ((fileLines front).length + ·)).filter
      (fun i => content.length - maxBytes ≤ ((fileLines content).take i).flatten.length) =
      (List.range (fileLines back).length).map ((fileLines front).length + ·) := by
    refine List.filter_eq_self.mpr fun i hi => ?_
    obtain ⟨j, hj, rfl⟩ := List.mem_map.mp hi
    have hne : fileLines back ≠ [] := by
      intro hnil
      rw [hnil] at hj
      exact absurd hj (by simp)
    rw [h.fileLines_eq, List.take_length_add_append, List.flatten_append, h.whole]
    have := h.within hne
    simp only [List.length_append, decide_eq_true_eq]
    omega
  rw [linesWithin, h.fileLines_eq, List.length_append, List.range_add, List.filter_append,
    ← h.fileLines_eq, hfront, hback, List.nil_append, List.length_map, List.length_range]

/-- The last lines of the file that begin in the window. -/
theorem lastLines_eq (h : WindowCut content readStart front back) (count : ℕ) :
    lastLines content (min count (fileLines back).length) =
      ((fileLines back).drop ((fileLines back).length - count)).flatten := by
  have hdrop : (fileLines front ++ fileLines back).length - min count (fileLines back).length =
      (fileLines front).length + ((fileLines back).length - count) := by
    rw [List.length_append]
    omega
  rw [lastLines, h.fileLines_eq, hdrop, List.drop_length_add_append]

theorem length_lastLines_le {maxBytes : ℕ}
    (h : WindowCut content (content.length - maxBytes) front back) (count : ℕ) :
    (((fileLines back).drop count).flatten).length ≤ maxBytes := by
  obtain ⟨rest, -, hrest⟩ := exists_rest back
  have hback := congrArg List.length hrest
  have hsplit := congrArg List.length h.split
  have hparts := congrArg List.length
    (congrArg List.flatten (List.take_append_drop count (fileLines back)))
  rw [List.flatten_append] at hparts
  rw [List.length_append] at hback hsplit hparts
  by_cases hne : fileLines back = []
  · simp [hne]
  · have := h.within hne
    omega

end WindowCut

/-- Each line begins before the last one ends. -/
theorem length_take_fileLines_lt {i : ℕ} (h : i < (fileLines bytes).length) :
    ((fileLines bytes).take i).flatten.length < (fileLines bytes).flatten.length := by
  obtain ⟨b, -, hline⟩ := exists_of_mem_terminated (List.getElem_mem h)
  conv_rhs => rw [← List.take_append_drop i (fileLines bytes), List.drop_eq_getElem_cons h, hline]
  simp only [List.flatten_append, List.flatten_cons, List.length_append, List.length_singleton]
  omega

section Cuts

variable {content : Bytes} {readStart : ℕ}

section

variable (hle : readStart ≤ content.length)

include hle

/-- The window begins where a line does: nothing is dropped. -/
theorem windowCut_boundary (h : readStart = 0 ∨ content[readStart - 1]? = some newline) :
    WindowCut content readStart (content.take readStart) (content.drop readStart) := by
  have hlength : (content.take readStart).length = readStart := List.length_take_of_le hle
  have hwhole : (fileLines (content.take readStart)).flatten = content.take readStart := by
    rcases h with rfl | hbyte
    · rw [List.take_zero]
      rfl
    · rcases Nat.eq_zero_or_pos readStart with rfl | hpos
      · rw [List.take_zero]
        rfl
      obtain ⟨r, rfl⟩ := Nat.exists_eq_succ_of_ne_zero hpos.ne'
      rw [List.take_add_one, show content[r]? = some newline from hbyte]
      exact flatten_terminated_concat _
  refine ⟨(List.take_append_drop _ _).symm, hwhole, fun i hi => ?_, fun _ => hlength.ge⟩
  have hlt := length_take_fileLines_lt hi
  rwa [hwhole, hlength] at hlt

section

variable (h : ¬(readStart = 0 ∨ content[readStart - 1]? = some newline))

include h

/-- The bytes in front of a window that does not begin where a line does: lines and a part of one. -/
theorem exists_unfinished : ∃ rest, newline ∉ rest ∧ rest ≠ [] ∧
      content.take readStart = (fileLines (content.take readStart)).flatten ++ rest := by
  obtain ⟨rest, hrest, hsplit⟩ := exists_rest (content.take readStart)
  refine ⟨rest, hrest, ?_, hsplit⟩
  -- otherwise the byte in front of the window ends a line
  rintro rfl
  rw [List.append_nil] at hsplit
  rw [not_or] at h
  have hlength : (content.take readStart).length = readStart := List.length_take_of_le hle
  have hne : fileLines (content.take readStart) ≠ [] := by
    intro hnil
    rw [hnil, List.flatten_nil] at hsplit
    rw [hsplit] at hlength
    exact h.1 hlength.symm
  obtain ⟨front, hfront⟩ := exists_flatten_eq_concat hne
  rw [hfront] at hsplit
  have hsize : front.length + 1 = readStart := by
    rw [← hlength, hsplit, List.length_append, List.length_singleton]
  have hindex : readStart - 1 = front.length := by omega
  have hlt : front.length < readStart := by omega
  refine h.2 ?_
  rw [hindex, ← List.getElem?_take_of_lt hlt, hsplit, List.getElem?_concat_length]

/-- No newline in the window: nothing is kept of it. -/
theorem windowCut_none (hwindow : newline ∉ content.drop readStart) :
    ∃ front back, WindowCut content readStart front back ∧ fileLines back = [] := by
  obtain ⟨rest, hrest, -, hsplit⟩ := exists_unfinished hle h
  have hback : fileLines (rest ++ content.drop readStart) = [] :=
    terminated_of_notMem _ (by simpa using ⟨hrest, hwindow⟩)
  refine ⟨(fileLines (content.take readStart)).flatten, rest ++ content.drop readStart,
    ⟨?_, ?_, ?_, fun hne => absurd hback hne⟩, hback⟩
  · rw [← List.append_assoc, ← hsplit, List.take_append_drop]
  · rw [fileLines, fileLines, terminated_flatten]
  · intro i hi
    have hlines : fileLines (fileLines (content.take readStart)).flatten =
        fileLines (content.take readStart) := terminated_flatten newline _
    rw [hlines] at hi ⊢
    refine (length_take_fileLines_lt hi).trans_le ?_
    have hlength := congrArg List.length hsplit
    rw [List.length_append, List.length_take_of_le hle] at hlength
    omega

/-- The window begins within a line, which is dropped. -/
theorem windowCut_dropped
    {b back : Bytes} (hb : newline ∉ b) (hwindow : content.drop readStart = b ++ newline :: back) :
    WindowCut content readStart (content.take readStart ++ (b ++ [newline])) back := by
  obtain ⟨rest, hrest, hne, hsplit⟩ := exists_unfinished hle h
  have hlength := congrArg List.length hsplit
  rw [List.length_append, List.length_take_of_le hle] at hlength
  have hpos := List.length_pos_iff.mpr hne
  -- in front of what is kept there are the lines before the window and the one that reaches into it
  have hlines : fileLines (content.take readStart ++ (b ++ [newline])) =
      fileLines (content.take readStart) ++ [rest ++ b ++ [newline]] := by
    have hrest' : newline ∉ rest ++ b := by simpa using ⟨hrest, hb⟩
    have hwhole : (terminated newline (fileLines (content.take readStart)).flatten).flatten =
        (fileLines (content.take readStart)).flatten := by
      rw [fileLines, terminated_flatten]
    have hlast : terminated newline (rest ++ b ++ [newline]) = [rest ++ b ++ [newline]] :=
      terminated_cons (rest ++ b) hrest'
    conv_lhs => rw [hsplit, List.append_assoc, ← List.append_assoc rest, fileLines,
      terminated_append hwhole, hlast]
    rw [fileLines, terminated_flatten]
  refine ⟨?_, ?_, fun i hi => ?_, fun _ => ?_⟩
  · rw [List.append_assoc, List.append_assoc, List.singleton_append, ← hwindow,
      List.take_append_drop]
  · rw [← List.append_assoc]
    exact flatten_terminated_concat _
  · rw [hlines, List.length_append, List.length_singleton] at hi
    rw [hlines, List.take_append_of_le_length (Nat.le_of_lt_succ hi)]
    have hparts := congrArg List.length (congrArg List.flatten
      (List.take_append_drop i (fileLines (content.take readStart))))
    rw [List.flatten_append, List.length_append] at hparts
    omega
  · rw [List.length_append, List.length_take_of_le hle]
    omega

end

end

end Cuts

/-- What the service keeps of the window. -/
theorem exists_windowCut (content : Bytes) (readStart : ℕ) (hle : readStart ≤ content.length) :
    ∃ front back, WindowCut content readStart front back ∧ completeLines
    (decide (readStart = 0 ∨ content[readStart - 1]? = some newline)) (content.drop readStart) =
        if fileLines back = [] then none else some (fileLines back).flatten := by
  by_cases h : readStart = 0 ∨ content[readStart - 1]? = some newline
  · exact ⟨_, _, windowCut_boundary hle h, by rw [decide_eq_true h, completeLines_true]⟩
  · rw [decide_eq_false h]
    by_cases hmem : newline ∈ content.drop readStart
    · obtain ⟨b, back, hwindow, hb⟩ := List.eq_append_cons_of_mem hmem
      refine ⟨_, back, windowCut_dropped hle h hb hwindow, ?_⟩
      rw [hwindow, completeLines_false hb, completeLines_true]
    · obtain ⟨front, back, hcut, hback⟩ := windowCut_none hle h hmem
      exact ⟨front, back, hcut, by rw [completeLines_of_notMem hmem, if_pos hback]⟩

/-! ### Counting from the end -/

theorem startOfLines_skip (requestedLines lineCount : ℕ) (rest : List (UInt8 × ℕ)) :
    (entries : List (UInt8 × ℕ)) → (∀ entry ∈ entries, entry.1 ≠ newline) → startOfLines
    requestedLines (entries ++ rest) lineCount = startOfLines requestedLines rest lineCount
  | [], _ => rfl
  | entry :: entries, h => by
    rw [List.cons_append, startOfLines, if_neg (h entry List.mem_cons_self)]
    exact startOfLines_skip requestedLines lineCount rest entries fun e he =>
      h e (List.mem_cons_of_mem entry he)

/-- From the end, the loop goes back over the lines that are still to be taken. -/
theorem startOfLines_flatten (requestedLines : ℕ) (lines : List Bytes)
    (h : ∀ line ∈ lines, ∃ b, newline ∉ b ∧ line = b ++ [newline]) : ∀ lineCount ≤
    requestedLines, startOfLines requestedLines lines.flatten.zipIdx.reverse
    lineCount = ((lines.take (lines.length - (requestedLines - lineCount))).flatten).length := by
  induction lines using List.reverseRecOn with
  | nil => simp [startOfLines]
  | append_singleton lines line ih =>
    intro lineCount hcount
    obtain ⟨b, hb, rfl⟩ := h line (by simp)
    have hflat : (lines ++ [b ++ [newline]]).flatten = lines.flatten ++ b ++ [newline] := by
      rw [List.flatten_append, List.flatten_singleton, List.append_assoc]
    have hskip : ∀ entry ∈ (b.zipIdx lines.flatten.length).reverse, entry.1 ≠ newline := by
      intro entry hentry heq
      exact hb (heq ▸ List.fst_mem_of_mem_zipIdx (List.mem_reverse.mp hentry))
    rw [hflat, List.zipIdx_append, List.reverse_append, List.zipIdx_append, List.reverse_append]
    simp only [List.zipIdx_singleton, List.reverse_singleton, zero_add, List.cons_append,
      List.nil_append]
    rw [startOfLines, if_pos rfl]
    split_ifs with hdone
    · have hall : requestedLines - lineCount = 0 := by omega
      rw [hall, Nat.sub_zero, List.take_length, hflat]
      simp only [List.length_append, List.length_singleton]
    · rw [startOfLines_skip _ _ _ _ hskip, ih (fun l hl => h l (by simp [hl])) _ (by omega)]
      have htake : (lines ++ [b ++ [newline]]).length - (requestedLines - lineCount) =
          lines.length - (requestedLines - (lineCount + 1)) := by
        rw [List.length_append, List.length_singleton]
        omega
      rw [htake, List.take_append_of_le_length (Nat.sub_le _ _)]

/-- Counting newlines from the end finds the last lines. -/
theorem lastRequested_flatten (requestedLines : ℕ) (bytes : Bytes) :
    lastRequested requestedLines (fileLines bytes).flatten =
      ((fileLines bytes).drop ((fileLines bytes).length - requestedLines)).flatten := by
  have hstart := startOfLines_flatten requestedLines (fileLines bytes)
    (fun line hline => exists_of_mem_terminated hline) 0 (Nat.zero_le _)
  rw [Nat.sub_zero] at hstart
  have hdrop : lastRequested requestedLines (fileLines bytes).flatten =
      (fileLines bytes).flatten.drop
        ((fileLines bytes).take ((fileLines bytes).length - requestedLines)).flatten.length := by
    rw [← hstart]
    simp only [lastRequested]
    split_ifs with hzero
    · rfl
    · rw [not_not.mp hzero, List.drop_zero]
  have hflat : (fileLines bytes).flatten =
      ((fileLines bytes).take ((fileLines bytes).length - requestedLines)).flatten ++
        ((fileLines bytes).drop ((fileLines bytes).length - requestedLines)).flatten := by
    rw [← List.flatten_append, List.take_append_drop]
  rw [hdrop]
  nth_rewrite 1 [hflat]
  exact List.drop_left

/-! ### The tail -/

section Result

variable {file : LogFile} {requestedLines maxResponseBytes : ℕ}

theorem startsAtLineBoundary_eq (hio : ∀ a, file.fails a = false) (readStart : ℕ) :
    file.startsAtLineBoundary readStart =
      .ok (decide (readStart = 0 ∨ file.content[readStart - 1]? = some newline)) := by
  by_cases hzero : readStart = 0
  · simp [LogFile.startsAtLineBoundary, hzero]
  · simp [LogFile.startsAtLineBoundary, LogFile.access, hio, hzero, bind, Except.bind, pure,
      Except.pure, Bool.beq_eq_decide_eq]

/-- With the accesses in order, the result is the text of the bytes that are kept. -/
theorem readBoundedTailFile_eq (hlines : 0 < requestedLines) (hbytes : 0 < maxResponseBytes)
    (hio : ∀ a, file.fails a = false) : readBoundedTailFile file requestedLines maxResponseBytes =
      match fromUtf8 (lastLines file.content
        (min requestedLines (linesWithin file.content maxResponseBytes))) with
      | some text => .ok text
      | none => .error .invalidText := by
  obtain ⟨front, back, hcut, hkept⟩ := exists_windowCut file.content
    (file.content.length - maxResponseBytes) (Nat.sub_le _ _)
  have hwindow : (file.content.drop (file.content.length - maxResponseBytes)).take
      maxResponseBytes = file.content.drop (file.content.length - maxResponseBytes) := by
    refine List.take_of_length_le ?_
    rw [List.length_drop]
    omega
  have hpositive : ¬(requestedLines = 0 ∨ maxResponseBytes = 0) := by omega
  rw [hcut.linesWithin_eq, hcut.lastLines_eq]
  simp only [readBoundedTailFile, startsAtLineBoundary_eq hio, LogFile.access, hio, failIf,
    if_neg hpositive, bind, Except.bind, pure, Except.pure, hwindow, hkept, Bool.false_eq_true,
    if_false]
  split_ifs with hnil
  · simp only [hnil, List.length_nil, Nat.zero_sub, List.drop_zero, List.flatten_nil]
    rfl
  · simp only [lastRequested_flatten]
    split <;> rfl

/-- The bounded tail of a log is exact: the last complete lines, at most as many as requested, of
those that begin in the last bytes of the file, and an error exactly when they are not text. -/
theorem readBoundedTailFile_exact (file : LogFile) (requestedLines maxResponseBytes : ℕ)
    (hlines : 0 < requestedLines) (hbytes : 0 < maxResponseBytes)
    (hio : ∀ a, file.fails a = false) :
    (∀ text, readBoundedTailFile file requestedLines maxResponseBytes = .ok text ↔
      utf8 text = lastLines file.content
        (min requestedLines (linesWithin file.content maxResponseBytes))) ∧
    (readBoundedTailFile file requestedLines maxResponseBytes = .error .invalidText ↔
      ¬∃ text, utf8 text = lastLines file.content
        (min requestedLines (linesWithin file.content maxResponseBytes))) ∧
    (lastLines file.content
      (min requestedLines (linesWithin file.content maxResponseBytes))).length ≤
        maxResponseBytes := by
  have hlength : (lastLines file.content
      (min requestedLines (linesWithin file.content maxResponseBytes))).length ≤
        maxResponseBytes := by
    obtain ⟨front, back, hcut, -⟩ := exists_windowCut file.content
      (file.content.length - maxResponseBytes) (Nat.sub_le _ _)
    rw [hcut.linesWithin_eq, hcut.lastLines_eq]
    exact hcut.length_lastLines_le _
  rw [readBoundedTailFile_eq hlines hbytes hio]
  generalize lastLines file.content
    (min requestedLines (linesWithin file.content maxResponseBytes)) = tail at hlength ⊢
  refine ⟨fun text => ?_, ?_, hlength⟩
  · rw [← fromUtf8_eq_some]
    cases fromUtf8 tail <;> simp
  · simp only [← fromUtf8_eq_some]
    cases fromUtf8 tail <;> simp

/-- Nineteen bytes of a log whose last line is not ended yet: one line begins in them. -/
theorem readBoundedTailFile_exact_sample :
    readBoundedTailFile ⟨utf8 "first\nsecond\nthird\nunterminated".toList, fun _ => false⟩ 10 19 =
      .ok "third\n".toList :=
  ((readBoundedTailFile_exact
    ⟨utf8 "first\nsecond\nthird\nunterminated".toList, fun _ => false⟩ 10 19 (by decide)
    (by decide) fun _ => rfl).1 _).mpr (by decide +kernel)

end Result

end Wdlp
