import Wdlp.Lib.Bytes

/-!
# Text: UTF-8, lines, columns and numbers

Strings are lists of characters. This module encodes them as UTF-8, cuts them into lines and
columns, and writes and reads decimal numbers, in the way the standard library of the modelled
programs does.

## Main definitions

* `utf8`, `fromUtf8` — the bytes of a string, and the string of its bytes; `sized` puts their number
  in front.
* `textLines` — the lines of a text, each ended by `\n` or `\r\n`.
* `decimal`, `padded`, `parseU64` — decimal numbers, padded with zeros to a width, and read back.
* `asciiLower` — a string with its ASCII letters in lower case.

## Main results

* `fromUtf8_eq_some`, `textLines_unlines`, `parseU64_decimal` — what was written is read back.
* `padded_inj` — padded numbers are told apart.
-/

namespace CrashSafe

/-! ### UTF-8 -/

/-- The UTF-8 bytes of a string. -/
def utf8 (t : Text) : Bytes := t.flatMap String.utf8EncodeChar

/-- The string with the given UTF-8 bytes, reading at most `fuel` characters. -/
def fromUtf8Fuel : (fuel : ℕ) → Bytes → Option Text
  | _, [] => some []
  | 0, _ :: _ => none
  | fuel + 1, b :: bs => do
    let c ← (((b :: bs).take 4).toByteArray).utf8DecodeChar? 0
    let rest ← fromUtf8Fuel fuel ((b :: bs).drop c.utf8Size)
    return c :: rest

/-- The string with the given UTF-8 bytes, if they are well formed. -/
def fromUtf8 (bs : Bytes) : Option Text := fromUtf8Fuel bs.length bs

@[simp] theorem utf8_nil : utf8 [] = [] := rfl

@[simp] theorem utf8_cons (c : Char) (t : Text) :
    utf8 (c :: t) = String.utf8EncodeChar c ++ utf8 t := rfl

@[simp] theorem utf8_append (s t : Text) : utf8 (s ++ t) = utf8 s ++ utf8 t :=
  List.flatMap_append

private theorem decodeChar_take (c : Char) (bs : Bytes) :
    (((String.utf8EncodeChar c ++ bs).take 4).toByteArray).utf8DecodeChar? 0 = some c := by
  have hlen : (String.utf8EncodeChar c).length ≤ 4 := by
    rw [String.length_utf8EncodeChar]
    exact c.utf8Size_le_four
  rw [List.take_append, List.take_of_length_le hlen, List.toByteArray_append]
  exact ByteArray.utf8DecodeChar?_utf8EncodeChar_append

theorem fromUtf8Fuel_utf8 : (t : Text) → (fuel : ℕ) → t.length ≤ fuel →
    fromUtf8Fuel fuel (utf8 t) = some t
  | [], fuel, _ => by
    rw [utf8_nil]
    cases fuel <;> rfl
  | c :: t, fuel, h => by
    obtain ⟨fuel, rfl⟩ : ∃ k, fuel = k + 1 := ⟨fuel - 1, by simp at h; omega⟩
    have hdec := decodeChar_take c (utf8 t)
    have hdrop : (String.utf8EncodeChar c ++ utf8 t).drop c.utf8Size = utf8 t := by
      rw [← String.length_utf8EncodeChar, List.drop_left]
    have hrest := fromUtf8Fuel_utf8 t fuel (by simpa using h)
    rw [utf8_cons]
    cases hbs : String.utf8EncodeChar c ++ utf8 t with
    | nil =>
      have hpos := c.utf8Size_pos
      rw [← String.length_utf8EncodeChar] at hpos
      simp [(List.append_eq_nil_iff.mp hbs).1] at hpos
    | cons b bs =>
      rw [hbs] at hdec hdrop
      simp only [fromUtf8Fuel, hdec, Option.bind_eq_bind, Option.bind_some, hdrop, hrest]
      rfl

private theorem length_le_utf8 : (t : Text) → t.length ≤ (utf8 t).length
  | [] => le_rfl
  | c :: t => by
    have hpos := c.utf8Size_pos
    have ht := length_le_utf8 t
    rw [utf8_cons, List.length_append, String.length_utf8EncodeChar, List.length_cons]
    omega

/-- A string is read back from its bytes. -/
theorem fromUtf8_utf8 (t : Text) : fromUtf8 (utf8 t) = some t :=
  fromUtf8Fuel_utf8 t _ (length_le_utf8 t)

variable {c : Char}

private theorem decodeChar_eq_some {bs : Bytes}
    (h : ((bs.take 4).toByteArray).utf8DecodeChar? 0 = some c) :
    bs = String.utf8EncodeChar c ++ bs.drop c.utf8Size := by
  have hlist := congrArg (·.data.toList) (ByteArray.eq_of_utf8DecodeChar?_eq_some h)
  simp only [List.data_toByteArray, ByteArray.data_append, Array.toList_append] at hlist
  have hbs : bs = String.utf8EncodeChar c ++
      ((((bs.take 4).toByteArray.extract c.utf8Size (bs.take 4).toByteArray.size).data.toList) ++
        bs.drop 4) := by
    rw [← List.append_assoc, ← hlist, List.take_append_drop]
  rw [hbs, List.drop_left' (String.length_utf8EncodeChar c), ← hbs]

theorem utf8_of_fromUtf8Fuel : (fuel : ℕ) → (bs : Bytes) → (t : Text) →
    fromUtf8Fuel fuel bs = some t → utf8 t = bs
  | 0, [], t, h => by
    cases h
    rfl
  | _ + 1, [], t, h => by
    cases h
    rfl
  | 0, _ :: _, t, h => by cases h
  | fuel + 1, b :: bs, t, h => by
    simp only [fromUtf8Fuel, Option.bind_eq_bind, Option.bind_eq_some_iff, Option.pure_def,
      Option.some.injEq] at h
    obtain ⟨c, hc, rest, hrest, rfl⟩ := h
    rw [utf8_cons, utf8_of_fromUtf8Fuel fuel _ rest hrest, ← decodeChar_eq_some hc]

variable {t : Text}

/-- A string is read from its own bytes only. -/
theorem fromUtf8_eq_some {bs : Bytes} : fromUtf8 bs = some t ↔ utf8 t = bs := by
  constructor
  · exact utf8_of_fromUtf8Fuel _ bs t
  · rintro rfl
    exact fromUtf8_utf8 t

theorem utf8_inj {s t : Text} (h : utf8 s = utf8 t) : s = t := by
  have hs := fromUtf8_utf8 s
  rw [h, fromUtf8_utf8] at hs
  exact (Option.some.inj hs).symm

theorem mem_utf8 {b : UInt8} (hc : String.utf8EncodeChar c = [b]) (h : c ∈ t) : b ∈ utf8 t :=
  List.mem_flatMap.mpr ⟨c, h, by rw [hc]; exact List.mem_singleton_self b⟩

/-- A byte below 128 is the only byte of its character. -/
theorem utf8EncodeChar_of_mem {byte : UInt8} (h : byte ∈ String.utf8EncodeChar c)
    (hlt : byte.toNat < 128) : c.toNat = byte.toNat ∧ String.utf8EncodeChar c = [byte] := by
  have hone : ∀ n : ℕ, n ≤ 127 → (UInt8.ofNat n).toNat = n := fun n hn =>
    UInt8.toNat_ofNat_of_lt' (lt_of_le_of_lt hn (by decide))
  have hmany : ∀ n : ℕ, n < 128 → ¬(UInt8.ofNat (n + 128)).toNat < 128 := fun n hn => by
    rw [UInt8.toNat_ofNat_of_lt' (show n + 128 < 256 by omega)]
    omega
  dsimp only [String.utf8EncodeChar] at h ⊢
  split_ifs at h ⊢ with h₁ h₂ h₃
  · obtain rfl := List.mem_singleton.mp h
    exact ⟨(hone _ h₁).symm, rfl⟩
  all_goals
    simp only [List.mem_cons, List.not_mem_nil, or_false] at h
    refine absurd hlt ?_
  · rcases h with rfl | rfl
    · exact hmany (c.val.toNat / 64 % 32 + 64) (by omega)
    · exact hmany _ (by omega)
  · rcases h with rfl | rfl | rfl
    · exact hmany (c.val.toNat / 4096 % 16 + 96) (by omega)
    all_goals exact hmany _ (by omega)
  · rcases h with rfl | rfl | rfl | rfl
    · exact hmany (c.val.toNat / 262144 % 8 + 112) (by omega)
    all_goals exact hmany _ (by omega)

/-- A string without a zero character has no zero byte. -/
theorem zero_notMem_utf8 (h : '\x00' ∉ t) : 0 ∉ utf8 t := by
  intro hzero
  obtain ⟨c, hc, hbyte⟩ := List.mem_flatMap.mp hzero
  have hchar : c.toNat = 0 := (utf8EncodeChar_of_mem hbyte (by decide)).1
  have hc' : c = '\x00' := by
    rw [← Char.ofNat_toNat c, hchar]
  exact h (hc' ▸ hc)

/-- A string with the number of its bytes in front, in two bytes. -/
def sized (t : Text) : Bytes := leBytes 2 (utf8 t).length ++ utf8 t

theorem sized_append_inj {s t : Text} {x y : Bytes} (hs : (utf8 s).length < 2 ^ 16)
    (ht : (utf8 t).length < 2 ^ 16) (h : sized s ++ x = sized t ++ y) : s = t ∧ x = y := by
  simp only [sized, List.append_assoc] at h
  obtain ⟨hlen, hrest⟩ := leBytes_append_inj (by norm_num; exact hs) (by norm_num; exact ht) h
  obtain ⟨htext, hxy⟩ := List.append_inj hrest hlen
  exact ⟨utf8_inj htext, hxy⟩

/-! ### Lines -/

/-- A line without the carriage return before its line feed. -/
def stripCr (line : Text) : Text := if line.getLast? = some '\r' then line.dropLast else line

/-- The lines of a text. The end of the text ends its last line, unless that line is empty. -/
def textLines (t : Text) : List Text :=
  let pieces := t.splitOn '\n'
  pieces.dropLast.map stripCr ++ (pieces.getLast?.filter (· ≠ [])).toList

/-- A text made of lines, each ended by a line feed. -/
def unlines (ls : List Text) : Text := ls.flatMap (· ++ ['\n'])

private theorem unlines_eq_intercalate : (ls : List Text) →
    unlines ls = ['\n'].intercalate (ls ++ [[]])
  | [] => rfl
  | l :: ls => by
    have hls := unlines_eq_intercalate ls
    rw [unlines] at hls ⊢
    rw [List.flatMap_cons, hls, List.cons_append,
      List.intercalate_cons_of_ne_nil (by simp), List.append_assoc]

/-- The lines of a text made of lines. -/
theorem textLines_unlines (ls : List Text) (hnl : ∀ l ∈ ls, '\n' ∉ l)
    (hcr : ∀ l ∈ ls, l.getLast? ≠ some '\r') : textLines (unlines ls) = ls := by
  have hsplit : (unlines ls).splitOn '\n' = ls ++ [[]] := by
    rw [unlines_eq_intercalate]
    refine List.splitOn_intercalate '\n' (fun l hl => ?_) (by simp)
    rcases List.mem_append.mp hl with hl | hl
    · exact hnl l hl
    · simp [List.mem_singleton.mp hl]
  have hstrip : ls.map stripCr = ls := by
    refine (List.map_congr_left fun l hl => ?_).trans (List.map_id ls)
    simp only [stripCr, hcr l hl, ↓reduceIte, id_eq]
  simp only [textLines, hsplit, List.dropLast_concat, hstrip, List.getLast?_append,
    List.getLast?_singleton, Option.some_or]
  simp

/-! ### Separated pieces -/

theorem splitOn_append_cons (sep : Char) (s t : Text) :
    (s ++ sep :: t).splitOn sep = s.splitOn sep ++ t.splitOn sep :=
  List.splitOnP_append_cons s t (by simp)

theorem splitOn_of_not_mem {sep : Char} (h : sep ∉ t) : t.splitOn sep = [t] := by
  have hs := @List.splitOn_intercalate _ [t] _ _ sep (by simpa using h) (by simp)
  simpa using hs

theorem splitOn_ne_nil (sep : Char) (t : Text) : t.splitOn sep ≠ [] := List.splitOnP_ne_nil _ t

/-- No piece holds the separator. -/
theorem not_mem_of_mem_splitOnP {p : Char → Bool} : (t : Text) → {piece : Text} →
    piece ∈ t.splitOnP p → ∀ c ∈ piece, p c = false
  | [], piece, h => by
    simp only [List.splitOnP_nil, List.mem_singleton] at h
    simp [h]
  | x :: t, piece, h => by
    have ih := @not_mem_of_mem_splitOnP p t
    rw [List.splitOnP_cons_eq_if_modifyHead] at h
    split at h
    · rcases List.mem_cons.mp h with rfl | h
      · simp
      · exact ih h
    · next hx =>
      obtain ⟨first, rest, hsplit⟩ := List.exists_cons_of_ne_nil (List.splitOnP_ne_nil p t)
      rw [hsplit] at ih h
      rcases List.mem_cons.mp h with rfl | h
      · intro c hc
        rcases List.mem_cons.mp hc with rfl | hc
        · simpa using hx
        · exact ih List.mem_cons_self c hc
      · exact ih (List.mem_cons_of_mem _ h)

theorem not_mem_of_mem_splitOn {sep : Char} {t piece : Text} (h : piece ∈ t.splitOn sep) :
    sep ∉ piece := by
  intro hmem
  have hne := not_mem_of_mem_splitOnP t h sep hmem
  simp at hne

section Pieces

variable {p : Char → Bool}

theorem mem_of_mem_splitOnP : (t : Text) → {piece : Text} → piece ∈ t.splitOnP p →
    ∀ c ∈ piece, c ∈ t
  | [], piece, h, c, hc => by
    rw [List.splitOnP_nil, List.mem_singleton] at h
    exact absurd hc (h ▸ List.not_mem_nil)
  | a :: t, piece, h, c, hc => by
    rw [List.splitOnP_cons_eq_if_modifyHead] at h
    split_ifs at h
    · rcases List.mem_cons.mp h with rfl | h
      · exact absurd hc List.not_mem_nil
      · exact List.mem_cons_of_mem a (mem_of_mem_splitOnP t h c hc)
    · obtain ⟨first, rest, hsplit⟩ := List.exists_cons_of_ne_nil (List.splitOnP_ne_nil p t)
      rw [hsplit, List.modifyHead_cons] at h
      rcases List.mem_cons.mp h with rfl | h
      · rcases List.mem_cons.mp hc with rfl | hc
        · exact List.mem_cons_self
        · refine List.mem_cons_of_mem a (mem_of_mem_splitOnP t ?_ c hc)
          rw [hsplit]
          exact List.mem_cons_self
      · refine List.mem_cons_of_mem a (mem_of_mem_splitOnP t ?_ c hc)
        rw [hsplit]
        exact List.mem_cons_of_mem first h

theorem mem_intercalate {sep c : Char} : (pieces : List Text) → c ∈ [sep].intercalate pieces →
    c = sep ∨ ∃ piece ∈ pieces, c ∈ piece
  | [], h => absurd h List.not_mem_nil
  | [piece], h => .inr ⟨piece, List.mem_singleton_self _, by
      rwa [List.intercalate_singleton] at h⟩
  | piece :: next :: pieces, h => by
    rw [List.intercalate_cons_of_ne_nil (List.cons_ne_nil _ _)] at h
    rcases List.mem_append.mp h with h | h
    · rcases List.mem_append.mp h with h | h
      · exact .inr ⟨piece, List.mem_cons_self, h⟩
      · exact .inl (List.mem_singleton.mp h)
    · rcases mem_intercalate (next :: pieces) h with h | ⟨q, hq, hin⟩
      · exact .inl h
      · exact .inr ⟨q, List.mem_cons_of_mem _ hq, hin⟩

/-- The bytes of the pieces of a string, with one for the end of each. -/
def piecesSize (pieces : List Text) : ℕ := (pieces.map fun piece => (utf8 piece).length + 1).sum

/-- The pieces between separators of one byte make up the string. -/
theorem piecesSize_splitOnP (hp : ∀ c, p c = true → (String.utf8EncodeChar c).length = 1) :
    (t : Text) → piecesSize (t.splitOnP p) = (utf8 t).length + 1
  | [] => by
    rw [List.splitOnP_nil]
    rfl
  | c :: t => by
    have ih := piecesSize_splitOnP hp t
    rw [List.splitOnP_cons_eq_if_modifyHead]
    split_ifs with hc
    · rw [piecesSize, List.map_cons, List.sum_cons, ← piecesSize, ih, utf8_cons,
        List.length_append, hp c hc, utf8_nil, List.length_nil]
      omega
    · obtain ⟨first, rest, hsplit⟩ := List.exists_cons_of_ne_nil (List.splitOnP_ne_nil p t)
      rw [hsplit, piecesSize, List.map_cons, List.sum_cons] at ih
      rw [hsplit, List.modifyHead_cons, piecesSize, List.map_cons, List.sum_cons, utf8_cons,
        utf8_cons, List.length_append, List.length_append]
      omega

/-- Pieces joined by a separator of one byte. -/
theorem length_intercalate {sep : Char} (hsep : (String.utf8EncodeChar sep).length = 1) :
    (pieces : List Text) → pieces ≠ [] →
    (utf8 ([sep].intercalate pieces)).length + 1 = piecesSize pieces
  | [piece], _ => by simp [piecesSize, List.intercalate_singleton]
  | piece :: next :: rest, _ => by
    have ih := length_intercalate hsep (next :: rest) (List.cons_ne_nil _ _)
    rw [List.intercalate_cons_of_ne_nil (List.cons_ne_nil _ _), piecesSize, List.map_cons,
      List.sum_cons, ← piecesSize, ← ih, utf8_append, utf8_append, utf8_cons, utf8_nil,
      List.append_nil, List.length_append, List.length_append, hsep]
    omega

theorem piecesSize_filter_le (q : Text → Bool) (pieces : List Text) :
    piecesSize (pieces.filter q) ≤ piecesSize pieces :=
  (List.filter_sublist.map _).sum_le_sum fun _ _ => Nat.zero_le _

/-- Pieces without separators are found again in what they are joined to. -/
theorem splitOnP_intercalate {sep : Char} (hsep : p sep = true) : (pieces : List Text) →
    (∀ piece ∈ pieces, ∀ c ∈ piece, p c = false) → pieces ≠ [] →
    ([sep].intercalate pieces).splitOnP p = pieces
  | [piece], h, _ => by
    rw [List.intercalate_singleton]
    exact List.splitOnP_eq_singleton (h piece List.mem_cons_self)
  | piece :: next :: rest, h, _ => by
    rw [List.intercalate_cons_of_ne_nil (List.cons_ne_nil _ _), List.append_assoc,
      List.singleton_append,
      List.splitOnP_append_cons_of_forall_mem (h piece List.mem_cons_self) sep hsep,
      splitOnP_intercalate hsep (next :: rest) (fun q hq => h q (List.mem_cons_of_mem piece hq))
        (List.cons_ne_nil _ _)]

end Pieces

theorem length_utf8_unlines : (ls : List Text) →
    (utf8 (unlines ls)).length = (ls.map fun line => (utf8 line).length + 1).sum
  | [] => rfl
  | line :: ls => by
    have hcons : unlines (line :: ls) = line ++ ['\n'] ++ unlines ls := rfl
    have hnewline : (utf8 ['\n']).length = 1 := by decide
    rw [hcons, utf8_append, utf8_append, List.length_append, List.length_append, hnewline,
      length_utf8_unlines ls, List.map_cons, List.sum_cons]

/-! ### Decimal numbers -/

/-- A number in decimal. -/
def decimal (n : ℕ) : Text := Nat.toDigits 10 n

/-- A number in decimal, with zeros in front up to `width` digits. -/
def padded (width n : ℕ) : Text := (decimal n).leftpad width '0'

/-- A string without its leading plus sign. -/
def stripPlus : Text → Text
  | '+' :: rest => rest
  | t => t

/-- A 64-bit number in decimal, with an optional plus sign. -/
def parseU64 (t : Text) : Option UInt64 :=
  let digits := stripPlus t
  if digits ≠ [] ∧ digits.all Char.isDigit ∧ Nat.ofDigitChars 10 digits 0 < 2 ^ 64 then
    some (UInt64.ofNat (Nat.ofDigitChars 10 digits 0))
  else none

theorem isDigit_of_mem_decimal {n : ℕ} (h : c ∈ decimal n) : c.isDigit = true :=
  Nat.isDigit_of_mem_toDigits (by norm_num) (by norm_num) h

theorem decimal_ne_nil (n : ℕ) : decimal n ≠ [] := Nat.toDigits_ne_nil

theorem not_mem_decimal {n : ℕ} (h : c.isDigit = false) : c ∉ decimal n := by
  intro hc
  rw [isDigit_of_mem_decimal hc] at h
  exact absurd h (by simp)

/-- Digits take one byte each. -/
theorem length_utf8_decimal (n : ℕ) : (utf8 (decimal n)).length = (decimal n).length := by
  have hdigits : ∀ t : Text, (∀ c ∈ t, c.isDigit = true) → (utf8 t).length = t.length := by
    intro t
    induction t with
    | nil => exact fun _ => rfl
    | cons c t ih =>
      intro ht
      have hc : c.utf8Size = 1 := by
        have hdigit := ht c List.mem_cons_self
        simp only [Char.isDigit, Bool.and_eq_true, decide_eq_true_eq] at hdigit
        exact Char.utf8Size_eq_one_iff.mpr (UInt32.le_trans hdigit.2 (by decide))
      rw [utf8_cons, List.length_append, String.length_utf8EncodeChar, hc,
        ih fun c' hc' => ht c' (List.mem_cons_of_mem _ hc'), List.length_cons, Nat.add_comm]
  exact hdigits _ fun c hc => isDigit_of_mem_decimal hc

theorem length_decimal_le (n : UInt64) : (decimal n.toNat).length ≤ 20 :=
  (Nat.length_toDigits_le_iff (by norm_num) (by norm_num)).mpr (n.toNat_lt.trans (by norm_num))

/-- A number is read back from its decimal digits. -/
theorem parseU64_decimal (n : UInt64) : parseU64 (decimal n.toNat) = some n := by
  have hplus : stripPlus (decimal n.toNat) = decimal n.toNat := by
    unfold stripPlus
    split
    · next rest h =>
      have hmem : '+' ∈ decimal n.toNat := by rw [h]; exact List.mem_cons_self
      exact absurd hmem (not_mem_decimal (by decide))
    · rfl
  have hdigits : (decimal n.toNat).all Char.isDigit = true :=
    List.all_eq_true.mpr fun c hc => isDigit_of_mem_decimal hc
  have hval : Nat.ofDigitChars 10 (decimal n.toNat) 0 = n.toNat := Nat.ofDigitChars_ten_toDigits
  simp only [parseU64, hplus, hval, hdigits, ne_eq, decimal_ne_nil, not_false_eq_true, true_and,
    n.toNat_lt, ↓reduceIte, UInt64.ofNat_toNat]

private theorem ofDigitChars_zeros : (k : ℕ) → (t : Text) →
    Nat.ofDigitChars 10 (List.replicate k '0' ++ t) 0 = Nat.ofDigitChars 10 t 0
  | 0, _ => rfl
  | k + 1, t => by
    rw [List.replicate_succ, List.cons_append, Nat.ofDigitChars_cons]
    exact ofDigitChars_zeros k t

/-- Padded numbers are told apart. -/
theorem padded_inj {width m n : ℕ} (h : padded width m = padded width n) : m = n := by
  have hval : ∀ k, Nat.ofDigitChars 10 (padded width k) 0 = k := by
    intro k
    rw [padded, List.leftpad, ofDigitChars_zeros]
    exact Nat.ofDigitChars_ten_toDigits
  rw [← hval m, h, hval n]

/-! ### Letter case -/

/-- A string with its ASCII letters in lower case. -/
def asciiLower (t : Text) : Text := t.map Char.toLower

/-- A string with its ASCII letters in upper case. -/
def asciiUpper (t : Text) : Text := t.map Char.toUpper

@[simp] theorem asciiLower_eq_nil : asciiLower t = [] ↔ t = [] := List.map_eq_nil_iff

/-- Only letters come from other characters when they are put in lower case. -/
theorem eq_of_toLower_eq {c x : Char} (hx : x.isLower = false) (h : c.toLower = x) : c = x := by
  unfold Char.toLower at h
  split at h
  · next hup =>
    have hv : c.val + ('a'.val - 'A'.val) = x.val := congrArg Char.val h
    have hlow : 'A'.val ≤ c.val := hup.1
    have hhigh : c.val ≤ 'Z'.val := hup.2
    have hn := congrArg UInt32.toNat hv
    simp only [Char.isLower, Bool.and_eq_false_iff, decide_eq_false_iff_not, ge_iff_le,
      UInt32.le_iff_toNat_le] at hx hlow hhigh
    simp at hn hlow hhigh hx
    omega
  · exact h

theorem eq_of_toUpper_eq {c x : Char} (hx : x.isUpper = false) (h : c.toUpper = x) : c = x := by
  unfold Char.toUpper at h
  split at h
  · next hlower =>
    have hn := congrArg (fun d : Char => d.val.toNat) h
    have hlow : 'a'.val.toNat ≤ c.val.toNat := UInt32.le_iff_toNat_le.mp hlower.1
    have hhigh : c.val.toNat ≤ 'z'.val.toNat := UInt32.le_iff_toNat_le.mp hlower.2
    have hstep : ('A'.val - 'a'.val).toNat = 2 ^ 32 - 32 := by decide
    have hbounds : 'a'.val.toNat = 97 ∧ 'z'.val.toNat = 122 := by decide
    simp only [UInt32.toNat_add, hstep] at hn
    simp only [Char.isUpper, decide_eq_false_iff_not, ge_iff_le, UInt32.le_iff_toNat_le] at hx
    have hupper : 'A'.val.toNat = 65 ∧ 'Z'.val.toNat = 90 := by decide
    omega
  · exact h

end CrashSafe
