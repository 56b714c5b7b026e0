import Wdlp.Service.Fingerprint

/-!
# Firmware tables

The endpoint service takes the serial number of a computer from the SMBIOS table of its firmware.
The table is a sequence of structures. Each has a formatted area, which begins with its type and its
own length, and a set of strings, each ended by a zero byte, with one more zero byte after the last
and two if there is none. A field of the formatted area refers to a string by its number.

The service finds the end of a set of strings by looking for two zero bytes in a row. It cuts the
set off before both of them, and so before the byte that ends the last string. When it then looks
for the strings, it does not find the last one.

## Main definitions

* `findSmbiosStructure`, `readSmbiosString`, `smbiosSystemSerial` — the parser.
* `SmbiosEntry` — a well-formed structure, and its bytes.

## Main results

* `smbios_parser_iff` — on a well-formed table the parser finds the right structure, and each of its
  strings but the last.
-/

namespace Wdlp

open CrashSafe

/-! ### The parser -/

/-- The first two zero bytes in a row, looking through the bytes from an index on. -/
def findDoubleNul : Bytes → (index : ℕ) → Option ℕ
  | first :: second :: rest, index =>
    if first = 0 ∧ second = 0 then some index else findDoubleNul (second :: rest) (index + 1)
  | _, _ => none

/-- `find_string_area_end`. -/
def findStringAreaEnd (table : Bytes) (start : ℕ) : Option ℕ :=
  findDoubleNul (table.drop start) start

structure SmbiosStructure where
  handle : UInt16
  formatted : Bytes
  strings : Bytes
  deriving DecidableEq

/-- The loop of `find_smbios_structure`, or none if it is still running. -/
def findStructureFrom (table : Bytes) (targetType : UInt8) :
    (fuel offset : ℕ) → Option (Option SmbiosStructure)
  | 0, _ => none
  | fuel + 1, offset =>
    if offset + 4 ≤ table.length then
      let structureType := table.getD offset 0
      let length := (table.getD (offset + 1) 0).toNat
      if length < 4 ∨ offset + length > table.length then some none
      else
        let stringStart := offset + length
        match findStringAreaEnd table stringStart with
        | none => some none
        | some stringEnd =>
          if structureType = targetType then
            some (some {
              handle := .ofNat
                (ofLeBytes [table.getD (offset + 2) 0, table.getD (offset + 3) 0])
              formatted := (table.drop offset).take length
              strings := (table.drop stringStart).take (stringEnd - stringStart) })
          else findStructureFrom table targetType fuel (stringEnd + 2)
    else some none

/-- `find_smbios_structure`. -/
def findSmbiosStructure (table : Bytes) (targetType : UInt8) : Option SmbiosStructure :=
  (findStructureFrom table targetType (table.length + 1) 0).join

/-- The loop of `read_smbios_string`, or none if it is still running. The number of the current
string is a byte in the source; it is compared with the index before it can overflow. -/
def readStringFrom (strings : Bytes) (index : UInt8) :
    (fuel start current : ℕ) → Option (Option Text)
  | 0, _, _ => none
  | fuel + 1, start, current =>
    if start < strings.length then
      match (strings.drop start).idxOf? 0 with
      | none => some none
      | some length =>
        if current = index.toNat then some (fromUtf8 ((strings.drop start).take length))
        else readStringFrom strings index fuel (start + length + 1) (current + 1)
    else some none

/-- `read_smbios_string`. -/
def readSmbiosString (strings : Bytes) (index : UInt8) : Option Text :=
  if index = 0 then none else (readStringFrom strings index (strings.length + 1) 0 1).join

/-- `smbios_system_serial`, for a table that was read. -/
def smbiosSystemSerial (table : Bytes) : Except FingerprintError Text := do
  let type1 ← (findSmbiosStructure table 1).elim (.error .missingOrSentinel) .ok
  failIf (type1.formatted.length ≤ 7) FingerprintError.missingOrSentinel
  let stringRef := type1.formatted.getD 7 0
  (readSmbiosString type1.strings stringRef).elim (.error .missingOrSentinel) .ok

/-! ### Well-formed tables -/

/-- A well-formed structure. -/
structure SmbiosEntry where
  formatted : Bytes
  strings : List Text
  four_le : 4 ≤ formatted.length
  length_byte : (formatted.getD 1 0).toNat = formatted.length
  strings_valid : ∀ t ∈ strings, t ≠ [] ∧ '\x00' ∉ t

namespace SmbiosEntry

variable (entry : SmbiosEntry)

/-- The set of strings. -/
def stringSet : Bytes :=
  entry.strings.flatMap (fun t => utf8 t ++ [0]) ++ if entry.strings = [] then [0, 0] else [0]

def bytes : Bytes := entry.formatted ++ entry.stringSet

/-- The strings with a zero byte between any two. -/
def area (strings : List Text) : Bytes := List.intercalate [0] (strings.map utf8)

/-- What the parser makes of the structure. -/
def parsed : SmbiosStructure where
  handle := .ofNat (ofLeBytes [entry.formatted.getD 2 0, entry.formatted.getD 3 0])
  formatted := entry.formatted
  strings := area entry.strings

/-- The string with the given number. -/
def string (index : UInt8) : Option Text :=
  if index = 0 then none else entry.strings[index.toNat - 1]?

/-! ### Strings -/

section Strings

variable {t u : Text} {strings : List Text} {rest : Bytes} {index : ℕ}

theorem area_cons_cons : area (t :: u :: strings) = utf8 t ++ 0 :: area (u :: strings) := by
  simp [area, List.intercalate]

theorem area_singleton : area [t] = utf8 t := by
  simp [area, List.intercalate]

/-- The area with two more zero bytes is the set of strings. -/
theorem stringSet_eq : entry.stringSet = area entry.strings ++ [0, 0] := by
  have hbody : ∀ strings : List Text, strings ≠ [] →
      strings.flatMap (fun t => utf8 t ++ [0]) = area strings ++ [0] := by
    intro strings hne
    induction strings with
    | nil => exact absurd rfl hne
    | cons t strings ih =>
      cases strings with
      | nil => simp [area_singleton]
      | cons u strings =>
        rw [List.flatMap_cons, ih (List.cons_ne_nil u strings), area_cons_cons]
        simp
  unfold stringSet
  split_ifs with hempty
  · rw [hempty]
    rfl
  · rw [hbody _ hempty, List.append_assoc]
    rfl

theorem findDoubleNul_of_ne {byte : UInt8} (h : byte ≠ 0) :
    findDoubleNul (byte :: rest) index = findDoubleNul rest (index + 1) := by
  cases rest with
  | nil => rfl
  | cons second rest => rw [findDoubleNul, if_neg fun hzero => h hzero.1]

theorem findDoubleNul_append {bytes : Bytes} (h : 0 ∉ bytes) :
    findDoubleNul (bytes ++ rest) index = findDoubleNul rest (index + bytes.length) := by
  induction bytes generalizing index with
  | nil => rfl
  | cons byte bytes ih =>
    rw [List.mem_cons, not_or] at h
    rw [List.cons_append, findDoubleNul_of_ne (Ne.symm h.1), ih h.2, List.length_cons]
    congr 1
    omega

/-- A string that is not empty begins with a byte that is not zero. -/
theorem exists_first_byte (ht : t ≠ [] ∧ '\x00' ∉ t) : ∃ byte bytes, utf8 t = byte :: bytes ∧
    byte ≠ 0 := by
  have hne : utf8 t ≠ [] := fun hnil => ht.1 (utf8_inj (t := []) hnil)
  obtain ⟨byte, bytes, hbytes⟩ := List.exists_cons_of_ne_nil hne
  refine ⟨byte, bytes, hbytes, fun hzero => zero_notMem_utf8 ht.2 ?_⟩
  rw [hbytes, hzero]
  exact List.mem_cons_self

/-- The first two zero bytes in a row are those after the strings. -/
theorem findDoubleNul_area (hvalid : ∀ t ∈ strings, t ≠ [] ∧ '\x00' ∉ t) : findDoubleNul
    (area strings ++ 0 :: 0 :: rest) index = some (index + (area strings).length) := by
  induction strings generalizing index with
  | nil => rfl
  | cons t strings ih =>
    have hzero := zero_notMem_utf8 (hvalid t List.mem_cons_self).2
    cases strings with
    | nil =>
      rw [area_singleton, findDoubleNul_append hzero]
      rfl
    | cons u strings =>
      have hvalid' := fun v hv => hvalid v (List.mem_cons_of_mem t hv)
      -- the next string begins with a byte that is not zero
      obtain ⟨byte, bytes, hbytes, hne⟩ := exists_first_byte (hvalid' u List.mem_cons_self)
      have hstart : ∃ later, area (u :: strings) = byte :: later := by
        cases strings with
        | nil => exact ⟨bytes, by rw [area_singleton, hbytes]⟩
        | cons v strings => exact ⟨_, by rw [area_cons_cons, hbytes, List.cons_append]⟩
      obtain ⟨later, hlater⟩ := hstart
      have ih := @ih (index + (utf8 t).length + 1) hvalid'
      rw [area_cons_cons, List.append_assoc, findDoubleNul_append hzero, List.cons_append]
      rw [hlater] at ih ⊢
      rw [List.cons_append, findDoubleNul, if_neg fun h => hne h.2, ← List.cons_append, ih]
      simp only [List.length_append, List.length_cons, Option.some.injEq]
      omega

/-- The loop finds a string from the number of the first one on, unless it is the last. -/
theorem readStringFrom_area {bytes : Bytes} {number : UInt8} : (strings : List Text) →
    (fuel start current : ℕ) → (∀ t ∈ strings, t ≠ [] ∧ '\x00' ∉ t) →
    start ≤ bytes.length → bytes.drop start = area strings → (area strings).length <
    fuel → current ≤ number.toNat → readStringFrom bytes number
    fuel start current = some (if number.toNat - current + 1 < strings.length then
        strings[number.toNat - current]? else none)
  | _, 0, _, _, _, _, _, hfuel, _ => by omega
  | [], fuel + 1, start, current, _, hstart, hdrop, _, _ => by
    have hend : ¬start < bytes.length := by
      have hlength := congrArg List.length hdrop
      rw [List.length_drop] at hlength
      simp [area] at hlength
      omega
    rw [readStringFrom, if_neg hend]
    rfl
  | [t], fuel + 1, start, current, hvalid, hstart, hdrop, _, _ => by
    have hzero := zero_notMem_utf8 (hvalid t List.mem_cons_self).2
    rw [readStringFrom, hdrop, area_singleton, List.idxOf?_eq_none_iff.mpr hzero,
      if_neg (show ¬number.toNat - current + 1 < [t].length by simp)]
    exact ite_self _
  | t :: u :: strings, fuel + 1, start, current, hvalid, hstart, hdrop, hfuel, hcurrent => by
    have hzero := zero_notMem_utf8 (hvalid t List.mem_cons_self).2
    rw [area_cons_cons, List.length_append, List.length_cons] at hfuel
    rw [area_cons_cons] at hdrop
    have hlength := congrArg List.length hdrop
    rw [List.length_drop, List.length_append, List.length_cons] at hlength
    have hfind : (bytes.drop start).idxOf? 0 = some (utf8 t).length := by
      rw [hdrop, List.idxOf?, List.findIdx?_append, List.findIdx?_eq_none_iff.mpr]
      · simp [List.findIdx?_cons]
      · intro byte hbyte
        simpa using ne_of_mem_of_not_mem hbyte hzero
    have htake : (bytes.drop start).take (utf8 t).length = utf8 t := by
      rw [hdrop, List.take_left]
    have hnext : bytes.drop (start + (utf8 t).length + 1) = area (u :: strings) := by
      rw [add_assoc, ← List.drop_drop, hdrop, ← List.drop_drop, List.drop_left]
      rfl
    rw [readStringFrom, if_pos (by omega), hfind]
    by_cases hat : current = number.toNat
    · simp only [hat, if_true, htake, fromUtf8_utf8]
      simp
    · simp only [hat, if_false]
      rw [readStringFrom_area (u :: strings) fuel _ (current + 1)
        (fun v hv => hvalid v (List.mem_cons_of_mem t hv)) (by omega) hnext
        (by omega) (by omega)]
      obtain ⟨k, hk⟩ : ∃ k, number.toNat - current = k + 1 := ⟨number.toNat - current - 1, by omega⟩
      have hk' : number.toNat - (current + 1) = k := by omega
      rw [hk, hk', List.getElem?_cons_succ, List.length_cons (a := t)]
      simp only [Nat.add_lt_add_iff_right]

theorem one_le_toNat {index : UInt8} (h : index ≠ 0) : 1 ≤ index.toNat :=
  Nat.one_le_iff_ne_zero.mpr fun hzero => h (UInt8.toNat_inj.mp hzero)

/-- The strings of a structure that are read from what the parser takes for its set of strings. -/
theorem readSmbiosString_area (index : UInt8) : readSmbiosString (area entry.strings) index =
      if index.toNat < entry.strings.length then entry.string index else none := by
  unfold readSmbiosString string
  by_cases hzero : index = 0
  · simp [hzero]
  · have hpos := one_le_toNat hzero
    have hloop : readStringFrom (area entry.strings) index _ 0 1 = _ :=
      readStringFrom_area entry.strings _ 0 1 entry.strings_valid (Nat.zero_le _) rfl
        (Nat.lt_succ_self _) hpos
    rw [Nat.sub_add_cancel hpos] at hloop
    rw [if_neg hzero, if_neg hzero, hloop]
    rfl

end Strings

/-! ### Structures -/

/-- The type of the structure. -/
def type : UInt8 := entry.formatted.getD 0 0

theorem getD_of_drop {table rest : Bytes} {offset k : ℕ}
    (hdrop : table.drop offset = entry.formatted ++ rest) (hk : k < entry.formatted.length) :
    table.getD (offset + k) 0 = entry.formatted.getD k 0 := by
  have hget := congrArg (·[k]?) hdrop
  simp only [List.getElem?_drop, List.getElem?_append_left hk] at hget
  simp only [List.getD_eq_getElem?_getD, hget]

/-- The loop finds the first structure of the type among those that are left. -/
theorem findStructureFrom_entries {table : Bytes} {target : UInt8} : (entries : List SmbiosEntry) →
    (fuel offset : ℕ) → offset ≤ table.length → table.drop offset = entries.flatMap
    bytes → (entries.flatMap bytes).length < fuel → findStructureFrom
    table target fuel offset = some ((entries.find? (·.type = target)).map parsed)
  | _, 0, _, _, _, hfuel => by omega
  | [], fuel + 1, offset, _, hdrop, _ => by
    have hend : table.length ≤ offset := List.drop_eq_nil_iff.mp hdrop
    rw [findStructureFrom, if_neg (by omega)]
    rfl
  | entry :: entries, fuel + 1, offset, hoffset, hdrop, hfuel => by
    have hfour := entry.four_le
    have hbytes : table.drop offset = entry.formatted ++
        (area entry.strings ++ 0 :: 0 :: entries.flatMap bytes) := by
      rw [hdrop, List.flatMap_cons, bytes, stringSet_eq]
      simp
    have hlength := congrArg List.length hbytes
    simp only [List.length_drop, List.length_append, List.length_cons] at hlength
    have hsize : (table.getD (offset + 1) 0).toNat = entry.formatted.length := by
      rw [entry.getD_of_drop hbytes (by omega), entry.length_byte]
    have hstrings : table.drop (offset + entry.formatted.length) =
        area entry.strings ++ 0 :: 0 :: entries.flatMap bytes := by
      rw [← List.drop_drop, hbytes, List.drop_left]
    have hend : findStringAreaEnd table (offset + entry.formatted.length) =
        some (offset + entry.formatted.length + (area entry.strings).length) := by
      rw [findStringAreaEnd, hstrings, findDoubleNul_area entry.strings_valid]
    have htype : table.getD offset 0 = entry.type :=
      entry.getD_of_drop (k := 0) hbytes (by omega)
    rw [findStructureFrom, if_pos (by omega)]
    simp only [hsize, hend, htype]
    rw [if_neg (by omega), List.find?_cons]
    split_ifs with htarget
    · rw [decide_eq_true htarget, hstrings, hbytes, Nat.add_sub_cancel_left, List.take_left,
        List.take_left, entry.getD_of_drop hbytes (by omega), entry.getD_of_drop hbytes (by omega)]
      rfl
    · rw [decide_eq_false htarget]
      refine findStructureFrom_entries entries fuel _ (by omega) ?_ ?_
      · rw [← List.drop_drop, ← List.drop_drop, hstrings, List.drop_left]
        rfl
      · rw [← hdrop] at hfuel
        rw [List.length_drop] at hfuel
        omega

end SmbiosEntry

open SmbiosEntry in
/-- On a well-formed table the search for a structure ends with the first one of the type, and a
string of that structure is read by its number exactly if it is not the last string. -/
theorem smbios_parser_iff (entries : List SmbiosEntry) (target index : UInt8) :
    findStructureFrom (entries.flatMap bytes) target ((entries.flatMap bytes).length + 1) 0 =
      some ((entries.find? (·.type = target)).map parsed) ∧
    ∀ entry ∈ entries.find? (·.type = target),
      (readSmbiosString entry.parsed.strings index = entry.string index ↔
        ¬(index ≠ 0 ∧ index.toNat = entry.strings.length)) := by
  refine ⟨findStructureFrom_entries entries _ 0 (Nat.zero_le _) rfl (Nat.lt_succ_self _),
    fun entry _ => ?_⟩
  change readSmbiosString (area entry.strings) index = _ ↔ _
  rw [entry.readSmbiosString_area index]
  by_cases hzero : index = 0
  · simp [hzero, string]
  have hpos := one_le_toNat hzero
  rcases lt_trichotomy index.toNat entry.strings.length with hlt | heq | hgt
  · simp [hlt, hlt.ne]
  · -- the last string is there, and it is not found
    have hsome : entry.strings[index.toNat - 1]? ≠ none := by
      rw [Ne, List.getElem?_eq_none_iff]
      omega
    simpa [hzero, string, heq] using hsome.symm
  · have hnone : entry.strings[index.toNat - 1]? = none := List.getElem?_eq_none_iff.mpr (by omega)
    simp [hzero, string, hgt.ne', hnone]

/-- A system information structure whose only string is the serial number. -/
def serialOnly : SmbiosEntry where
  formatted := [1, 8, 0, 0, 0, 0, 0, 1]
  strings := ["S1".toList]
  four_le := by decide
  length_byte := rfl
  strings_valid := by decide

/-- The serial number is in the table, and the service reports that it is missing. -/
theorem last_string_missing :
    serialOnly.string 1 = some "S1".toList ∧ readSmbiosString serialOnly.parsed.strings 1 = none ∧
      smbiosSystemSerial serialOnly.bytes = .error .missingOrSentinel := by
  decide +kernel

end Wdlp
