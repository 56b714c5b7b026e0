import Wdlp.Storage.Path

/-!
# Virtual paths are canonical

What `parse` accepts can be printed and parsed again: the printed form joins the components with
backslashes, and is not longer than the input, since only empty components are left out. Keys join
the components in lower case with slashes, which no component holds, so that they tell paths apart
up to the case of their letters.

## Main definitions

* `VirtualPath.displayPath` — the path as it is printed.
* `IsConfined` — what every component of an accepted path satisfies.

## Main results

* `VirtualPath.parse_eq_ok` — what `parse` accepts, and its result.
* `VirtualPath.length_displayPath_le` — the printed form is not longer than the input.
* `parse_canonical` — accepted paths are canonical and confined.
-/

namespace Wdlp

open CrashSafe

/-! ### What is accepted -/

namespace VirtualPath

variable {input : Text} {p q : VirtualPath}

/-- `display_path`. -/
def displayPath (p : VirtualPath) : Text := ['\\'].intercalate p.display

/-- `parent_key`. -/
def parentOf (p : VirtualPath) : Option Text := parentKey p.lookup

/-- A path is known by its components. -/
theorem eq_of_display_eq (h : p.display = q.display) : p = q := by
  obtain ⟨pd, pl, pc, rfl⟩ := p
  obtain ⟨qd, ql, qc, rfl⟩ := q
  obtain rfl : pd = qd := h
  rfl

/-- What `parse` accepts, and its result. -/
theorem parse_eq_ok : parse input = .ok p ↔ rejects input = false ∧
    split input ≠ [] ∧ (split input).length ≤ maxComponents ∧
    (∀ part ∈ split input, validComponent part = true) ∧ p.display = split input := by
  have hinvalid : (split input).any (!validComponent ·) = true ↔
      ¬∀ part ∈ split input, validComponent part = true := by
    simp [List.any_eq_true]
  unfold parse
  split_ifs with hrejects hcomponents
  · simp [hrejects]
  · rw [hinvalid] at hcomponents
    simp only [false_iff]
    rintro ⟨-, hne, hlength, hvalid, -⟩
    rcases hcomponents with h | h | h
    · exact hne h
    · omega
    · exact h hvalid
  · rw [hinvalid, not_or, not_or, not_not, not_lt] at hcomponents
    rw [Except.ok.injEq]
    constructor
    · rintro rfl
      exact ⟨by simpa using hrejects, hcomponents.1, hcomponents.2.1, hcomponents.2.2, rfl⟩
    · exact fun h => eq_of_display_eq h.2.2.2.2.symm

variable {c : Char}

theorem utf8_separator (h : isSeparator c = true) : (String.utf8EncodeChar c).length = 1 := by
  simp only [isSeparator, Bool.or_eq_true, beq_iff_eq] at h
  rcases h with rfl | rfl <;> decide

/-- The printed form of a path is not longer than the input it was parsed from. -/
theorem length_displayPath_le (h : parse input = .ok p) :
    (utf8 p.displayPath).length ≤ (utf8 input).length := by
  obtain ⟨-, hne, -, -, hdisplay⟩ := parse_eq_ok.mp h
  have hjoined := length_intercalate (utf8_separator (c := '\\') rfl) p.display (hdisplay ▸ hne)
  have hpieces := piecesSize_splitOnP (fun _ => utf8_separator) input
  have hle := piecesSize_filter_le (· ≠ []) (input.splitOnP isSeparator)
  rw [← split, ← hdisplay, hpieces] at hle
  rw [displayPath]
  omega

theorem isSeparator_of_mem (p : VirtualPath) {part : Text} (hpart : part ∈ p.display)
    (hc : c ∈ part) : isSeparator c = false := by
  have hall := List.all_eq_true.mp (p.components part hpart).2 c hc
  simpa using hall

/-- The components of a path are found in its printed form. -/
theorem split_displayPath (hne : p.display ≠ []) : split p.displayPath = p.display := by
  rw [split, displayPath,
    splitOnP_intercalate rfl p.display (fun _ hpart _ => p.isSeparator_of_mem hpart) hne, List.filter_eq_self]
  intro part hpart
  have hvalid := (p.components part hpart).1
  have hpartne : part ≠ [] := by
    rintro rfl
    exact absurd hvalid (by decide)
  simpa using hpartne

/-- The characters of the components come from the input. -/
theorem mem_input (h : parse input = .ok p) {part : Text} (hpart : part ∈ p.display)
    (hc : c ∈ part) : c ∈ input := by
  obtain ⟨-, -, -, -, hdisplay⟩ := parse_eq_ok.mp h
  rw [hdisplay] at hpart
  exact mem_of_mem_splitOnP input (List.mem_filter.mp hpart).1 c hc

theorem rejects_eq_false : rejects input = false ↔ input ≠ [] ∧
    (utf8 input).length ≤ maxPathLength ∧ Char.ofNat 0 ∉ input ∧
    input.head?.any isSeparator = false ∧ ':' ∉ input ∧ isDeviceOrUnc input = false := by
  simp only [rejects, Bool.or_eq_false_iff, decide_eq_false_iff_not, not_lt, and_assoc]

/-- Device and network paths begin with a separator. -/
theorem isDeviceOrUnc_of_head (h : input.head?.any isSeparator = false) :
    isDeviceOrUnc input = false := by
  have hno : ∀ start : Text, ('\\' :: start).isPrefixOf (asciiUpper input) = false := by
    intro start
    cases input with
    | nil => rfl
    | cons c rest =>
      refine Bool.eq_false_iff.mpr fun hstart => ?_
      have hupper : '\\' = c.toUpper := by
        simp only [asciiUpper, List.map_cons, List.isPrefixOf_cons_cons, Bool.and_eq_true,
          beq_iff_eq] at hstart
        exact hstart.1
      have hc : c = '\\' := eq_of_toUpper_eq (by decide) hupper.symm
      rw [List.head?_cons, Option.any_some, hc] at h
      cases h
  simp only [isDeviceOrUnc, Bool.or_eq_false_iff]
  exact ⟨⟨hno _, hno _⟩, hno _⟩

/-- The printed form passes the checks on the input as a whole. -/
theorem rejects_displayPath (h : parse input = .ok p) : rejects p.displayPath = false := by
  obtain ⟨hrejects, hne, -, hvalid, hdisplay⟩ := parse_eq_ok.mp h
  obtain ⟨-, hlength, hzero, -, hcolon, -⟩ := rejects_eq_false.mp hrejects
  have hsplit : split p.displayPath = p.display := split_displayPath (hdisplay ▸ hne)
  -- every character of the printed form is a backslash or comes from the input
  have hchars : ∀ c ∈ p.displayPath, c = '\\' ∨ c ∈ input := by
    intro c hc
    rcases mem_intercalate _ hc with rfl | ⟨part, hpart, hin⟩
    · exact .inl rfl
    · exact .inr (mem_input h hpart hin)
  have hhead : p.displayPath.head?.any isSeparator = false := by
    obtain ⟨first, rest, hcons⟩ := List.exists_cons_of_ne_nil (hdisplay ▸ hne)
    have hfirst : first ∈ p.display := hcons ▸ List.mem_cons_self
    cases hcase : first with
    | nil =>
      have := (p.components first hfirst).1
      rw [hcase] at this
      exact absurd this (by decide)
    | cons c tail =>
      have hstart : p.displayPath.head? = some c := by
        rw [displayPath, hcons, hcase]
        cases rest with
        | nil => rfl
        | cons next rest =>
          rw [List.intercalate_cons_of_ne_nil (List.cons_ne_nil _ _)]
          rfl
      rw [hstart, Option.any_some]
      exact p.isSeparator_of_mem hfirst (hcase ▸ List.mem_cons_self)
  refine rejects_eq_false.mpr ⟨?_, (length_displayPath_le h).trans hlength, ?_, hhead, ?_,
    isDeviceOrUnc_of_head hhead⟩
  · intro hnil
    rw [hnil] at hsplit
    exact hne (hdisplay ▸ hsplit.symm)
  · intro hmem
    rcases hchars _ hmem with heq | hin
    · exact absurd heq (by decide)
    · exact hzero hin
  · intro hmem
    rcases hchars _ hmem with heq | hin
    · exact absurd heq (by decide)
    · exact hcolon hin

/-- Parsing the printed form of a path gives the path again. -/
theorem parse_displayPath (h : parse input = .ok p) : parse p.displayPath = .ok p := by
  obtain ⟨-, hne, hlength, hvalid, hdisplay⟩ := parse_eq_ok.mp h
  have hsplit : split p.displayPath = p.display := split_displayPath (hdisplay ▸ hne)
  rw [parse_eq_ok, hsplit, hdisplay]
  exact ⟨rejects_displayPath h, hne, hlength, hvalid, rfl⟩

end VirtualPath

/-! ### Confinement and keys -/

/-- A component that can leave no directory and name no device, stream or pattern. -/
structure IsConfined (part : Text) : Prop where
  ne_nil : part ≠ []
  ne_dot : part ≠ ['.']
  ne_dotDot : part ≠ ['.', '.']
  last : part.getLast? ≠ some '.' ∧ part.getLast? ≠ some ' '
  chars : ∀ c ∈ part, isSeparator c = false ∧ isControl c = false ∧ c ≠ ':' ∧ c ≠ '*' ∧ c ≠ '?'

theorem isConfined_of_parse {input : Text} {p : VirtualPath} (h : VirtualPath.parse input = .ok p)
    {part : Text} (hpart : part ∈ p.display) : IsConfined part := by
  obtain ⟨hrejects, -, -, hvalid, hdisplay⟩ := VirtualPath.parse_eq_ok.mp h
  obtain ⟨-, -, -, -, hcolon, -⟩ := VirtualPath.rejects_eq_false.mp hrejects
  have hpassed := hvalid part (hdisplay ▸ hpart)
  unfold validComponent at hpassed
  split_ifs at hpassed with hchecks
  simp only [not_or] at hchecks
  obtain ⟨hne, -, hdot, hdots, hlast, hspace, hchars⟩ := hchecks
  refine ⟨hne, hdot, hdots, ⟨hlast, hspace⟩, fun c hc => ?_⟩
  have hc' : ¬(isControl c || decide (c ∈ forbiddenChars)) = true := fun hbad =>
    hchars (List.any_eq_true.mpr ⟨c, hc, hbad⟩)
  rw [Bool.or_eq_true, not_or, Bool.not_eq_true, decide_eq_true_eq] at hc'
  refine ⟨p.isSeparator_of_mem hpart hc, hc'.1, ?_, ?_, ?_⟩
  · rintro rfl
    exact hcolon (VirtualPath.mem_input h hpart hc)
  · rintro rfl
    exact hc'.2 (by decide)
  · rintro rfl
    exact hc'.2 (by decide)

/-- The keys of two paths are equal exactly when their components are, up to the case of ASCII
letters. -/
theorem lookup_eq_iff (p q : ParsedPath) :
    p.1.lookup = q.1.lookup ↔ p.1.display.map asciiLower = q.1.display.map asciiLower := by
  constructor
  · intro h
    rw [← p.splitOn_lookup, h, q.splitOn_lookup]
  · intro h
    rw [p.1.lookup_eq, h, ← q.1.lookup_eq]

theorem parentOf_eq (p : ParsedPath) : p.1.parentOf =
      if p.1.display.length = 1 then none
      else some (joinKey (p.1.display.dropLast.map asciiLower)) := by
  have hlength : p.1.display.length ≠ 0 := by simpa using p.display_ne_nil
  have hnil : p.1.display.dropLast.map asciiLower = [] ↔ p.1.display.length = 1 := by
    rw [List.map_eq_nil_iff, ← List.length_eq_zero_iff, List.length_dropLast]
    omega
  rw [VirtualPath.parentOf, parentKey, p.splitOn_lookup, ← List.map_dropLast]
  simp only [hnil]

/-- Accepted paths are canonical and confined. -/
theorem parse_canonical (input : Text) (p : VirtualPath) (h : VirtualPath.parse input = .ok p) :
    VirtualPath.parse p.displayPath = .ok p ∧
    1 ≤ p.display.length ∧ p.display.length ≤ 64 ∧ (∀ part ∈ p.display, IsConfined part) ∧
    (∀ input' q, VirtualPath.parse input' = .ok q →
      (p.lookupKey = q.lookupKey ↔ p.display.map asciiLower = q.display.map asciiLower)) ∧
    p.parentOf =
      if p.display.length = 1 then none else some (joinKey (p.display.dropLast.map asciiLower)) := by
  obtain ⟨-, hne, hlength, -, hdisplay⟩ := VirtualPath.parse_eq_ok.mp h
  rw [← hdisplay] at hne hlength
  exact ⟨VirtualPath.parse_displayPath h, List.length_pos_iff.mpr hne, hlength,
    fun part => isConfined_of_parse h, fun input' q hq => lookup_eq_iff ⟨p, input, h⟩ ⟨q, input', hq⟩,
    parentOf_eq ⟨p, input, h⟩⟩

theorem parse_canonical_sample :
    ∃ p, VirtualPath.parse "Docs//Report.TXT".toList = .ok p ∧
      VirtualPath.parse p.displayPath = .ok p ∧ p.parentOf = some "docs".toList := by
  obtain ⟨p, hp⟩ : ∃ p, VirtualPath.parse "Docs//Report.TXT".toList = .ok p :=
    ⟨⟨["Docs".toList, "Report.TXT".toList], "docs/report.txt".toList, by decide, by decide⟩,
      VirtualPath.parse_eq_ok.mpr (by decide)⟩
  have hcanonical := parse_canonical _ p hp
  have hdisplay : p.display = ["Docs".toList, "Report.TXT".toList] := by
    rw [(VirtualPath.parse_eq_ok.mp hp).2.2.2.2]
    decide
  exact ⟨p, hp, hcanonical.1, by rw [hcanonical.2.2.2.2.2, hdisplay]; decide⟩

end Wdlp
