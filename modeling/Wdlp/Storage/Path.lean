import Wdlp.Lib.Text

/-!
# Virtual paths

Windows-style paths inside a protected drive. A path keeps the components as the caller wrote them
and the key under which the namespace stores it: the components in ASCII lower case, joined by
slashes.

## Main definitions

* `VirtualPath` — paths whose components are valid names and whose key belongs to them.
* `VirtualPath.parse`, `VirtualPath.root` — the two ways to make one; `ParsedPath` is the type of
  the paths that `parse` accepts.
* `parentKey`, `baseName` — the directory part and the last component of a key.

## Main results

* `parentKey_childKey`, `baseName_childKey` — the two parts of a key inside a directory.
* `ParsedPath.baseName_lookup` — the last component of a key is the lower-case display name.
-/

namespace Wdlp

open CrashSafe

/-- `MAX_PATH_LENGTH`. -/
def maxPathLength : ℕ := 260

/-- `MAX_COMPONENT_LENGTH`. -/
def maxComponentLength : ℕ := 128

/-- `MAX_COMPONENTS`. -/
def maxComponents : ℕ := 64

inductive PathError where
  | invalidPath
  deriving DecidableEq, Repr

/-- The control characters of Unicode. -/
def isControl (c : Char) : Bool := c.toNat < 0x20 || (0x7f ≤ c.toNat && c.toNat ≤ 0x9f)

/-- The device names that no file can have, whatever its extension. -/
def reservedStems : List Text :=
  ["CON", "PRN", "AUX", "NUL", "COM1", "COM2", "COM3", "COM4", "COM5", "COM6", "COM7", "COM8",
    "COM9", "LPT1", "LPT2", "LPT3", "LPT4", "LPT5", "LPT6", "LPT7", "LPT8", "LPT9"].map
      String.toList

/-- The characters that no name can have. -/
def forbiddenChars : Text := "<>\"|?*".toList

/-- `valid_component`. -/
def validComponent (component : Text) : Bool :=
  if component = [] ∨ (utf8 component).length > maxComponentLength ∨ component = ['.'] ∨
      component = ['.', '.'] ∨ component.getLast? = some '.' ∨ component.getLast? = some ' ' ∨
      component.any (fun c => isControl c || c ∈ forbiddenChars) then
    false
  else
    decide (asciiUpper ((component.splitOn '.').headD []) ∉ reservedStems)

theorem ne_nil_of_validComponent {component : Text} (h : validComponent component = true) :
    component ≠ [] := by
  rintro rfl
  exact absurd h (by decide)

/-- No component holds a control character. -/
theorem not_mem_of_validComponent {component : Text} {c : Char} (hc : isControl c = true)
    (h : validComponent component = true) : c ∉ component := by
  intro hmem
  have hany : component.any (fun c => isControl c || c ∈ forbiddenChars) = true :=
    List.any_eq_true.mpr ⟨c, hmem, by rw [hc, Bool.true_or]⟩
  simp [validComponent, hany] at h

/-- `is_device_or_unc`. -/
def isDeviceOrUnc (input : Text) : Bool :=
  let upper := asciiUpper input
  "\\\\".toList.isPrefixOf upper || "\\DEVICE\\".toList.isPrefixOf upper ||
    "\\?\\".toList.isPrefixOf upper

/-- Backslashes and slashes separate components. -/
def isSeparator (c : Char) : Bool := c == '\\' || c == '/'

/-- The key of a path with the given components. -/
def joinKey (parts : List Text) : Text := ['/'].intercalate parts

/-- A path: the components as written, and the key under which it is found. -/
structure VirtualPath where
  display : List Text
  lookup : Text
  components : ∀ part ∈ display, validComponent part = true ∧ part.all (!isSeparator ·) = true
  lookup_eq : lookup = joinKey (display.map asciiLower)
  deriving DecidableEq

namespace VirtualPath

/-- The root directory, which no caller can name. -/
def root : VirtualPath where
  display := []
  lookup := []
  components := by simp
  lookup_eq := rfl

/-- The checks on the input as a whole. -/
def rejects (input : Text) : Bool :=
  decide (input = []) || decide ((utf8 input).length > maxPathLength) ||
    decide (Char.ofNat 0 ∈ input) || (input.head?.any isSeparator) || decide (':' ∈ input) ||
    isDeviceOrUnc input

/-- The non-empty components of the input. -/
def split (input : Text) : List Text := (input.splitOnP isSeparator).filter (· ≠ [])

theorem split_noSeparator {input part : Text} (h : part ∈ split input) :
    part.all (!isSeparator ·) = true := by
  have hmem := not_mem_of_mem_splitOnP input (List.mem_filter.mp h).1
  exact List.all_eq_true.mpr fun c hc => by simp [hmem c hc]

/-- A path from caller input. -/
def parse (input : Text) : Except PathError VirtualPath :=
  if rejects input then .error .invalidPath
  else if h : split input = [] ∨ (split input).length > maxComponents ∨
      (split input).any (!validComponent ·) = true then
    .error .invalidPath
  else
    .ok {
      display := split input
      lookup := joinKey ((split input).map asciiLower)
      components := fun part hpart => by
        simp only [not_or, List.any_eq_true, Bool.not_eq_true', not_exists, not_and,
          Bool.not_eq_false] at h
        exact ⟨h.2.2 part hpart, split_noSeparator hpart⟩
      lookup_eq := rfl }

/-- `lookup_key`. -/
def lookupKey (p : VirtualPath) : Text := p.lookup

/-- `display_name`, with the empty string for the root as its callers have it. -/
def displayName (p : VirtualPath) : Text := p.display.getLast?.getD []

end VirtualPath

/-! ### Keys -/

/-- `parent_key`: the key of the directory that holds a key, if it is not the root. -/
def parentKey (key : Text) : Option Text :=
  let pieces := (key.splitOn '/').dropLast
  if pieces = [] then none else some (joinKey pieces)

/-- The last component of a key. -/
def baseName (key : Text) : Text := (key.splitOn '/').getLast?.getD []

/-- The key of something inside a directory, by what follows the key of the directory. -/
def childKey (directory rest : Text) : Text := directory ++ '/' :: rest

theorem joinKey_splitOn (key : Text) : joinKey (key.splitOn '/') = key :=
  List.intercalate_splitOn '/'

theorem splitOn_joinKey {parts : List Text} (h : ∀ part ∈ parts, '/' ∉ part) (hne : parts ≠ []) :
    (joinKey parts).splitOn '/' = parts :=
  List.splitOn_intercalate '/' h hne

theorem splitOn_childKey (directory rest : Text) :
    (childKey directory rest).splitOn '/' = directory.splitOn '/' ++ rest.splitOn '/' :=
  splitOn_append_cons '/' directory rest

theorem mem_joinKey {c : Char} (parts : List Text) (h : c ∈ joinKey parts) :
    c = '/' ∨ ∃ part ∈ parts, c ∈ part :=
  mem_intercalate parts h

theorem joinKey_append {a b : List Text} (ha : a ≠ []) (hb : b ≠ []) :
    joinKey (a ++ b) = childKey (joinKey a) (joinKey b) := by
  rw [childKey, joinKey, joinKey, joinKey]
  induction a with
  | nil => exact absurd rfl ha
  | cons x a ih =>
    cases a with
    | nil =>
      rw [List.singleton_append, List.intercalate_cons_of_ne_nil hb, List.intercalate_singleton,
        List.append_assoc]
      rfl
    | cons y a =>
      have hya : y :: a ++ b ≠ [] := by simp
      have hxy : ['/'].intercalate (x :: y :: a) = x ++ ['/'] ++ ['/'].intercalate (y :: a) :=
        List.intercalate_cons_of_ne_nil (by simp)
      rw [List.cons_append, List.intercalate_cons_of_ne_nil hya, ih (by simp), hxy,
        List.append_assoc _ _ ('/' :: _)]

/-- The directory part of a key inside a directory. -/
theorem parentKey_childKey (directory rest : Text) : parentKey
    (childKey directory rest) = some (match parentKey rest with
        | none => directory
        | some parent => childKey directory parent) := by
  have hne := splitOn_ne_nil '/' directory
  simp only [parentKey, splitOn_childKey, List.dropLast_append_of_ne_nil (splitOn_ne_nil '/' rest)]
  rw [if_neg (by simp [hne])]
  by_cases hrest : (rest.splitOn '/').dropLast = []
  · simp only [hrest, List.append_nil, ↓reduceIte, joinKey_splitOn]
  · simp only [hrest, ↓reduceIte, joinKey_append hne hrest, joinKey_splitOn]

/-- The last component of a key inside a directory. -/
theorem baseName_childKey (directory rest : Text) :
    baseName (childKey directory rest) = baseName rest := by
  have hne := splitOn_ne_nil '/' rest
  rw [baseName, splitOn_childKey, List.getLast?_append_of_ne_nil _ hne, baseName]

theorem parentKey_eq_none {key : Text} : parentKey key = none ↔ '/' ∉ key := by
  constructor
  · intro h hmem
    obtain ⟨s, t, rfl⟩ := List.append_of_mem hmem
    rw [show s ++ '/' :: t = childKey s t from rfl, parentKey_childKey] at h
    cases h
  · intro h
    simp only [parentKey, splitOn_of_not_mem h]
    rfl

/-- A key with a directory part is that part, a slash and the last component. -/
theorem eq_childKey_of_parentKey {key parent : Text} (h : parentKey key = some parent) :
    key = childKey parent (baseName key) := by
  have hne := splitOn_ne_nil '/' key
  simp only [parentKey] at h
  split_ifs at h with hp
  obtain rfl := Option.some.inj h
  have hlast : (key.splitOn '/').getLast?.getD [] = (key.splitOn '/').getLast hne := by
    rw [List.getLast?_eq_some_getLast hne, Option.getD_some]
  have hjoin := @joinKey_append (key.splitOn '/').dropLast [(key.splitOn '/').getLast hne] hp
    (by simp)
  rw [List.dropLast_append_getLast hne, joinKey_splitOn] at hjoin
  rw [baseName, hlast]
  simpa [joinKey] using hjoin

theorem baseName_no_slash (key : Text) : '/' ∉ baseName key := by
  have hne := splitOn_ne_nil '/' key
  rw [baseName, List.getLast?_eq_some_getLast hne, Option.getD_some]
  exact not_mem_of_mem_splitOn (List.getLast_mem hne)

/-! ### Accepted paths -/

/-- The paths that `VirtualPath.parse` accepts. -/
abbrev ParsedPath := { p : VirtualPath // ∃ input, VirtualPath.parse input = .ok p }

namespace ParsedPath

/-- The path of an accepted input. -/
def ofInput (input : Text) (h : (VirtualPath.parse input).toOption.isSome = true) : ParsedPath :=
  match hp : VirtualPath.parse input with
  | .ok p => ⟨p, input, hp⟩
  | .error _ => absurd h (by rw [hp]; simp [Except.toOption])

section

variable (p : ParsedPath)

include p

theorem display_ne_nil : p.1.display ≠ [] := by
  obtain ⟨p, input, h⟩ := p
  unfold VirtualPath.parse at h
  split_ifs at h with h₁ h₂
  cases h
  exact fun hnil => h₂ (Or.inl hnil)

theorem components_no_slash : ∀ part ∈ p.1.display.map asciiLower, '/' ∉ part := by
  intro part hpart hmem
  obtain ⟨raw, hraw, rfl⟩ := List.mem_map.mp hpart
  obtain ⟨c, hc, hlow⟩ := List.mem_map.mp hmem
  have hsep := List.all_eq_true.mp (p.1.components raw hraw).2 c hc
  rw [eq_of_toLower_eq (by decide) hlow] at hsep
  simp [isSeparator] at hsep

theorem splitOn_lookup : p.1.lookup.splitOn '/' = p.1.display.map asciiLower := by
  rw [p.1.lookup_eq]
  exact splitOn_joinKey p.components_no_slash (by simpa using p.display_ne_nil)

/-- The last component of the key is the display name in lower case. -/
theorem baseName_lookup : baseName p.1.lookup = asciiLower p.1.displayName := by
  rw [baseName, splitOn_lookup, List.getLast?_map, VirtualPath.displayName]
  cases p.1.display.getLast? <;> rfl

theorem displayName_mem : p.1.displayName ∈ p.1.display := by
  rw [VirtualPath.displayName, List.getLast?_eq_some_getLast p.display_ne_nil]
  exact List.getLast_mem p.display_ne_nil

theorem displayName_ne_nil : p.1.displayName ≠ [] :=
  ne_nil_of_validComponent (p.1.components _ p.displayName_mem).1

theorem not_mem_component {c : Char} (hc : isControl c = true) {part : Text}
    (hpart : part ∈ p.1.display) : c ∉ part :=
  not_mem_of_validComponent hc (p.1.components part hpart).1

/-- No key holds a control character. -/
theorem not_mem_lookup {c : Char} (hc : isControl c = true)
    (hlower : c.isLower = false) (hslash : c ≠ '/') : c ∉ p.1.lookup := by
  rw [p.1.lookup_eq]
  intro hmem
  rcases mem_joinKey _ hmem with h | ⟨part, hpart, hin⟩
  · exact hslash h
  · obtain ⟨raw, hraw, rfl⟩ := List.mem_map.mp hpart
    obtain ⟨c', hc', heq⟩ := List.mem_map.mp hin
    exact p.not_mem_component hc hraw (eq_of_toLower_eq hlower heq ▸ hc')

theorem lookup_ne_nil : p.1.lookup ≠ [] := by
  intro hnil
  have hbase := p.baseName_lookup
  rw [hnil] at hbase
  exact p.displayName_ne_nil (asciiLower_eq_nil.mp hbase.symm)

end

end ParsedPath

end Wdlp
