import Wdlp.Lib.Text

/-!
# Hardware fingerprints

A computer is identified by its system UUID, BIOS serial and disk serial. The trusted station
(`dlpctl`) and the endpoint service each normalize the three strings, refuse placeholders, and hash
what is left behind a version and field names. The two implementations differ: in the letters they
put in upper case, in the placeholders and lengths they refuse, in the name of the first field and
in the width of the lengths. So no sources give the same bytes to hash on both sides.

The mapping of a character to upper case on the station is that of Unicode, which is a parameter
here; the endpoint maps ASCII letters only.

## Main definitions

* `FingerprintSources.new`, `fingerprintV1Input` — the station.
* `HardwareFingerprintSources.new`, `HardwareFingerprintSources.digestInput` — the endpoint.

## Main results

* `same_fingerprint_iff` — both sides agree exactly on the sources that both refuse.
-/

namespace Wdlp

open CrashSafe

/-! ### What both sides share -/

/-- `dlp-fingerprint/v1`, ended by a zero byte. -/
def fingerprintVersion : Bytes := utf8 "dlp-fingerprint/v1\x00".toList

/-- The white space of Unicode. -/
def isWhitespace (c : Char) : Bool :=
  let n := c.toNat
  (9 ≤ n && n ≤ 13) || n == 32 || n == 133 || n == 160 || n == 5760 || (8192 ≤ n && n ≤ 8202) ||
    n == 8232 || n == 8233 || n == 8239 || n == 8287 || n == 12288

/-- `str::trim`. -/
def trim (value : Text) : Text :=
  ((value.dropWhile isWhitespace).reverse.dropWhile isWhitespace).reverse

/-- A field as it is hashed, with lengths of the given width. -/
def hashedField (width : ℕ) (name value : Text) : Bytes :=
  beBytes width (utf8 name).length ++ utf8 name ++ beBytes width (utf8 value).length ++ utf8 value

/-! ### The trusted station -/

structure FingerprintSources where
  systemUuid : Text
  biosSerial : Text
  systemDiskSerial : Text
  deriving DecidableEq

namespace FingerprintSources

/-- The values that the station refuses. -/
def sentinels : List Text :=
  ["UNKNOWN".toList, "NONE".toList, "N/A".toList, "TO BE FILLED BY O.E.M.".toList,
    "FFFFFFFF-FFFF-FFFF-FFFF-FFFFFFFFFFFF".toList]

/-- `normalize`, with the mapping of a character to upper case. -/
def normalize (toUppercase : Char → Text) (value : Text) : Except Unit Text :=
  let value := (trim value).flatMap toUppercase
  if value = [] ∨ 512 < (utf8 value).length ∨ value ∈ sentinels then .error ()
  else .ok value

/-- `FingerprintSources::new`. -/
def new (toUppercase : Char → Text) (systemUuid biosSerial systemDiskSerial : Text) :
    Except Unit FingerprintSources := do
  let systemUuid ← normalize toUppercase systemUuid
  let biosSerial ← normalize toUppercase biosSerial
  let systemDiskSerial ← normalize toUppercase systemDiskSerial
  return { systemUuid, biosSerial, systemDiskSerial }

end FingerprintSources

/-- The bytes that `fingerprint_v1` hashes. -/
def fingerprintV1Input (sources : FingerprintSources) : Bytes :=
  fingerprintVersion ++ (hashedField 2 "smbios_uuid".toList sources.systemUuid ++
    (hashedField 2 "bios_serial".toList sources.biosSerial ++
      hashedField 2 "system_disk_serial".toList sources.systemDiskSerial))

/-! ### The endpoint -/

inductive FingerprintError where
  | missingOrSentinel
  | unsupportedPlatform
  | changed
  deriving DecidableEq

structure HardwareFingerprintSources where
  smbiosSystemUuid : Text
  biosSerial : Text
  systemDiskSerial : Text
  deriving DecidableEq

namespace HardwareFingerprintSources

/-- The values that the endpoint refuses. -/
def sentinels : List Text :=
  ["UNKNOWN".toList, "NONE".toList, "TO BE FILLED BY O.E.M.".toList,
    "00000000-0000-0000-0000-000000000000".toList,
    "FFFFFFFF-FFFF-FFFF-FFFF-FFFFFFFFFFFF".toList]

/-- The normalization in `HardwareFingerprintSources::new`. -/
def normalize (value : Text) : Except FingerprintError Text :=
  let normalized := asciiUpper (trim value)
  if normalized = [] ∨ normalized ∈ sentinels then .error .missingOrSentinel else .ok normalized

/-- `HardwareFingerprintSources::new`. -/
def new (uuid bios disk : Text) : Except FingerprintError HardwareFingerprintSources := do
  let smbiosSystemUuid ← normalize uuid
  let biosSerial ← normalize bios
  let systemDiskSerial ← normalize disk
  return { smbiosSystemUuid, biosSerial, systemDiskSerial }

/-- The bytes that `digest` hashes. -/
def digestInput (sources : HardwareFingerprintSources) : Bytes :=
  fingerprintVersion ++ (hashedField 4 "system_uuid".toList sources.smbiosSystemUuid ++
    (hashedField 4 "bios_serial".toList sources.biosSerial ++
      hashedField 4 "system_disk_serial".toList sources.systemDiskSerial))

end HardwareFingerprintSources

/-! ### Agreement -/

/-- Both sides accept or refuse the sources alike, and hash the same bytes when they accept. -/
def SameFingerprint (toUppercase : Char → Text) (uuid bios disk : Text) : Prop :=
  ((∃ station, FingerprintSources.new toUppercase uuid bios disk = .ok station) ↔
    ∃ endpoint, HardwareFingerprintSources.new uuid bios disk = .ok endpoint) ∧
  ∀ station endpoint, FingerprintSources.new toUppercase uuid bios disk = .ok station →
    HardwareFingerprintSources.new uuid bios disk = .ok endpoint →
      fingerprintV1Input station = endpoint.digestInput

/-- The byte strings differ in the width of the first length. -/
theorem fingerprintV1Input_ne_digestInput (station : FingerprintSources)
    (endpoint : HardwareFingerprintSources) :
    fingerprintV1Input station ≠ endpoint.digestInput := by
  intro h
  have hfields := List.append_cancel_left h
  simp only [hashedField, List.append_assoc] at hfields
  have hstation : beBytes 2 (utf8 "smbios_uuid".toList).length = [0, 11] := by decide
  have hendpoint : beBytes 4 (utf8 "system_uuid".toList).length = [0, 0, 0, 11] := by decide
  rw [hstation, hendpoint] at hfields
  simp at hfields

/-- The station and the endpoint agree on three sources exactly when both refuse them. -/
theorem same_fingerprint_iff (toUppercase : Char → Text) (uuid bios disk : Text) :
    SameFingerprint toUppercase uuid bios disk ↔
      (FingerprintSources.new toUppercase uuid bios disk).isOk = false ∧
        (HardwareFingerprintSources.new uuid bios disk).isOk = false := by
  unfold SameFingerprint
  cases hstation : FingerprintSources.new toUppercase uuid bios disk with
  | error e =>
    cases hendpoint : HardwareFingerprintSources.new uuid bios disk with
    | error e' => simp [Except.isOk, Except.toBool]
    | ok endpoint => simp [Except.isOk, Except.toBool]
  | ok station =>
    cases hendpoint : HardwareFingerprintSources.new uuid bios disk with
    | error e' => simp [Except.isOk, Except.toBool]
    | ok endpoint =>
      have hne := fingerprintV1Input_ne_digestInput station endpoint
      simp [Except.isOk, Except.toBool, hne]

/-- Sources that both sides accept and hash differently, and a BIOS serial that only the endpoint
accepts. -/
theorem fingerprints_differ :
    ¬SameFingerprint (fun c => [c.toUpper]) "4c4c4544".toList "x1".toList "s2".toList ∧
      FingerprintSources.new (fun c => [c.toUpper]) "4c4c4544".toList "n/a".toList "s2".toList =
        .error () ∧
      HardwareFingerprintSources.new "4c4c4544".toList "n/a".toList "s2".toList =
        .ok ⟨"4C4C4544".toList, "N/A".toList, "S2".toList⟩ := by
  have hstation : FingerprintSources.new (fun c => [c.toUpper]) "4c4c4544".toList "x1".toList
      "s2".toList = .ok ⟨"4C4C4544".toList, "X1".toList, "S2".toList⟩ := by decide +kernel
  have hendpoint : HardwareFingerprintSources.new "4c4c4544".toList "x1".toList "s2".toList =
      .ok ⟨"4C4C4544".toList, "X1".toList, "S2".toList⟩ := by decide +kernel
  exact ⟨fun h => fingerprintV1Input_ne_digestInput _ _ (h.2 _ _ hstation hendpoint),
    by decide +kernel, by decide +kernel⟩

end Wdlp
