import Wdlp.Lib.FileSystem

/-!
# Words, chunks and edits of byte strings

Numbers are stored in a fixed number of bytes, the least significant first (`leBytes`,
`ofLeBytes`) or the most significant first (`beBytes`, `ofBeBytes`), and `framed` puts the length of
a string in front of it. A byte string is cut into chunks of a given size, the last one shorter (`chunks`),
and it is resized and overwritten in place (`resize`, `overwrite`).

## Main results

* `ofLeBytes_leBytes`, `ofBeBytes_beBytes` — a number that fits is read back from its bytes.
* `flatten_chunks` — the chunks of a string make up the string.
* `getD_overwrite`, `getD_resize` — the bytes of an edited string.
-/

namespace CrashSafe

/-! ### Little-endian words -/

/-- The `width` low bytes of `n`, the least significant first. -/
def leBytes : (width : ℕ) → (n : ℕ) → Bytes
  | 0, _ => []
  | width + 1, n => UInt8.ofNat (n % 256) :: leBytes width (n / 256)

/-- The number with the given bytes, the least significant first. -/
def ofLeBytes : Bytes → ℕ
  | [] => 0
  | b :: bs => b.toNat + 256 * ofLeBytes bs

@[simp] theorem length_leBytes : (width n : ℕ) → (leBytes width n).length = width
  | 0, _ => rfl
  | width + 1, n => by rw [leBytes, List.length_cons, length_leBytes width]

theorem ofLeBytes_leBytes_mod : (width n : ℕ) → ofLeBytes (leBytes width n) = n % 256 ^ width
  | 0, n => by
    rw [pow_zero, Nat.mod_one]
    rfl
  | width + 1, n => by
    have hmod : (UInt8.ofNat (n % 256)).toNat = n % 256 := by
      rw [UInt8.toNat_ofNat']
      omega
    rw [leBytes, ofLeBytes, ofLeBytes_leBytes_mod width, hmod, Nat.pow_succ', Nat.mod_mul]

theorem ofLeBytes_leBytes (width n : ℕ) (h : n < 256 ^ width) :
    ofLeBytes (leBytes width n) = n := by
  rw [ofLeBytes_leBytes_mod, Nat.mod_eq_of_lt h]

theorem leBytes_inj {width m n : ℕ} (hm : m < 256 ^ width) (hn : n < 256 ^ width)
    (h : leBytes width m = leBytes width n) : m = n := by
  rw [← ofLeBytes_leBytes width m hm, h, ofLeBytes_leBytes width n hn]

/-- Two strings that start with words of one width: the words and the rests are equal. -/
theorem leBytes_append_inj {width m n : ℕ} {x y : Bytes} (hm : m < 256 ^ width)
    (hn : n < 256 ^ width) (h : leBytes width m ++ x = leBytes width n ++ y) : m = n ∧ x = y := by
  obtain ⟨hw, hxy⟩ := List.append_inj h (by rw [length_leBytes, length_leBytes])
  exact ⟨leBytes_inj hm hn hw, hxy⟩

theorem ofLeBytes_lt : (bs : Bytes) → ofLeBytes bs < 256 ^ bs.length
  | [] => by simp [ofLeBytes]
  | b :: bs => by
    have hb := b.toNat_lt
    have hbs := ofLeBytes_lt bs
    rw [ofLeBytes, List.length_cons, pow_succ]
    omega

/-- Bytes are those of the number they stand for. -/
theorem leBytes_ofLeBytes : (bs : Bytes) → leBytes bs.length (ofLeBytes bs) = bs
  | [] => rfl
  | b :: bs => by
    have hb := b.toNat_lt
    have hmod : (b.toNat + 256 * ofLeBytes bs) % 256 = b.toNat := by omega
    have hdiv : (b.toNat + 256 * ofLeBytes bs) / 256 = ofLeBytes bs := by omega
    rw [ofLeBytes, List.length_cons, leBytes, hmod, hdiv, leBytes_ofLeBytes bs, UInt8.ofNat_toNat]

/-! ### Big-endian words -/

/-- The `width` low bytes of `n`, the most significant first. -/
def beBytes (width n : ℕ) : Bytes := (leBytes width n).reverse

/-- The number with the given bytes, the most significant first. -/
def ofBeBytes (bs : Bytes) : ℕ := ofLeBytes bs.reverse

@[simp] theorem length_beBytes (width n : ℕ) : (beBytes width n).length = width := by
  rw [beBytes, List.length_reverse, length_leBytes]

theorem ofBeBytes_beBytes (width n : ℕ) (h : n < 256 ^ width) : ofBeBytes (beBytes width n) = n := by
  rw [ofBeBytes, beBytes, List.reverse_reverse, ofLeBytes_leBytes width n h]

theorem beBytes_ofBeBytes (bs : Bytes) : beBytes bs.length (ofBeBytes bs) = bs := by
  rw [beBytes, ofBeBytes, ← List.length_reverse, leBytes_ofLeBytes, List.reverse_reverse]

theorem ofBeBytes_lt (bs : Bytes) : ofBeBytes bs < 256 ^ bs.length := by
  rw [ofBeBytes, ← List.length_reverse]
  exact ofLeBytes_lt _

/-- Bytes behind their length in four bytes. -/
def framed (bs : Bytes) : Bytes := beBytes 4 bs.length ++ bs

/-! ### Chunks -/

section Chunks

variable {α : Type} {size : ℕ}

/-- A string cut into chunks of `size` bytes, the last one shorter, at most `count` of them. -/
def chunksUpTo (size : ℕ) : (count : ℕ) → List α → List (List α)
  | 0, _ => []
  | _ + 1, [] => []
  | count + 1, a :: data =>
    (a :: data).take size :: chunksUpTo size count ((a :: data).drop size)

/-- A string cut into chunks of `size` bytes, the last one shorter. -/
def chunks (size : ℕ) (data : List α) : List (List α) := chunksUpTo size data.length data

private theorem flatten_chunksUpTo (hsize : 0 < size) : (count : ℕ) → (data : List α) →
    data.length ≤ count → (chunksUpTo size count data).flatten = data
  | 0, data, h => by
    rw [List.length_eq_zero_iff.mp (Nat.le_zero.mp h)]
    rfl
  | _ + 1, [], _ => rfl
  | count + 1, a :: data, h => by
    have hdrop : ((a :: data).drop size).length ≤ count := by
      rw [List.length_drop]
      omega
    rw [chunksUpTo, List.flatten_cons, flatten_chunksUpTo hsize count _ hdrop,
      List.take_append_drop]

/-- The chunks of a string make up the string. -/
theorem flatten_chunks (hsize : 0 < size) (data : List α) : (chunks size data).flatten = data :=
  flatten_chunksUpTo hsize data.length data le_rfl

private theorem length_chunksUpTo : (count : ℕ) → (data : List α) →
    (chunksUpTo size count data).length ≤ count
  | 0, _ => le_rfl
  | _ + 1, [] => Nat.zero_le _
  | count + 1, _ :: _ => Nat.succ_le_succ (length_chunksUpTo count _)

/-- A string has at most as many chunks as bytes. -/
theorem length_chunks_le (data : List α) : (chunks size data).length ≤ data.length :=
  length_chunksUpTo data.length data

private theorem length_le_of_mem_chunksUpTo {c : List α} : (count : ℕ) → (data : List α) →
    c ∈ chunksUpTo size count data → c.length ≤ size
  | 0, _, h => absurd h List.not_mem_nil
  | _ + 1, [], h => absurd h List.not_mem_nil
  | count + 1, a :: data, h => by
    rcases List.mem_cons.mp h with rfl | h
    · exact List.length_take_le _ _
    · exact length_le_of_mem_chunksUpTo count _ h

theorem length_le_of_mem_chunks {data c : List α} (hc : c ∈ chunks size data) :
    c.length ≤ size := length_le_of_mem_chunksUpTo data.length data hc

end Chunks

/-! ### Edits -/

section Edits

/-- The string shortened, or lengthened with zeros, to `length` bytes. -/
def resize (data : Bytes) (length : ℕ) : Bytes :=
  data.take length ++ List.replicate (length - data.length) 0

/-- The string with `bytes` in place of as many of its bytes from `offset` on. -/
def overwrite (data : Bytes) (offset : ℕ) (bytes : Bytes) : Bytes :=
  data.take offset ++ bytes ++ data.drop (offset + bytes.length)

variable (data : Bytes) (offset : ℕ) (bytes : Bytes) (length i : ℕ)

@[simp] theorem length_resize : (resize data length).length = length := by
  simp only [resize, List.length_append, List.length_take, List.length_replicate]
  omega

theorem length_overwrite (h : offset + bytes.length ≤ data.length) :
    (overwrite data offset bytes).length = data.length := by
  simp only [overwrite, List.length_append, List.length_take, List.length_drop]
  omega

theorem getD_resize : (resize data length).getD i 0 = if i < length then data.getD i 0 else 0 := by
  simp only [resize, List.getD_eq_getElem?_getD, List.getElem?_append, List.length_take,
    List.getElem?_take, List.getElem?_replicate]
  by_cases hi : i < length
  · by_cases hd : i < data.length
    · simp [hi, hd]
    · have hmin : ¬i < min length data.length := by omega
      have hrep : i - min length data.length < length - data.length := by omega
      have hnone : data[i]? = none := List.getElem?_eq_none (by omega)
      simp only [hmin, hrep, hi, hnone, ↓reduceIte, Option.getD_some, Option.getD_none]
  · have hmin : ¬i < min length data.length := by omega
    have hrep : ¬i - min length data.length < length - data.length := by omega
    simp only [hmin, hrep, hi, ↓reduceIte, Option.getD_none]

theorem getD_overwrite (h : offset + bytes.length ≤ data.length) :
    (overwrite data offset bytes).getD i 0 =
      if offset ≤ i ∧ i < offset + bytes.length then bytes.getD (i - offset) 0
      else data.getD i 0 := by
  have hmin : min offset data.length = offset := by omega
  simp only [overwrite, List.getD_eq_getElem?_getD, List.getElem?_append, List.length_append,
    List.length_take, List.getElem?_take, List.getElem?_drop, hmin]
  by_cases hlo : i < offset
  · have hn : ¬(offset ≤ i ∧ i < offset + bytes.length) := by omega
    have hb : i < offset + bytes.length := by omega
    rw [if_neg hn, if_pos hb, if_pos hlo, if_pos hlo]
  · by_cases hhi : i < offset + bytes.length
    · have hin : offset ≤ i ∧ i < offset + bytes.length := ⟨by omega, hhi⟩
      simp only [hlo, hhi, hin, and_self, ↓reduceIte]
    · have hn : ¬(offset ≤ i ∧ i < offset + bytes.length) := by omega
      have hi : offset + bytes.length + (i - (offset + bytes.length)) = i := by omega
      rw [if_neg hn, if_neg hhi, hi]

end Edits

end CrashSafe
