import Mathlib.Data.List.Infix
import Mathlib.Data.Nat.Find

/-!
# Reading a list page by page

A list is read by calls that each return some of its elements. A call gets as its marker the last
element that was returned so far. When each call returns a first part of what is left, the calls
return the list, and the first call that returns nothing has nothing left to return. In a strictly
ordered list, what is left is what comes after the marker.

## Main definitions

* `fill` — the elements that fit into a given room.
* `after` — the elements that come after a marker.
* `returned` — what the first calls return, each with the last element as its marker.

## Main results

* `after_append` — after the last element of a first part comes the rest.
* `returned_complete` — the calls return the whole list and then nothing.
-/

namespace CrashSafe

variable {α : Type}

/-! ### One page -/

/-- The elements from the front of a list that fit into the room together. -/
def fill (size : α → ℕ) : (room : ℕ) → List α → List α
  | _, [] => []
  | room, a :: l => if size a ≤ room then a :: fill size (room - size a) l else []

theorem fill_isPrefix (size : α → ℕ) : (room : ℕ) → (l : List α) → fill size room l <+: l
  | _, [] => List.prefix_rfl
  | room, a :: l => by
    unfold fill
    split_ifs
    · exact (List.prefix_cons_inj a).mpr (fill_isPrefix size (room - size a) l)
    · exact List.nil_prefix

/-- Only an empty list gives an empty page, if there is room for one element. -/
theorem eq_nil_of_fill_eq_nil {size : α → ℕ} {room : ℕ} {l : List α}
    (hroom : ∀ a ∈ l, size a ≤ room) (h : fill size room l = []) : l = [] := by
  cases l with
  | nil => rfl
  | cons a l =>
    rw [fill, if_pos (hroom a List.mem_cons_self)] at h
    cases h

/-! ### Markers -/

variable (r : α → α → Prop) [DecidableRel r]

/-- The elements that come after the marker, if there is one. -/
def after (marker : Option α) (l : List α) : List α :=
  l.filter fun a => marker.all fun m => decide (r m a)

variable {r}

/-- After the last element of a first part comes the rest. -/
theorem after_append [Std.Asymm r] {front rest : List α} (h : (front ++ rest).Pairwise r) :
    after r front.getLast? (front ++ rest) = rest := by
  cases hlast : front.getLast? with
  | none =>
    rw [List.getLast?_eq_none_iff.mp hlast, after]
    simp
  | some m =>
    obtain ⟨init, rfl⟩ := List.getLast?_eq_some_iff.mp hlast
    rw [List.pairwise_append] at h
    obtain ⟨hfront, -, hacross⟩ := h
    have hdropped : (init ++ [m]).filter (fun a => decide (r m a)) = [] := by
      rw [List.filter_eq_nil_iff]
      intro a ha hma
      have hma : r m a := of_decide_eq_true hma
      rcases List.mem_append.mp ha with ha | ha
      · have ham := (List.pairwise_append.mp hfront).2.2 a ha m (List.mem_singleton_self m)
        exact Std.Asymm.asymm m a hma ham
      · rw [List.mem_singleton] at ha
        exact Std.Asymm.asymm m a hma (ha ▸ ha ▸ hma)
    have hkept : rest.filter (fun a => decide (r m a)) = rest := by
      rw [List.filter_eq_self]
      intro a ha
      exact decide_eq_true (hacross m (by simp) a ha)
    change (init ++ [m] ++ rest).filter (fun a => decide (r m a)) = rest
    rw [List.filter_append, hdropped, hkept, List.nil_append]

/-! ### All pages -/

/-- What the first calls return, where each call gets the last element so far as its marker. -/
def returned (page : ℕ → Option α → List α) : ℕ → List α
  | 0 => []
  | n + 1 => returned page n ++ page n (returned page n).getLast?

section Complete

variable {page : ℕ → Option α → List α} {l : List α}

/-- The pages are parts of the list, one after the other. -/
theorem returned_isPrefix
    (hpage : ∀ n front rest, front ++ rest = l → page n front.getLast? <+: rest) (n : ℕ) :
    returned page n <+: l := by
  induction n with
  | zero => exact List.nil_prefix
  | succ n ih =>
    obtain ⟨rest, hrest⟩ := ih
    obtain ⟨later, hlater⟩ := hpage n (returned page n) rest hrest
    refine ⟨later, ?_⟩
    rw [returned, List.append_assoc, hlater, hrest]

theorem le_length_returned {n : ℕ} (h : ∀ k < n, page k (returned page k).getLast? ≠ []) :
    n ≤ (returned page n).length := by
  induction n with
  | zero => exact Nat.zero_le _
  | succ n ih =>
    have hn := ih fun k hk => h k (Nat.lt_succ_of_lt hk)
    have hpos := List.length_pos_iff.mpr (h n (Nat.lt_succ_self n))
    rw [returned, List.length_append]
    omega

/-- The calls return the whole list and then nothing. -/
theorem returned_complete
    (hpage : ∀ n front rest, front ++ rest = l → page n front.getLast? <+: rest)
    (hmore : ∀ n front rest, front ++ rest = l → page n front.getLast? = [] → rest = []) :
    ∃ n ≤ l.length, (∀ k < n, page k (returned page k).getLast? ≠ []) ∧
      page n (returned page n).getLast? = [] ∧ returned page n = l := by
  -- there are no more pages with elements than elements
  have hends : ∃ n, page n (returned page n).getLast? = [] := by
    by_contra hnever
    have hlong : l.length + 1 ≤ (returned page (l.length + 1)).length :=
      le_length_returned fun k _ hk => hnever ⟨k, hk⟩
    have hshort := (returned_isPrefix hpage (l.length + 1)).length_le
    omega
  classical
  let n := Nat.find hends
  have hbefore : ∀ k < n, page k (returned page k).getLast? ≠ [] := fun _ => Nat.find_min hends
  have hlast : page n (returned page n).getLast? = [] := Nat.find_spec hends
  have hpart := returned_isPrefix hpage n
  refine ⟨n, (le_length_returned hbefore).trans hpart.length_le, hbefore, hlast, ?_⟩
  obtain ⟨rest, hrest⟩ := hpart
  rw [← hrest, hmore n _ rest hrest hlast, List.append_nil]

end Complete

end CrashSafe
