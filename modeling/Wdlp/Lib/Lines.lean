import Mathlib

/-!
# Pieces that end in a separator

A list is cut behind each occurrence of a separator. What follows the last one is not a piece.

## Main definitions

* `terminated sep l` — the pieces of `l`, each with the separator at its end.

## Main results

* `terminated_induction` — induction on a list, piece by piece.
* `terminated_append` — behind a separator the pieces are those of the rest.
* `exists_flatten_terminated` — a list is its pieces and a rest without a separator.
-/

namespace CrashSafe

variable {α : Type} [DecidableEq α] {sep : α} {l l' b piece : List α}

/-- The pieces of a list that end in the separator. -/
def terminated (sep : α) : List α → List (List α)
  | [] => []
  | a :: l =>
    if a = sep then [a] :: terminated sep l
    else match terminated sep l with
      | [] => []
      | piece :: rest => (a :: piece) :: rest

theorem terminated_of_notMem : (l : List α) → sep ∉ l → terminated sep l = []
  | [], _ => rfl
  | a :: l, h => by
    rw [List.mem_cons, not_or] at h
    rw [terminated, if_neg (Ne.symm h.1), terminated_of_notMem l h.2]

/-- The first piece reaches to the first separator. -/
theorem terminated_cons : (b : List α) → sep ∉ b →
    terminated sep (b ++ sep :: l) = (b ++ [sep]) :: terminated sep l
  | [], _ => by rw [List.nil_append, terminated, if_pos rfl, List.nil_append]
  | a :: b, h => by
    rw [List.mem_cons, not_or] at h
    rw [List.cons_append, terminated, if_neg (Ne.symm h.1), terminated_cons b h.2]
    rfl

/-- Induction on a list, piece by piece. -/
theorem terminated_induction (sep : α) {motive : List α → Prop} (rest : ∀ l, sep ∉ l → motive l)
    (piece : ∀ b l, sep ∉ b → motive l → motive (b ++ sep :: l)) (l : List α) : motive l := by
  induction h : l.length using Nat.strong_induction_on generalizing l with
  | _ n ih =>
    by_cases hmem : sep ∈ l
    · obtain ⟨b, l', rfl, hb⟩ := List.eq_append_cons_of_mem hmem
      refine piece b l' hb (ih _ ?_ l' rfl)
      rw [← h, List.length_append, List.length_cons]
      omega
    · exact rest l hmem

/-- A piece has one separator, at its end. -/
theorem exists_of_mem_terminated (h : piece ∈ terminated sep l) :
    ∃ b, sep ∉ b ∧ piece = b ++ [sep] := by
  induction l using terminated_induction sep with
  | rest l hl =>
    rw [terminated_of_notMem l hl] at h
    exact absurd h List.not_mem_nil
  | piece b l hb ih =>
    rw [terminated_cons b hb] at h
    rcases List.mem_cons.mp h with rfl | h
    · exact ⟨b, hb, rfl⟩
    · exact ih h

/-- A list is its pieces and a rest without a separator. -/
theorem exists_flatten_terminated (sep : α) (l : List α) :
    ∃ rest, sep ∉ rest ∧ l = (terminated sep l).flatten ++ rest := by
  induction l using terminated_induction sep with
  | rest l hl => exact ⟨l, hl, by rw [terminated_of_notMem l hl, List.flatten_nil, List.nil_append]⟩
  | piece b l hb ih =>
    obtain ⟨rest, hrest, hl⟩ := ih
    refine ⟨rest, hrest, ?_⟩
    rw [terminated_cons b hb, List.flatten_cons, List.append_assoc, ← hl, List.append_assoc,
      List.singleton_append]

/-- Behind a list that is made up of pieces the pieces are those of the rest. -/
theorem terminated_append (h : (terminated sep l).flatten = l) :
    terminated sep (l ++ l') = terminated sep l ++ terminated sep l' := by
  induction l using terminated_induction sep with
  | rest l hl =>
    rw [terminated_of_notMem l hl, List.flatten_nil] at h
    rw [terminated_of_notMem l hl, ← h, List.nil_append, List.nil_append]
  | piece b l hb ih =>
    rw [terminated_cons b hb, List.flatten_cons, List.append_assoc, List.singleton_append,
      List.append_cancel_left_eq, List.cons.injEq] at h
    rw [List.append_assoc, List.cons_append, terminated_cons b hb, terminated_cons b hb, ih h.2,
      List.cons_append]

/-- A list that ends in a separator is made up of pieces. -/
theorem flatten_terminated_concat (l : List α) :
    (terminated sep (l ++ [sep])).flatten = l ++ [sep] := by
  induction l using terminated_induction sep with
  | rest l hl => rw [terminated_cons l hl, terminated, List.flatten_cons, List.flatten_nil,
      List.append_nil]
  | piece b l hb ih =>
    rw [List.append_assoc, List.cons_append, terminated_cons b hb, List.flatten_cons, ih,
      List.append_assoc, List.singleton_append]

/-- The pieces of the pieces are the pieces. -/
theorem terminated_flatten (sep : α) (l : List α) :
    terminated sep (terminated sep l).flatten = terminated sep l := by
  induction l using terminated_induction sep with
  | rest l hl => rw [terminated_of_notMem l hl, List.flatten_nil, terminated]
  | piece b l hb ih =>
    rw [terminated_cons b hb, List.flatten_cons, List.append_assoc, List.singleton_append,
      terminated_cons b hb, ih]

end CrashSafe
