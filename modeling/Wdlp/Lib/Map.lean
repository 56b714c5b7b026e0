import Mathlib

/-!
# Finite maps

Lookups in a finite map (`Std.ExtTreeMap`) after an insertion or a deletion, stated with equality of
keys, for key types whose order is total and separates keys.

## Main results

* `Map.get_insert`, `Map.get_erase` — a lookup after an insertion or a deletion.
* `Map.nodup_keys` — a map lists each of its keys once.
* `Map.mem_values` — the values of a map are found at its keys.
* `Map.insertMany_toList` — a map is made again from the list of its entries.
* `Map.map_toList_congr` — equal values give equal lists of entries.
* `foldl_relocate` — entries that are moved one after the other.
-/

namespace CrashSafe

open Function

/-- A finite map with ordered keys. -/
abbrev Map (κ α : Type) [Ord κ] := Std.ExtTreeMap κ α

namespace Map

section Lookup

variable {κ α : Type} [Ord κ] [Std.TransOrd κ] {m : Map κ α} {k q : κ}

@[simp] theorem get_empty : (∅ : Map κ α)[q]? = none := Std.ExtTreeMap.getElem?_empty

theorem mem_iff_get : k ∈ m ↔ ∃ a, m[k]? = some a := by
  rw [← Option.isSome_iff_exists, Std.ExtTreeMap.isSome_getElem?_iff_mem]

theorem not_mem_iff_get : k ∉ m ↔ m[k]? = none := by
  rw [mem_iff_get, ← Option.isSome_iff_exists, Option.not_isSome_iff_eq_none]

end Lookup

variable {κ α : Type} [Ord κ] [Std.TransOrd κ] [Std.LawfulEqOrd κ] {m : Map κ α} {k q : κ}
  {a b : α}

/-- The values of a map are found at its keys. -/
theorem mem_values : a ∈ m.values ↔ ∃ k : κ, m[k]? = some a := by
  have hvalues : m.values = m.toList.map Prod.snd := by
    obtain ⟨⟨t⟩⟩ := m
    induction t using Quot.ind with
    | mk t =>
      change Std.DTreeMap.Internal.Impl.values t.inner =
        List.map Prod.snd (Std.DTreeMap.Internal.Impl.Const.toList t.inner)
      rw [Std.DTreeMap.Internal.Impl.values_eq_map_snd,
        Std.DTreeMap.Internal.Impl.Const.toList_eq_toListModel_map, List.map_map]
      rfl
  simp only [hvalues, List.mem_map, Prod.exists, exists_eq_right,
    Std.ExtTreeMap.mem_toList_iff_getElem?_eq_some]

/-- A map lists each of its keys once. -/
theorem nodup_keys : m.keys.Nodup := by
  refine Std.ExtTreeMap.distinct_keys.imp fun {a b} h hab => h ?_
  rw [hab]
  exact Std.ReflCmp.compare_self

variable [DecidableEq κ]

theorem get_insert : (m.insert k a)[q]? = if k = q then some a else m[q]? := by
  rw [Std.ExtTreeMap.getElem?_insert]
  simp only [Std.LawfulEqCmp.compare_eq_iff_eq]

theorem get_erase : (m.erase k)[q]? = if k = q then none else m[q]? := by
  rw [Std.ExtTreeMap.getElem?_erase]
  simp only [Std.LawfulEqCmp.compare_eq_iff_eq]

@[simp] theorem get_insert_self : (m.insert k a)[k]? = some a := by
  rw [get_insert, if_pos rfl]

theorem get_insert_of_ne (h : q ≠ k) : (m.insert k a)[q]? = m[q]? := by
  rw [get_insert, if_neg h.symm]

@[simp] theorem get_erase_self : (m.erase k)[k]? = none := by
  rw [get_erase, if_pos rfl]

theorem get_erase_of_ne (h : q ≠ k) : (m.erase k)[q]? = m[q]? := by
  rw [get_erase, if_neg h.symm]

theorem insert_insert : (m.insert k a).insert k b = m.insert k b := by
  refine Std.ExtTreeMap.ext_getElem? fun q => ?_
  simp only [get_insert]
  split <;> rfl

theorem erase_insert (h : k ∉ m) : (m.insert k a).erase k = m := by
  refine Std.ExtTreeMap.ext_getElem? fun q => ?_
  simp only [get_insert, get_erase]
  split
  · next heq => rw [← heq, not_mem_iff_get.mp h]
  · rfl

/-- A map is made again from the list of its entries. -/
theorem insertMany_toList : (∅ : Map κ α).insertMany m.toList = m := by
  refine Std.ExtTreeMap.ext_getElem? fun q => ?_
  cases hq : m[q]? with
  | some a =>
    exact Std.ExtTreeMap.getElem?_insertMany_list_of_mem (Std.LawfulEqCmp.compare_eq_iff_eq.mpr rfl)
      Std.ExtTreeMap.distinct_keys_toList (Std.ExtTreeMap.mem_toList_iff_getElem?_eq_some.mpr hq)
  | none =>
    rw [Std.ExtTreeMap.getElem?_insertMany_list_of_contains_eq_false, get_empty]
    rw [Std.ExtTreeMap.map_fst_toList_eq_keys, List.contains_eq_mem, decide_eq_false_iff_not,
      Std.ExtTreeMap.mem_keys]
    exact not_mem_iff_get.mpr hq

variable {β : Type}

/-- The lookup after an insertion, as an update. -/
theorem lookup_insert (f : α → β) : (fun q => (m.insert k a)[q]?.map f) =
    update (fun q => m[q]?.map f) k (some (f a)) := by
  funext q
  by_cases h : q = k
  · rw [h, get_insert_self, update_self, Option.map_some]
  · rw [get_insert_of_ne h, update_of_ne h]

/-- The lookup after a deletion, as an update. -/
theorem lookup_erase (f : α → β) : (fun q => (m.erase k)[q]?.map f) =
    update (fun q => m[q]?.map f) k none := by
  funext q
  by_cases h : q = k
  · rw [h, get_erase_self, update_self, Option.map_none]
  · rw [get_erase_of_ne h, update_of_ne h]

theorem get_insert_update : (fun q => (m.insert k a)[q]?) = update (fun q => m[q]?) k (some a) := by
  simpa only [Option.map_id, id_eq] using lookup_insert (m := m) (k := k) (a := a) id

theorem get_erase_update : (fun q => (m.erase k)[q]?) = update (fun q => m[q]?) k none := by
  simpa only [Option.map_id, id_eq] using lookup_erase (m := m) (k := k) id

omit [DecidableEq κ] in
/-- Maps with the same values up to a function list the same entries up to it. -/
theorem map_toList_congr {m' : Map κ α} (f : α → β) (h : ∀ q : κ, m[q]?.map f = m'[q]?.map f) :
    (m.toList.map fun entry => (entry.1, f entry.2)) =
      m'.toList.map fun entry => (entry.1, f entry.2) := by
  have hmap : m.map (fun _ => f) = m'.map fun _ => f := by
    refine Std.ExtTreeMap.ext_getElem? fun q => ?_
    rw [Std.ExtTreeMap.getElem?_map, Std.ExtTreeMap.getElem?_map, h q]
  rw [← Std.ExtTreeMap.toList_map (f := fun _ => f), hmap, Std.ExtTreeMap.toList_map]

end Map

/-! ### Moving entries -/

section Relocate

variable {κ α : Type} [DecidableEq κ]

/-- Move what is at a key to another one, changing it on the way. -/
def relocate (move : κ → κ) (change : κ → α → α) (g : κ → Option α) (k : κ) : κ → Option α :=
  update (update g k none) (move k) ((g k).map (change k))

variable (move : κ → κ) (change : κ → α → α)

/-- Entries are moved one after the other to places where nothing else is moved from or to. -/
theorem foldl_relocate (q : κ) : (l : List κ) → {g : κ → Option α} →
    l.Nodup → (∀ a ∈ l, ∀ b ∈ l, move a = move b → a = b) → (∀ a ∈ l, ∀ b ∈ l, move a ≠ b) →
    (∀ k ∈ l, move k = q → l.foldl (relocate move change) g q = (g k).map (change k)) ∧
    ((∀ k ∈ l, move k ≠ q) → l.foldl (relocate move change) g q = if q ∈ l then none else g q)
  | [], g, _, _, _ => ⟨nofun, fun _ => (if_neg List.not_mem_nil).symm⟩
  | a :: l, g, hnodup, hinj, hapart => by
    obtain ⟨hnew, hnodup⟩ := List.nodup_cons.mp hnodup
    have htail := foldl_relocate q l (g := relocate move change g a) hnodup
      (fun b hb c hc => hinj b (List.mem_cons_of_mem _ hb) c (List.mem_cons_of_mem _ hc))
      (fun b hb c hc => hapart b (List.mem_cons_of_mem _ hb) c (List.mem_cons_of_mem _ hc))
    have hmem : a ∈ a :: l := List.mem_cons_self
    refine ⟨fun k hk hkq => ?_, fun hnot => ?_⟩
    · rcases List.mem_cons.mp hk with rfl | hk'
      · -- the first entry stays where it was moved to
        have hothers : ∀ b ∈ l, move b ≠ q := fun b hb hbq =>
          hnew (hinj k hmem b (List.mem_cons_of_mem _ hb) (hkq.trans hbq.symm) ▸ hb)
        have hq : q ∉ l := fun hq => hapart k hmem q (List.mem_cons_of_mem _ hq) hkq
        rw [List.foldl_cons, htail.2 hothers, if_neg hq, relocate, ← hkq, update_self]
      · have hne : k ≠ move a := fun h => hapart a hmem k hk h.symm
        have hne' : k ≠ a := fun h => hnew (h ▸ hk')
        rw [List.foldl_cons, htail.1 k hk' hkq, relocate, update_of_ne hne, update_of_ne hne']
    · have hne : q ≠ move a := fun h => hnot a hmem h.symm
      rw [List.foldl_cons, htail.2 fun b hb => hnot b (List.mem_cons_of_mem _ hb), relocate,
        update_of_ne hne]
      by_cases hqa : q = a
      · subst hqa
        rw [update_self, ite_self, if_pos hmem]
      · rw [update_of_ne hqa]
        simp only [List.mem_cons, hqa, false_or]

end Relocate

end CrashSafe
