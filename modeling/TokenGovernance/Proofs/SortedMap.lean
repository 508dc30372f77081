/-
# Sorted maps

The maps and sets of the library are sorted by keys that are equal when they compare as equal, so
what an operation does to a key is told by equality of keys.
-/

import Std.Data.ExtTreeMap
import Std.Data.ExtTreeSet

namespace TokenGovernance

variable {κ α : Type} [Ord κ] [Std.TransOrd κ] [Std.LawfulEqOrd κ]

namespace SortedMap

variable [DecidableEq κ]

/-- What is under a key after an insertion, own key and other keys in one equation. -/
theorem getElem?_insert (m : Std.ExtTreeMap κ α) (k a : κ) (v : α) :
    (m.insert k v)[a]? = if k = a then some v else m[a]? := by
  rw [Std.ExtTreeMap.getElem?_insert]
  simp only [Std.LawfulEqOrd.compare_eq_iff_eq]

/-- What is under a key after an erasure, own key and other keys in one equation. -/
theorem getElem?_erase (m : Std.ExtTreeMap κ α) (k a : κ) :
    (m.erase k)[a]? = if k = a then none else m[a]? := by
  rw [Std.ExtTreeMap.getElem?_erase]
  simp only [Std.LawfulEqOrd.compare_eq_iff_eq]

/-- An entry takes the place of an earlier one for its key. -/
theorem insert_insert (m : Std.ExtTreeMap κ α) (k : κ) (v w : α) :
    (m.insert k v).insert k w = m.insert k w := by
  refine Std.ExtTreeMap.ext_getElem? fun a => ?_
  simp only [getElem?_insert]
  split <;> rfl

/-- Entries for two keys can be made in either order. -/
theorem insert_comm {k l : κ} (h : k ≠ l) (m : Std.ExtTreeMap κ α) (v w : α) :
    (m.insert k v).insert l w = (m.insert l w).insert k v := by
  refine Std.ExtTreeMap.ext_getElem? fun a => ?_
  simp only [getElem?_insert]
  by_cases hk : k = a
  · rw [if_pos hk, if_pos hk, if_neg fun hl => h (hk.trans hl.symm)]
  · rw [if_neg hk, if_neg hk]

/-- An entry that is there already changes nothing. -/
theorem insert_eq_self {m : Std.ExtTreeMap κ α} {k : κ} {v : α} (h : m[k]? = some v) :
    m.insert k v = m := by
  refine Std.ExtTreeMap.ext_getElem? fun a => ?_
  rw [getElem?_insert]
  by_cases hk : k = a
  · rw [if_pos hk, ← hk, h]
  · rw [if_neg hk]

/-- A map is made of its entries in any order. -/
theorem ofList_of_perm {m : Std.ExtTreeMap κ α} {entries : List (κ × α)}
    (h : entries.Perm m.toList) : Std.ExtTreeMap.ofList entries = m := by
  have distinct : entries.Pairwise fun a b => ¬compare a.1 b.1 = .eq :=
    (h.pairwise_iff fun hab e => hab (Std.OrientedCmp.eq_symm e)).2
      Std.ExtTreeMap.distinct_keys_toList
  refine Std.ExtTreeMap.ext_getElem? fun k => ?_
  rcases found : m[k]? with _ | v
  · refine Std.ExtTreeMap.getElem?_ofList_of_contains_eq_false (Bool.eq_false_iff.2 fun hk => ?_)
    obtain ⟨⟨_, v⟩, hv, rfl⟩ := List.mem_map.1 (List.contains_iff_mem.1 hk)
    rw [Std.ExtTreeMap.mem_toList_iff_getElem?_eq_some.1 (h.mem_iff.1 hv)] at found
    cases found
  · exact Std.ExtTreeMap.getElem?_ofList_of_mem Std.ReflCmp.compare_self distinct
      (h.mem_iff.2 (Std.ExtTreeMap.mem_toList_iff_getElem?_eq_some.2 found))

/-- A map has no entries but those that are put into it. -/
theorem mem_of_mem_toList_insertMany {m : Std.ExtTreeMap κ α} {entries : List (κ × α)}
    {entry : κ × α} (h : entry ∈ (m.insertMany entries).toList) :
    entry ∈ entries ∨ entry ∈ m.toList := by
  induction entries generalizing m with
  | nil =>
    rw [Std.ExtTreeMap.insertMany_nil] at h
    exact .inr h
  | cons first entries ih =>
    obtain ⟨k, v⟩ := first
    rw [Std.ExtTreeMap.insertMany_cons] at h
    rcases ih h with h | h
    · exact .inl (List.mem_cons_of_mem _ h)
    · rw [Std.ExtTreeMap.mem_toList_iff_getElem?_eq_some, getElem?_insert] at h
      split at h
      · rename_i hk
        exact .inl (List.mem_cons.2 (.inl (Prod.ext hk.symm (Option.some.inj h).symm)))
      · exact .inr (Std.ExtTreeMap.mem_toList_iff_getElem?_eq_some.2 h)

/-- A map that is made of entries has no others. -/
theorem mem_of_mem_toList_ofList {entries : List (κ × α)} {entry : κ × α}
    (h : entry ∈ (Std.ExtTreeMap.ofList entries).toList) : entry ∈ entries := by
  rw [Std.ExtTreeMap.ofList_eq_insertMany_empty] at h
  refine (mem_of_mem_toList_insertMany h).resolve_right fun hempty => ?_
  rw [Std.ExtTreeMap.mem_toList_iff_getElem?_eq_some, Std.ExtTreeMap.getElem?_empty] at hempty
  cases hempty

end SortedMap

namespace SortedSet

/-- The members after an insertion are the new one and the old ones. -/
theorem mem_insert {s : Std.ExtTreeSet κ} {k a : κ} : a ∈ s.insert k ↔ a = k ∨ a ∈ s := by
  rw [Std.ExtTreeSet.mem_insert, Std.LawfulEqOrd.compare_eq_iff_eq, eq_comm]

/-- The members after an erasure are the others. -/
theorem mem_erase {s : Std.ExtTreeSet κ} {k a : κ} : a ∈ s.erase k ↔ a ≠ k ∧ a ∈ s := by
  rw [Std.ExtTreeSet.mem_erase, Ne, Std.LawfulEqOrd.compare_eq_iff_eq, ← Ne, ne_comm]

/-- A set is made of its members in any order. -/
theorem ofList_of_perm [DecidableEq κ] {s : Std.ExtTreeSet κ} {items : List κ}
    (h : items.Perm s.toList) : Std.ExtTreeSet.ofList items = s := by
  refine Std.ExtTreeSet.ext_mem fun k => ?_
  rw [Std.ExtTreeSet.mem_ofList, List.contains_iff_mem, h.mem_iff, Std.ExtTreeSet.mem_toList]

end SortedSet
end TokenGovernance
