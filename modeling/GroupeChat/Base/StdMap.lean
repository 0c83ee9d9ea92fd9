/-
  GroupeChat.Base.StdMap — the map operations of the C++ library that the programs use,
  over Mathlib's association lists.

  `insertNew` is `map::insert`: an entry that is there stays. `set` is an assignment
  through `operator[]`. Each is known by what `find?` finds after it. Iteration visits
  `toList`, in an order that is not the library's; where the order counts and the keys are
  ints, it visits `ascending`.
-/

import Mathlib.Data.List.AList
import Mathlib.Data.List.Sort

namespace GroupeChat.Base

abbrev StdMap (κ ν : Type) : Type := AList fun _ : κ => ν

namespace StdMap

variable {κ ν : Type} [DecidableEq κ]

def find? (m : StdMap κ ν) (k : κ) : Option ν := AList.lookup k m

def insertNew (m : StdMap κ ν) (k : κ) (v : ν) : StdMap κ ν := if (m.find? k).isSome then m else AList.insert k v m

def set (m : StdMap κ ν) (k : κ) (v : ν) : StdMap κ ν := AList.insert k v m

def remove (m : StdMap κ ν) (k : κ) : StdMap κ ν := AList.erase k m

def toList (m : StdMap κ ν) : List (κ × ν) := m.entries.map fun e => (e.1, e.2)

@[simp] theorem find?_empty (k : κ) : (∅ : StdMap κ ν).find? k = none := rfl

@[simp] theorem find?_set (m : StdMap κ ν) (k k' : κ) (v : ν) :
    (m.set k v).find? k' = if k' = k then some v else m.find? k' := by
  unfold find? set
  by_cases h : k' = k
  · rw [if_pos h, h]; exact AList.lookup_insert m
  · rw [if_neg h]; exact AList.lookup_insert_ne h

@[simp] theorem find?_remove (m : StdMap κ ν) (k k' : κ) :
    (m.remove k).find? k' = if k' = k then none else m.find? k' := by
  unfold find? remove
  by_cases h : k' = k
  · rw [if_pos h, h]; exact AList.lookup_erase k m
  · rw [if_neg h]; exact AList.lookup_erase_ne h

/-- An insert keeps what is there. -/
@[simp] theorem find?_insertNew (m : StdMap κ ν) (k k' : κ) (v : ν) :
    (m.insertNew k v).find? k' = if k' = k then some ((m.find? k).getD v) else m.find? k' := by
  unfold insertNew
  split
  · rename_i h
    obtain ⟨w, hw⟩ := Option.isSome_iff_exists.mp h
    by_cases hk : k' = k
    · rw [if_pos hk, hk, hw]; rfl
    · rw [if_neg hk]
  · rename_i h
    have hn : m.find? k = none := by simpa using h
    rw [hn]
    exact find?_set m k k' v

/-- What is found after an insert was there, or is what was inserted. -/
theorem of_find?_insertNew {m : StdMap κ ν} {k k' : κ} {v w : ν} (h : (m.insertNew k v).find? k' = some w) :
    m.find? k' = some w ∨ k' = k ∧ w = v := by
  rw [find?_insertNew] at h
  by_cases hk : k' = k
  · rw [if_pos hk] at h
    cases hold : m.find? k with
    | none =>
      rw [hold] at h
      exact Or.inr ⟨hk, (Option.some.inj h).symm⟩
    | some old =>
      rw [hold] at h
      exact Or.inl (by rw [hk, hold]; exact h)
  · rw [if_neg hk] at h
    exact Or.inl h

/-- What is found after a removal was there, under another key. -/
theorem of_find?_remove {m : StdMap κ ν} {k k' : κ} {w : ν} (h : (m.remove k).find? k' = some w) :
    k' ≠ k ∧ m.find? k' = some w := by
  rw [find?_remove] at h
  by_cases hk : k' = k
  · rw [if_pos hk] at h
    cases h
  · rw [if_neg hk] at h
    exact ⟨hk, h⟩

theorem of_find?_set {m : StdMap κ ν} {k k' : κ} {v w : ν} (h : (m.set k v).find? k' = some w) :
    k' = k ∧ w = v ∨ m.find? k' = some w := by
  rw [find?_set] at h
  by_cases hk : k' = k
  · rw [if_pos hk] at h
    exact Or.inl ⟨hk, (Option.some.inj h).symm⟩
  · rw [if_neg hk] at h
    exact Or.inr h

theorem mem_toList {m : StdMap κ ν} {k : κ} {v : ν} : (k, v) ∈ m.toList ↔ m.find? k = some v := by
  unfold toList find?
  rw [← Option.mem_def, AList.mem_lookup_iff]
  simp only [List.mem_map, Prod.mk.injEq]
  refine ⟨fun h => ?_, fun h => ⟨⟨k, v⟩, h, rfl, rfl⟩⟩
  obtain ⟨e, he, rfl, rfl⟩ := h
  exact he

omit [DecidableEq κ] in
/-- An iteration visits each key once. -/
theorem keys_nodup (m : StdMap κ ν) : (m.toList.map Prod.fst).Nodup := by
  unfold toList
  rw [List.map_map]
  exact m.nodupKeys

omit [DecidableEq κ] in
theorem toList_nodup (m : StdMap κ ν) : m.toList.Nodup := m.keys_nodup.of_map

/-- One more key, one more entry. -/
theorem toList_perm {m m' : StdMap κ ν} {k : κ} {v : ν} (hk : m.find? k = none)
    (h : ∀ k', m'.find? k' = if k' = k then some v else m.find? k') : m'.toList.Perm ((k, v) :: m.toList) := by
  have hout : (k, v) ∉ m.toList := by
    intro hmem
    rw [mem_toList, hk] at hmem
    cases hmem
  rw [List.perm_ext_iff_of_nodup m'.toList_nodup (List.nodup_cons.mpr ⟨hout, m.toList_nodup⟩)]
  intro ⟨k', v'⟩
  rw [mem_toList, h, List.mem_cons, mem_toList, Prod.mk.injEq]
  by_cases hkk : k' = k
  · rw [if_pos hkk, hkk, hk]
    simp [eq_comm]
  · rw [if_neg hkk]
    simp [hkk]

theorem toList_insertNew {m : StdMap κ ν} {k : κ} (v : ν) (hk : m.find? k = none) :
    (m.insertNew k v).toList.Perm ((k, v) :: m.toList) := by
  apply toList_perm hk
  intro k'
  rw [find?_insertNew, hk]
  rfl

theorem toList_remove {m : StdMap κ ν} {k : κ} {v : ν} (hk : m.find? k = some v) :
    m.toList.Perm ((k, v) :: (m.remove k).toList) := by
  apply toList_perm
  · rw [find?_remove, if_pos rfl]
  · intro k'
    rw [find?_remove]
    by_cases hkk : k' = k
    · rw [if_pos hkk, hkk, hk]
    · rw [if_neg hkk, if_neg hkk]

def ascending (m : StdMap Int ν) : List (Int × ν) := m.toList.insertionSort fun a b => a.1 ≤ b.1

theorem ascending_perm (m : StdMap Int ν) : m.ascending.Perm m.toList := List.perm_insertionSort _ _

theorem mem_ascending {m : StdMap Int ν} {k : Int} {v : ν} : (k, v) ∈ m.ascending ↔ m.find? k = some v := by
  rw [m.ascending_perm.mem_iff, mem_toList]

theorem ascending_keys_nodup (m : StdMap Int ν) : (m.ascending.map Prod.fst).Nodup :=
  (m.ascending_perm.map Prod.fst).nodup_iff.mpr m.keys_nodup

theorem mem_keys {m : StdMap κ ν} {k : κ} : k ∈ m.toList.map Prod.fst ↔ ∃ v, m.find? k = some v := by
  simp only [List.mem_map, Prod.exists, exists_and_right, exists_eq_right, mem_toList]

theorem mem_ascending_keys {m : StdMap Int ν} {k : Int} :
    k ∈ m.ascending.map Prod.fst ↔ ∃ v, m.find? k = some v := by
  rw [(m.ascending_perm.map Prod.fst).mem_iff, mem_keys]

end StdMap

end GroupeChat.Base
