/-
  GroupeChat.Base.Cells — lists in which one element is changed.

  What a count (`countP_set_add`) and a selection (`filterMap_set_perm`) of the elements
  are after a `set`, said without a subtraction: what the old element gave goes, what the
  new one gives comes. Where an element stands after a `set` or a push is told by cases
  (`getElem?_set_cases`, `getElem?_snoc_cases`).
-/

import Mathlib.Data.List.Count
import Mathlib.Data.List.Perm.Basic

namespace GroupeChat.Base.Cells

variable {α β : Type}

theorem countP_set_add (q : α → Bool) {l : List α} {i : Nat} {x : α} (h : l[i]? = some x) (y : α) :
    (l.set i y).countP q + (if q x then 1 else 0) = l.countP q + (if q y then 1 else 0) := by
  induction l generalizing i with
  | nil => simp at h
  | cons z l ih =>
    cases i with
    | zero =>
      obtain rfl : z = x := by simpa using h
      simp only [List.set_cons_zero, List.countP_cons]
      omega
    | succ i =>
      have hrest := ih (i := i) (by simpa using h)
      simp only [List.set_cons_succ, List.countP_cons]
      omega

theorem filterMap_set_perm (f : α → Option β) {l : List α} {i : Nat} {x : α} (h : l[i]? = some x) (y : α) :
    ((f x).toList ++ (l.set i y).filterMap f).Perm ((f y).toList ++ l.filterMap f) := by
  induction l generalizing i with
  | nil => simp at h
  | cons z l ih =>
    cases i with
    | zero =>
      obtain rfl : z = x := by simpa using h
      have hcons : ∀ a : α, (a :: l).filterMap f = (f a).toList ++ l.filterMap f := by
        intro a
        cases hfa : f a with
        | none => simp [hfa]
        | some b => simp [hfa]
      rw [List.set_cons_zero, hcons, hcons, ← List.append_assoc, ← List.append_assoc]
      exact List.perm_append_comm.append_right _
    | succ i =>
      have hrest := ih (i := i) (by simpa using h)
      cases hfz : f z with
      | none => simpa [hfz] using hrest
      | some b =>
        rw [List.set_cons_succ, List.filterMap_cons_some hfz, List.filterMap_cons_some hfz]
        exact List.perm_middle.trans ((hrest.cons b).trans List.perm_middle.symm)

theorem countP_pos_of_getElem? {q : α → Bool} {l : List α} {i : Nat} {x : α} (h : l[i]? = some x) (hx : q x = true) :
    0 < l.countP q :=
  List.countP_pos_iff.mpr ⟨x, List.mem_of_getElem? h, hx⟩

/-- Something an element satisfies, one of them has at some index. -/
theorem exists_getElem?_of_countP_pos {q : α → Bool} {l : List α} (h : 0 < l.countP q) :
    ∃ (i : Nat) (x : α), l[i]? = some x ∧ q x = true := by
  obtain ⟨x, hx, hq⟩ := List.countP_pos_iff.mp h
  obtain ⟨i, hi⟩ := List.getElem?_of_mem hx
  exact ⟨i, x, hi, hq⟩

theorem getElem?_set_cases {l : List α} {i j : Nat} {a b : α} (h : (l.set i a)[j]? = some b) :
    j ≠ i ∧ l[j]? = some b ∨ j = i ∧ b = a := by
  rw [List.getElem?_set] at h
  split at h
  · rename_i hij
    split at h
    · exact Or.inr ⟨hij.symm, (Option.some.inj h).symm⟩
    · cases h
  · exact Or.inl ⟨fun hij => ‹¬ i = j› hij.symm, h⟩

theorem getElem?_snoc_cases {l : List α} {i : Nat} {a b : α} (h : (l ++ [a])[i]? = some b) :
    l[i]? = some b ∨ i = l.length ∧ b = a := by
  rcases Nat.lt_trichotomy i l.length with hlt | rfl | hgt
  · rw [List.getElem?_append_left hlt] at h
    exact Or.inl h
  · rw [List.getElem?_concat_length] at h
    exact Or.inr ⟨rfl, (Option.some.inj h).symm⟩
  · rw [List.getElem?_eq_none (by simp; omega)] at h
    cases h

end GroupeChat.Base.Cells
