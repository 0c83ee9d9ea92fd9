/-
  GroupeChat.Base.Ring — a queue kept in a ring of slots.

  `Stores slots head tail count l`: the ring holds `l`. The slots from `head` on, taken
  modulo the size, hold its elements, `tail` is the next slot to write and `count` how
  many there are; what the other slots hold does not matter.
  - `push`: a write at `tail` of a ring that has room adds at the end.
  - `pop`: the slot at `head` of one that is not empty holds the first element, and
    moving `head` on drops it.
  `contents` reads the elements off the slots (`contents_eq`).
-/

import Mathlib.Data.List.Induction

namespace GroupeChat.Base.Ring

variable {α : Type}

structure Stores (slots : List (Option α)) (head tail count : Nat) (l : List α) : Prop where
  head_lt : head < slots.length
  count_eq : count = l.length
  count_le : count ≤ slots.length
  tail_eq : tail = (head + count) % slots.length
  slot : ∀ i x, l[i]? = some x → slots[(head + i) % slots.length]? = some (some x)

theorem Stores.tail_lt {slots : List (Option α)} {head tail count : Nat} {l : List α}
    (h : Stores slots head tail count l) : tail < slots.length := by
  have hpos : 0 < slots.length := Nat.lt_of_le_of_lt (Nat.zero_le _) h.head_lt
  rw [h.tail_eq]
  exact Nat.mod_lt _ hpos

/-- A ring that nothing was written to. -/
theorem stores_nil {n : Nat} (h : 0 < n) : Stores (List.replicate n (none : Option α)) 0 0 0 [] where
  head_lt := by simpa using h
  count_eq := rfl
  count_le := Nat.zero_le _
  tail_eq := by simp
  slot i x hx := by simp at hx

/-- Less than one round apart, two slots of a ring are different. -/
theorem index_ne {n head i j : Nat} (hij : i < j) (hj : j < n) : (head + i) % n ≠ (head + j) % n := by
  intro heq
  have hsub : (head + j - (head + i)) % n = 0 := Nat.sub_mod_eq_zero_of_mod_eq heq.symm
  rw [Nat.add_sub_add_left, Nat.mod_eq_of_lt (by omega)] at hsub
  omega

theorem Stores.push {slots : List (Option α)} {head tail count : Nat} {l : List α}
    (h : Stores slots head tail count l) (hroom : count < slots.length) (x : α) :
    Stores (slots.set tail (some x)) head ((tail + 1) % slots.length) (count + 1) (l ++ [x]) where
  head_lt := by simpa using h.head_lt
  count_eq := by simp [h.count_eq]
  count_le := by
    rw [List.length_set]
    exact hroom
  tail_eq := by
    rw [h.tail_eq, List.length_set, Nat.mod_add_mod]
    rfl
  slot i y hy := by
    rw [List.length_set]
    rcases Nat.lt_trichotomy i l.length with hi | rfl | hi
    · have hne : tail ≠ (head + i) % slots.length := by
        rw [h.tail_eq]
        exact (index_ne (by rw [h.count_eq]; exact hi) hroom).symm
      rw [List.getElem?_append_left hi] at hy
      rw [List.getElem?_set_ne hne]
      exact h.slot i y hy
    · have hyx : y = x := by simpa using hy.symm
      rw [← h.count_eq, ← h.tail_eq, List.getElem?_set_self h.tail_lt, hyx]
    · rw [List.getElem?_eq_none (by simp; omega)] at hy
      cases hy

theorem Stores.front {slots : List (Option α)} {head tail count : Nat} {x : α} {l : List α}
    (h : Stores slots head tail count (x :: l)) : slots[head]? = some (some x) := by
  have hslot := h.slot 0 x rfl
  rwa [Nat.add_zero, Nat.mod_eq_of_lt h.head_lt] at hslot

theorem Stores.pop {slots : List (Option α)} {head tail count : Nat} {x : α} {l : List α}
    (h : Stores slots head tail count (x :: l)) :
    Stores slots ((head + 1) % slots.length) tail (count - 1) l := by
  have hpos : 0 < slots.length := Nat.lt_of_le_of_lt (Nat.zero_le _) h.head_lt
  have hcount : count = l.length + 1 := h.count_eq
  have hle := h.count_le
  refine ⟨Nat.mod_lt _ hpos, by omega, by omega, ?_, ?_⟩
  · rw [h.tail_eq, Nat.mod_add_mod]
    congr 1
    omega
  · intro i y hy
    rw [Nat.mod_add_mod, Nat.add_assoc, Nat.add_comm 1 i]
    exact h.slot (i + 1) y (by simpa using hy)

def contents (slots : List (Option α)) (head count : Nat) : List α :=
  (List.range count).filterMap fun i => (slots[(head + i) % slots.length]?).join

theorem filterMap_range {f : Nat → Option α} : ∀ {l : List α}, (∀ i x, l[i]? = some x → f i = some x) →
    (List.range l.length).filterMap f = l := by
  intro l
  induction l using List.reverseRecOn with
  | nil =>
    intro _
    rfl
  | append_singleton l x ih =>
    intro h
    have hlast : f l.length = some x := h l.length x (by simp)
    have hinit : (List.range l.length).filterMap f = l := by
      apply ih
      intro i y hy
      exact h i y (by rw [List.getElem?_append_left (List.getElem?_eq_some_iff.mp hy).1]; exact hy)
    rw [List.length_append, List.length_singleton, List.range_succ, List.filterMap_append, hinit]
    simp [hlast]

theorem Stores.contents_eq {slots : List (Option α)} {head tail count : Nat} {l : List α}
    (h : Stores slots head tail count l) : contents slots head count = l := by
  unfold contents
  rw [h.count_eq]
  apply filterMap_range
  intro i x hx
  rw [h.slot i x hx]
  rfl

/-- A ring that is not empty has a first element, in the slot at `head`. -/
theorem Stores.exists_front {slots : List (Option α)} {head tail count : Nat} {l : List α}
    (h : Stores slots head tail count l) (hne : count ≠ 0) :
    ∃ x l', l = x :: l' ∧ slots[head]? = some (some x) := by
  cases l with
  | nil => exact absurd h.count_eq hne
  | cons x l' => exact ⟨x, l', rfl, h.front⟩

end GroupeChat.Base.Ring
