/-
  GroupeChat.Base.Memory — the cells of one allocation, and what copying between them does.

  An allocation is a function from offsets to cells. Nothing bounds the offset: a
  program that strays past the end of its allocation still touches some cell, and
  whether it strayed is a question the program's model asks separately. `write` is
  `memcpy` into the allocation, `read` is what a copy out of it gets, `move` is
  `memmove` inside it (the source is read whole before the destination is written).

  - `read_write_same`, `read_write_below`, `read_write_above`: what a copy into the
    allocation changes and what it leaves alone.
  - `overlay_at`: what several copies to one place leave there.
  - `read_append`: a copy out is its two halves.
  - `read_move_front`: what is moved to the front is there afterwards.
  - `move_down_iff`: moving `k` cells to the front brings the first `n` cells down by
    `k` exactly when every cell it does not reach already equals the one `k` above it.
-/

import Mathlib.Data.List.Basic
import Mathlib.Data.List.Induction

namespace GroupeChat.Base

/-- The cells of one allocation, by offset from its start. -/
abbrev Mem (α : Type) := Nat → α

namespace Mem

variable {α : Type}

def read (m : Mem α) (off n : Nat) : List α := (List.range n).map fun i => m (off + i)

def write (m : Mem α) (off : Nat) (l : List α) : Mem α :=
  fun i => if off ≤ i then (l[i - off]?).getD (m i) else m i

def move (m : Mem α) (dst src n : Nat) : Mem α := m.write dst (m.read src n)

/-- A write at an offset computed as an `int`; what lies in front of the allocation is
    not among its cells. -/
def store (m : Mem α) (off : Int) (l : List α) : Mem α := if off < 0 then m else m.write off.toNat l

def ofList (d : α) (l : List α) : Mem α := fun i => l.getD i d

/-! ## Reading -/

@[simp] theorem read_length (m : Mem α) (off n : Nat) : (m.read off n).length = n := by simp [read]

@[simp] theorem read_zero (m : Mem α) (off : Nat) : m.read off 0 = [] := rfl

@[simp] theorem getElem_read (m : Mem α) (off n i : Nat) (h : i < (m.read off n).length) :
    (m.read off n)[i] = m (off + i) := by simp [read]

theorem getElem?_read (m : Mem α) (off n i : Nat) :
    (m.read off n)[i]? = if i < n then some (m (off + i)) else none := by
  split
  · rename_i h; rw [List.getElem?_eq_getElem (by simpa using h), getElem_read]
  · rename_i h; exact List.getElem?_eq_none (by simpa using h)

theorem read_append (m : Mem α) (off a b : Nat) : m.read off (a + b) = m.read off a ++ m.read (off + a) b := by
  simp only [read, List.range_add, List.map_append, List.map_map]
  congr 1
  apply List.map_congr_left
  intro i _
  simp [Nat.add_assoc]

theorem take_read (m : Mem α) (off : Nat) {k n : Nat} (h : k ≤ n) : (m.read off n).take k = m.read off k := by
  obtain ⟨r, rfl⟩ := Nat.exists_eq_add_of_le h
  rw [read_append, List.take_left' (read_length m off k)]

theorem drop_read (m : Mem α) (off : Nat) {k n : Nat} (h : k ≤ n) :
    (m.read off n).drop k = m.read (off + k) (n - k) := by
  obtain ⟨r, rfl⟩ := Nat.exists_eq_add_of_le h
  rw [read_append, List.drop_left' (read_length m off k), Nat.add_sub_cancel_left]

theorem read_eq_iff {m m' : Mem α} {off off' n : Nat} :
    m.read off n = m'.read off' n ↔ ∀ i < n, m (off + i) = m' (off' + i) := by
  refine ⟨?_, ?_⟩
  · intro h i hi
    have he := congrArg (fun l => l[i]?) h
    simpa [getElem?_read, hi] using he
  · intro h
    exact List.map_congr_left fun i hi => h i (List.mem_range.mp hi)

theorem read_eq_list_iff {m : Mem α} {off n : Nat} {l : List α} (hl : l.length = n) :
    m.read off n = l ↔ ∀ i < n, l[i]? = some (m (off + i)) := by
  refine ⟨?_, ?_⟩
  · intro h i hi
    rw [← h, getElem?_read, if_pos hi]
  · intro h
    apply List.ext_getElem?
    intro i
    rw [getElem?_read]
    split
    · rename_i hi; exact (h i hi).symm
    · exact (List.getElem?_eq_none (by omega)).symm

theorem read_ofList (d : α) (l : List α) {n : Nat} (h : n ≤ l.length) : (ofList d l).read 0 n = l.take n := by
  apply List.ext_getElem?
  intro i
  rw [getElem?_read, List.getElem?_take]
  split
  · rename_i hi
    simp [ofList, List.getElem?_eq_getElem (show i < l.length by omega)]
  · rfl

/-- The first `k` cells come next after the first `a` when they are alike and there is room. -/
theorem read_append_prefix_iff (m : Mem α) (a k n : Nat) :
    m.read 0 a ++ m.read 0 k <+: m.read 0 n ↔ a + k ≤ n ∧ ∀ i < k, m i = m (a + i) := by
  have hnext : a + k ≤ n → (m.read 0 a ++ m.read 0 k <+: m.read 0 n ↔ ∀ i < k, m i = m (a + i)) := by
    intro hle
    rw [List.prefix_iff_eq_take, List.length_append, read_length, read_length, take_read _ _ hle, read_append,
      List.append_right_inj, read_eq_iff]
    simp only [Nat.zero_add]
  refine ⟨?_, ?_⟩
  · intro h
    have hle := h.length_le
    rw [List.length_append, read_length, read_length, read_length] at hle
    exact ⟨hle, (hnext hle).mp h⟩
  · intro ⟨hle, h⟩
    exact (hnext hle).mpr h

/-! ## Writing -/

theorem write_below (m : Mem α) (l : List α) {off i : Nat} (h : i < off) : m.write off l i = m i := by
  simp [write, Nat.not_le.mpr h]

theorem write_above (m : Mem α) (l : List α) {off i : Nat} (h : off + l.length ≤ i) : m.write off l i = m i := by
  have hn : l[i - off]? = none := List.getElem?_eq_none (by omega)
  simp [write, hn]

theorem write_at (m : Mem α) (l : List α) (off : Nat) {i : Nat} (h : i < l.length) : m.write off l (off + i) = l[i] := by
  simp [write, List.getElem?_eq_getElem h]

/-- A copy of the first `n` cells of another allocation. -/
theorem write_read (m m' : Mem α) {n i : Nat} (h : i < n) : m.write 0 (m'.read 0 n) i = m' i := by
  have := write_at m (m'.read 0 n) 0 (i := i) (by rwa [read_length])
  rwa [getElem_read, Nat.zero_add] at this

/-- A write seen from a later start is a write at the earlier offset. -/
theorem write_shift {m m' : Mem α} (l : List α) {base off i : Nat} (h : m (base + i) = m' i) :
    m.write (base + off) l (base + i) = m'.write off l i := by
  simp only [write, h, Nat.add_sub_add_left, Nat.add_le_add_iff_left]

@[simp] theorem write_nil (m : Mem α) (off : Nat) : m.write off [] = m := by
  funext i; simp [write]

theorem read_write_same (m : Mem α) (off : Nat) (l : List α) : (m.write off l).read off l.length = l := by
  apply List.ext_getElem?
  intro i
  rw [getElem?_read]
  split
  · rename_i h; rw [write_at m l off h, List.getElem?_eq_getElem h]
  · rename_i h; exact (List.getElem?_eq_none (by omega)).symm

theorem read_write_below (m : Mem α) (l : List α) {off off' n : Nat} (h : off' + n ≤ off) :
    (m.write off l).read off' n = m.read off' n :=
  read_eq_iff.mpr fun _ _ => write_below m l (by omega)

theorem read_write_above (m : Mem α) (l : List α) {off off' n : Nat} (h : off + l.length ≤ off') :
    (m.write off l).read off' n = m.read off' n :=
  read_eq_iff.mpr fun _ _ => write_above m l (by omega)

/-- A copy that lands right after the first `n` cells extends what they read. -/
theorem read_write_extend (m : Mem α) (l : List α) (n : Nat) :
    (m.write n l).read 0 (n + l.length) = m.read 0 n ++ l := by
  rw [read_append, read_write_below m l (by omega), Nat.zero_add, read_write_same]

/-- The same for the cells from `off` on. -/
theorem read_write_next (m : Mem α) (l : List α) {off off' : Nat} (h : off ≤ off') :
    (m.write off' l).read off (off' + l.length - off) = m.read off (off' - off) ++ l := by
  rw [show off' + l.length - off = (off' - off) + l.length by omega, read_append,
    read_write_below m l (by omega), Nat.add_sub_cancel' h, read_write_same]

/-- Where a write went, a copy out of the allocation has what was written, as far as it
    reaches. -/
theorem written_prefix (m : Mem α) (off n : Nat) (l : List α) :
    (((m.write off l).read 0 n).drop off).take l.length <+: l := by
  have hsame := read_write_same m off l
  by_cases hoff : off ≤ n
  · rw [drop_read _ _ hoff, Nat.zero_add]
    by_cases hlen : l.length ≤ n - off
    · exact ⟨[], by rw [take_read _ _ hlen, hsame, List.append_nil]⟩
    · rw [List.take_of_length_le (by rw [read_length]; omega), ← take_read _ _ (Nat.le_of_not_le hlen), hsame]
      exact List.take_prefix _ _
  · rw [List.drop_of_length_le (by rw [read_length]; omega), List.take_nil]
    exact List.nil_prefix

/-- Copies to one place, each over those before it. -/
def overlay (m : Mem α) (off : Nat) (ls : List (List α)) : Mem α := ls.foldl (fun m l => m.write off l) m

theorem overlay_snoc (m : Mem α) (off : Nat) (ls : List (List α)) (l : List α) :
    m.overlay off (ls ++ [l]) = (m.overlay off ls).write off l := by
  rw [overlay, List.foldl_append]
  rfl

theorem overlay_below (m : Mem α) (ls : List (List α)) {off i : Nat} (h : i < off) : m.overlay off ls i = m i := by
  induction ls using List.reverseRecOn with
  | nil => rfl
  | append_singleton ls l ih => rw [overlay_snoc, write_below _ l h, ih]

/-- In each cell stands what the last copy that reaches it put there. -/
theorem overlay_at (m : Mem α) (off : Nat) (ls : List (List α)) (j : Nat) :
    m.overlay off ls (off + j) = ((ls.reverse.find? fun l => j < l.length).bind (·[j]?)).getD (m (off + j)) := by
  induction ls using List.reverseRecOn with
  | nil => rfl
  | append_singleton ls l ih =>
    rw [overlay_snoc, List.reverse_append, List.reverse_singleton, List.singleton_append, List.find?_cons]
    by_cases hj : j < l.length
    · rw [write_at _ l off hj, decide_eq_true hj]
      simp [hj]
    · rw [write_above _ l (by omega), ih, decide_eq_false hj]

theorem store_of_nonneg (m : Mem α) (l : List α) {off : Int} (h : 0 ≤ off) : m.store off l = m.write off.toNat l :=
  if_neg (Int.not_lt.mpr h)

/-! ## Moving -/

theorem move_apply (m : Mem α) (dst src n i : Nat) :
    m.move dst src n i = if dst ≤ i ∧ i < dst + n then m (src + (i - dst)) else m i := by
  by_cases h : dst ≤ i ∧ i < dst + n
  · have hi : i - dst < n := by omega
    rw [if_pos h]
    simp [move, write, h.1, hi]
  · rw [if_neg h]
    by_cases hd : i < dst
    · exact write_below m _ hd
    · exact write_above m _ (by simp; omega)

/-- What is moved to the front arrives, overlap or not. -/
theorem read_move_front (m : Mem α) (src n : Nat) : (m.move 0 src n).read 0 n = m.read src n := by
  have := read_write_same m 0 (m.read src n)
  rwa [read_length] at this

theorem move_down (m : Mem α) (k i : Nat) : m.move 0 k k i = if i < k then m (k + i) else m i := by
  simp [move_apply]

/-- Moving `k` cells to the front brings the first `n` cells down by `k` exactly when
    every cell the move does not reach already equals the one `k` above it. -/
theorem move_down_iff (m : Mem α) (k n : Nat) :
    (m.move 0 k k).read 0 n = m.read k n ↔ ∀ i, k ≤ i → i < n → m i = m (k + i) := by
  rw [read_eq_iff]
  refine ⟨?_, ?_⟩
  · intro h i hk hn
    have := h i hn
    rwa [move_down, Nat.zero_add, if_neg (by omega)] at this
  · intro h i hn
    rw [move_down, Nat.zero_add]
    split
    · rfl
    · exact h i (by omega) hn

end Mem

end GroupeChat.Base
