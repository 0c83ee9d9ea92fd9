/-
  GroupeChat.Base.CString — NUL-terminated strings in memory.

  `strcpy` stores a string and its NUL, `streq` is `strcmp` against a literal (it reads
  no further than the first difference). What a field holds, as a string, is its bytes
  up to the first NUL (`cstr`); `streq_iff` says that `streq` decides equality with it.
-/

import GroupeChat.Base.Memory

namespace GroupeChat.Base

def cstr (l : List UInt8) : List UInt8 := l.takeWhile (· ≠ 0)

namespace Mem

def strcpy (m : Mem UInt8) (off : Nat) (s : List UInt8) : Mem UInt8 := m.write off (s ++ [0])

theorem read_strcpy (m : Mem UInt8) (off : Nat) (s : List UInt8) :
    (m.strcpy off s).read off (s.length + 1) = s ++ [0] := by
  have h := read_write_same m off (s ++ [0])
  rwa [List.length_append, List.length_singleton] at h

def streq (m : Mem UInt8) (off : Nat) : List UInt8 → Bool
  | [] => m off == 0
  | b :: s => m off == b && streq m (off + 1) s

theorem streq_read {m : Mem UInt8} {off : Nat} {s : List UInt8} :
    m.streq off s = true ↔ m.read off (s.length + 1) = s ++ [0] := by
  induction s generalizing off with
  | nil => simp [streq, read]
  | cons b s ih =>
    have hr : m.read off (s.length + 1 + 1) = m off :: m.read (off + 1) (s.length + 1) := by
      rw [Nat.add_comm, read_append]
      simp [read]
    rw [List.length_cons, hr, streq, Bool.and_eq_true, ih, List.cons_append, List.cons.injEq, beq_iff_eq]

end Mem

/-- The string at the start of `l` is `s` exactly when `l` starts with `s` and a NUL. -/
theorem cstr_eq_iff {s : List UInt8} (hs : ∀ b ∈ s, b ≠ 0) {l : List UInt8} (hl : s.length < l.length) :
    cstr l = s ↔ l.take (s.length + 1) = s ++ [0] := by
  induction s generalizing l with
  | nil =>
    cases l with
    | nil => cases hl
    | cons a l => by_cases ha : a = 0 <;> simp [cstr, ha]
  | cons b s ih =>
    cases l with
    | nil => cases hl
    | cons a l =>
      have hb := hs b (List.mem_cons_self ..)
      have ih := ih (fun c hc => hs c (List.mem_cons_of_mem _ hc)) (Nat.lt_of_succ_lt_succ hl)
      by_cases ha : a = 0
      · simp [cstr, ha, Ne.symm hb]
      · simp only [cstr, List.takeWhile_cons, ha, ne_eq, not_false_eq_true, decide_true, if_true,
          List.cons.injEq, List.length_cons, List.take_succ_cons, List.cons_append]
        exact and_congr_right fun _ => ih

/-- `strcmp` decides what string a field longer than the literal holds. -/
theorem Mem.streq_iff {m : Mem UInt8} {off n : Nat} {s : List UInt8} (hs : ∀ b ∈ s, b ≠ 0) (hn : s.length < n) :
    m.streq off s = true ↔ cstr (m.read off n) = s := by
  rw [streq_read, cstr_eq_iff hs (by rw [read_length]; exact hn), take_read m off (by omega)]

theorem cstr_length_le (l : List UInt8) : (cstr l).length ≤ l.length := (List.takeWhile_prefix _).length_le

/-- What stands behind a NUL is not part of the string. -/
theorem cstr_append_nul (l r : List UInt8) : cstr (l ++ 0 :: r) = cstr l := by
  have hr : (0 :: r).takeWhile (· ≠ 0) = [] := by simp
  unfold cstr
  rw [List.takeWhile_append, hr]
  split
  · rename_i h
    rw [List.append_nil]
    exact ((List.takeWhile_prefix _).eq_of_length h).symm
  · rfl

theorem cstr_append_zeros (l : List UInt8) (k : Nat) : cstr (l ++ List.replicate k 0) = cstr l := by
  cases k with
  | zero => rw [List.replicate_zero, List.append_nil]
  | succ k => rw [List.replicate_succ, cstr_append_nul]

/-- A string is read where it was copied to, or less of it. -/
theorem cstr_read_strcpy_le (m : Mem UInt8) (off n : Nat) (s : List UInt8) :
    (cstr ((m.strcpy off s).read off n)).length ≤ s.length := by
  by_cases hn : s.length + 1 ≤ n
  · obtain ⟨k, rfl⟩ := Nat.exists_eq_add_of_le hn
    rw [Mem.read_append, Mem.read_strcpy, List.append_assoc, List.singleton_append, cstr_append_nul]
    exact cstr_length_le s
  · have h := cstr_length_le ((m.strcpy off s).read off n)
    rw [Mem.read_length] at h
    omega

end GroupeChat.Base
