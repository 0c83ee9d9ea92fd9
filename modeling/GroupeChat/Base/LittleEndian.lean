/-
  GroupeChat.Base.LittleEndian — fixed-width two's complement integers laid out in
  memory, lowest byte first.

  `wrap w v` is what a signed integer of `w` bytes holds after being given the value
  `v`. `getInt` and `putInt` read and write one at an offset. A value put is got back
  wrapped (`getInt_putInt`), a value got and put back changes nothing
  (`putInt_getInt`), and neither sees the cells outside its own `w`.
-/

import GroupeChat.Base.Memory
import Mathlib.Data.Nat.Digits.Defs

namespace GroupeChat.Base

def ofLe (l : List UInt8) : Nat := Nat.ofDigits 256 (l.map UInt8.toNat)

def toLe : Nat → Int → List UInt8
  | 0, _ => []
  | n + 1, v => UInt8.ofNat (v % 256).toNat :: toLe n (v / 256)

/-- The signed integer of `w` bytes congruent to `v`. -/
def wrap (w : Nat) (v : Int) : Int := (BitVec.ofInt (8 * w) v).toInt

theorem wrap_eq_bmod (w : Nat) (v : Int) : wrap w v = v.bmod (256 ^ w) := by
  rw [wrap, BitVec.toInt_ofInt, pow_mul, show 2 ^ 8 = 256 from rfl]

@[simp] theorem toLe_length (n : Nat) (v : Int) : (toLe n v).length = n := by
  induction n generalizing v with
  | zero => rfl
  | succ n ih => simp [toLe, ih]

theorem ofLe_cons (b : UInt8) (l : List UInt8) : ofLe (b :: l) = b.toNat + 256 * ofLe l := by
  simp [ofLe, Nat.ofDigits_cons]

/-- The low byte of `v`, then the bytes of the rest: `v` modulo one more byte. -/
theorem emod_byte_add (v : Int) (n : Nat) : v % 256 + 256 * (v / 256 % 256 ^ n) = v % 256 ^ (n + 1) := by
  have hp : (0 : Int) < 256 ^ n := by positivity
  have h1 := Int.emod_nonneg (v / 256) hp.ne'
  have h2 := Int.emod_lt_of_pos (v / 256) hp
  have hv : v = (v % 256 + 256 * (v / 256 % 256 ^ n)) + 256 ^ (n + 1) * (v / 256 / 256 ^ n) := by
    have h3 := Int.emod_add_mul_ediv (v / 256) (256 ^ n)
    have h4 := Int.emod_add_mul_ediv v 256
    rw [pow_succ', mul_assoc]
    omega
  have h5 : v % 256 ^ (n + 1) = (v % 256 + 256 * (v / 256 % 256 ^ n)) % 256 ^ (n + 1) := by
    conv_lhs => rw [hv]
    exact Int.add_mul_emod_self_left _ _ _
  have h6 : v % 256 + 256 * (v / 256 % 256 ^ n) < 256 ^ (n + 1) := by rw [pow_succ']; omega
  exact (h5.trans (Int.emod_eq_of_lt (by omega) h6)).symm

theorem ofLe_toLe (n : Nat) (v : Int) : (ofLe (toLe n v) : Int) = v % 256 ^ n := by
  induction n generalizing v with
  | zero => simp [toLe, ofLe]
  | succ n ih =>
    have hb : ((UInt8.ofNat (v % 256).toNat).toNat : Int) = v % 256 := by
      simp only [UInt8.toNat_ofNat']
      omega
    rw [toLe, ofLe_cons, ← emod_byte_add, ← ih]
    push_cast
    rw [hb]

theorem toLe_ofLe (l : List UInt8) : toLe l.length (ofLe l) = l := by
  induction l with
  | nil => rfl
  | cons b l ih =>
    have hb : b.toNat < 256 := b.toNat_lt
    have hlow : ((ofLe (b :: l) : Nat) : Int) % 256 = b.toNat := by rw [ofLe_cons]; omega
    have hhigh : ((ofLe (b :: l) : Nat) : Int) / 256 = ofLe l := by rw [ofLe_cons]; omega
    rw [List.length_cons, toLe, hlow, hhigh, ih]
    simp

/-- The bytes of a value only depend on the value modulo its width. -/
theorem toLe_emod (n : Nat) (v : Int) : toLe n (v % 256 ^ n) = toLe n v := by
  induction n generalizing v with
  | zero => rfl
  | succ n ih =>
    have hlow : v % 256 ^ (n + 1) % 256 = v % 256 :=
      Int.emod_emod_of_dvd v (Dvd.intro_left (256 ^ n) (pow_succ 256 n).symm)
    have hhigh : v % 256 ^ (n + 1) / 256 = v / 256 % 256 ^ n := by
      rw [← emod_byte_add]; omega
    rw [toLe, toLe, hlow, hhigh, ih]

theorem wrap_emod (w : Nat) (v : Int) : wrap w v % 256 ^ w = v % 256 ^ w := by
  simpa [wrap_eq_bmod] using Int.bmod_emod (x := v) (m := 256 ^ w)

theorem wrap_of_emod (w : Nat) (v : Int) : wrap w (v % 256 ^ w) = wrap w v := by
  simpa [wrap_eq_bmod] using Int.emod_bmod v (256 ^ w)

@[simp] theorem wrap_wrap (w : Nat) (v : Int) : wrap w (wrap w v) = wrap w v := by
  rw [← wrap_of_emod, wrap_emod, wrap_of_emod]

/-- An integer that overflows at every addition is one that overflows at the end. -/
theorem wrap_add (w : Nat) (u v : Int) : wrap w (wrap w u + v) = wrap w (u + v) := by
  simp only [wrap_eq_bmod, Int.bmod_add_bmod]

theorem toLe_wrap (w : Nat) (v : Int) : toLe w (wrap w v) = toLe w v := by
  rw [← toLe_emod, wrap_emod, toLe_emod]

/-- A 4-byte integer keeps every value of its own range. -/
theorem wrap_four {v : Int} (h : -2147483648 ≤ v) (h' : v < 2147483648) : wrap 4 v = v := by
  rw [wrap_eq_bmod]
  exact (Int.bmod_eq_iff (by decide)).mpr ⟨by norm_num; omega, by norm_num; omega, by simp⟩

theorem wrap_four_bounds (v : Int) : -2147483648 ≤ wrap 4 v ∧ wrap 4 v < 2147483648 := by
  have h1 := Int.le_bmod (x := v) (m := 256 ^ 4) (by decide)
  have h2 := Int.bmod_lt (x := v) (m := 256 ^ 4) (by decide)
  rw [wrap_eq_bmod]
  norm_num at h1 h2 ⊢
  omega

namespace Mem

def getInt (w : Nat) (m : Mem UInt8) (off : Nat) : Int := wrap w (ofLe (m.read off w))

def putInt (w : Nat) (m : Mem UInt8) (off : Nat) (v : Int) : Mem UInt8 := m.write off (toLe w v)

theorem getInt_congr {w : Nat} {m m' : Mem UInt8} {off off' : Nat} (h : m.read off w = m'.read off' w) :
    m.getInt w off = m'.getInt w off' := by
  simp [getInt, h]

/-- An integer that lies in the first `n` cells, from what they read. -/
theorem getInt_of_read {m : Mem UInt8} {n w off : Nat} (h : off + w ≤ n) :
    m.getInt w off = wrap w (ofLe (((m.read 0 n).drop off).take w)) := by
  rw [drop_read m 0 (by omega), take_read m _ (by omega), Nat.zero_add, getInt]

theorem wrap_ofLe_toLe (w : Nat) (v : Int) : wrap w (ofLe (toLe w v)) = wrap w v := by
  rw [ofLe_toLe, wrap_of_emod]

@[simp] theorem getInt_putInt (w : Nat) (m : Mem UInt8) (off : Nat) (v : Int) :
    (m.putInt w off v).getInt w off = wrap w v := by
  have h : (m.write off (toLe w v)).read off w = toLe w v := by
    simpa using read_write_same m off (toLe w v)
  rw [getInt, putInt, h, wrap_ofLe_toLe]

/-- Putting back the value that is there changes nothing. -/
theorem putInt_getInt (w : Nat) (m : Mem UInt8) (off : Nat) : m.putInt w off (m.getInt w off) = m := by
  have h : toLe w (m.getInt w off) = m.read off w := by
    have := toLe_ofLe (m.read off w)
    rw [read_length] at this
    rw [getInt, toLe_wrap, this]
  funext i
  rw [putInt, h]
  have := move_apply m off off w i
  rw [move] at this
  rw [this]
  split
  · congr 1; omega
  · rfl

theorem putInt_below (w : Nat) (m : Mem UInt8) (v : Int) {off i : Nat} (h : i < off) : m.putInt w off v i = m i :=
  write_below m _ h

theorem putInt_above (w : Nat) (m : Mem UInt8) (v : Int) {off i : Nat} (h : off + w ≤ i) :
    m.putInt w off v i = m i :=
  write_above m _ (by simpa using h)

theorem read_putInt_above (w : Nat) (m : Mem UInt8) (v : Int) {off off' : Nat} (n : Nat) (h : off + w ≤ off') :
    (m.putInt w off v).read off' n = m.read off' n :=
  read_write_above m _ (by simpa using h)

/-- A put changes alike what is alike before it. -/
theorem putInt_congr {w : Nat} {m m' : Mem UInt8} {off i : Nat} (v : Int) (h : m i = m' i) :
    m.putInt w off v i = m'.putInt w off v i := by
  simp only [putInt, write, h]

/-- Neither a write nor a put is seen by a get of other cells. -/
theorem getInt_write_ne {w : Nat} (m : Mem UInt8) (l : List UInt8) {off off' : Nat}
    (h : off' + w ≤ off ∨ off + l.length ≤ off') : (m.write off l).getInt w off' = m.getInt w off' := by
  apply getInt_congr
  rcases h with h | h
  · exact read_write_below m _ h
  · exact read_write_above m _ h

theorem getInt_putInt_ne {w w' : Nat} (m : Mem UInt8) (v : Int) {off off' : Nat}
    (h : off' + w' ≤ off ∨ off + w ≤ off') : (m.putInt w off v).getInt w' off' = m.getInt w' off' :=
  getInt_write_ne m _ (by simpa using h)

theorem getInt_four_bounds (m : Mem UInt8) (off : Nat) :
    -2147483648 ≤ m.getInt 4 off ∧ m.getInt 4 off < 2147483648 :=
  wrap_four_bounds _

end Mem

end GroupeChat.Base
