/-
  GroupeChat.Base.Decimal — integers in decimal notation.

  `readNat` is the value of a string of digits, `read` that of one with a minus sign in
  front or not; a byte that does not belong there, or no digit at all, gives `none`.
  `readNat_append` reads one digit more at the end.
-/

namespace GroupeChat.Base.Decimal

def isDigit (b : UInt8) : Bool := 48 ≤ b.toNat && b.toNat ≤ 57

def readDigit (v : Option Nat) (b : UInt8) : Option Nat :=
  v.bind fun v => if isDigit b then some (10 * v + (b.toNat - 48)) else none

def readNat (l : List UInt8) : Option Nat := l.foldl readDigit (some 0)

def read : List UInt8 → Option Int
  | [] => none
  | b :: l =>
    if b = 45 then if l = [] then none else (readNat l).map fun n => -(n : Int)
    else (readNat (b :: l)).map fun n => (n : Int)

theorem readNat_append (l : List UInt8) (b : UInt8) : readNat (l ++ [b]) = readDigit (readNat l) b := by
  simp [readNat, List.foldl_append]

def digit (d : Nat) : UInt8 := UInt8.ofNat (48 + d)

theorem toNat_digit {d : Nat} (h : d < 10) : (digit d).toNat = 48 + d := by
  simp only [digit, UInt8.toNat_ofNat']
  omega

theorem readDigit_digit {d : Nat} (h : d < 10) (v : Nat) : readDigit (some v) (digit d) = some (10 * v + d) := by
  have hd := toNat_digit h
  simp only [readDigit, isDigit, hd, Option.bind_some]
  rw [if_pos (by simp; omega)]
  congr 2
  omega

theorem digit_ne_minus {d : Nat} (h : d < 10) : digit d ≠ 45 := by
  intro heq
  have hd := toNat_digit h
  rw [heq] at hd
  simp at hd
  omega

/-- What starts with a digit is read without a sign. -/
theorem read_of_digit {d : Nat} (h : d < 10) (l : List UInt8) :
    read (digit d :: l) = (readNat (digit d :: l)).map fun n => (n : Int) := by
  simp only [read, digit_ne_minus h, if_false]

theorem read_minus {l : List UInt8} (h : l ≠ []) : read (45 :: l) = (readNat l).map fun n => -(n : Int) := by
  simp only [read, if_true, h, if_false]

end GroupeChat.Base.Decimal
