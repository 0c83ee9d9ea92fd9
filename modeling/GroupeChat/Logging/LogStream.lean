/-
  GroupeChat.Logging.LogStream — the text of one log statement (`LogStream`, `Logger`).

  A stream has a buffer of 4000 bytes and takes items one at a time: a string goes in if
  there is room for one byte more than it has, a number if there is room for 32, and what
  does not fit is left out whole. `append` casts the length to `int` before it compares,
  so a string of 2 GB or more can pass the check and run over the buffer; `none` is that
  (`shl_eq_none`: nothing else does it, numbers with their terminating 0 included).
  - `run_exact`: for strings shorter than that the buffer ends as what fits, in order.
  - `line_length`: what a statement hands to the log is shorter than the buffer.
-/

import GroupeChat.Base.LittleEndian
import GroupeChat.Base.Run
import GroupeChat.Logging.Convert

namespace GroupeChat.Logging

open Base

def kSmallBuffer : Nat := 4000
def kLargeBuffer : Nat := 4000 * 1000
def kMaxNumericSize : Nat := 32

/-- The bytes in front of `cur_`. -/
structure FixedBuffer (SIZE : Nat) where
  data : List UInt8
  fits : data.length ≤ SIZE

namespace FixedBuffer

variable {SIZE : Nat}

def empty : FixedBuffer SIZE := ⟨[], Nat.zero_le _⟩

def avail (b : FixedBuffer SIZE) : Int := SIZE - b.data.length

def append (b : FixedBuffer SIZE) (buf : List UInt8) : Option (FixedBuffer SIZE) :=
  if wrap 4 buf.length < b.avail then
    if h : b.data.length + buf.length ≤ SIZE then
      some ⟨b.data ++ buf, by rw [List.length_append]; exact h⟩
    else none
  else some b

/-- Text and a terminating 0 written at `cur_`, then `add` of the text's length; `none` if
    either goes past the end. -/
def print (b : FixedBuffer SIZE) (text : List UInt8) : Option (FixedBuffer SIZE) :=
  if h : b.data.length + text.length + 1 ≤ SIZE then
    some ⟨b.data ++ text, by rw [List.length_append]; omega⟩
  else none

def reset (_ : FixedBuffer SIZE) : FixedBuffer SIZE := empty

theorem append_of_room {b : FixedBuffer SIZE} {buf : List UInt8} (hint : buf.length < 2147483648)
    (h : b.data.length + buf.length < SIZE) :
    b.append buf = some ⟨b.data ++ buf, by rw [List.length_append]; omega⟩ := by
  unfold append
  rw [wrap_four (by omega) (by omega), if_pos (by unfold avail; omega), dif_pos (by omega)]

theorem append_of_full {b : FixedBuffer SIZE} {buf : List UInt8} (hint : buf.length < 2147483648)
    (h : SIZE ≤ b.data.length + buf.length) : b.append buf = some b := by
  unfold append
  rw [wrap_four (by omega) (by omega), if_neg (by unfold avail; omega)]

/-- The copy goes past the end exactly if the length is too much and its cast is not. -/
theorem append_eq_none {b : FixedBuffer SIZE} {buf : List UInt8} :
    b.append buf = none ↔ b.avail < buf.length ∧ wrap 4 buf.length < b.avail := by
  have hfits := b.fits
  unfold append
  by_cases hw : wrap 4 buf.length < b.avail
  · by_cases hc : b.data.length + buf.length ≤ SIZE
    · rw [if_pos hw, dif_pos hc]
      refine ⟨?_, ?_⟩
      · intro h
        cases h
      · intro h
        unfold avail at h
        omega
    · rw [if_pos hw, dif_neg hc]
      refine ⟨fun _ => ⟨?_, hw⟩, fun _ => rfl⟩
      unfold avail
      omega
  · simp [hw]

end FixedBuffer

/-- What `snprintf` prints of a floating-point number with `"%.12g"`: a sign, 12 digits, a
    point and an exponent of up to four digits at most. -/
abbrev Printed : Type := { text : List UInt8 // text.length ≤ 24 }

inductive Item where
  | bool (v : Bool)
  | short (v : BitVec 16)
  | unsigned_short (v : BitVec 16)
  | int (v : BitVec 32)
  | unsigned_int (v : BitVec 32)
  | long (v : BitVec 64)
  | unsigned_long (v : BitVec 64)
  | long_long (v : BitVec 64)
  | unsigned_long_long (v : BitVec 64)
  | float (v : Printed)
  | double (v : Printed)
  | long_double (v : Printed)
  | char (v : UInt8)
  /-- A null pointer, or the bytes in front of its 0. -/
  | c_str (str : Option (List UInt8))
  | string (v : List UInt8)

structure LogStream where
  buffer_ : FixedBuffer kSmallBuffer

namespace LogStream

def null : List UInt8 := [40, 110, 117, 108, 108, 41]

def init : LogStream := ⟨.empty⟩

def append (s : LogStream) (data : List UInt8) : Option LogStream := (s.buffer_.append data).map LogStream.mk

def formatInteger (s : LogStream) (v : Int) : Option LogStream :=
  if kMaxNumericSize ≤ s.buffer_.avail then (s.buffer_.print (convert v)).map LogStream.mk else some s

def formatFloat (s : LogStream) (v : Printed) : Option LogStream :=
  if kMaxNumericSize ≤ s.buffer_.avail then (s.buffer_.print v.1).map LogStream.mk else some s

/-- `operator<<`. -/
def shl (s : LogStream) : Item → Option LogStream
  | .bool v => s.append (if v then [49] else [48])
  | .short v => s.formatInteger v.toInt
  | .unsigned_short v => s.formatInteger v.toNat
  | .int v => s.formatInteger v.toInt
  | .unsigned_int v => s.formatInteger v.toNat
  | .long v => s.formatInteger v.toInt
  | .unsigned_long v => s.formatInteger v.toNat
  | .long_long v => s.formatInteger v.toInt
  | .unsigned_long_long v => s.formatInteger v.toNat
  | .float v => s.formatFloat v
  | .double v => s.formatFloat v
  | .long_double v => s.formatFloat v
  | .char v => s.append [v]
  | .c_str (some str) => s.append str
  | .c_str none => s.append null
  | .string v => s.append v

end LogStream

/-! ## What an item says and the room it asks for -/

namespace Item

def int? : Item → Option Int
  | .short v => some v.toInt
  | .unsigned_short v => some v.toNat
  | .int v => some v.toInt
  | .unsigned_int v => some v.toNat
  | .long v => some v.toInt
  | .unsigned_long v => some v.toNat
  | .long_long v => some v.toInt
  | .unsigned_long_long v => some v.toNat
  | _ => none

/-- The text of the others, and whether it is a number. -/
def other : Item → Bool × List UInt8
  | .bool v => (false, if v then [49] else [48])
  | .float v => (true, v.1)
  | .double v => (true, v.1)
  | .long_double v => (true, v.1)
  | .char v => (false, [v])
  | .c_str (some str) => (false, str)
  | .c_str none => (false, LogStream.null)
  | .string v => (false, v)
  | _ => (true, [])

def text (i : Item) : List UInt8 :=
  match i.int? with
  | some v => convert v
  | none => i.other.2

def isNumber (i : Item) : Bool := i.int?.isSome || i.other.1

def room (i : Item) : Nat := if i.isNumber then kMaxNumericSize else i.text.length + 1

/-- Its length is not cast to something else. -/
def Short (i : Item) : Prop := i.text.length < 2147483648

instance (i : Item) : Decidable i.Short := inferInstanceAs (Decidable (_ < _))

/-- A value of any integer type takes 20 characters at most. -/
theorem int?_bounds {i : Item} {v : Int} (h : i.int? = some v) :
    -9223372036854775808 ≤ v ∧ v < 18446744073709551616 := by
  have hs : ∀ {w : Nat} (x : BitVec w), w ≤ 64 → -9223372036854775808 ≤ x.toInt ∧ x.toInt < 18446744073709551616 := by
    intro w x hw
    have hlt := x.isLt
    have hpow : 2 ^ w ≤ 2 ^ 64 := Nat.pow_le_pow_right (by decide) hw
    have hlow : 2 * x.toInt ≥ -(2 ^ w : Nat) := by
      rw [BitVec.toInt_eq_toNat_cond]
      split
      · omega
      · omega
    have hle : x.toInt ≤ x.toNat := by
      rw [BitVec.toInt_eq_toNat_cond]
      split
      · omega
      · omega
    omega
  have hu : ∀ {w : Nat} (x : BitVec w), w ≤ 64 → -9223372036854775808 ≤ (x.toNat : Int) ∧
      (x.toNat : Int) < 18446744073709551616 := by
    intro w x hw
    have hlt := x.isLt
    have hpow : 2 ^ w ≤ 2 ^ 64 := Nat.pow_le_pow_right (by decide) hw
    omega
  cases i with
  | short x => simp only [int?, Option.some.injEq] at h; subst h; exact hs x (by decide)
  | unsigned_short x => simp only [int?, Option.some.injEq] at h; subst h; exact hu x (by decide)
  | int x => simp only [int?, Option.some.injEq] at h; subst h; exact hs x (by decide)
  | unsigned_int x => simp only [int?, Option.some.injEq] at h; subst h; exact hu x (by decide)
  | long x => simp only [int?, Option.some.injEq] at h; subst h; exact hs x (by decide)
  | unsigned_long x => simp only [int?, Option.some.injEq] at h; subst h; exact hu x (by decide)
  | long_long x => simp only [int?, Option.some.injEq] at h; subst h; exact hs x (by decide)
  | unsigned_long_long x => simp only [int?, Option.some.injEq] at h; subst h; exact hu x (by decide)
  | bool x => simp [int?] at h
  | float x => simp [int?] at h
  | double x => simp [int?] at h
  | long_double x => simp [int?] at h
  | char x => simp [int?] at h
  | c_str x => simp [int?] at h
  | string x => simp [int?] at h

end Item

namespace LogStream

/-- What `operator<<` comes down to: a number is printed if 32 bytes are free, any other
    text is appended. -/
theorem shl_eq (s : LogStream) (i : Item) :
    s.shl i =
      if i.isNumber then
        if kMaxNumericSize ≤ s.buffer_.avail then (s.buffer_.print i.text).map LogStream.mk else some s
      else s.append i.text := by
  cases i with
  | c_str str =>
    cases str with
    | none => rfl
    | some str => rfl
  | bool v => rfl
  | short v => rfl
  | unsigned_short v => rfl
  | int v => rfl
  | unsigned_int v => rfl
  | long v => rfl
  | unsigned_long v => rfl
  | long_long v => rfl
  | unsigned_long_long v => rfl
  | float v => rfl
  | double v => rfl
  | long_double v => rfl
  | char v => rfl
  | string v => rfl

theorem number_text {i : Item} (h : i.isNumber = true) : i.text.length ≤ 24 := by
  cases hi : i.int? with
  | some v =>
    obtain ⟨h₁, h₂⟩ := Item.int?_bounds hi
    have hlen := convert_length h₁ h₂
    simp only [Item.text, hi]
    omega
  | none =>
    cases i with
    | float v => exact v.2
    | double v => exact v.2
    | long_double v => exact v.2
    | bool v => cases h
    | char v => cases h
    | c_str str =>
      cases str with
      | none => cases h
      | some str => cases h
    | string v => cases h
    | short v => cases hi
    | unsigned_short v => cases hi
    | int v => cases hi
    | unsigned_int v => cases hi
    | long v => cases hi
    | unsigned_long v => cases hi
    | long_long v => cases hi
    | unsigned_long_long v => cases hi

/-- A number that passes its check fits, its terminating 0 included. -/
theorem print_number {s : LogStream} {i : Item} (h : i.isNumber = true)
    (hroom : (kMaxNumericSize : Int) ≤ s.buffer_.avail) :
    ∃ b, s.buffer_.print i.text = some b ∧ b.data = s.buffer_.data ++ i.text := by
  have hlen := number_text h
  have hfit : s.buffer_.data.length + i.text.length + 1 ≤ kSmallBuffer := by
    unfold FixedBuffer.avail at hroom
    simp only [kMaxNumericSize] at hroom
    omega
  exact ⟨_, dif_pos hfit, rfl⟩

/-- Only a string whose length is cast to something small runs over the buffer. -/
theorem shl_eq_none {s : LogStream} {i : Item} :
    s.shl i = none ↔ i.isNumber = false ∧ s.buffer_.avail < i.text.length ∧ wrap 4 i.text.length < s.buffer_.avail := by
  rw [shl_eq]
  cases hn : i.isNumber with
  | true =>
    simp only [if_true, Bool.true_eq_false, false_and, iff_false]
    split
    · rename_i hroom
      obtain ⟨b, hb, -⟩ := print_number hn hroom
      simp [hb]
    · simp
  | false => simp [append, FixedBuffer.append_eq_none]

/-- The item goes in whole, or not at all. -/
theorem shl_exact {s : LogStream} {i : Item} (h : i.Short) :
    ∃ s', s.shl i = some s' ∧ s'.buffer_.data =
      if s.buffer_.data.length + i.room ≤ kSmallBuffer then s.buffer_.data ++ i.text else s.buffer_.data := by
  have hfits := s.buffer_.fits
  rw [shl_eq]
  cases hn : i.isNumber with
  | true =>
    have hroom : i.room = kMaxNumericSize := by simp [Item.room, hn]
    by_cases hle : (kMaxNumericSize : Int) ≤ s.buffer_.avail
    · obtain ⟨b, hb, hdata⟩ := print_number hn hle
      refine ⟨⟨b⟩, by simp [hle, hb], ?_⟩
      unfold FixedBuffer.avail at hle
      rw [hroom, if_pos (by omega), hdata]
    · refine ⟨s, by simp [hle], ?_⟩
      unfold FixedBuffer.avail at hle
      rw [hroom, if_neg (by omega)]
  | false =>
    have hroom : i.room = i.text.length + 1 := by simp [Item.room, hn]
    rw [hroom]
    by_cases hle : s.buffer_.data.length + (i.text.length + 1) ≤ kSmallBuffer
    · have happ := FixedBuffer.append_of_room (b := s.buffer_) h (by omega)
      exact ⟨⟨_⟩, by rw [if_neg (by simp), append, happ, Option.map_some], by rw [if_pos hle]⟩
    · have happ := FixedBuffer.append_of_full (b := s.buffer_) h (by omega)
      exact ⟨s, by rw [if_neg (by simp), append, happ, Option.map_some], by rw [if_neg hle]⟩

/-- Items taken one by one, each left out that does not fit when its turn comes. -/
def fitting : List UInt8 → List Item → List UInt8
  | data, [] => data
  | data, i :: items => fitting (if data.length + i.room ≤ kSmallBuffer then data ++ i.text else data) items

/-- One byte is free at least, and stays so. -/
theorem shl_length {s s' : LogStream} {i : Item} (h : s.buffer_.data.length < kSmallBuffer) (hs : s.shl i = some s') :
    s'.buffer_.data.length < kSmallBuffer := by
  rw [shl_eq] at hs
  split at hs
  · rename_i hn
    split at hs
    · rename_i hroom
      obtain ⟨b, hb, hdata⟩ := print_number hn hroom
      rw [hb] at hs
      obtain rfl := Option.some.inj hs
      have hlen := number_text hn
      unfold FixedBuffer.avail at hroom
      simp only [kMaxNumericSize] at hroom
      rw [hdata, List.length_append]
      omega
    · obtain rfl := Option.some.inj hs
      exact h
  · obtain ⟨b, hb, rfl⟩ := Option.map_eq_some_iff.mp hs
    unfold FixedBuffer.append at hb
    split at hb
    · rename_i hw
      split at hb
      · rename_i hfit
        obtain rfl := Option.some.inj hb
        unfold FixedBuffer.avail at hw
        rw [wrap_four (by omega) (by simp only [kSmallBuffer] at hfit; omega)] at hw
        rw [List.length_append]
        omega
      · cases hb
    · obtain rfl := Option.some.inj hb
      exact h

/-- However many items are streamed, the buffer is never run over, and it ends as the texts
    of those that fitted at their turn, in order. -/
theorem run_exact {items : List Item} (h : ∀ i ∈ items, i.Short) :
    ∀ {s : LogStream}, ∃ s', run shl s items = some s' ∧ s'.buffer_.data = fitting s.buffer_.data items := by
  induction items with
  | nil =>
    intro s
    exact ⟨s, rfl, rfl⟩
  | cons i items ih =>
    intro s
    obtain ⟨u, hu, hdata⟩ := shl_exact (s := s) (h i (by simp))
    obtain ⟨s', hs', hrest⟩ := ih (fun j hj => h j (by simp [hj])) (s := u)
    exact ⟨s', by rw [run_cons hu, hs'], by rw [hrest, hdata, fitting]⟩

end LogStream

/-! ## One statement -/

def dashes : List UInt8 := [32, 45, 45, 32]

/-- What `Logger` streams: the time when it is built, what the statement streams, the place
    in the source when it goes. -/
def Logger.items (time : List UInt8) (basename_ : List UInt8) (line_ : BitVec 32) (statement : List Item) : List Item :=
  .c_str (some time) :: statement ++
    [.c_str (some dashes), .string basename_, .char 58, .int line_, .char 10]

def Logger.line (time basename_ : List UInt8) (line_ : BitVec 32) (statement : List Item) : Option (List UInt8) :=
  (run LogStream.shl .init (items time basename_ line_ statement)).map fun s => s.buffer_.data

/-- The line never fills the buffer. -/
theorem Logger.line_length {time basename_ : List UInt8} {line_ : BitVec 32} {statement : List Item} {l : List UInt8}
    (h : line time basename_ line_ statement = some l) : l.length < kSmallBuffer := by
  obtain ⟨s, hr, rfl⟩ := Option.map_eq_some_iff.mp h
  exact run_inv (I := fun s : LogStream => s.buffer_.data.length < kSmallBuffer)
    (fun _ _ _ h he => LogStream.shl_length h he) (by decide) hr

/-- Every statement whose strings are shorter than 2 GB gives a line: its items in order,
    each one whole or left out, and fewer than 4000 bytes of it. -/
theorem Logger.line_exact {time basename_ : List UInt8} {line_ : BitVec 32} {statement : List Item}
    (ht : time.length < 2147483648) (hb : basename_.length < 2147483648) (hs : ∀ i ∈ statement, i.Short) :
    ∃ l, line time basename_ line_ statement = some l ∧
      l = LogStream.fitting [] (items time basename_ line_ statement) ∧ l.length < kSmallBuffer := by
  have hshort : ∀ i ∈ items time basename_ line_ statement, i.Short := by
    intro i hi
    simp only [items, List.cons_append, List.mem_cons, List.mem_append, List.not_mem_nil, or_false] at hi
    rcases hi with rfl | hi | rfl | rfl | rfl | rfl | rfl
    · exact ht
    · exact hs i hi
    · decide
    · exact hb
    · exact (by decide : (1 : Nat) < 2147483648)
    · have hlen := LogStream.number_text (i := .int line_) rfl
      unfold Item.Short
      omega
    · exact (by decide : (1 : Nat) < 2147483648)
  obtain ⟨s, hr, hdata⟩ := LogStream.run_exact hshort (s := .init)
  have hline : line time basename_ line_ statement = some s.buffer_.data := by
    rw [line, hr]
    rfl
  exact ⟨s.buffer_.data, hline, hdata, line_length hline⟩

/-- `LOG << "n = " << -7` on line 12 of `a`, in the year `y`. -/
theorem Logger.a_line :
    ∃ l, line [121] [97] 12 [.c_str (some [110, 32, 61, 32]), .int (-7)] = some l ∧
      l = LogStream.fitting [] (items [121] [97] 12 [.c_str (some [110, 32, 61, 32]), .int (-7)]) ∧
      l.length < kSmallBuffer := by
  apply line_exact
  · decide
  · decide
  · intro i hi
    rcases List.mem_pair.mp hi with rfl | rfl
    · decide
    · have hlen := LogStream.number_text (i := .int (-7)) rfl
      unfold Item.Short
      omega

end GroupeChat.Logging
