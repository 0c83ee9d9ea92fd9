/-
  GroupeChat.EchoServer — one connection of the echo server (`conn`).

  `handle` reads until there is nothing to read and then writes until nothing is held or
  nothing more is taken. Before each `::read` the room behind `tail` is looked at: under
  64 bytes of it, the buffer is doubled when what it holds leaves less than 128 bytes,
  else what it holds is moved to the front.

  Every subtraction and sum is that of a `size_t`, and the count a call returns is kept
  in an `int`. One `::read` or `::write` moves at most `rwMax` bytes, and no allocation is
  larger than `ptrdiffMax`: a `realloc` beyond it fails, and the process exits.

  Whatever the calls return, at each of them the held bytes are those read and not
  written, in order, and the `::read` asks for room that is there, 64 bytes of it at the
  least (`echo_buffer_intact`). A connection is a first-in-first-out queue of bytes
  (`Conn.fifo`): a step takes nothing from it but what it writes, and puts nothing in it
  but what it reads.
-/

import GroupeChat.Base.Fifo
import GroupeChat.Base.Socket

namespace GroupeChat.EchoServer

open Base

/-- The most one `::read` or `::write` moves on Linux. -/
def rwMax : Nat := 0x7ffff000

def ptrdiffMax : Nat := 2 ^ 63 - 1

inductive Place where
  /-- Between two calls. -/
  | out
  /-- At the head of `read`'s loop. -/
  | reading
  /-- At `::read`. -/
  | asking
  /-- At the head of `write`'s loop. -/
  | writing
  deriving DecidableEq

structure Conn where
  buffer : Mem UInt8
  alloced : Nat
  head : Nat
  tail : Nat
  readOfEnd : Bool
  error : Bool
  place : Place
  /-- What `::read` has stored so far. -/
  got : List UInt8
  /-- What `::write` has taken so far. -/
  put : List UInt8

namespace Conn

def init (junk : Mem UInt8) : Conn := ⟨junk, 32, 0, 0, false, false, .out, [], []⟩

def space (c : Conn) : Nat := toSize (c.alloced - c.tail)

def held (c : Conn) : Nat := toSize (c.tail - c.head)

/-- What a `::read` or a `::write` returns, with the bytes it moves. -/
inductive Result where
  | count (bytes : List UInt8)
  /-- 0: the end of file. -/
  | eof
  /-- -1 with EAGAIN. -/
  | again
  /-- -1 with another errno. -/
  | error

def Result.bytes : Result → List UInt8
  | .count bytes => bytes
  | _ => []

def Result.ret : Result → Int
  | .count bytes => bytes.length
  | .eof => 0
  | _ => -1

def Result.isAgain : Result → Bool
  | .again => true
  | _ => false

def Result.isEof : Result → Bool
  | .eof => true
  | _ => false

def Result.isError : Result → Bool
  | .error => true
  | _ => false

/-- A call asked to move up to `size` bytes can return this. -/
def Result.Fits (size : Nat) : Result → Prop
  | .count bytes => 0 < bytes.length ∧ bytes.length ≤ size ∧ bytes.length ≤ rwMax
  | _ => True

instance (size : Nat) : DecidablePred (Result.Fits size)
  | .count bytes => inferInstanceAs (Decidable (0 < bytes.length ∧ bytes.length ≤ size ∧ bytes.length ≤ rwMax))
  | .eof | .again | .error => inferInstanceAs (Decidable True)

inductive Ev where
  | handle
  /-- The statements in front of `::read`; what `realloc` gives, if it is called. -/
  | room (realloc : Option (Mem UInt8))
  | read (r : Result)
  | write (r : Result)
  /-- `write`'s loop ends with nothing held. -/
  | written

def handle (c : Conn) : Conn := if c.error then c else { c with place := .reading }

def room (c : Conn) (realloc : Option (Mem UInt8)) : Option Conn :=
  if c.space < 64 then
    if toSize (c.alloced - c.held) < 128 then
      let alloced := toSize (c.alloced * 2)
      match realloc with
      | none => none
      | some fresh =>
        if ptrdiffMax < alloced then none
        else some { c with buffer := fresh.write 0 (c.buffer.read 0 c.alloced), alloced := alloced, place := .asking }
    else some { c with buffer := c.buffer.move 0 c.head c.held, tail := c.held, head := 0, place := .asking }
  else some { c with place := .asking }

def read (c : Conn) (r : Result) : Conn :=
  let c := { c with buffer := c.buffer.write c.tail r.bytes, got := c.got ++ r.bytes }
  let n := wrap 4 r.ret
  if n < 0 then
    if r.isAgain then { c with place := .writing } else { c with error := true, place := .out }
  else { c with readOfEnd := c.readOfEnd || n == 0, tail := toSize (c.tail + n), place := .reading }

def write (c : Conn) (r : Result) : Conn :=
  let c := { c with put := c.put ++ r.bytes }
  let n := wrap 4 r.ret
  if n < 0 then
    if r.isAgain then { c with place := .out } else { c with error := true, place := .out }
  else { c with head := toSize (c.head + n), place := .writing }

/-- `::write` takes the first of the bytes it is given, and reports no end of file. -/
def Accepts (c : Conn) : Result → Prop
  | .count bytes => bytes = c.buffer.read c.head bytes.length
  | .eof => False
  | _ => True

instance (c : Conn) : DecidablePred c.Accepts
  | .count bytes => inferInstanceAs (Decidable (bytes = c.buffer.read c.head bytes.length))
  | .eof => inferInstanceAs (Decidable False)
  | .again | .error => inferInstanceAs (Decidable True)

def step (c : Conn) : Ev → Option Conn
  | .handle => if c.place = .out then some c.handle else none
  | .room realloc => if c.place = .reading then c.room realloc else none
  | .read r => if c.place = .asking ∧ r.Fits c.space then some (c.read r) else none
  | .write r =>
    if c.place = .writing ∧ c.head < c.tail ∧ r.Fits c.held ∧ c.Accepts r then some (c.write r) else none
  | .written => if c.place = .writing ∧ ¬ c.head < c.tail then some { c with place := .out } else none

/-! ## What the calls return -/

/-- No count is lost in the `int`, and a failed call moves nothing. -/
theorem Result.Fits.ret {size : Nat} {r : Result} (h : r.Fits size) :
    wrap 4 r.ret = r.bytes.length ∨ wrap 4 r.ret = -1 ∧ r.bytes = [] := by
  cases r with
  | count bytes =>
    have hmax : bytes.length ≤ 0x7ffff000 := h.2.2
    exact Or.inl (wrap_four (by simp only [Result.ret]; omega) (by simp only [Result.ret]; omega))
  | eof => exact Or.inl (by decide)
  | again => exact Or.inr ⟨by decide, rfl⟩
  | error => exact Or.inr ⟨by decide, rfl⟩

/-- Of the calls that succeed the end of file alone returns 0. -/
theorem Result.Fits.ret_eq_zero {size : Nat} {r : Result} (h : r.Fits size) (hret : wrap 4 r.ret = r.bytes.length) :
    (wrap 4 r.ret == 0) = r.isEof ∧ r.isError = false := by
  cases r with
  | count bytes =>
    have hpos : 0 < bytes.length := h.1
    rw [hret]
    refine ⟨beq_false_of_ne ?_, rfl⟩
    show (bytes.length : Int) ≠ 0
    omega
  | eof => exact ⟨by decide, rfl⟩
  | again => exact absurd hret (by decide)
  | error => exact absurd hret (by decide)

/-- Of those that fail one is an error. -/
theorem Result.isError_of_failed {r : Result} (hret : wrap 4 r.ret = -1) (hb : r.bytes = []) :
    r.isEof = false ∧ r.isError = !r.isAgain := by
  cases r with
  | count bytes =>
    rw [show bytes = [] from hb] at hret
    exact absurd hret (by decide)
  | eof => exact absurd hret (by decide)
  | again => exact ⟨rfl, rfl⟩
  | error => exact ⟨rfl, rfl⟩

theorem Result.Fits.length {size : Nat} {r : Result} (h : r.Fits size) : r.bytes.length ≤ size := by
  cases r with
  | count bytes => exact h.2.1
  | eof => exact Nat.zero_le _
  | again => exact Nat.zero_le _
  | error => exact Nat.zero_le _

/-! ## The queue of bytes -/

def fifo (c : Conn) : Fifo UInt8 := ⟨c.put, c.buffer.read c.head (c.tail - c.head)⟩

structure Inv (c : Conn) : Prop where
  order : c.head ≤ c.tail
  fits : c.tail ≤ c.alloced
  small : c.alloced ≤ ptrdiffMax
  /-- The first `::read` comes after a first doubling. -/
  grown : c.alloced = 32 ∧ c.tail = 0 ∨ 64 ≤ c.alloced
  room : c.place = .asking → 64 ≤ c.alloced - c.tail
  bytes : c.fifo.all = c.got

theorem init_inv (junk : Mem UInt8) : Inv (init junk) where
  order := Nat.le_refl 0
  fits := Nat.zero_le 32
  small := show 32 ≤ ptrdiffMax by decide
  grown := Or.inl ⟨rfl, rfl⟩
  room := nofun
  bytes := rfl

theorem toSize_sub {a b : Nat} (h : b ≤ a) (ha : a ≤ ptrdiffMax) : toSize ((a : Int) - b) = a - b := by
  unfold ptrdiffMax at ha
  rw [toSize_of_nonneg (by omega) (by omega)]
  omega

theorem toSize_natCast {a : Nat} (ha : a ≤ 2 * ptrdiffMax) : toSize (a : Int) = a := by
  unfold ptrdiffMax at ha
  rw [toSize_of_nonneg (by omega) (by omega), Int.toNat_natCast]

theorem Inv.space {c : Conn} (hi : Inv c) : c.space = c.alloced - c.tail := toSize_sub hi.fits hi.small

theorem Inv.held {c : Conn} (hi : Inv c) : c.held = c.tail - c.head :=
  toSize_sub hi.order (Nat.le_trans hi.fits hi.small)

/-- Only the place changes, and not to a `::read`. -/
theorem Inv.goTo {c : Conn} (hi : Inv c) {place : Place} (hp : place ≠ .asking) : Inv { c with place := place } :=
  { hi with room := fun h => absurd h hp }

theorem Inv.fail {c : Conn} (hi : Inv c) : Inv { c with error := true, place := .out } := { hi with room := nofun }

/-! ## Making room -/

/-- The buffer has room, is doubled, or has its bytes moved to the front. -/
theorem room_cases {c c' : Conn} {realloc : Option (Mem UInt8)} (hi : Inv c) (h : c.room realloc = some c') :
    64 ≤ c.alloced - c.tail ∧ c' = { c with place := .asking } ∨
    c.alloced - c.tail < 64 ∧ 2 * c.alloced ≤ ptrdiffMax ∧ (∃ fresh : Mem UInt8, c' = { c with
      buffer := fresh.write 0 (c.buffer.read 0 c.alloced), alloced := 2 * c.alloced, place := .asking }) ∨
    128 ≤ c.alloced - (c.tail - c.head) ∧ c' = { c with
      buffer := c.buffer.move 0 c.head (c.tail - c.head), tail := c.tail - c.head, head := 0, place := .asking } := by
  have hfits := hi.fits
  have hfree : toSize (c.alloced - (c.tail - c.head : Nat)) = c.alloced - (c.tail - c.head) :=
    toSize_sub (by omega) hi.small
  have hdouble : toSize (c.alloced * 2) = 2 * c.alloced := by
    rw [show (c.alloced : Int) * 2 = (2 * c.alloced : Nat) by omega]
    exact toSize_natCast (Nat.mul_le_mul_left 2 hi.small)
  unfold Conn.room at h
  rw [hi.space, hi.held, hfree, hdouble] at h
  split at h
  · rename_i hfew
    split at h
    · cases realloc with
      | none => cases h
      | some fresh =>
        dsimp only at h
        split at h
        · cases h
        · rename_i hmax
          exact Or.inr (Or.inl ⟨hfew, Nat.le_of_not_lt hmax, fresh, (Option.some.inj h).symm⟩)
    · rename_i hmuch
      exact Or.inr (Or.inr ⟨by omega, (Option.some.inj h).symm⟩)
  · rename_i hroom
    exact Or.inl ⟨by omega, (Option.some.inj h).symm⟩

theorem room_inv {c c' : Conn} {realloc : Option (Mem UInt8)} (hi : Inv c) (h : c.room realloc = some c') :
    Inv c' := by
  have horder := hi.order
  have hfits := hi.fits
  have hsmall := hi.small
  have hgrown := hi.grown
  rcases room_cases hi h with ⟨hroom, rfl⟩ | ⟨hfew, hmax, fresh, rfl⟩ | ⟨hmuch, rfl⟩
  · exact { hi with room := fun _ => hroom }
  · have hkept : (fresh.write 0 (c.buffer.read 0 c.alloced)).read c.head (c.tail - c.head) =
        c.buffer.read c.head (c.tail - c.head) := by
      rw [Mem.read_eq_iff]
      intro i hlt
      exact Mem.write_read fresh c.buffer (by omega)
    constructor
    case order => exact horder
    case fits => show c.tail ≤ 2 * c.alloced; omega
    case small => exact hmax
    case grown => right; show 64 ≤ 2 * c.alloced; omega
    case room => intro _; show 64 ≤ 2 * c.alloced - c.tail; omega
    case bytes =>
      show c.put ++ Mem.read _ c.head (c.tail - c.head) = c.got
      rw [hkept]
      exact hi.bytes
  · constructor
    case order => exact Nat.zero_le _
    case fits => show c.tail - c.head ≤ c.alloced; omega
    case small => exact hsmall
    case grown => right; show 64 ≤ c.alloced; omega
    case room => intro _; show 64 ≤ c.alloced - (c.tail - c.head); omega
    case bytes =>
      show c.put ++ Mem.read _ 0 (c.tail - c.head - 0) = c.got
      rw [Nat.sub_zero, Mem.read_move_front]
      exact hi.bytes

/-! ## Reading and writing -/

theorem read_failed {c : Conn} {r : Result} (h : wrap 4 r.ret = -1) (hb : r.bytes = []) :
    c.read r = { c with place := .writing } ∨ c.read r = { c with error := true, place := .out } := by
  unfold Conn.read
  rw [h, hb, Mem.write_nil, List.append_nil]
  cases r.isAgain with
  | true => exact Or.inl rfl
  | false => exact Or.inr rfl

theorem read_took {c : Conn} {r : Result} (hi : Inv c) (hr : r.Fits c.space) (h : wrap 4 r.ret = r.bytes.length) :
    ∃ e, c.read r = { c with
      buffer := c.buffer.write c.tail r.bytes, got := c.got ++ r.bytes, readOfEnd := e
      tail := c.tail + r.bytes.length, place := .reading } := by
  have hfits := hi.fits
  have hsmall := hi.small
  have hlen := hr.length
  rw [hi.space] at hlen
  have htail : toSize ((c.tail : Int) + r.bytes.length) = c.tail + r.bytes.length := by
    rw [← Int.natCast_add]
    exact toSize_natCast (by omega)
  unfold Conn.read
  rw [h]
  dsimp only
  rw [if_neg (by omega), htail]
  exact ⟨_, rfl⟩

/-- The flags tell what a `::read` has returned. -/
theorem read_flags {c : Conn} {r : Result} (hr : r.Fits c.space) :
    (c.read r).readOfEnd = (c.readOfEnd || r.isEof) ∧ (c.read r).error = (c.error || r.isError) := by
  rcases hr.ret with hret | ⟨hret, hb⟩
  · obtain ⟨hzero, herror⟩ := hr.ret_eq_zero hret
    unfold Conn.read
    dsimp only
    rw [hzero, herror, hret, if_neg (by omega), Bool.or_false]
    exact ⟨rfl, rfl⟩
  · obtain ⟨hend, herror⟩ := Result.isError_of_failed hret hb
    unfold Conn.read
    rw [hret, hend, herror]
    cases r.isAgain <;> simp

theorem read_inv {c : Conn} {r : Result} (hi : Inv c) (hp : c.place = .asking) (hr : r.Fits c.space) :
    Inv (c.read r) := by
  rcases hr.ret with hret | ⟨hret, hb⟩
  · obtain ⟨e, he⟩ := read_took hi hr hret
    have horder := hi.order
    have hfits := hi.fits
    have hroom := hi.room hp
    have hlen := hr.length
    rw [hi.space] at hlen
    rw [he]
    constructor
    case order => show c.head ≤ c.tail + r.bytes.length; omega
    case fits => show c.tail + r.bytes.length ≤ c.alloced; omega
    case small => exact hi.small
    case grown => right; show 64 ≤ c.alloced; omega
    case room => nofun
    case bytes =>
      show c.put ++ Mem.read _ c.head (c.tail + r.bytes.length - c.head) = c.got ++ r.bytes
      rw [Mem.read_write_next _ _ horder, ← List.append_assoc]
      exact congrArg (· ++ r.bytes) hi.bytes
  · rcases read_failed (c := c) hret hb with he | he
    · rw [he]
      exact hi.goTo nofun
    · rw [he]
      exact hi.fail

theorem write_failed {c : Conn} {r : Result} (h : wrap 4 r.ret = -1) (hb : r.bytes = []) :
    c.write r = { c with place := .out } ∨ c.write r = { c with error := true, place := .out } := by
  unfold Conn.write
  rw [h, hb, List.append_nil]
  cases r.isAgain with
  | true => exact Or.inl rfl
  | false => exact Or.inr rfl

theorem write_took {c : Conn} {r : Result} (hi : Inv c) (hr : r.Fits c.held) (h : wrap 4 r.ret = r.bytes.length) :
    c.write r = { c with put := c.put ++ r.bytes, head := c.head + r.bytes.length, place := .writing } := by
  have horder := hi.order
  have hfits := hi.fits
  have hsmall := hi.small
  have hlen := hr.length
  rw [hi.held] at hlen
  have hhead : toSize ((c.head : Int) + r.bytes.length) = c.head + r.bytes.length := by
    rw [← Int.natCast_add]
    exact toSize_natCast (by omega)
  unfold Conn.write
  rw [h]
  dsimp only
  rw [if_neg (by omega), hhead]

theorem write_flags {c : Conn} {r : Result} (hr : r.Fits c.held) :
    (c.write r).readOfEnd = c.readOfEnd ∧ (c.write r).error = (c.error || r.isError) := by
  rcases hr.ret with hret | ⟨hret, hb⟩
  · obtain ⟨-, herror⟩ := hr.ret_eq_zero hret
    unfold Conn.write
    dsimp only
    rw [herror, hret, if_neg (by omega), Bool.or_false]
    exact ⟨rfl, rfl⟩
  · obtain ⟨-, herror⟩ := Result.isError_of_failed hret hb
    unfold Conn.write
    rw [hret, herror]
    cases r.isAgain <;> simp

/-- What `::write` takes is the front of what is held. -/
theorem Accepts.front {c : Conn} {r : Result} (h : c.Accepts r) : r.bytes = c.buffer.read c.head r.bytes.length := by
  cases r with
  | count bytes => exact h
  | eof => rfl
  | again => rfl
  | error => rfl

theorem write_inv {c : Conn} {r : Result} (hi : Inv c) (hr : r.Fits c.held) (ha : c.Accepts r) : Inv (c.write r) := by
  rcases hr.ret with hret | ⟨hret, hb⟩
  · have hfits := hi.fits
    have horder := hi.order
    have hlen := hr.length
    rw [hi.held] at hlen
    have htake : (c.fifo.take r.bytes.length) =
        ⟨c.put ++ r.bytes, c.buffer.read (c.head + r.bytes.length) (c.tail - (c.head + r.bytes.length))⟩ := by
      rw [Fifo.take, fifo, Mem.take_read _ _ hlen, Mem.drop_read _ _ hlen, ← ha.front, Nat.sub_sub]
    rw [write_took hi hr hret]
    constructor
    case order => show c.head + r.bytes.length ≤ c.tail; omega
    case fits => exact hfits
    case small => exact hi.small
    case grown => exact hi.grown
    case room =>
      intro h
      cases h
    case bytes =>
      show Fifo.all ⟨c.put ++ r.bytes, _⟩ = c.got
      rw [← htake, Fifo.all_take]
      exact hi.bytes
  · rcases write_failed (c := c) hret hb with he | he
    · rw [he]
      exact hi.goTo (by decide)
    · rw [he]
      exact hi.fail

theorem handle_inv {c : Conn} (hi : Inv c) : Inv c.handle := by
  unfold Conn.handle
  split
  · exact hi
  · exact hi.goTo nofun

theorem step_inv (c : Conn) (e : Ev) (c' : Conn) (hi : Inv c) (h : step c e = some c') : Inv c' := by
  cases e with
  | handle =>
    simp only [step] at h
    split at h
    · cases h
      exact handle_inv hi
    · cases h
  | room realloc =>
    simp only [step] at h
    split at h
    · exact room_inv hi h
    · cases h
  | read r =>
    simp only [step] at h
    split at h
    · rename_i hg
      cases h
      exact read_inv hi hg.1 hg.2
    · cases h
  | write r =>
    simp only [step] at h
    split at h
    · rename_i hg
      cases h
      exact write_inv hi hg.2.2.1 hg.2.2.2
    · cases h
  | written =>
    simp only [step] at h
    split at h
    · cases h
      exact hi.goTo nofun
    · cases h

/-- `head` and `tail` stand in order in the buffer, a `::read` asks for at least 32 bytes
    of it behind `tail`, what was written is the first of what was read, and the rest of
    that is held. -/
structure Intact (c : Conn) : Prop where
  order : c.head ≤ c.tail ∧ c.tail ≤ c.alloced
  asks : c.place = .asking → 32 ≤ c.space ∧ c.tail + c.space ≤ c.alloced
  first : c.put <+: c.got
  held : c.buffer.read c.head (c.tail - c.head) = c.got.drop c.put.length

theorem Inv.intact {c : Conn} (hi : Inv c) : Intact c := by
  have hfits := hi.fits
  constructor
  case order => exact ⟨hi.order, hfits⟩
  case asks =>
    intro hp
    have hroom := hi.room hp
    rw [hi.space]
    omega
  case first => exact ⟨_, hi.bytes⟩
  case held =>
    rw [← hi.bytes]
    exact (List.drop_left).symm

/-- Whatever the calls return, the bytes are echoed in order. -/
theorem echo_buffer_intact (junk : Mem UInt8) (es : List Ev) : Always step Intact (init junk) es :=
  (always_of_inv step_inv (init_inv junk)).mono fun _ => Inv.intact

end Conn

end GroupeChat.EchoServer
