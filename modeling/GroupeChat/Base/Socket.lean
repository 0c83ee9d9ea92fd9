/-
  GroupeChat.Base.Socket — a connected stream socket in non-blocking mode, as its reader
  sees it.

  The peer's bytes are on the wire until they arrive; `recv` takes some prefix of those
  that have arrived, at most as many as it is asked for, and fails when there are none.
  How much arrives and how much a `recv` takes is the environment's choice: every
  segmentation of the stream is a sequence of such choices. Bytes are neither lost nor
  reordered (`recv_unread`), and a `recv` that has something to take takes at least one
  byte (`recv_pos`).
-/

import GroupeChat.Base.LittleEndian

namespace GroupeChat.Base

structure Sock where
  /-- Arrived, not read. -/
  avail : List UInt8
  /-- Sent by the peer, not arrived. -/
  wire : List UInt8
  /-- The peer sends nothing after `wire`. -/
  closed : Bool

structure Received where
  ret : Int
  bytes : List UInt8
  sock : Sock

/-- A `recv` issued: where in the buffer it may store, how many bytes it may take, how
    many it stored. -/
structure RecvCall where
  off : Int
  size : Nat
  stored : Nat
  deriving DecidableEq

def RecvCall.Inside (cap : Nat) (c : RecvCall) : Prop := 0 ≤ c.off ∧ c.off + c.stored ≤ cap

instance (cap : Nat) : DecidablePred (RecvCall.Inside cap) := fun c =>
  inferInstanceAs (Decidable (0 ≤ c.off ∧ c.off + c.stored ≤ cap))

inductive Status where
  | live
  /-- Given up: no longer among the sockets it looks after. -/
  | dropped
  /-- Given up, and then used. -/
  | faulted
  deriving DecidableEq

namespace Sock

/-- Poll reports the socket readable: bytes have arrived, or no more will come. -/
def Ready (s : Sock) : Prop := s.avail ≠ [] ∨ s.closed ∧ s.wire = []

instance : DecidablePred Ready := fun s => inferInstanceAs (Decidable (s.avail ≠ [] ∨ s.closed ∧ s.wire = []))

def unread (s : Sock) : List UInt8 := s.avail ++ s.wire

def arrive (s : Sock) (n : Nat) : Sock := { s with avail := s.avail ++ s.wire.take n, wire := s.wire.drop n }

def peerSends (s : Sock) (l : List UInt8) : Sock := { s with wire := s.wire ++ l }

/-- `recv` of up to `size` bytes; `n` is how many the kernel would hand over. With nothing
    arrived it fails even if it is asked for none. -/
def recv (s : Sock) (size n : Nat) : Received :=
  if s.avail = [] then ⟨if s.closed && s.wire.isEmpty then 0 else -1, [], s⟩
  else
    let k := min (max n 1) (min size s.avail.length)
    ⟨k, s.avail.take k, { s with avail := s.avail.drop k }⟩

@[simp] theorem arrive_unread (s : Sock) (n : Nat) : (s.arrive n).unread = s.unread := by
  simp [arrive, unread]

@[simp] theorem arrive_closed (s : Sock) (n : Nat) : (s.arrive n).closed = s.closed := rfl

@[simp] theorem peerSends_unread (s : Sock) (l : List UInt8) : (s.peerSends l).unread = s.unread ++ l := by
  simp [peerSends, unread]

theorem arrive_avail_length (s : Sock) (n : Nat) : s.avail.length ≤ (s.arrive n).avail.length := by
  simp [arrive]

theorem recv_unread (s : Sock) (size n : Nat) : (s.recv size n).bytes ++ (s.recv size n).sock.unread = s.unread := by
  unfold recv
  split
  · rfl
  · simp [unread, ← List.append_assoc]

@[simp] theorem recv_closed (s : Sock) (size n : Nat) : (s.recv size n).sock.closed = s.closed := by
  unfold recv
  split <;> rfl

theorem recv_length_le (s : Sock) (size n : Nat) : (s.recv size n).bytes.length ≤ size := by
  unfold recv
  split
  · exact Nat.zero_le _
  · simp only [List.length_take]
    omega

/-- A `recv` that does not fail returns the number of bytes it stored. -/
theorem recv_ret (s : Sock) (size n : Nat) :
    (s.recv size n).ret = (s.recv size n).bytes.length ∨ (s.recv size n).ret = -1 ∧ (s.recv size n).bytes = [] := by
  unfold recv
  split
  · dsimp only
    split
    · exact Or.inl rfl
    · exact Or.inr ⟨rfl, rfl⟩
  · left
    simp only [List.length_take]
    congr 1
    omega

theorem recv_length {s : Sock} {size : Nat} (n : Nat) (h : s.avail ≠ []) :
    (s.recv size n).bytes.length = min (max n 1) (min size s.avail.length) := by
  simp only [recv, h, if_false, List.length_take]
  omega

theorem recv_pos {s : Sock} {size : Nat} (n : Nat) (hsize : size ≠ 0) (h : s.avail ≠ []) :
    0 < (s.recv size n).bytes.length ∧ (s.recv size n).ret = (s.recv size n).bytes.length := by
  have hl := List.length_pos_iff.mpr h
  have hlen : _ = min (max n 1) (min size s.avail.length) := recv_length n h
  refine ⟨by omega, ?_⟩
  rw [hlen]
  simp only [recv, h, if_false]

/-- Asked for `size` bytes with that many there, and willing to hand them over, the kernel does. -/
theorem recv_whole {s : Sock} {size n : Nat} (hsize : size ≠ 0) (hn : size ≤ n) (h : size ≤ s.avail.length) :
    (s.recv size n).bytes = s.avail.take size ∧ (s.recv size n).ret = size ∧
      (s.recv size n).sock = { s with avail := s.avail.drop size } := by
  have hk : min (max n 1) (min size s.avail.length) = size := by omega
  have hne : s.avail ≠ [] := List.ne_nil_of_length_pos (by omega)
  simp [recv, hne, hk]

/-- With nothing arrived and the peer still there, `recv` fails. -/
theorem recv_again {s : Sock} (size n : Nat) (h : s.avail = []) (hc : s.closed = false) :
    (s.recv size n).ret = -1 := by
  simp [recv, h, hc]

end Sock

def toSize (v : Int) : Nat := (v % 2 ^ 64).toNat

theorem toSize_of_nonneg {v : Int} (h : 0 ≤ v) (h' : v < 2 ^ 64) : toSize v = v.toNat := by
  rw [toSize, Int.emod_eq_of_lt h h']

/-- Asking for the `v - k` bytes that follow the first `k` keeps within `cap` bytes
    exactly when `v` does; a smaller `v` asks for nearly all there is. -/
theorem toSize_rest_le_iff {v : Int} {k cap : Nat} (hv : -2147483648 ≤ v) (hv' : v < 2147483648) (hk : k ≤ cap)
    (hcap : cap < 1073741824) : k + toSize (wrap 4 (v - k)) ≤ cap ↔ (k : Int) ≤ v ∧ v ≤ cap := by
  have hw : wrap 4 (v - k) = if -2147483648 ≤ v - k then v - k else v - k + 4294967296 := by
    rw [wrap_eq_bmod]
    refine (Int.bmod_eq_iff (by decide)).mpr ?_
    split
    · exact ⟨by norm_num; omega, by norm_num; omega, by simp⟩
    · refine ⟨by norm_num; omega, by norm_num; omega, ?_⟩
      simp
  rw [hw, toSize]
  split <;> omega

end GroupeChat.Base
