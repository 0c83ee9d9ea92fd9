/-
  GroupeChat.ChatServer.CmdSend — a user's send buffer (`CCmdSend`; the stress client's
  `CmdSend` has the same bodies, each under its own lock).

  The command thread appends a packet with `m_copy` at `m_position`, then `setPosition`.
  The I/O thread's `startSend` hands the first `m_position` bytes to `send()`, which
  accepts `nread` of them, lowers `m_position` by `nread` and moves the rest to the
  front. The move carries `nread` bytes, not the `m_position` bytes that are left.

  `Line` puts the buffer between its two ends: the bytes `send()` has accepted and the
  bytes appended so far. As a queue (`Line.view`), an append is a push
  (`view_append`) and a send is a take exactly when the bytes that the move leaves behind
  already equal the ones above them (`view_send_iff`); so the buffer loses nothing over a
  run exactly when every send of it is such (`lossless_iff_carried`), which covers every
  send of at least half of what is buffered (`carried_of_half`).

  `User` is the record of a logged-in user (`CUser`) that has the buffer, as the command
  thread and the I/O thread share it.
-/

import GroupeChat.Base.Fifo
import GroupeChat.Base.Run
import GroupeChat.Proto

namespace GroupeChat.ChatServer

open Base

/-- `CCmdSend`: the cells of `m_sendBuff` past 10240 are whatever memory follows it. -/
structure CmdSend where
  mPosition : Nat
  mSendBuff : Buf

namespace CmdSend

def sendBuffSize : Nat := 10240

def new (junk : Buf) : CmdSend := ⟨0, junk⟩

def setPosition (s : CmdSend) (pos : Nat) : CmdSend := { s with mPosition := s.mPosition + pos }

/-- `m_copy`; the pointer it returns is the offset into `m_sendBuff`. -/
def mCopy (s : CmdSend) (p : Buf) (length : Nat) : CmdSend × Nat :=
  ({ s with mSendBuff := s.mSendBuff.write s.mPosition (p.read 0 length) }, s.mPosition)

/-- `startSend`, where `nread` is what `send()` returned. -/
def startSend (s : CmdSend) (nread : Int) : CmdSend × Int :=
  if nread < 0 then (s, -1)
  else (⟨s.mPosition - nread.toNat, s.mSendBuff.move 0 nread.toNat nread.toNat⟩, nread)

def buffered (s : CmdSend) : List UInt8 := s.mSendBuff.read 0 s.mPosition

end CmdSend

/-! ## The buffer between its two ends -/

structure Line where
  send : CmdSend
  /-- What `send()` has accepted, in order. -/
  sent : List UInt8
  /-- What was appended, in order. -/
  queued : List UInt8

namespace Line

inductive Ev where
  /-- `m_copy` and `setPosition` of a whole packet. -/
  | append (p : Buf) (length : Nat)
  | startSend (nread : Int)

def init (junk : Buf) : Line := ⟨.new junk, [], []⟩

/-- An append stays within the buffer; `send()` fails or accepts part of what it is given. -/
def step (s : Line) : Ev → Option Line
  | .append p length =>
    if s.send.mPosition + length ≤ CmdSend.sendBuffSize then
      some { s with send := (s.send.mCopy p length).1.setPosition length, queued := s.queued ++ p.read 0 length }
    else none
  | .startSend nread =>
    if -1 ≤ nread ∧ nread ≤ s.send.mPosition then
      some { s with send := (s.send.startSend nread).1, sent := s.sent ++ s.send.mSendBuff.read 0 nread.toNat }
    else none

/-- Accepted, then still buffered, is what was appended. -/
def Lossless (s : Line) : Prop := s.sent ++ s.send.buffered = s.queued

instance : DecidablePred Lossless := fun s => inferInstanceAs (Decidable (_ = s.queued))

/-- The bytes of the rest that the move does not reach already equal the ones it should
    have brought there. -/
def Carried (s : Line) : Ev → Prop
  | .append _ _ => True
  | .startSend nread =>
    ∀ i < s.send.mPosition - nread.toNat, nread.toNat ≤ i → s.send.mSendBuff i = s.send.mSendBuff (nread.toNat + i)

def view (s : Line) : Fifo UInt8 := ⟨s.sent, s.send.buffered⟩

theorem lossless_iff (s : Line) : s.Lossless ↔ s.view.all = s.queued := Iff.rfl

/-- An append is a push. -/
theorem view_append {s s' : Line} {p : Buf} {length : Nat} (h : step s (.append p length) = some s') :
    s'.view = s.view.push (p.read 0 length) ∧ s'.queued = s.queued ++ p.read 0 length := by
  simp only [step] at h
  split at h
  · cases h
    have := Mem.read_write_extend s.send.mSendBuff (p.read 0 length) s.send.mPosition
    rw [Mem.read_length] at this
    refine ⟨?_, rfl⟩
    simp only [view, Fifo.push, CmdSend.buffered, CmdSend.mCopy, CmdSend.setPosition, this]
  · cases h

/-- A send takes what `send()` accepted exactly when the rest is carried. -/
theorem view_send_iff {s s' : Line} {nread : Int} (h : step s (.startSend nread) = some s') :
    s'.view.out = (s.view.take nread.toNat).out ∧ s'.queued = s.queued ∧
      (s'.view = s.view.take nread.toNat ↔ Carried s (.startSend nread)) := by
  simp only [step] at h
  split at h
  · rename_i hn
    cases h
    obtain ⟨k, hk⟩ : ∃ k, k = nread.toNat := ⟨_, rfl⟩
    have hle : k ≤ s.send.mPosition := by omega
    have htake : s.send.buffered.take k = s.send.mSendBuff.read 0 k := Mem.take_read _ _ hle
    have hdrop : s.send.buffered.drop k = s.send.mSendBuff.read k (s.send.mPosition - k) := by
      rw [CmdSend.buffered, Mem.drop_read _ _ hle, Nat.zero_add]
    have hrest : (s.send.startSend nread).1.buffered =
        (s.send.mSendBuff.move 0 k k).read 0 (s.send.mPosition - k) := by
      by_cases hneg : nread < 0
      · have hk0 : k = 0 := by omega
        simp [CmdSend.startSend, hneg, CmdSend.buffered, hk0, Mem.move]
      · simp [CmdSend.startSend, hneg, CmdSend.buffered, hk]
    simp only [view, Fifo.take, Carried, ← hk, htake, hdrop, hrest, Fifo.mk.injEq, true_and]
    rw [Mem.move_down_iff]
    constructor <;> intro hc i hi hj
    · exact hc i hj hi
    · exact hc i hj hi
  · cases h

/-- One step keeps the buffer lossless exactly when it carries the rest. -/
theorem step_lossless {s s' : Line} {e : Ev} (hs : s.Lossless) (h : step s e = some s') :
    s'.Lossless ↔ Carried s e := by
  rw [lossless_iff] at *
  cases e with
  | append p length =>
    obtain ⟨hv, hq⟩ := view_append h
    simp [hv, hq, hs, Carried]
  | startSend nread =>
    obtain ⟨ho, hq, hv⟩ := view_send_iff h
    rw [← hv, ← Fifo.all_inj ho, Fifo.all_take, hs, hq]

/-- Over any appends and sends, whatever part of the buffer each `send()` accepts, nothing
    is lost, duplicated or reordered at any point exactly when every send carries the
    bytes it leaves behind. -/
theorem lossless_iff_carried (junk : Buf) (es : List Ev) :
    Always step Lossless (init junk) es ↔ Along step Carried (init junk) es :=
  always_iff_along (I := Lossless) (fun _ h => h)
    (fun _ _ _ hs h => ⟨(step_lossless hs h).mpr, (step_lossless hs h).mp⟩) rfl

/-- Three bytes appended, one accepted: the third is lost and the second sent twice. -/
theorem a_short_send_corrupts :
    ¬ Always step Lossless (init fun _ => 0) [.append (fun i => UInt8.ofNat (i + 1)) 3, .startSend 1] := by
  decide

/-- A send that accepts nothing, or at least half of what is buffered, carries the rest. -/
theorem carried_of_half {s : Line} {nread : Int} (h : nread ≤ 0 ∨ s.send.mPosition ≤ 2 * nread.toNat) :
    Carried s (.startSend nread) := by
  intro i hi hk
  rcases h with h | h
  · rw [Int.toNat_of_nonpos h, Nat.zero_add]
  · omega

end Line

/-! ## A logged-in user -/

abbrev Addr : Type := Nat

structure User where
  mSocket : Int
  mUserId : Int
  deleteFlag1 : Bool
  deleteFlag2 : Bool
  mSend : CmdSend
  mUdpSendList : List Buf
  /-- `m_heart.m_lastTime`. -/
  mLastTime : Int
  clientaddrUdp : Option Addr

namespace User

def new (junk : Buf) (socket userId now : Int) : User :=
  { mSocket := socket
    mUserId := userId
    deleteFlag1 := false
    deleteFlag2 := false
    mSend := .new junk
    mUdpSendList := []
    mLastTime := now
    clientaddrUdp := none }

/-- The I/O thread has deleted it: the sweep may free it. -/
def Deleted (u : User) : Prop := u.deleteFlag1 = true ∧ u.deleteFlag2 = true

instance : DecidablePred Deleted := fun u => inferInstanceAs (Decidable (u.deleteFlag1 = true ∧ u.deleteFlag2 = true))

end User

end GroupeChat.ChatServer
