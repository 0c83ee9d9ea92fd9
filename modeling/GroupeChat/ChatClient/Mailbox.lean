/-
  GroupeChat.ChatClient.Mailbox — how the client's threads hand a packet to be sent to the
  I/O thread (`CmdModel::printCmdIdList`, `CmdModel::returnYesorNo`, the send branch of
  `IOModel::Start`).

  There is one `sendbuff`, one remaining length and one flag. The menu thread and the
  message thread each take a new buffer (`get_send`), fill it and raise the flag, and look
  at nothing first; the menu thread raises it after every key, also one for which it
  prepared nothing. The I/O thread, once it has seen the flag, sends what `sendbuff` and
  the length then say, deletes the buffer and lowers the flag.

  `Mailbox` is the three threads statement by statement. `Delivered`: what has been sent
  is the packets prepared, in order, and all of them whenever nothing is under way; each
  buffer is deleted once, and none is sent or deleted that is gone. It holds all along
  every run in which each buffer is taken once the one before is deleted, the flag is
  raised for a packet when it is down and for nothing only when it is up, key 4 is not
  typed, and file names fit `UserData::filename`, where key 3 copies them to
  (`delivered_of_orderly`). Key 4 prepares no buffer
  (`a_quit_deletes_the_registration`).
-/

import GroupeChat.Base.CString
import GroupeChat.Base.Run
import GroupeChat.Proto
import Mathlib.Logic.Function.Basic

namespace GroupeChat.ChatClient

open Base

def versionOff : Nat := 12
def msgOff : Nat := 20
def msgSize : Nat := 1024

inductive Stmt where
  /-- `get_send()`; `junk` is what the new buffer holds. -/
  | getSend (junk : Buf)
  /-- `m_MsgSend = sendbuff`. -/
  | setMsgSend
  /-- A store through `m_MsgSend` to an int field. -/
  | storeInt (off : Nat) (v : Int)
  /-- A string into `m_MsgSend->msg`. -/
  | storeMsg (msg : List UInt8)
  /-- `head.length = 16 + 4 + strlen(msg) + 1`. -/
  | setLength
  /-- `remainLengthofSend = head.length`. -/
  | setRemain
  /-- `sendFileToClientId = m_MsgSend->sayToClientId`. -/
  | setSendTo
  /-- `strcpy(filename, m_MsgSend->msg)`. -/
  | storeFilename
  /-- `haveSendFlag = 1`. -/
  | raise

/-- `m_MsgSend->msg`, as a string. -/
def msgText (m : Buf) : List UInt8 := cstr (m.read msgOff (Proto.packSize - msgOff))

/-- What a statement does to the buffer behind `m_MsgSend`. -/
def Stmt.apply (m : Buf) : Stmt → Buf
  | .storeInt off v => m.putInt 4 off v
  | .storeMsg msg => m.strcpy msgOff msg
  | .setLength => m.putInt 4 8 (16 + 4 + (msgText m).length + 1)
  | _ => m

/-- Whether the thread has a buffer in hand after the statement. -/
def Stmt.making (made : Bool) : Stmt → Bool
  | .getSend _ => true
  | .raise => false
  | _ => made

inductive Key where
  | one (msg : List UInt8) (sayToClientId : Int)
  | two (msg : List UInt8)
  | three (filename : List UInt8) (sayToClientId : Int)
  | four
  | other
  deriving DecidableEq

def Key.Fits : Key → Prop
  | .one msg _ => msg.length < msgSize
  | .two msg => msg.length < msgSize
  | .three filename _ => filename.length < UserData.filenameSize
  | _ => True

/-- Up to the text and its length the three messages are prepared alike. -/
def beginMsg (userId : Int) (junk : Buf) (msg : List UInt8) : List Stmt :=
  [.getSend junk, .setMsgSend, .storeMsg msg, .storeInt versionOff 1, .storeInt 4 userId, .setLength, .setRemain]

/-- `printCmdIdList`, and the flag after it. -/
def printCmdIdList (userId : Int) (junk : Buf) : Key → List Stmt
  | .one msg sayToClientId =>
    beginMsg userId junk msg ++ [.storeInt Proto.peerOff sayToClientId, .storeInt 0 CmdId.sendToOne.code, .raise]
  | .two msg => beginMsg userId junk msg ++ [.storeInt 0 CmdId.sendToOthers.code, .raise]
  | .three filename sayToClientId =>
    beginMsg userId junk filename ++
      [.storeInt Proto.peerOff sayToClientId, .storeInt 0 CmdId.sendFileName.code, .setSendTo, .storeFilename, .raise]
  | .four => [.storeInt 0 CmdId.quit.code, .raise]
  | .other => [.raise]

def returnYesorNo (userId : Int) (junk : Buf) (ret : List UInt8) (toWhichId : Int) : List Stmt :=
  [.getSend junk, .setMsgSend, .storeMsg ret, .storeInt versionOff 1, .storeInt Proto.peerOff toWhichId,
    .storeInt 0 CmdId.fileRet.code, .storeInt 4 userId, .storeInt 8 (16 + 4 + 1 + 1), .setRemain, .raise]

/-- Where the I/O thread is in its send branch. -/
inductive SendBranch where
  | out
  /-- The flag was seen: the loop looks at the remaining length. -/
  | test
  | send
  /-- `send()` has returned `nread`. -/
  | sent (nread : Nat)
  /-- `lengthHasSend += nread` is done. -/
  | added (nread : Nat)
  | delete
  /-- The buffer is deleted. -/
  | reset
  /-- `lengthHasSend = 0` is done. -/
  | lower
  deriving DecidableEq

structure Preparer where
  /-- What it still has to do. -/
  todo : List Stmt
  /-- It has called `get_send` and not yet raised the flag. -/
  made : Bool

inductive Side where
  | menu
  | message
  deriving DecidableEq

def Side.other : Side → Side
  | .menu => .message
  | .message => .menu

structure Mailbox where
  userId : Int
  /-- The buffers that `get_send` gave, in order. -/
  mem : Nat → Buf
  /-- The last of them. -/
  sendbuff : Nat
  mMsgSend : Nat
  remainLengthofSend : Int
  lengthHasSend : Nat
  haveSendFlag : Bool
  sendFileToClientId : Int
  filename : Buf
  thread : Side → Preparer
  io : SendBranch
  deleted : List Nat
  /-- The packets that were prepared, in order. -/
  prepared : List (List UInt8)
  /-- What `send()` has accepted. -/
  sent : List UInt8
  /-- A buffer was sent or deleted that was deleted before, or `filename` was overrun. -/
  strayed : Bool

namespace Mailbox

inductive Ev where
  /-- The menu thread reads a key. -/
  | key (k : Key) (junk : Buf)
  /-- The message thread answers the offer of a file. -/
  | answer (ret : List UInt8) (toWhichId : Int) (junk : Buf)
  /-- The next statement of one of the two. -/
  | run (who : Side)
  /-- The next statement of the I/O thread; its `send()` accepts `nread` bytes. -/
  | io (nread : Nat)

/-- After `udpSendRegister`, whose buffer the UDP sender deletes; `remain`, `sendTo` and
    `filename` are what their memory held. -/
def init (userId : Int) (register : Buf) (remain sendTo : Int) (filename : Buf) : Mailbox :=
  { userId := userId
    mem := fun _ => register
    sendbuff := 0
    mMsgSend := 0
    remainLengthofSend := remain
    lengthHasSend := 0
    haveSendFlag := false
    sendFileToClientId := sendTo
    filename := filename
    thread := fun _ => ⟨[], false⟩
    io := .out
    deleted := [0]
    prepared := []
    sent := []
    strayed := false }

def packet (m : Buf) : List UInt8 := m.read 0 (Proto.length m).toNat

def draft (m : Buf) (todo : List Stmt) : Buf := todo.foldl Stmt.apply m

def touch (s : Mailbox) : Mailbox := { s with strayed := s.strayed || decide (s.sendbuff ∈ s.deleted) }

def exec (s : Mailbox) (stmt : Stmt) (rest : List Stmt) : Mailbox :=
  match stmt with
  | .getSend junk =>
    { s with
      mem := Function.update s.mem (s.sendbuff + 1) junk
      sendbuff := s.sendbuff + 1
      prepared := s.prepared ++ [packet (draft junk rest)] }
  | .setMsgSend => { s with mMsgSend := s.sendbuff }
  | .setRemain => { s with remainLengthofSend := Proto.length (s.mem s.mMsgSend) }
  | .setSendTo => { s with sendFileToClientId := Proto.peerId (s.mem s.mMsgSend) }
  | .storeFilename =>
    let text := msgText (s.mem s.mMsgSend)
    { s with
      filename := s.filename.strcpy 0 text
      strayed := s.strayed || decide (UserData.filenameSize ≤ text.length) }
  | .raise => { s with haveSendFlag := true }
  | stmt => { s with mem := Function.update s.mem s.mMsgSend (stmt.apply (s.mem s.mMsgSend)) }

def setThread (s : Mailbox) (who : Side) (t : Preparer) : Mailbox := { s with thread := Function.update s.thread who t }

def sendBranch (s : Mailbox) (nread : Nat) : Option Mailbox :=
  match s.io with
  | .out => if s.haveSendFlag then some { s with io := .test } else none
  | .test => some { s with io := if 0 < s.remainLengthofSend then .send else .delete }
  | .send =>
    if 0 < nread ∧ (nread : Int) ≤ s.remainLengthofSend then
      some { s.touch with sent := s.sent ++ (s.mem s.sendbuff).read s.lengthHasSend nread, io := .sent nread }
    else none
  | .sent nread => some { s with lengthHasSend := s.lengthHasSend + nread, io := .added nread }
  | .added nread => some { s with remainLengthofSend := s.remainLengthofSend - nread, io := .test }
  | .delete => some { s.touch with deleted := s.deleted ++ [s.sendbuff], io := .reset }
  | .reset => some { s with lengthHasSend := 0, io := .lower }
  | .lower => some { s with haveSendFlag := false, io := .out }

def step (s : Mailbox) : Ev → Option Mailbox
  | .key k junk =>
    match (s.thread .menu).todo with
    | [] =>
      let s := s.setThread .menu ⟨printCmdIdList s.userId junk k, false⟩
      some (match k with
        | .four => { s with prepared := s.prepared ++ [packet ((s.mem s.mMsgSend).putInt 4 0 CmdId.quit.code)] }
        | _ => s)
    | _ => none
  | .answer ret toWhichId junk =>
    match (s.thread .message).todo with
    | [] => some (s.setThread .message ⟨returnYesorNo s.userId junk ret toWhichId, false⟩)
    | _ => none
  | .run who =>
    match (s.thread who).todo with
    | [] => none
    | stmt :: rest => some ((s.exec stmt rest).setThread who ⟨rest, stmt.making (s.thread who).made⟩)
  | .io nread => s.sendBranch nread

def Settled (s : Mailbox) : Prop := (∀ who, (s.thread who).todo = []) ∧ s.io = .out ∧ s.haveSendFlag = false

structure Delivered (s : Mailbox) : Prop where
  inOrder : s.sent <+: s.prepared.flatten
  whole : s.Settled → s.sent = s.prepared.flatten
  once : s.deleted.Nodup
  freed : s.Settled → ∀ p ≤ s.sendbuff, p ∈ s.deleted
  strayed : s.strayed = false

/-- Key 4 is not typed, and texts fit. A buffer is taken when the one before is deleted;
    the flag is raised for a buffer when it is down, and without one when it is up. -/
def Orderly (s : Mailbox) : Ev → Prop
  | .key k _ => k ≠ .four ∧ k.Fits
  | .answer _ _ _ => True
  | .run who =>
    match (s.thread who).todo with
    | .getSend _ :: _ => s.sendbuff ∈ s.deleted
    | .raise :: _ => s.haveSendFlag = !(s.thread who).made
    | _ => True
  | .io _ => True

instance : DecidablePred Key.Fits
  | .one msg _ => inferInstanceAs (Decidable (msg.length < msgSize))
  | .two msg => inferInstanceAs (Decidable (msg.length < msgSize))
  | .three filename _ => inferInstanceAs (Decidable (filename.length < UserData.filenameSize))
  | .four | .other => inferInstanceAs (Decidable True)

instance (s : Mailbox) : (e : Ev) → Decidable (Orderly s e)
  | .key k _ => inferInstanceAs (Decidable (k ≠ .four ∧ k.Fits))
  | .answer _ _ _ | .io _ => inferInstanceAs (Decidable True)
  | .run who =>
    match h : (s.thread who).todo with
    | .getSend _ :: _ => decidable_of_iff (s.sendbuff ∈ s.deleted) (by simp [Orderly, h])
    | .raise :: _ => decidable_of_iff (s.haveSendFlag = !(s.thread who).made) (by simp [Orderly, h])
    | [] => isTrue (by simp [Orderly, h])
    | .setMsgSend :: _ | .storeInt _ _ :: _ | .storeMsg _ :: _ | .setLength :: _ | .setRemain :: _ |
      .setSendTo :: _ | .storeFilename :: _ => isTrue (by simp [Orderly, h])

/-! ## How far a preparation is -/

end Mailbox

def Stmt.Fills : Stmt → Prop
  | .storeInt _ _ => True
  | .storeMsg _ => True
  | .setLength => True
  | _ => False

/-- What may come after it: a store off the length and the text, or a note of the file. -/
def Stmt.Late : Stmt → Prop
  | .storeInt off _ => (off + 4 ≤ 8 ∨ 12 ≤ off) ∧ off + 4 ≤ msgOff
  | .setSendTo => True
  | .storeFilename => True
  | _ => False

def Named (m : Buf) (after : List Stmt) : Prop :=
  .storeFilename ∈ after → (msgText m).length < UserData.filenameSize

inductive Waiting : Preparer → Prop where
  | idle : Waiting ⟨[], false⟩
  | other : Waiting ⟨[.raise], false⟩
  | start (junk : Buf) {before after : List Stmt} (hb : ∀ st ∈ before, st.Fills) (ha : ∀ st ∈ after, st.Late)
      (hn : Named (Mailbox.draft junk before) after) :
      Waiting ⟨.getSend junk :: .setMsgSend :: (before ++ .setRemain :: (after ++ [.raise])), false⟩

/-- A thread that is filling the buffer `m`; `own` says that `m_MsgSend` points to it. -/
inductive Making (m : Buf) (own : Prop) (remain : Int) : Preparer → Prop where
  | pointer {before after : List Stmt} (hb : ∀ st ∈ before, st.Fills) (ha : ∀ st ∈ after, st.Late)
      (hn : Named (Mailbox.draft m before) after) :
      Making m own remain ⟨.setMsgSend :: (before ++ .setRemain :: (after ++ [.raise])), true⟩
  | filling {before after : List Stmt} (hb : ∀ st ∈ before, st.Fills) (ha : ∀ st ∈ after, st.Late)
      (hn : Named (Mailbox.draft m before) after) (ho : own) :
      Making m own remain ⟨before ++ .setRemain :: (after ++ [.raise]), true⟩
  | measured {after : List Stmt} (ha : ∀ st ∈ after, st.Late) (hn : Named m after) (ho : own)
      (hr : remain = Proto.length m) : Making m own remain ⟨after ++ [.raise], true⟩

inductive Outside : SendBranch → Bool → Nat → Prop where
  | out : Outside .out false 0
  | reset (lengthHasSend : Nat) : Outside .reset true lengthHasSend
  | lower : Outside .lower true 0

/-- How far the I/O thread has got with the packet in `m`: what it has sent of it. -/
def Sending (m : Buf) (remain : Int) (has : Nat) (got : List UInt8) : SendBranch → Prop
  | .out => has + remain = Proto.length m ∧ (has = 0 ∨ 0 ≤ remain) ∧ got = m.read 0 has
  | .test => has + remain = Proto.length m ∧ (has = 0 ∨ 0 ≤ remain) ∧ got = m.read 0 has
  | .send => has + remain = Proto.length m ∧ (has = 0 ∨ 0 ≤ remain) ∧ got = m.read 0 has
  | .sent nread => has + remain = Proto.length m ∧ (nread : Int) ≤ remain ∧ got = m.read 0 (has + nread)
  | .added nread => has + remain = Proto.length m + nread ∧ (nread : Int) ≤ remain ∧ got = m.read 0 has
  | .delete => got = Mailbox.packet m
  | .reset => False
  | .lower => False

theorem Stmt.length_late {m : Buf} {st : Stmt} (h : st.Late) : Proto.length (st.apply m) = Proto.length m := by
  cases st with
  | storeInt off v => exact Mem.getInt_putInt_ne m v (by have := h.1; omega)
  | setSendTo => rfl
  | storeFilename => rfl
  | _ => cases h

theorem msgText_putInt (m : Buf) {off : Nat} (v : Int) (h : off + 4 ≤ msgOff) :
    msgText (m.putInt 4 off v) = msgText m := by
  rw [msgText, Mem.read_putInt_above 4 m v _ h, msgText]

theorem Stmt.msgText_late {m : Buf} {st : Stmt} (h : st.Late) : msgText (st.apply m) = msgText m := by
  cases st with
  | storeInt off v => exact msgText_putInt m v h.2
  | setSendTo => rfl
  | storeFilename => rfl
  | _ => cases h

theorem beginMsg_fills (userId : Int) (msg : List UInt8) :
    ∀ st ∈ [Stmt.storeMsg msg, .storeInt versionOff 1, .storeInt 4 userId, .setLength], st.Fills := by
  intro st hst
  simp only [List.mem_cons, List.not_mem_nil, or_false] at hst
  rcases hst with rfl | rfl | rfl | rfl
  · trivial
  · trivial
  · trivial
  · trivial

/-- What the three messages leave as text. -/
theorem beginMsg_named (userId : Int) (junk : Buf) {msg : List UInt8} (h : msg.length < UserData.filenameSize)
    (after : List Stmt) :
    Named (Mailbox.draft junk [.storeMsg msg, .storeInt versionOff 1, .storeInt 4 userId, .setLength]) after := by
  intro _
  simp (disch := decide) only [Mailbox.draft, List.foldl_cons, List.foldl_nil, Stmt.apply, msgText_putInt]
  exact Nat.lt_of_le_of_lt (cstr_read_strcpy_le junk msgOff _ msg) h

theorem named_of_not_mem {m : Buf} {after : List Stmt} (h : .storeFilename ∉ after) : Named m after :=
  fun hmem => absurd hmem h

theorem peer_late (sayToClientId : Int) : (Stmt.storeInt Proto.peerOff sayToClientId).Late :=
  ⟨Or.inr (by decide), by decide⟩

theorem cmdId_late (code : Int) : (Stmt.storeInt 0 code).Late := ⟨Or.inl (by decide), by decide⟩

theorem printCmdIdList_waiting {userId : Int} {junk : Buf} {k : Key} (h : k ≠ .four) (hfits : k.Fits) :
    Waiting ⟨printCmdIdList userId junk k, false⟩ := by
  cases k with
  | one msg sayToClientId =>
    have hlate : ∀ st ∈ [Stmt.storeInt Proto.peerOff sayToClientId, .storeInt 0 CmdId.sendToOne.code], st.Late := by
      intro st hst
      simp only [List.mem_cons, List.not_mem_nil, or_false] at hst
      rcases hst with rfl | rfl
      · exact peer_late sayToClientId
      · exact cmdId_late _
    exact .start junk (beginMsg_fills userId msg) hlate (named_of_not_mem (by simp))
  | two msg =>
    have hlate : ∀ st ∈ [Stmt.storeInt 0 CmdId.sendToOthers.code], st.Late := by
      intro st hst
      obtain rfl := List.mem_singleton.mp hst
      exact cmdId_late _
    exact .start junk (beginMsg_fills userId msg) hlate (named_of_not_mem (by simp))
  | three filename sayToClientId =>
    have hlate : ∀ st ∈ [Stmt.storeInt Proto.peerOff sayToClientId, .storeInt 0 CmdId.sendFileName.code, .setSendTo,
        .storeFilename], st.Late := by
      intro st hst
      simp only [List.mem_cons, List.not_mem_nil, or_false] at hst
      rcases hst with rfl | rfl | rfl | rfl
      · exact peer_late sayToClientId
      · exact cmdId_late _
      · trivial
      · trivial
    exact .start junk (beginMsg_fills userId filename) hlate (beginMsg_named userId junk hfits _)
  | four => exact absurd rfl h
  | other => exact .other

theorem returnYesorNo_waiting (userId : Int) (junk : Buf) (ret : List UInt8) (toWhichId : Int) :
    Waiting ⟨returnYesorNo userId junk ret toWhichId, false⟩ := by
  have hfills : ∀ st ∈ [Stmt.storeMsg ret, .storeInt versionOff 1, .storeInt Proto.peerOff toWhichId,
      .storeInt 0 CmdId.fileRet.code, .storeInt 4 userId, .storeInt 8 (16 + 4 + 1 + 1)], st.Fills := by
    intro st hst
    simp only [List.mem_cons, List.not_mem_nil, or_false] at hst
    rcases hst with rfl | rfl | rfl | rfl | rfl | rfl
    · trivial
    · trivial
    · trivial
    · trivial
    · trivial
    · trivial
  have hlate : ∀ st ∈ ([] : List Stmt), st.Late := fun st hst => absurd hst List.not_mem_nil
  exact .start junk hfills hlate (named_of_not_mem List.not_mem_nil)

namespace Mailbox

/-! ## The invariant -/

/-- Nothing is prepared and unsent; or one thread has a buffer in hand; or one is on its
    way. -/
inductive Stage (s : Mailbox) : Prop where
  | free (hdel : s.sendbuff ∈ s.deleted) (hwait : ∀ who, Waiting (s.thread who))
      (hio : Outside s.io s.haveSendFlag s.lengthHasSend) (hsent : s.sent = s.prepared.flatten)
  | making (who : Side) (pre : List (List UInt8)) (hdel : s.sendbuff ∉ s.deleted)
      (hmake : Making (s.mem s.sendbuff) (s.mMsgSend = s.sendbuff) s.remainLengthofSend (s.thread who))
      (hwait : Waiting (s.thread who.other)) (hio : Outside s.io s.haveSendFlag s.lengthHasSend)
      (hprep : s.prepared = pre ++ [packet (draft (s.mem s.sendbuff) (s.thread who).todo)])
      (hsent : s.sent = pre.flatten)
  | pending (pre : List (List UInt8)) (got : List UInt8) (hdel : s.sendbuff ∉ s.deleted)
      (hwait : ∀ who, Waiting (s.thread who)) (hflag : s.haveSendFlag = true)
      (hio : Sending (s.mem s.sendbuff) s.remainLengthofSend s.lengthHasSend got s.io)
      (hprep : s.prepared = pre ++ [packet (s.mem s.sendbuff)]) (hsent : s.sent = pre.flatten ++ got)

structure Inv (s : Mailbox) : Prop where
  stage : Stage s
  once : s.deleted.Nodup
  below : ∀ p ∈ s.deleted, p ≤ s.sendbuff
  freed : ∀ p < s.sendbuff, p ∈ s.deleted
  strayed : s.strayed = false

theorem init_inv (userId : Int) (register : Buf) (remain sendTo : Int) (filename : Buf) :
    Inv (init userId register remain sendTo filename) where
  stage := .free (List.mem_singleton_self 0) (fun _ => .idle) .out rfl
  once := by simp [init]
  below p hp := by
    rw [List.mem_singleton.mp hp]
    exact Nat.le_refl 0
  freed p hp := absurd hp (Nat.not_lt_zero p)
  strayed := rfl

/-- A packet on its way is in part what was sent. -/
theorem sending_starts {m : Buf} {remain : Int} {has : Nat} {got : List UInt8} {io : SendBranch}
    (h : Sending m remain has got io) : got <+: packet m := by
  have hread : ∀ k : Nat, (k : Int) ≤ Proto.length m ∨ k = 0 → m.read 0 k <+: packet m := by
    intro k hk
    unfold packet
    rw [← Mem.take_read m 0 (show k ≤ (Proto.length m).toNat by omega)]
    exact List.take_prefix _ _
  cases io with
  | out => exact h.2.2 ▸ hread has (by have := h.1; have := h.2.1; omega)
  | test => exact h.2.2 ▸ hread has (by have := h.1; have := h.2.1; omega)
  | send => exact h.2.2 ▸ hread has (by have := h.1; have := h.2.1; omega)
  | sent nread => exact h.2.2 ▸ hread (has + nread) (by have := h.1; have := h.2.1; omega)
  | added nread => exact h.2.2 ▸ hread has (by have := h.1; have := h.2.1; omega)
  | delete => exact h ▸ List.prefix_rfl
  | reset => exact h.elim
  | lower => exact h.elim

theorem making_todo {m : Buf} {own : Prop} {remain : Int} {t : Preparer} (h : Making m own remain t) :
    t.todo ≠ [] ∧ t.made = true := by
  cases h with
  | pointer => exact ⟨nofun, rfl⟩
  | filling => exact ⟨by simp, rfl⟩
  | measured => exact ⟨by simp, rfl⟩

theorem waiting_made {t : Preparer} (h : Waiting t) : t.made = false := by
  cases h with
  | idle => rfl
  | other => rfl
  | start => rfl

theorem Inv.delivered {s : Mailbox} (hi : Inv s) : Delivered s := by
  have hfreed : s.sendbuff ∈ s.deleted → ∀ p ≤ s.sendbuff, p ∈ s.deleted := by
    intro hdel p hp
    rcases Nat.lt_or_eq_of_le hp with hlt | rfl
    · exact hi.freed p hlt
    · exact hdel
  cases hi.stage with
  | free hdel hwait hio hsent =>
    exact ⟨hsent ▸ List.prefix_rfl, fun _ => hsent, hi.once, fun _ => hfreed hdel, hi.strayed⟩
  | making who pre hdel hmake hwait hio hprep hsent =>
    have hbusy : ¬ s.Settled := fun h => (making_todo hmake).1 (h.1 who)
    refine ⟨?_, fun h => absurd h hbusy, hi.once, fun h => absurd h hbusy, hi.strayed⟩
    rw [hprep, hsent, List.flatten_append]
    exact List.prefix_append _ _
  | pending pre got hdel hwait hflag hio hprep hsent =>
    have hbusy : ¬ s.Settled := fun h => by
      have := h.2.2
      rw [hflag] at this
      cases this
    refine ⟨?_, fun h => absurd h hbusy, hi.once, fun h => absurd h hbusy, hi.strayed⟩
    rw [hprep, hsent, List.flatten_append]
    simpa using sending_starts hio

/-! ## The I/O thread -/

/-- Outside its loop it touches no buffer. -/
theorem sendBranch_outside {s s' : Mailbox} {nread : Nat} (ho : Outside s.io s.haveSendFlag s.lengthHasSend)
    (h : s.sendBranch nread = some s') :
    Outside s'.io s'.haveSendFlag s'.lengthHasSend ∧
      s' = { s with lengthHasSend := s'.lengthHasSend, haveSendFlag := s'.haveSendFlag, io := s'.io } := by
  generalize hio : s.io = io at ho
  generalize hflag : s.haveSendFlag = flag at ho
  generalize hhas : s.lengthHasSend = has at ho
  unfold sendBranch at h
  rw [hio] at h
  cases ho with
  | out =>
    dsimp only at h
    rw [hflag] at h
    cases h
  | reset =>
    obtain rfl := Option.some.inj h
    dsimp only
    rw [hflag]
    exact ⟨.lower, rfl⟩
  | lower =>
    obtain rfl := Option.some.inj h
    dsimp only
    rw [hhas]
    exact ⟨.out, rfl⟩

/-- What a statement of the send branch does with the packet in the buffer. -/
theorem sendBranch_sending {s s' : Mailbox} {nread : Nat} {got : List UInt8} (hdel : s.sendbuff ∉ s.deleted)
    (hs : Sending (s.mem s.sendbuff) s.remainLengthofSend s.lengthHasSend got s.io)
    (h : s.sendBranch nread = some s') :
    (∃ more, Sending (s.mem s.sendbuff) s'.remainLengthofSend s'.lengthHasSend (got ++ more) s'.io ∧
        s' = { s with
          remainLengthofSend := s'.remainLengthofSend
          lengthHasSend := s'.lengthHasSend
          io := s'.io
          sent := s.sent ++ more }) ∨
      s.io = .delete ∧ s' = { s with deleted := s.deleted ++ [s.sendbuff], io := .reset } := by
  have htouch : s.touch = s := by simp [touch, hdel]
  generalize hio : s.io = io at hs
  unfold sendBranch at h
  rw [hio] at h
  cases io with
  | out =>
    dsimp only at h
    split at h
    · obtain rfl := Option.some.inj h
      refine Or.inl ⟨[], ?_, by simp⟩
      rw [List.append_nil]
      exact hs
    · cases h
  | test =>
    obtain rfl := Option.some.inj h
    refine Or.inl ⟨[], ?_, by simp⟩
    rw [List.append_nil]
    obtain ⟨hsum, hhas, hgot⟩ := hs
    by_cases hleft : 0 < s.remainLengthofSend
    · dsimp only
      rw [if_pos hleft]
      exact ⟨hsum, hhas, hgot⟩
    · -- nothing is left
      dsimp only
      rw [if_neg hleft]
      show got = packet (s.mem s.sendbuff)
      have hlen : s.lengthHasSend = (Proto.length (s.mem s.sendbuff)).toNat := by omega
      rw [hgot, packet, hlen]
  | send =>
    dsimp only at h
    split at h
    · rename_i hn
      rw [htouch] at h
      obtain rfl := Option.some.inj h
      obtain ⟨hsum, hhas, hgot⟩ := hs
      refine Or.inl ⟨_, ⟨hsum, hn.2, ?_⟩, rfl⟩
      rw [hgot, Mem.read_append, Nat.zero_add]
    · cases h
  | sent n =>
    obtain rfl := Option.some.inj h
    obtain ⟨hsum, hn, hgot⟩ := hs
    refine Or.inl ⟨[], ⟨?_, hn, ?_⟩, by simp⟩
    · push_cast
      omega
    · rw [List.append_nil]
      exact hgot
  | added n =>
    obtain rfl := Option.some.inj h
    obtain ⟨hsum, hn, hgot⟩ := hs
    refine Or.inl ⟨[], ⟨?_, Or.inr ?_, ?_⟩, by simp⟩
    · dsimp only
      omega
    · dsimp only
      omega
    · rw [List.append_nil]
      exact hgot
  | delete =>
    rw [htouch] at h
    obtain rfl := Option.some.inj h
    exact Or.inr ⟨rfl, rfl⟩
  | reset => exact hs.elim
  | lower => exact hs.elim

theorem io_inv {s s' : Mailbox} {nread : Nat} (hi : Inv s) (h : s.sendBranch nread = some s') : Inv s' := by
  cases hi.stage with
  | free hdel hwait hio hsent =>
    obtain ⟨hio', heq⟩ := sendBranch_outside hio h
    rw [heq] at hio' ⊢
    exact ⟨.free hdel hwait hio' hsent, hi.once, hi.below, hi.freed, hi.strayed⟩
  | making who pre hdel hmake hwait hio hprep hsent =>
    obtain ⟨hio', heq⟩ := sendBranch_outside hio h
    rw [heq] at hio' ⊢
    exact ⟨.making who pre hdel hmake hwait hio' hprep hsent, hi.once, hi.below, hi.freed, hi.strayed⟩
  | pending pre got hdel hwait hflag hio hprep hsent =>
    rcases sendBranch_sending hdel hio h with ⟨more, hio', heq⟩ | ⟨hd, heq⟩
    · rw [heq] at hio' ⊢
      refine ⟨.pending pre (got ++ more) hdel hwait hflag hio' hprep ?_, hi.once, hi.below, hi.freed, hi.strayed⟩
      dsimp only
      rw [hsent, List.append_assoc]
    · rw [heq]
      rw [hd] at hio
      refine ⟨.free ?_ hwait ?_ ?_, ?_, ?_, ?_, hi.strayed⟩
      · exact List.mem_append_right _ (List.mem_singleton_self _)
      · dsimp only
        rw [hflag]
        exact .reset _
      · dsimp only
        rw [hsent, hprep, hio, List.flatten_append]
        simp
      · refine List.nodup_append.mpr ⟨hi.once, by simp, fun p hp q hq heq => ?_⟩
        rw [List.mem_singleton.mp hq] at heq
        exact hdel (heq ▸ hp)
      · intro p hp
        rcases List.mem_append.mp hp with hp | hp
        · exact hi.below p hp
        · rw [List.mem_singleton.mp hp]
      · intro p hp
        exact List.mem_append_left _ (hi.freed p hp)

/-! ## The threads that prepare -/

@[simp] theorem setThread_same (s : Mailbox) (who : Side) (t : Preparer) : (s.setThread who t).thread who = t := by
  simp [setThread]

theorem setThread_ne (s : Mailbox) {who side : Side} (t : Preparer) (h : side ≠ who) :
    (s.setThread who t).thread side = s.thread side := by
  simp [setThread, h]

theorem other_ne (who : Side) : who.other ≠ who := by
  cases who
  · decide
  · decide

theorem ne_iff_other {side who : Side} : side ≠ who ↔ side = who.other := by
  cases side
  · cases who
    · decide
    · decide
  · cases who
    · decide
    · decide

/-- A thread that has no buffer in hand comes to another such place. -/
theorem Stage.wait {s : Mailbox} {who : Side} {t : Preparer} (hs : Stage s) (hw : Waiting (s.thread who))
    (ht : Waiting t) : Stage (s.setThread who t) := by
  have hall : (∀ side, Waiting (s.thread side)) → ∀ side, Waiting ((s.setThread who t).thread side) := by
    intro h side
    by_cases hside : side = who
    · rw [hside, setThread_same]
      exact ht
    · rw [setThread_ne s t hside]
      exact h side
  cases hs with
  | free hdel hwait hio hsent => exact .free hdel (hall hwait) hio hsent
  | pending pre got hdel hwait hflag hio hprep hsent => exact .pending pre got hdel (hall hwait) hflag hio hprep hsent
  | making side pre hdel hmake hwait hio hprep hsent =>
    have hne : side ≠ who := by
      intro heq
      rw [heq] at hmake
      have hmade := (making_todo hmake).2
      rw [waiting_made hw] at hmade
      cases hmade
    refine .making side pre hdel ?_ ?_ hio ?_ hsent
    · rw [setThread_ne s t hne]
      exact hmake
    · have hother : side.other = who := by
        rw [ne_iff_other.mp hne.symm]
      rw [hother, setThread_same]
      exact ht
    · rw [setThread_ne s t hne]
      exact hprep

theorem draft_cons (m : Buf) (st : Stmt) (rest : List Stmt) : draft m (st :: rest) = draft (st.apply m) rest := rfl

/-- `get_send`: the buffer before is deleted, and this thread has the new one in hand. -/
theorem getSend_inv {s : Mailbox} {who : Side} {junk : Buf} {before after : List Stmt} (hi : Inv s)
    (hb : ∀ st ∈ before, st.Fills) (ha : ∀ st ∈ after, st.Late) (hn : Named (draft junk before) after)
    (hdel : s.sendbuff ∈ s.deleted) :
    Inv ((s.exec (.getSend junk) (.setMsgSend :: (before ++ .setRemain :: (after ++ [.raise])))).setThread who
      ⟨.setMsgSend :: (before ++ .setRemain :: (after ++ [.raise])), true⟩) := by
  have hnew : s.sendbuff + 1 ∉ s.deleted := fun h => by
    have := hi.below _ h
    omega
  cases hi.stage with
  | making side pre hdel' hmake hwait hio hprep hsent => exact absurd hdel hdel'
  | pending pre got hdel' hwait hflag hio hprep hsent => exact absurd hdel hdel'
  | free _ hwait hio hsent =>
    refine ⟨.making who s.prepared hnew ?_ ?_ hio ?_ hsent, hi.once, ?_, ?_, hi.strayed⟩
    · rw [setThread_same]
      show Making (Function.update s.mem (s.sendbuff + 1) junk (s.sendbuff + 1)) _ _ _
      rw [Function.update_self]
      exact .pointer hb ha hn
    · rw [setThread_ne _ _ (other_ne who)]
      exact hwait who.other
    · rw [setThread_same]
      show s.prepared ++ _ =
        s.prepared ++ [packet (draft (Function.update s.mem (s.sendbuff + 1) junk (s.sendbuff + 1)) _)]
      rw [Function.update_self]
    · intro p hp
      exact Nat.le_succ_of_le (hi.below p hp)
    · intro p hp
      show p ∈ s.deleted
      rcases Nat.lt_or_eq_of_le (Nat.le_of_lt_succ hp) with hlt | rfl
      · exact hi.freed p hlt
      · exact hdel

/-- A store into the buffer in hand. -/
theorem exec_store {s : Mailbox} {st : Stmt} (rest : List Stmt) (h : st.Fills) :
    s.exec st rest = { s with mem := Function.update s.mem s.mMsgSend (st.apply (s.mem s.mMsgSend)) } := by
  cases st with
  | storeInt off v => rfl
  | storeMsg msg => rfl
  | setLength => rfl
  | _ => exact h.elim

theorem making_fills {st : Stmt} (h : st.Fills) : st.making true = true := by
  cases st with
  | storeInt off v => rfl
  | storeMsg msg => rfl
  | setLength => rfl
  | _ => exact h.elim

theorem making_late {st : Stmt} (h : st.Late) : st.making true = true := by
  cases st with
  | storeInt off v => rfl
  | setSendTo => rfl
  | storeFilename => rfl
  | _ => exact h.elim

/-- The buffer in hand stays in hand. -/
theorem Inv.holding {s s' : Mailbox} (who : Side) {pre : List (List UInt8)} (hi : Inv s) (hdel : s.sendbuff ∉ s.deleted)
    (hd : s'.deleted = s.deleted) (hb : s'.sendbuff = s.sendbuff) (hx : s'.strayed = s.strayed)
    (hmake : Making (s'.mem s.sendbuff) (s'.mMsgSend = s.sendbuff) s'.remainLengthofSend (s'.thread who))
    (hwait : Waiting (s'.thread who.other)) (hio : Outside s'.io s'.haveSendFlag s'.lengthHasSend)
    (hprep : s'.prepared = pre ++ [packet (draft (s'.mem s.sendbuff) (s'.thread who).todo)])
    (hsent : s'.sent = pre.flatten) : Inv s' := by
  refine ⟨.making who pre ?_ ?_ hwait hio ?_ hsent, ?_, ?_, ?_, hx.trans hi.strayed⟩
  · rw [hd, hb]
    exact hdel
  · rw [hb]
    exact hmake
  · rw [hb]
    exact hprep
  · rw [hd]
    exact hi.once
  · rw [hd, hb]
    exact hi.below
  · rw [hd, hb]
    exact hi.freed

structure InHand (s : Mailbox) (who : Side) (pre : List (List UInt8)) (todo : List Stmt) : Prop where
  inv : Inv s
  del : s.sendbuff ∉ s.deleted
  wait : Waiting (s.thread who.other)
  io : Outside s.io s.haveSendFlag s.lengthHasSend
  prep : s.prepared = pre ++ [packet (draft (s.mem s.sendbuff) todo)]
  sent : s.sent = pre.flatten

theorem InHand.setMsgSend {s : Mailbox} {who : Side} {pre : List (List UInt8)} {before after : List Stmt}
    (h : InHand s who pre (.setMsgSend :: (before ++ .setRemain :: (after ++ [.raise]))))
    (hb : ∀ st ∈ before, st.Fills) (ha : ∀ st ∈ after, st.Late) (hn : Named (draft (s.mem s.sendbuff) before) after) :
    Inv ((s.exec .setMsgSend []).setThread who ⟨before ++ .setRemain :: (after ++ [.raise]), true⟩) := by
  refine h.inv.holding who h.del rfl rfl rfl ?_ ?_ h.io ?_ h.sent
  · rw [setThread_same]
    exact .filling hb ha hn rfl
  · rw [setThread_ne _ _ (other_ne who)]
    exact h.wait
  · rw [setThread_same]
    exact h.prep

theorem InHand.store {s : Mailbox} {who : Side} {pre : List (List UInt8)} {st : Stmt} {rest : List Stmt}
    (h : InHand s who pre (st :: rest)) (hfills : st.Fills) (hown : s.mMsgSend = s.sendbuff)
    (hnext : Making (st.apply (s.mem s.sendbuff)) (s.mMsgSend = s.sendbuff) s.remainLengthofSend ⟨rest, true⟩) :
    Inv ((s.exec st rest).setThread who ⟨rest, true⟩) := by
  have hmem : Function.update s.mem s.mMsgSend (st.apply (s.mem s.mMsgSend)) s.sendbuff =
      st.apply (s.mem s.sendbuff) := by
    rw [hown, Function.update_self]
  rw [exec_store rest hfills]
  generalize hm : Function.update s.mem s.mMsgSend (st.apply (s.mem s.mMsgSend)) = mem at hmem
  refine h.inv.holding who h.del rfl rfl rfl ?_ ?_ h.io ?_ h.sent
  · rw [setThread_same]
    show Making (mem s.sendbuff) _ _ _
    rw [hmem]
    exact hnext
  · rw [setThread_ne _ _ (other_ne who)]
    exact h.wait
  · rw [setThread_same]
    show s.prepared = pre ++ [packet (draft (mem s.sendbuff) rest)]
    rw [hmem, ← draft_cons]
    exact h.prep

theorem InHand.setRemain {s : Mailbox} {who : Side} {pre : List (List UInt8)} {after : List Stmt}
    (h : InHand s who pre (.setRemain :: (after ++ [.raise]))) (hown : s.mMsgSend = s.sendbuff)
    (ha : ∀ st ∈ after, st.Late) (hn : Named (s.mem s.sendbuff) after) :
    Inv ((s.exec .setRemain []).setThread who ⟨after ++ [.raise], true⟩) := by
  have hexec : s.exec .setRemain [] = { s with remainLengthofSend := Proto.length (s.mem s.mMsgSend) } := rfl
  have hremain : Proto.length (s.mem s.mMsgSend) = Proto.length (s.mem s.sendbuff) := by rw [hown]
  rw [hexec]
  generalize Proto.length (s.mem s.mMsgSend) = remain at hremain
  refine h.inv.holding who h.del rfl rfl rfl ?_ ?_ h.io ?_ h.sent
  · rw [setThread_same]
    exact .measured ha hn hown hremain
  · rw [setThread_ne _ _ (other_ne who)]
    exact h.wait
  · rw [setThread_same]
    have hprep := h.prep
    rw [draft_cons] at hprep
    exact hprep

/-- A note of the file leaves the buffer. -/
theorem InHand.note {s : Mailbox} {who : Side} {pre : List (List UInt8)} {st : Stmt} {after : List Stmt}
    (sendTo : Int) (filename : Buf) (h : InHand s who pre (st :: (after ++ [.raise])))
    (hst : st.apply (s.mem s.sendbuff) = s.mem s.sendbuff) (ha : ∀ st ∈ after, st.Late)
    (hn : Named (s.mem s.sendbuff) after) (hown : s.mMsgSend = s.sendbuff)
    (hremain : s.remainLengthofSend = Proto.length (s.mem s.sendbuff)) :
    Inv (({ s with sendFileToClientId := sendTo, filename := filename } : Mailbox).setThread who
      ⟨after ++ [.raise], true⟩) := by
  refine h.inv.holding who h.del rfl rfl rfl ?_ ?_ h.io ?_ h.sent
  · rw [setThread_same]
    exact .measured ha hn hown hremain
  · rw [setThread_ne _ _ (other_ne who)]
    exact h.wait
  · rw [setThread_same]
    have hprep := h.prep
    rw [draft_cons, hst] at hprep
    exact hprep

theorem exec_setSendTo (s : Mailbox) (rest : List Stmt) : s.exec .setSendTo rest =
    { s with sendFileToClientId := Proto.peerId (s.mem s.mMsgSend), filename := s.filename } := rfl

theorem exec_storeFilename {s : Mailbox} (rest : List Stmt) (hown : s.mMsgSend = s.sendbuff)
    (hn : (msgText (s.mem s.sendbuff)).length < UserData.filenameSize) : s.exec .storeFilename rest =
    { s with
      sendFileToClientId := s.sendFileToClientId
      filename := s.filename.strcpy 0 (msgText (s.mem s.mMsgSend)) } := by
  have hfits : (s.strayed || decide (UserData.filenameSize ≤ (msgText (s.mem s.mMsgSend)).length)) = s.strayed := by
    rw [hown, decide_eq_false (Nat.not_le.mpr hn), Bool.or_false]
  simp only [exec, hfits]

/-- The packet is ready, and the flag was down. -/
theorem InHand.raise {s : Mailbox} {who : Side} {pre : List (List UInt8)} (h : InHand s who pre [.raise])
    (hremain : s.remainLengthofSend = Proto.length (s.mem s.sendbuff)) (hdown : s.haveSendFlag = false) :
    Inv ((s.exec .raise []).setThread who ⟨[], false⟩) := by
  have hi := h.inv
  have hio := h.io
  generalize hsio : s.io = io at hio
  generalize hhas : s.lengthHasSend = has at hio
  rw [hdown] at hio
  cases hio with
  | out =>
    refine ⟨.pending pre [] h.del ?_ rfl ?_ h.prep ?_, hi.once, hi.below, hi.freed, hi.strayed⟩
    · intro side
      by_cases hside : side = who
      · rw [hside, setThread_same]
        exact .idle
      · rw [setThread_ne _ _ hside, ne_iff_other.mp hside]
        exact h.wait
    · show Sending (s.mem s.sendbuff) s.remainLengthofSend s.lengthHasSend [] s.io
      rw [hsio, hhas, hremain]
      exact ⟨by simp, Or.inl rfl, rfl⟩
    · show s.sent = pre.flatten ++ []
      rw [h.sent, List.append_nil]

/-- The statements of a thread with a buffer in hand. -/
theorem making_run {s : Mailbox} {who : Side} {stmt : Stmt} {rest : List Stmt} {pre : List (List UInt8)}
    (h : InHand s who pre (stmt :: rest))
    (hmake : Making (s.mem s.sendbuff) (s.mMsgSend = s.sendbuff) s.remainLengthofSend ⟨stmt :: rest, true⟩)
    (hflag : stmt = .raise → s.haveSendFlag = false) :
    Inv ((s.exec stmt rest).setThread who ⟨rest, stmt.making true⟩) := by
  generalize ht : (⟨stmt :: rest, true⟩ : Preparer) = t at hmake
  cases hmake with
  | pointer hb ha hn =>
    cases ht
    exact h.setMsgSend hb ha hn
  | @filling before after hb ha hn hown =>
    cases before with
    | nil =>
      cases ht
      exact h.setRemain hown ha hn
    | cons st before =>
      cases ht
      have hfills := hb stmt List.mem_cons_self
      rw [making_fills hfills]
      exact h.store hfills hown (.filling (fun st hst => hb st (List.mem_cons_of_mem _ hst)) ha hn hown)
  | @measured after ha hn hown hremain =>
    cases after with
    | nil =>
      cases ht
      exact h.raise hremain (hflag rfl)
    | cons st after =>
      cases ht
      have hlate := ha stmt List.mem_cons_self
      have hrest : ∀ st ∈ after, st.Late := fun st hst => ha st (List.mem_cons_of_mem _ hst)
      have hnamed : Named (stmt.apply (s.mem s.sendbuff)) after := fun hmem => by
        rw [Stmt.msgText_late hlate]
        exact hn (List.mem_cons_of_mem _ hmem)
      rw [making_late hlate]
      cases stmt with
      | storeInt off v =>
        refine h.store trivial hown (.measured hrest hnamed hown ?_)
        rw [Stmt.length_late hlate]
        exact hremain
      | setSendTo =>
        rw [exec_setSendTo]
        exact h.note _ _ rfl hrest hnamed hown hremain
      | storeFilename =>
        rw [exec_storeFilename _ hown (hn List.mem_cons_self)]
        exact h.note _ _ rfl hrest hnamed hown hremain
      | _ => exact hlate.elim

/-- A thread with nothing to do has no buffer in hand. -/
theorem idle_waiting {s : Mailbox} {who : Side} (hi : Inv s) (h : (s.thread who).todo = []) :
    Waiting (s.thread who) := by
  cases hi.stage with
  | free hdel hwait hio hsent => exact hwait who
  | pending pre got hdel hwait hflag hio hprep hsent => exact hwait who
  | making side pre hdel hmake hwait hio hprep hsent =>
    by_cases hside : side = who
    · subst hside
      exact absurd h (making_todo hmake).1
    · rw [ne_iff_other.mp fun h => hside h.symm]
      exact hwait

theorem run_thread_inv {s s' : Mailbox} {who : Side} (hi : Inv s) (ho : Orderly s (.run who))
    (h : s.step (.run who) = some s') : Inv s' := by
  simp only [step] at h
  split at h
  · cases h
  · rename_i stmt rest htodo
    obtain rfl := Option.some.inj h
    simp only [Orderly, htodo] at ho
    have hthread : s.thread who = ⟨stmt :: rest, (s.thread who).made⟩ := by rw [← htodo]
    have hwaiting : Waiting (s.thread who) →
        Inv ((s.exec stmt rest).setThread who ⟨rest, stmt.making (s.thread who).made⟩) := by
      intro hw
      have hmade := waiting_made hw
      rw [hmade]
      rw [hthread, hmade] at hw
      generalize ht : (⟨stmt :: rest, false⟩ : Preparer) = t at hw
      cases hw with
      | idle => cases ht
      | other =>
        cases ht
        -- the flag is up already
        have hup : s.haveSendFlag = true := by
          rw [hmade] at ho
          exact ho
        have hsame : s.exec .raise [] = s := by
          simp only [exec, ← hup]
        rw [hsame]
        refine ⟨hi.stage.wait ?_ .idle, hi.once, hi.below, hi.freed, hi.strayed⟩
        rw [hthread, hmade]
        exact .other
      | start junk hb ha hn =>
        cases ht
        exact getSend_inv hi hb ha hn ho
    cases hi.stage with
    | free hdel hwait hio hsent => exact hwaiting (hwait who)
    | pending pre got hdel hwait hflag hio hprep hsent => exact hwaiting (hwait who)
    | making side pre hdel hmake hwait hio hprep hsent =>
      by_cases hside : side = who
      · subst hside
        have hmade := (making_todo hmake).2
        rw [hthread, hmade] at hmake
        rw [htodo] at hprep
        rw [hmade]
        refine making_run ⟨hi, hdel, hwait, hio, hprep, hsent⟩ hmake fun hraise => ?_
        subst hraise
        rw [hmade] at ho
        exact ho
      · have hother : who = side.other := ne_iff_other.mp fun h => hside h.symm
        rw [← hother] at hwait
        exact hwaiting hwait

/-! ## Runs -/

theorem step_inv {s s' : Mailbox} {e : Ev} (hi : Inv s) (ho : Orderly s e) (h : s.step e = some s') : Inv s' := by
  cases e with
  | io nread => exact io_inv hi h
  | run who => exact run_thread_inv hi ho h
  | answer ret toWhichId junk =>
    simp only [step] at h
    split at h
    · rename_i htodo
      obtain rfl := Option.some.inj h
      refine ⟨hi.stage.wait (idle_waiting hi htodo) (returnYesorNo_waiting s.userId junk ret toWhichId), hi.once,
        hi.below, hi.freed, hi.strayed⟩
    · cases h
  | key k junk =>
    simp only [step] at h
    split at h
    · rename_i htodo
      obtain rfl := Option.some.inj h
      have hkey : Inv (s.setThread .menu ⟨printCmdIdList s.userId junk k, false⟩) :=
        ⟨hi.stage.wait (idle_waiting hi htodo) (printCmdIdList_waiting ho.1 ho.2), hi.once, hi.below, hi.freed,
          hi.strayed⟩
      cases k with
      | four => exact absurd rfl ho.1
      | _ => exact hkey
    · cases h

/-- Whatever the keys, the answers and the interleaving: in an orderly run every packet is
    delivered, and every buffer deleted once. -/
theorem delivered_of_orderly (userId : Int) (register : Buf) (remain sendTo : Int) (filename : Buf) (es : List Ev)
    (h : Along step Orderly (init userId register remain sendTo filename) es) :
    Always step Delivered (init userId register remain sendTo filename) es :=
  (always_of_along (fun _ _ _ => step_inv) (init_inv userId register remain sendTo filename) h).mono fun _ hi =>
    hi.delivered

def sendOff (length : Nat) : List Ev := [.io 0, .io 0, .io length, .io 0, .io 0, .io 0, .io 0, .io 0, .io 0]

/-- "hi" to user 2, any key while it is on its way, then "Y" to user 3, then the file
    "hi" for user 2. -/
def threePackets : List Ev :=
  .key (.one [104, 105] 2) (fun _ => 0) :: List.replicate 10 (.run .menu) ++
    [.key .other (fun _ => 0), .run .menu] ++ sendOff 23 ++
    .answer [89] 3 (fun _ => 0) :: List.replicate 10 (.run .message) ++ sendOff 22 ++
    .key (.three [104, 105] 2) (fun _ => 0) :: List.replicate 12 (.run .menu) ++ sendOff 23

theorem two_messages_and_an_answer :
    Always step Delivered (init 1 (fun _ => 0) 0 0 (fun _ => 0)) threePackets :=
  delivered_of_orderly 1 (fun _ => 0) 0 0 (fun _ => 0) threePackets (by decide +kernel)

/-- The buffer that is deleted is the registration's, and no QUIT is sent. -/
theorem a_quit_deletes_the_registration :
    ¬ Always step Delivered (init 1 (fun _ => 0) 0 0 (fun _ => 0))
      [.key .four (fun _ => 0), .run .menu, .run .menu, .io 0, .io 0, .io 0, .io 0, .io 0] := by
  intro h
  have hrun : (run step (init 1 (fun _ => 0) 0 0 (fun _ => 0))
      [.key .four (fun _ => 0), .run .menu, .run .menu, .io 0, .io 0, .io 0, .io 0, .io 0]).map (·.strayed) =
        some true := by
    decide +kernel
  obtain ⟨s, hs, hstrayed⟩ := Option.map_eq_some_iff.mp hrun
  rw [(h.last hs).strayed] at hstrayed
  cases hstrayed

end Mailbox

end GroupeChat.ChatClient
