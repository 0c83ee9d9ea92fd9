/-
  GroupeChat.ChatServer.EpollRead — how the server's I/O thread cuts a connection's bytes
  into packets (`CIo::epollRead`).

  The call asks FIONREAD how much is there. With no packet under way it takes 16 bytes
  into a new 1436-byte buffer and learns the packet's length; then, in the same call, it
  asks for the rest of the packet, whatever has arrived of it. The second `recv` can find
  nothing: then the user is deleted, and the entry just erased is used.

  `Conn` is one connection, its peer's bytes on the other side. `Framed` says that it
  stands, that the packets pushed are the first of those sent, all of them once nothing
  is left to read, and that a call takes something as long as something is left
  (`progress`). Whatever the segmentation, it is kept by the calls that get their
  16 header bytes and at least one more (`framed_of_followed`), and by no others that get
  their header whole; a packet cut right after its header loses the connection
  (`a_cut_after_the_header`).
-/

import GroupeChat.Base.Run
import GroupeChat.Base.Socket
import GroupeChat.Proto

namespace GroupeChat.ChatServer

open Base

structure CmdRecv where
  mRecvBuff : Buf
  mRecvHeadFlag : Bool
  mTotalLengthOfData : Int
  mLengthHasRecv : Int

/-- The constructor; it leaves `m_recvBuff` unset. -/
def CmdRecv.new (junk : Buf) : CmdRecv := ⟨junk, false, 0, 0⟩

structure Conn where
  sock : Sock
  recv : CmdRecv
  packList : List Buf
  /-- The user's entry in `m_map`. -/
  status : Status
  /-- Every `recv` issued so far. -/
  calls : List RecvCall

namespace Conn

structure Io where
  /-- What `new char[1436]` holds. -/
  junk : Buf
  /-- How many of the header bytes the first `recv` hands over. -/
  n1 : Nat
  /-- How much arrives between FIONREAD and the second `recv`. -/
  late : Nat
  n2 : Nat

def deleteloginUser (c : Conn) : Conn := { c with status := .dropped }

def recvHead (c : Conn) (io : Io) : Conn :=
  let r := c.sock.recv Proto.headSize io.n1
  let recvBuff := io.junk.write 0 r.bytes
  { c with
    sock := r.sock
    recv := ⟨recvBuff, true, Proto.length recvBuff, Proto.headSize⟩
    calls := c.calls ++ [RecvCall.mk 0 Proto.headSize r.bytes.length] }

def nres (c : Conn) : Nat := toSize (wrap 4 (c.recv.mTotalLengthOfData - c.recv.mLengthHasRecv))

def recvBody (c : Conn) (io : Io) : Conn :=
  let r := (c.sock.arrive io.late).recv c.nres io.n2
  let recvBuff := c.recv.mRecvBuff.store c.recv.mLengthHasRecv r.bytes
  let c := { c with
    sock := r.sock
    calls := c.calls ++ [RecvCall.mk c.recv.mLengthHasRecv c.nres r.bytes.length] }
  let nread := wrap 4 r.ret
  if nread < 0 then
    -- deleteloginUser erased the entry; the next line makes a null one and dereferences it
    { c.deleteloginUser with status := .faulted }
  else
    let lengthHasRecv := wrap 4 (c.recv.mLengthHasRecv + nread)
    if lengthHasRecv = c.recv.mTotalLengthOfData then
      { c with
        packList := c.packList ++ [recvBuff]
        recv := ⟨recvBuff, false, c.recv.mTotalLengthOfData, 0⟩ }
    else { c with recv := ⟨recvBuff, true, c.recv.mTotalLengthOfData, lengthHasRecv⟩ }

def epollRead (c : Conn) (io : Io) : Conn :=
  if c.sock.avail.length = 0 then c.deleteloginUser
  else if Proto.headSize ≤ c.sock.avail.length ∨ c.recv.mRecvHeadFlag then
    if c.recv.mRecvHeadFlag then c.recvBody io
    else if (c.sock.recv Proto.headSize io.n1).ret = 0 then (c.recvHead io).deleteloginUser
    else (c.recvHead io).recvBody io
  else c

inductive Ev where
  | arrive (n : Nat)
  | epollRead (io : Io)

/-- Epoll reports the socket while it is registered and has bytes, or its peer is gone. -/
def step (c : Conn) : Ev → Option Conn
  | .arrive n => some { c with sock := c.sock.arrive n }
  | .epollRead io =>
    if c.status = .live ∧ c.sock.Ready then some (c.epollRead io) else none

def init (junk : Buf) (stream : List UInt8) (closed : Bool) : Conn :=
  ⟨⟨[], stream, closed⟩, .new junk, [], .live, []⟩

def pushed (c : Conn) : List (List UInt8) := c.packList.map fun b => b.read 0 (Proto.length b).toNat

/-! ## What one call does to the socket -/

theorem recvBody_sock (c : Conn) (io : Io) :
    (c.recvBody io).sock = ((c.sock.arrive io.late).recv c.nres io.n2).sock := by
  unfold recvBody
  dsimp only
  split
  · rfl
  · split <;> rfl

theorem recvBody_unread_le (c : Conn) (io : Io) :
    (c.recvBody io).sock.unread.length ≤ c.sock.unread.length := by
  have h := congrArg List.length (Sock.recv_unread (c.sock.arrive io.late) c.nres io.n2)
  rw [Sock.arrive_unread, List.length_append] at h
  rw [recvBody_sock]
  omega

/-- A second `recv` with something to take and room for it takes something. -/
theorem recvBody_unread_lt {c : Conn} (io : Io) (hw : c.nres ≠ 0) (ha : (c.sock.arrive io.late).avail ≠ []) :
    (c.recvBody io).sock.unread.length < c.sock.unread.length := by
  have h := congrArg List.length (Sock.recv_unread (c.sock.arrive io.late) c.nres io.n2)
  have hpos := (Sock.recv_pos io.n2 hw ha).1
  rw [Sock.arrive_unread, List.length_append] at h
  rw [recvBody_sock]
  omega

theorem recvHead_unread_lt {c : Conn} (io : Io) (ha : c.sock.avail ≠ []) :
    (c.recvHead io).sock.unread.length < c.sock.unread.length := by
  have h := congrArg List.length (Sock.recv_unread c.sock Proto.headSize io.n1)
  have hpos := (Sock.recv_pos io.n1 (show Proto.headSize ≠ 0 by decide) ha).1
  rw [List.length_append] at h
  show (c.sock.recv Proto.headSize io.n1).sock.unread.length < _
  omega

/-- A call puts nothing back. -/
theorem epollRead_unread_le (c : Conn) (io : Io) : (c.epollRead io).sock.unread.length ≤ c.sock.unread.length := by
  unfold epollRead
  split
  · exact le_rfl
  · rename_i h0
    have hhead := recvHead_unread_lt (c := c) io fun hnil => h0 (congrArg List.length hnil)
    split
    · split
      · exact recvBody_unread_le c io
      · split
        · exact hhead.le
        · exact (recvBody_unread_le _ io).trans hhead.le
    · exact le_rfl

/-! ## Framing -/

structure Packet where
  bytes : List UInt8
  more : Proto.headSize < bytes.length
  fits : bytes.length ≤ Proto.packSize
  sized : Proto.length (Mem.ofList 0 bytes) = bytes.length

def stream (ps : List Packet) : List UInt8 := (ps.map Packet.bytes).flatten

structure Framed (ps : List Packet) (c : Conn) : Prop where
  live : c.status = .live
  first : c.pushed <+: ps.map Packet.bytes
  all : c.sock.unread = [] → c.pushed = ps.map Packet.bytes
  progress : c.sock.wire = [] → c.sock.avail ≠ [] →
    ∀ io, (c.epollRead io).sock.unread.length < c.sock.unread.length

/-- A header, when one is read, is read whole. -/
def HeadWhole (c : Conn) : Ev → Prop
  | .arrive _ => True
  | .epollRead io =>
    c.recv.mRecvHeadFlag = false → Proto.headSize ≤ c.sock.avail.length → Proto.headSize ≤ io.n1

/-- When a header is read, a byte of the rest is there by the second `recv`. -/
def Followed (c : Conn) : Ev → Prop
  | .arrive _ => True
  | .epollRead io =>
    c.recv.mRecvHeadFlag = false → Proto.headSize ≤ c.sock.avail.length →
      Proto.headSize < (c.sock.arrive io.late).avail.length

structure Idle (todo : List Packet) (c : Conn) : Prop where
  flag : c.recv.mRecvHeadFlag = false
  unread : c.sock.unread = stream todo

structure Within (p : Packet) (h : Nat) (rest : List Packet) (c : Conn) : Prop where
  flag : c.recv.mRecvHeadFlag = true
  total : c.recv.mTotalLengthOfData = p.bytes.length
  has : c.recv.mLengthHasRecv = h
  head : Proto.headSize ≤ h
  lt : h < p.bytes.length
  buff : c.recv.mRecvBuff.read 0 h = p.bytes.take h
  unread : c.sock.unread = p.bytes.drop h ++ stream rest

structure Inv (ps : List Packet) (c : Conn) : Prop where
  live : c.status = .live
  stays : c.sock.closed = false
  cut : ∃ done todo, ps = done ++ todo ∧ c.pushed = done.map Packet.bytes ∧
    (Idle todo c ∨ ∃ p h rest, todo = p :: rest ∧ Within p h rest c)

theorem stream_cons (p : Packet) (ps : List Packet) : stream (p :: ps) = p.bytes ++ stream ps := by
  simp [stream]

/-- A nonempty stream holds more than a header. -/
theorem stream_more {ps : List Packet} (h : stream ps ≠ []) : Proto.headSize < (stream ps).length := by
  cases ps with
  | nil => exact absurd rfl h
  | cons p rest =>
    have := p.more
    rw [stream_cons, List.length_append]
    omega

theorem Within.nres {p : Packet} {h : Nat} {rest : List Packet} {c : Conn} (hw : Within p h rest c) :
    c.nres = p.bytes.length - h := by
  have hl := hw.lt
  have hf : p.bytes.length ≤ 1436 := p.fits
  rw [Conn.nres, hw.total, hw.has, wrap_four (by omega) (by omega), toSize_of_nonneg (by omega) (by omega)]
  omega

/-- A header read whole starts the next packet. -/
theorem recvHead_within {p : Packet} {rest : List Packet} {c : Conn} {io : Io} (hi : Idle (p :: rest) c)
    (ha : Proto.headSize ≤ c.sock.avail.length) (hn : Proto.headSize ≤ io.n1) :
    Within p Proto.headSize rest (c.recvHead io) := by
  obtain ⟨hb, -, hs⟩ := Sock.recv_whole (s := c.sock) (by decide) hn ha
  have hu : c.sock.avail ++ c.sock.wire = p.bytes ++ stream rest := by rw [← stream_cons]; exact hi.unread
  have htake : c.sock.avail.take Proto.headSize = p.bytes.take Proto.headSize := by
    have := congrArg (List.take Proto.headSize) hu
    rwa [List.take_append_of_le_length ha, List.take_append_of_le_length p.more.le] at this
  have hdrop : c.sock.avail.drop Proto.headSize ++ c.sock.wire = p.bytes.drop Proto.headSize ++ stream rest := by
    have := congrArg (List.drop Proto.headSize) hu
    rwa [List.drop_append_of_le_length ha, List.drop_append_of_le_length p.more.le] at this
  have hbuff : (io.junk.write 0 (p.bytes.take Proto.headSize)).read 0 Proto.headSize = p.bytes.take Proto.headSize := by
    have := Mem.read_write_same io.junk 0 (p.bytes.take Proto.headSize)
    rwa [List.length_take, Nat.min_eq_left p.more.le] at this
  have hlen : Proto.length (io.junk.write 0 (p.bytes.take Proto.headSize)) = p.bytes.length := by
    rw [← p.sized]
    exact Proto.length_congr (hbuff.trans (Mem.read_ofList 0 p.bytes p.more.le).symm)
  constructor
  case flag => rfl
  case total => simp only [recvHead, hb, htake, hlen]
  case has => rfl
  case head => exact Nat.le_refl _
  case lt => exact p.more
  case buff => simp only [recvHead, hb, htake, hbuff]
  case unread => simp only [recvHead, hs, Sock.unread, hdrop]

/-- What a second `recv` that takes something stores: the next bytes of the packet. -/
theorem Within.received {p : Packet} {h : Nat} {rest : List Packet} {c : Conn} {io : Io} (hw : Within p h rest c)
    (ha : (c.sock.arrive io.late).avail ≠ []) :
    ∃ k, 0 < k ∧ h + k ≤ p.bytes.length ∧
      (c.recvBody io).sock.unread = p.bytes.drop (h + k) ++ stream rest ∧
      (c.recv.mRecvBuff.write h ((c.sock.arrive io.late).recv c.nres io.n2).bytes).read 0 (h + k) =
        p.bytes.take (h + k) ∧
      ((c.sock.arrive io.late).recv c.nres io.n2).ret = k := by
  have hlt := hw.lt
  obtain ⟨b, hb⟩ : ∃ b, b = ((c.sock.arrive io.late).recv c.nres io.n2).bytes := ⟨_, rfl⟩
  have hle : b.length ≤ p.bytes.length - h := by
    rw [hb, ← hw.nres]; exact Sock.recv_length_le _ _ _
  have hn : c.nres ≠ 0 := by rw [hw.nres]; omega
  obtain ⟨hpos, hret⟩ := Sock.recv_pos io.n2 hn ha
  have hu := Sock.recv_unread (c.sock.arrive io.late) c.nres io.n2
  rw [Sock.arrive_unread, hw.unread, ← recvBody_sock, ← hb] at hu
  rw [← hb] at hpos hret
  have hlen : b.length ≤ (p.bytes.drop h).length := by rw [List.length_drop]; exact hle
  have hbytes : b = (p.bytes.drop h).take b.length := by
    have := congrArg (List.take b.length) hu
    rwa [List.take_left, List.take_append_of_le_length hlen] at this
  refine ⟨b.length, hpos, by omega, ?_, ?_, hret⟩
  · have := congrArg (List.drop b.length) hu
    rwa [List.drop_left, List.drop_append_of_le_length hlen, List.drop_drop] at this
  · rw [← hb, Mem.read_write_extend, hw.buff, List.take_add]
    exact congrArg (p.bytes.take h ++ ·) hbytes

/-- A second `recv` that takes something brings the packet on, or to its end. -/
theorem recvBody_within {p : Packet} {h : Nat} {rest : List Packet} {c : Conn} {io : Io} (hw : Within p h rest c)
    (ha : (c.sock.arrive io.late).avail ≠ []) :
    (c.recvBody io).status = c.status ∧
      ((c.recvBody io).pushed = c.pushed ++ [p.bytes] ∧ Idle rest (c.recvBody io) ∨
        (c.recvBody io).pushed = c.pushed ∧ ∃ h', Within p h' rest (c.recvBody io)) := by
  obtain ⟨k, hk, hle, hun, hread, hret⟩ := hw.received ha
  have hf : p.bytes.length ≤ 1436 := p.fits
  have hhead := hw.head
  have hnread : wrap 4 (k : Int) = k := wrap_four (by omega) (by omega)
  have hhas : wrap 4 ((h : Int) + k) = (h + k : Nat) := by rw [wrap_four (by omega) (by omega)]; rfl
  have hneg : ¬ (k : Int) < 0 := by omega
  have hbody := hw.flag
  obtain ⟨buff, hbuff⟩ : ∃ b, b = c.recv.mRecvBuff.write h ((c.sock.arrive io.late).recv c.nres io.n2).bytes :=
    ⟨_, rfl⟩
  rw [← hbuff] at hread
  by_cases hend : h + k = p.bytes.length
  · have hlen : Proto.length buff = p.bytes.length := by
      rw [← p.sized]
      refine Proto.length_congr ?_
      rw [← Mem.take_read buff 0 (show Proto.headSize ≤ h + k by omega), hread, List.take_take,
        Mem.read_ofList _ _ p.more.le, Nat.min_eq_left (by omega)]
    have hbytes : buff.read 0 p.bytes.length = p.bytes := by
      rw [← hend, hread, hend, List.take_length]
    have he : c.recvBody io = { c with
        sock := (c.recvBody io).sock
        calls := (c.recvBody io).calls
        packList := c.packList ++ [buff]
        recv := ⟨buff, false, p.bytes.length, 0⟩ } := by
      simp only [recvBody, hret, hnread, hneg, if_false, hw.has, hhas, hw.total, hend, if_true, hbuff,
        Mem.store_of_nonneg, Int.natCast_nonneg, Int.toNat_natCast]
    rw [he]
    refine ⟨rfl, Or.inl ⟨?_, rfl, ?_⟩⟩
    · simp [pushed, hlen, hbytes]
    · rw [hend, List.drop_length, List.nil_append] at hun
      exact hun
  · have he : c.recvBody io = { c with
        sock := (c.recvBody io).sock
        calls := (c.recvBody io).calls
        recv := ⟨buff, true, p.bytes.length, (h + k : Nat)⟩ } := by
      have hne : ¬ ((h + k : Nat) : Int) = p.bytes.length := by omega
      simp only [recvBody, hret, hnread, hneg, if_false, hw.has, hhas, hw.total, hne, hbuff,
        Mem.store_of_nonneg, Int.natCast_nonneg, Int.toNat_natCast]
    rw [he]
    exact ⟨rfl, Or.inr ⟨rfl, h + k, rfl, rfl, rfl, by omega, by omega, hread, hun⟩⟩

/-- A second `recv` that finds nothing faults. -/
theorem recvBody_nothing {c : Conn} {io : Io} (hc : c.sock.closed = false)
    (ha : (c.sock.arrive io.late).avail = []) : (c.recvBody io).status = .faulted := by
  have hret := Sock.recv_again (s := c.sock.arrive io.late) c.nres io.n2 ha hc
  have hneg : wrap 4 (-1) < 0 := by decide
  simp only [recvBody, hret, hneg, if_true]

/-! ## Runs -/

theorem epollRead_head {c : Conn} {io : Io} (hf : c.recv.mRecvHeadFlag = false)
    (ha : Proto.headSize ≤ c.sock.avail.length) : c.epollRead io = (c.recvHead io).recvBody io := by
  have ha' : Proto.headSize ≠ 0 := by decide
  have hne : c.sock.avail ≠ [] := by rw [← List.length_pos_iff]; omega
  obtain ⟨hpos, hret⟩ := Sock.recv_pos io.n1 ha' hne
  have hret' : ¬ (c.sock.recv Proto.headSize io.n1).ret = 0 := by omega
  have h0 : ¬ c.sock.avail.length = 0 := by omega
  simp only [epollRead, h0, if_false, ha, true_or, if_true, hf, Bool.false_eq_true, hret']

theorem epollRead_short {c : Conn} {io : Io} (hf : c.recv.mRecvHeadFlag = false) (hne : c.sock.avail ≠ [])
    (ha : ¬ Proto.headSize ≤ c.sock.avail.length) : c.epollRead io = c := by
  have h0 : ¬ c.sock.avail.length = 0 := by simpa using hne
  simp only [epollRead, h0, if_false, ha, hf, Bool.false_eq_true, or_self]

theorem epollRead_body {c : Conn} {io : Io} (hf : c.recv.mRecvHeadFlag = true) (hne : c.sock.avail ≠ []) :
    c.epollRead io = c.recvBody io := by
  have h0 : ¬ c.sock.avail.length = 0 := by simpa using hne
  simp only [epollRead, h0, if_false, hf, or_true, if_true]

theorem init_inv (junk : Buf) (ps : List Packet) : Inv ps (init junk (stream ps) false) :=
  ⟨rfl, rfl, [], ps, rfl, rfl, Or.inl ⟨rfl, rfl⟩⟩

theorem Inv.arrive {ps : List Packet} {c : Conn} (hi : Inv ps c) (n : Nat) :
    Inv ps { c with sock := c.sock.arrive n } := by
  obtain ⟨hl, hc, done, todo, hps, hd, hcut⟩ := hi
  refine ⟨hl, hc, done, todo, hps, hd, ?_⟩
  rcases hcut with h | ⟨p, k, rest, ht, h⟩
  · exact Or.inl ⟨h.flag, by rw [Sock.arrive_unread]; exact h.unread⟩
  · exact Or.inr ⟨p, k, rest, ht, { h with unread := by rw [Sock.arrive_unread]; exact h.unread }⟩

/-- A second `recv` that takes something keeps the invariant. -/
theorem Inv.recvBody {done rest : List Packet} {p : Packet} {h : Nat} {c : Conn} {io : Io}
    (hw : Within p h rest c) (hl : c.status = .live) (hc : c.sock.closed = false)
    (hd : c.pushed = done.map Packet.bytes) (ha : (c.sock.arrive io.late).avail ≠ []) :
    Inv (done ++ p :: rest) (c.recvBody io) := by
  obtain ⟨hs, hcut⟩ := recvBody_within hw ha
  have hstays : (c.recvBody io).sock.closed = false := by rw [recvBody_sock]; simpa using hc
  rcases hcut with ⟨hp, hidle⟩ | ⟨hp, k, hw'⟩
  · exact ⟨hs.trans hl, hstays, done ++ [p], rest, by simp, by simp [hp, hd], Or.inl hidle⟩
  · exact ⟨hs.trans hl, hstays, done, p :: rest, rfl, hp.trans hd, Or.inr ⟨p, k, rest, rfl, hw'⟩⟩

theorem recvHead_arrive (c : Conn) (io : Io) (hn : Proto.headSize ≤ io.n1)
    (ha : Proto.headSize ≤ c.sock.avail.length) :
    ((c.recvHead io).sock.arrive io.late).avail.length + Proto.headSize = (c.sock.arrive io.late).avail.length := by
  obtain ⟨-, -, hs⟩ := Sock.recv_whole (s := c.sock) (by decide) hn ha
  simp only [recvHead, hs, Sock.arrive, List.length_append, List.length_drop]
  omega

/-- A call that gets the header whole keeps the invariant when more than the header has
    come, and else loses the connection. -/
theorem epollRead_inv {ps : List Packet} {c : Conn} {io : Io} (hi : Inv ps c) (hne : c.sock.avail ≠ [])
    (hh : HeadWhole c (.epollRead io)) :
    (Followed c (.epollRead io) → Inv ps (c.epollRead io)) ∧
      (¬ Followed c (.epollRead io) → (c.epollRead io).status = .faulted) := by
  obtain ⟨hl, hc, done, todo, rfl, hd, hcut⟩ := hi
  rcases hcut with hidle | ⟨p, h, rest, rfl, hw⟩
  · by_cases ha : Proto.headSize ≤ c.sock.avail.length
    · obtain ⟨p, rest, rfl⟩ : ∃ p rest, todo = p :: rest := by
        cases todo with
        | nil => exact absurd (List.append_eq_nil_iff.mp hidle.unread).1 hne
        | cons p rest => exact ⟨p, rest, rfl⟩
      have hn := hh hidle.flag ha
      have hw := recvHead_within hidle ha hn
      have harr := recvHead_arrive c io hn ha
      have hstays : (c.recvHead io).sock.closed = false := by simpa [recvHead] using hc
      rw [epollRead_head hidle.flag ha]
      refine ⟨?_, ?_⟩
      · intro hf
        have hmore := hf hidle.flag ha
        refine Inv.recvBody hw hl hstays hd ?_
        rw [← List.length_pos_iff]
        omega
      · intro hf
        have hnone : (c.sock.arrive io.late).avail.length ≤ Proto.headSize :=
          Nat.not_lt.mp fun h => hf fun _ _ => h
        exact recvBody_nothing hstays (List.length_eq_zero_iff.mp (by omega))
    · rw [epollRead_short hidle.flag hne ha]
      exact ⟨fun _ => ⟨hl, hc, done, todo, rfl, hd, Or.inl hidle⟩, fun hf => absurd (fun _ h => absurd h ha) hf⟩
  · have harr : (c.sock.arrive io.late).avail ≠ [] := by
      have := c.sock.arrive_avail_length io.late
      rw [← List.length_pos_iff] at hne ⊢
      omega
    rw [epollRead_body hw.flag hne]
    refine ⟨fun _ => Inv.recvBody hw hl hc hd harr, fun hf => absurd (fun h => ?_) hf⟩
    simp [hw.flag] at h

theorem stream_append (ps qs : List Packet) : stream (ps ++ qs) = stream ps ++ stream qs := by
  simp [stream]

/-- The peer sends more packets. -/
theorem Inv.peerSends {ps : List Packet} {c : Conn} (hi : Inv ps c) (qs : List Packet) :
    Inv (ps ++ qs) { c with sock := c.sock.peerSends (stream qs) } := by
  obtain ⟨hl, hc, done, todo, rfl, hd, hcut⟩ := hi
  refine ⟨hl, hc, done, todo ++ qs, by simp, hd, ?_⟩
  rcases hcut with h | ⟨p, k, rest, rfl, h⟩
  · exact Or.inl ⟨h.flag, by simp only [Sock.peerSends_unread, h.unread, stream_append]⟩
  · refine Or.inr ⟨p, k, rest ++ qs, rfl, { h with unread := ?_ }⟩
    simp only [Sock.peerSends_unread, h.unread, stream_append, List.append_assoc]

/-- What has been pushed stays. -/
theorem step_packList {c c' : Conn} {e : Ev} (h : step c e = some c') : c.packList <+: c'.packList := by
  have hbody : ∀ (c : Conn) (io : Io), c.packList <+: (c.recvBody io).packList := by
    intro c io
    unfold recvBody
    dsimp only
    split
    · exact List.prefix_rfl
    · split
      · exact List.prefix_append _ _
      · exact List.prefix_rfl
  cases e with
  | arrive n =>
    obtain rfl := Option.some.inj h
    exact List.prefix_rfl
  | epollRead io =>
    simp only [step] at h
    split at h
    · obtain rfl := Option.some.inj h
      unfold epollRead
      split
      · exact List.prefix_rfl
      · split
        · split
          · exact hbody c io
          · split
            · exact List.prefix_rfl
            · exact hbody (c.recvHead io) io
        · exact List.prefix_rfl
    · cases h

theorem Inv.framed {ps : List Packet} {c : Conn} (hi : Inv ps c) : Framed ps c := by
  obtain ⟨hl, hc, done, todo, rfl, hd, hcut⟩ := hi
  refine ⟨hl, ⟨todo.map Packet.bytes, by rw [hd, List.map_append]⟩, fun hu => ?_, fun hwire hne io => ?_⟩
  · rcases hcut with hidle | ⟨p, h, rest, rfl, hw⟩
    · cases todo with
      | nil => simpa using hd
      | cons p rest =>
        have hlen := congrArg List.length (hidle.unread.symm.trans hu)
        have := p.more
        rw [stream_cons, List.length_append, List.length_nil] at hlen
        omega
    · have hlen := congrArg List.length (hw.unread.symm.trans hu)
      have := hw.lt
      rw [List.length_append, List.length_drop, List.length_nil] at hlen
      omega
  · rcases hcut with hidle | ⟨p, h, rest, rfl, hw⟩
    · have hu := hidle.unread
      rw [Sock.unread, hwire, List.append_nil] at hu
      have ha : Proto.headSize ≤ c.sock.avail.length := by rw [hu]; exact (stream_more (hu ▸ hne)).le
      rw [epollRead_head hidle.flag ha]
      exact Nat.lt_of_le_of_lt (recvBody_unread_le _ io) (recvHead_unread_lt io hne)
    · have := hw.lt
      have harr : (c.sock.arrive io.late).avail ≠ [] := by
        have := c.sock.arrive_avail_length io.late
        rw [← List.length_pos_iff] at hne ⊢
        omega
      rw [epollRead_body hw.flag hne]
      exact recvBody_unread_lt io (by rw [hw.nres]; omega) harr

/-- The enabling condition with the peer there: something has arrived. -/
theorem step_epollRead {c c' : Conn} {io : Io} (hc : c.sock.closed = false) (h : step c (.epollRead io) = some c') :
    c.sock.avail ≠ [] ∧ c' = c.epollRead io := by
  simp only [step] at h
  split at h
  · rename_i hen
    refine ⟨?_, (Option.some.inj h).symm⟩
    simpa [Sock.Ready, hc] using hen.2
  · cases h

theorem step_inv {ps : List Packet} {c c' : Conn} {e : Ev} (hi : Inv ps c) (hh : HeadWhole c e)
    (h : step c e = some c') : (Followed c e → Inv ps c') ∧ (Framed ps c' → Followed c e) := by
  cases e with
  | arrive n =>
    obtain rfl := Option.some.inj h
    exact ⟨fun _ => hi.arrive n, fun _ => trivial⟩
  | epollRead io =>
    obtain ⟨hne, rfl⟩ := step_epollRead hi.stays h
    obtain ⟨hyes, hno⟩ := epollRead_inv hi hne hh
    refine ⟨hyes, fun hf => ?_⟩
    by_contra hn
    exact absurd (hf.live.symm.trans (hno hn)) (by decide)

/-- Whatever the packets and the segmentation: calls that get their header whole and
    something after it frame the stream, and of the runs whose headers come whole no
    others do. -/
theorem framed_of_followed (junk : Buf) (ps : List Packet) (es : List Ev) :
    (Along step (fun c e => HeadWhole c e ∧ Followed c e) (init junk (stream ps) false) es →
      Always step (Framed ps) (init junk (stream ps) false) es) ∧
    (Along step HeadWhole (init junk (stream ps) false) es →
      Always step (Framed ps) (init junk (stream ps) false) es →
      Along step Followed (init junk (stream ps) false) es) := by
  refine ⟨?_, ?_⟩
  · intro h
    refine Always.mono (fun _ => Inv.framed) (always_of_along ?_ (init_inv junk ps) h)
    exact fun _ _ _ hi hC hs => (step_inv hi hC.1 hs).1 hC.2
  · intro hh h
    exact along_of_always (fun _ _ _ hi hC hs => step_inv hi hC hs) (init_inv junk ps) hh h

/-- A 17-byte packet whose last byte arrives after the call that read its header. -/
theorem a_cut_after_the_header :
    ∃ p : Packet, ¬ Always step (Framed [p]) (init (fun _ => 0) (stream [p]) false)
      [.arrive 16, .epollRead ⟨fun _ => 0, 16, 0, 1⟩, .arrive 1] := by
  refine ⟨⟨[2, 0, 0, 0, 1, 0, 0, 0, 17, 0, 0, 0, 1, 0, 0, 0, 9], by decide, by decide, by decide⟩, fun h => ?_⟩
  have := (h.last rfl).live
  revert this
  decide

end Conn

end GroupeChat.ChatServer
