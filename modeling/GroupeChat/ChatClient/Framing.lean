/-
  GroupeChat.ChatClient.Framing — whether the client cuts its connection's bytes into the
  packets that the server sent.

  Seen through `server`, which counts the header among the bytes received, the client is
  the server's decoder: as long as the second `recv` of a round takes something, a round
  of the one is a call of the other (`readable_server`), and the decoder's invariant is
  the client's. It parts from it when that `recv` finds nothing: the client exits.

  `Framed` says that the client runs, that the packets pushed are the first of those
  sent, all of them once nothing is left to read, and that a round takes something as
  long as something is left. Whatever the segmentation, it is kept by the rounds that get
  their 16 header bytes and at least one more, and by no others that get their header
  whole (`rounds_framed_of_followed`); a packet cut right after its header ends the
  program (`a_header_alone_ends_the_client`).
-/

import GroupeChat.ChatClient.IoModel
import GroupeChat.ChatServer.EpollRead

namespace GroupeChat.ChatClient.IoModel

open Base ChatServer
open ChatServer.Conn (stream Idle Within)

def pushed (c : IoModel) : List (List UInt8) := c.readList.map fun b => b.read 0 (Proto.length b).toNat

/-- The client runs, has pushed the first of the packets, and goes on while there are bytes. -/
structure Framed (ps : List Conn.Packet) (c : IoModel) : Prop where
  live : c.status = .live
  first : c.pushed <+: ps.map Conn.Packet.bytes
  all : c.sock.unread = [] → c.pushed = ps.map Conn.Packet.bytes
  progress : c.sock.wire = [] → c.sock.avail ≠ [] →
    ∀ io, (c.readable io).sock.unread.length < c.sock.unread.length

/-- A header, when one is read, is read whole. -/
def HeadWhole (c : IoModel) : Ev → Prop
  | .arrive _ => True
  | .readable io =>
    c.userdata.recvHeadFlag = false → Proto.headSize ≤ c.sock.avail.length → Proto.headSize ≤ io.n1

/-- When a header is read, a byte of the rest is there by the second `recv`. -/
def Followed (c : IoModel) : Ev → Prop
  | .arrive _ => True
  | .readable io =>
    c.userdata.recvHeadFlag = false → Proto.headSize ≤ c.sock.avail.length →
      Proto.headSize < (c.sock.arrive io.late).avail.length

/-! ## The server's decoder in it -/

/-- The client's variables as the server keeps them. -/
def server (c : IoModel) : Conn where
  sock := c.sock
  recv := {
    mRecvBuff := c.userdata.recvbuff
    mRecvHeadFlag := c.userdata.recvHeadFlag
    mTotalLengthOfData := c.userdata.totalLengthOfData
    mLengthHasRecv := if c.userdata.recvHeadFlag then Proto.headSize + c.userdata.lengthHasRecv else 0 }
  packList := c.readList
  status := c.status
  calls := c.calls

def Io.server (io : Io) : Conn.Io := ⟨io.junk, io.n1, io.late, io.n2⟩

structure Synced (c : IoModel) : Prop where
  remain : c.userdata.recvHeadFlag = true → c.userdata.remainLengthtoRecv =
    wrap 4 (c.userdata.totalLengthOfData - (Proto.headSize + c.userdata.lengthHasRecv))
  idle : c.userdata.recvHeadFlag = false → c.userdata.lengthHasRecv = 0

/-- The rest of the packet is what the second `recv` asks for. -/
theorem Synced.nres {c : IoModel} (hs : Synced c) (hf : c.userdata.recvHeadFlag = true) :
    c.server.nres = toSize c.userdata.remainLengthtoRecv := by
  rw [hs.remain hf, Conn.nres]
  simp only [server, hf, if_true]

theorem recvHead_server {c : IoModel} (hs : Synced c) (hf : c.userdata.recvHeadFlag = false) (io : Io) :
    (c.recvHead io).server = c.server.recvHead io.server ∧ Synced (c.recvHead io) := by
  have h0 := hs.idle hf
  refine ⟨?_, ⟨fun _ => ?_, fun h => ?_⟩⟩
  · simp only [server, recvHead, Conn.recvHead, Io.server, h0, if_true, Int.add_zero]
  · simp only [recvHead, h0, Int.add_zero]
  · cases h

theorem recvBody_sock {c : IoModel} (hs : Synced c) (hf : c.userdata.recvHeadFlag = true) (io : Io) :
    (c.recvBody io).sock = (c.server.recvBody io.server).sock := by
  rw [Conn.recvBody_sock, hs.nres hf]
  unfold recvBody
  dsimp only
  split
  · split <;> rfl
  · rfl

/-- A second `recv` that takes something does to the client what it does to the server. -/
theorem recvBody_server {p : Conn.Packet} {h : Nat} {rest : List Conn.Packet} {c : IoModel} {io : Io} (hs : Synced c)
    (hw : Within p h rest c.server) (ha : (c.sock.arrive io.late).avail ≠ []) :
    (c.recvBody io).server = c.server.recvBody io.server ∧ Synced (c.recvBody io) := by
  have hf : c.userdata.recvHeadFlag = true := hw.flag
  have hnres := hs.nres hf
  have harrived : (c.server.sock.arrive io.server.late).avail ≠ [] := ha
  obtain ⟨k, hk, hle, -, -, hret⟩ := hw.received harrived
  have hfit : p.bytes.length ≤ 1436 := p.fits
  have hhead : (16 : Nat) ≤ h := hw.head
  have htotal : c.userdata.totalLengthOfData = p.bytes.length := hw.total
  have hhas : (Proto.headSize : Int) + c.userdata.lengthHasRecv = h := by
    have := hw.has
    simpa only [server, hf, if_true] using this
  have hh : (Proto.headSize : Int) = 16 := rfl
  have hremain : c.userdata.remainLengthtoRecv = p.bytes.length - h := by
    rw [hs.remain hf, htotal, hhas, wrap_four (by omega) (by omega)]
  have hnread : wrap 4 (k : Int) = k := wrap_four (by omega) (by omega)
  have hrest : wrap 4 (c.userdata.remainLengthtoRecv - k) = p.bytes.length - h - k := by
    rw [hremain, wrap_four (by omega) (by omega)]
  have hcount : wrap 4 (c.userdata.lengthHasRecv + k) = c.userdata.lengthHasRecv + k :=
    wrap_four (by omega) (by omega)
  have hserver : wrap 4 ((h : Int) + k) = h + k := wrap_four (by omega) (by omega)
  have hmine : ((c.sock.arrive io.late).recv (toSize c.userdata.remainLengthtoRecv) io.n2).ret = k := by
    rw [← hnres]
    exact hret
  have hpos : 0 < (k : Int) := by omega
  have hneg : ¬ (k : Int) < 0 := by omega
  simp only [Conn.recvBody, hret, hw.has, hw.total]
  simp only [recvBody, hmine, hnread, hneg, hpos, if_true, if_false, hrest, hcount, hserver, hnres]
  by_cases hend : h + k = p.bytes.length
  · have h0 : (p.bytes.length : Int) - h - k = 0 := by omega
    have heq : (h : Int) + k = p.bytes.length := by omega
    simp only [h0, heq, if_true]
    refine ⟨?_, ⟨fun h => (by cases h), fun _ => rfl⟩⟩
    simp [server, hhas, htotal, Io.server]
  · have h0 : ¬ (p.bytes.length : Int) - h - k = 0 := by omega
    have heq : ¬ (h : Int) + k = p.bytes.length := by omega
    simp only [h0, heq, if_false]
    refine ⟨?_, ⟨fun _ => ?_, fun h => absurd (hf.symm.trans h) (by decide)⟩⟩
    · simp [server, hhas, htotal, Io.server, hf]
      omega
    · dsimp only
      rw [← Int.add_assoc, hhas, htotal, wrap_four (by omega) (by omega)]
      omega

/-- One that finds nothing ends the program. -/
theorem recvBody_nothing {c : IoModel} {io : Io} (hc : c.sock.closed = false)
    (ha : (c.sock.arrive io.late).avail = []) : (c.recvBody io).status = .dropped := by
  have hret := Sock.recv_again (s := c.sock.arrive io.late) (toSize c.userdata.remainLengthtoRecv) io.n2 ha hc
  have hpos : ¬ 0 < wrap 4 (-1) := by decide
  simp only [recvBody, hret, hpos, if_false, exit]

/-! ## A round -/

theorem readable_head {c : IoModel} {io : Io} (hf : c.userdata.recvHeadFlag = false)
    (ha : Proto.headSize ≤ c.sock.avail.length) : c.readable io = (c.recvHead io).recvBody io := by
  have ha' : Proto.headSize ≠ 0 := by decide
  have hne : c.sock.avail ≠ [] := by rw [← List.length_pos_iff]; omega
  obtain ⟨hpos, hret⟩ := Sock.recv_pos io.n1 ha' hne
  have hret' : ¬ (c.sock.recv Proto.headSize io.n1).ret = 0 := by omega
  have h0 : ¬ c.sock.avail.length = 0 := by omega
  simp only [readable, h0, if_false, ha, true_or, if_true, hf, Bool.false_eq_true, hret']

theorem readable_short {c : IoModel} {io : Io} (hf : c.userdata.recvHeadFlag = false) (hne : c.sock.avail ≠ [])
    (ha : ¬ Proto.headSize ≤ c.sock.avail.length) : c.readable io = c := by
  have h0 : ¬ c.sock.avail.length = 0 := by simpa using hne
  simp only [readable, h0, if_false, ha, hf, Bool.false_eq_true, or_self]

theorem readable_body {c : IoModel} {io : Io} (hf : c.userdata.recvHeadFlag = true) (hne : c.sock.avail ≠ []) :
    c.readable io = c.recvBody io := by
  have h0 : ¬ c.sock.avail.length = 0 := by simpa using hne
  simp only [readable, h0, if_false, hf, or_true, if_true]

/-- The two programs take the same bytes. -/
theorem readable_sock {c : IoModel} (hs : Synced c) (hne : c.sock.avail ≠ []) (io : Io) :
    (c.readable io).sock = (c.server.epollRead io.server).sock := by
  by_cases hf : c.userdata.recvHeadFlag = true
  · rw [readable_body hf hne, recvBody_sock hs hf, Conn.epollRead_body hf hne]
  · have hf : c.userdata.recvHeadFlag = false := by simpa using hf
    by_cases ha : Proto.headSize ≤ c.sock.avail.length
    · obtain ⟨hhead, hs'⟩ := recvHead_server hs hf io
      rw [readable_head hf ha, recvBody_sock hs' rfl, hhead, Conn.epollRead_head (c := c.server) hf ha]
    · rw [readable_short hf hne ha, Conn.epollRead_short (c := c.server) hf hne ha]
      rfl

structure Inv (ps : List Conn.Packet) (c : IoModel) : Prop where
  server : Conn.Inv ps c.server
  synced : Synced c

/-- A round that gets its header whole is the server's call when more than the header has
    come, and else ends the program. -/
theorem readable_server {ps : List Conn.Packet} {c : IoModel} {io : Io} (hi : Inv ps c) (hne : c.sock.avail ≠ [])
    (hh : HeadWhole c (.readable io)) :
    (Followed c (.readable io) → (c.readable io).server = c.server.epollRead io.server ∧ Synced (c.readable io)) ∧
      (¬ Followed c (.readable io) → (c.readable io).status = .dropped) := by
  obtain ⟨hserver, hs⟩ := hi
  obtain ⟨-, hstays, done, todo, -, -, hcut⟩ := hserver
  have hc : c.sock.closed = false := hstays
  rcases hcut with hidle | ⟨p, h, rest, -, hw⟩
  · have hf : c.userdata.recvHeadFlag = false := hidle.flag
    by_cases ha : Proto.headSize ≤ c.sock.avail.length
    · obtain ⟨p, rest, rfl⟩ : ∃ p rest, todo = p :: rest := by
        cases todo with
        | nil => exact absurd (List.append_eq_nil_iff.mp hidle.unread).1 hne
        | cons p rest => exact ⟨p, rest, rfl⟩
      have hn : Proto.headSize ≤ io.server.n1 := hh hf ha
      obtain ⟨hhead, hs'⟩ := recvHead_server hs hf io
      have hw := Conn.recvHead_within hidle ha hn
      have harr := Conn.recvHead_arrive c.server io.server hn ha
      rw [← hhead] at hw harr
      rw [readable_head hf ha, Conn.epollRead_head (c := c.server) hf ha, ← hhead]
      refine ⟨?_, ?_⟩
      · intro hfollow
        have hmore := hfollow hf ha
        refine recvBody_server hs' hw ?_
        rw [← List.length_pos_iff]
        change _ + _ = (c.sock.arrive io.late).avail.length at harr
        change 0 < ((c.recvHead io).server.sock.arrive io.server.late).avail.length
        omega
      · intro hfollow
        have hnone : (c.sock.arrive io.late).avail.length ≤ Proto.headSize :=
          Nat.not_lt.mp fun h => hfollow fun _ _ => h
        have hstays : (c.recvHead io).sock.closed = false := by simpa [recvHead] using hc
        change _ + _ = (c.sock.arrive io.late).avail.length at harr
        refine recvBody_nothing hstays (List.length_eq_zero_iff.mp ?_)
        change ((c.recvHead io).server.sock.arrive io.server.late).avail.length = 0
        omega
    · rw [readable_short hf hne ha, Conn.epollRead_short (c := c.server) hf hne ha]
      exact ⟨fun _ => ⟨rfl, hs⟩, fun hfollow => absurd (fun _ h => absurd h ha) hfollow⟩
  · have hf : c.userdata.recvHeadFlag = true := hw.flag
    have harr : (c.sock.arrive io.late).avail ≠ [] := by
      have := c.sock.arrive_avail_length io.late
      rw [← List.length_pos_iff] at hne ⊢
      omega
    rw [readable_body hf hne, Conn.epollRead_body (c := c.server) hf hne]
    refine ⟨fun _ => recvBody_server hs hw harr, fun hfollow => absurd (fun h => ?_) hfollow⟩
    simp [hf] at h

/-! ## Runs -/

theorem Inv.framed {ps : List Conn.Packet} {c : IoModel} (hi : Inv ps c) : Framed ps c := by
  have hframed := hi.server.framed
  refine ⟨hframed.live, hframed.first, hframed.all, fun hwire hne io => ?_⟩
  rw [readable_sock hi.synced hne]
  exact hframed.progress hwire hne io.server

theorem init_inv (junk : UserData) (ps : List Conn.Packet) : Inv ps (init junk (stream ps) false) where
  server := Conn.init_inv junk.recvbuff ps
  synced := ⟨fun h => (by cases h), fun _ => rfl⟩

/-- The server sends more packets. -/
theorem Inv.peerSends {ps : List Conn.Packet} {c : IoModel} (hi : Inv ps c) (qs : List Conn.Packet) :
    Inv (ps ++ qs) { c with sock := c.sock.peerSends (stream qs) } :=
  ⟨hi.server.peerSends qs, hi.synced.remain, hi.synced.idle⟩

theorem step_inv {ps : List Conn.Packet} {c c' : IoModel} {e : Ev} (hi : Inv ps c) (hh : HeadWhole c e)
    (h : step c e = some c') : (Followed c e → Inv ps c') ∧ (Framed ps c' → Followed c e) := by
  cases e with
  | arrive n =>
    obtain rfl := Option.some.inj h
    exact ⟨fun _ => ⟨hi.server.arrive n, hi.synced.remain, hi.synced.idle⟩, fun _ => trivial⟩
  | readable io =>
    simp only [step] at h
    split at h
    · rename_i hen
      obtain rfl := Option.some.inj h
      have hc : c.sock.closed = false := hi.server.stays
      have hne : c.sock.avail ≠ [] := by simpa [Sock.Ready, hc] using hen.2
      obtain ⟨hyes, hno⟩ := readable_server hi hne hh
      refine ⟨?_, ?_⟩
      · intro hf
        obtain ⟨heq, hs⟩ := hyes hf
        have hwhole : c.server.HeadWhole (.epollRead io.server) := hh
        exact ⟨by rw [heq]; exact (Conn.epollRead_inv hi.server hne hwhole).1 hf, hs⟩
      · intro hframed
        by_contra hf
        exact absurd (hframed.live.symm.trans (hno hf)) (by decide)
    · cases h

/-- Whatever the packets and the segmentation: rounds that get their header whole and
    something after it frame the stream, and of the runs whose headers come whole no
    others do. -/
theorem rounds_framed_of_followed (junk : UserData) (ps : List Conn.Packet) (es : List Ev) :
    (Along step (fun c e => HeadWhole c e ∧ Followed c e) (init junk (stream ps) false) es →
      Always step (Framed ps) (init junk (stream ps) false) es) ∧
    (Along step HeadWhole (init junk (stream ps) false) es →
      Always step (Framed ps) (init junk (stream ps) false) es →
      Along step Followed (init junk (stream ps) false) es) := by
  refine ⟨?_, ?_⟩
  · intro h
    refine Always.mono (fun _ => Inv.framed) (always_of_along ?_ (init_inv junk ps) h)
    exact fun _ _ _ hi hC hs => (step_inv hi hC.1 hs).1 hC.2
  · intro hh h
    exact along_of_always (fun _ _ _ hi hC hs => step_inv hi hC hs) (init_inv junk ps) hh h

/-- A 17-byte packet whose last byte arrives after the round that read its header. -/
theorem a_header_alone_ends_the_client :
    ∃ p : Conn.Packet, ¬ Always step (Framed [p])
      (init ⟨fun _ => 0, false, false, 0, 0, 0⟩ (stream [p]) false)
      [.arrive 16, .readable ⟨fun _ => 0, 16, 0, 1⟩, .arrive 1] := by
  refine ⟨⟨[2, 0, 0, 0, 1, 0, 0, 0, 17, 0, 0, 0, 1, 0, 0, 0, 9], by decide, by decide, by decide⟩, fun h => ?_⟩
  have := (h.last rfl).live
  revert this
  decide

end GroupeChat.ChatClient.IoModel
