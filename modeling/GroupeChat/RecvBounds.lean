/-
  GroupeChat.RecvBounds — whether the three TCP receivers stay inside their buffers.

  Each receiver takes a packet's length from its header unchecked and asks for the
  difference between it and what it has, an int that `recv` gets as a `size_t`. With
  every announced length between a header and the buffer, the difference is what is left
  of the packet, and every `recv` stores inside (`Conn.bounded_step`,
  `Login.bounded_step`, `IoModel.bounded_step`). Any other length lets the peer write past
  the end with its next bytes (`Conn.overrun`, `Login.overrun`, `IoModel.overrun`). So the
  lengths a receiver is safe against are exactly those (`recv_inside_iff`).
-/

import GroupeChat.ChatClient.IoModel
import GroupeChat.ChatServer.EpollRead
import GroupeChat.ChatServer.Login

namespace GroupeChat

open Base

def Fits (cap : Nat) (v : Int) : Prop := (Proto.headSize : Int) ≤ v ∧ v ≤ cap

instance (cap : Nat) : DecidablePred (Fits cap) := fun v =>
  inferInstanceAs (Decidable ((Proto.headSize : Int) ≤ v ∧ v ≤ cap))

/-- Every `recv` stored inside a buffer of `cap` bytes. -/
def AllInside (cap : Nat) (calls : List RecvCall) : Prop := ∀ r ∈ calls, r.Inside cap

instance (cap : Nat) : DecidablePred (AllInside cap) := fun calls =>
  inferInstanceAs (Decidable (∀ r ∈ calls, r.Inside cap))

theorem AllInside.snoc {cap : Nat} {calls : List RecvCall} {off : Int} {size : Nat} {s : Sock} {n : Nat}
    (h : AllInside cap calls) (hoff : 0 ≤ off) (hsize : off + size ≤ cap) :
    AllInside cap (calls ++ [RecvCall.mk off size (s.recv size n).bytes.length]) := by
  intro r hr
  rcases List.mem_append.mp hr with hr | hr
  · exact h r hr
  · obtain rfl := List.mem_singleton.mp hr
    have := s.recv_length_le size n
    exact ⟨hoff, by simp only; omega⟩

/-- What a `recv` that succeeded returned, as an int. -/
theorem nread_eq {s : Sock} {size n : Nat} (hsize : size ≤ 2000) (h : ¬ wrap 4 (s.recv size n).ret < 0) :
    wrap 4 (s.recv size n).ret = (s.recv size n).bytes.length := by
  have hle := s.recv_length_le size n
  rcases s.recv_ret size n with hr | ⟨hr, -⟩
  · rw [hr, wrap_four (by omega) (by omega)]
  · rw [hr] at h
    exact absurd (show wrap 4 (-1) < 0 by decide) h

def IsInt (v : Int) : Prop := -2147483648 ≤ v ∧ v < 2147483648

instance : DecidablePred IsInt := fun v => inferInstanceAs (Decidable (-2147483648 ≤ v ∧ v < 2147483648))

theorem isInt_length (p : Buf) : IsInt (Proto.length p) := Mem.getInt_four_bounds p 8

/-- A `recv` right after the header that asks for more than the buffer has left, with a
    bufferful there to take, stores past the end. -/
theorem flood {s : Sock} {cap size n : Nat} {calls : List RecvCall} (hcap : Proto.headSize ≤ cap) (hn : n = cap)
    (ha : s.avail = List.replicate cap 0) (hs : ¬ Proto.headSize + size ≤ cap) :
    ¬ AllInside cap (calls ++ [RecvCall.mk Proto.headSize size (s.recv size n).bytes.length]) := by
  have hh : Proto.headSize = 16 := rfl
  have hlen : s.avail.length = cap := by rw [ha, List.length_replicate]
  have hne : s.avail ≠ [] := by rw [← List.length_pos_iff]; omega
  have hrecv : (s.recv size n).bytes.length = _ := Sock.recv_length n hne
  intro h
  obtain ⟨-, h⟩ := h _ (List.mem_append_right _ (List.mem_singleton_self _))
  simp only [hrecv, hlen] at h
  omega

/-- A header announcing `v`, and `cap` bytes more. -/
def overrunStream (cmdId v : Int) (cap : Nat) : List UInt8 :=
  Proto.headBytes cmdId 0 v 0 ++ List.replicate cap 0

theorem overrunStream_head_le (cmdId v : Int) (cap : Nat) : Proto.headSize ≤ (overrunStream cmdId v cap).length := by
  rw [overrunStream, List.length_append, Proto.headBytes_length]
  omega

/-- The whole stream there, a `recv` of the header leaves the `cap` bytes. -/
theorem overrun_head (cmdId v : Int) (cap : Nat) (wire : List UInt8) (closed : Bool) :
    let s : Sock := ⟨overrunStream cmdId v cap, wire, closed⟩
    (s.recv Proto.headSize Proto.headSize).bytes = Proto.headBytes cmdId 0 v 0 ∧
      (s.recv Proto.headSize Proto.headSize).ret = Proto.headSize ∧
      (s.recv Proto.headSize Proto.headSize).sock = ⟨List.replicate cap 0, wire, closed⟩ := by
  intro s
  have hlen := Proto.headBytes_length cmdId 0 v 0
  obtain ⟨hb, hr, hs⟩ := Sock.recv_whole (s := s) (by decide) (Nat.le_refl _) (overrunStream_head_le cmdId v cap)
  refine ⟨?_, hr, ?_⟩
  · rw [hb]; exact List.take_left' hlen
  · rw [hs]
    show Sock.mk ((overrunStream cmdId v cap).drop Proto.headSize) _ _ = _
    rw [overrunStream, List.drop_left' hlen]

/-- All of it arrives. -/
theorem overrun_arrive (cmdId v : Int) (cap : Nat) (closed : Bool) :
    Sock.arrive ⟨[], overrunStream cmdId v cap, closed⟩ (Proto.headSize + cap) =
      ⟨overrunStream cmdId v cap, [], closed⟩ := by
  have hlen : (overrunStream cmdId v cap).length = Proto.headSize + cap := by
    rw [overrunStream, List.length_append, Proto.headBytes_length, List.length_replicate]
  rw [Sock.arrive, ← hlen, List.take_length, List.drop_length, List.nil_append]

theorem headBytes_read (m : Buf) (cmdId v : Int) :
    (m.write 0 (Proto.headBytes cmdId 0 v 0)).read 0 Proto.headSize = Proto.headBytes cmdId 0 v 0 := by
  have h := Mem.read_write_same m 0 (Proto.headBytes cmdId 0 v 0)
  rwa [Proto.headBytes_length] at h

namespace ChatServer.Conn

/-- Every header that is read announces a length in `L`. -/
def Announces (L : Int → Prop) (c : Conn) : Ev → Prop
  | .arrive _ => True
  | .epollRead io =>
    c.recv.mRecvHeadFlag = false → Proto.headSize ≤ c.sock.avail.length → L (Proto.length (c.recvHead io).recv.mRecvBuff)

theorem Announces.mono {L M : Int → Prop} (h : ∀ v, IsInt v → L v → M v) (c : Conn) (e : Ev)
    (ha : Announces L c e) : Announces M c e := by
  cases e with
  | arrive n => trivial
  | epollRead io => exact fun hf hl => h _ (isInt_length _) (ha hf hl)

structure Bounded (c : Conn) : Prop where
  calls : AllInside Proto.packSize c.calls
  body : c.recv.mRecvHeadFlag = true → (Proto.headSize : Int) ≤ c.recv.mLengthHasRecv ∧
    c.recv.mLengthHasRecv ≤ c.recv.mTotalLengthOfData ∧ c.recv.mTotalLengthOfData ≤ Proto.packSize

theorem recvHead_total (c : Conn) (io : Io) :
    (c.recvHead io).recv.mTotalLengthOfData = Proto.length (c.recvHead io).recv.mRecvBuff := by
  simp only [recvHead]

theorem recvHead_bounded {c : Conn} {io : Io} (hb : Bounded c)
    (hl : Fits Proto.packSize (Proto.length (c.recvHead io).recv.mRecvBuff)) : Bounded (c.recvHead io) := by
  rw [← recvHead_total] at hl
  exact ⟨hb.calls.snoc (by decide) (by decide), fun _ => ⟨Int.le_refl _, hl.1, hl.2⟩⟩

theorem recvBody_bounded {c : Conn} {io : Io} (hb : Bounded c) (hf : c.recv.mRecvHeadFlag = true) :
    Bounded (c.recvBody io) := by
  obtain ⟨h1, h2, h3⟩ := hb.body hf
  have hh : (Proto.headSize : Int) = 16 := rfl
  have hp : (Proto.packSize : Int) = 1436 := rfl
  have hn : (c.nres : Int) = c.recv.mTotalLengthOfData - c.recv.mLengthHasRecv := by
    rw [nres, wrap_four (by omega) (by omega), toSize_of_nonneg (by omega) (by omega)]
    omega
  have hcalls := hb.calls.snoc (s := c.sock.arrive io.late) (n := io.n2) (show 0 ≤ c.recv.mLengthHasRecv by omega)
    (show c.recv.mLengthHasRecv + c.nres ≤ Proto.packSize by omega)
  have hle := (c.sock.arrive io.late).recv_length_le c.nres io.n2
  unfold recvBody
  dsimp only
  split
  · exact ⟨hcalls, fun _ => ⟨h1, h2, h3⟩⟩
  · rename_i hneg
    have hnread := nread_eq (by omega) hneg
    split
    · exact ⟨hcalls, fun h => by cases h⟩
    · refine ⟨hcalls, fun _ => ?_⟩
      simp only [hnread]
      rw [wrap_four (by omega) (by omega)]
      exact ⟨by omega, by omega, h3⟩

theorem bounded_step {c c' : Conn} {e : Ev} (hb : Bounded c) (hl : Announces (Fits Proto.packSize) c e)
    (h : step c e = some c') : Bounded c' := by
  cases e with
  | arrive n =>
    obtain rfl := Option.some.inj h
    exact ⟨hb.calls, hb.body⟩
  | epollRead io =>
    simp only [step] at h
    split at h
    · obtain rfl := Option.some.inj h
      unfold epollRead
      split
      · exact ⟨hb.calls, hb.body⟩
      · rename_i h0
        split
        · rename_i hor
          split
          · rename_i hf
            exact recvBody_bounded hb hf
          · rename_i hf
            have hf : c.recv.mRecvHeadFlag = false := by simpa using hf
            have hhead := recvHead_bounded hb (hl hf (by simpa [hf] using hor))
            split
            · exact ⟨hhead.calls, hhead.body⟩
            · exact recvBody_bounded hhead rfl
        · exact hb
    · cases h

theorem init_bounded (junk : Buf) (stream : List UInt8) (closed : Bool) : Bounded (init junk stream closed) :=
  ⟨fun _ h => absurd h List.not_mem_nil, nofun⟩

def overrunRun : List Ev :=
  [.arrive (Proto.headSize + Proto.packSize), .epollRead ⟨fun _ => 0, Proto.headSize, 0, Proto.packSize⟩]

theorem recvBody_calls (c : Conn) (io : Io) :
    (c.recvBody io).calls =
      c.calls ++ [RecvCall.mk c.recv.mLengthHasRecv c.nres ((c.sock.arrive io.late).recv c.nres io.n2).bytes.length] := by
  unfold recvBody
  dsimp only
  split
  · rfl
  · split <;> rfl

/-- A length that does not fit lets the peer past the end. -/
theorem overrun {v : Int} (hv : IsInt v) (hfit : ¬ Fits Proto.packSize v) (junk : Buf) :
    Along step (Announces (· = v)) (init junk (overrunStream 2 v Proto.packSize) false) overrunRun ∧
      ¬ Always step (fun c => AllInside Proto.packSize c.calls)
        (init junk (overrunStream 2 v Proto.packSize) false) overrunRun := by
  obtain ⟨io, hio⟩ : ∃ io : Io, io = ⟨fun _ => 0, Proto.headSize, 0, Proto.packSize⟩ := ⟨_, rfl⟩
  obtain ⟨t, ht⟩ : ∃ t : Conn, t = ⟨⟨overrunStream 2 v Proto.packSize, [], false⟩, .new junk, [], .live, []⟩ := ⟨_, rfl⟩
  obtain ⟨hb, -, hs⟩ := overrun_head 2 v Proto.packSize [] false
  have harr : step (init junk (overrunStream 2 v Proto.packSize) false) (.arrive (Proto.headSize + Proto.packSize)) =
      some t := by
    rw [ht]; simp only [step, init, overrun_arrive]
  have hlen : Proto.length (t.recvHead io).recv.mRecvBuff = v := by
    rw [ht, hio]
    simp only [recvHead, hb]
    rw [Proto.length_headBytes (headBytes_read _ 2 v), wrap_four hv.1 hv.2]
  have hsock : ((t.recvHead io).sock.arrive io.late).avail = List.replicate Proto.packSize 0 := by
    rw [ht, hio]
    simp [recvHead, hs, Sock.arrive]
  have ha : Proto.headSize ≤ t.sock.avail.length := by
    rw [ht]
    exact overrunStream_head_le _ v _
  have hstep : step t (.epollRead io) = some ((t.recvHead io).recvBody io) := by
    have hready : t.status = .live ∧ t.sock.Ready := by
      refine ⟨by rw [ht], Or.inl ?_⟩
      rw [← List.length_pos_iff]
      exact Nat.lt_of_lt_of_le (by decide) ha
    simp only [step, hready, and_self, if_true, epollRead_head (show t.recv.mRecvHeadFlag = false by rw [ht]; rfl) ha]
  have hsize : ¬ Proto.headSize + (t.recvHead io).nres ≤ Proto.packSize := by
    rw [nres, recvHead_total, hlen]
    exact fun h => hfit ((toSize_rest_le_iff hv.1 hv.2 (by decide) (by decide)).mp h)
  have hout : ¬ AllInside Proto.packSize ((t.recvHead io).recvBody io).calls := by
    rw [recvBody_calls]
    exact flood (by decide) (by rw [hio]) hsock hsize
  subst hio
  exact two_steps harr hstep trivial (fun _ _ => hlen) hout

end ChatServer.Conn

namespace ChatServer.Login

def Announces (L : Int → Prop) (c : Login) : Ev → Prop
  | .epollIn io =>
    c.user.recvHeadFlag = true → Proto.headSize ≤ c.sock.avail.length →
      Proto.cmdId (c.recvHead io).user.recvbuff = CmdId.login.code → L (Proto.length (c.recvHead io).user.recvbuff)
  | _ => True

theorem Announces.mono {L M : Int → Prop} (h : ∀ v, IsInt v → L v → M v) (c : Login) (e : Ev)
    (ha : Announces L c e) : Announces M c e := by
  cases e with
  | epollIn io => exact fun hf hl hcmd => h _ (isInt_length _) (ha hf hl hcmd)
  | _ => trivial

structure Bounded (c : Login) : Prop where
  calls : AllInside Unloginuser.recvbuffSize c.calls
  body : c.user.recvHeadFlag = false →
    0 ≤ c.user.remainLengthofRecv ∧ Proto.headSize + c.user.remainLengthofRecv ≤ Unloginuser.recvbuffSize

theorem recvHead_bounded {c : Login} (hb : Bounded c) (io : Io) : Bounded (c.recvHead io) :=
  ⟨hb.calls.snoc (by decide) (by decide), hb.body⟩

theorem expectBody_bounded {c : Login} (hb : Bounded c)
    (hl : Fits Unloginuser.recvbuffSize (Proto.length c.user.recvbuff)) : Bounded c.expectBody := by
  have hh : (Proto.headSize : Int) = 16 := rfl
  have hp : (Unloginuser.recvbuffSize : Int) = 1500 := rfl
  obtain ⟨h1, h2⟩ := hl
  constructor
  case calls =>
    simp only [expectBody]
    exact hb.calls
  case body =>
    intro _
    simp only [expectBody]
    rw [wrap_four (by omega) (by omega)]
    omega

theorem recvBody_bounded {c : Login} {io : Io} (hb : Bounded c) (hf : c.user.recvHeadFlag = false) :
    Bounded (c.recvBody io) := by
  obtain ⟨h1, h2⟩ := hb.body hf
  have hh : (Proto.headSize : Int) = 16 := rfl
  have hp : (Unloginuser.recvbuffSize : Int) = 1500 := rfl
  have hn : (toSize c.user.remainLengthofRecv : Int) = c.user.remainLengthofRecv := by
    rw [toSize_of_nonneg (by omega) (by omega)]
    omega
  have hcalls := hb.calls.snoc (s := c.sock.arrive io.late) (n := io.n2) (show (0 : Int) ≤ Proto.headSize by omega)
    (show Proto.headSize + (toSize c.user.remainLengthofRecv : Int) ≤ Unloginuser.recvbuffSize by omega)
  have hle := (c.sock.arrive io.late).recv_length_le (toSize c.user.remainLengthofRecv) io.n2
  unfold recvBody
  dsimp only
  split
  · rename_i hpos
    have hnread := nread_eq (by omega) (Int.not_lt.mpr (Int.le_of_lt hpos))
    refine ⟨hcalls, fun _ => ?_⟩
    simp only [hnread]
    rw [wrap_four (by omega) (by omega)]
    omega
  · exact ⟨hcalls, fun _ => ⟨h1, h2⟩⟩

theorem epollIn_bounded {c : Login} {io : Io} (hb : Bounded c)
    (hl : Announces (Fits Unloginuser.recvbuffSize) c (.epollIn io)) : Bounded (c.epollIn io) := by
  have hhead := recvHead_bounded hb io
  unfold epollIn
  split
  · exact ⟨hb.calls, hb.body⟩
  · split
    · rename_i hor
      split
      · rename_i hf
        split
        · exact ⟨hhead.calls, hhead.body⟩
        · split
          · rename_i hcmd
            exact recvBody_bounded (expectBody_bounded hhead (hl hf (by simpa [hf] using hor) hcmd)) rfl
          · exact ⟨hhead.calls, hhead.body⟩
      · rename_i hf
        exact recvBody_bounded hb (by simpa using hf)
    · unfold timeoutFunc
      split
      · exact ⟨hb.calls, hb.body⟩
      · exact hb

theorem bounded_step {c c' : Login} {e : Ev} (hb : Bounded c) (hl : Announces (Fits Unloginuser.recvbuffSize) c e)
    (h : step c e = some c') : Bounded c' := by
  obtain ⟨-, -, rfl⟩ := step_eq h
  cases e with
  | epollIn io => exact epollIn_bounded hb hl
  | epollOut nread =>
    simp only [effect, epollOut]
    split
    · exact ⟨hb.calls, hb.body⟩
    · split <;> exact ⟨hb.calls, hb.body⟩
  | _ => exact ⟨hb.calls, hb.body⟩

theorem recvBody_calls (c : Login) (io : Io) :
    (c.recvBody io).calls = c.calls ++ [RecvCall.mk Proto.headSize (toSize c.user.remainLengthofRecv)
      ((c.sock.arrive io.late).recv (toSize c.user.remainLengthofRecv) io.n2).bytes.length] := by
  unfold recvBody
  dsimp only
  split <;> rfl

theorem init_bounded (junk : Unloginuser) (socket userId now : Int) (stream : List UInt8) (closed : Bool) :
    Bounded (init junk socket userId now stream closed) :=
  ⟨fun _ h => absurd h List.not_mem_nil, nofun⟩

def overrunRun : List Ev :=
  [.arrive (Proto.headSize + Unloginuser.recvbuffSize), .epollIn ⟨Proto.headSize, 0, Unloginuser.recvbuffSize, 0⟩]

def overrunInit (junk : Unloginuser) (socket userId now v : Int) : Login :=
  init junk socket userId now (overrunStream CmdId.login.code v Unloginuser.recvbuffSize) false

theorem overrun {v : Int} (hv : IsInt v) (hfit : ¬ Fits Unloginuser.recvbuffSize v) (junk : Unloginuser)
    (socket userId now : Int) :
    Along step (Announces (· = v)) (overrunInit junk socket userId now v) overrunRun ∧
      ¬ Always step (fun c => AllInside Unloginuser.recvbuffSize c.calls) (overrunInit junk socket userId now v)
        overrunRun := by
  obtain ⟨io, hio⟩ : ∃ io : Io, io = ⟨Proto.headSize, 0, Unloginuser.recvbuffSize, 0⟩ := ⟨_, rfl⟩
  obtain ⟨t, ht⟩ : ∃ t : Login, t = { overrunInit junk socket userId now v with
      sock := ⟨overrunStream CmdId.login.code v Unloginuser.recvbuffSize, [], false⟩ } := ⟨_, rfl⟩
  obtain ⟨hb, hret, hs⟩ := overrun_head CmdId.login.code v Unloginuser.recvbuffSize [] false
  have hrun : t.running := by rw [ht]; exact init_running junk socket userId now [] false
  have harr : step (overrunInit junk socket userId now v) (.arrive (Proto.headSize + Unloginuser.recvbuffSize)) =
      some t := by
    have hinit : (overrunInit junk socket userId now v).running := init_running ..
    have hen : (overrunInit junk socket userId now v).enabled (.arrive (Proto.headSize + Unloginuser.recvbuffSize)) :=
      trivial
    rw [step_of hinit hen, ht]
    simp only [effect, overrunInit, init, overrun_arrive]
  have hbuff : (t.recvHead io).user.recvbuff =
      t.user.recvbuff.write 0 (Proto.headBytes CmdId.login.code 0 v 0) := by
    rw [ht, hio]
    simp only [recvHead, hb]
  have hread := headBytes_read t.user.recvbuff CmdId.login.code v
  rw [← hbuff] at hread
  have hlen : Proto.length (t.recvHead io).user.recvbuff = v := by
    rw [Proto.length_headBytes hread, wrap_four hv.1 hv.2]
  have hcmd : Proto.cmdId (t.recvHead io).user.recvbuff = CmdId.login.code := by
    rw [Proto.cmdId_headBytes hread]
    decide
  have hsock : ((t.recvHead io).expectBody.sock.arrive io.late).avail = List.replicate Unloginuser.recvbuffSize 0 := by
    rw [ht, hio]
    simp [expectBody, recvHead, hs, Sock.arrive]
  have ha : Proto.headSize ≤ t.sock.avail.length := by
    rw [ht]
    exact overrunStream_head_le _ v _
  have h0 : ¬ t.sock.avail.length = 0 := fun h => absurd (h ▸ ha) (by decide)
  have hstep : step t (.epollIn io) = some ((t.recvHead io).expectBody.recvBody io) := by
    have hlisten : t.listening := by rw [ht]; exact ⟨rfl, rfl⟩
    have harmed : t.armed = false := by rw [ht]; rfl
    have hready : t.sock.Ready := Or.inl fun h => h0 (by rw [h]; rfl)
    have hen : t.enabled (.epollIn io) := ⟨hlisten, harmed, hready⟩
    have hf : t.user.recvHeadFlag = true := by rw [ht]; rfl
    have hr : ¬ (t.sock.recv Proto.headSize io.n1).ret = 0 := by
      rw [ht, hio]
      rw [hret]
      decide
    rw [step_of hrun hen]
    simp only [effect, epollIn, h0, if_false, ha, true_or, if_true, hf, hr, hcmd]
  have hsize : ¬ Proto.headSize + toSize (t.recvHead io).expectBody.user.remainLengthofRecv ≤
      Unloginuser.recvbuffSize := by
    simp only [expectBody, hlen]
    exact fun h => hfit ((toSize_rest_le_iff hv.1 hv.2 (by decide) (by decide)).mp h)
  have hout : ¬ AllInside Unloginuser.recvbuffSize ((t.recvHead io).expectBody.recvBody io).calls := by
    rw [recvBody_calls]
    exact flood (by decide) (by rw [hio]) hsock hsize
  subst hio
  exact two_steps harr hstep trivial (fun _ _ _ => hlen) hout

end ChatServer.Login

namespace ChatClient.IoModel

def Announces (L : Int → Prop) (c : IoModel) : Ev → Prop
  | .arrive _ => True
  | .readable io =>
    c.userdata.recvHeadFlag = false → Proto.headSize ≤ c.sock.avail.length →
      L (Proto.length (c.recvHead io).userdata.recvbuff)

theorem Announces.mono {L M : Int → Prop} (h : ∀ v, IsInt v → L v → M v) (c : IoModel) (e : Ev)
    (ha : Announces L c e) : Announces M c e := by
  cases e with
  | arrive n => trivial
  | readable io => exact fun hf hl => h _ (isInt_length _) (ha hf hl)

structure Bounded (c : IoModel) : Prop where
  calls : AllInside Proto.packSize c.calls
  fresh : c.userdata.recvHeadFlag = false → c.userdata.lengthHasRecv = 0
  body : c.userdata.recvHeadFlag = true → 0 ≤ c.userdata.lengthHasRecv ∧ 0 ≤ c.userdata.remainLengthtoRecv ∧
    Proto.headSize + c.userdata.lengthHasRecv + c.userdata.remainLengthtoRecv ≤ Proto.packSize

theorem recvHead_rest (c : IoModel) (io : Io) : (c.recvHead io).userdata.remainLengthtoRecv =
    wrap 4 (Proto.length (c.recvHead io).userdata.recvbuff - Proto.headSize) := by
  simp only [recvHead]

theorem recvHead_bounded {c : IoModel} {io : Io} (hb : Bounded c) (hf : c.userdata.recvHeadFlag = false)
    (hl : Fits Proto.packSize (Proto.length (c.recvHead io).userdata.recvbuff)) : Bounded (c.recvHead io) := by
  have hh : (Proto.headSize : Int) = 16 := rfl
  have hp : (Proto.packSize : Int) = 1436 := rfl
  have h0 := hb.fresh hf
  obtain ⟨h1, h2⟩ := hl
  constructor
  case calls => exact hb.calls.snoc (by decide) (by decide)
  case fresh => intro h; cases h
  case body =>
    intro _
    simp only [recvHead] at h1 h2 ⊢
    rw [wrap_four (by omega) (by omega)]
    omega

theorem recvBody_bounded {c : IoModel} {io : Io} (hb : Bounded c) (hf : c.userdata.recvHeadFlag = true) :
    Bounded (c.recvBody io) := by
  obtain ⟨h1, h2, h3⟩ := hb.body hf
  have hh : (Proto.headSize : Int) = 16 := rfl
  have hp : (Proto.packSize : Int) = 1436 := rfl
  have hn : (toSize c.userdata.remainLengthtoRecv : Int) = c.userdata.remainLengthtoRecv := by
    rw [toSize_of_nonneg (by omega) (by omega)]
    omega
  have hcalls := hb.calls.snoc (s := c.sock.arrive io.late) (n := io.n2)
    (show 0 ≤ Proto.headSize + c.userdata.lengthHasRecv by omega)
    (show Proto.headSize + c.userdata.lengthHasRecv + (toSize c.userdata.remainLengthtoRecv : Int) ≤ Proto.packSize by
      omega)
  have hle := (c.sock.arrive io.late).recv_length_le (toSize c.userdata.remainLengthtoRecv) io.n2
  unfold recvBody
  dsimp only
  split
  · rename_i hpos
    have hnread := nread_eq (by omega) (Int.not_lt.mpr (Int.le_of_lt hpos))
    split
    · exact ⟨hcalls, fun _ => rfl, fun h => by cases h⟩
    · refine ⟨hcalls, fun h => absurd (hf.symm.trans h) (by decide), fun _ => ?_⟩
      simp only [hnread]
      rw [wrap_four (by omega) (by omega), wrap_four (by omega) (by omega)]
      omega
  · exact ⟨hcalls, hb.fresh, fun _ => ⟨h1, h2, h3⟩⟩

theorem bounded_step {c c' : IoModel} {e : Ev} (hb : Bounded c) (hl : Announces (Fits Proto.packSize) c e)
    (h : step c e = some c') : Bounded c' := by
  cases e with
  | arrive n =>
    obtain rfl := Option.some.inj h
    exact ⟨hb.calls, hb.fresh, hb.body⟩
  | readable io =>
    simp only [step] at h
    split at h
    · obtain rfl := Option.some.inj h
      unfold readable
      split
      · exact ⟨hb.calls, hb.fresh, hb.body⟩
      · split
        · rename_i hor
          split
          · rename_i hf
            exact recvBody_bounded hb hf
          · rename_i hf
            have hf : c.userdata.recvHeadFlag = false := by simpa using hf
            have hhead := recvHead_bounded hb hf (hl hf (by simpa [hf] using hor))
            split
            · exact ⟨hhead.calls, hhead.fresh, hhead.body⟩
            · exact recvBody_bounded hhead rfl
        · exact hb
    · cases h

theorem recvBody_calls (c : IoModel) (io : Io) :
    (c.recvBody io).calls = c.calls ++ [RecvCall.mk (Proto.headSize + c.userdata.lengthHasRecv)
      (toSize c.userdata.remainLengthtoRecv)
      ((c.sock.arrive io.late).recv (toSize c.userdata.remainLengthtoRecv) io.n2).bytes.length] := by
  unfold recvBody
  dsimp only
  split
  · split <;> rfl
  · rfl

theorem init_bounded (junk : UserData) (stream : List UInt8) (closed : Bool) : Bounded (init junk stream closed) :=
  ⟨fun _ h => absurd h List.not_mem_nil, fun _ => rfl, nofun⟩

def overrunRun : List Ev :=
  [.arrive (Proto.headSize + Proto.packSize), .readable ⟨fun _ => 0, Proto.headSize, 0, Proto.packSize⟩]

theorem overrun {v : Int} (hv : IsInt v) (hfit : ¬ Fits Proto.packSize v) (junk : UserData) :
    Along step (Announces (· = v)) (init junk (overrunStream 2 v Proto.packSize) false) overrunRun ∧
      ¬ Always step (fun c => AllInside Proto.packSize c.calls)
        (init junk (overrunStream 2 v Proto.packSize) false) overrunRun := by
  obtain ⟨io, hio⟩ : ∃ io : Io, io = ⟨fun _ => 0, Proto.headSize, 0, Proto.packSize⟩ := ⟨_, rfl⟩
  obtain ⟨t, ht⟩ : ∃ t : IoModel, t = ⟨⟨overrunStream 2 v Proto.packSize, [], false⟩, .new junk, [], .live, []⟩ :=
    ⟨_, rfl⟩
  obtain ⟨hb, hret, hs⟩ := overrun_head 2 v Proto.packSize [] false
  have harr : step (init junk (overrunStream 2 v Proto.packSize) false) (.arrive (Proto.headSize + Proto.packSize)) =
      some t := by
    rw [ht]; simp only [step, init, overrun_arrive]
  have hlen : Proto.length (t.recvHead io).userdata.recvbuff = v := by
    rw [ht, hio]
    simp only [recvHead, hb]
    rw [Proto.length_headBytes (headBytes_read _ 2 v), wrap_four hv.1 hv.2]
  have hsock : ((t.recvHead io).sock.arrive io.late).avail = List.replicate Proto.packSize 0 := by
    rw [ht, hio]
    simp [recvHead, hs, Sock.arrive]
  have ha : Proto.headSize ≤ t.sock.avail.length := by
    rw [ht]
    exact overrunStream_head_le _ v _
  have h0 : ¬ t.sock.avail.length = 0 := fun h => absurd (h ▸ ha) (by decide)
  have hstep : step t (.readable io) = some ((t.recvHead io).recvBody io) := by
    have hlive : t.status = .live := by rw [ht]
    have hready : t.sock.Ready := Or.inl fun h => h0 (by rw [h]; rfl)
    have hf : t.userdata.recvHeadFlag = false := by rw [ht]; rfl
    have hr : ¬ (t.sock.recv Proto.headSize io.n1).ret = 0 := by
      rw [ht, hio, hret]
      decide
    simp only [step, hlive, hready, and_self, if_true, readable, h0, if_false, ha, true_or, hf, Bool.false_eq_true, hr]
  have hsize : ¬ Proto.headSize + toSize (t.recvHead io).userdata.remainLengthtoRecv ≤ Proto.packSize := by
    rw [recvHead_rest, hlen]
    exact fun h => hfit ((toSize_rest_le_iff hv.1 hv.2 (by decide) (by decide)).mp h)
  have hout : ¬ AllInside Proto.packSize ((t.recvHead io).recvBody io).calls := by
    have hhas : (t.recvHead io).userdata.lengthHasRecv = 0 := by
      rw [ht]
      simp only [recvHead, UserData.new]
    rw [recvBody_calls, hhas, Int.add_zero]
    exact flood (by decide) (by rw [hio]) hsock hsize
  subst hio
  exact two_steps harr hstep trivial (fun _ _ => hlen) hout

end ChatClient.IoModel

/-! ## The three receivers -/

open ChatServer ChatClient

/-- The lengths that `CIo::epollRead`, `CAccept::funcAccept` and `IOModel::Start` are
    safe against, over every stream, segmentation and interleaving, are those between a
    header and their buffer: if every header of a run announces such a length, no `recv`
    of the run stores outside the buffer, and any other length is one that some run of
    headers announcing it writes past the end with. -/
theorem recv_inside_iff (L : Int → Prop) :
    ((∀ junk stream closed es, Along Conn.step (Conn.Announces L) (Conn.init junk stream closed) es →
        Always Conn.step (fun c => AllInside Proto.packSize c.calls) (Conn.init junk stream closed) es) ↔
      ∀ v, IsInt v → L v → Fits Proto.packSize v) ∧
    ((∀ junk socket userId now stream closed es,
        Along Login.step (Login.Announces L) (Login.init junk socket userId now stream closed) es →
        Always Login.step (fun c => AllInside Unloginuser.recvbuffSize c.calls)
          (Login.init junk socket userId now stream closed) es) ↔
      ∀ v, IsInt v → L v → Fits Unloginuser.recvbuffSize v) ∧
    ((∀ junk stream closed es, Along IoModel.step (IoModel.Announces L) (IoModel.init junk stream closed) es →
        Always IoModel.step (fun c => AllInside Proto.packSize c.calls) (IoModel.init junk stream closed) es) ↔
      ∀ v, IsInt v → L v → Fits Proto.packSize v) := by
  refine ⟨⟨fun h v hv hL => ?_, fun hL junk stream closed es h => ?_⟩,
    ⟨fun h v hv hL => ?_, fun hL junk socket userId now stream closed es h => ?_⟩,
    ⟨fun h v hv hL => ?_, fun hL junk stream closed es h => ?_⟩⟩
  · by_contra hfit
    obtain ⟨ha, hn⟩ := Conn.overrun hv hfit (fun _ => 0)
    exact hn (h _ _ _ _ (ha.mono (Conn.Announces.mono fun _ _ hw => hw ▸ hL)))
  · have hb := always_of_along (fun _ _ _ => Conn.bounded_step) (Conn.init_bounded junk stream closed)
      (h.mono (Conn.Announces.mono hL))
    exact hb.mono fun _ hb => hb.calls
  · by_contra hfit
    obtain ⟨ha, hn⟩ := Login.overrun hv hfit Unloginuser.zero 0 0 0
    exact hn (h _ _ _ _ _ _ _ (ha.mono (Login.Announces.mono fun _ _ hw => hw ▸ hL)))
  · have hb := always_of_along (fun _ _ _ => Login.bounded_step)
      (Login.init_bounded junk socket userId now stream closed) (h.mono (Login.Announces.mono hL))
    exact hb.mono fun _ hb => hb.calls
  · by_contra hfit
    obtain ⟨ha, hn⟩ := IoModel.overrun hv hfit ⟨fun _ => 0, false, false, 0, 0, 0⟩
    exact hn (h _ _ _ _ (ha.mono (IoModel.Announces.mono fun _ _ hw => hw ▸ hL)))
  · have hb := always_of_along (fun _ _ _ => IoModel.bounded_step) (IoModel.init_bounded junk stream closed)
      (h.mono (IoModel.Announces.mono hL))
    exact hb.mono fun _ hb => hb.calls

/-- A header announcing 2000 bytes, and 1436 bytes more in one go. -/
theorem a_long_packet_leaves_the_buffer :
    ¬ Always Conn.step (fun c => AllInside Proto.packSize c.calls)
      (Conn.init (fun _ => 0) (overrunStream 2 2000 Proto.packSize) false) Conn.overrunRun :=
  (Conn.overrun (by decide) (by decide) (fun _ => 0)).2

end GroupeChat
