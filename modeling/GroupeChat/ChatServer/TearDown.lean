/-
  GroupeChat.ChatServer.TearDown — what the event loops of the accept thread and of the
  I/O thread do with a client they have given up (`CAccept::funcAccept`,
  `CIo::startRequestFunc`).

  Each thread keeps its clients in a table by their sockets and watches them with its own
  epoll instance. Giving one up means: two flags set, no longer watched, erased. The
  handling of the event then goes on wherever no `continue` or `return` stands behind
  the call. A `look` stands for the lookups of one entry between two changes.

  `final_iff`: no lookup comes after the tear-down, every one finds a record and no
  entry is null, all along exactly the runs without three situations (`GoesOn`): a login
  connection that has nothing to read, a login header with another command, a body whose
  `recv` fails in the I/O thread. A client that hangs up before its login is the first
  (`a_client_that_hangs_up`).
-/

import GroupeChat.Base.FdTable
import GroupeChat.ChatServer.CmdSend
import GroupeChat.ChatServer.EpollRead
import GroupeChat.ChatServer.Login

namespace GroupeChat.ChatServer

open Base FdTable

/-- What a `recv` has stored; `none` is an error. -/
abbrev RecvResult : Type := Option (List UInt8)

namespace RecvResult

def ret : RecvResult → Int
  | none => -1
  | some bytes => bytes.length

def bytes (r : RecvResult) : List UInt8 := r.getD []

end RecvResult

structure Results where
  /-- The count that FIONREAD leaves. -/
  nread : Int
  head : RecvResult
  body : RecvResult
  /-- `time(NULL)`. -/
  now : Int
  /-- What `new char[1436]` holds. -/
  junk : Buf

def Results.hasHead (io : Results) : Prop := Proto.headSize ≤ toSize io.nread

instance (io : Results) : Decidable io.hasHead := inferInstanceAs (Decidable (_ ≤ _))

def Results.received (io : Results) : Int := wrap 4 io.body.ret

/-! ## The accept thread -/

abbrev LoginMap : Type := FdTable Unloginuser Buf

namespace LoginMap

def deleteOneUnloginUser (t : LoginMap) (fd : Int) : LoginMap :=
  let t := t.update fd fun u => { u with deleteFlag1 := true }
  let t := t.update fd fun u => { u with deleteFlag2 := true }
  (t.unwatch fd).erase fd

def timeoutFunc (t : LoginMap) (fd now : Int) : LoginMap :=
  t.look fd fun u t =>
    if now - u.loginTime > 60 then
      let t := t.update fd fun u => u.setResult Unloginuser.no
      let t := t.look fd fun u t => t.emit u.mLoginMsgSend
      deleteOneUnloginUser t fd
    else t

/-- The rest of the message. -/
def recvBody (t : LoginMap) (fd : Int) (io : Results) : LoginMap :=
  t.look fd fun u t =>
    if u.recvHeadFlag = false then
      let t := t.update fd fun u => { u with recvbuff := u.recvbuff.write Proto.headSize io.body.bytes }
      if io.received > 0 then
        let t := t.update fd fun u => { u with remainLengthofRecv := wrap 4 (u.remainLengthofRecv - io.received) }
        t.look fd fun u t =>
          if u.remainLengthofRecv = 0 then t.update fd fun u => { u with recvHeadFlag := true } else t
      else deleteOneUnloginUser t fd
    else t

def recvHead (t : LoginMap) (fd : Int) (io : Results) : LoginMap :=
  let t := t.update fd fun u => { u with recvbuff := u.recvbuff.write 0 io.head.bytes }
  if io.head.ret = 0 then deleteOneUnloginUser t fd
  else
    t.look fd fun u t =>
      if Proto.cmdId u.recvbuff = CmdId.login.code then
        let t := t.update fd fun u' => { u' with totalLengthOfData := Proto.length u.recvbuff }
        let t := t.update fd fun u' => { u' with
          remainLengthofRecv := wrap 4 (Proto.length u.recvbuff - Proto.headSize) }
        let t := t.update fd fun u' => { u' with recvHeadFlag := false }
        recvBody t fd io
      else recvBody (deleteOneUnloginUser t fd) fd io

def recvLogin (t : LoginMap) (fd : Int) (io : Results) : LoginMap :=
  t.look fd fun u t => if u.recvHeadFlag then recvHead t fd io else recvBody t fd io

def epollIn (t : LoginMap) (fd : Int) (io : Results) : LoginMap :=
  let t := if io.nread = 0 then deleteOneUnloginUser t fd else t
  if io.hasHead then recvLogin t fd io
  else t.look fd fun u t => if u.recvHeadFlag = false then recvLogin t fd io else timeoutFunc t fd io.now

def epollOut (t : LoginMap) (fd nread : Int) : LoginMap :=
  let t := t.look fd fun u t => t.emit u.mLoginMsgSend
  if nread = 0 then deleteOneUnloginUser t fd
  else
    let t := t.update fd fun u => { u with remainSend := wrap 4 (u.remainSend - nread) }
    t.look fd fun u t =>
      if u.remainSend = 0 then
        let t := t.unwatch fd
        -- this one reads `loginState`, which decides about `m_userId`
        let t := t.look fd fun _ t => t
        let t := t.update fd fun u => { u with loginReturnFlag := true }
        t.erase fd
      else t

/-- There is nothing to read, or a header has come with another command. -/
def GoesOn (t : LoginMap) (fd : Int) (io : Results) : Prop :=
  io.nread = 0 ∨ io.hasHead ∧ ∃ u, t.entries.find? fd = some (some u) ∧ u.recvHeadFlag = true ∧ io.head.ret ≠ 0 ∧
    Proto.cmdId (u.recvbuff.write 0 io.head.bytes) ≠ CmdId.login.code

end LoginMap

/-! ## The I/O thread -/

structure IoUser where
  user : User
  mRecv : CmdRecv

abbrev IoMap : Type := FdTable IoUser Buf

namespace IoMap

def setFlags (t : IoMap) (fd : Int) : IoMap :=
  let t := t.update fd fun u => { u with user := { u.user with deleteFlag2 := true } }
  t.update fd fun u => { u with user := { u.user with deleteFlag1 := true } }

def deleteloginUser (t : IoMap) (fd : Int) : IoMap := (setFlags (t.unwatch fd) fd).erase fd

def recvBody (t : IoMap) (fd : Int) (io : Results) : IoMap :=
  t.look fd fun u t =>
    if u.mRecv.mRecvHeadFlag then
      let t := t.update fd fun u => { u with
        mRecv := { u.mRecv with mRecvBuff := u.mRecv.mRecvBuff.store u.mRecv.mLengthHasRecv io.body.bytes } }
      let t := if io.received < 0 then deleteloginUser t fd else t
      let t := t.update fd fun u => { u with
        mRecv := { u.mRecv with mLengthHasRecv := wrap 4 (u.mRecv.mLengthHasRecv + io.received) } }
      t.look fd fun u t =>
        if u.mRecv.mLengthHasRecv = u.mRecv.mTotalLengthOfData then
          let t := t.emit u.mRecv.mRecvBuff
          let t := t.update fd fun u => { u with mRecv := { u.mRecv with mLengthHasRecv := 0 } }
          t.update fd fun u => { u with mRecv := { u.mRecv with mRecvHeadFlag := false } }
        else t
    else t

def recvHead (t : IoMap) (fd : Int) (io : Results) : IoMap :=
  let t := t.update fd fun u => { u with mRecv := { u.mRecv with mRecvBuff := io.junk.write 0 io.head.bytes } }
  if io.head.ret = 0 then deleteloginUser t fd
  else
    t.look fd fun u t =>
      let t := t.update fd fun u' => { u' with
        mRecv := { u'.mRecv with mTotalLengthOfData := Proto.length u.mRecv.mRecvBuff } }
      let t := t.update fd fun u' => { u' with mRecv := { u'.mRecv with mLengthHasRecv := Proto.headSize } }
      let t := t.update fd fun u' => { u' with mRecv := { u'.mRecv with mRecvHeadFlag := true } }
      recvBody t fd io

def recvPacket (t : IoMap) (fd : Int) (io : Results) : IoMap :=
  t.look fd fun u t => if u.mRecv.mRecvHeadFlag = false then recvHead t fd io else recvBody t fd io

def epollRead (t : IoMap) (fd : Int) (io : Results) : IoMap :=
  if io.nread = 0 then deleteloginUser t fd
  else if io.hasHead then recvPacket t fd io
  else t.look fd fun u t => if u.mRecv.mRecvHeadFlag then recvPacket t fd io else t

/-- `send()` returned `nread`; the MOD that follows finds the socket watched or does nothing. -/
def startSend (t : IoMap) (fd nread : Int) : IoMap :=
  let t := t.update fd fun u => { u with user := { u.user with mSend := (u.user.mSend.startSend nread).1 } }
  if nread < 0 then deleteloginUser t fd else t

def leave (t : IoMap) (fd : Int) : IoMap :=
  match t.entries.find? fd with
  | some (some u) => if u.user.deleteFlag1 then deleteloginUser t fd else t
  | _ => t

def quit (t : IoMap) (fd : Int) : IoMap :=
  match t.entries.find? fd with
  | some (some u) =>
    { t with entries := t.entries.set fd (some { u with user := { u.user with deleteFlag1 := true } }) }
  | _ => t

/-- The body of a packet is asked for, and its `recv` fails. -/
def GoesOn (t : IoMap) (fd : Int) (io : Results) : Prop :=
  io.nread ≠ 0 ∧ io.received < 0 ∧ ∃ u, t.entries.find? fd = some (some u) ∧
    (u.mRecv.mRecvHeadFlag = true ∨ io.hasHead ∧ io.head.ret ≠ 0)

end IoMap

/-! ## Both -/

structure EventLoops where
  mLoginMap : LoginMap
  mMap : IoMap

namespace EventLoops

inductive Ev where
  /-- A connection is accepted. -/
  | accept (junk : Unloginuser) (fd userId now : Int)
  | epollIn (fd : Int) (io : Results)
  | epollOut (fd nread : Int)
  /-- The I/O thread takes over a user. -/
  | vcdPop (u : IoUser)
  /-- The command thread sets `deleteFlag1`. -/
  | quit (fd : Int)
  /-- The I/O thread's loop over its users finds it set. -/
  | leave (fd : Int)
  | epollRead (fd : Int) (io : Results)
  | startSend (fd nread : Int)

def init : EventLoops := ⟨.empty, .empty⟩

def running (s : EventLoops) : Prop := s.mLoginMap.fault = false ∧ s.mMap.fault = false

instance : DecidablePred running := fun s =>
  inferInstanceAs (Decidable (s.mLoginMap.fault = false ∧ s.mMap.fault = false))

def effect (s : EventLoops) : Ev → EventLoops
  | .accept junk fd userId now =>
    if fd < 0 then s else { s with mLoginMap := (s.mLoginMap.insert fd (.new junk fd userId now)).watch fd }
  | .epollIn fd io => { s with mLoginMap := LoginMap.epollIn s.mLoginMap.begin fd io }
  | .epollOut fd nread => { s with mLoginMap := LoginMap.epollOut s.mLoginMap.begin fd nread }
  | .vcdPop u => { s with mMap := (s.mMap.insert u.user.mSocket u).watch u.user.mSocket }
  | .quit fd => { s with mMap := IoMap.quit s.mMap fd }
  | .leave fd => { s with mMap := IoMap.leave s.mMap.begin fd }
  | .epollRead fd io => { s with mMap := IoMap.epollRead s.mMap.begin fd io }
  | .startSend fd nread => { s with mMap := IoMap.startSend s.mMap.begin fd nread }

def enabled (s : EventLoops) : Ev → Prop
  | .epollIn fd _ => fd ∈ s.mLoginMap.watched
  | .epollOut fd _ => fd ∈ s.mLoginMap.watched
  | .leave fd => fd ∈ s.mMap.watched
  | .epollRead fd _ => fd ∈ s.mMap.watched
  | .startSend fd _ => fd ∈ s.mMap.watched
  | _ => True

instance (s : EventLoops) : (e : Ev) → Decidable (s.enabled e)
  | .epollIn _ _ | .epollOut _ _ | .leave _ | .epollRead _ _ | .startSend _ _ => inferInstanceAs (Decidable (_ ∈ _))
  | .accept .. | .vcdPop _ | .quit _ => inferInstanceAs (Decidable True)

def step (s : EventLoops) (e : Ev) : Option EventLoops := if s.running ∧ s.enabled e then some (s.effect e) else none

/-- Every lookup so far has found a record that was still to be given up, and no pointer is
    null. -/
structure Final (s : EventLoops) : Prop where
  mLoginMap : s.mLoginMap.Clean
  mMap : s.mMap.Clean

def GoesOn (s : EventLoops) : Ev → Prop
  | .epollIn fd io => LoginMap.GoesOn s.mLoginMap fd io
  | .epollRead fd io => IoMap.GoesOn s.mMap fd io
  | _ => False

end EventLoops

/-! ## What each handling does -/

namespace LoginMap

variable {t : LoginMap} {fd : Int} {u : Unloginuser}

theorem deleteOne_torn (h : Open fd u t) : Torn fd (deleteOneUnloginUser t fd) := by
  unfold deleteOneUnloginUser
  dsimp only
  have hflags := (h.update fun u => { u with deleteFlag1 := true }).update fun u => { u with deleteFlag2 := true }
  exact (hflags.unwatch fd).erase hflags.unwatched

theorem timeoutFunc_sound (h : Open fd u t) (now : Int) : (timeoutFunc t fd now).Sound := by
  unfold timeoutFunc
  rw [h.look]
  dsimp only
  split
  · have hresult := h.note.update fun u => u.setResult Unloginuser.no
    rw [hresult.look]
    exact (deleteOne_torn (hresult.note.emit _)).sound
  · exact h.note.sound

theorem recvBody_sound (h : Open fd u t) (io : Results) : (recvBody t fd io).Sound := by
  unfold recvBody
  rw [h.look]
  dsimp only
  split
  · have hstored := h.note.update fun u => { u with recvbuff := u.recvbuff.write Proto.headSize io.body.bytes }
    split
    · have hcounted := hstored.update fun u =>
        { u with remainLengthofRecv := wrap 4 (u.remainLengthofRecv - io.received) }
      rw [hcounted.look]
      dsimp only
      split
      · exact (hcounted.note.update fun u => { u with recvHeadFlag := true }).sound
      · exact hcounted.note.sound
    · exact (deleteOne_torn hstored).sound
  · exact h.note.sound

/-- A header with another command is followed by a lookup. -/
theorem recvHead_breaks (h : Open fd u t) (io : Results) :
    Breaks (io.head.ret ≠ 0 ∧ Proto.cmdId (u.recvbuff.write 0 io.head.bytes) ≠ CmdId.login.code) (recvHead t fd io) := by
  have hstored := h.update fun u => { u with recvbuff := u.recvbuff.write 0 io.head.bytes }
  unfold recvHead
  dsimp only
  by_cases hret : io.head.ret = 0
  · rw [if_pos hret]
    exact (deleteOne_torn hstored).sound.breaks fun hc => hc.1 hret
  · rw [if_neg hret, hstored.look]
    dsimp only
    by_cases hcmd : Proto.cmdId (u.recvbuff.write 0 io.head.bytes) = CmdId.login.code
    · rw [if_pos hcmd]
      exact (recvBody_sound (((hstored.note.update _).update _).update _) io).breaks fun hc => hc.2 hcmd
    · rw [if_neg hcmd]
      exact ((deleteOne_torn hstored.note).look _).breaks ⟨hret, hcmd⟩

theorem recvLogin_breaks (h : Open fd u t) (io : Results) :
    Breaks (u.recvHeadFlag = true ∧ io.head.ret ≠ 0 ∧
      Proto.cmdId (u.recvbuff.write 0 io.head.bytes) ≠ CmdId.login.code) (recvLogin t fd io) := by
  unfold recvLogin
  rw [h.look]
  by_cases hflag : u.recvHeadFlag = true
  · rw [if_pos hflag]
    exact (recvHead_breaks h.note io).congr (by simp [hflag])
  · rw [if_neg hflag]
    exact (recvBody_sound h.note io).breaks fun hc => hflag hc.1

theorem epollIn_breaks (h : Open fd u t) (io : Results) : Breaks (GoesOn t fd io) (epollIn t fd io) := by
  have hgoes : io.nread = 0 ∨ io.hasHead ∧ u.recvHeadFlag = true ∧ io.head.ret ≠ 0 ∧
      Proto.cmdId (u.recvbuff.write 0 io.head.bytes) ≠ CmdId.login.code ↔ GoesOn t fd io := by
    unfold GoesOn
    simp [h.found]
  refine Breaks.congr ?_ hgoes
  unfold epollIn
  dsimp only
  by_cases hnread : io.nread = 0
  · have hhead : ¬ io.hasHead := by
      unfold Results.hasHead
      rw [hnread]
      decide
    rw [if_pos hnread, if_neg hhead]
    exact ((deleteOne_torn h).look _).breaks (Or.inl hnread)
  · rw [if_neg hnread]
    by_cases hhead : io.hasHead
    · rw [if_pos hhead]
      exact (recvLogin_breaks h io).congr (by simp [hnread, hhead])
    · rw [if_neg hhead, h.look]
      by_cases hflag : u.recvHeadFlag = false
      · rw [if_pos hflag]
        exact (recvLogin_breaks h.note io).congr (by simp [hnread, hhead, hflag])
      · rw [if_neg hflag]
        exact (timeoutFunc_sound h.note io.now).breaks (by simp [hnread, hhead])

theorem epollOut_sound (h : Open fd u t) (nread : Int) : (epollOut t fd nread).Sound := by
  unfold epollOut
  rw [h.look]
  dsimp only
  have hsent := h.note.emit u.mLoginMsgSend
  split
  · exact (deleteOne_torn hsent).sound
  · have hcounted := hsent.update fun u => { u with remainSend := wrap 4 (u.remainSend - nread) }
    rw [hcounted.look]
    dsimp only
    split
    · have hread := hcounted.note.unwatch fd
      have hnot := hcounted.note.unwatched
      rw [hread.look]
      refine (Open.erase (hread.note.update fun u => { u with loginReturnFlag := true }) ?_).sound
      rw [hread.note.update_watched]
      exact hnot
    · exact hcounted.note.sound

end LoginMap

namespace IoMap

variable {t : IoMap} {fd : Int} {u : IoUser}

theorem deletelogin_torn (h : Open fd u t) : Torn fd (deleteloginUser t fd) := by
  unfold deleteloginUser setFlags
  dsimp only
  have hun := h.unwatch fd
  have hflag := hun.update fun u => { u with user := { u.user with deleteFlag2 := true } }
  refine (hflag.update fun u => { u with user := { u.user with deleteFlag1 := true } }).erase ?_
  rw [hflag.update_watched, hun.update_watched]
  exact h.unwatched

/-- A body whose `recv` fails is followed by a lookup. -/
theorem recvBody_breaks (h : Open fd u t) (io : Results) :
    Breaks (u.mRecv.mRecvHeadFlag = true ∧ io.received < 0) (recvBody t fd io) := by
  unfold recvBody
  rw [h.look]
  dsimp only
  by_cases hflag : u.mRecv.mRecvHeadFlag = true
  · rw [if_pos hflag]
    have hstored := h.note.update fun u => { u with
      mRecv := { u.mRecv with mRecvBuff := u.mRecv.mRecvBuff.store u.mRecv.mLengthHasRecv io.body.bytes } }
    by_cases hret : io.received < 0
    · rw [if_pos hret]
      exact (((deletelogin_torn hstored).update _).look _ _).breaks ⟨hflag, hret⟩
    · rw [if_neg hret]
      have hcounted := hstored.update fun u => { u with
        mRecv := { u.mRecv with mLengthHasRecv := wrap 4 (u.mRecv.mLengthHasRecv + io.received) } }
      refine Sound.breaks ?_ fun hc => hret hc.2
      rw [hcounted.look]
      dsimp only
      split
      · exact (((hcounted.note.emit _).update _).update _).sound
      · exact hcounted.note.sound
  · rw [if_neg hflag]
    exact h.note.sound.breaks fun hc => hflag hc.1

theorem recvHead_breaks (h : Open fd u t) (io : Results) :
    Breaks (io.head.ret ≠ 0 ∧ io.received < 0) (recvHead t fd io) := by
  have hstored := h.update fun u => { u with mRecv := { u.mRecv with mRecvBuff := io.junk.write 0 io.head.bytes } }
  unfold recvHead
  dsimp only
  by_cases hret : io.head.ret = 0
  · rw [if_pos hret]
    exact (deletelogin_torn hstored).sound.breaks fun hc => hc.1 hret
  · rw [if_neg hret, hstored.look]
    exact (recvBody_breaks (((hstored.note.update _).update _).update _) io).congr (by simp [hret])

theorem recvPacket_breaks (h : Open fd u t) (io : Results) :
    Breaks (io.received < 0 ∧ (u.mRecv.mRecvHeadFlag = true ∨ io.head.ret ≠ 0)) (recvPacket t fd io) := by
  unfold recvPacket
  rw [h.look]
  by_cases hflag : u.mRecv.mRecvHeadFlag = false
  · rw [if_pos hflag]
    exact (recvHead_breaks h.note io).congr (by simp [hflag, and_comm])
  · rw [if_neg hflag]
    exact (recvBody_breaks h.note io).congr (by simp [hflag])

theorem epollRead_breaks (h : Open fd u t) (io : Results) : Breaks (GoesOn t fd io) (epollRead t fd io) := by
  have hgoes : io.nread ≠ 0 ∧ io.received < 0 ∧ (u.mRecv.mRecvHeadFlag = true ∨ io.hasHead ∧ io.head.ret ≠ 0) ↔
      GoesOn t fd io := by
    unfold GoesOn
    simp [h.found]
  refine Breaks.congr ?_ hgoes
  unfold epollRead
  by_cases hnread : io.nread = 0
  · rw [if_pos hnread]
    exact (deletelogin_torn h).sound.breaks fun hc => hc.1 hnread
  · rw [if_neg hnread]
    by_cases hhead : io.hasHead
    · rw [if_pos hhead]
      exact (recvPacket_breaks h io).congr (by simp [hnread, hhead])
    · rw [if_neg hhead, h.look]
      by_cases hflag : u.mRecv.mRecvHeadFlag = true
      · rw [if_pos hflag]
        exact (recvPacket_breaks h.note io).congr (by simp [hnread, hflag])
      · rw [if_neg hflag]
        exact h.note.sound.breaks (by simp [hhead, hflag])

theorem startSend_sound (h : Open fd u t) (nread : Int) : (startSend t fd nread).Sound := by
  unfold startSend
  dsimp only
  have hsent := h.update fun u => { u with user := { u.user with mSend := (u.user.mSend.startSend nread).1 } }
  split
  · exact (deletelogin_torn hsent).sound
  · exact hsent.sound

theorem leave_sound (h : Open fd u t) : (leave t fd).Sound := by
  unfold leave
  rw [h.found]
  dsimp only
  split
  · exact (deletelogin_torn h).sound
  · exact h.sound

theorem quit_sound (h : t.Sound) (fd : Int) : (quit t fd).Sound := by
  unfold quit
  split
  · exact h.assign _ _
  · exact h

end IoMap

/-! ## Runs -/

namespace EventLoops

structure Inv (s : EventLoops) : Prop where
  mLoginMap : s.mLoginMap.Sound
  mMap : s.mMap.Sound

theorem Inv.final {s : EventLoops} (h : Inv s) : Final s := ⟨h.mLoginMap.clean, h.mMap.clean⟩

theorem step_eq {s s' : EventLoops} {e : Ev} (h : step s e = some s') : s.enabled e ∧ s' = s.effect e := by
  unfold step at h
  split at h
  · rename_i hen
    exact ⟨hen.2, (Option.some.inj h).symm⟩
  · cases h

theorem step_inv {s s' : EventLoops} {e : Ev} (hi : Inv s) (h : step s e = some s') :
    (¬ GoesOn s e → Inv s') ∧ (Final s' → ¬ GoesOn s e) := by
  obtain ⟨hen, rfl⟩ := step_eq h
  cases e with
  | accept junk fd userId now =>
    refine ⟨fun _ => ?_, fun _ => id⟩
    simp only [effect]
    split
    · exact hi
    · exact ⟨hi.mLoginMap.inserted _ _, hi.mMap⟩
  | epollIn fd io =>
    obtain ⟨u, hu⟩ := hi.mLoginMap.opened hen
    have hbreaks := LoginMap.epollIn_breaks hu io
    exact ⟨fun hc => ⟨hbreaks.2 hc, hi.mMap⟩, fun hf => hbreaks.clean hf.mLoginMap⟩
  | epollOut fd nread =>
    obtain ⟨u, hu⟩ := hi.mLoginMap.opened hen
    exact ⟨fun _ => ⟨LoginMap.epollOut_sound hu nread, hi.mMap⟩, fun _ => id⟩
  | vcdPop u => exact ⟨fun _ => ⟨hi.mLoginMap, hi.mMap.inserted _ _⟩, fun _ => id⟩
  | quit fd => exact ⟨fun _ => ⟨hi.mLoginMap, IoMap.quit_sound hi.mMap fd⟩, fun _ => id⟩
  | leave fd =>
    obtain ⟨u, hu⟩ := hi.mMap.opened hen
    exact ⟨fun _ => ⟨hi.mLoginMap, IoMap.leave_sound hu⟩, fun _ => id⟩
  | epollRead fd io =>
    obtain ⟨u, hu⟩ := hi.mMap.opened hen
    have hbreaks := IoMap.epollRead_breaks hu io
    exact ⟨fun hc => ⟨hi.mLoginMap, hbreaks.2 hc⟩, fun hf => hbreaks.clean hf.mMap⟩
  | startSend fd nread =>
    obtain ⟨u, hu⟩ := hi.mMap.opened hen
    exact ⟨fun _ => ⟨hi.mLoginMap, IoMap.startSend_sound hu nread⟩, fun _ => id⟩

theorem final_iff (es : List Ev) : Always step Final init es ↔ Along step (fun s e => ¬ GoesOn s e) init es :=
  always_iff_along (fun _ => Inv.final) (fun _ _ _ => step_inv) ⟨FdTable.empty_sound, FdTable.empty_sound⟩

def hangUp : List Ev := [.accept .zero 5 1 0, .epollIn 5 ⟨0, none, none, 0, fun _ => 0⟩]

theorem a_client_that_hangs_up : ¬ Always step Final init hangUp := by
  intro h
  have hrun : (run step init hangUp).map (fun s => s.mLoginMap.lookups.getLast?) = some (some ⟨5, true, false⟩) := by
    decide +kernel
  obtain ⟨s, hs, hlast⟩ := Option.map_eq_some_iff.mp hrun
  have hfound := (h.last hs).mLoginMap.lookups _ (List.mem_of_getLast? hlast)
  cases hfound.1

end EventLoops

end GroupeChat.ChatServer
