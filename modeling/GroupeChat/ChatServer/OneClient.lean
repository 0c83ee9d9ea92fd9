/-
  GroupeChat.ChatServer.OneClient — the models of one client (`Login`, `Conn`) against the
  tables of all of them (`LoginMap`, `IoMap`).

  An event of a client does to its entry what the model of the one client says: the entry
  has the same record while the client is live, is gone once the client is dropped, and
  the table is broken where the model is faulted; the same replies are sent and the same
  packets pushed (`epollIn_shows`, `epollOut_shows`, `epollRead_shows`). The results of the
  calls are those that the client's socket gives. A run of the one connection is so a run
  of the event loops (`run_joined_of_init`), and one that faults is not `Final` there.
-/

import GroupeChat.ChatServer.LoginStage
import GroupeChat.ChatServer.TearDown

namespace GroupeChat.ChatServer

open Base FdTable

def RecvResult.of (r : Received) : RecvResult := if r.ret < 0 then none else some r.bytes

theorem RecvResult.of_recv (s : Sock) (size n : Nat) :
    (RecvResult.of (s.recv size n)).ret = (s.recv size n).ret ∧
      (RecvResult.of (s.recv size n)).bytes = (s.recv size n).bytes := by
  unfold RecvResult.of
  rcases s.recv_ret size n with hret | ⟨hret, hbytes⟩
  · have hnot : ¬ (s.recv size n).ret < 0 := by omega
    rw [if_neg hnot]
    exact ⟨hret.symm, rfl⟩
  · have hneg : (s.recv size n).ret < 0 := by omega
    rw [if_pos hneg, hret, hbytes]
    exact ⟨rfl, rfl⟩

/-- FIONREAD's count is compared as it is. -/
theorem hasHead_iff {io : Results} {n : Nat} (h : io.nread = n) (hn : n < 2 ^ 63) :
    io.hasHead ↔ Proto.headSize ≤ n := by
  unfold Results.hasHead
  rw [h, toSize_of_nonneg (by omega) (by omega), Int.toNat_natCast]

/-- What the model of a client says of its entry, once the event is handled. -/
def Stands {ρ ω : Type} (fd : Int) (r : ρ) (t : FdTable ρ ω) : Status → Prop
  | .live => Open fd r t.begin
  | .dropped => Torn fd t
  | .faulted => t.Broken

/-! ## The accept thread -/

namespace Login

def results (c : Login) (io : Io) : Results :=
  let body := if c.user.recvHeadFlag then (c.recvHead io).expectBody else c
  { nread := c.sock.avail.length
    head := .of (c.sock.recv Proto.headSize io.n1)
    body := .of ((body.sock.arrive io.late).recv (toSize body.user.remainLengthofRecv) io.n2)
    now := io.now
    junk := fun _ => 0 }

def settled (c : Login) : Login := if c.timing then c.timeoutSend else c

structure Shows (fd : Int) (base : List Buf) (c : Login) (t : LoginMap) : Prop where
  entry : Stands fd c.user t c.accept
  out : c.accept ≠ .faulted → t.out = base ++ c.replies.map Reply.msg

variable {fd : Int} {base : List Buf} {c : Login} {t : LoginMap}

theorem deleteOne_out {r : Unloginuser} (h : Open fd r t) : (LoginMap.deleteOneUnloginUser t fd).out = t.out := by
  have hflag := h.update fun u => { u with deleteFlag1 := true }
  unfold LoginMap.deleteOneUnloginUser
  dsimp only
  rw [erase_out, unwatch_out, hflag.update_out, h.update_out]

/-- A client who is deleted. -/
theorem shows_deleteOne {r : Unloginuser} (h : Open fd r t) (hout : t.out = base ++ c.replies.map Reply.msg) :
    Shows fd base c.deleteOneUnloginUser (LoginMap.deleteOneUnloginUser t fd) :=
  ⟨LoginMap.deleteOne_torn h, fun _ => (deleteOne_out h).trans hout⟩

theorem timeoutFunc_shows (h : Open fd c.user t) (hlive : c.accept = .live) (htiming : c.timing = false)
    (hout : t.out = base ++ c.replies.map Reply.msg) (now : Int) :
    Shows fd base (c.timeoutFunc now).settled (LoginMap.timeoutFunc t fd now) := by
  unfold Login.timeoutFunc LoginMap.timeoutFunc
  rw [h.look]
  dsimp only
  by_cases hlate : now - c.user.loginTime > 60
  · rw [if_pos hlate, if_pos hlate]
    have hresult := h.note.update fun u => u.setResult Unloginuser.no
    have hresult_out := h.note.update_out fun u => u.setResult Unloginuser.no
    rw [hresult.look]
    have hsent := hresult.note.emit (c.user.setResult Unloginuser.no).mLoginMsgSend
    refine shows_deleteOne (c := { ({ c with
      user := c.user.setResult Unloginuser.no, timing := true } : Login).sendReply with timing := false }) hsent ?_
    rw [hresult.note.emit_out, note_out, hresult_out, note_out, hout, List.append_assoc]
    simp [Login.sendReply]
  · rw [if_neg hlate, if_neg hlate]
    have hsame : c.settled = c := if_neg (by simp [htiming])
    rw [hsame]
    refine ⟨?_, fun _ => hout⟩
    rw [hlive]
    exact h.note.begin

theorem recvBody_shows {io : Io} {res : Results} (h : Open fd c.user t) (hlive : c.accept = .live)
    (hout : t.out = base ++ c.replies.map Reply.msg) (hflag : c.user.recvHeadFlag = false)
    (hbody : res.body = .of ((c.sock.arrive io.late).recv (toSize c.user.remainLengthofRecv) io.n2)) :
    Shows fd base (c.recvBody io) (LoginMap.recvBody t fd res) := by
  obtain ⟨hret, hbytes⟩ := RecvResult.of_recv (c.sock.arrive io.late) (toSize c.user.remainLengthofRecv) io.n2
  rw [← hbody] at hret hbytes
  have hreceived : res.received =
      wrap 4 ((c.sock.arrive io.late).recv (toSize c.user.remainLengthofRecv) io.n2).ret := by
    rw [Results.received, hret]
  obtain ⟨r, hr⟩ : ∃ r, r = (c.sock.arrive io.late).recv (toSize c.user.remainLengthofRecv) io.n2 := ⟨_, rfl⟩
  rw [← hr] at hreceived hbytes
  unfold Login.recvBody LoginMap.recvBody
  rw [h.look]
  dsimp only
  rw [← hr, if_pos hflag, hreceived, hbytes]
  have hstored := h.note.update fun u => { u with recvbuff := u.recvbuff.write Proto.headSize r.bytes }
  have hstored_out := h.note.update_out fun u => { u with recvbuff := u.recvbuff.write Proto.headSize r.bytes }
  by_cases hsome : 0 < wrap 4 r.ret
  · rw [if_pos hsome, if_pos hsome]
    have hcounted := hstored.update fun u => { u with
      remainLengthofRecv := wrap 4 (u.remainLengthofRecv - wrap 4 r.ret) }
    have hcounted_out := hstored.update_out fun u => { u with
      remainLengthofRecv := wrap 4 (u.remainLengthofRecv - wrap 4 r.ret) }
    rw [hcounted.look]
    dsimp only
    by_cases hdone : wrap 4 (c.user.remainLengthofRecv - wrap 4 r.ret) = 0
    · rw [if_pos hdone]
      refine ⟨?_, ?_⟩
      · dsimp only
        rw [hlive, decide_eq_true hdone]
        exact (hcounted.note.update fun u => { u with recvHeadFlag := true }).begin
      · intro _
        rw [hcounted.note.update_out, note_out, hcounted_out, hstored_out, note_out, hout]
    · rw [if_neg hdone]
      refine ⟨?_, ?_⟩
      · dsimp only
        rw [hlive, decide_eq_false hdone]
        have hrecord := hcounted.note
        simp only [hflag] at hrecord
        exact hrecord.begin
      · intro _
        rw [note_out, hcounted_out, hstored_out, note_out, hout]
  · rw [if_neg hsome, if_neg hsome]
    exact shows_deleteOne hstored (by rw [hstored_out, note_out, hout])

theorem recvHead_shows {io : Io} {res : Results} (h : Open fd c.user t) (hlive : c.accept = .live)
    (hout : t.out = base ++ c.replies.map Reply.msg) (hhead : res.head = .of (c.sock.recv Proto.headSize io.n1))
    (hbody : res.body = .of (((c.recvHead io).expectBody.sock.arrive io.late).recv
      (toSize (c.recvHead io).expectBody.user.remainLengthofRecv) io.n2)) :
    Shows fd base
      (if (c.sock.recv Proto.headSize io.n1).ret = 0 then (c.recvHead io).deleteOneUnloginUser
      else if Proto.cmdId (c.recvHead io).user.recvbuff = CmdId.login.code then (c.recvHead io).expectBody.recvBody io
      else { (c.recvHead io).deleteOneUnloginUser with accept := .faulted })
      (LoginMap.recvHead t fd res) := by
  obtain ⟨hret, hbytes⟩ := RecvResult.of_recv c.sock Proto.headSize io.n1
  rw [← hhead] at hret hbytes
  have hstored := h.update fun u => { u with recvbuff := u.recvbuff.write 0 res.head.bytes }
  have hstored_out := h.update_out fun u => { u with recvbuff := u.recvbuff.write 0 res.head.bytes }
  have hbuff : (c.recvHead io).user.recvbuff = c.user.recvbuff.write 0 res.head.bytes := by
    rw [hbytes]
    rfl
  unfold LoginMap.recvHead
  dsimp only
  by_cases h0 : (c.sock.recv Proto.headSize io.n1).ret = 0
  · rw [if_pos h0, if_pos (hret.trans h0)]
    exact shows_deleteOne (c := c.recvHead io) hstored (hstored_out.trans hout)
  · have h0' : res.head.ret ≠ 0 := by rwa [hret]
    rw [if_neg h0, if_neg h0', hstored.look, hbuff]
    dsimp only
    by_cases hcmd : Proto.cmdId (c.user.recvbuff.write 0 res.head.bytes) = CmdId.login.code
    · rw [if_pos hcmd, if_pos hcmd]
      have htotal := hstored.note.update fun u' => { u' with
        totalLengthOfData := Proto.length (c.user.recvbuff.write 0 res.head.bytes) }
      have hremain := htotal.update fun u' => { u' with
        remainLengthofRecv := wrap 4 (Proto.length (c.user.recvbuff.write 0 res.head.bytes) - Proto.headSize) }
      have hopen := hremain.update fun u' => { u' with recvHeadFlag := false }
      have hrecord : (c.recvHead io).expectBody.user = { c.user with
          recvbuff := c.user.recvbuff.write 0 res.head.bytes
          totalLengthOfData := Proto.length (c.user.recvbuff.write 0 res.head.bytes)
          remainLengthofRecv := wrap 4 (Proto.length (c.user.recvbuff.write 0 res.head.bytes) - Proto.headSize)
          recvHeadFlag := false } := by
        rw [hbytes]
        rfl
      dsimp only at hopen
      rw [← hrecord] at hopen
      refine recvBody_shows hopen hlive ?_ rfl hbody
      rw [hremain.update_out, htotal.update_out, hstored.note.update_out, note_out, hstored_out, hout]
      rfl
    · rw [if_neg hcmd, if_neg hcmd]
      exact ⟨(LoginMap.deleteOne_torn hstored.note).look _, fun hf => absurd rfl hf⟩

/-- Outside `timeoutFunc` nothing is left to be done. -/
theorem settled_of_quiet {c c' : Login} (h : Quiet c c') (htiming : c.timing = false) : c'.settled = c' :=
  if_neg (by rw [h.timing, htiming]; decide)

theorem epollIn_of_head {c : Login} (io : Io) (h0 : ¬ c.sock.avail.length = 0) (hflag : c.user.recvHeadFlag = true)
    (hhead : Proto.headSize ≤ c.sock.avail.length) :
    c.epollIn io =
      if (c.sock.recv Proto.headSize io.n1).ret = 0 then (c.recvHead io).deleteOneUnloginUser
      else if Proto.cmdId (c.recvHead io).user.recvbuff = CmdId.login.code then (c.recvHead io).expectBody.recvBody io
      else { (c.recvHead io).deleteOneUnloginUser with accept := .faulted } := by
  unfold Login.epollIn
  rw [if_neg h0, if_pos (Or.inl hhead), if_pos hflag]

theorem epollIn_shows {io : Io} (h : Open fd c.user t) (hlive : c.accept = .live) (htiming : c.timing = false)
    (hout : t.out = base ++ c.replies.map Reply.msg) (hsize : c.sock.avail.length < 2 ^ 63) :
    Shows fd base (c.epollIn io).settled (LoginMap.epollIn t fd (c.results io)) := by
  have hhas : (c.results io).hasHead ↔ Proto.headSize ≤ c.sock.avail.length := hasHead_iff rfl hsize
  have hzero : (c.results io).nread = 0 ↔ c.sock.avail.length = 0 := Int.natCast_eq_zero
  unfold LoginMap.epollIn
  dsimp only
  by_cases h0 : c.sock.avail.length = 0
  · have hnot : ¬ (c.results io).hasHead := by
      rw [hhas, h0]
      decide
    have hmodel : c.epollIn io = { c.deleteOneUnloginUser with accept := .faulted } := if_pos h0
    rw [if_pos (hzero.mpr h0), if_neg hnot, hmodel,
      settled_of_quiet ((deleteOne_quiet c).trans (fault_quiet _)) htiming]
    exact ⟨(LoginMap.deleteOne_torn h).look _, fun hf => absurd rfl hf⟩
  · rw [if_neg fun hn => h0 (hzero.mp hn)]
    by_cases hflag : c.user.recvHeadFlag = true
    · by_cases hhead : (c.results io).hasHead
      · have hbody : (c.results io).body = .of (((c.recvHead io).expectBody.sock.arrive io.late).recv
            (toSize (c.recvHead io).expectBody.user.remainLengthofRecv) io.n2) := by
          simp [results, hflag]
        have hmodel := epollIn_of_head io h0 hflag (hhas.mp hhead)
        rw [if_pos hhead, hmodel, settled_of_quiet (recvHeader_quiet c io) htiming]
        unfold LoginMap.recvLogin
        rw [h.look, if_pos hflag]
        exact recvHead_shows h.note hlive hout rfl hbody
      · have hmodel : c.epollIn io = c.timeoutFunc io.now := by
          unfold Login.epollIn
          rw [if_neg h0, if_neg (by simp [← hhas, hhead, hflag])]
        rw [if_neg hhead, hmodel, h.look, if_neg (by simp [hflag])]
        exact timeoutFunc_shows h.note hlive htiming hout io.now
    · have hbody : (c.results io).body =
          .of ((c.sock.arrive io.late).recv (toSize c.user.remainLengthofRecv) io.n2) := by
        simp [results, hflag]
      have hmodel : c.epollIn io = c.recvBody io := by
        unfold Login.epollIn
        rw [if_neg h0, if_pos (Or.inr hflag), if_neg hflag]
      have hlogin : ∀ t, Open fd c.user t → t.out = base ++ c.replies.map Reply.msg →
          Shows fd base (c.recvBody io) (LoginMap.recvLogin t fd (c.results io)) := by
        intro t h hout
        unfold LoginMap.recvLogin
        rw [h.look, if_neg hflag]
        exact recvBody_shows h.note hlive hout (Bool.eq_false_iff.mpr hflag) hbody
      rw [hmodel, settled_of_quiet (recvBody_quiet c io) htiming]
      by_cases hhead : (c.results io).hasHead
      · rw [if_pos hhead]
        exact hlogin t h hout
      · rw [if_neg hhead, h.look, if_pos (Bool.eq_false_iff.mpr hflag)]
        exact hlogin _ h.note hout

theorem epollOut_shows (h : Open fd c.user t) (hlive : c.accept = .live)
    (hout : t.out = base ++ c.replies.map Reply.msg) (nread : Int) :
    Shows fd base (c.epollOut nread) (LoginMap.epollOut t fd nread) := by
  have hsent := h.note.emit c.user.mLoginMsgSend
  have hsent_out : ((t.note fd true).emit c.user.mLoginMsgSend).out = base ++ c.sendReply.replies.map Reply.msg := by
    rw [h.note.emit_out, note_out, hout, List.append_assoc]
    simp [Login.sendReply]
  unfold Login.epollOut LoginMap.epollOut
  rw [h.look]
  dsimp only
  by_cases h0 : nread = 0
  · rw [if_pos h0, if_pos h0]
    exact shows_deleteOne (c := c.sendReply) hsent hsent_out
  · rw [if_neg h0, if_neg h0]
    have hcounted := hsent.update fun u => { u with remainSend := wrap 4 (u.remainSend - nread) }
    have hcounted_out := hsent.update_out fun u => { u with remainSend := wrap 4 (u.remainSend - nread) }
    rw [hcounted.look]
    dsimp only
    by_cases hall : wrap 4 (c.sendReply.user.remainSend - nread) = 0
    · have hun := hcounted.note.unwatch fd
      have hback := hun.note.update fun u => { u with loginReturnFlag := true }
      have hback_out := hun.note.update_out fun u => { u with loginReturnFlag := true }
      have hall' : wrap 4 (c.user.remainSend - nread) = 0 := hall
      rw [if_pos hall, if_pos hall', hun.look]
      refine ⟨?_, ?_⟩
      · refine hback.erase ?_
        rw [hun.note.update_watched]
        exact hcounted.note.unwatched
      · intro _
        rw [erase_out, hback_out, note_out, unwatch_out, note_out, hcounted_out, hsent_out]
    · have hall' : ¬ wrap 4 (c.user.remainSend - nread) = 0 := hall
      rw [if_neg hall, if_neg hall']
      refine ⟨?_, ?_⟩
      · dsimp only [Login.sendReply]
        rw [hlive]
        exact hcounted.note.begin
      · intro _
        rw [note_out, hcounted_out, hsent_out]

end Login

/-! ## The I/O thread -/

namespace Conn

def results (c : Conn) (io : Io) : Results :=
  let body := if c.recv.mRecvHeadFlag then c else c.recvHead io
  { nread := c.sock.avail.length
    head := .of (c.sock.recv Proto.headSize io.n1)
    body := .of ((body.sock.arrive io.late).recv body.nres io.n2)
    now := 0
    junk := io.junk }

/-- The user's entry, the packets pushed after `base`, and what epoll watches. -/
structure Shows (fd : Int) (user : User) (base : List Buf) (c : Conn) (t : IoMap) : Prop where
  entry : Stands fd ⟨user, c.recv⟩ t c.status
  out : c.status ≠ .faulted → t.out = base ++ c.packList
  watched : c.status = .live → fd ∈ t.watched

variable {fd : Int} {user : User} {base : List Buf} {c : Conn} {t : IoMap}

theorem deletelogin_out {r : IoUser} (h : Open fd r t) : (IoMap.deleteloginUser t fd).out = t.out := by
  have hun := h.unwatch fd
  have hflag := hun.update fun u => { u with user := { u.user with deleteFlag2 := true } }
  unfold IoMap.deleteloginUser IoMap.setFlags
  dsimp only
  rw [erase_out, hflag.update_out, hun.update_out, unwatch_out]

/-- A user who is deleted. -/
theorem shows_deletelogin {r : IoUser} (h : Open fd r t) (hout : t.out = base ++ c.packList) :
    Shows fd user base c.deleteloginUser (IoMap.deleteloginUser t fd) :=
  ⟨IoMap.deletelogin_torn h, fun _ => (deletelogin_out h).trans hout, fun hl => Status.noConfusion hl⟩

theorem recvBody_shows {io : Io} {res : Results} (h : Open fd ⟨user, c.recv⟩ t) (hlive : c.status = .live)
    (hwatched : fd ∈ t.watched) (hout : t.out = base ++ c.packList) (hflag : c.recv.mRecvHeadFlag = true)
    (hbody : res.body = .of ((c.sock.arrive io.late).recv c.nres io.n2)) :
    Shows fd user base (c.recvBody io) (IoMap.recvBody t fd res) := by
  obtain ⟨hret, hbytes⟩ := RecvResult.of_recv (c.sock.arrive io.late) c.nres io.n2
  rw [← hbody] at hret hbytes
  have hreceived : res.received = wrap 4 ((c.sock.arrive io.late).recv c.nres io.n2).ret := by
    rw [Results.received, hret]
  obtain ⟨r, hr⟩ : ∃ r, r = (c.sock.arrive io.late).recv c.nres io.n2 := ⟨_, rfl⟩
  rw [← hr] at hreceived hbytes
  unfold Conn.recvBody IoMap.recvBody
  rw [h.look, ← hr]
  dsimp only
  rw [if_pos hflag, hreceived, hbytes]
  have hstored := h.note.update fun u => { u with
    mRecv := { u.mRecv with mRecvBuff := u.mRecv.mRecvBuff.store u.mRecv.mLengthHasRecv r.bytes } }
  have hstored_out := h.note.update_out fun u => { u with
    mRecv := { u.mRecv with mRecvBuff := u.mRecv.mRecvBuff.store u.mRecv.mLengthHasRecv r.bytes } }
  by_cases hneg : wrap 4 r.ret < 0
  · rw [if_pos hneg, if_pos hneg]
    exact ⟨((IoMap.deletelogin_torn hstored).update _).look _ _, fun hf => absurd rfl hf,
      fun hl => Status.noConfusion hl⟩
  · rw [if_neg hneg, if_neg hneg]
    have hcounted := hstored.update fun u => { u with
      mRecv := { u.mRecv with mLengthHasRecv := wrap 4 (u.mRecv.mLengthHasRecv + wrap 4 r.ret) } }
    have hcounted_out := hstored.update_out fun u => { u with
      mRecv := { u.mRecv with mLengthHasRecv := wrap 4 (u.mRecv.mLengthHasRecv + wrap 4 r.ret) } }
    have hcounted_watched := hstored.update_watched fun u => { u with
      mRecv := { u.mRecv with mLengthHasRecv := wrap 4 (u.mRecv.mLengthHasRecv + wrap 4 r.ret) } }
    rw [h.note.update_watched, note_watched] at hcounted_watched
    rw [hcounted.look]
    dsimp only
    by_cases hall : wrap 4 (c.recv.mLengthHasRecv + wrap 4 r.ret) = c.recv.mTotalLengthOfData
    · rw [if_pos hall, if_pos hall]
      have hpushed := hcounted.note.emit (c.recv.mRecvBuff.store c.recv.mLengthHasRecv r.bytes)
      have hreset := hpushed.update fun u => { u with mRecv := { u.mRecv with mLengthHasRecv := 0 } }
      refine ⟨?_, ?_, fun _ => ?_⟩
      · dsimp only
        rw [hlive]
        exact (hreset.update fun u => { u with mRecv := { u.mRecv with mRecvHeadFlag := false } }).begin
      · intro _
        rw [hreset.update_out, hpushed.update_out, hcounted.note.emit_out, note_out, hcounted_out, hstored_out,
          note_out, hout, List.append_assoc]
      · rw [hreset.update_watched, hpushed.update_watched, hcounted.note.emit_watched, note_watched, hcounted_watched]
        exact hwatched
    · rw [if_neg hall, if_neg hall]
      refine ⟨?_, ?_, fun _ => ?_⟩
      · dsimp only
        rw [hlive]
        have hrecord := hcounted.note
        simp only [hflag] at hrecord
        exact hrecord.begin
      · intro _
        rw [note_out, hcounted_out, hstored_out, note_out, hout]
      · rw [note_watched, hcounted_watched]
        exact hwatched

theorem recvHead_shows {io : Io} {res : Results} (h : Open fd ⟨user, c.recv⟩ t) (hlive : c.status = .live)
    (hwatched : fd ∈ t.watched) (hout : t.out = base ++ c.packList) (hjunk : res.junk = io.junk)
    (hhead : res.head = .of (c.sock.recv Proto.headSize io.n1))
    (hbody : res.body = .of (((c.recvHead io).sock.arrive io.late).recv (c.recvHead io).nres io.n2)) :
    Shows fd user base
      (if (c.sock.recv Proto.headSize io.n1).ret = 0 then (c.recvHead io).deleteloginUser
      else (c.recvHead io).recvBody io)
      (IoMap.recvHead t fd res) := by
  obtain ⟨hret, hbytes⟩ := RecvResult.of_recv c.sock Proto.headSize io.n1
  rw [← hhead] at hret hbytes
  have hstored := h.update fun u => { u with mRecv := { u.mRecv with mRecvBuff := res.junk.write 0 res.head.bytes } }
  have hstored_out := h.update_out fun u => { u with
    mRecv := { u.mRecv with mRecvBuff := res.junk.write 0 res.head.bytes } }
  unfold IoMap.recvHead
  dsimp only
  by_cases h0 : (c.sock.recv Proto.headSize io.n1).ret = 0
  · rw [if_pos h0, if_pos (hret.trans h0)]
    exact shows_deletelogin (c := c.recvHead io) hstored (hstored_out.trans hout)
  · have h0' : res.head.ret ≠ 0 := by rwa [hret]
    rw [if_neg h0, if_neg h0', hstored.look]
    dsimp only
    have htotal := hstored.note.update fun u' => { u' with
      mRecv := { u'.mRecv with mTotalLengthOfData := Proto.length (res.junk.write 0 res.head.bytes) } }
    have hhas := htotal.update fun u' => { u' with mRecv := { u'.mRecv with mLengthHasRecv := Proto.headSize } }
    have hopen := hhas.update fun u' => { u' with mRecv := { u'.mRecv with mRecvHeadFlag := true } }
    have hrecord : (⟨user, (c.recvHead io).recv⟩ : IoUser) = ⟨user, ⟨res.junk.write 0 res.head.bytes, true,
        Proto.length (res.junk.write 0 res.head.bytes), Proto.headSize⟩⟩ := by
      rw [hjunk, hbytes]
      rfl
    dsimp only at hopen
    rw [← hrecord] at hopen
    refine recvBody_shows hopen hlive ?_ ?_ rfl hbody
    · rw [hhas.update_watched, htotal.update_watched, hstored.note.update_watched, note_watched, h.update_watched]
      exact hwatched
    · rw [hhas.update_out, htotal.update_out, hstored.note.update_out, note_out, hstored_out, hout]
      rfl

theorem epollRead_shows {io : Io} (h : Open fd ⟨user, c.recv⟩ t) (hlive : c.status = .live)
    (hwatched : fd ∈ t.watched) (hout : t.out = base ++ c.packList) (hsize : c.sock.avail.length < 2 ^ 63) :
    Shows fd user base (c.epollRead io) (IoMap.epollRead t fd (c.results io)) := by
  have hhas : (c.results io).hasHead ↔ Proto.headSize ≤ c.sock.avail.length := hasHead_iff rfl hsize
  have hzero : (c.results io).nread = 0 ↔ c.sock.avail.length = 0 := Int.natCast_eq_zero
  unfold Conn.epollRead IoMap.epollRead
  by_cases h0 : c.sock.avail.length = 0
  · rw [if_pos h0, if_pos (hzero.mpr h0)]
    exact shows_deletelogin h hout
  · rw [if_neg h0, if_neg fun hn => h0 (hzero.mp hn)]
    by_cases hflag : c.recv.mRecvHeadFlag = true
    · have hbody : ∀ t, Open fd ⟨user, c.recv⟩ t → fd ∈ t.watched → t.out = base ++ c.packList →
          Shows fd user base (c.recvBody io) (IoMap.recvPacket t fd (c.results io)) := by
        intro t h hwatched hout
        unfold IoMap.recvPacket
        rw [h.look, if_neg (by simp [hflag])]
        exact recvBody_shows h.note hlive hwatched hout hflag (by simp [results, hflag])
      rw [if_pos (Or.inr hflag), if_pos hflag]
      by_cases hhead : (c.results io).hasHead
      · rw [if_pos hhead]
        exact hbody t h hwatched hout
      · rw [if_neg hhead, h.look, if_pos hflag]
        exact hbody _ h.note hwatched hout
    · by_cases hhead : (c.results io).hasHead
      · rw [if_pos hhead, if_pos (Or.inl (hhas.mp hhead)), if_neg hflag]
        unfold IoMap.recvPacket
        have hfalse : c.recv.mRecvHeadFlag = false := Bool.eq_false_iff.mpr hflag
        have hbody : (c.results io).body =
            .of (((c.recvHead io).sock.arrive io.late).recv (c.recvHead io).nres io.n2) := by
          simp [results, hflag]
        rw [h.look]
        dsimp only
        rw [if_pos hfalse]
        exact recvHead_shows h.note hlive hwatched hout rfl rfl hbody
      · have hnot : ¬ (Proto.headSize ≤ c.sock.avail.length ∨ c.recv.mRecvHeadFlag = true) := by
          rw [← hhas]
          simp [hhead, hflag]
        rw [if_neg hnot, if_neg hhead, h.look, if_neg hflag]
        refine ⟨?_, fun _ => hout, fun _ => hwatched⟩
        rw [hlive]
        exact h.note.begin

/-! ### Runs -/

structure Joined (fd : Int) (user : User) (base : List Buf) (c : Conn) (s : EventLoops) : Prop where
  shows : Shows fd user base c s.mMap
  accept : s.mLoginMap.fault = false
  small : c.sock.unread.length < 2 ^ 63

/-- The I/O thread takes over a user whose socket it has not. -/
theorem init_joined {s : EventLoops} (hs : EventLoops.Inv s) {user : User}
    (hnew : s.mMap.entries.find? user.mSocket = none) (junk : Buf) (stream : List UInt8) (closed : Bool)
    (hsmall : stream.length < 2 ^ 63) :
    Joined user.mSocket user s.mMap.out (init junk stream closed) (s.effect (.vcdPop ⟨user, .new junk⟩)) := by
  refine ⟨⟨hs.mMap.inserted_open hnew _, fun _ => (List.append_nil _).symm, fun _ => ?_⟩, hs.mLoginMap.running, hsmall⟩
  exact List.mem_append_right _ (List.mem_singleton_self _)

/-- Each call of the connection's model is one event of the loops. -/
theorem step_joined {s : EventLoops} {e : Ev} {c' : Conn} (h : Joined fd user base c s) (hstep : c.step e = some c') :
    ∃ ds s', run EventLoops.step s ds = some s' ∧ Joined fd user base c' s' := by
  cases e with
  | arrive n =>
    cases hstep
    refine ⟨[], s, rfl, ⟨h.shows.entry, h.shows.out, h.shows.watched⟩, h.accept, ?_⟩
    rw [Sock.arrive_unread]
    exact h.small
  | epollRead io =>
    simp only [step, Option.ite_none_right_eq_some, Option.some.injEq] at hstep
    obtain ⟨⟨hlive, -⟩, rfl⟩ := hstep
    have hentry := h.shows.entry
    rw [hlive] at hentry
    have hopen : Open fd ⟨user, c.recv⟩ s.mMap.begin := hentry
    have hout := h.shows.out (by rw [hlive]; decide)
    have hwatched := h.shows.watched hlive
    have havail : c.sock.avail.length < 2 ^ 63 := by
      have hsmall := h.small
      simp only [Sock.unread, List.length_append] at hsmall
      omega
    refine ⟨[.epollRead fd (c.results io)], s.effect (.epollRead fd (c.results io)), ?_, ?_, h.accept, ?_⟩
    · have henabled : s.running ∧ s.enabled (.epollRead fd (c.results io)) :=
        ⟨⟨h.accept, hopen.sound.running⟩, hwatched⟩
      simp [run, EventLoops.step, henabled]
    · exact epollRead_shows hopen hlive hwatched hout havail
    · exact (epollRead_unread_le c io).trans_lt h.small

/-- A run of the connection's model is one of the event loops, which hands on the same
    packets. -/
theorem run_joined {s : EventLoops} {es : List Ev} {c' : Conn} (h : Joined fd user base c s)
    (hrun : run step c es = some c') : ∃ ds s', run EventLoops.step s ds = some s' ∧ Joined fd user base c' s' :=
  run_simulates (fun _ _ _ _ => step_joined) h hrun

/-- From the take-over on. -/
theorem run_joined_of_init {s : EventLoops} (hs : EventLoops.Inv s) {user : User}
    (hnew : s.mMap.entries.find? user.mSocket = none) {junk : Buf} {stream : List UInt8} {closed : Bool}
    (hsmall : stream.length < 2 ^ 63) {es : List Ev} {c' : Conn} (hrun : run step (init junk stream closed) es = some c') :
    ∃ ds s', run EventLoops.step s (.vcdPop ⟨user, .new junk⟩ :: ds) = some s' ∧
      Joined user.mSocket user s.mMap.out c' s' := by
  have htake : EventLoops.step s (.vcdPop ⟨user, .new junk⟩) = some (s.effect (.vcdPop ⟨user, .new junk⟩)) :=
    if_pos ⟨⟨hs.mLoginMap.running, hs.mMap.running⟩, trivial⟩
  obtain ⟨ds, s', hds, hs'⟩ := run_joined (init_joined hs hnew junk stream closed hsmall) hrun
  exact ⟨ds, s', by rw [run_cons htake, hds], hs'⟩

/-- Where the connection's model is faulted, a lookup has come after the tear-down. -/
theorem Joined.not_final {s : EventLoops} (h : Joined fd user base c s) (hc : c.status = .faulted) :
    ¬ EventLoops.Final s := by
  have hentry := h.shows.entry
  rw [hc] at hentry
  have hbroken : s.mMap.Broken := hentry
  exact fun hf => hbroken.not_clean hf.mMap

end Conn

end GroupeChat.ChatServer
