/-
  GroupeChat.ChatServer.LoginStage — what holds of a login record whatever the two threads
  do (the model is `GroupeChat.ChatServer.Login`).

  Receiving and deleting leave the verdict and the reply alone (`Quiet`,
  `epollIn_quiet`). The record has a verdict exactly from the check on, is answered only
  with one, and is returned to the command thread only once the accept thread is done
  with it (`Stage`, kept by every step: `step_stage`).
-/

import GroupeChat.ChatServer.Login

namespace GroupeChat.ChatServer.Login

open Base

/-! ## What receiving does -/

structure Quiet (c c' : Login) : Prop where
  loginState : c'.user.loginState = c.user.loginState
  mUserId : c'.user.mUserId = c.user.mUserId
  authFlag : c'.user.authFlag = c.user.authFlag
  loginReturnFlag : c'.user.loginReturnFlag = c.user.loginReturnFlag
  mLoginMsgSend : c'.user.mLoginMsgSend = c.user.mLoginMsgSend
  accept : c'.accept = .live → c.accept = .live
  timing : c'.timing = c.timing
  armed : c'.armed = c.armed
  cmd : c'.cmd = c.cmd
  judged : c'.judged = c.judged
  replies : c'.replies = c.replies

theorem Quiet.refl (c : Login) : Quiet c c := ⟨rfl, rfl, rfl, rfl, rfl, id, rfl, rfl, rfl, rfl, rfl⟩

theorem Quiet.trans {a b c : Login} (h : Quiet a b) (h' : Quiet b c) : Quiet a c :=
  ⟨h'.loginState.trans h.loginState, h'.mUserId.trans h.mUserId, h'.authFlag.trans h.authFlag,
    h'.loginReturnFlag.trans h.loginReturnFlag, h'.mLoginMsgSend.trans h.mLoginMsgSend, fun hl => h.accept (h'.accept hl),
    h'.timing.trans h.timing, h'.armed.trans h.armed, h'.cmd.trans h.cmd, h'.judged.trans h.judged,
    h'.replies.trans h.replies⟩

theorem deleteOne_quiet (c : Login) : Quiet c c.deleteOneUnloginUser :=
  ⟨rfl, rfl, rfl, rfl, rfl, nofun, rfl, rfl, rfl, rfl, rfl⟩

theorem fault_quiet (c : Login) : Quiet c { c with accept := .faulted } :=
  ⟨rfl, rfl, rfl, rfl, rfl, nofun, rfl, rfl, rfl, rfl, rfl⟩

theorem recvHead_quiet (c : Login) (io : Io) : Quiet c (c.recvHead io) :=
  ⟨rfl, rfl, rfl, rfl, rfl, id, rfl, rfl, rfl, rfl, rfl⟩

theorem expectBody_quiet (c : Login) : Quiet c c.expectBody := by
  unfold expectBody
  exact ⟨rfl, rfl, rfl, rfl, rfl, id, rfl, rfl, rfl, rfl, rfl⟩

theorem recvBody_quiet (c : Login) (io : Io) : Quiet c (c.recvBody io) := by
  unfold recvBody
  dsimp only
  split
  · exact ⟨rfl, rfl, rfl, rfl, rfl, id, rfl, rfl, rfl, rfl, rfl⟩
  · exact ⟨rfl, rfl, rfl, rfl, rfl, nofun, rfl, rfl, rfl, rfl, rfl⟩

/-- What follows the `recv` of a header. -/
theorem recvHeader_quiet (c : Login) (io : Io) :
    Quiet c (if (c.sock.recv Proto.headSize io.n1).ret = 0 then (c.recvHead io).deleteOneUnloginUser
      else if Proto.cmdId (c.recvHead io).user.recvbuff = CmdId.login.code then (c.recvHead io).expectBody.recvBody io
      else { (c.recvHead io).deleteOneUnloginUser with accept := .faulted }) := by
  have hh := recvHead_quiet c io
  split
  · exact hh.trans (deleteOne_quiet _)
  · split
    · exact hh.trans ((expectBody_quiet _).trans (recvBody_quiet _ io))
    · exact hh.trans ((deleteOne_quiet _).trans (fault_quiet _))

/-- An EPOLLIN event receives or deletes, unless it times the client out. -/
theorem epollIn_quiet (c : Login) (io : Io) :
    Quiet c (c.epollIn io) ∨
      c.epollIn io = { c with user := c.user.setResult Unloginuser.no, timing := true } := by
  unfold epollIn
  split
  · exact Or.inl ((deleteOne_quiet c).trans (fault_quiet _))
  · split
    · left
      split
      · exact recvHeader_quiet c io
      · exact recvBody_quiet c io
    · unfold timeoutFunc
      split
      · exact Or.inr rfl
      · exact Or.inl (Quiet.refl c)

/-! ## Stages -/

def Unchecked (c : Login) : Prop := c.cmd = .queued ∨ c.cmd = .taken ∧ c.user.authFlag = false

def Checked (c : Login) : Prop := c.cmd = .published ∨ c.cmd = .filled ∨ c.cmd = .named ∨ c.user.authFlag = true

structure Stage (c : Login) : Prop where
  unchecked : c.Unchecked → c.user.loginState = .noLogin
  checked : c.Checked → c.user.loginState ≠ .noLogin
  out : c.armed = true → c.user.loginState ≠ .noLogin
  returned : c.user.loginReturnFlag = true ∨ c.cmd = .gone → c.accept ≠ .live
  answered : c.user.loginReturnFlag = true → c.user.loginState ≠ .noLogin

theorem init_stage (junk : Unloginuser) (socket userId now : Int) (stream : List UInt8) (closed : Bool) :
    Stage (init junk socket userId now stream closed) where
  unchecked _ := rfl
  checked h := by rcases h with h | h | h | h <;> cases h
  out := nofun
  returned h := by rcases h with h | h <;> cases h
  answered := nofun

theorem Stage.quiet {c c' : Login} (hi : Stage c) (hq : Quiet c c') : Stage c' where
  unchecked h := by
    rw [Unchecked, hq.cmd, hq.authFlag] at h
    rw [hq.loginState]
    exact hi.unchecked h
  checked h := by
    rw [Checked, hq.cmd, hq.authFlag] at h
    rw [hq.loginState]
    exact hi.checked h
  out h := by
    rw [hq.armed] at h
    rw [hq.loginState]
    exact hi.out h
  returned h := by
    rw [hq.loginReturnFlag, hq.cmd] at h
    exact fun hl => hi.returned h (hq.accept hl)
  answered h := by
    rw [hq.loginReturnFlag] at h
    rw [hq.loginState]
    exact hi.answered h

/-- A record that the command thread is done with, or has died on. -/
theorem Stage.ended {c : Login} (hi : Stage c) {p : Phase} (hp : p = .gone ∨ p = .faulted)
    (hg : p = .gone → c.accept ≠ .live) : Stage { c with cmd := p } := by
  have hne : p ≠ .queued ∧ p ≠ .taken ∧ p ≠ .published ∧ p ≠ .filled ∧ p ≠ .named := by
    rcases hp with rfl | rfl <;> decide
  obtain ⟨h1, h2, h3, h4, h5⟩ := hne
  constructor
  case unchecked =>
    intro h
    rcases h with h | ⟨h, -⟩
    · exact absurd h h1
    · exact absurd h h2
  case checked =>
    intro h
    rcases h with h | h | h | h
    · exact absurd h h3
    · exact absurd h h4
    · exact absurd h h5
    · exact hi.checked (Or.inr (Or.inr (Or.inr h)))
  case out => exact hi.out
  case returned => exact fun h => h.elim (fun h => hi.returned (Or.inl h)) hg
  case answered => exact hi.answered

theorem epollOut_stage {c : Login} (hi : Stage c) (ho : c.armed = true) (nread : Int) : Stage (c.epollOut nread) := by
  have hst := hi.out ho
  unfold epollOut
  dsimp only
  split
  · exact ⟨hi.unchecked, hi.checked, hi.out, nofun, hi.answered⟩
  · split
    · exact ⟨hi.unchecked, hi.checked, hi.out, nofun, fun _ => hst⟩
    · exact ⟨hi.unchecked, hi.checked, hi.out, hi.returned, hi.answered⟩

/-- Every step of either thread keeps the stages. -/
theorem step_stage {c c' : Login} {e : Ev} (hi : Stage c) (h : step c e = some c') : Stage c' := by
  obtain ⟨-, hen, rfl⟩ := step_eq h
  cases e with
  | arrive n => exact ⟨hi.unchecked, hi.checked, hi.out, hi.returned, hi.answered⟩
  | epollIn io =>
    rcases epollIn_quiet c io with hq | hq
    · exact hi.quiet hq
    · show Stage (c.epollIn io)
      rw [hq]
      exact ⟨hi.unchecked, hi.checked, hi.out, hi.returned, hi.answered⟩
  | timeoutSend => exact ⟨hi.unchecked, hi.checked, hi.out, nofun, hi.answered⟩
  | armOut => exact ⟨hi.unchecked, hi.checked, fun _ => hen.2, hi.returned, hi.answered⟩
  | epollOut nread => exact epollOut_stage hi hen.2.1 nread
  | takeOver =>
    have hno := hi.unchecked (Or.inl hen)
    have hauth : ¬ c.user.authFlag = true := fun h => hi.checked (Or.inr (Or.inr (Or.inr h))) hno
    refine ⟨fun _ => hno, ?_, hi.out, fun h => hi.returned (h.imp_right nofun), hi.answered⟩
    intro h
    rcases h with h | h | h | h
    · cases h
    · cases h
    · cases h
    · exact absurd h hauth
  | check =>
    have hno := hi.unchecked (Or.inr hen)
    have hst : c.user.verdict ≠ .noLogin := by
      unfold Unloginuser.verdict
      split <;> decide
    refine ⟨?_, fun _ => hst, fun _ => hst, fun h => hi.returned (h.imp_right nofun), fun _ => hst⟩
    intro h
    rcases h with h | ⟨h, -⟩ <;> cases h
  | fillResult =>
    have hst := hi.checked (Or.inl hen)
    refine ⟨?_, fun _ => hst, hi.out, fun h => hi.returned (h.imp_right nofun), hi.answered⟩
    intro h
    rcases h with h | ⟨h, -⟩ <;> cases h
  | fillUserId =>
    have hst := hi.checked (Or.inr (Or.inl hen))
    refine ⟨?_, fun _ => hst, hi.out, fun h => hi.returned (h.imp_right nofun), hi.answered⟩
    intro h
    rcases h with h | ⟨h, -⟩ <;> cases h
  | setAuthFlag =>
    have hst := hi.checked (Or.inr (Or.inr (Or.inl hen)))
    refine ⟨?_, fun _ => hst, hi.out, fun h => hi.returned (h.imp_right nofun), hi.answered⟩
    intro h
    rcases h with h | ⟨-, h⟩ <;> cases h
  | reap => exact hi.ended (Or.inr rfl) nofun
  | promote => exact hi.ended (Or.inl rfl) fun _ => hi.returned (Or.inl hen.2)

/-! ## Logins that can still succeed -/

theorem epollOut_cases (c : Login) (nread : Int) :
    (c.epollOut nread).cmd = c.cmd ∧ (c.epollOut nread).user.mUserId = c.user.mUserId ∧
      (c.epollOut nread).user.loginState = c.user.loginState := by
  unfold epollOut
  dsimp only
  split
  · exact ⟨rfl, rfl, rfl⟩
  · split <;> exact ⟨rfl, rfl, rfl⟩

theorem step_userId {c c' : Login} {e : Ev} (h : step c e = some c') : c'.user.mUserId = c.user.mUserId := by
  obtain ⟨-, -, rfl⟩ := step_eq h
  cases e with
  | epollIn io =>
    rcases epollIn_quiet c io with hq | hq
    · exact hq.mUserId
    · show (c.epollIn io).user.mUserId = _
      rw [hq]; rfl
  | epollOut nread => exact (epollOut_cases c nread).2.1
  | _ => rfl

/-- The login has failed, or the connection was given up unanswered. -/
def Over (c : Login) : Prop :=
  c.user.loginState = .loginFailed ∨ c.accept ≠ .live ∧ c.user.loginReturnFlag = false

/-- The login may yet make a user. -/
def Candidate (c : Login) : Prop := c.cmd ≠ .gone ∧ ¬ c.Over

theorem step_gone {c c' : Login} {e : Ev} (h : step c e = some c') (hg : c.cmd = .gone) : c'.cmd = .gone := by
  obtain ⟨-, hen, rfl⟩ := step_eq h
  cases e with
  | arrive n => exact hg
  | epollIn io =>
    rcases epollIn_quiet c io with hq | hq
    · exact hq.cmd.trans hg
    · show (c.epollIn io).cmd = _
      rw [hq]; exact hg
  | timeoutSend => exact hg
  | armOut => exact hg
  | epollOut nread => exact (epollOut_cases c nread).1.trans hg
  | promote => rfl
  | takeOver => cases hg.symm.trans hen
  | check => cases hg.symm.trans hen.1
  | fillResult => cases hg.symm.trans hen
  | fillUserId => cases hg.symm.trans hen
  | setAuthFlag => cases hg.symm.trans hen
  | reap => cases hg.symm.trans hen.1

/-- A verdict stays, and nothing is received or sent for a connection given up. -/
theorem step_over {c c' : Login} {e : Ev} (hi : Stage c) (h : step c e = some c') (ho : c.Over) : c'.Over := by
  obtain ⟨-, hen, rfl⟩ := step_eq h
  cases e with
  | arrive n => exact ho
  | epollIn io =>
    have hl := hen.1.1
    have hf := ho.resolve_right fun h => h.1 hl
    rcases epollIn_quiet c io with hq | hq
    · exact Or.inl (hq.loginState.trans hf)
    · show (c.epollIn io).Over
      rw [hq]; exact Or.inl hf
  | timeoutSend => exact ho.imp_right fun h => ⟨nofun, h.2⟩
  | armOut => exact ho
  | epollOut nread =>
    have hf := ho.resolve_right fun h => h.1 hen.1.1
    exact Or.inl ((epollOut_cases c nread).2.2.trans hf)
  | takeOver => exact ho
  | check =>
    have hno := hi.unchecked (Or.inr hen)
    exact Or.inr (ho.resolve_left fun h => nomatch hno.symm.trans h)
  | fillResult => exact ho
  | fillUserId => exact ho
  | setAuthFlag => exact ho
  | reap => exact ho
  | promote => exact ho

/-- A login that is promoted with success could. -/
theorem candidate_of_promote {c c' : Login} (h : step c .promote = some c') (hs : c.user.loginState = .loginSuccess) :
    c.Candidate := by
  obtain ⟨-, hen, -⟩ := step_eq h
  refine ⟨fun hg => (nomatch hen.1.symm.trans hg), fun hover => ?_⟩
  rcases hover with hf | ⟨-, hf⟩
  · cases hs.symm.trans hf
  · cases hen.2.symm.trans hf

theorem step_candidate {c c' : Login} {e : Ev} (hi : Stage c) (h : step c e = some c') (hc : c'.Candidate) :
    c.Candidate :=
  ⟨fun hg => hc.1 (step_gone h hg), fun ho => hc.2 (step_over hi h ho)⟩

/-- `loginReturnFlag` is set once, on a connection that is still listened to. -/
theorem step_return {c c' : Login} {e : Ev} (h : step c e = some c') :
    c'.user.loginReturnFlag = c.user.loginReturnFlag ∨
      c.accept = .live ∧ c'.user.loginReturnFlag = true ∧ c'.user.loginState = c.user.loginState ∧ e ≠ .promote := by
  obtain ⟨-, hen, rfl⟩ := step_eq h
  cases e with
  | epollIn io =>
    rcases epollIn_quiet c io with hq | hq
    · exact Or.inl hq.loginReturnFlag
    · left
      show (c.epollIn io).user.loginReturnFlag = _
      rw [hq]; rfl
  | epollOut nread =>
    have hstate := (epollOut_cases c nread).2.2
    revert hstate
    simp only [effect]
    unfold epollOut
    dsimp only
    split
    · exact fun _ => Or.inl rfl
    · split
      · exact fun hs => Or.inr ⟨hen.1.1, rfl, hs, nofun⟩
      · exact fun _ => Or.inl rfl
  | _ => exact Or.inl rfl

end GroupeChat.ChatServer.Login
