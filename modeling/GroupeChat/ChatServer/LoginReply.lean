/-
  GroupeChat.ChatServer.LoginReply — whether a login reply is delivered (the EPOLLOUT
  branch of `CAccept::funcAccept`, on the record of `GroupeChat.ChatServer.Login`).

  Each event calls `send` with the whole of `m_loginMsgSend` and subtracts what it
  returns, -1 too, from `remainSend`; the record is done when that is 0. `LoginReply` is
  one record whose reply no longer changes, with the bytes accepted so far.

  `delivered_iff_next`: what was accepted is the first of the reply, `remainSend` counts
  the rest and the record is done with the last byte, all along exactly the runs in which
  no `send` fails and each accepts bytes that come next in the reply. A `send` that would
  block makes `remainSend` 19 (`a_send_that_would_block`).
-/

import GroupeChat.ChatServer.Login

namespace GroupeChat.ChatServer

open Base

structure LoginReply where
  login : Login
  /-- What the `send`s have accepted, one after the other. -/
  accepted : List UInt8

namespace LoginReply

def msg (r : LoginReply) : Buf := r.login.user.mLoginMsgSend

/-- A record whose login has been decided: `m_loginMsgSend` is `msg`. -/
def init (junk : Unloginuser) (socket userId now : Int) (loginState : LoginFlag) (msg : Buf) : LoginReply :=
  let c := Login.init junk socket userId now [] false
  { login := { c with user := { c.user with loginState := loginState, mLoginMsgSend := msg }, armed := true }
    accepted := [] }

/-- `send()` returns `nread`: a count from 1 to the size asked, or -1. -/
def step (r : LoginReply) (nread : Int) : Option LoginReply :=
  if r.login.accept = .live ∧ (nread = -1 ∨ 1 ≤ nread ∧ nread ≤ Proto.loginReplySize) then
    some ⟨r.login.epollOut nread, r.accepted ++ r.msg.read 0 nread.toNat⟩
  else none

structure Delivered (r : LoginReply) : Prop where
  first : r.accepted <+: r.msg.read 0 Proto.loginReplySize
  remain : r.login.user.remainSend = Proto.loginReplySize - r.accepted.length
  done : r.login.user.loginReturnFlag = true ↔ r.accepted.length = Proto.loginReplySize

/-- The `send` accepts something, and it is what comes next in the reply. -/
def Next (r : LoginReply) (nread : Int) : Prop :=
  nread ≠ -1 ∧ r.accepted.length + nread ≤ Proto.loginReplySize ∧
    ∀ i < nread.toNat, r.msg i = r.msg (r.accepted.length + i)

structure Inv (r : LoginReply) : Prop where
  delivered : Delivered r
  live : r.login.accept = .live → r.login.user.loginReturnFlag = false

theorem init_inv (junk : Unloginuser) (socket userId now : Int) (loginState : LoginFlag) (msg : Buf) :
    Inv (init junk socket userId now loginState msg) :=
  ⟨⟨List.nil_prefix, rfl, ⟨nofun, nofun⟩⟩, fun _ => rfl⟩

/-- What a `send` that does not return 0 does to the record. -/
theorem epollOut_eq (c : Login) {nread remain : Int} (h0 : nread ≠ 0) (hr : wrap 4 (c.user.remainSend - nread) = remain) :
    (c.epollOut nread).user.mLoginMsgSend = c.user.mLoginMsgSend ∧ (c.epollOut nread).user.remainSend = remain ∧
      (remain = 0 ∧ (c.epollOut nread).user.loginReturnFlag = true ∧ (c.epollOut nread).accept = .dropped ∨
        remain ≠ 0 ∧ (c.epollOut nread).user.loginReturnFlag = c.user.loginReturnFlag) := by
  unfold Login.epollOut
  dsimp only
  rw [if_neg h0]
  by_cases hzero : wrap 4 (c.sendReply.user.remainSend - nread) = 0
  · rw [if_pos hzero]
    exact ⟨rfl, hr, Or.inl ⟨hr.symm.trans hzero, rfl, rfl⟩⟩
  · rw [if_neg hzero]
    exact ⟨rfl, hr, Or.inr ⟨fun h => hzero (hr.trans h), rfl⟩⟩

theorem step_inv (r : LoginReply) (nread : Int) (r' : LoginReply) (h : Inv r) (hs : step r nread = some r') :
    (Next r nread → Inv r') ∧ (Delivered r' → Next r nread) := by
  unfold step at hs
  split at hs
  · rename_i hg
    obtain rfl := Option.some.inj hs
    obtain ⟨hlive, hnread⟩ := hg
    have hflag := h.live hlive
    obtain ⟨hfirst, hremain, hdone⟩ := h.delivered
    have hsize : Proto.loginReplySize = 18 := rfl
    have hle := hfirst.length_le
    rw [Mem.read_length] at hle
    have hne : r.accepted.length ≠ Proto.loginReplySize := by
      intro heq
      rw [hdone.mpr heq] at hflag
      cases hflag
    have haccepted : r.accepted = r.msg.read 0 r.accepted.length := by
      rw [← Mem.take_read r.msg 0 hle]
      exact List.prefix_iff_eq_take.mp hfirst
    have hwrap : wrap 4 (r.login.user.remainSend - nread) = Proto.loginReplySize - r.accepted.length - nread := by
      rw [hremain]
      exact wrap_four (by omega) (by omega)
    obtain ⟨hmsg, hremain', hend⟩ := epollOut_eq r.login (by omega) hwrap
    have hprefix : r.accepted ++ r.msg.read 0 nread.toNat <+: r.msg.read 0 Proto.loginReplySize ↔
        r.accepted.length + nread.toNat ≤ Proto.loginReplySize ∧
          ∀ i < nread.toNat, r.msg i = r.msg (r.accepted.length + i) := by
      rw [← Mem.read_append_prefix_iff, ← haccepted]
    have hlen : (r.accepted ++ r.msg.read 0 nread.toNat).length = r.accepted.length + nread.toNat := by
      rw [List.length_append, Mem.read_length]
    refine ⟨?_, ?_⟩
    · intro ⟨hsome, hroom, hnext⟩
      have hfirst' : r.accepted ++ r.msg.read 0 nread.toNat <+: (r.login.epollOut nread).user.mLoginMsgSend.read 0
          Proto.loginReplySize := by
        rw [hmsg]
        exact hprefix.mpr ⟨by omega, hnext⟩
      rcases hend with ⟨hzero, hset, hgone⟩ | ⟨hrest, hkept⟩
      · refine ⟨⟨hfirst', ?_, ?_⟩, fun hl => ?_⟩
        · show (r.login.epollOut nread).user.remainSend = _
          rw [hremain', hlen]
          omega
        · dsimp only
          rw [hset, hlen]
          exact ⟨fun _ => by omega, fun _ => rfl⟩
        · rw [hgone] at hl
          cases hl
      · refine ⟨⟨hfirst', ?_, ?_⟩, fun _ => hkept.trans hflag⟩
        · show (r.login.epollOut nread).user.remainSend = _
          rw [hremain', hlen]
          omega
        · dsimp only
          rw [hkept, hflag, hlen]
          exact ⟨nofun, fun _ => by omega⟩
    · intro ⟨hfirst', hcount, _⟩
      dsimp only [LoginReply.msg] at hfirst'
      dsimp only at hcount
      rw [hmsg] at hfirst'
      rw [hremain', hlen] at hcount
      obtain ⟨hroom, hnext⟩ := hprefix.mp hfirst'
      exact ⟨by omega, by omega, hnext⟩
  · cases hs

/-- The reply is delivered exactly when each `send` accepts what comes next in it. -/
theorem delivered_iff_next (junk : Unloginuser) (socket userId now : Int) (loginState : LoginFlag) (msg : Buf)
    (es : List Int) :
    Always step Delivered (init junk socket userId now loginState msg) es ↔
      Along step Next (init junk socket userId now loginState msg) es :=
  always_iff_along (fun _ => Inv.delivered) step_inv (init_inv junk socket userId now loginState msg)

/-- A first `send` that would block. -/
theorem a_send_that_would_block :
    ¬ Always step Delivered (init .zero 5 1 0 .loginSuccess (fun _ => 0)) [-1] := by
  intro h
  have hrun : run step (init .zero 5 1 0 .loginSuccess (fun _ => 0)) [-1] =
      some ⟨(init .zero 5 1 0 .loginSuccess (fun _ => 0)).login.epollOut (-1), []⟩ := rfl
  have := (h.last hrun).remain
  revert this
  decide

end LoginReply

end GroupeChat.ChatServer
