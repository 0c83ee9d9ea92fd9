/-
  GroupeChat.ChatServer.LoginVerdict — whether the login verdict follows the credentials
  (the model is `GroupeChat.ChatServer.Login`).

  `Faithful`: the record is judged on a login message that `recvbuff` held complete, it
  succeeds exactly when that message's name and passwd are "admin", and every reply says
  so. The code checks a record as soon as it finds it, stores the verdict before the
  reply, and stores every piece of a body at the same place. `Orderly` runs avoid what
  comes of that: a check sees a header and, in one piece, the whole body; no reply goes
  out between the store of `loginState` and the end of the reply; no time-out is answered
  once the login has succeeded. They are faithful, however the threads interleave
  (`faithful_of_orderly`). Checked before anything has arrived, a client with the right
  password is refused (`a_check_before_the_message`).
-/

import GroupeChat.ChatServer.LoginStage

namespace GroupeChat.ChatServer

open Base

def nameOf (msg : List UInt8) : List UInt8 := cstr ((msg.drop Proto.nameOff).take Proto.nameSize)

def passwdOf (msg : List UInt8) : List UInt8 := cstr ((msg.drop Proto.passwdOff).take Proto.passwdSize)

/-- The result that a reply carries. -/
def resultOf (msg : Buf) : List UInt8 := cstr (msg.read Proto.resultOff Proto.resultSize)

/-- "Y" and the user's id when the record has succeeded, and only then; else "N". -/
def Reply.Right (userId : Int) (r : Reply) : Prop :=
  (r.state = .loginSuccess ↔ resultOf r.msg = Unloginuser.yes ∧ Proto.userId r.msg = userId) ∧
    (r.state ≠ .loginSuccess → resultOf r.msg = Unloginuser.no)

namespace Login

structure Faithful (c : Login) : Prop where
  judged : c.user.loginState ≠ .noLogin → c.judged ≠ none
  complete : ∀ j, c.judged = some j → Proto.loginSize ≤ j.got.length ∧ j.seen = j.got.take Proto.loginSize
  verdict : ∀ j, c.judged = some j →
    (c.user.loginState = .loginSuccess ↔ nameOf j.got = Unloginuser.admin ∧ passwdOf j.got = Unloginuser.admin)
  replies : ∀ r ∈ c.replies, r.Right c.user.mUserId

/-- A header, then at least a login message's body in one piece. -/
def InTwo : List (List UInt8) → Prop
  | [head, body] => head.length = Proto.headSize ∧ Proto.loginSize ≤ Proto.headSize + body.length
  | _ => False

instance : DecidablePred InTwo
  | [] => inferInstanceAs (Decidable False)
  | [_] => inferInstanceAs (Decidable False)
  | [head, body] =>
    inferInstanceAs (Decidable (head.length = Proto.headSize ∧ Proto.loginSize ≤ Proto.headSize + body.length))
  | _ :: _ :: _ :: _ => inferInstanceAs (Decidable False)

theorem InTwo.eq {pieces : List (List UInt8)} (h : InTwo pieces) : ∃ head body, pieces = [head, body] ∧
    head.length = Proto.headSize ∧ Proto.loginSize ≤ Proto.headSize + body.length := by
  unfold InTwo at h
  split at h
  · exact ⟨_, _, rfl, h⟩
  · exact h.elim

def Orderly (c : Login) : Ev → Prop
  | .check => InTwo c.pieces
  | .epollOut _ => c.cmd ≠ .published ∧ ¬ (c.cmd = .filled ∧ c.user.loginState = .loginSuccess)
  | .timeoutSend => c.user.loginState ≠ .loginSuccess
  | _ => True

instance (c : Login) : (e : Ev) → Decidable (c.Orderly e)
  | .check => inferInstanceAs (Decidable (InTwo c.pieces))
  | .epollOut _ =>
    inferInstanceAs (Decidable (c.cmd ≠ .published ∧ ¬ (c.cmd = .filled ∧ c.user.loginState = .loginSuccess)))
  | .timeoutSend => inferInstanceAs (Decidable (c.user.loginState ≠ .loginSuccess))
  | .arrive _ | .epollIn _ | .armOut | .takeOver | .fillResult | .fillUserId | .setAuthFlag | .reap | .promote =>
    inferInstanceAs (Decidable True)

/-! ## Strings in the record -/

theorem admin_ne_zero : ∀ b ∈ Unloginuser.admin, b ≠ 0 := by simp [Unloginuser.admin]

/-- With a complete message in `recvbuff`, the check is on that message. -/
theorem verdict_iff {u : Unloginuser} {msg : List UInt8}
    (h : u.recvbuff.read 0 Proto.loginSize = msg.take Proto.loginSize) :
    u.verdict = .loginSuccess ↔ nameOf msg = Unloginuser.admin ∧ passwdOf msg = Unloginuser.admin := by
  have hfield : ∀ off n, off + n ≤ Proto.loginSize → u.recvbuff.read off n = (msg.drop off).take n := by
    intro off n hle
    have hd := congrArg (List.take n) (congrArg (List.drop off) h)
    rw [Mem.drop_read _ _ (by omega), Mem.take_read _ _ (by omega), Nat.zero_add, List.drop_take,
      List.take_take, Nat.min_eq_left (by omega)] at hd
    exact hd
  unfold Unloginuser.verdict
  rw [nameOf, passwdOf, ← hfield _ _ (by decide), ← hfield _ _ (by decide),
    ← Mem.streq_iff admin_ne_zero (by decide), ← Mem.streq_iff admin_ne_zero (by decide)]
  split <;> rename_i hv <;> simpa using hv

theorem resultOf_setResult (u : Unloginuser) {s : List UInt8} (hs : s = Unloginuser.yes ∨ s = Unloginuser.no) :
    resultOf (u.setResult s).mLoginMsgSend = s := by
  have hr : (u.setResult s).mLoginMsgSend.read Proto.resultOff (s ++ [0]).length = s ++ [0] :=
    Mem.read_write_same ..
  rcases hs with rfl | rfl <;> exact (congrArg cstr hr).trans (by decide)

theorem userId_setResult (u : Unloginuser) (s : List UInt8) :
    Proto.userId (u.setResult s).mLoginMsgSend = Proto.userId u.mLoginMsgSend :=
  Mem.getInt_congr (Mem.read_write_below _ _ (by decide))

theorem resultOf_setReplyId (u : Unloginuser) : resultOf u.setReplyId.mLoginMsgSend = resultOf u.mLoginMsgSend := by
  have h : u.setReplyId.mLoginMsgSend.read Proto.resultOff Proto.resultSize =
      u.mLoginMsgSend.read Proto.resultOff Proto.resultSize := Mem.read_write_above _ _ (by simp [Proto.resultOff])
  rw [resultOf, h, resultOf]

theorem userId_setReplyId {u : Unloginuser} (h : wrap 4 u.mUserId = u.mUserId) :
    Proto.userId u.setReplyId.mLoginMsgSend = u.mUserId :=
  (Mem.getInt_putInt 4 _ 4 _).trans h

/-! ## What lies in `recvbuff` -/

structure Laid (c : Login) : Prop where
  first : c.pieces = [] → c.user.recvHeadFlag = true
  pair : c.pieces.length = 1 → c.accept ≠ .live
  buff : ∀ head body, c.pieces = [head, body] → head.length = Proto.headSize →
    c.user.recvbuff.read 0 (Proto.headSize + body.length) = head ++ body

theorem Laid.deleteOne {c : Login} (h : Laid c) : Laid c.deleteOneUnloginUser := ⟨h.first, nofun, h.buff⟩

/-- One more piece for a client that goes no further. -/
theorem recvHead_laid {c : Login} (h : Laid c) (hl : c.accept = .live) (io : Io) :
    Laid (c.recvHead io).deleteOneUnloginUser := by
  have hp : (c.recvHead io).deleteOneUnloginUser.pieces = c.pieces ++ [(c.sock.recv Proto.headSize io.n1).bytes] := rfl
  refine ⟨fun he => ?_, nofun, fun head body he => ?_⟩
  · rw [hp] at he
    simp at he
  · rw [hp] at he
    have h1 : c.pieces.length = 1 := by
      have := congrArg List.length he
      simp at this
      omega
    exact absurd hl (h.pair h1)

theorem recvBody_pieces (c : Login) (io : Io) : ∃ body,
    (c.recvBody io).pieces = c.pieces ++ [body] ∧
      (c.recvBody io).user.recvbuff = c.user.recvbuff.write Proto.headSize body := by
  unfold recvBody
  dsimp only
  split <;> exact ⟨_, rfl, rfl⟩

/-- A body piece on what had at least two. -/
theorem recvBody_laid {c : Login} (h : Laid c) (hl : c.accept = .live) (hf : c.user.recvHeadFlag = false) (io : Io) :
    Laid (c.recvBody io) := by
  obtain ⟨body, hp, -⟩ := recvBody_pieces c io
  have h0 : c.pieces.length ≠ 0 := fun h0 => by
    rw [h.first (List.length_eq_zero_iff.mp h0)] at hf
    cases hf
  have h1 : c.pieces.length ≠ 1 := fun h1 => h.pair h1 hl
  have hlen : (c.recvBody io).pieces.length = c.pieces.length + 1 := by rw [hp]; simp
  refine ⟨fun he => ?_, fun he => by omega, fun head body he => ?_⟩
  · rw [he] at hlen
    cases hlen
  · rw [he] at hlen
    simp only [List.length_cons, List.length_nil] at hlen
    omega

/-- The first two pieces lie one after the other. -/
theorem recvBoth_laid (c : Login) (io : Io) :
    Laid ((c.recvHead io).expectBody.recvBody io) := by
  obtain ⟨body, hp, hb⟩ := recvBody_pieces (c.recvHead io).expectBody io
  obtain ⟨head, hh⟩ : ∃ head, head = (c.sock.recv Proto.headSize io.n1).bytes := ⟨_, rfl⟩
  have hp' : ((c.recvHead io).expectBody.recvBody io).pieces = c.pieces ++ [head] ++ [body] := by rw [hp, hh]; rfl
  have hb' : ((c.recvHead io).expectBody.recvBody io).user.recvbuff =
      (c.user.recvbuff.write 0 head).write Proto.headSize body := by rw [hb, hh]; rfl
  have hlen := congrArg List.length hp'
  simp only [List.length_append, List.length_singleton] at hlen
  refine ⟨fun he => ?_, fun he => ?_, fun head' body' he hhead => ?_⟩
  · rw [he] at hlen
    cases hlen
  · omega
  · have h0 : c.pieces = [] := by
      rw [he] at hlen
      simp only [List.length_cons, List.length_nil] at hlen
      exact List.length_eq_zero_iff.mp (by omega)
    rw [hp', h0] at he
    obtain ⟨rfl, rfl⟩ : head = head' ∧ body = body' := by simpa using he
    have hfirst : (c.user.recvbuff.write 0 head).read 0 Proto.headSize = head := by
      rw [← hhead]; exact Mem.read_write_same ..
    rw [hb', Mem.read_write_extend, hfirst]

theorem epollIn_laid {c : Login} (h : Laid c) (hl : c.accept = .live) (io : Io) : Laid (c.epollIn io) := by
  unfold epollIn
  split
  · exact ⟨h.first, nofun, h.buff⟩
  · split
    · split
      · have hdel := recvHead_laid h hl io
        split
        · exact hdel
        · split
          · exact recvBoth_laid c io
          · exact ⟨hdel.first, nofun, hdel.buff⟩
      · rename_i hf
        exact recvBody_laid h hl (by simpa using hf) io
    · unfold timeoutFunc
      split
      · exact ⟨h.first, h.pair, h.buff⟩
      · exact h

/-! ## The invariant -/

def Named (c : Login) : Prop := c.cmd = .named ∨ c.cmd = .taken ∧ c.user.authFlag = true

structure Inv (c : Login) : Prop where
  laid : Laid c
  idInt : wrap 4 c.user.mUserId = c.user.mUserId
  result : c.accept = .live → c.timing = false → c.cmd = .filled ∨ c.Named →
    resultOf c.user.mLoginMsgSend = if c.user.loginState = .loginSuccess then Unloginuser.yes else Unloginuser.no
  named : c.Named → Proto.userId c.user.mLoginMsgSend = c.user.mUserId
  timing : c.timing = true → c.user.loginState ≠ .loginSuccess → resultOf c.user.mLoginMsgSend = Unloginuser.no
  faithful : Faithful c

theorem init_inv (junk : Unloginuser) (socket userId now : Int) (stream : List UInt8) (closed : Bool) :
    Inv (init junk socket userId now stream closed) where
  laid := ⟨fun _ => rfl, nofun, nofun⟩
  idInt := by simp [init, Unloginuser.new]
  result _ _ h := by rcases h with h | h | ⟨h, -⟩ <;> cases h
  named h := by rcases h with h | ⟨h, -⟩ <;> cases h
  timing := nofun
  faithful := ⟨fun h => absurd rfl h, nofun, nofun, fun _ h => absurd h List.not_mem_nil⟩

theorem Inv.quiet {c c' : Login} (hi : Inv c) (hq : Quiet c c') (hl : Laid c') : Inv c' where
  laid := hl
  idInt := by rw [hq.mUserId]; exact hi.idInt
  result ha ht h := by
    rw [Named, hq.cmd, hq.authFlag] at h
    rw [hq.timing] at ht
    rw [hq.mLoginMsgSend, hq.loginState]
    exact hi.result (hq.accept ha) ht h
  named h := by
    rw [Named, hq.cmd, hq.authFlag] at h
    rw [hq.mLoginMsgSend, hq.mUserId]
    exact hi.named h
  timing ht := by
    rw [hq.timing] at ht
    rw [hq.mLoginMsgSend, hq.loginState]
    exact hi.timing ht
  faithful := by
    obtain ⟨h1, h2, h3, h4⟩ := hi.faithful
    constructor
    · rw [hq.judged, hq.loginState]; exact h1
    · rw [hq.judged]; exact h2
    · rw [hq.judged, hq.loginState]; exact h3
    · rw [hq.replies, hq.mUserId]; exact h4

theorem no_ne_yes : Unloginuser.no ≠ Unloginuser.yes := by decide

/-- A reply sent once its result is stored, and on success its user id, is right. -/
theorem Inv.reply_right {c : Login} (hi : Inv c) (ha : c.accept = .live) (ht : c.timing = false)
    (hf : c.cmd = .filled ∨ c.Named) (hn : c.user.loginState = .loginSuccess → c.Named) :
    (Reply.mk c.user.loginState c.user.mLoginMsgSend).Right c.user.mUserId := by
  have hres := hi.result ha ht hf
  by_cases hs : c.user.loginState = .loginSuccess
  · rw [if_pos hs] at hres
    exact ⟨⟨fun _ => ⟨hres, hi.named (hn hs)⟩, fun _ => hs⟩, fun h => absurd hs h⟩
  · rw [if_neg hs] at hres
    exact ⟨⟨fun h => absurd h hs, fun h => absurd (hres.symm.trans h.1) no_ne_yes⟩, fun _ => hres⟩

/-- An armed client's reply has its result stored, and maybe its user id, once the
    command thread is past publishing. -/
theorem Stage.filled_of_out {c : Login} (hi : Stage c) (hr : c.running) (ha : c.accept = .live) (ho : c.armed = true)
    (hp : c.cmd ≠ .published) : c.cmd = .filled ∨ c.Named := by
  have hst := hi.out ho
  have hun : ¬ c.Unchecked := fun h => hst (hi.unchecked h)
  have hgone : c.cmd ≠ .gone := fun h => hi.returned (Or.inr h) ha
  unfold Unchecked at hun
  unfold Named
  cases hc : c.cmd <;> simp_all [running]

/-- A reply more. -/
theorem Faithful.sendReply {c : Login} (h : Faithful c)
    (hr : (Reply.mk c.user.loginState c.user.mLoginMsgSend).Right c.user.mUserId) : Faithful c.sendReply := by
  refine ⟨h.judged, h.complete, h.verdict, fun r hm => ?_⟩
  rcases List.mem_append.mp hm with hm | hm
  · exact h.replies r hm
  · obtain rfl := List.mem_singleton.mp hm
    exact hr

theorem Inv.sendReply {c : Login} (hi : Inv c)
    (hr : (Reply.mk c.user.loginState c.user.mLoginMsgSend).Right c.user.mUserId) : Inv c.sendReply :=
  ⟨⟨hi.laid.first, hi.laid.pair, hi.laid.buff⟩, hi.idInt, hi.result, hi.named,
    hi.timing, hi.faithful.sendReply hr⟩

theorem Inv.epollOut {c : Login} (hi : Inv c)
    (hr : (Reply.mk c.user.loginState c.user.mLoginMsgSend).Right c.user.mUserId) (nread : Int) :
    Inv (c.epollOut nread) := by
  have hs := hi.sendReply hr
  unfold Login.epollOut
  dsimp only
  split
  · exact hs.quiet (deleteOne_quiet _) hs.laid.deleteOne
  · split
    · exact ⟨⟨hs.laid.first, nofun, hs.laid.buff⟩, hs.idInt, nofun, hs.named, hs.timing,
        ⟨hs.faithful.judged, hs.faithful.complete, hs.faithful.verdict, hs.faithful.replies⟩⟩
    · exact ⟨⟨hs.laid.first, hs.laid.pair, hs.laid.buff⟩, hs.idInt, hs.result,
        hs.named, hs.timing,
        ⟨hs.faithful.judged, hs.faithful.complete, hs.faithful.verdict, hs.faithful.replies⟩⟩

/-- A check that sees the header and the body in one piece is on the complete message. -/
theorem Inv.check {c : Login} (hi : Inv c) (hst : Stage c) (hun : c.cmd = .taken ∧ c.user.authFlag = false)
    (ho : Orderly c .check) :
    Inv (c.effect .check) := by
  obtain ⟨head, body, hp, hhead, hbody⟩ := InTwo.eq ho
  have hbuff := hi.laid.buff head body hp hhead
  have hgot : c.pieces.flatten = head ++ body := by simp [hp]
  have hseen : c.user.recvbuff.read 0 Proto.loginSize = c.pieces.flatten.take Proto.loginSize := by
    rw [hgot, ← hbuff, Mem.take_read _ _ hbody]
  have hlen : Proto.loginSize ≤ c.pieces.flatten.length := by
    rw [hgot, List.length_append, hhead]
    exact hbody
  have hno := hst.unchecked (Or.inr hun)
  constructor
  case laid => exact ⟨hi.laid.first, hi.laid.pair, hi.laid.buff⟩
  case idInt => exact hi.idInt
  case result => intro _ _ h; rcases h with h | h | ⟨h, -⟩ <;> cases h
  case named => intro h; rcases h with h | ⟨h, -⟩ <;> cases h
  case timing =>
    intro ht _
    exact hi.timing ht (by rw [hno]; decide)
  case faithful =>
    refine ⟨fun _ => nofun, ?_, ?_, hi.faithful.replies⟩
    · intro j hj
      cases hj
      exact ⟨hlen, hseen⟩
    · intro j hj
      cases hj
      exact verdict_iff hseen

/-- The result goes into the reply. -/
theorem Inv.fillResult {c : Login} (hi : Inv c) : Inv (c.effect .fillResult) := by
  obtain ⟨s, hs⟩ : ∃ s, s = if c.user.loginState = .loginSuccess then Unloginuser.yes else Unloginuser.no := ⟨_, rfl⟩
  have hyn : s = Unloginuser.yes ∨ s = Unloginuser.no := by
    rw [hs]
    split
    · exact Or.inl rfl
    · exact Or.inr rfl
  have hres : resultOf (c.effect .fillResult).user.mLoginMsgSend = s := by
    have := resultOf_setResult c.user hyn
    rwa [hs] at this ⊢
  constructor
  case laid => exact ⟨hi.laid.first, hi.laid.pair, hi.laid.buff⟩
  case idInt => exact hi.idInt
  case result => intro _ _ _; rw [hres, hs]; rfl
  case named => intro h; rcases h with h | ⟨h, -⟩ <;> cases h
  case timing =>
    intro _ hne
    rw [hres, hs]
    exact if_neg hne
  case faithful => exact ⟨hi.faithful.judged, hi.faithful.complete, hi.faithful.verdict, hi.faithful.replies⟩

theorem Inv.fillUserId {c : Login} (hi : Inv c) (hc : c.cmd = .filled) : Inv (c.effect .fillUserId) := by
  have hres : resultOf (c.effect .fillUserId).user.mLoginMsgSend = resultOf c.user.mLoginMsgSend :=
    resultOf_setReplyId c.user
  constructor
  case laid => exact ⟨hi.laid.first, hi.laid.pair, hi.laid.buff⟩
  case idInt => exact hi.idInt
  case result => intro ha ht _; rw [hres]; exact hi.result ha ht (Or.inl hc)
  case named => intro _; exact userId_setReplyId hi.idInt
  case timing => intro ht hne; rw [hres]; exact hi.timing ht hne
  case faithful => exact ⟨hi.faithful.judged, hi.faithful.complete, hi.faithful.verdict, hi.faithful.replies⟩

/-- The command thread is done with the record, or dead. -/
theorem Inv.ended {c : Login} (hi : Inv c) {p : Phase} (hp : p = .gone ∨ p = .faulted) : Inv { c with cmd := p } := by
  have hne : p ≠ .taken ∧ p ≠ .filled ∧ p ≠ .named := by rcases hp with rfl | rfl <;> decide
  obtain ⟨h2, h4, h5⟩ := hne
  constructor
  case laid => exact ⟨hi.laid.first, hi.laid.pair, hi.laid.buff⟩
  case idInt => exact hi.idInt
  case result =>
    intro _ _ h
    rcases h with h | h | ⟨h, -⟩
    · exact absurd h h4
    · exact absurd h h5
    · exact absurd h h2
  case named =>
    intro h
    rcases h with h | ⟨h, -⟩
    · exact absurd h h5
    · exact absurd h h2
  case timing => exact hi.timing
  case faithful => exact ⟨hi.faithful.judged, hi.faithful.complete, hi.faithful.verdict, hi.faithful.replies⟩

theorem Inv.takeOver {c : Login} (hi : Inv c) (hst : Stage c) (hc : c.cmd = .queued) : Inv (c.effect .takeOver) := by
  have hno := hst.unchecked (Or.inl hc)
  have hauth : ¬ c.user.authFlag = true := fun h => hst.checked (Or.inr (Or.inr (Or.inr h))) hno
  constructor
  case laid => exact ⟨hi.laid.first, hi.laid.pair, hi.laid.buff⟩
  case idInt => exact hi.idInt
  case result =>
    intro _ _ h
    rcases h with h | h | ⟨-, h⟩
    · cases h
    · cases h
    · exact absurd h hauth
  case named =>
    intro h
    rcases h with h | ⟨-, h⟩
    · cases h
    · exact absurd h hauth
  case timing => exact hi.timing
  case faithful => exact ⟨hi.faithful.judged, hi.faithful.complete, hi.faithful.verdict, hi.faithful.replies⟩

theorem Inv.setAuthFlag {c : Login} (hi : Inv c) (hc : c.cmd = .named) : Inv (c.effect .setAuthFlag) := by
  have hnamed : c.Named := Or.inl hc
  constructor
  case laid => exact ⟨hi.laid.first, hi.laid.pair, hi.laid.buff⟩
  case idInt => exact hi.idInt
  case result => exact fun ha ht _ => hi.result ha ht (Or.inr hnamed)
  case named => exact fun _ => hi.named hnamed
  case timing => exact hi.timing
  case faithful => exact ⟨hi.faithful.judged, hi.faithful.complete, hi.faithful.verdict, hi.faithful.replies⟩

/-- An orderly step keeps the invariant, whichever thread takes it. -/
theorem step_inv {c c' : Login} {e : Ev} (hst : Stage c) (hi : Inv c) (ho : Orderly c e) (h : step c e = some c') :
    Inv c' := by
  obtain ⟨hr, hen, rfl⟩ := step_eq h
  have hf := hi.faithful
  cases e with
  | arrive n =>
    exact hi.quiet ⟨rfl, rfl, rfl, rfl, rfl, id, rfl, rfl, rfl, rfl, rfl⟩ ⟨hi.laid.first, hi.laid.pair, hi.laid.buff⟩
  | epollIn io =>
    obtain ⟨⟨ha, ht⟩, harmed, -⟩ := hen
    have hlaid := epollIn_laid hi.laid ha io
    rcases epollIn_quiet c io with hq | hq
    · exact hi.quiet hq hlaid
    · show Inv (c.epollIn io)
      rw [hq] at hlaid ⊢
      have hres := resultOf_setResult c.user (Or.inr rfl)
      have hid := userId_setResult c.user Unloginuser.no
      refine ⟨hlaid, hi.idInt, nofun, fun h => ?_, fun _ _ => hres,
        ⟨hf.judged, hf.complete, hf.verdict, hf.replies⟩⟩
      exact hid.trans (hi.named h)
  | timeoutSend =>
    have hno := hi.timing hen ho
    have hright : (Reply.mk c.user.loginState c.user.mLoginMsgSend).Right c.user.mUserId :=
      ⟨⟨fun h => absurd h ho, fun h => absurd (hno.symm.trans h.1) no_ne_yes⟩, fun _ => hno⟩
    have hs := hi.sendReply hright
    exact ⟨⟨hs.laid.first, nofun, hs.laid.buff⟩, hs.idInt, nofun, hs.named, nofun,
      ⟨hs.faithful.judged, hs.faithful.complete, hs.faithful.verdict, hs.faithful.replies⟩⟩
  | armOut =>
    exact ⟨⟨hi.laid.first, hi.laid.pair, hi.laid.buff⟩, hi.idInt, hi.result,
      hi.named, hi.timing, ⟨hf.judged, hf.complete, hf.verdict, hf.replies⟩⟩
  | epollOut nread =>
    obtain ⟨⟨ha, ht⟩, harmed, -⟩ := hen
    have hfill := hst.filled_of_out hr ha harmed ho.1
    exact hi.epollOut (hi.reply_right ha ht hfill fun hs => hfill.resolve_left fun hc => ho.2 ⟨hc, hs⟩) nread
  | takeOver => exact hi.takeOver hst hen
  | check => exact hi.check hst hen ho
  | fillResult => exact hi.fillResult
  | fillUserId => exact hi.fillUserId hen
  | setAuthFlag => exact hi.setAuthFlag hen
  | reap => exact hi.ended (Or.inr rfl)
  | promote => exact hi.ended (Or.inl rfl)

/-- Every record, stream and interleaving of the two threads: an orderly run is faithful
    in every state it passes through. -/
theorem faithful_of_orderly (junk : Unloginuser) (socket userId now : Int) (stream : List UInt8) (closed : Bool)
    (es : List Ev) (h : Along step Orderly (init junk socket userId now stream closed) es) :
    Always step Faithful (init junk socket userId now stream closed) es :=
  (always_of_along (I := fun c : Login => c.Stage ∧ c.Inv)
    (fun _ _ _ hi ho hs => ⟨step_stage hi.1 hs, step_inv hi.1 hi.2 ho hs⟩)
    ⟨init_stage junk socket userId now stream closed, init_inv junk socket userId now stream closed⟩ h).mono
    fun _ hi => hi.2.faithful

theorem an_orderly_login :
    (run step (init Unloginuser.zero 5 1 0 adminLogin false) adminRun).map (·.user.loginState) = some .loginSuccess ∧
      Always step Faithful (init Unloginuser.zero 5 1 0 adminLogin false) adminRun :=
  ⟨by decide +kernel, faithful_of_orderly Unloginuser.zero 5 1 0 adminLogin false adminRun (by decide +kernel)⟩

/-- The record is checked as soon as it is taken over, before its message is there. -/
theorem a_check_before_the_message :
    ¬ Always step Faithful (init Unloginuser.zero 5 1 0 adminLogin false) [.takeOver, .check] := by
  intro h
  have := (h.last rfl).complete _ rfl
  revert this
  decide

end Login

end GroupeChat.ChatServer
