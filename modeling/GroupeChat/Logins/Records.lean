/-
  GroupeChat.Logins.Records — a client and its record at the server, whatever the two
  threads do.

  A record is sent one reply, with the last event that there is for the client
  (`Sending`), and what that reply says is settled: the record is returned with success,
  or can no longer be (`reply_settled`). `Pair` is what holds of a client and its record,
  from the client's start on; a step on the record keeps it (`Pair.login`), and so does
  the client's `recv` of a whole reply (`Pair.recv`).
-/

import GroupeChat.Logins.System

namespace GroupeChat.Logins

open Base ChatServer

/-! ## What a record has taken, answered and sent -/

def Returned (l : Login) : Prop := l.user.loginState = .loginSuccess ∧ l.user.loginReturnFlag = true

theorem Returned.not_over {l : Login} (h : Returned l) : ¬ l.Over := by
  rintro (hf | ⟨-, hf⟩)
  · cases h.1.symm.trans hf
  · cases h.2.symm.trans hf

theorem step_returned {l l' : Login} {e : Login.Ev} (hs : l.Stage) (h : l.step e = some l') (hr : Returned l) :
    Returned l' := by
  have hflag : l'.user.loginReturnFlag = true := by
    rcases Login.step_return h with hf | ⟨-, hf, -⟩
    · exact hf.trans hr.2
    · exact hf
  refine ⟨?_, hflag⟩
  obtain ⟨-, hen, rfl⟩ := Login.step_eq h
  cases e with
  | epollIn io =>
    rcases Login.epollIn_quiet l io with hq | hq
    · exact hq.loginState.trans hr.1
    · show (l.epollIn io).user.loginState = _
      rw [hq]
      exact hr.1
  | epollOut nread => exact (Login.epollOut_cases l nread).2.2.trans hr.1
  | check => cases (hs.unchecked (Or.inr hen)).symm.trans hr.1
  | _ => exact hr.1

/-- A record that is returned and succeeded had succeeded when it was. -/
theorem returned_before {l l' : Login} {e : Login.Ev} (hs : l.Stage) (h : l.step e = some l')
    (hflag : l.user.loginReturnFlag = true) (hr : Returned l') : Returned l := by
  refine ⟨?_, hflag⟩
  cases hstate : l.user.loginState with
  | loginSuccess => rfl
  | loginFailed => exact absurd (Login.step_over hs h (Or.inl hstate)) hr.not_over
  | noLogin => exact absurd hstate (hs.answered hflag)

/-- Only `promote` is done with a record. -/
theorem gone_before {l l' : Login} {e : Login.Ev} (h : l.step e = some l') (hg : l'.cmd = .gone) :
    l.cmd = .gone ∨ e = .promote := by
  obtain ⟨-, -, rfl⟩ := Login.step_eq h
  cases e with
  | promote => exact Or.inr rfl
  | epollIn io =>
    left
    rcases Login.epollIn_quiet l io with hq | hq
    · exact hq.cmd.symm.trans hg
    · have hcmd : (l.epollIn io).cmd = l.cmd := by rw [hq]
      exact hcmd.symm.trans hg
  | epollOut nread => exact Or.inl ((Login.epollOut_cases l nread).1.symm.trans hg)
  | arrive | timeoutSend | armOut => exact Or.inl hg
  | takeOver | check | fillResult | fillUserId | setAuthFlag | reap => cases hg

def bytes (l : Login) : List UInt8 := l.pieces.flatten ++ l.sock.unread

theorem recvHead_bytes (l : Login) (io : Login.Io) : bytes (l.recvHead io) = bytes l := by
  simp [bytes, Login.recvHead, Sock.recv_unread]

theorem recvBody_bytes (l : Login) (io : Login.Io) : bytes (l.recvBody io) = bytes l := by
  unfold Login.recvBody
  dsimp only
  split <;> simp [bytes, Login.deleteOneUnloginUser, Sock.recv_unread]

theorem expectBody_bytes (l : Login) : bytes l.expectBody = bytes l := by simp only [bytes, Login.expectBody]

theorem epollIn_bytes (l : Login) (io : Login.Io) : bytes (l.epollIn io) = bytes l := by
  unfold Login.epollIn
  split
  · rfl
  · split
    · split
      · split
        · exact recvHead_bytes l io
        · split
          · rw [recvBody_bytes, expectBody_bytes, recvHead_bytes]
          · exact recvHead_bytes l io
      · exact recvBody_bytes l io
    · unfold Login.timeoutFunc
      split <;> rfl

theorem epollOut_bytes (l : Login) (nread : Int) :
    bytes (l.epollOut nread) = bytes l ∧ (l.epollOut nread).judged = l.judged := by
  unfold Login.epollOut
  dsimp only
  split
  · exact ⟨rfl, rfl⟩
  · split <;> exact ⟨rfl, rfl⟩

theorem step_bytes {l l' : Login} {e : Login.Ev} (h : l.step e = some l') : bytes l' = bytes l := by
  obtain ⟨-, -, rfl⟩ := Login.step_eq h
  cases e with
  | arrive n => simp [bytes, Login.effect]
  | epollIn io => exact epollIn_bytes l io
  | epollOut nread => exact (epollOut_bytes l nread).1
  | _ => rfl

/-- A record is judged on what has been taken. -/
theorem step_judged {l l' : Login} {e : Login.Ev} (h : l.step e = some l') :
    l'.judged = l.judged ∨ ∃ seen, l'.judged = some ⟨l.pieces.flatten, seen⟩ := by
  obtain ⟨-, -, rfl⟩ := Login.step_eq h
  cases e with
  | check => exact Or.inr ⟨_, rfl⟩
  | epollIn io =>
    left
    rcases Login.epollIn_quiet l io with hq | hq
    · exact hq.judged
    · show (l.epollIn io).judged = _
      rw [hq]
  | epollOut nread => exact Or.inl (epollOut_bytes l nread).2
  | _ => exact Or.inl rfl

structure Sending (l : Login) : Prop where
  live : l.accept = .live → l.replies = [] ∧ l.user.remainSend = Proto.loginReplySize
  timing : l.timing = true → l.accept = .live
  returned : l.user.loginReturnFlag = true → l.replies ≠ []
  gone : l.cmd = .gone → l.user.loginReturnFlag = true

theorem init_sending (junk : Unloginuser) (socket userId now : Int) (stream : List UInt8) (closed : Bool) :
    Sending (Login.init junk socket userId now stream closed) :=
  ⟨fun _ => ⟨rfl, rfl⟩, nofun, nofun, nofun⟩

theorem recvBody_remainSend (l : Login) (io : Login.Io) : (l.recvBody io).user.remainSend = l.user.remainSend := by
  unfold Login.recvBody
  dsimp only
  split <;> rfl

theorem epollIn_remainSend (l : Login) (io : Login.Io) : (l.epollIn io).user.remainSend = l.user.remainSend := by
  unfold Login.epollIn
  split
  · rfl
  · split
    · split
      · split
        · rfl
        · split
          · exact recvBody_remainSend _ io
          · rfl
      · exact recvBody_remainSend l io
    · unfold Login.timeoutFunc
      split <;> rfl

def Whole (e : Login.Ev) (n : Nat) : Prop :=
  match e with
  | .epollOut nread => nread = Proto.loginReplySize
  | .timeoutSend => n = Proto.loginReplySize
  | _ => True

/-- A whole reply is the record's last: it is returned to the command thread. -/
theorem epollOut_whole {l : Login} (hr : l.user.remainSend = Proto.loginReplySize) :
    (l.epollOut Proto.loginReplySize).accept = .dropped ∧
      (l.epollOut Proto.loginReplySize).user.loginReturnFlag = true ∧
      (l.epollOut Proto.loginReplySize).timing = l.timing ∧
      (l.epollOut Proto.loginReplySize).replies = l.replies ++ [⟨l.user.loginState, l.user.mLoginMsgSend⟩] := by
  have hsend : l.sendReply.user.remainSend = Proto.loginReplySize := hr
  unfold Login.epollOut
  dsimp only
  rw [if_neg (by decide), hsend, if_pos (by decide)]
  exact ⟨rfl, rfl, rfl, rfl⟩

theorem step_sending {l l' : Login} {e : Login.Ev} {n : Nat} (hs : Sending l) (hw : Whole e n)
    (h : l.step e = some l') : Sending l' := by
  obtain ⟨-, hen, rfl⟩ := Login.step_eq h
  cases e with
  | epollIn io =>
    have hrem := epollIn_remainSend l io
    rcases Login.epollIn_quiet l io with hq | hq
    · refine ⟨fun ha => ?_, fun ht => ?_, fun hf => ?_, fun hg => ?_⟩
      · obtain ⟨hrep, hremain⟩ := hs.live (hq.accept ha)
        exact ⟨hq.replies.trans hrep, hrem.trans hremain⟩
      · cases hen.1.2.symm.trans (hq.timing.symm.trans ht)
      · show (l.epollIn io).replies ≠ []
        rw [hq.replies]
        exact hs.returned (hq.loginReturnFlag.symm.trans hf)
      · exact hq.loginReturnFlag.trans (hs.gone (hq.cmd.symm.trans hg))
    · show Sending (l.epollIn io)
      rw [hq]
      exact ⟨hs.live, fun _ => hen.1.1, hs.returned, hs.gone⟩
  | timeoutSend =>
    refine ⟨fun ha => ?_, fun ht => ?_, fun _ => ?_, hs.gone⟩
    · cases ha
    · cases ht
    · exact List.concat_ne_nil _ _
  | epollOut nread =>
    obtain rfl : nread = Proto.loginReplySize := hw
    obtain ⟨hd, hf, ht, hr⟩ := epollOut_whole (hs.live hen.1.1).2
    refine ⟨fun ha => ?_, fun ht' => ?_, fun _ => ?_, fun _ => hf⟩
    · cases hd.symm.trans ha
    · cases hen.1.2.symm.trans (ht.symm.trans ht')
    · show (l.epollOut Proto.loginReplySize).replies ≠ []
      rw [hr]
      exact List.concat_ne_nil _ _
  | promote => exact ⟨hs.live, hs.timing, hs.returned, fun _ => hen.2⟩
  | takeOver | check | fillResult | fillUserId | setAuthFlag | reap =>
    refine ⟨hs.live, hs.timing, hs.returned, fun hg => ?_⟩
    cases hg
  | arrive | armOut => exact ⟨hs.live, hs.timing, hs.returned, hs.gone⟩

def replyOf (l : Login) : Login.Ev → Option Reply
  | .epollOut _ | .timeoutSend => some ⟨l.user.loginState, l.user.mLoginMsgSend⟩
  | _ => none

theorem step_replies {l l' : Login} {e : Login.Ev} {n : Nat} (hs : Sending l) (hw : Whole e n)
    (h : l.step e = some l') : l'.replies = l.replies ++ (replyOf l e).toList := by
  obtain ⟨-, hen, rfl⟩ := Login.step_eq h
  cases e with
  | epollIn io =>
    show (l.epollIn io).replies = l.replies ++ []
    rw [List.append_nil]
    rcases Login.epollIn_quiet l io with hq | hq
    · exact hq.replies
    · rw [hq]
  | epollOut nread =>
    obtain rfl : nread = Proto.loginReplySize := hw
    exact (epollOut_whole (hs.live hen.1.1).2).2.2.2
  | timeoutSend => rfl
  | _ => exact (List.append_nil _).symm

/-! ## A client and its record -/

structure Pair (c : Client) (l : Login) : Prop where
  inv : l.Inv
  sending : Sending l
  bytes : bytes l = c.message
  judged : ∀ j, l.judged = some j → j.got <+: c.message
  success : ∀ r ∈ l.replies, r.state = .loginSuccess → Returned l
  failure : ∀ r ∈ l.replies, r.state ≠ .loginSuccess → l.Over
  silent : c.outcome = .waiting → l.replies = [] → c.unread = []
  told : c.outcome = .waiting → ∀ r ∈ l.replies, Proto.loginReplySize ≤ c.unread.length ∧
    c.unread.take Proto.loginReplySize = r.msg.read 0 Proto.loginReplySize
  loggedIn : ∀ userId, c.outcome = .loggedIn userId → Returned l ∧ l.user.mUserId = userId
  refused : c.outcome = .inputError → l.Over

/-- A record is judged by what its client's user typed. -/
theorem Pair.verdict {c : Client} {l : Login} (hp : Pair c l) (hne : l.user.loginState ≠ .noLogin) :
    l.user.loginState = .loginSuccess ↔ c.Admin := by
  obtain ⟨j, hj⟩ := Option.ne_none_iff_exists'.mp (hp.inv.faithful.judged hne)
  obtain ⟨hsize, -⟩ := hp.inv.faithful.complete j hj
  have hgot : j.got = c.message := (hp.judged j hj).eq_of_length_le (by rw [c.message_length]; exact hsize)
  rw [hp.inv.faithful.verdict j hj, hgot, c.admin_iff]

theorem start_pair (name passwd : List UInt8) (userId : Int) (recvMsg : Buf) (junk : Unloginuser) (fd id now : Int) :
    Pair (Client.start name passwd userId recvMsg)
      (Login.init junk fd id now (Client.start name passwd userId recvMsg).message false) where
  inv := Login.init_inv ..
  sending := init_sending ..
  bytes := rfl
  judged := nofun
  success _ h := absurd h List.not_mem_nil
  failure _ h := absurd h List.not_mem_nil
  silent _ _ := rfl
  told _ _ h := absurd h List.not_mem_nil
  loggedIn := nofun
  refused := nofun

theorem sent_nothing {l : Login} {e : Login.Ev} (n : Nat) (h : replyOf l e = none) : System.sent l e n = [] := by
  cases e with
  | timeoutSend | epollOut => cases h
  | _ => rfl

theorem sent_reply {l l' : Login} {e : Login.Ev} {n : Nat} {r : Reply} (hs : Sending l) (hw : Whole e n)
    (h : l.step e = some l') (hr : replyOf l e = some r) :
    l.replies = [] ∧ System.sent l e n = r.msg.read 0 Proto.loginReplySize := by
  obtain ⟨-, hen, -⟩ := Login.step_eq h
  cases e with
  | timeoutSend =>
    obtain rfl := Option.some.inj hr
    obtain rfl : n = Proto.loginReplySize := hw
    exact ⟨(hs.live (hs.timing hen)).1, rfl⟩
  | epollOut nread =>
    obtain rfl := Option.some.inj hr
    obtain rfl : nread = Proto.loginReplySize := hw
    exact ⟨(hs.live hen.1.1).1, rfl⟩
  | _ => cases hr

/-- What the reply says is settled by then. -/
theorem reply_settled {l l' : Login} {e : Login.Ev} {n : Nat} {r : Reply} (hst : l.Stage) (hs : Sending l)
    (ho : l.Orderly e) (hw : Whole e n) (h : l.step e = some l') (hr : replyOf l e = some r) :
    (r.state = .loginSuccess → Returned l') ∧ (r.state ≠ .loginSuccess → l'.Over) := by
  have hover := fun hf => Login.step_over hst h (Or.inl hf)
  obtain ⟨-, hen, rfl⟩ := Login.step_eq h
  cases e with
  | timeoutSend =>
    obtain rfl := Option.some.inj hr
    refine ⟨fun hsucc => absurd hsucc ho, fun _ => Or.inr ⟨nofun, ?_⟩⟩
    have hrep := (hs.live (hs.timing hen)).1
    exact Bool.eq_false_iff.mpr fun hf => hs.returned hf hrep
  | epollOut nread =>
    obtain rfl := Option.some.inj hr
    obtain rfl : nread = Proto.loginReplySize := hw
    refine ⟨fun hsucc => ⟨(Login.epollOut_cases l _).2.2.trans hsucc, (epollOut_whole (hs.live hen.1.1).2).2.1⟩,
      fun hne => hover ?_⟩
    have hout := hst.out hen.2.1
    cases hstate : l.user.loginState with
    | loginSuccess => exact absurd hstate hne
    | loginFailed => rfl
    | noLogin => exact absurd hstate hout
  | _ => cases hr

theorem Pair.login {c : Client} {l l' : Login} {e : Login.Ev} {n : Nat} (hp : Pair c l) (hst : l.Stage)
    (ho : l.Orderly e) (hw : Whole e n) (h : l.step e = some l') :
    Pair { c with unread := c.unread ++ System.sent l e n } l' := by
  have hreplies := step_replies hp.sending hw h
  have hcases : ∀ r ∈ l'.replies, r ∈ l.replies ∨ replyOf l e = some r := by
    intro r hr
    rw [hreplies] at hr
    exact (List.mem_append.mp hr).imp_right Option.mem_toList.mp
  constructor
  case inv => exact Login.step_inv hst hp.inv ho h
  case sending => exact step_sending hp.sending hw h
  case bytes => exact (step_bytes h).trans hp.bytes
  case judged =>
    intro j hj
    rcases step_judged h with heq | ⟨seen, heq⟩
    · exact hp.judged j (heq.symm.trans hj)
    · obtain rfl := Option.some.inj (heq.symm.trans hj)
      exact ⟨l.sock.unread, hp.bytes⟩
  case success =>
    intro r hr hs
    rcases hcases r hr with hr | hr
    · exact step_returned hst h (hp.success r hr hs)
    · exact (reply_settled hst hp.sending ho hw h hr).1 hs
  case failure =>
    intro r hr hs
    rcases hcases r hr with hr | hr
    · exact Login.step_over hst h (hp.failure r hr hs)
    · exact (reply_settled hst hp.sending ho hw h hr).2 hs
  case silent =>
    intro hc hr
    rw [hreplies] at hr
    obtain ⟨hr, hnone⟩ := List.append_eq_nil_iff.mp hr
    show c.unread ++ System.sent l e n = []
    rw [hp.silent hc hr, sent_nothing n (Option.toList_eq_nil_iff.mp hnone)]
    rfl
  case told =>
    intro hc r hr
    rcases hro : replyOf l e with _ | r₀
    · have hin := (hcases r hr).resolve_right (by rw [hro]; exact nofun)
      dsimp only
      rw [sent_nothing n hro, List.append_nil]
      exact hp.told hc r hin
    · obtain ⟨hnil, hsent⟩ := sent_reply hp.sending hw h hro
      rw [hreplies, hnil, hro] at hr
      obtain rfl := List.mem_singleton.mp hr
      dsimp only
      rw [hp.silent hc hnil, hsent, List.nil_append]
      exact ⟨(Mem.read_length ..).ge, List.take_of_length_le (Mem.read_length ..).le⟩
  case loggedIn =>
    intro userId hc
    obtain ⟨hret, hid⟩ := hp.loggedIn userId hc
    exact ⟨step_returned hst h hret, (Login.step_userId h).trans hid⟩
  case refused => exact fun hc => Login.step_over hst h (hp.refused hc)

/-- More comes for a client that was answered. -/
theorem Pair.relayed {c : Client} {l : Login} (hp : Pair c l) (hg : l.cmd = .gone) (more : List UInt8) :
    Pair { c with unread := c.unread ++ more } l := by
  have hne := hp.sending.returned (hp.sending.gone hg)
  refine ⟨hp.inv, hp.sending, hp.bytes, hp.judged, hp.success, hp.failure, fun _ h => absurd h hne, fun hc r hr => ?_,
    hp.loggedIn, hp.refused⟩
  obtain ⟨hlen, htake⟩ := hp.told hc r hr
  refine ⟨?_, ?_⟩
  · dsimp only
    rw [List.length_append]
    omega
  · dsimp only
    rw [List.take_append_of_le_length hlen, htake]

/-- The two fields of a reply are in its bytes. -/
theorem reply_congr {p q : Buf} (h : p.read 0 Proto.loginReplySize = q.read 0 Proto.loginReplySize) :
    resultOf p = resultOf q ∧ Proto.userId p = Proto.userId q := by
  refine ⟨?_, ?_⟩
  · have hd := congrArg (List.drop Proto.resultOff) h
    rw [Mem.drop_read _ _ (by decide), Mem.drop_read _ _ (by decide)] at hd
    exact congrArg cstr hd
  · rw [Proto.userId, Proto.userId, Mem.getInt_of_read (n := Proto.loginReplySize) (by decide), h,
      ← Mem.getInt_of_read (by decide)]

/-- A whole reply says what became of the login. -/
theorem Pair.recv {c : Client} {l : Login} (hp : Pair c l) (hc : c.outcome = .waiting)
    (hlen : Proto.loginReplySize ≤ c.unread.length) : Pair (c.recv Proto.loginReplySize) l := by
  have hne : l.replies ≠ [] := by
    intro hnil
    rw [hp.silent hc hnil] at hlen
    exact absurd hlen (by decide)
  obtain ⟨r, hr⟩ := List.exists_mem_of_ne_nil _ hne
  obtain ⟨-, htake⟩ := hp.told hc r hr
  obtain ⟨hyes, hno⟩ := hp.inv.faithful.replies r hr
  obtain ⟨msg, hmsg⟩ : ∃ msg, msg = c.mLoginRecvMsg.write 0 (c.unread.take Proto.loginReplySize) := ⟨_, rfl⟩
  have hread : msg.read 0 Proto.loginReplySize = r.msg.read 0 Proto.loginReplySize := by
    have h := Mem.read_write_same c.mLoginRecvMsg 0 (r.msg.read 0 Proto.loginReplySize)
    rw [Mem.read_length] at h
    rw [hmsg, htake, h]
  obtain ⟨hresult, hid⟩ := reply_congr hread
  have hstrcmp : msg.streq Proto.resultOff Unloginuser.yes = true ↔ resultOf msg = Unloginuser.yes :=
    Mem.streq_iff (by simp [Unloginuser.yes]) (by decide)
  have hout : (c.recv Proto.loginReplySize).outcome =
      if msg.streq Proto.resultOff Unloginuser.yes then .loggedIn (Proto.userId msg) else .inputError := by
    rw [hmsg]
    rfl
  by_cases hs : r.state = .loginSuccess
  · obtain ⟨hy, hu⟩ := hyes.mp hs
    rw [if_pos (hstrcmp.mpr (hresult.trans hy)), hid, hu] at hout
    refine ⟨hp.inv, hp.sending, hp.bytes, hp.judged, hp.success, hp.failure, ?_, ?_, ?_, ?_⟩
    · exact fun hw => nomatch hout.symm.trans hw
    · exact fun hw => nomatch hout.symm.trans hw
    · intro userId hl
      obtain rfl := Outcome.loggedIn.inj (hout.symm.trans hl)
      exact ⟨hp.success r hr hs, rfl⟩
    · exact fun hw => nomatch hout.symm.trans hw
  · have hn : ¬ resultOf msg = Unloginuser.yes := by
      rw [hresult, hno hs]
      exact Login.no_ne_yes
    rw [if_neg fun h => hn (hstrcmp.mp h)] at hout
    refine ⟨hp.inv, hp.sending, hp.bytes, hp.judged, hp.success, hp.failure, ?_, ?_, ?_, fun _ => hp.failure r hr hs⟩
    · exact fun hw => nomatch hout.symm.trans hw
    · exact fun hw => nomatch hout.symm.trans hw
    · exact fun userId hl => nomatch hout.symm.trans hl

/-- The client is logged in as `userId`, or will be when it has read its reply, unless its
    process has ended. -/
def Knows (c : Client) (userId : Int) : Prop :=
  c.outcome = .loggedIn userId ∨ c.outcome = .ended ∨
    c.outcome = .waiting ∧ Proto.loginReplySize ≤ c.unread.length ∧
      (c.recv Proto.loginReplySize).outcome = .loggedIn userId

theorem Pair.knows {c : Client} {l : Login} (hp : Pair c l) (hr : Returned l) : Knows c l.user.mUserId := by
  cases ho : c.outcome with
  | loggedIn userId => exact Or.inl (by rw [ho, (hp.loggedIn userId ho).2])
  | inputError => exact absurd (hp.refused ho) hr.not_over
  | ended => exact Or.inr (Or.inl ho)
  | waiting =>
    obtain ⟨r, hm⟩ := List.exists_mem_of_ne_nil _ (hp.sending.returned hr.2)
    obtain ⟨hlen, -⟩ := hp.told ho r hm
    have hp' := hp.recv ho hlen
    refine Or.inr (Or.inr ⟨ho, hlen, ?_⟩)
    rcases c.recv_outcome Proto.loginReplySize with ⟨userId, h⟩ | h
    · rw [h, (hp'.loggedIn userId h).2]
    · exact absurd (hp'.refused h) hr.not_over

/-- A client that has ended, or hung up. -/
theorem Pair.closed {c : Client} {l : Login} (hp : Pair c l) : Pair c (System.closed l) where
  inv := hp.inv.quiet ⟨rfl, rfl, rfl, rfl, rfl, id, rfl, rfl, rfl, rfl, rfl⟩
    ⟨hp.inv.laid.first, hp.inv.laid.pair, hp.inv.laid.buff⟩
  sending := ⟨hp.sending.live, hp.sending.timing, hp.sending.returned, hp.sending.gone⟩
  bytes := hp.bytes
  judged := hp.judged
  success := hp.success
  failure := hp.failure
  silent := hp.silent
  told := hp.told
  loggedIn := hp.loggedIn
  refused := hp.refused

theorem Pair.ended {c : Client} {l : Login} (hp : Pair c l) : Pair { c with outcome := .ended } l :=
  ⟨hp.inv, hp.sending, hp.bytes, hp.judged, hp.success, hp.failure, nofun, nofun, nofun, nofun⟩

end GroupeChat.Logins
