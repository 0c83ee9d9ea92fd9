/-
  GroupeChat.ChatServer.LoginMessage — whether a login message is put together in
  `recvbuff` (the EPOLLIN branch of `CAccept::funcAccept`, on the record of
  `GroupeChat.ChatServer.Login`).

  The header is taken first, then the body in as many pieces as it comes in; what remains
  is counted down, but every piece is stored right behind the header. `step` is the accept
  thread with one client that sends a login message: 16 bytes of it are there at the first
  event, and at least one at each later `recv`.

  `whole_iff_landed`: the record lives until the message is complete, and `recvbuff` then
  holds the message, exactly when the last piece that reaches a byte of the body carries
  that byte in its place; so it does when the body comes in one piece
  (`landed_of_one_piece`), and not when a first "a" and a second "b" come apart
  (`a_body_in_two_pieces`).
-/

import GroupeChat.ChatServer.Login

namespace GroupeChat.ChatServer

open Base

structure LoginMessage where
  bytes : List UInt8
  size : bytes.length = Proto.loginSize
  cmdId : Proto.cmdId (Mem.ofList 0 bytes) = CmdId.login.code
  length : Proto.length (Mem.ofList 0 bytes) = Proto.loginSize

namespace LoginMessage

def bodySize : Nat := Proto.loginSize - Proto.headSize

def body (msg : LoginMessage) : List UInt8 := msg.bytes.drop Proto.headSize

inductive Ev where
  | arrive (n : Nat)
  | epollIn (io : Login.Io)

/-- The first event finds a header and, by its second `recv`, a byte more; each later one
    finds something. -/
def Fed (c : Login) (io : Login.Io) : Prop :=
  if c.pieces = [] then
    Proto.headSize ≤ c.sock.avail.length ∧ Proto.headSize ≤ io.n1 ∧ Proto.headSize < (c.sock.arrive io.late).avail.length
  else c.sock.avail ≠ []

instance (c : Login) (io : Login.Io) : Decidable (Fed c io) := by
  unfold Fed
  infer_instance

def step (c : Login) : Ev → Option Login
  | .arrive n => Login.step c (.arrive n)
  | .epollIn io => if Fed c io then Login.step c (.epollIn io) else none

def Complete (c : Login) : Prop := c.pieces ≠ [] ∧ c.user.recvHeadFlag = true

structure Whole (msg : LoginMessage) (c : Login) : Prop where
  live : c.accept = .live
  message : Complete c → c.user.recvbuff.read 0 Proto.loginSize = msg.bytes

/-- `bodies` are the pieces in which the body was taken, `junk` what `recvbuff` held. -/
def Landed (msg : LoginMessage) (junk : Buf) (bodies : List (List UInt8)) : Prop :=
  bodies.flatten = msg.body → ∀ j < bodySize,
    (∀ l, (bodies.reverse.find? fun l => j < l.length) = some l → l[j]? = msg.body[j]?) ∧
      ((bodies.reverse.find? fun l => j < l.length) = none → msg.body[j]? = some (junk (Proto.headSize + j)))

/-! ## What `recvbuff` holds -/

structure Taking (msg : LoginMessage) (junk : Buf) (bodies : List (List UInt8)) (c : Login) : Prop where
  running : c.running
  listening : c.listening
  unarmed : c.armed = false
  pieces : c.pieces = msg.bytes.take Proto.headSize :: bodies
  le : bodies.flatten.length ≤ bodySize
  taken : bodies.flatten = msg.body.take bodies.flatten.length
  remain : c.user.remainLengthofRecv = (bodySize - bodies.flatten.length : Nat)
  flag : c.user.recvHeadFlag = decide (bodies.flatten.length = bodySize)
  recvbuff : c.user.recvbuff = (junk.write 0 (msg.bytes.take Proto.headSize)).overlay Proto.headSize bodies
  unread : c.sock.unread = msg.body.drop bodies.flatten.length

structure Waiting (msg : LoginMessage) (junk : Buf) (c : Login) : Prop where
  running : c.running
  listening : c.listening
  unarmed : c.armed = false
  pieces : c.pieces = []
  flag : c.user.recvHeadFlag = true
  recvbuff : c.user.recvbuff = junk
  unread : c.sock.unread = msg.bytes

inductive Inv (msg : LoginMessage) (junk : Buf) (c : Login) : Prop where
  | waiting (h : Waiting msg junk c)
  | taking (bodies : List (List UInt8)) (h : Taking msg junk bodies c)

theorem body_length (msg : LoginMessage) : msg.body.length = bodySize := by
  unfold body
  rw [List.length_drop, msg.size]
  rfl

theorem init_inv (msg : LoginMessage) (junk : Unloginuser) (socket userId now : Int) (closed : Bool) :
    Inv msg junk.recvbuff (Login.init junk socket userId now msg.bytes closed) :=
  .waiting ⟨Login.init_running _ _ _ _ _ _, ⟨rfl, rfl⟩, rfl, rfl, rfl, rfl, rfl⟩

/-- Bytes that arrive are still to be read. -/
theorem Inv.arrive {msg : LoginMessage} {junk : Buf} {c : Login} (h : Inv msg junk c) (n : Nat) :
    Inv msg junk { c with sock := c.sock.arrive n } := by
  cases h with
  | waiting h => exact .waiting { h with unread := (Sock.arrive_unread _ _).trans h.unread }
  | taking bodies h => exact .taking bodies { h with unread := (Sock.arrive_unread _ _).trans h.unread }

theorem bytes_split (msg : LoginMessage) : msg.bytes = msg.bytes.take Proto.headSize ++ msg.body :=
  (List.take_append_drop Proto.headSize msg.bytes).symm

theorem head_length (msg : LoginMessage) : (msg.bytes.take Proto.headSize).length = Proto.headSize := by
  rw [List.length_take, msg.size]
  rfl

/-- The header stands in front of the pieces. -/
theorem head_read (msg : LoginMessage) (junk : Buf) (bodies : List (List UInt8)) :
    ((junk.write 0 (msg.bytes.take Proto.headSize)).overlay Proto.headSize bodies).read 0 Proto.headSize =
      msg.bytes.take Proto.headSize := by
  have hhead : (junk.write 0 (msg.bytes.take Proto.headSize)).read 0 Proto.headSize = msg.bytes.take Proto.headSize := by
    have := Mem.read_write_same junk 0 (msg.bytes.take Proto.headSize)
    rwa [head_length] at this
  rw [← hhead]
  apply Mem.read_eq_iff.mpr
  intro i hi
  rw [Nat.zero_add, Mem.overlay_below _ _ hi, hhead]

theorem Taking.complete_iff {msg : LoginMessage} {junk : Buf} {bodies : List (List UInt8)} {c : Login}
    (h : Taking msg junk bodies c) : Complete c ↔ bodies.flatten = msg.body := by
  unfold Complete
  rw [h.pieces, h.flag, decide_eq_true_iff]
  refine ⟨?_, ?_⟩
  · intro ⟨_, hlen⟩
    rw [h.taken, hlen, List.take_of_length_le (Nat.le_of_eq msg.body_length)]
  · intro heq
    exact ⟨List.cons_ne_nil _ _, by rw [heq, body_length]⟩

/-- `recvbuff` holds the message when every byte of the body has landed. -/
theorem Taking.message_iff {msg : LoginMessage} {junk : Buf} {bodies : List (List UInt8)} {c : Login}
    (h : Taking msg junk bodies c) :
    (Complete c → c.user.recvbuff.read 0 Proto.loginSize = msg.bytes) ↔ Landed msg junk bodies := by
  have hbody : c.user.recvbuff.read 0 Proto.loginSize = msg.bytes ↔
      c.user.recvbuff.read Proto.headSize bodySize = msg.body := by
    rw [show Proto.loginSize = Proto.headSize + bodySize from rfl, Mem.read_append, Nat.zero_add, h.recvbuff,
      head_read msg junk bodies]
    nth_rewrite 3 [bytes_split msg]
    exact List.append_right_inj _
  have hbyte : ∀ j, c.user.recvbuff (Proto.headSize + j) =
      ((bodies.reverse.find? fun l => j < l.length).bind (·[j]?)).getD (junk (Proto.headSize + j)) := by
    intro j
    rw [h.recvbuff, Mem.overlay_at, Mem.write_above _ _ (by rw [head_length]; omega)]
  rw [h.complete_iff, hbody, Mem.read_eq_list_iff msg.body_length]
  unfold Landed
  refine imp_congr_right fun _ => forall₂_congr fun j _ => ?_
  rw [hbyte]
  cases hlast : bodies.reverse.find? fun l => j < l.length with
  | none => simp
  | some l =>
    have hj : j < l.length := by simpa using List.find?_some hlast
    simp [List.getElem?_eq_getElem hj, eq_comm]

/-! ## One event -/

/-- What a `recv` that finds something takes: the next bytes of the body. -/
theorem Taking.received {msg : LoginMessage} {junk : Buf} {bodies : List (List UInt8)} {c : Login}
    (h : Taking msg junk bodies c) {io : Login.Io} (hlt : bodies.flatten.length < bodySize)
    (ha : (c.sock.arrive io.late).avail ≠ []) :
    ∃ b s, (c.sock.arrive io.late).recv (toSize c.user.remainLengthofRecv) io.n2 = ⟨b.length, b, s⟩ ∧
      0 < b.length ∧ bodies.flatten.length + b.length ≤ bodySize ∧
      (bodies ++ [b]).flatten = msg.body.take (bodies ++ [b]).flatten.length ∧
      s.unread = msg.body.drop (bodies ++ [b]).flatten.length := by
  have hsmall : bodySize = 70 := rfl
  have hsize : toSize c.user.remainLengthofRecv = bodySize - bodies.flatten.length := by
    rw [h.remain, toSize_of_nonneg (by omega) (by omega), Int.toNat_natCast]
  rw [hsize]
  obtain ⟨r, hr⟩ : ∃ r, r = (c.sock.arrive io.late).recv (bodySize - bodies.flatten.length) io.n2 := ⟨_, rfl⟩
  have hne : bodySize - bodies.flatten.length ≠ 0 := by omega
  obtain ⟨hpos, hret⟩ := Sock.recv_pos io.n2 hne ha
  have hle := Sock.recv_length_le (c.sock.arrive io.late) (bodySize - bodies.flatten.length) io.n2
  have hun := Sock.recv_unread (c.sock.arrive io.late) (bodySize - bodies.flatten.length) io.n2
  rw [Sock.arrive_unread, h.unread, ← hr] at hun
  rw [← hr] at hpos hret hle ⊢
  have hbytes : r.bytes = (msg.body.drop bodies.flatten.length).take r.bytes.length := by
    have := congrArg (List.take r.bytes.length) hun
    rwa [List.take_left] at this
  refine ⟨r.bytes, r.sock, ?_, hpos, by omega, ?_, ?_⟩
  · rw [← hret]
  · rw [List.flatten_append, List.flatten_singleton, List.length_append, List.take_add, ← hbytes, ← h.taken]
  · rw [List.flatten_append, List.flatten_singleton, List.length_append, ← List.drop_drop, ← hun, List.drop_left]

/-- A piece of the body comes behind those before it, is stored over them, and is counted. -/
theorem Taking.recvBody {msg : LoginMessage} {junk : Buf} {bodies : List (List UInt8)} {c : Login}
    (h : Taking msg junk bodies c) (io : Login.Io) (hlt : bodies.flatten.length < bodySize)
    (ha : (c.sock.arrive io.late).avail ≠ []) : ∃ b, Taking msg junk (bodies ++ [b]) (c.recvBody io) := by
  have hsmall : bodySize = 70 := rfl
  obtain ⟨b, s, hr, hpos, hle, htaken, hunread⟩ := h.received hlt ha
  have hlen : (bodies ++ [b]).flatten.length = bodies.flatten.length + b.length := by
    rw [List.flatten_append, List.flatten_singleton, List.length_append]
  have hnread : wrap 4 (b.length : Int) = b.length := wrap_four (by omega) (by omega)
  have hremain : wrap 4 (c.user.remainLengthofRecv - b.length) = (bodySize - (bodies ++ [b]).flatten.length : Nat) := by
    rw [h.remain, hlen, wrap_four (by omega) (by omega)]
    omega
  have hsome : 0 < (b.length : Int) := by omega
  have hc : ∃ calls, c.recvBody io = { c with
      sock := s
      calls := calls
      pieces := c.pieces ++ [b]
      user := { c.user with
        recvbuff := c.user.recvbuff.write Proto.headSize b
        remainLengthofRecv := (bodySize - (bodies ++ [b]).flatten.length : Nat)
        recvHeadFlag := decide (((bodySize - (bodies ++ [b]).flatten.length : Nat) : Int) = 0) } } := by
    simp only [Login.recvBody, hr, hnread, hremain, hsome, if_true]
    exact ⟨_, rfl⟩
  obtain ⟨calls, hc⟩ := hc
  refine ⟨b, ?_⟩
  rw [hc]
  refine ⟨h.running, h.listening, h.unarmed, ?_, by omega, htaken, rfl, ?_, ?_, hunread⟩
  · show c.pieces ++ [b] = _
    rw [h.pieces, List.cons_append]
  · show decide _ = decide _
    rw [decide_eq_decide]
    omega
  · show c.user.recvbuff.write Proto.headSize b = _
    rw [h.recvbuff, Mem.overlay_snoc]

/-- The header of the message is a login's. -/
theorem Waiting.recvHead {msg : LoginMessage} {junk : Buf} {c : Login} (h : Waiting msg junk c) {io : Login.Io}
    (ha : Proto.headSize ≤ c.sock.avail.length) (hn : Proto.headSize ≤ io.n1) :
    (c.sock.recv Proto.headSize io.n1).ret ≠ 0 ∧ Proto.cmdId (c.recvHead io).user.recvbuff = CmdId.login.code ∧
      Taking msg junk [] (c.recvHead io).expectBody := by
  obtain ⟨hb, hret, hs⟩ := Sock.recv_whole (s := c.sock) (by decide) hn ha
  have hun : c.sock.avail ++ c.sock.wire = msg.bytes := h.unread
  have htake : c.sock.avail.take Proto.headSize = msg.bytes.take Proto.headSize := by
    rw [← hun, List.take_append_of_le_length ha]
  have hbuff : (c.recvHead io).user.recvbuff = junk.write 0 (msg.bytes.take Proto.headSize) := by
    show c.user.recvbuff.write 0 (c.sock.recv Proto.headSize io.n1).bytes = _
    rw [hb, htake, h.recvbuff]
  have hhead : (c.recvHead io).user.recvbuff.read 0 Proto.headSize = (Mem.ofList 0 msg.bytes).read 0 Proto.headSize := by
    have := head_read msg junk []
    rw [hbuff, Mem.read_ofList _ _ (by rw [msg.size]; decide)]
    exact this
  have hcmd : Proto.cmdId (c.recvHead io).user.recvbuff = CmdId.login.code := by
    rw [← msg.cmdId]
    unfold Proto.cmdId
    rw [Mem.getInt_of_read (n := Proto.headSize) (by decide), hhead, ← Mem.getInt_of_read (by decide)]
  refine ⟨by rw [hret]; decide, hcmd, ?_⟩
  refine ⟨h.running, h.listening, h.unarmed, ?_, Nat.zero_le _, rfl, ?_, ?_, hbuff, ?_⟩
  · show c.pieces ++ [(c.sock.recv Proto.headSize io.n1).bytes] = _
    rw [h.pieces, hb, htake]
    rfl
  · unfold Login.expectBody
    dsimp only
    rw [Proto.length_congr hhead, msg.length]
    decide
  · show false = _
    decide
  · show (c.sock.recv Proto.headSize io.n1).sock.unread = msg.body
    rw [hs]
    show c.sock.avail.drop Proto.headSize ++ c.sock.wire = msg.bytes.drop Proto.headSize
    rw [← hun, List.drop_append_of_le_length ha]

theorem Waiting.epollIn {msg : LoginMessage} {junk : Buf} {c : Login} (h : Waiting msg junk c) {io : Login.Io}
    (hfed : Fed c io) : ∃ b, Taking msg junk [b] (c.epollIn io) := by
  unfold Fed at hfed
  rw [if_pos h.pieces] at hfed
  obtain ⟨ha, hn, hmore⟩ := hfed
  obtain ⟨hret, hcmd, htaking⟩ := h.recvHead ha hn
  have hbody : ((c.recvHead io).expectBody.sock.arrive io.late).avail ≠ [] := by
    show (c.sock.recv Proto.headSize io.n1).sock.avail ++ (c.sock.recv Proto.headSize io.n1).sock.wire.take io.late ≠ []
    rw [(Sock.recv_whole (s := c.sock) (by decide) hn ha).2.2, ← List.length_pos_iff]
    dsimp only
    rw [List.length_append, List.length_drop]
    simp only [Sock.arrive, List.length_append] at hmore
    omega
  obtain ⟨b, hb⟩ := htaking.recvBody io (by decide) hbody
  have hepoll : c.epollIn io = (c.recvHead io).expectBody.recvBody io := by
    have hhead : Proto.headSize = 16 := rfl
    unfold Login.epollIn
    rw [if_neg (by omega), if_pos (Or.inl ha), if_pos h.flag, if_neg hret, if_pos hcmd]
  rw [hepoll]
  exact ⟨b, hb⟩

theorem Taking.epollIn {msg : LoginMessage} {junk : Buf} {bodies : List (List UInt8)} {c : Login}
    (h : Taking msg junk bodies c) {io : Login.Io} (hfed : Fed c io) :
    ∃ b, Taking msg junk (bodies ++ [b]) (c.epollIn io) := by
  unfold Fed at hfed
  rw [if_neg (by rw [h.pieces]; exact List.cons_ne_nil _ _)] at hfed
  have hlt : bodies.flatten.length < bodySize := by
    by_contra hfull
    have hnone : c.sock.unread = [] := by
      rw [h.unread, List.drop_of_length_le (by rw [body_length]; omega)]
    exact hfed (List.append_eq_nil_iff.mp hnone).1
  have hlate : (c.sock.arrive io.late).avail ≠ [] := by
    intro hnil
    exact hfed (List.append_eq_nil_iff.mp hnil).1
  have hflag : ¬ c.user.recvHeadFlag = true := by
    rw [h.flag, decide_eq_true_iff]
    exact Nat.ne_of_lt hlt
  have hepoll : c.epollIn io = c.recvBody io := by
    unfold Login.epollIn
    rw [if_neg fun h0 => hfed (List.length_eq_zero_iff.mp h0), if_pos (Or.inr hflag), if_neg hflag]
  rw [hepoll]
  exact h.recvBody io hlt hlate

/-! ## Runs -/

theorem step_inv {msg : LoginMessage} {junk : Buf} (c : Login) (e : Ev) (c' : Login) (h : Inv msg junk c)
    (hs : step c e = some c') : Inv msg junk c' := by
  cases e with
  | arrive n =>
    obtain ⟨-, -, rfl⟩ := Login.step_eq hs
    exact h.arrive n
  | epollIn io =>
    simp only [step] at hs
    split at hs
    · rename_i hfed
      obtain ⟨-, -, rfl⟩ := Login.step_eq hs
      cases h with
      | waiting h =>
        obtain ⟨b, hb⟩ := h.epollIn hfed
        exact .taking [b] hb
      | taking bodies h =>
        obtain ⟨b, hb⟩ := h.epollIn hfed
        exact .taking (bodies ++ [b]) hb
    · cases hs

theorem Inv.whole_iff {msg : LoginMessage} {junk : Buf} {c : Login} (h : Inv msg junk c) :
    Whole msg c ↔ Landed msg junk c.pieces.tail := by
  cases h with
  | waiting h =>
    rw [h.pieces]
    refine ⟨?_, ?_⟩
    · intro _ hbody
      have := congrArg List.length hbody
      rw [body_length] at this
      cases this
    · exact fun _ => ⟨h.listening.1, fun hc => absurd h.pieces hc.1⟩
  | taking bodies h =>
    rw [h.pieces, List.tail_cons, ← h.message_iff]
    exact ⟨Whole.message, fun hm => ⟨h.listening.1, hm⟩⟩

/-- The message is put together, and the record lives, exactly when every byte lands. -/
theorem whole_iff_landed (msg : LoginMessage) (junk : Unloginuser) (socket userId now : Int) (closed : Bool)
    (es : List Ev) :
    Always step (Whole msg) (Login.init junk socket userId now msg.bytes closed) es ↔
      Always step (fun c => Landed msg junk.recvbuff c.pieces.tail)
        (Login.init junk socket userId now msg.bytes closed) es :=
  always_congr (always_of_inv step_inv (init_inv msg junk socket userId now closed)) fun _ => Inv.whole_iff

/-- A body that comes in one piece lands. -/
theorem landed_of_one_piece (msg : LoginMessage) (junk : Buf) (b : List UInt8) : Landed msg junk [b] := by
  intro hb j hj
  rw [List.flatten_singleton] at hb
  rw [← body_length msg] at hj
  simp [hb, hj]

def adminMessage : LoginMessage :=
  ⟨Login.adminLogin, by decide, by decide, by decide⟩

/-- The header arrives with the first byte of the name, then the rest. -/
def twoPieces : List Ev := [.arrive 17, .epollIn ⟨16, 0, 70, 0⟩, .arrive 69, .epollIn ⟨16, 0, 70, 0⟩]

/-- The name that `recvbuff` then holds starts with its second letter. -/
theorem a_body_in_two_pieces :
    ¬ Always step (Whole adminMessage) (Login.init .zero 5 1 0 adminMessage.bytes false) twoPieces := by
  have hrun : (run step (Login.init .zero 5 1 0 adminMessage.bytes false) twoPieces).map
      (fun c => (c.user.recvHeadFlag, c.pieces.length, c.user.recvbuff 16)) = some (true, 3, 'd'.toUInt8) := by
    decide +kernel
  intro h
  obtain ⟨c, hc, hv⟩ := Option.map_eq_some_iff.mp hrun
  simp only [Prod.mk.injEq] at hv
  obtain ⟨hflag, hpieces, hd⟩ := hv
  have hmessage := (h.last hc).message ⟨List.ne_nil_of_length_eq_add_one hpieces, hflag⟩
  have := congrArg (·[16]?) hmessage
  rw [Mem.getElem?_read, if_pos (by decide), Nat.zero_add, hd] at this
  revert this
  decide

end LoginMessage

end GroupeChat.ChatServer
