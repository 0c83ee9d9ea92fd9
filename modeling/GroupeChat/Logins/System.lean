/-
  GroupeChat.Logins.System — clients that log in, and the server they log in to.

  A client's user types a name and a passwd; `start` connects and sends them, and
  `startLoginModel` receives one reply, from which the client takes that it is logged in,
  and under which user id, or that it is not, and exits. `System` is every client that
  was started with the server's accept and command threads (`ChatServer.Server`). What
  the server sends comes to the client in order; a client's process may end at any time.

  The message says "admin" twice exactly if that was typed (`Client.admin_iff`).
-/

import GroupeChat.ChatServer.LoginVerdict
import GroupeChat.ChatServer.UserIds

namespace GroupeChat.Logins

open Base ChatServer

/-! ## One client -/

inductive Outcome where
  /-- In `startLoginModel`'s `recv`, or not that far. -/
  | waiting
  | loggedIn (userId : Int)
  | inputError
  /-- Its process has ended some other way. -/
  | ended
  deriving DecidableEq

structure Client where
  /-- The lines typed. -/
  name : List UInt8
  passwd : List UInt8
  /-- `m_loginSendMsg.loginHead.userId`, never set. -/
  userId : Int
  mLoginRecvMsg : Buf
  unread : List UInt8
  outcome : Outcome

/-- `cin.getline` of a line into a field of `size` zeros. -/
def getline (size : Nat) (line : List UInt8) : List UInt8 :=
  line.take (size - 1) ++ List.replicate (size - (line.take (size - 1)).length) 0

namespace Client

def start (name passwd : List UInt8) (userId : Int) (recvMsg : Buf) : Client :=
  { name := name, passwd := passwd, userId := userId, mLoginRecvMsg := recvMsg, unread := [], outcome := .waiting }

/-- `m_loginSendMsg` as it is sent. A line too long for `name` fails `cin`, and nothing is
    taken for `passwd`. -/
def message (c : Client) : List UInt8 :=
  Proto.headBytes CmdId.login.code c.userId Proto.loginSize 1 ++ getline Proto.nameSize c.name ++
    getline Proto.passwdSize (if c.name.length < Proto.nameSize then c.passwd else [])

/-- What `startLoginModel` makes of a reply of which it received the first `n` bytes. -/
def recv (c : Client) (n : Nat) : Client :=
  let msg := c.mLoginRecvMsg.write 0 (c.unread.take n)
  { c with
    mLoginRecvMsg := msg
    unread := c.unread.drop n
    outcome := if msg.streq Proto.resultOff Unloginuser.yes then .loggedIn (Proto.userId msg) else .inputError }

end Client

/-! ## Clients and server -/

structure System where
  server : Server
  clients : List Client

namespace System

inductive Ev where
  /-- A client is started with these lines typed, connects, is accepted and sends. -/
  | start (name passwd : List UInt8) (userId : Int) (recvMsg : Buf) (junk : Unloginuser) (fd now : Int)
  /-- A step of the server; `n` is what the `send` of a time-out accepts. -/
  | server (e : Server.Ev) (n : Nat)
  /-- The I/O thread sends `l` to the `i`-th client, a user by now. -/
  | relayed (i : Nat) (l : List UInt8)
  /-- The `i`-th client's `recv` returns `n`. -/
  | recv (i n : Nat)
  /-- The `i`-th client's process ends. -/
  | exit (i : Nat)

def init : System := ⟨Server.init, []⟩

/-- What a step on `l` sends to its client. -/
def sent (l : Login) (e : Login.Ev) (n : Nat) : List UInt8 :=
  match e with
  | .epollOut nread => l.user.mLoginMsgSend.read 0 nread.toNat
  | .timeoutSend => l.user.mLoginMsgSend.read 0 n
  | _ => []

def deliver (s : System) (e : Server.Ev) (n : Nat) : List Client :=
  match e with
  | .login i e _ _ =>
    match s.server.logins[i]? with
    | none => s.clients
    | some l => s.clients.modify i fun c => { c with unread := c.unread ++ sent l e n }
  | _ => s.clients

def closed (l : Login) : Login := { l with sock := { l.sock with closed := true } }

/-- The `i`-th client is `c` from now on; the socket of one that has exited is closed. -/
def setClient (s : System) (i : Nat) (c : Client) : System :=
  match c.outcome with
  | .waiting | .loggedIn _ => { s with clients := s.clients.set i c }
  | .inputError | .ended =>
    { server := { s.server with logins := s.server.logins.modify i closed }, clients := s.clients.set i c }

def step (s : System) : Ev → Option System
  | .start name passwd userId recvMsg junk fd now =>
    let c := Client.start name passwd userId recvMsg
    (s.server.step (.accept junk fd now c.message false)).map fun t => ⟨t, s.clients ++ [c]⟩
  | .server (.accept ..) _ => none
  | .server e n => (s.server.step e).map fun t => ⟨t, s.deliver e n⟩
  | .relayed i l =>
    if (s.server.logins[i]?).any (fun l => l.cmd = .gone) then
      some { s with clients := s.clients.modify i fun c => { c with unread := c.unread ++ l } }
    else none
  | .recv i n =>
    match s.clients[i]? with
    | none => none
    | some c =>
      if c.outcome = .waiting ∧ 1 ≤ n ∧ n ≤ Proto.loginReplySize ∧ n ≤ c.unread.length then
        some (s.setClient i (c.recv n))
      else none
  | .exit i =>
    match s.clients[i]? with
    | none => none
    | some c => some (s.setClient i { c with outcome := .ended })

end System

/-! ## What is typed is what is judged -/

/-- A field that has room for one more byte than `s` holds `s` exactly if `s` was typed. -/
theorem cstr_getline {s : List UInt8} {size : Nat} (hs : s.length + 1 < size) (line : List UInt8) :
    cstr (getline size line) = s ↔ cstr line = s := by
  have ht : cstr (getline size line) = (cstr line).take (size - 1) := by
    rw [getline, cstr_append_zeros]
    exact List.take_takeWhile.symm
  rw [ht]
  refine ⟨fun h => ?_, fun h => ?_⟩
  · have hlen := congrArg List.length h
    rw [List.length_take] at hlen
    rwa [List.take_of_length_le (by omega)] at h
  · rw [h, List.take_of_length_le (by omega)]

theorem getline_length (size : Nat) (line : List UInt8) : (getline size line).length = size := by
  simp [getline]

namespace Client

theorem message_length (c : Client) : c.message.length = Proto.loginSize := by
  simp only [message, List.length_append, Proto.headBytes_length, getline_length]
  rfl

theorem nameOf_message (c : Client) : nameOf c.message = cstr (getline Proto.nameSize c.name) := by
  have hhead : (Proto.headBytes CmdId.login.code c.userId Proto.loginSize 1).length = Proto.nameOff :=
    Proto.headBytes_length ..
  rw [nameOf, message, List.append_assoc, List.drop_left' hhead, List.take_left' (getline_length ..)]

theorem passwdOf_message (c : Client) : passwdOf c.message =
    cstr (getline Proto.passwdSize (if c.name.length < Proto.nameSize then c.passwd else [])) := by
  have hlen : (Proto.headBytes CmdId.login.code c.userId Proto.loginSize 1 ++
      getline Proto.nameSize c.name).length = Proto.passwdOff := by
    rw [List.length_append, Proto.headBytes_length, getline_length]
    rfl
  rw [passwdOf, message, List.drop_left' hlen, List.take_of_length_le (getline_length ..).le]

def Admin (c : Client) : Prop :=
  c.name.length < Proto.nameSize ∧ cstr c.name = Unloginuser.admin ∧ cstr c.passwd = Unloginuser.admin

theorem admin_iff (c : Client) :
    nameOf c.message = Unloginuser.admin ∧ passwdOf c.message = Unloginuser.admin ↔ c.Admin := by
  unfold Admin
  rw [c.nameOf_message, c.passwdOf_message, cstr_getline (by decide), cstr_getline (by decide)]
  by_cases hn : c.name.length < Proto.nameSize
  · simp only [hn, if_true, true_and]
  · have hne : cstr [] ≠ Unloginuser.admin := by decide
    simp only [hn, if_false, hne, and_false, false_and]

/-- Whatever it received, the client takes it one way or the other. -/
theorem recv_outcome (c : Client) (n : Nat) :
    (∃ userId, (c.recv n).outcome = .loggedIn userId) ∨ (c.recv n).outcome = .inputError := by
  unfold recv
  dsimp only
  split
  · exact Or.inl ⟨_, rfl⟩
  · exact Or.inr rfl

end Client

end GroupeChat.Logins
