/-
  GroupeChat.ChatServer.Login — one client from its accept to its login reply.

  Two threads share the client's `CUnloginuser` record and no lock. The accept thread
  receives the login message into `recvbuff` (a header, then pieces of the body, each
  stored right after the header), sends `m_loginMsgSend` once it sees `loginState` set,
  and deletes a client that fails or is too slow. The command thread takes the record
  over, checks it once, and publishes the verdict in four stores: `loginState`, the
  reply's result, the reply's user id, `authFlag`.

  `Login` is that record with both threads' places in it; every interleaving of their
  steps is a run. `judged` remembers what had been received and what `recvbuff` held
  when the record was checked, `replies` every reply sent.
-/

import GroupeChat.Base.CString
import GroupeChat.Base.Run
import GroupeChat.Base.Socket
import GroupeChat.Proto

namespace GroupeChat.ChatServer

open Base

inductive LoginFlag where
  | loginSuccess
  | loginFailed
  | noLogin
  deriving DecidableEq

structure Unloginuser where
  mSocket : Int
  mUserId : Int
  loginTime : Int
  loginState : LoginFlag
  deleteFlag1 : Bool
  deleteFlag2 : Bool
  loginReturnFlag : Bool
  authFlag : Bool
  remainSend : Int
  mLoginMsgSend : Buf
  recvbuff : Buf
  remainLengthofRecv : Int
  totalLengthOfData : Int
  recvHeadFlag : Bool

namespace Unloginuser

def recvbuffSize : Nat := 1500

/-- The constructor and the fields set at the accept; the others hold what the allocation
    held (`junk`). -/
def new (junk : Unloginuser) (socket userId now : Int) : Unloginuser :=
  { junk with
    mSocket := socket
    mUserId := wrap 4 userId
    loginTime := now
    loginState := .noLogin
    deleteFlag1 := false
    deleteFlag2 := false
    loginReturnFlag := false
    authFlag := false
    remainSend := Proto.loginReplySize
    totalLengthOfData := 0
    recvHeadFlag := true }

def zero : Unloginuser :=
  { mSocket := 0, mUserId := 0, loginTime := 0, loginState := .noLogin, deleteFlag1 := false, deleteFlag2 := false,
    loginReturnFlag := false, authFlag := false, remainSend := 0, mLoginMsgSend := fun _ => 0, recvbuff := fun _ => 0,
    remainLengthofRecv := 0, totalLengthOfData := 0, recvHeadFlag := false }

def admin : List UInt8 := [97, 100, 109, 105, 110]

/-- The two `strcmp`s of the check. -/
def verdict (u : Unloginuser) : LoginFlag :=
  if u.recvbuff.streq Proto.nameOff admin && u.recvbuff.streq Proto.passwdOff admin then .loginSuccess else .loginFailed

def yes : List UInt8 := [89]
def no : List UInt8 := [78]

def setResult (u : Unloginuser) (s : List UInt8) : Unloginuser :=
  { u with mLoginMsgSend := u.mLoginMsgSend.strcpy Proto.resultOff s }

def setReplyId (u : Unloginuser) : Unloginuser := { u with mLoginMsgSend := u.mLoginMsgSend.putInt 4 4 u.mUserId }

end Unloginuser

/-- Where the command thread is with the record. -/
inductive Phase where
  /-- In the list that the accept thread fills. -/
  | queued
  /-- In `CCmd::m_loginMap`, none of its stores under way. -/
  | taken
  /-- `loginState` stored. -/
  | published
  /-- `result` stored. -/
  | filled
  /-- The reply's `userId` stored. -/
  | named
  /-- Promoted or not, and deleted. -/
  | gone
  /-- Deleted, and then used. -/
  | faulted
  deriving DecidableEq

structure Judged where
  /-- Everything received from the client by then. -/
  got : List UInt8
  /-- The login message as `recvbuff` had it. -/
  seen : List UInt8

structure Reply where
  state : LoginFlag
  msg : Buf

structure Login where
  sock : Sock
  user : Unloginuser
  /-- Its entry in `CAccept::m_loginMap`. -/
  accept : Status
  /-- `timeoutFunc` has written its reply and is about to send it. -/
  timing : Bool
  /-- Registered for EPOLLOUT instead of EPOLLIN. -/
  armed : Bool
  cmd : Phase
  /-- Every `recv` issued so far. -/
  calls : List RecvCall
  /-- What each `recv` stored. -/
  pieces : List (List UInt8)
  judged : Option Judged
  replies : List Reply

namespace Login

structure Io where
  n1 : Nat
  /-- How much arrives between FIONREAD and the last `recv`. -/
  late : Nat
  n2 : Nat
  /-- `time(NULL)`. -/
  now : Int

/-! ## The accept thread -/

def deleteOneUnloginUser (c : Login) : Login :=
  { c with user := { c.user with deleteFlag1 := true, deleteFlag2 := true }, accept := .dropped }

/-- More than a minute after the accept: "N" goes into the reply, which `timeoutSend`
    then sends. -/
def timeoutFunc (c : Login) (now : Int) : Login :=
  if now - c.user.loginTime > 60 then { c with user := c.user.setResult Unloginuser.no, timing := true } else c

def recvHead (c : Login) (io : Io) : Login :=
  let r := c.sock.recv Proto.headSize io.n1
  { c with
    sock := r.sock
    user := { c.user with recvbuff := c.user.recvbuff.write 0 r.bytes }
    calls := c.calls ++ [RecvCall.mk 0 Proto.headSize r.bytes.length]
    pieces := c.pieces ++ [r.bytes] }

def expectBody (c : Login) : Login :=
  { c with user := { c.user with
      totalLengthOfData := Proto.length c.user.recvbuff
      remainLengthofRecv := wrap 4 (Proto.length c.user.recvbuff - Proto.headSize)
      recvHeadFlag := false } }

def recvBody (c : Login) (io : Io) : Login :=
  let size := toSize c.user.remainLengthofRecv
  let r := (c.sock.arrive io.late).recv size io.n2
  let nread := wrap 4 r.ret
  let remain := wrap 4 (c.user.remainLengthofRecv - nread)
  let c := { c with
    sock := r.sock
    user := { c.user with recvbuff := c.user.recvbuff.write Proto.headSize r.bytes }
    calls := c.calls ++ [RecvCall.mk Proto.headSize size r.bytes.length]
    pieces := c.pieces ++ [r.bytes] }
  if 0 < nread then { c with user := { c.user with remainLengthofRecv := remain, recvHeadFlag := remain = 0 } }
  else c.deleteOneUnloginUser

def epollIn (c : Login) (io : Io) : Login :=
  -- a client that has quit is deleted with no `continue`: the next lookup makes a null
  -- entry and dereferences it
  if c.sock.avail.length = 0 then { c.deleteOneUnloginUser with accept := .faulted }
  else if Proto.headSize ≤ c.sock.avail.length ∨ ¬ c.user.recvHeadFlag then
    if c.user.recvHeadFlag then
      if (c.sock.recv Proto.headSize io.n1).ret = 0 then (c.recvHead io).deleteOneUnloginUser
      else if Proto.cmdId (c.recvHead io).user.recvbuff = CmdId.login.code then ((c.recvHead io).expectBody).recvBody io
      else { (c.recvHead io).deleteOneUnloginUser with accept := .faulted }
    else c.recvBody io
  else c.timeoutFunc io.now

/-- A `send` of `m_loginMsgSend`. -/
def sendReply (c : Login) : Login := { c with replies := c.replies ++ [Reply.mk c.user.loginState c.user.mLoginMsgSend] }

def timeoutSend (c : Login) : Login := { c.sendReply with timing := false }.deleteOneUnloginUser

def epollOut (c : Login) (nread : Int) : Login :=
  let c := c.sendReply
  if nread = 0 then c.deleteOneUnloginUser
  else
    let c := { c with user := { c.user with remainSend := wrap 4 (c.user.remainSend - nread) } }
    if c.user.remainSend = 0 then { c with user := { c.user with loginReturnFlag := true }, accept := .dropped }
    else c

/-! ## Both threads -/

inductive Ev where
  | arrive (n : Nat)
  | epollIn (io : Io)
  | timeoutSend
  /-- The accept thread sees `loginState` set and asks for EPOLLOUT. -/
  | armOut
  | epollOut (nread : Int)
  /-- The command thread moves the record to its own `m_loginMap`. -/
  | takeOver
  | check
  | fillResult
  | fillUserId
  | setAuthFlag
  /-- It finds both delete flags set. -/
  | reap
  /-- It finds `loginReturnFlag` set. -/
  | promote

def running (c : Login) : Prop := c.accept ≠ .faulted ∧ c.cmd ≠ .faulted

instance : DecidablePred running := fun c => inferInstanceAs (Decidable (c.accept ≠ .faulted ∧ c.cmd ≠ .faulted))

def listening (c : Login) : Prop := c.accept = .live ∧ c.timing = false

instance : DecidablePred listening := fun c => inferInstanceAs (Decidable (c.accept = .live ∧ c.timing = false))

def enabled (c : Login) : Ev → Prop
  | .arrive _ => True
  | .epollIn _ => c.listening ∧ c.armed = false ∧ c.sock.Ready
  | .timeoutSend => c.timing = true
  | .armOut => c.listening ∧ c.user.loginState ≠ .noLogin
  | .epollOut nread => c.listening ∧ c.armed = true ∧ -1 ≤ nread ∧ nread ≤ Proto.loginReplySize
  | .takeOver => c.cmd = .queued
  | .check => c.cmd = .taken ∧ c.user.authFlag = false
  | .fillResult => c.cmd = .published
  | .fillUserId => c.cmd = .filled
  | .setAuthFlag => c.cmd = .named
  | .reap => c.cmd = .taken ∧ c.user.deleteFlag1 ∧ c.user.deleteFlag2
  | .promote => c.cmd = .taken ∧ c.user.loginReturnFlag

instance (c : Login) : (e : Ev) → Decidable (c.enabled e)
  | .arrive _ => inferInstanceAs (Decidable True)
  | .epollIn _ => inferInstanceAs (Decidable (c.listening ∧ c.armed = false ∧ c.sock.Ready))
  | .timeoutSend => inferInstanceAs (Decidable (c.timing = true))
  | .armOut => inferInstanceAs (Decidable (c.listening ∧ c.user.loginState ≠ .noLogin))
  | .epollOut nread =>
    inferInstanceAs (Decidable (c.listening ∧ c.armed = true ∧ -1 ≤ nread ∧ nread ≤ Proto.loginReplySize))
  | .takeOver => inferInstanceAs (Decidable (c.cmd = .queued))
  | .check => inferInstanceAs (Decidable (c.cmd = .taken ∧ c.user.authFlag = false))
  | .fillResult => inferInstanceAs (Decidable (c.cmd = .published))
  | .fillUserId => inferInstanceAs (Decidable (c.cmd = .filled))
  | .setAuthFlag => inferInstanceAs (Decidable (c.cmd = .named))
  | .reap => inferInstanceAs (Decidable (c.cmd = .taken ∧ c.user.deleteFlag1 ∧ c.user.deleteFlag2))
  | .promote => inferInstanceAs (Decidable (c.cmd = .taken ∧ c.user.loginReturnFlag))

def effect (c : Login) : Ev → Login
  | .arrive n => { c with sock := c.sock.arrive n }
  | .epollIn io => c.epollIn io
  | .timeoutSend => c.timeoutSend
  | .armOut => { c with armed := true }
  | .epollOut nread => c.epollOut nread
  | .takeOver => { c with cmd := .taken }
  | .check =>
    { c with
      user := { c.user with loginState := c.user.verdict }
      cmd := .published
      judged := some ⟨c.pieces.flatten, c.user.recvbuff.read 0 Proto.loginSize⟩ }
  | .fillResult =>
    { c with
      user := c.user.setResult (if c.user.loginState = .loginSuccess then Unloginuser.yes else Unloginuser.no)
      cmd := .filled }
  | .fillUserId => { c with user := c.user.setReplyId, cmd := .named }
  | .setAuthFlag => { c with user := { c.user with authFlag := true }, cmd := .taken }
  | .reap => { c with cmd := .faulted }
  | .promote => { c with cmd := .gone }

def step (c : Login) (e : Ev) : Option Login := if c.running ∧ c.enabled e then some (c.effect e) else none

def init (junk : Unloginuser) (socket userId now : Int) (stream : List UInt8) (closed : Bool) : Login :=
  { sock := ⟨[], stream, closed⟩
    user := .new junk socket userId now
    accept := .live
    timing := false
    armed := false
    cmd := .queued
    calls := []
    pieces := []
    judged := none
    replies := [] }

theorem step_eq {c c' : Login} {e : Ev} (h : step c e = some c') : c.running ∧ c.enabled e ∧ c' = c.effect e := by
  unfold step at h
  split at h
  · rename_i hen
    exact ⟨hen.1, hen.2, (Option.some.inj h).symm⟩
  · cases h

theorem step_of {c : Login} {e : Ev} (hr : c.running) (he : c.enabled e) : step c e = some (c.effect e) := by
  simp only [step, hr, he, and_self, if_true]

theorem init_running (junk : Unloginuser) (socket userId now : Int) (stream : List UInt8) (closed : Bool) :
    (init junk socket userId now stream closed).running := by
  simp [running, init]

def adminLogin : List UInt8 :=
  Proto.headBytes CmdId.login.code 0 Proto.loginSize 1 ++ Unloginuser.admin ++ List.replicate 45 0 ++
    Unloginuser.admin ++ List.replicate 15 0

/-- The whole message arrives, is received in one event, and is checked and answered. -/
def adminRun : List Ev :=
  [.arrive 86, .epollIn ⟨16, 0, 70, 0⟩, .takeOver, .check, .fillResult, .fillUserId, .setAuthFlag, .armOut, .epollOut 18,
    .promote]

end Login

end GroupeChat.ChatServer
