/-
  GroupeChat.ChatClient.IoModel — how the client cuts its connection's bytes into packets
  (the receive branch of `IOModel::Start`).

  As on the server, 16 bytes into a new 1436-byte buffer, then the rest of the packet as
  it comes; here the remaining length counts down, and anything but a positive `recv`
  ends the program.
-/

import GroupeChat.Base.Run
import GroupeChat.Base.Socket
import GroupeChat.Proto

namespace GroupeChat.ChatClient

open Base

structure UserData where
  recvbuff : Buf
  haveReadFlag : Bool
  recvHeadFlag : Bool
  totalLengthOfData : Int
  remainLengthtoRecv : Int
  lengthHasRecv : Int

/-- The constructor; it leaves `recvbuff` and `remainLengthtoRecv` unset (`junk`). -/
def UserData.new (junk : UserData) : UserData :=
  { junk with haveReadFlag := false, recvHeadFlag := false, totalLengthOfData := 0, lengthHasRecv := 0 }

structure IoModel where
  sock : Sock
  userdata : UserData
  readList : List Buf
  /-- `dropped`: the program has exited. -/
  status : Status
  /-- Every `recv` issued so far. -/
  calls : List RecvCall

namespace IoModel

/-- What the environment decides about one round of `Start`. -/
structure Io where
  /-- What `new char[1436]` holds. -/
  junk : Buf
  n1 : Nat
  /-- How much arrives between FIONREAD and the last `recv`. -/
  late : Nat
  n2 : Nat

def exit (c : IoModel) : IoModel := { c with status := .dropped }

def recvHead (c : IoModel) (io : Io) : IoModel :=
  let r := c.sock.recv Proto.headSize io.n1
  let recvbuff := io.junk.write 0 r.bytes
  { c with
    sock := r.sock
    userdata := { c.userdata with
      recvbuff := recvbuff
      totalLengthOfData := Proto.length recvbuff
      remainLengthtoRecv := wrap 4 (Proto.length recvbuff - Proto.headSize)
      recvHeadFlag := true }
    calls := c.calls ++ [RecvCall.mk 0 Proto.headSize r.bytes.length] }

def recvBody (c : IoModel) (io : Io) : IoModel :=
  let off := Proto.headSize + c.userdata.lengthHasRecv
  let size := toSize c.userdata.remainLengthtoRecv
  let r := (c.sock.arrive io.late).recv size io.n2
  let nread := wrap 4 r.ret
  let recvbuff := c.userdata.recvbuff.store off r.bytes
  let remain := wrap 4 (c.userdata.remainLengthtoRecv - nread)
  let c := { c with sock := r.sock, calls := c.calls ++ [RecvCall.mk off size r.bytes.length] }
  if 0 < nread then
    if remain = 0 then
      { c with
        userdata := { c.userdata with
          recvbuff := recvbuff
          recvHeadFlag := false
          remainLengthtoRecv := c.userdata.totalLengthOfData
          lengthHasRecv := 0
          haveReadFlag := true }
        readList := c.readList ++ [recvbuff] }
    else
      { c with userdata := { c.userdata with
          recvbuff := recvbuff
          remainLengthtoRecv := remain
          lengthHasRecv := wrap 4 (c.userdata.lengthHasRecv + nread) } }
  else c.exit

/-- The branch that `FD_ISSET(sockfd, &rset)` selects. -/
def readable (c : IoModel) (io : Io) : IoModel :=
  if c.sock.avail.length = 0 then c.exit
  else if Proto.headSize ≤ c.sock.avail.length ∨ c.userdata.recvHeadFlag then
    if c.userdata.recvHeadFlag then c.recvBody io
    else if (c.sock.recv Proto.headSize io.n1).ret = 0 then (c.recvHead io).exit
    else (c.recvHead io).recvBody io
  else c

inductive Ev where
  | arrive (n : Nat)
  | readable (io : Io)

def step (c : IoModel) : Ev → Option IoModel
  | .arrive n => some { c with sock := c.sock.arrive n }
  | .readable io => if c.status = .live ∧ c.sock.Ready then some (c.readable io) else none

def init (junk : UserData) (stream : List UInt8) (closed : Bool) : IoModel :=
  ⟨⟨[], stream, closed⟩, .new junk, [], .live, []⟩

end IoModel

end GroupeChat.ChatClient
