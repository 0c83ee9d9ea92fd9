/-
  GroupeChat.PollServer.Server — the first chat server (histroy/version-0.0.1/server.cpp):
  one thread, one `poll` over the listening socket and at most five clients.

  `fds` has the listening socket at 0 and the clients at 1 to `userCount`; `users` is
  indexed by descriptor. What a client says is read into his own `buf`, and every other
  client's `writePost` is pointed at it; each writes it out when `poll` next says he can.
  Nothing is copied: until then the text, and the address in front of it, are whatever the
  speaker's entry of `users` holds.

  A run is one `poll`, the accept, and then one entry of the table after the other.
-/

import GroupeChat.Base.Decimal
import GroupeChat.Base.Run
import Mathlib.Logic.Function.Basic

namespace GroupeChat.PollServer

open Base

/-! ## poll -/

abbrev Bits := BitVec 16

def pollIn : Bits := 0x1
def pollOut : Bits := 0x4
def pollErr : Bits := 0x8
def pollHup : Bits := 0x10
def pollNval : Bits := 0x20
def pollRdHup : Bits := 0x2000

def Has (e b : Bits) : Prop := e &&& b ≠ 0

instance (e b : Bits) : Decidable (Has e b) := inferInstanceAs (Decidable (_ ≠ _))

structure PollFd where
  fd : Int
  events : Bits
  revents : Bits

/-- What `poll` may report: what was asked for, and what it reports unasked. -/
def PollFd.Reports (e : PollFd) (revents : Bits) : Prop :=
  revents &&& ~~~(e.events ||| pollErr ||| pollHup ||| pollNval) = 0

instance (e : PollFd) (revents : Bits) : Decidable (e.Reports revents) := inferInstanceAs (Decidable (_ = _))

/-! ## Clients -/

def BUFFSIZE : Nat := 128
def USER_LIMIT : Nat := 5
def FD_LIMIT : Nat := 10

structure InAddr where
  a : UInt8
  b : UInt8
  c : UInt8
  d : UInt8
  deriving DecidableEq

def octet (n : UInt8) : List UInt8 :=
  let n := n.toNat
  if n < 10 then [Decimal.digit n]
  else if n < 100 then [Decimal.digit (n / 10), Decimal.digit (n % 10)]
  else [Decimal.digit (n / 100), Decimal.digit (n / 10 % 10), Decimal.digit (n % 10)]

def inetNtoa (p : InAddr) : List UInt8 := octet p.a ++ 46 :: octet p.b ++ 46 :: octet p.c ++ 46 :: octet p.d

/-- A pointer into `users`: to the field of that name of one entry, or to anything. -/
inductive Ptr where
  | null
  | entry (fd : Nat)
  | wild
  deriving DecidableEq

structure ClientData where
  address : InAddr
  writePost : Ptr
  buf : List UInt8
  writeAddr : Ptr

def say : List UInt8 := [32, 115, 97, 121, 58]

def ClientData.Terminated (d : ClientData) : Prop := 0 ∈ d.buf

instance (d : ClientData) : Decidable d.Terminated := inferInstanceAs (Decidable (0 ∈ d.buf))

/-- What `strcpy`, `strcat` and `strcat` make of an address and a text. -/
def line (address text : ClientData) : List UInt8 :=
  inetNtoa address.address ++ say ++ text.buf.takeWhile (· ≠ 0)

/-- The 157 bytes that are written, of a buffer of 158 that was zero. -/
def padded (l : List UInt8) : List UInt8 := l ++ List.replicate (BUFFSIZE + 29 - l.length) 0

inductive Phase where
  | poll
  | accept
  | entry (i : Nat)
  deriving DecidableEq

inductive Fault where
  /-- An index past the end of `users`. -/
  | users
  /-- A pointer that nothing has set. -/
  | wild
  /-- A text without an end. -/
  | text
  deriving DecidableEq

structure Server where
  users : Nat → ClientData
  fds : Nat → PollFd
  userCount : Nat
  phase : Phase
  fault : Option Fault
  /-- What has been written on the connection that has the number. -/
  written : Nat → List (List UInt8)
  /-- What the others have said since it was accepted, as it is to be written. -/
  posted : Nat → List (List UInt8)

namespace Server

def init (junk : Nat → ClientData) (sock : Int) : Server where
  users := junk
  fds i := if i = 0 then ⟨sock, pollIn ||| pollErr, 0⟩ else ⟨-1, 0, 0⟩
  userCount := 0
  phase := .poll
  fault := none
  written _ := []
  posted _ := []

def fail (s : Server) (f : Fault) : Server := { s with fault := some f }

def fdAt (s : Server) (i : Nat) : Nat := (s.fds i).fd.toNat

/-! ## The accept -/

/-- A new client; every index into `users` is later the descriptor of an entry, and has
    been one here. -/
def addUser (s : Server) (connfd : Nat) (peer : InAddr) : Server :=
  if FD_LIMIT ≤ connfd then s.fail .users
  else { s with
    userCount := s.userCount + 1
    users := Function.update s.users connfd { s.users connfd with address := peer }
    fds := Function.update s.fds (s.userCount + 1) ⟨connfd, pollIn ||| pollErr ||| pollRdHup, 0⟩
    phase := .entry 0
    written := Function.update s.written connfd []
    posted := Function.update s.posted connfd [] }

/-- `res` is what `accept` returns, if it is asked. -/
def accept (s : Server) (res : Option (Nat × InAddr)) : Server :=
  if Has (s.fds 0).revents pollIn then
    match res with
    | none => { s with phase := .poll }
    | some (connfd, peer) =>
      if USER_LIMIT ≤ s.userCount then { s with phase := .poll }
      else s.addUser connfd peer
  else { s with phase := .entry 0 }

/-! ## One entry of the table -/

/-- The last entry takes the place of entry `i`, and its data the place of his data. -/
def leave (s : Server) (i : Nat) : Server :=
  { s with
    users := Function.update s.users (s.fdAt i) (s.users (s.fdAt s.userCount))
    fds := Function.update s.fds i (s.fds s.userCount)
    userCount := s.userCount - 1
    phase := .entry i }

/-- The loop over the others: `j` is the next. -/
def post (connfd : Nat) (j : Nat) (s : Server) : Server :=
  if (s.fds j).fd = connfd then s
  else
    let fd := s.fdAt j
    { s with
      fds := Function.update s.fds j { s.fds j with events := (s.fds j).events ||| ~~~pollIn ||| pollOut }
      users := Function.update s.users fd
        { s.users fd with writePost := .entry connfd, writeAddr := .entry connfd }
      posted := Function.update s.posted fd
        (s.posted fd ++ [padded (line (s.users connfd) (s.users connfd))]) }

/-- `read` into the cleared buffer: what it took, or `none` where it failed. -/
def readFrom (s : Server) (i : Nat) (data : Option (List UInt8)) : Server :=
  let connfd := s.fdAt i
  let cleared := { s with
    users := Function.update s.users connfd { s.users connfd with buf := List.replicate BUFFSIZE 0 } }
  match data with
  | none => cleared.leave i
  | some data =>
    if data.length = 0 then { cleared with phase := .entry (i + 1) }
    else
      -- the last byte read is taken for the end of the line
      let buf := data.dropLast ++ List.replicate (BUFFSIZE + 1 - data.length) 0
      let said := { s with
        users := Function.update s.users connfd { s.users connfd with buf := buf }
        phase := .entry (i + 1) }
      (List.range s.userCount).foldl (fun s j => s.post connfd (j + 1)) said

def writeTo (s : Server) (i : Nat) : Server :=
  let connfd := s.fdAt i
  match (s.users connfd).writePost with
  | .null => { s with phase := .entry (i + 1) }
  | .wild => s.fail .wild
  | .entry text =>
    match (s.users connfd).writeAddr with
    | .null => s.fail .wild
    | .wild => s.fail .wild
    | .entry address =>
      if (s.users text).Terminated then { s with
        written := Function.update s.written connfd
          (s.written connfd ++ [padded (line (s.users address) (s.users text))])
        users := Function.update s.users connfd { s.users connfd with writePost := .null, writeAddr := .null }
        fds := Function.update s.fds i { s.fds i with events := (s.fds i).events ||| ~~~pollOut ||| pollIn }
        phase := .entry (i + 1) }
      else s.fail .text

def entry (s : Server) (i : Nat) (data : Option (List UInt8)) : Server :=
  let revents := (s.fds i).revents
  if Has revents pollErr then { s with phase := .entry (i + 1) }
  else if Has revents pollRdHup then s.leave i
  else if 0 < i ∧ Has revents pollIn then s.readFrom i data
  else if Has revents pollOut then s.writeTo i
  else { s with phase := .entry (i + 1) }

/-! ## Runs -/

inductive Ev where
  | poll (revents : Nat → Bits)
  | accept (res : Option (Nat × InAddr))
  /-- The next entry; `data` is what `read` gives, if it is asked. -/
  | entry (data : Option (List UInt8))

def Free (s : Server) (connfd : Nat) : Prop := ∀ i ≤ s.userCount, (s.fds i).fd ≠ connfd

instance (s : Server) (connfd : Nat) : Decidable (s.Free connfd) :=
  inferInstanceAs (Decidable (∀ i ≤ s.userCount, _))

def step (s : Server) (e : Ev) : Option Server :=
  if s.fault ≠ none then none
  else match s.phase, e with
    | .poll, .poll revents =>
      if ∀ i ≤ s.userCount, (s.fds i).Reports (revents i) then
        some { s with
          fds := fun i => if i ≤ s.userCount then { s.fds i with revents := revents i } else s.fds i
          phase := .accept }
      else none
    | .accept, .accept res =>
      if ∀ r ∈ res, s.Free r.1 then some (s.accept res) else none
    | .entry i, .entry data =>
      if i ≤ s.userCount then
        if ∀ d ∈ data, d.length ≤ BUFFSIZE - 1 then some (s.entry i data) else none
      else some { s with phase := .poll }
    | _, _ => none

end Server

end GroupeChat.PollServer
