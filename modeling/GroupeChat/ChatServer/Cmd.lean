/-
  GroupeChat.ChatServer.Cmd — the command thread's dispatch (`CCmd::setWriteSocketFdFlag`)
  with its table of users and its cache of UDP chunks.

  Users are looked up through `m_map[id]`, which gives an id that is not there a null
  entry; every case then goes through the pointer at once (`withUser`). What the process
  does not survive is a `Fault`: a member of a null user, a copy or a store outside its
  allocation, a pop of an empty list, QUIT's `tmp` where it points nowhere. Nothing
  happens after one.

  Between packets users log in, the I/O thread sends and deletes, the timed sweeps erase
  entries of either table. Each event touches one entry; a pass of a sweep is its events
  one after the other, in any order and with any of them left out.
-/

import GroupeChat.Base.StdMap
import GroupeChat.Base.Run
import GroupeChat.ChatServer.Enqueue

namespace GroupeChat.ChatServer

open Base

inductive Fault where
  | nullUser
  | outOfBounds
  | emptyPop
  | wildPointer
  deriving DecidableEq

/-- A packet put on the `m_udpSendList` of user `dest` for the chunk `count`. -/
structure Queued where
  dest : Int
  count : Int
  pack : Buf

structure Cmd where
  /-- `none` is a null pointer. -/
  mMap : StdMap Int (Option User)
  mUdpLoseMap : StdMap Int Buf
  fault : Option Fault
  /-- What UDPSENDFILE has queued. -/
  forwards : List Queued
  /-- What UDPRESEND has queued out of the cache. -/
  answers : List Queued

/-- A packet off `m_packList`, and what its handling meets. -/
structure Packet where
  pack : Buf
  /-- What the next `packPop` gives, if anything. -/
  temaddr : Option Addr
  /-- `tmp->head.userId` in QUIT, where `tmp` is not set; `none` where it points nowhere. -/
  tmp : Option Int
  /-- `time(NULL)`. -/
  now : Int
  /-- What new allocations hold. -/
  junk : Buf

/-! ## On one user -/

namespace User

/-- `m_copy`, the store through the pointer it returns, `setPosition`. -/
def enqueue (u : User) (pack : Buf) : Except Fault User :=
  let length := Proto.length pack
  let pos := u.mSend.mPosition
  if 0 ≤ length ∧ length ≤ Proto.packSize ∧ pos + length ≤ CmdSend.sendBuffSize ∧
      pos + storeField pack + 4 ≤ CmdSend.sendBuffSize then
    let (send, ptr) := u.mSend.mCopy pack length.toNat
    .ok { u with mSend := { send with mSendBuff := overwrite send.mSendBuff ptr pack }.setPosition length.toNat }
  else .error .outOfBounds

/-- An enqueue is the three steps of the buffer's lane, with no send between them. -/
theorem enqueue_lane {pack : Buf} {u u' : User} {s : Lane} (h : u.enqueue pack = .ok u') (hs : s.send = u.mSend)
    (hf : s.flight = none) :
    ∃ s', run Lane.step s [.mCopy pack (Proto.length pack).toNat, .overwrite, .setPosition] = some s' ∧
      s'.send = u'.mSend ∧ s'.sent = s.sent ∧ s'.done = s.done ++ [rewritten pack (Proto.length pack).toNat] := by
  unfold enqueue at h
  dsimp only at h
  split at h
  · cases h
    simp only [run, Lane.step, hf, hs, Option.bind_some, Bool.false_eq_true, if_false, if_true]
    exact ⟨_, rfl, rfl, rfl, rfl⟩
  · cases h

/-- `m_udpSendList->packPush`. -/
def udpPush (pack : Buf) (u : User) : User := { u with mUdpSendList := u.mUdpSendList ++ [pack] }

end User

/-- `m_udpcopy` into a new buffer, then the sender over the addressee. -/
def udpcopy (junk pack : Buf) : Buf :=
  (junk.write 0 (pack.read 0 (Proto.length pack).toNat)).putInt 4 Proto.udpPeerOff (Proto.userId pack)

/-! ## The cases -/

namespace Cmd

def fail (c : Cmd) (f : Fault) : Cmd := { c with fault := some f }

/-- The statements that follow one that may fault. -/
def andThen (c : Cmd) (k : Cmd → Cmd) : Cmd := if c.fault = none then k c else c

/-- `f` through the pointer `m_map[id]`. -/
def withUser (c : Cmd) (id : Int) (f : User → Except Fault User) : Cmd :=
  match c.mMap.find? id with
  | none => { c with mMap := c.mMap.insertNew id none, fault := some .nullUser }
  | some none => c.fail .nullUser
  | some (some u) =>
    match f u with
    | .ok u' => { c with mMap := c.mMap.set id (some u') }
    | .error e => c.fail e

/-- SENDtoONE, SENDFILENAME, FILERET and SENDFILE. -/
def relay (c : Cmd) (p : Packet) : Cmd := c.withUser (Proto.peerId p.pack) (User.enqueue · p.pack)

def sendToOthers (c : Cmd) (p : Packet) : Cmd :=
  c.mMap.ascending.foldl (fun c e => c.andThen fun c => c.withUser e.1 (User.enqueue · p.pack)) c

def udpSendFile (c : Cmd) (p : Packet) : Cmd :=
  let dest := Proto.udpPeerId p.pack
  let sendpack := udpcopy p.junk p.pack
  let c := c.withUser dest fun u =>
    if 0 ≤ Proto.length p.pack ∧ Proto.length p.pack ≤ Proto.packSize then .ok (u.udpPush sendpack)
    else .error .outOfBounds
  c.andThen fun c =>
    { c with
      mUdpLoseMap := c.mUdpLoseMap.insertNew (Proto.count p.pack) (p.pack.putInt Proto.timeSize Proto.timeOff p.now)
      forwards := c.forwards ++ [⟨dest, Proto.count p.pack, sendpack⟩] }

def udpRegister (c : Cmd) (p : Packet) : Cmd :=
  match p.temaddr with
  | none => c.fail .emptyPop
  | some clientaddr => c.withUser (Proto.userId p.pack) fun u => .ok { u with clientaddrUdp := some clientaddr }

def heartbeat (c : Cmd) (p : Packet) : Cmd :=
  c.withUser (Proto.userId p.pack) fun u => .ok { u with mLastTime := p.now }

def quit (c : Cmd) (p : Packet) : Cmd :=
  match p.tmp with
  | none => c.fail .wildPointer
  | some id => c.withUser id fun u => .ok { u with deleteFlag1 := true }

/-! ### UDPRESEND -/

def resendSize : Nat := 220

structure Resend where
  cmd : Cmd
  resend2 : Buf
  num : Nat

def answer (c : Cmd) (p : Packet) (n : Int) (cached : Buf) : Cmd :=
  let resend := p.junk.write 0 (cached.read 0 Proto.packSize)
  let c := c.withUser (Proto.userId p.pack) fun u => .ok (u.udpPush resend)
  c.andThen fun c => { c with answers := c.answers ++ [⟨Proto.userId p.pack, n, resend⟩] }

/-- A number that is not cached goes into the packet for the sender. -/
def Resend.collect (r : Resend) (p : Packet) (n : Int) : Resend :=
  if resendSize < Proto.loseNumOff + 4 * (r.num + 1) then { r with cmd := r.cmd.fail .outOfBounds }
  else
    let resend2 := if r.num = 0 then p.junk.putInt 4 Proto.peerOff (Proto.userId p.pack) else r.resend2
    { r with resend2 := resend2.putInt 4 (Proto.loseNumOff + 4 * r.num) n, num := r.num + 1 }

def Resend.next (p : Packet) (r : Resend) (i : Nat) : Resend :=
  if r.cmd.fault ≠ none then r
  else if Proto.packSize < Proto.loseNumOff + 4 * (i + 1) then { r with cmd := r.cmd.fail .outOfBounds }
  else
    let n := Proto.loseNum p.pack i
    match r.cmd.mUdpLoseMap.find? n with
    | some cached => { r with cmd := r.cmd.answer p n cached }
    | none => r.collect p n

def udpResend (c : Cmd) (p : Packet) : Cmd :=
  let r := (List.range (Proto.num p.pack).toNat).foldl (Resend.next p) ⟨c, p.junk, 0⟩
  if r.num = 0 then r.cmd
  else
    let resend2 := (r.resend2.putInt 4 Proto.numOff r.num).putInt 4 0 CmdId.udpResend.code
    r.cmd.andThen fun c => c.withUser (Proto.peerId p.pack) fun u => .ok (u.udpPush resend2)

/-! ## Dispatch and steps -/

def setWriteSocketFdFlag (c : Cmd) (p : Packet) : Cmd :=
  match CmdId.ofCode (Proto.cmdId p.pack) with
  | some .udpResend => c.udpResend p
  | some .sendToOne => c.relay p
  | some .sendToOthers => c.sendToOthers p
  | some .sendFileName => c.relay p
  | some .fileRet => c.relay p
  | some .sendFile => c.relay p
  | some .udpSendFile => c.udpSendFile p
  | some .udpRegister => c.udpRegister p
  | some .heartbeat => c.heartbeat p
  | some .quit => c.quit p
  | some .login => c
  | none => c

inductive Ev where
  | packet (p : Packet)
  /-- A new user is inserted. -/
  | login (junk : Buf) (socket userId now : Int)
  /-- The I/O thread sends what the user has buffered; `send()` returns `nread`. -/
  | startSend (userId nread : Int)
  /-- The I/O thread's `deleteloginUser`. -/
  | deleteloginUser (userId : Int)
  /-- The timed sweep reaches the entry of a user. -/
  | sweep (userId : Int)
  /-- The timed sweep erases the chunk cached under `count`. -/
  | evict (count now : Int)

def init : Cmd := ⟨∅, ∅, none, [], []⟩

def next (c : Cmd) : Ev → Option Cmd
  | .packet p => some (c.setWriteSocketFdFlag p)
  | .login junk socket userId now =>
    some { c with mMap := c.mMap.insertNew userId (some (.new junk socket userId now)) }
  | .startSend userId nread =>
    match c.mMap.find? userId with
    | some (some u) =>
      if -1 ≤ nread ∧ nread ≤ u.mSend.mPosition then
        some { c with mMap := c.mMap.set userId (some { u with mSend := (u.mSend.startSend nread).1 }) }
      else none
    | _ => none
  | .deleteloginUser userId =>
    match c.mMap.find? userId with
    | some (some u) => some { c with mMap := c.mMap.set userId (some { u with deleteFlag1 := true, deleteFlag2 := true }) }
    | _ => none
  | .sweep userId =>
    match c.mMap.find? userId with
    | none => none
    | some none => some (c.fail .nullUser)
    | some (some u) => if u.Deleted then some { c with mMap := c.mMap.remove userId } else none
  | .evict count now =>
    match c.mUdpLoseMap.find? count with
    | none => none
    | some cached =>
      if 2 < now - Proto.time cached then some { c with mUdpLoseMap := c.mUdpLoseMap.remove count } else none

def step (c : Cmd) (e : Ev) : Option Cmd := if c.fault = none then c.next e else none

/-- A lookup that ends without a fault found a user, and changed no one else. -/
theorem withUser_ok {c : Cmd} {id : Int} {f : User → Except Fault User} (h : (c.withUser id f).fault = none) :
    ∃ u u', c.mMap.find? id = some (some u) ∧ f u = .ok u' ∧
      c.withUser id f = { c with mMap := c.mMap.set id (some u') } := by
  unfold withUser at h ⊢
  split at h
  · cases h
  · cases h
  · rename_i u hu
    split at h
    · rename_i u' hu'
      exact ⟨u, u', hu, hu', rfl⟩
    · cases h

/-! ## What the cases on users leave alone -/

structure Quiet (c c' : Cmd) : Prop where
  cache : c'.mUdpLoseMap = c.mUdpLoseMap
  forwards : c'.forwards = c.forwards
  answers : c'.answers = c.answers

theorem Quiet.refl (c : Cmd) : Quiet c c := ⟨rfl, rfl, rfl⟩

theorem Quiet.trans {a b c : Cmd} (h : Quiet a b) (h' : Quiet b c) : Quiet a c :=
  ⟨h'.cache.trans h.cache, h'.forwards.trans h.forwards, h'.answers.trans h.answers⟩

theorem Quiet.andThen {c c' : Cmd} {k : Cmd → Cmd} (h : Quiet c c') (hk : Quiet c' (k c')) :
    Quiet c (c'.andThen k) := by
  unfold Cmd.andThen
  split
  · exact h.trans hk
  · exact h

theorem fail_quiet (c : Cmd) (f : Fault) : Quiet c (c.fail f) := ⟨rfl, rfl, rfl⟩

theorem withUser_quiet (c : Cmd) (id : Int) (f : User → Except Fault User) : Quiet c (c.withUser id f) := by
  unfold withUser
  split
  · exact ⟨rfl, rfl, rfl⟩
  · exact fail_quiet c _
  · split
    · exact ⟨rfl, rfl, rfl⟩
    · exact fail_quiet c _

theorem relay_quiet (c : Cmd) (p : Packet) : Quiet c (c.relay p) := withUser_quiet c _ _

theorem sendToOthers_quiet (c : Cmd) (p : Packet) : Quiet c (c.sendToOthers p) := by
  unfold sendToOthers
  refine List.foldlRecOn (motive := Quiet c) _ _ (.refl c) fun c' h e _ => ?_
  exact h.andThen (withUser_quiet c' _ _)

theorem udpRegister_quiet (c : Cmd) (p : Packet) : Quiet c (c.udpRegister p) := by
  unfold udpRegister
  split
  · exact fail_quiet c _
  · exact withUser_quiet c _ _

theorem heartbeat_quiet (c : Cmd) (p : Packet) : Quiet c (c.heartbeat p) := withUser_quiet c _ _

theorem quit_quiet (c : Cmd) (p : Packet) : Quiet c (c.quit p) := by
  unfold quit
  split
  · exact fail_quiet c _
  · exact withUser_quiet c _ _

theorem login_quiet {c c' : Cmd} {junk : Buf} {socket userId now : Int}
    (h : c.next (.login junk socket userId now) = some c') :
    Quiet c c' := by
  obtain rfl := Option.some.inj h
  exact ⟨rfl, rfl, rfl⟩

theorem startSend_quiet {c c' : Cmd} {userId nread : Int} (h : c.next (.startSend userId nread) = some c') :
    Quiet c c' := by
  simp only [next] at h
  split at h
  · split at h
    · obtain rfl := Option.some.inj h
      exact ⟨rfl, rfl, rfl⟩
    · cases h
  · cases h

theorem deleteloginUser_quiet {c c' : Cmd} {userId : Int} (h : c.next (.deleteloginUser userId) = some c') :
    Quiet c c' := by
  simp only [next] at h
  split at h
  · obtain rfl := Option.some.inj h
    exact ⟨rfl, rfl, rfl⟩
  · cases h

theorem sweep_quiet {c c' : Cmd} {userId : Int} (h : c.next (.sweep userId) = some c') : Quiet c c' := by
  simp only [next] at h
  split at h
  · cases h
  · obtain rfl := Option.some.inj h
    exact fail_quiet c _
  · split at h
    · obtain rfl := Option.some.inj h
      exact ⟨rfl, rfl, rfl⟩
    · cases h

/-- An answer leaves the cache and the forwards. -/
theorem answer_cache (c : Cmd) (p : Packet) (n : Int) (cached : Buf) :
    (c.answer p n cached).mUdpLoseMap = c.mUdpLoseMap ∧ (c.answer p n cached).forwards = c.forwards := by
  have h := withUser_quiet c (Proto.userId p.pack) fun u =>
    .ok (u.udpPush (p.junk.write 0 (cached.read 0 Proto.packSize)))
  unfold answer andThen
  dsimp only
  split
  · exact ⟨h.cache, h.forwards⟩
  · exact ⟨h.cache, h.forwards⟩

/-- UDPSENDFILE inserts its chunk. -/
theorem udpSendFile_cache {c : Cmd} {p : Packet} (h : (c.udpSendFile p).fault = none) :
    (c.udpSendFile p).mUdpLoseMap =
      c.mUdpLoseMap.insertNew (Proto.count p.pack) (p.pack.putInt Proto.timeSize Proto.timeOff p.now) := by
  unfold udpSendFile at h ⊢
  dsimp only at h ⊢
  obtain ⟨c', hc'⟩ : ∃ c', c' = c.withUser (Proto.udpPeerId p.pack) fun u =>
      if 0 ≤ Proto.length p.pack ∧ Proto.length p.pack ≤ Proto.packSize then .ok (u.udpPush (udpcopy p.junk p.pack))
      else .error .outOfBounds := ⟨_, rfl⟩
  have hquiet : Quiet c c' := hc' ▸ withUser_quiet c _ _
  rw [← hc'] at h ⊢
  unfold andThen at h ⊢
  by_cases hf : c'.fault = none
  · rw [if_pos hf]
    dsimp only
    rw [hquiet.cache]
  · rw [if_neg hf] at h
    exact absurd h hf

/-- A round of UDPRESEND leaves the cache. -/
theorem Resend.next_cache (p : Packet) (r : Resend) (i : Nat) :
    (Resend.next p r i).cmd.mUdpLoseMap = r.cmd.mUdpLoseMap := by
  unfold Resend.next
  split
  · rfl
  · split
    · rfl
    · dsimp only
      split
      · exact (answer_cache _ _ _ _).1
      · unfold Resend.collect
        split
        · rfl
        · rfl

theorem Resend.foldl_cache (p : Packet) (l : List Nat) (r : Resend) :
    (l.foldl (Resend.next p) r).cmd.mUdpLoseMap = r.cmd.mUdpLoseMap := by
  induction l generalizing r with
  | nil => rfl
  | cons i l ih => rw [List.foldl_cons, ih, Resend.next_cache]

theorem udpResend_cache (c : Cmd) (p : Packet) : (c.udpResend p).mUdpLoseMap = c.mUdpLoseMap := by
  have hloop := Resend.foldl_cache p (List.range (Proto.num p.pack).toNat) ⟨c, p.junk, 0⟩
  unfold udpResend
  dsimp only
  split
  · exact hloop
  · unfold andThen
    split
    · rw [(withUser_quiet _ _ _).cache, hloop]
    · exact hloop

/-- Of the cases UDPSENDFILE alone touches the cache. -/
theorem setWriteSocketFdFlag_cache {c : Cmd} {p : Packet} (h : (c.setWriteSocketFdFlag p).fault = none) :
    (c.setWriteSocketFdFlag p).mUdpLoseMap =
      if CmdId.ofCode (Proto.cmdId p.pack) = some .udpSendFile then
        c.mUdpLoseMap.insertNew (Proto.count p.pack) (p.pack.putInt Proto.timeSize Proto.timeOff p.now)
      else c.mUdpLoseMap := by
  unfold setWriteSocketFdFlag at h ⊢
  cases hcmd : CmdId.ofCode (Proto.cmdId p.pack) with
  | none => rfl
  | some k =>
    rw [hcmd] at h
    cases k with
    | login => rfl
    | sendToOne => exact (relay_quiet c p).cache
    | sendToOthers => exact (sendToOthers_quiet c p).cache
    | sendFileName => exact (relay_quiet c p).cache
    | fileRet => exact (relay_quiet c p).cache
    | sendFile => exact (relay_quiet c p).cache
    | udpSendFile => exact udpSendFile_cache h
    | udpRegister => exact (udpRegister_quiet c p).cache
    | udpResend => exact udpResend_cache c p
    | heartbeat => exact (heartbeat_quiet c p).cache
    | quit => exact (quit_quiet c p).cache

end Cmd

end GroupeChat.ChatServer
