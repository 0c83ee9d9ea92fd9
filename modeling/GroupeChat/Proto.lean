/-
  GroupeChat.Proto — the packed structs that server and clients exchange (proto.h and
  head.h, which agree on every offset used here).

  A packet is the memory of its buffer. Every packet starts with the 16 bytes of
  `baseHandle`; what follows depends on `cmdId`. The field after the header names a
  client: the addressee on the way to the server, the sender on the way from it
  (`messageRecv.whichClientIdToSend` and `messageSend.recvFromWhichClient`).
-/

import GroupeChat.Base.LittleEndian

namespace GroupeChat

open Base

/-- The memory behind a packet pointer. -/
abbrev Buf := Mem UInt8

inductive CmdId where
  | login
  | sendToOne
  | sendToOthers
  | sendFileName
  | fileRet
  | sendFile
  | udpSendFile
  | udpRegister
  | udpResend
  | heartbeat
  | quit
  deriving DecidableEq, Repr

namespace CmdId

def code : CmdId → Int
  | login => 1
  | sendToOne => 2
  | sendToOthers => 3
  | sendFileName => 4
  | fileRet => 5
  | sendFile => 6
  | udpSendFile => 7
  | udpRegister => 8
  | udpResend => 9
  | heartbeat => 10
  | quit => 11

/-- The case of `switch (head->cmdId)` that an int selects, if any. -/
def ofCode (c : Int) : Option CmdId :=
  [login, sendToOne, sendToOthers, sendFileName, fileRet, sendFile, udpSendFile, udpRegister, udpResend,
    heartbeat, quit].find? fun k => k.code = c

@[simp] theorem ofCode_code (k : CmdId) : ofCode k.code = some k := by cases k <;> rfl

end CmdId

def UserData.filenameSize : Nat := 100

namespace Proto

def headSize : Nat := 16

/-- What `getRecvBuff`, `get_recv` and every UDP buffer allocate. -/
def packSize : Nat := 1436

/-! ## `baseHandle` -/

def cmdId (p : Buf) : Int := p.getInt 4 0
def userId (p : Buf) : Int := p.getInt 4 4
def length (p : Buf) : Int := p.getInt 4 8

def headBytes (cmdId userId length version : Int) : List UInt8 :=
  toLe 4 cmdId ++ toLe 4 userId ++ toLe 4 length ++ toLe 4 version

/-- The header fields of a packet are those of its first 16 bytes. -/
theorem length_congr {p q : Buf} (h : p.read 0 headSize = q.read 0 headSize) : length p = length q := by
  rw [length, length, Mem.getInt_of_read (n := headSize) (by decide), h, ← Mem.getInt_of_read (by decide)]

theorem headBytes_length (cmdId userId length version : Int) :
    (headBytes cmdId userId length version).length = headSize := by
  simp [headBytes, headSize]

theorem cmdId_headBytes {p : Buf} {c u l v : Int} (h : p.read 0 headSize = headBytes c u l v) : cmdId p = wrap 4 c := by
  have hd : ((headBytes c u l v).drop 0).take 4 = toLe 4 c := by simp [headBytes]
  rw [cmdId, Mem.getInt_of_read (n := headSize) (by decide), h, hd, Mem.wrap_ofLe_toLe]

theorem length_headBytes {p : Buf} {c u l v : Int} (h : p.read 0 headSize = headBytes c u l v) :
    length p = wrap 4 l := by
  have hd : ((headBytes c u l v).drop 8).take 4 = toLe 4 l := by simp [headBytes, List.take_append, List.drop_append]
  rw [length, Mem.getInt_of_read (n := headSize) (by decide), h, hd, Mem.wrap_ofLe_toLe]

/-! ## `loginMessageRecv` and `loginMessageSend` -/

def nameOff : Nat := 16
def nameSize : Nat := 50
def passwdOff : Nat := 66
def passwdSize : Nat := 20
def loginSize : Nat := 86

def resultOff : Nat := 16
def resultSize : Nat := 2
def loginReplySize : Nat := 18

/-! ## The client after the header -/

/-- `whichClientIdToSend`, `sendToClientId` of a `fileRecv`; on the way out
    `recvFromWhichClient` and `recvFromWhichId`. -/
def peerOff : Nat := 16
def peerId (p : Buf) : Int := p.getInt 4 peerOff

/-! ## `udpfileRecv` and `udpfileSend` -/

def countOff : Nat := 16
def timeOff : Nat := 20
def timeSize : Nat := 8
def udpPeerOff : Nat := 28
def filesizeOff : Nat := 32
def filenameOff : Nat := 36
def filenameSize : Nat := 10
def contextOff : Nat := 46
def contextSize : Nat := 1390

def count (p : Buf) : Int := p.getInt 4 countOff
def time (p : Buf) : Int := p.getInt timeSize timeOff
def udpPeerId (p : Buf) : Int := p.getInt 4 udpPeerOff
def filesize (p : Buf) : Int := p.getInt 4 filesizeOff

/-- On its way a chunk keeps the `head.length` bytes of its packet, but for the time and
    the client. -/
def Relayed (q p : Buf) : Prop := ∀ i < (length q).toNat, i < timeOff ∨ filesizeOff ≤ i → p i = q i

theorem Relayed.refl (q : Buf) : Relayed q q := fun _ _ _ => rfl

/-- The other fields before the file's bytes are those it was sent with. -/
theorem Relayed.getInt {q p : Buf} (h : Relayed q p) (hlen : contextOff ≤ length q) {off : Nat}
    (hoff : off + 4 ≤ timeOff ∨ filesizeOff ≤ off ∧ off + 4 ≤ contextOff) : p.getInt 4 off = q.getInt 4 off := by
  refine Mem.getInt_congr (Mem.read_eq_iff.mpr fun i hi => h _ ?_ ?_)
  · simp only [timeOff, filesizeOff, contextOff] at *
    omega
  · omega

theorem Relayed.cmdId {q p : Buf} (h : Relayed q p) (hlen : contextOff ≤ length q) : cmdId p = cmdId q :=
  h.getInt hlen (by decide)

theorem Relayed.userId {q p : Buf} (h : Relayed q p) (hlen : contextOff ≤ length q) : userId p = userId q :=
  h.getInt hlen (by decide)

theorem Relayed.length {q p : Buf} (h : Relayed q p) (hlen : contextOff ≤ length q) : length p = length q :=
  h.getInt hlen (by decide)

theorem Relayed.count {q p : Buf} (h : Relayed q p) (hlen : contextOff ≤ Proto.length q) : count p = count q :=
  h.getInt hlen (by decide)

theorem Relayed.filesize {q p : Buf} (h : Relayed q p) (hlen : contextOff ≤ Proto.length q) : filesize p = filesize q :=
  h.getInt hlen (by decide)

/-! ## `udpLoseNumRecv` and `udpLoseNumSend` -/

def numOff : Nat := 20
def loseNumOff : Nat := 24

def num (p : Buf) : Int := p.getInt 4 numOff
def loseNum (p : Buf) (i : Nat) : Int := p.getInt 4 (loseNumOff + 4 * i)

end Proto

end GroupeChat
