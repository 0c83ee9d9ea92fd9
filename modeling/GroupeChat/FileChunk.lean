/-
  GroupeChat.FileChunk — one chunk of a file from a client through the server to a client
  (`CmdModel::udpSendFile`, the server's UDPSENDFILE case, `CmdModel::writeFile`).

  The sender stores the chunk in the packet, then its fields, then copies the name with
  `strcpy` into a field of ten bytes in front of the chunk; `UserData::filename` holds up
  to 99. The server copies `head.length` bytes of the packet and puts the sender over the
  addressee. The receiver writes what stands behind the ten bytes, at an offset computed
  as an `int`.

  `intact_iff`: the count, the size of the file and the sender always arrive; the chunk
  arrives as it was exactly when what the name puts over it was there before, as with
  every name of less than ten bytes (`Fits.of_short`), and is written at its place exactly
  when the offset is an `int`. A name of ten bytes ends in the chunk's first byte
  (`a_name_of_ten_bytes`).
-/

import GroupeChat.ChatClient.SendFile
import GroupeChat.ChatClient.WriteFile
import GroupeChat.ChatServer.Retransmit

namespace GroupeChat

open Base ChatClient

/-! ## What `writeFile` hands on -/

namespace ChatClient.RecvFile

def fwritten (pack : Buf) : List UInt8 := pack.read Proto.contextOff (Proto.length pack - Proto.contextOff).toNat

def fseeked (pack : Buf) : Int := wrap 4 (Proto.contextSize * (Proto.count pack - 1))

theorem writeFile_hands_on {m : RecvFile} {pf : File} {pack : Buf} (hpf : m.pf = some pf)
    (hlen : Proto.contextOff ≤ Proto.length pack) (hmax : Proto.length pack ≤ Proto.contextOff + Proto.contextSize) :
    let written := ((pf.fseek (fseeked pack)).fwrite (fwritten pack)).2
    (m.writeFile pack (Proto.count pack)).pf = some written ∨
      (m.writeFile pack (Proto.count pack)).reports = m.reports ++ [written.content] := by
  unfold writeFile fseeked fwritten
  rw [hpf]
  dsimp only
  rw [if_neg (by omega)]
  split
  · exact Or.inr rfl
  · exact Or.inl rfl

end ChatClient.RecvFile

/-- A chunk that is sent: the call of `udpSendFile`, and the buffer that the server copies
    its packet to. -/
structure FileChunk where
  sender : SendFile
  sent : SendFile
  junk : Buf
  now : Int
  call : sender.udpSendFile junk now = some sent
  /-- `UserData::filename` holds the name and its NUL. -/
  held : sender.filename.length < UserData.filenameSize
  string : ∀ b ∈ sender.filename, b ≠ 0
  counted : 1 ≤ sent.sendFileCount
  /-- They are `int`s. -/
  userId : wrap 4 sender.userId = sender.userId
  fileSize : wrap 4 sender.fileSize = sender.fileSize
  serverJunk : Buf

namespace FileChunk

variable (x : FileChunk)

def chunk : List UInt8 := (x.sender.pf.fread Proto.contextSize).1

def packet : Buf := x.sender.udpsend x.junk x.now x.sent.sendFileCount x.chunk

/-- What the server queues for the addressee. -/
def arrived : Buf := ChatServer.udpcopy x.serverJunk x.packet

structure Intact : Prop where
  context : RecvFile.fwritten x.arrived = x.chunk
  offset : RecvFile.fseeked x.arrived = Proto.contextSize * (x.sent.sendFileCount - 1)
  count : Proto.count x.arrived = x.sent.sendFileCount
  filesize : Proto.filesize x.arrived = x.sender.fileSize
  userId : Proto.userId x.arrived = x.sender.userId

/-- Where the name runs into the chunk it finds its own bytes there, and the chunk's
    offset is an `int`. -/
structure Fits : Prop where
  name : ∀ i b, i < x.chunk.length → (x.sender.filename ++ [0])[Proto.filenameSize + i]? = some b → x.chunk[i]? = some b
  offset : Proto.contextSize * (x.sent.sendFileCount - 1) < 2147483648

variable {x}

/-- What the call did. -/
theorem called (x : FileChunk) : x.chunk.length ≠ 0 ∧ x.sent.sendFileCount = wrap 4 (x.sender.sendFileCount + 1) ∧
    x.sent.mWriteList = x.sender.mWriteList ++ [x.packet] := by
  have h := x.call
  unfold SendFile.udpSendFile at h
  dsimp only at h
  split at h
  · cases h
  · rename_i hne
    have h := Option.some.inj h
    have hcount : x.sent.sendFileCount = wrap 4 (x.sender.sendFileCount + 1) := by rw [← h]
    refine ⟨hne, hcount, ?_⟩
    unfold packet
    rw [hcount, ← h]
    rfl

theorem chunk_le (x : FileChunk) : x.chunk.length ≤ Proto.contextSize := List.length_take_le _ _

theorem packet_length (x : FileChunk) : Proto.length x.packet = Proto.contextOff + x.chunk.length := by
  have hle := x.chunk_le
  unfold packet
  rw [SendFile.length_udpsend]
  simp only [Proto.contextSize, Proto.contextOff] at *
  exact wrap_four (by omega) (by omega)

theorem relayed (x : FileChunk) : Proto.Relayed x.packet x.arrived := ChatServer.Cmd.udpcopy_relayed _ _

theorem packet_reaches (x : FileChunk) : Proto.contextOff ≤ Proto.length x.packet := by
  rw [packet_length]
  omega

/-- What the receiver writes is the chunk with the name over it. -/
theorem fwritten_eq_iff (x : FileChunk) : RecvFile.fwritten x.arrived = x.chunk ↔
    ∀ i b, i < x.chunk.length → (x.sender.filename ++ [0])[Proto.filenameSize + i]? = some b → x.chunk[i]? = some b := by
  have hlen : (Proto.length x.arrived - Proto.contextOff).toNat = x.chunk.length := by
    rw [x.relayed.length x.packet_reaches, x.packet_length]
    omega
  have hat : ∀ i (hi : i < x.chunk.length), x.arrived (Proto.contextOff + i) =
      ((x.sender.filename ++ [0])[Proto.filenameSize + i]?).getD x.chunk[i] := by
    intro i hi
    have hin : Proto.contextOff + i < (Proto.length x.packet).toNat := by
      rw [x.packet_length]
      omega
    rw [x.relayed _ hin (Or.inr (Nat.le_trans (by decide) (Nat.le_add_right Proto.contextOff i)))]
    exact SendFile.context_udpsend _ _ _ _ _ hi
  unfold RecvFile.fwritten
  rw [hlen]
  refine ⟨?_, ?_⟩
  · intro h i b hi hb
    have hread : x.arrived (Proto.contextOff + i) = x.chunk[i] := by
      have := congrArg (·[i]?) h
      simpa [Mem.getElem?_read, hi] using this
    rw [hat i hi, hb] at hread
    rw [List.getElem?_eq_getElem hi, ← hread]
    rfl
  · intro h
    apply List.ext_getElem
    · rw [Mem.read_length]
    · intro i hi hi'
      rw [Mem.getElem_read, hat i hi']
      cases hb : (x.sender.filename ++ [0])[Proto.filenameSize + i]? with
      | none => rfl
      | some b =>
        have := h i b hi' hb
        rw [List.getElem?_eq_getElem hi'] at this
        exact (Option.some.inj this).symm

/-- An `int` holds what it is given up to its largest value. -/
theorem offset_iff {count : Int} (h : 1 ≤ count) :
    wrap 4 (Proto.contextSize * (count - 1)) = Proto.contextSize * (count - 1) ↔
      Proto.contextSize * (count - 1) < 2147483648 := by
  refine ⟨?_, ?_⟩
  · intro heq
    rw [← heq]
    exact (wrap_four_bounds _).2
  · intro hlt
    refine wrap_four ?_ hlt
    simp only [Proto.contextSize]
    omega

/-- A name that fits its field, with its NUL, leaves the chunk alone. -/
theorem Fits.of_short (hname : x.sender.filename.length < Proto.filenameSize)
    (hoffset : Proto.contextSize * (x.sent.sendFileCount - 1) < 2147483648) : x.Fits := by
  refine ⟨fun i b _ hb => ?_, hoffset⟩
  rw [List.getElem?_eq_none] at hb
  · cases hb
  · rw [List.length_append, List.length_singleton]
    omega

theorem intact_iff (x : FileChunk) : x.Intact ↔ x.Fits := by
  obtain ⟨-, hcount, -⟩ := x.called
  have hwrap : wrap 4 x.sent.sendFileCount = x.sent.sendFileCount := by rw [hcount, wrap_wrap]
  have hnumber : Proto.count x.arrived = x.sent.sendFileCount := by
    rw [x.relayed.count x.packet_reaches]
    exact (SendFile.count_udpsend _ _ _ _ _).trans hwrap
  have hoffset : RecvFile.fseeked x.arrived = Proto.contextSize * (x.sent.sendFileCount - 1) ↔
      Proto.contextSize * (x.sent.sendFileCount - 1) < 2147483648 := by
    unfold RecvFile.fseeked
    rw [hnumber]
    exact offset_iff x.counted
  refine ⟨?_, ?_⟩
  · intro h
    exact ⟨x.fwritten_eq_iff.mp h.context, hoffset.mp h.offset⟩
  · intro h
    refine ⟨x.fwritten_eq_iff.mpr h.name, hoffset.mpr h.offset, hnumber, ?_, ?_⟩
    · rw [x.relayed.filesize x.packet_reaches]
      exact (SendFile.filesize_udpsend _ _ _ _ _).trans x.fileSize
    · rw [x.relayed.userId x.packet_reaches]
      exact (SendFile.userId_udpsend _ _ _ _ _).trans x.userId

/-- User 1 sends user 2 a file of one byte, a 1, under a name of ten bytes. -/
def tenBytes : SendFile :=
  { userId := 1
    sendFileToClientId := 2
    fileSize := 1
    sendFileCount := 0
    filename := List.replicate 10 'a'.toUInt8
    pf := .fopen false [1]
    mUdpSaveMap := ∅
    mWriteList := [] }

def tenBytesChunk : FileChunk :=
  { sender := tenBytes
    sent := _
    junk := fun _ => 0
    now := 0
    call := rfl
    held := by decide
    string := by
      intro b hb
      rw [List.eq_of_mem_replicate hb]
      decide
    counted := by decide
    userId := by decide
    fileSize := by decide
    serverJunk := fun _ => 0 }

/-- The NUL of the name takes the byte's place. -/
theorem a_name_of_ten_bytes : ¬ tenBytesChunk.Intact := by
  intro h
  have hname := tenBytesChunk.fwritten_eq_iff.mp h.context 0 0 (by decide) (by decide)
  revert hname
  decide

end FileChunk

end GroupeChat
