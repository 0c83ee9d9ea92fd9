/-
  GroupeChat.ChatClient.SendFile — how a client cuts a file into UDP packets
  (`CmdModel::udpSendFile`).

  Each call reads the next 1390 bytes, numbers them one further and queues the packet; a
  copy goes into `m_udpSaveMap` under the number. `SentFile` is a file whose packets are
  numbered by an `int`. The packet queued by call `c`, and every copy of it, is chunk `c`
  of the file (`sent_chunk`), and so is what the server makes of it (`Chunk.relayed`).
-/

import GroupeChat.Base.CString
import GroupeChat.Base.Run
import GroupeChat.Base.Stdio
import GroupeChat.Base.StdMap
import GroupeChat.Proto

namespace GroupeChat.ChatClient

open Base

structure SendFile where
  userId : Int
  sendFileToClientId : Int
  fileSize : Int
  sendFileCount : Int
  filename : List UInt8
  pf : File
  mUdpSaveMap : StdMap Int Buf
  mWriteList : List Buf

namespace SendFile

/-- The packet: `fread` has put `context` into it, the stores follow. -/
def udpsend (s : SendFile) (junk : Buf) (now count : Int) (context : List UInt8) : Buf :=
  (((((((((junk.write Proto.contextOff context).putInt 4 12 1).putInt 4 0 CmdId.udpSendFile.code).putInt 4 4
    s.userId).putInt 4 8 (16 + 20 + 10 + context.length)).putInt 4 Proto.countOff count).putInt Proto.timeSize
    Proto.timeOff now).putInt 4 Proto.udpPeerOff s.sendFileToClientId).putInt 4 Proto.filesizeOff s.fileSize).strcpy
    Proto.filenameOff s.filename

/-- `junk` is what the new buffer holds, `now` what `time(NULL)` gives; `none` is `exit(0)`
    after an empty `fread`. -/
def udpSendFile (s : SendFile) (junk : Buf) (now : Int) : Option SendFile :=
  let read := s.pf.fread Proto.contextSize
  if read.1.length = 0 then none
  else
    let sendFileCount := wrap 4 (s.sendFileCount + 1)
    let udpsend := s.udpsend junk now sendFileCount read.1
    some { s with
      pf := read.2
      sendFileCount := sendFileCount
      mUdpSaveMap := s.mUdpSaveMap.insertNew sendFileCount udpsend
      mWriteList := s.mWriteList ++ [udpsend] }

def step (s : SendFile) (e : Buf × Int) : Option SendFile := s.udpSendFile e.1 e.2

/-! ## The fields of the packet -/

variable (s : SendFile) (junk : Buf) (now count : Int) (context : List UInt8)

theorem cmdId_udpsend : Proto.cmdId (s.udpsend junk now count context) = CmdId.udpSendFile.code := by
  unfold udpsend Proto.cmdId Mem.strcpy
  rw [Mem.getInt_write_ne _ _ (Or.inl (by decide))]
  simp (disch := decide) only [Mem.getInt_putInt_ne, Mem.getInt_putInt]
  decide

theorem count_udpsend : Proto.count (s.udpsend junk now count context) = wrap 4 count := by
  unfold udpsend Proto.count Mem.strcpy
  rw [Mem.getInt_write_ne _ _ (Or.inl (by decide))]
  simp (disch := decide) only [Mem.getInt_putInt_ne, Mem.getInt_putInt]

theorem length_udpsend :
    Proto.length (s.udpsend junk now count context) = wrap 4 (Proto.contextOff + context.length) := by
  unfold udpsend Proto.length Mem.strcpy
  rw [Mem.getInt_write_ne _ _ (Or.inl (by decide))]
  simp (disch := decide) only [Mem.getInt_putInt_ne, Mem.getInt_putInt]
  rfl

theorem userId_udpsend : Proto.userId (s.udpsend junk now count context) = wrap 4 s.userId := by
  unfold udpsend Proto.userId Mem.strcpy
  rw [Mem.getInt_write_ne _ _ (Or.inl (by decide))]
  simp (disch := decide) only [Mem.getInt_putInt_ne, Mem.getInt_putInt]

theorem filesize_udpsend : Proto.filesize (s.udpsend junk now count context) = wrap 4 s.fileSize := by
  unfold udpsend Proto.filesize Mem.strcpy
  rw [Mem.getInt_write_ne _ _ (Or.inl (by decide)), Mem.getInt_putInt]

/-- The name is copied last: where it runs past its field it takes the place of the
    file's bytes. -/
theorem context_udpsend {i : Nat} (hi : i < context.length) :
    s.udpsend junk now count context (Proto.contextOff + i) =
      ((s.filename ++ [0])[Proto.filenameSize + i]?).getD context[i] := by
  have hbelow : Proto.filenameOff ≤ Proto.contextOff + i := by simp only [Proto.filenameOff, Proto.contextOff]; omega
  have hname : Proto.contextOff + i - Proto.filenameOff = Proto.filenameSize + i := by
    simp only [Proto.filenameOff, Proto.contextOff, Proto.filenameSize]
    omega
  have hput : ∀ (m : Buf) (w off : Nat) (v : Int), off + w ≤ Proto.contextOff →
      m.putInt w off v (Proto.contextOff + i) = m (Proto.contextOff + i) :=
    fun m w off v h => Mem.putInt_above w m v (Nat.le_trans h (Nat.le_add_right _ _))
  unfold udpsend Mem.strcpy
  rw [Mem.write, if_pos hbelow, hname]
  congr 1
  rw [hput _ _ _ _ (by decide), hput _ _ _ _ (by decide), hput _ _ _ _ (by decide), hput _ _ _ _ (by decide),
    hput _ _ _ _ (by decide), hput _ _ _ _ (by decide), hput _ _ _ _ (by decide), hput _ _ _ _ (by decide)]
  exact Mem.write_at junk context Proto.contextOff hi

end SendFile

/-! ## A file and its chunks -/

def chunkCount (bytes : List UInt8) : Nat := (bytes.length + (Proto.contextSize - 1)) / Proto.contextSize

structure SentFile where
  bytes : List UInt8
  name : List UInt8
  userId : Int
  sendFileToClientId : Int
  /-- The name and its NUL fit the packet's field. -/
  name_fits : name.length < Proto.filenameSize
  /-- `count` is an `int`. -/
  numbered : chunkCount bytes < 2147483648

namespace SentFile

/-- When `startTransfer` is set: `getFileSize` gives an `int`. -/
def sender (f : SentFile) : SendFile :=
  { userId := f.userId
    sendFileToClientId := f.sendFileToClientId
    fileSize := wrap 4 f.bytes.length
    sendFileCount := 0
    filename := f.name
    pf := .fopen false f.bytes
    mUdpSaveMap := ∅
    mWriteList := [] }

def chunk (f : SentFile) (c : Nat) : List UInt8 :=
  (f.bytes.drop (Proto.contextSize * (c - 1))).take Proto.contextSize

theorem chunk_length (f : SentFile) (c : Nat) :
    (f.chunk c).length = min Proto.contextSize (f.bytes.length - Proto.contextSize * (c - 1)) := by
  simp [chunk]

/-- The packet of chunk `c`, as far as a receiver reads it. -/
structure Chunk (f : SentFile) (c : Nat) (p : Buf) : Prop where
  pos : 0 < c
  le : c ≤ chunkCount f.bytes
  cmdId : Proto.cmdId p = CmdId.udpSendFile.code
  count : Proto.count p = c
  length : Proto.length p = Proto.contextOff + (f.chunk c).length
  filesize : Proto.filesize p = wrap 4 f.bytes.length
  context : p.read Proto.contextOff (f.chunk c).length = f.chunk c

theorem Chunk.relayed {f : SentFile} {c : Nat} {q p : Buf} (h : f.Chunk c q) (hr : Proto.Relayed q p) :
    f.Chunk c p := by
  have hlen := h.length
  have hle : Proto.contextOff ≤ Proto.length q := by omega
  refine ⟨h.pos, h.le, (hr.cmdId hle).trans h.cmdId, (hr.count hle).trans h.count, (hr.length hle).trans h.length,
    (hr.filesize hle).trans h.filesize, ?_⟩
  refine Eq.trans (Mem.read_eq_iff.mpr fun i hi => hr _ (by omega) (Or.inr ?_)) h.context
  simp only [Proto.filesizeOff, Proto.contextOff]
  omega

/-! ## The calls -/

/-- What `udpSendFile` builds in its call `c + 1`. -/
theorem sender_chunk (f : SentFile) {c : Nat} (junk : Buf) (now : Int) (hc : c < chunkCount f.bytes) :
    f.Chunk (c + 1) (f.sender.udpsend junk now (c + 1 : Nat) (f.chunk (c + 1))) := by
  have hlen : (f.chunk (c + 1)).length ≤ Proto.contextSize := by
    rw [chunk_length]
    exact Nat.min_le_left _ _
  have hnum := f.numbered
  refine ⟨Nat.succ_pos c, hc, SendFile.cmdId_udpsend _ _ _ _ _, ?_, ?_, ?_, ?_⟩
  · rw [SendFile.count_udpsend]
    exact wrap_four (by omega) (by omega)
  · rw [SendFile.length_udpsend]
    simp only [Proto.contextSize, Proto.contextOff] at *
    exact wrap_four (by omega) (by omega)
  · rw [SendFile.filesize_udpsend]
    exact wrap_wrap 4 _
  · apply List.ext_getElem
    · rw [Mem.read_length]
    · intro i hi hi'
      have hshort : (f.name ++ [0])[Proto.filenameSize + i]? = none := by
        have := f.name_fits
        rw [List.getElem?_eq_none]
        simp only [List.length_append, List.length_singleton]
        omega
      rw [Mem.getElem_read, SendFile.context_udpsend _ _ _ _ _ hi']
      show ((f.name ++ [0])[Proto.filenameSize + i]?).getD _ = _
      rw [hshort]
      rfl

structure Sending (f : SentFile) (c : Nat) (s : SendFile) : Prop where
  user : s.userId = f.userId
  peer : s.sendFileToClientId = f.sendFileToClientId
  size : s.fileSize = wrap 4 f.bytes.length
  name : s.filename = f.name
  content : s.pf.content = f.bytes
  pos : s.pf.pos = min (Proto.contextSize * c) f.bytes.length
  count : s.sendFileCount = c
  le : c ≤ chunkCount f.bytes
  queued : ∀ i q, s.mWriteList[i]? = some q → f.Chunk (i + 1) q
  length : s.mWriteList.length = c
  saved : ∀ k q, s.mUdpSaveMap.find? k = some q → ∃ i : Nat, k = i ∧ f.Chunk i q

theorem sender_sending (f : SentFile) : Sending f 0 f.sender :=
  ⟨rfl, rfl, rfl, rfl, rfl, by simp [sender, File.fopen], rfl, Nat.zero_le _, nofun, rfl, nofun⟩

theorem lt_chunkCount {bytes : List UInt8} {c : Nat} : c < chunkCount bytes ↔ Proto.contextSize * c < bytes.length := by
  unfold chunkCount
  simp only [Proto.contextSize]
  omega

/-- Before the last chunk a call reads the next one and queues it. -/
theorem step_eq {f : SentFile} {c : Nat} {s : SendFile} (e : Buf × Int) (h : Sending f c s) (hc : c < chunkCount f.bytes) :
    s.step e = some { s with
      pf := { s.pf with pos := Proto.contextSize * c + (f.chunk (c + 1)).length, eof := (s.pf.fread Proto.contextSize).2.eof }
      sendFileCount := (c + 1 : Nat)
      mUdpSaveMap := s.mUdpSaveMap.insertNew (c + 1 : Nat) (f.sender.udpsend e.1 e.2 (c + 1 : Nat) (f.chunk (c + 1)))
      mWriteList := s.mWriteList ++ [f.sender.udpsend e.1 e.2 (c + 1 : Nat) (f.chunk (c + 1))] } := by
  have hlt := lt_chunkCount.mp hc
  have hpos : s.pf.pos = Proto.contextSize * c := by
    rw [h.pos]
    exact Nat.min_eq_left (Nat.le_of_lt hlt)
  have hcontext : (s.pf.fread Proto.contextSize).1 = f.chunk (c + 1) := by
    rw [File.fread, h.content, hpos, chunk, Nat.add_sub_cancel]
  have hread : (s.pf.fread Proto.contextSize).2 = { s.pf with
      pos := Proto.contextSize * c + (f.chunk (c + 1)).length, eof := (s.pf.fread Proto.contextSize).2.eof } := by
    rw [← hcontext, ← hpos, File.fread]
  have hcount : wrap 4 (s.sendFileCount + 1) = (c + 1 : Nat) := by
    have := f.numbered
    rw [h.count]
    exact wrap_four (by omega) (by omega)
  have hne : (f.chunk (c + 1)).length ≠ 0 := by
    rw [chunk_length, Nat.add_sub_cancel]
    simp only [Proto.contextSize] at *
    omega
  have hsame : s.udpsend e.1 e.2 (c + 1 : Nat) (f.chunk (c + 1)) =
      f.sender.udpsend e.1 e.2 (c + 1 : Nat) (f.chunk (c + 1)) := by
    simp only [SendFile.udpsend, h.user, h.peer, h.size, h.name, sender]
  unfold SendFile.step SendFile.udpSendFile
  dsimp only
  rw [hcontext, hcount, if_neg hne, hsame, hread]

/-- After the last one it exits. -/
theorem step_none {f : SentFile} {c : Nat} {s : SendFile} (e : Buf × Int) (h : Sending f c s) (hc : ¬ c < chunkCount f.bytes) :
    s.step e = none := by
  unfold SendFile.step SendFile.udpSendFile
  dsimp only
  rw [if_pos]
  rw [lt_chunkCount] at hc
  simp only [File.fread, h.content, h.pos, List.length_take, List.length_drop]
  omega

theorem step_sending {f : SentFile} {c : Nat} {s s' : SendFile} {e : Buf × Int} (h : Sending f c s)
    (hs : s.step e = some s') : c < chunkCount f.bytes ∧ Sending f (c + 1) s' := by
  by_cases hc : c < chunkCount f.bytes
  · have hchunk := f.sender_chunk e.1 e.2 hc
    rw [step_eq e h hc] at hs
    obtain rfl := Option.some.inj hs
    refine ⟨hc, ⟨h.user, h.peer, h.size, h.name, h.content, ?_, rfl, hc, fun i q hq => ?_, ?_, fun k q hk => ?_⟩⟩
    · have hlt := lt_chunkCount.mp hc
      simp only [chunk_length, Nat.add_sub_cancel, Nat.mul_succ]
      omega
    · have hlen := h.length
      dsimp only at hq
      by_cases hi : i < s.mWriteList.length
      · rw [List.getElem?_append_left hi] at hq
        exact h.queued i q hq
      · rw [List.getElem?_append_right (by omega)] at hq
        obtain ⟨hj, rfl⟩ := List.getElem?_eq_some_iff.mp hq
        have : i = c := by
          simp only [List.length_singleton] at hj
          omega
        subst this
        simpa using hchunk
    · rw [List.length_append, h.length]
      rfl
    · rcases StdMap.of_find?_insertNew hk with hold | ⟨hkey, rfl⟩
      · exact h.saved k q hold
      · exact ⟨c + 1, hkey, hchunk⟩
  · rw [step_none e h hc] at hs
    cases hs

theorem run_sending {f : SentFile} {es : List (Buf × Int)} {s : SendFile}
    (h : run SendFile.step f.sender es = some s) : ∃ c, Sending f c s :=
  run_inv (I := fun s => ∃ c, Sending f c s) (fun _ _ _ ⟨c, hc⟩ hs => ⟨c + 1, (step_sending hc hs).2⟩)
    ⟨0, f.sender_sending⟩ h

/-- The packet numbered `c` that some calls of `udpSendFile` have queued, or saved. -/
def Sent (f : SentFile) (c : Nat) (q : Buf) : Prop :=
  ∃ es s, run SendFile.step f.sender es = some s ∧
    (0 < c ∧ s.mWriteList[c - 1]? = some q ∨ s.mUdpSaveMap.find? c = some q)

/-- What is sent, first or again, is a chunk of the file. -/
theorem sent_chunk {f : SentFile} {c : Nat} {q : Buf} (h : f.Sent c q) : f.Chunk c q := by
  obtain ⟨es, s, hrun, hq⟩ := h
  obtain ⟨n, hs⟩ := run_sending hrun
  rcases hq with ⟨hc, hq⟩ | hq
  · have := hs.queued _ _ hq
    rwa [Nat.sub_add_cancel hc] at this
  · obtain ⟨i, hi, h⟩ := hs.saved _ _ hq
    rwa [Int.ofNat_inj.mp hi]

def packet (f : SentFile) (c : Nat) : Buf := f.sender.udpsend (fun _ => 0) 0 c (f.chunk c)

theorem run_packets (f : SentFile) {n : Nat} (hn : n ≤ chunkCount f.bytes) :
    ∃ s, run SendFile.step f.sender (List.replicate n (fun _ => 0, 0)) = some s ∧ Sending f n s ∧
      ∀ i < n, s.mWriteList[i]? = some (f.packet (i + 1)) := by
  induction n with
  | zero => exact ⟨f.sender, rfl, f.sender_sending, nofun⟩
  | succ n ih =>
    obtain ⟨s, hrun, hs, hq⟩ := ih (Nat.le_of_succ_le hn)
    have hstep := step_eq (fun _ => 0, 0) hs hn
    refine ⟨_, ?_, (step_sending hs hstep).2, fun i hi => ?_⟩
    · rw [List.replicate_succ', run_append hrun, run_cons hstep]
      rfl
    · dsimp only
      by_cases hlt : i < n
      · rw [List.getElem?_append_left (by rw [hs.length]; exact hlt)]
        exact hq i hlt
      · have : i = s.mWriteList.length := by
          rw [hs.length]
          omega
        subst this
        rw [List.getElem?_concat_length, hs.length]
        rfl

theorem packet_sent (f : SentFile) {c : Nat} (hpos : 0 < c) (hle : c ≤ chunkCount f.bytes) : f.Sent c (f.packet c) := by
  obtain ⟨s, hrun, -, hq⟩ := f.run_packets hle
  refine ⟨_, s, hrun, Or.inl ⟨hpos, ?_⟩⟩
  have := hq (c - 1) (by omega)
  rwa [Nat.sub_add_cancel hpos] at this

end SentFile

end GroupeChat.ChatClient
