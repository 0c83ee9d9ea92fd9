/-
  GroupeChat.ChatClient.Transfers — file after file (`CmdModel::StartSendFile` on one
  thread, `CmdModel::dealWithMessage` on another).

  A client sends with `sendFileCount`, `m_udpSaveMap` and `pf` and receives with
  `nowPackNum`, `m_udpMap`, `recvFileSize` and the same `pf`. The end of a file sent
  resets none of them; that of a file received resets `sendFileCount` and `recvFileSize`,
  and closes whatever `pf` is. `Client` is the two threads call by call, `Transfers` adds
  what a run has done.

  `Independent`: every chunk sent carries its number within its file, the packet kept
  under a number is the last sent under it, every chunk that has arrived has been written
  to its file once, and no closed stream is used. `independent_iff_apart`: it holds all
  along exactly the runs in which
  - each round of the send loop finds a stream open, and before a chunk it finds that the
    chunks sent since the client last had a file complete are those of this file, and no
    other packet kept under the chunk's number;
  - each chunk that comes for the first time finds its own file open and carries a number
    that none before it carried.

  A second file is numbered on from the first (`a_second_file`).
-/

import GroupeChat.ChatClient.Reassembly

namespace GroupeChat.ChatClient

open Base

/-- What the two threads use of `UserData` and `CmdModel`. -/
structure Client extends RecvFile where
  userId : Int
  sendFileToClientId : Int
  fileSize : Int
  filename : List UInt8
  startTransfer : Bool
  mUdpSaveMap : StdMap Int Buf
  mWriteList : List Buf

namespace Client

def new (userId sendFileToClientId fileSize : Int) (filename : List UInt8) : Client :=
  { RecvFile.new with
    userId := userId
    sendFileToClientId := sendFileToClientId
    fileSize := fileSize
    filename := filename
    startTransfer := false
    mUdpSaveMap := ∅
    mWriteList := [] }

/-- What case 3 of `printCmdIdList` keeps. -/
def chooseFile (s : Client) (filename : List UInt8) (sayToClientId : Int) : Client :=
  { s with sendFileToClientId := sayToClientId, filename := filename }

/-- The FILERET case of `dealWithMessage` for a "Y", where the file holds `content`. -/
def fileRet (s : Client) (content : List UInt8) : Client :=
  { s with fileSize := wrap 4 content.length, pf := some (.fopen false content), startTransfer := true }

def recvFileDecide (s : Client) (c : UInt8) (there : List UInt8) : Client :=
  { s with toRecvFile := s.toRecvFile.recvFileDecide c there }

def dealWithUdpSendFile (s : Client) (pack : Buf) : Client :=
  { s with toRecvFile := s.toRecvFile.dealWithUdpSendFile pack }

/-- What `udpSendFile` finds. -/
def sender (s : Client) (pf : File) : SendFile :=
  { userId := s.userId
    sendFileToClientId := s.sendFileToClientId
    fileSize := s.fileSize
    sendFileCount := s.sendFileCount
    filename := s.filename
    pf := pf
    mUdpSaveMap := s.mUdpSaveMap
    mWriteList := s.mWriteList }

def udpSendFile (s : Client) (pf : File) (junk : Buf) (now : Int) : Option Client :=
  ((s.sender pf).udpSendFile junk now).map fun t =>
    { s with
      pf := some t.pf
      sendFileCount := t.sendFileCount
      mUdpSaveMap := t.mUdpSaveMap
      mWriteList := t.mWriteList }

/-- A round of the loop: `feof` of a stream that is closed, or the end of the file, or the
    next chunk. -/
def startSendFile (s : Client) (junk : Buf) (now : Int) : Option Client :=
  if s.startTransfer then
    match s.pf with
    | none => some { s with faulted := true }
    | some pf => if pf.eof then some { s with pf := none, startTransfer := false } else s.udpSendFile pf junk now
  else some s

def evict (s : Client) (count now : Int) : Option Client :=
  match s.mUdpSaveMap.find? count with
  | none => none
  | some tmp => if 200 < now - Proto.time tmp then some { s with mUdpSaveMap := s.mUdpSaveMap.remove count } else none

/-- The answer to a UDPRESEND. -/
def resend (s : Client) (pack : Buf) : Client :=
  let resent := (List.range (Proto.num pack).toNat).filterMap fun i => s.mUdpSaveMap.find? (Proto.loseNum pack i)
  { s with mWriteList := s.mWriteList ++ resent }

def nextChunk (s : Client) (pf : File) (junk : Buf) (now count : Int) : Buf :=
  (s.sender pf).udpsend junk now count (pf.fread Proto.contextSize).1

inductive Round (s : Client) (junk : Buf) (now : Int) : Client → Prop where
  | idle (h : s.startTransfer = false) : Round s junk now s
  | closed (h : s.startTransfer = true) (hpf : s.pf = none) : Round s junk now { s with faulted := true }
  | done (pf : File) (h : s.startTransfer = true) (hpf : s.pf = some pf) (heof : pf.eof = true) :
      Round s junk now { s with pf := none, startTransfer := false }
  | sent (pf : File) (count : Int) (h : s.startTransfer = true) (hpf : s.pf = some pf) (heof : pf.eof = false)
      (hcount : count = wrap 4 (s.sendFileCount + 1)) :
      Round s junk now { s with
        pf := some (pf.fread Proto.contextSize).2
        sendFileCount := count
        mUdpSaveMap := s.mUdpSaveMap.insertNew count (s.nextChunk pf junk now count)
        mWriteList := s.mWriteList ++ [s.nextChunk pf junk now count] }

theorem startSendFile_round {s c : Client} {junk : Buf} {now : Int} (h : s.startSendFile junk now = some c) :
    s.Round junk now c := by
  unfold startSendFile at h
  split at h
  · rename_i hstart
    split at h
    · rename_i hpf
      obtain rfl := Option.some.inj h
      exact .closed hstart hpf
    · rename_i pf hpf
      split at h
      · rename_i heof
        obtain rfl := Option.some.inj h
        exact .done pf hstart hpf heof
      · rename_i heof
        obtain ⟨t, ht, rfl⟩ := Option.map_eq_some_iff.mp h
        simp only [SendFile.udpSendFile] at ht
        split at ht
        · cases ht
        · obtain rfl := Option.some.inj ht
          exact .sent pf _ hstart hpf (Bool.eq_false_iff.mpr heof) rfl
  · rename_i hstart
    obtain rfl := Option.some.inj h
    exact .idle (Bool.eq_false_iff.mpr hstart)

end Client

/-! ## What comes in -/

/-- What some client's `udpSendFile` has built, while its `sendFileCount` has not run over. -/
def Built (q : Buf) : Prop :=
  ∃ (s s' : SendFile) (junk : Buf) (now : Int), s.udpSendFile junk now = some s' ∧
    s'.mWriteList = s.mWriteList ++ [q] ∧ 0 < s'.sendFileCount

/-- The fields by which it is taken in. -/
theorem Built.fields {q : Buf} (h : Built q) :
    0 < Proto.count q ∧ Proto.contextOff ≤ Proto.length q ∧ Proto.length q ≤ Proto.contextOff + Proto.contextSize := by
  obtain ⟨s, s', junk, now, hs, hq, hpos⟩ := h
  simp only [SendFile.udpSendFile] at hs
  split at hs
  · cases hs
  · obtain rfl := Option.some.inj hs
    obtain rfl := List.singleton_inj.mp (List.append_cancel_left hq)
    have hle : (s.pf.fread Proto.contextSize).1.length ≤ Proto.contextSize := List.length_take_le _ _
    have hlen : wrap 4 (Proto.contextOff + (s.pf.fread Proto.contextSize).1.length) =
        Proto.contextOff + (s.pf.fread Proto.contextSize).1.length := by
      simp only [Proto.contextSize, Proto.contextOff] at *
      exact wrap_four (by omega) (by omega)
    rw [SendFile.count_udpsend, wrap_wrap, SendFile.length_udpsend, hlen]
    exact ⟨hpos, by omega, by omega⟩

/-- The files that others send to the client: chunk `c` of file `t` as its sender built
    it, under whatever number. -/
structure Incoming where
  pack : Nat → Nat → Buf
  built : ∀ t c, Built (pack t c)

def Incoming.number (inc : Incoming) (x : Nat × Nat) : Nat := (Proto.count (inc.pack x.1 x.2)).toNat

structure Incoming.Arrival (inc : Incoming) where
  transfer : Nat
  chunk : Nat
  pack : Buf
  relayed : Proto.Relayed (inc.pack transfer chunk) pack

def Incoming.Arrival.id {inc : Incoming} (a : inc.Arrival) : Nat × Nat := (a.transfer, a.chunk)

theorem Incoming.number_pos (inc : Incoming) (x : Nat × Nat) : 0 < inc.number x := by
  have := (inc.built x.1 x.2).fields.1
  unfold number
  omega

theorem Incoming.number_lt (inc : Incoming) (x : Nat × Nat) : inc.number x < 2147483648 := by
  have : Proto.count (inc.pack x.1 x.2) < 2147483648 := (Mem.getInt_four_bounds _ _).2
  unfold number
  omega

theorem Incoming.Arrival.count {inc : Incoming} (a : inc.Arrival) : Proto.count a.pack = inc.number a.id := by
  have hf := (inc.built a.transfer a.chunk).fields
  rw [a.relayed.count hf.2.1]
  show _ = ((Proto.count (inc.pack a.transfer a.chunk)).toNat : Int)
  omega

theorem Incoming.Arrival.length {inc : Incoming} (a : inc.Arrival) :
    Proto.contextOff ≤ Proto.length a.pack ∧ Proto.length a.pack ≤ Proto.contextOff + Proto.contextSize := by
  have hf := (inc.built a.transfer a.chunk).fields
  rw [a.relayed.length hf.2.1]
  exact hf.2

/-! ## Runs -/

structure Sent where
  transfer : Nat
  chunk : Nat
  pack : Buf

structure Transfers where
  client : Client
  /-- The files sent, with the one under way. -/
  transfers : Nat
  /-- The chunks sent of the last of them. -/
  chunks : Nat
  /-- The chunks sent since the client started, or last had a file complete. -/
  sinceComplete : Nat
  /-- The latest first. -/
  sent : List Sent
  /-- The file that `pf` is open to write. -/
  receiving : Option Nat
  arrived : List (Nat × Nat)
  /-- The chunks that have been written to their own files. -/
  written : List (Nat × Nat)

namespace Transfers

inductive Ev (inc : Incoming) where
  | chooseFile (filename : List UInt8) (sayToClientId : Int)
  | fileRet (content : List UInt8)
  | startSendFile (junk : Buf) (now : Int)
  | evict (count now : Int)
  | resend (pack : Buf)
  /-- The user answers `c` to the offer of file `transfer`. -/
  | recvFileDecide (transfer : Nat) (c : UInt8) (there : List UInt8)
  | arrive (a : inc.Arrival)

def init (client : Client) : Transfers := ⟨client, 0, 0, 0, [], none, [], []⟩

def stillOpen (s : Transfers) (client : Client) : Option Nat := if client.pf.isSome then s.receiving else none

/-- After a round of the send loop. -/
def sentOff (s : Transfers) (client : Client) : Transfers :=
  match client.mWriteList.drop s.client.mWriteList.length with
  | [] => { s with client := client, receiving := s.stillOpen client }
  | pack :: _ =>
    { s with
      client := client
      chunks := s.chunks + 1
      sinceComplete := s.sinceComplete + 1
      sent := ⟨s.transfers, s.chunks + 1, pack⟩ :: s.sent }

/-- After `a` has been dealt with; what the case writes when it comes to `writeFile` is
    `RecvFile.deal_writes`, and else it does nothing (`RecvFile.deal_of_not_comes`). -/
def tookIn {inc : Incoming} (s : Transfers) (a : inc.Arrival) (client : Client) : Transfers :=
  { s with
    client := client
    sinceComplete := if client.reports = s.client.reports then s.sinceComplete else 0
    receiving := s.stillOpen client
    arrived := s.arrived ++ [a.id]
    written :=
      if s.client.comesToWriteFile a.pack ∧ s.receiving = some a.transfer then s.written ++ [a.id] else s.written }

def next {inc : Incoming} (s : Transfers) : Ev inc → Option Transfers
  | .chooseFile filename sayToClientId => some { s with client := s.client.chooseFile filename sayToClientId }
  | .fileRet content =>
    some { s with client := s.client.fileRet content, transfers := s.transfers + 1, chunks := 0, receiving := none }
  | .startSendFile junk now => (s.client.startSendFile junk now).map s.sentOff
  | .evict count now => (s.client.evict count now).map fun client => { s with client := client }
  | .resend pack => some { s with client := s.client.resend pack }
  | .recvFileDecide transfer c there =>
    some { s with
      client := s.client.recvFileDecide c there
      receiving := if c = 'y'.toUInt8 then some transfer else s.receiving }
  | .arrive a => some (s.tookIn a (s.client.dealWithUdpSendFile a.pack))

def step {inc : Incoming} (s : Transfers) (e : Ev inc) : Option Transfers :=
  if s.client.faulted = true then none else s.next e

def lastSent (s : Transfers) (count : Int) : Option Buf :=
  (s.sent.find? fun e => decide (Proto.count e.pack = count)).map Sent.pack

structure Independent (s : Transfers) : Prop where
  numbered : ∀ e ∈ s.sent, Proto.count e.pack = e.chunk
  kept : ∀ c q, s.client.mUdpSaveMap.find? c = some q → s.lastSent c = some q
  written : ∀ x ∈ s.arrived, s.written.count x = 1
  sound : s.client.faulted = false

def Apart {inc : Incoming} (s : Transfers) : Ev inc → Prop
  | .startSendFile junk now => s.client.startTransfer = true → ∃ pf, s.client.pf = some pf ∧ (pf.eof = false →
      s.chunks = s.sinceComplete ∧ s.chunks + 1 < 2147483648 ∧
      ∀ q, s.client.mUdpSaveMap.find? (s.chunks + 1 : Nat) = some q →
        q = s.client.nextChunk pf junk now (s.chunks + 1 : Nat))
  | .arrive a => a.id ∉ s.arrived →
      s.receiving = some a.transfer ∧ ∀ x ∈ s.arrived, inc.number x ≠ inc.number a.id
  | _ => True

structure Inv (inc : Incoming) (s : Transfers) : Prop where
  independent : Independent s
  count : s.client.sendFileCount = s.sinceComplete
  fits : s.sinceComplete < 2147483648
  tracking : s.client.Tracking (s.arrived.map inc.number)
  written : ∀ x ∈ s.written, x ∈ s.arrived
  receiving : ∀ t, s.receiving = some t → ∃ pf, s.client.pf = some pf ∧ pf.append = true

theorem init_inv (inc : Incoming) (userId sendFileToClientId fileSize : Int) (filename : List UInt8) :
    Inv inc (init (.new userId sendFileToClientId fileSize filename)) := by
  refine ⟨⟨nofun, nofun, nofun, rfl⟩, rfl, ?_, ?_, nofun, nofun⟩
  · show 0 < 2147483648
    decide
  · exact RecvFile.new_tracking.congr rfl rfl

/-! ## What a step preserves -/

/-- A step that sends nothing and takes in nothing. -/
theorem Inv.frame {inc : Incoming} {s s' : Transfers} (hi : Inv inc s) (hsent : s'.sent = s.sent)
    (harrived : s'.arrived = s.arrived) (hwritten : s'.written = s.written)
    (hsince : s'.sinceComplete = s.sinceComplete) (hcount : s'.client.sendFileCount = s.client.sendFileCount)
    (hnow : s'.client.nowPackNum = s.client.nowPackNum) (hmap : s'.client.mUdpMap = s.client.mUdpMap)
    (hfault : s'.client.faulted = s.client.faulted)
    (hkept : ∀ c q, s'.client.mUdpSaveMap.find? c = some q → s.client.mUdpSaveMap.find? c = some q)
    (hreceiving : ∀ t, s'.receiving = some t → ∃ pf, s'.client.pf = some pf ∧ pf.append = true) : Inv inc s' := by
  have hind := hi.independent
  refine ⟨⟨?_, fun c q hq => ?_, ?_, ?_⟩, ?_, ?_, ?_, ?_, hreceiving⟩
  · rw [hsent]
    exact hind.numbered
  · rw [lastSent, hsent]
    exact hind.kept c q (hkept c q hq)
  · rw [harrived, hwritten]
    exact hind.written
  · rw [hfault]
    exact hind.sound
  · rw [hcount, hsince]
    exact hi.count
  · rw [hsince]
    exact hi.fits
  · rw [harrived]
    exact hi.tracking.congr hnow hmap
  · rw [harrived, hwritten]
    exact hi.written

theorem evict_inv {inc : Incoming} {s s' : Transfers} {count now : Int} (hi : Inv inc s)
    (h : s.next (.evict count now : Ev inc) = some s') : Inv inc s' := by
  obtain ⟨client, hevict, rfl⟩ := Option.map_eq_some_iff.mp h
  unfold Client.evict at hevict
  split at hevict
  · cases hevict
  · split at hevict
    · obtain rfl := Option.some.inj hevict
      exact hi.frame rfl rfl rfl rfl rfl rfl rfl rfl (fun c q hq => (StdMap.of_find?_remove hq).2) hi.receiving
    · cases hevict

theorem recvFileDecide_inv {inc : Incoming} {s s' : Transfers} {transfer : Nat} {c : UInt8} {there : List UInt8}
    (hi : Inv inc s) (h : s.next (.recvFileDecide transfer c there : Ev inc) = some s') : Inv inc s' := by
  obtain rfl := Option.some.inj h
  unfold Client.recvFileDecide RecvFile.recvFileDecide
  by_cases hc : c = 'y'.toUInt8
  · simp only [if_pos hc]
    exact hi.frame rfl rfl rfl rfl rfl rfl rfl rfl (fun _ _ hq => hq) fun _ _ => ⟨_, rfl, rfl⟩
  · simp only [if_neg hc]
    exact hi.frame rfl rfl rfl rfl rfl rfl rfl rfl (fun _ _ hq => hq) hi.receiving

/-! ## The send loop -/

theorem sentOff_nothing {s : Transfers} {client : Client} (h : client.mWriteList = s.client.mWriteList) :
    s.sentOff client = { s with client := client, receiving := s.stillOpen client } := by
  rw [sentOff, h, List.drop_length]

theorem sentOff_chunk {s : Transfers} {client : Client} {pack : Buf}
    (h : client.mWriteList = s.client.mWriteList ++ [pack]) :
    s.sentOff client = { s with
      client := client
      chunks := s.chunks + 1
      sinceComplete := s.sinceComplete + 1
      sent := ⟨s.transfers, s.chunks + 1, pack⟩ :: s.sent } := by
  rw [sentOff, h, List.drop_left]

theorem stillOpen_some {s : Transfers} {client : Client} {t : Nat} (h : s.stillOpen client = some t) :
    s.receiving = some t ∧ client.pf.isSome = true := by
  unfold stillOpen at h
  split at h
  · rename_i hopen
    exact ⟨h, hopen⟩
  · cases h

/-- The latest packet is the last sent under its number, and changes no other. -/
theorem lastSent_cons {s s' : Transfers} {e : Sent} (h : s'.sent = e :: s.sent) (c : Int) :
    s'.lastSent c = if Proto.count e.pack = c then some e.pack else s.lastSent c := by
  rw [lastSent, h, List.find?_cons]
  by_cases hc : Proto.count e.pack = c
  · rw [if_pos hc, decide_eq_true hc]
    rfl
  · rw [if_neg hc, decide_eq_false hc]
    rfl

/-- `sendFileCount` goes up to the chunk's number. -/
theorem Inv.nextNumber {inc : Incoming} {s : Transfers} (hi : Inv inc s) (hchunks : s.chunks = s.sinceComplete)
    (hfits : s.chunks + 1 < 2147483648) : wrap 4 (s.client.sendFileCount + 1) = (s.chunks + 1 : Nat) := by
  rw [hi.count, hchunks]
  exact wrap_four (by omega) (by omega)

/-- And to no other. -/
theorem Inv.of_nextNumber {inc : Incoming} {s : Transfers} (hi : Inv inc s)
    (h : wrap 4 (s.client.sendFileCount + 1) = (s.chunks + 1 : Nat)) :
    s.chunks = s.sinceComplete ∧ s.chunks + 1 < 2147483648 := by
  have hfits := hi.fits
  have hbounds := wrap_four_bounds (s.client.sendFileCount + 1)
  rw [hi.count] at h hbounds
  by_cases hlt : s.sinceComplete + 1 < 2147483648
  · rw [wrap_four (by omega) (by omega)] at h
    omega
  · have hover : wrap 4 ((s.sinceComplete : Int) + 1) = -2147483648 := by
      rw [show (s.sinceComplete : Int) + 1 = 2147483648 by omega]
      decide
    omega

/-- The packet is the last sent under the number it carries. -/
theorem count_nextChunk (s : Client) (pf : File) (junk : Buf) (now : Int) {n : Nat} (h : n < 2147483648) :
    Proto.count (s.nextChunk pf junk now n) = n := by
  rw [Client.nextChunk, SendFile.count_udpsend]
  exact wrap_four (by omega) (by omega)

/-- A chunk goes out as it should. -/
theorem sent_inv {inc : Incoming} {s : Transfers} {pf : File} {junk : Buf} {now : Int} (hi : Inv inc s)
    (hpf : s.client.pf = some pf) (hchunks : s.chunks = s.sinceComplete) (hfits : s.chunks + 1 < 2147483648)
    (hkept : ∀ q, s.client.mUdpSaveMap.find? (s.chunks + 1 : Nat) = some q →
      q = s.client.nextChunk pf junk now (s.chunks + 1 : Nat)) :
    Inv inc { s with
      client := { s.client with
        pf := some (pf.fread Proto.contextSize).2
        sendFileCount := (s.chunks + 1 : Nat)
        mUdpSaveMap := s.client.mUdpSaveMap.insertNew (s.chunks + 1 : Nat)
          (s.client.nextChunk pf junk now (s.chunks + 1 : Nat))
        mWriteList := s.client.mWriteList ++ [s.client.nextChunk pf junk now (s.chunks + 1 : Nat)] }
      chunks := s.chunks + 1
      sinceComplete := s.sinceComplete + 1
      sent := ⟨s.transfers, s.chunks + 1, s.client.nextChunk pf junk now (s.chunks + 1 : Nat)⟩ :: s.sent } := by
  have hind := hi.independent
  have hcarries := count_nextChunk s.client pf junk now hfits
  generalize s.client.nextChunk pf junk now (s.chunks + 1 : Nat) = pack at *
  refine ⟨⟨fun e he => ?_, fun c q hq => ?_, hind.written, hind.sound⟩, ?_, ?_, ?_, hi.written, fun t ht => ?_⟩
  · rcases List.mem_cons.mp he with rfl | he
    · exact hcarries
    · exact hind.numbered e he
  · rw [lastSent_cons rfl]
    rw [StdMap.find?_insertNew] at hq
    by_cases hc : c = (s.chunks + 1 : Nat)
    · subst hc
      rw [if_pos rfl] at hq
      rw [if_pos hcarries, ← hq]
      cases hold : s.client.mUdpSaveMap.find? (s.chunks + 1 : Nat) with
      | none => rfl
      | some old => rw [hkept old hold]; rfl
    · rw [if_neg hc] at hq
      rw [if_neg fun h => hc (h.symm.trans hcarries)]
      exact hind.kept c q hq
  · show ((s.chunks + 1 : Nat) : Int) = (s.sinceComplete + 1 : Nat)
    rw [hchunks]
  · show s.sinceComplete + 1 < 2147483648
    omega
  · exact hi.tracking.congr rfl rfl
  · obtain ⟨pf', hpf', ha⟩ := hi.receiving t ht
    obtain rfl := Option.some.inj (hpf.symm.trans hpf')
    exact ⟨_, rfl, ha⟩

/-- A chunk went out as it should if what was sent is still told apart. -/
theorem apart_of_sent {inc : Incoming} {s : Transfers} {client : Client} {count : Int} {pack : Buf} (hi : Inv inc s)
    (hcount : count = wrap 4 (s.client.sendFileCount + 1)) (hcarries : Proto.count pack = count)
    (hsaved : client.mUdpSaveMap = s.client.mUdpSaveMap.insertNew count pack)
    (hind : Independent { s with
      client := client
      chunks := s.chunks + 1
      sinceComplete := s.sinceComplete + 1
      sent := ⟨s.transfers, s.chunks + 1, pack⟩ :: s.sent }) :
    count = (s.chunks + 1 : Nat) ∧ s.chunks = s.sinceComplete ∧ s.chunks + 1 < 2147483648 ∧
      ∀ q, s.client.mUdpSaveMap.find? count = some q → q = pack := by
  have hnumber : count = (s.chunks + 1 : Nat) :=
    hcarries.symm.trans (hind.numbered ⟨s.transfers, s.chunks + 1, pack⟩ List.mem_cons_self)
  obtain ⟨hchunks, hfits⟩ := hi.of_nextNumber (hcount.symm.trans hnumber)
  refine ⟨hnumber, hchunks, hfits, fun q hq => ?_⟩
  have hlast := hind.kept count q (by
    show client.mUdpSaveMap.find? count = some q
    rw [hsaved, StdMap.find?_insertNew, if_pos rfl, hq]
    rfl)
  rw [lastSent_cons rfl, if_pos hcarries] at hlast
  exact (Option.some.inj hlast).symm

theorem startSendFile_inv {inc : Incoming} {s s' : Transfers} {junk : Buf} {now : Int} (hi : Inv inc s)
    (h : s.next (.startSendFile junk now : Ev inc) = some s') :
    (Apart s (.startSendFile junk now : Ev inc) → Inv inc s') ∧
      (Independent s' → Apart s (.startSendFile junk now : Ev inc)) := by
  obtain ⟨client, hround, rfl⟩ := Option.map_eq_some_iff.mp h
  cases Client.startSendFile_round hround with
  | idle hstart =>
    rw [sentOff_nothing rfl]
    refine ⟨fun _ => ?_, fun _ hstart' => by rw [hstart] at hstart'; cases hstart'⟩
    refine hi.frame rfl rfl rfl rfl rfl rfl rfl rfl (fun _ _ hq => hq) fun t ht => ?_
    exact hi.receiving t (stillOpen_some (show s.stillOpen _ = some t from ht)).1
  | closed hstart hpf =>
    rw [@sentOff_nothing s { s.client with faulted := true } rfl]
    refine ⟨fun ha => ?_, fun hind => nomatch hind.sound⟩
    obtain ⟨pf, hopen, -⟩ := ha hstart
    rw [hpf] at hopen
    cases hopen
  | done pf hstart hpf heof =>
    rw [@sentOff_nothing s { s.client with pf := none, startTransfer := false } rfl]
    refine ⟨fun _ => ?_, fun _ _ => ⟨pf, hpf, fun hnot => by rw [heof] at hnot; cases hnot⟩⟩
    refine hi.frame rfl rfl rfl rfl rfl rfl rfl rfl (fun _ _ hq => hq) fun t ht => ?_
    cases ht
  | sent pf count hstart hpf heof hcount =>
    have hoff := @sentOff_chunk s { s.client with
      pf := some (pf.fread Proto.contextSize).2
      sendFileCount := count
      mUdpSaveMap := s.client.mUdpSaveMap.insertNew count (s.client.nextChunk pf junk now count)
      mWriteList := s.client.mWriteList ++ [s.client.nextChunk pf junk now count] } _ rfl
    rw [hoff]
    refine ⟨fun ha => ?_, fun hind _ => ⟨pf, hpf, fun _ => ?_⟩⟩
    · obtain ⟨pf', hpf', hapart⟩ := ha hstart
      obtain rfl := Option.some.inj (hpf.symm.trans hpf')
      obtain ⟨hchunks, hfits, hkept⟩ := hapart heof
      rw [hi.nextNumber hchunks hfits] at hcount
      subst hcount
      exact sent_inv hi hpf hchunks hfits hkept
    · have hcarries : Proto.count (s.client.nextChunk pf junk now count) = count := by
        rw [Client.nextChunk, SendFile.count_udpsend, hcount, wrap_wrap]
      obtain ⟨rfl, hapart⟩ := apart_of_sent hi hcount hcarries rfl hind
      exact hapart

/-! ## A chunk that comes in -/

theorem Inv.numbers_lt {inc : Incoming} {s : Transfers} : ∀ n ∈ s.arrived.map inc.number, n < 2147483648 := by
  intro n hn
  obtain ⟨x, -, rfl⟩ := List.mem_map.mp hn
  exact inc.number_lt x

/-- The client writes the chunks whose numbers it has not seen. -/
theorem Inv.comes_iff {inc : Incoming} {s : Transfers} (hi : Inv inc s) (a : inc.Arrival) :
    s.client.comesToWriteFile a.pack = true ↔ ∀ x ∈ s.arrived, inc.number x ≠ inc.number a.id := by
  rw [RecvFile.comesToWriteFile_iff hi.tracking Inv.numbers_lt a.count (inc.number_pos _) (inc.number_lt _)]
  simp only [List.mem_map, not_exists, not_and, ne_eq]

/-- One that has been here before is left alone. -/
theorem Inv.again {inc : Incoming} {s : Transfers} {a : inc.Arrival} (hi : Inv inc s) (hold : a.id ∈ s.arrived) :
    Inv inc (s.tookIn a (s.client.dealWithUdpSendFile a.pack)) := by
  have hcomes : s.client.comesToWriteFile a.pack = false := by
    rw [← Bool.not_eq_true, hi.comes_iff a]
    exact fun hnew => hnew a.id hold rfl
  have hsame : s.client.dealWithUdpSendFile a.pack = s.client := by
    rw [Client.dealWithUdpSendFile, RecvFile.deal_of_not_comes hcomes]
  have hwritten : ¬ (s.client.comesToWriteFile a.pack = true ∧ s.receiving = some a.transfer) := by
    rw [hcomes]
    exact fun h => nomatch h.1
  have hind := hi.independent
  rw [hsame, tookIn, if_pos rfl, if_neg hwritten]
  refine ⟨⟨hind.numbered, hind.kept, fun x hx => ?_, hind.sound⟩, hi.count, hi.fits, ?_, fun x hx => ?_, fun t ht => ?_⟩
  · rcases List.mem_append.mp hx with hx | hx
    · exact hind.written x hx
    · rw [List.mem_singleton.mp hx]
      exact hind.written a.id hold
  · show s.client.Tracking ((s.arrived ++ [a.id]).map inc.number)
    rw [List.map_append]
    exact hi.tracking.again (List.mem_map_of_mem hold)
  · exact List.mem_append_left _ (hi.written x hx)
  · exact hi.receiving t (stillOpen_some (show s.stillOpen _ = some t from ht)).1

/-- One that has not is written to its file, and what the client knows of the others stays. -/
theorem Inv.first {inc : Incoming} {s : Transfers} {a : inc.Arrival} (hi : Inv inc s) (hnew : a.id ∉ s.arrived)
    (hreceiving : s.receiving = some a.transfer) (hnumber : ∀ x ∈ s.arrived, inc.number x ≠ inc.number a.id) :
    Inv inc (s.tookIn a (s.client.dealWithUdpSendFile a.pack)) := by
  have hind := hi.independent
  have hcomes := (hi.comes_iff a).mpr hnumber
  obtain ⟨pf, hpf, happend⟩ := hi.receiving _ hreceiving
  obtain ⟨pf', happend', -, hopen, hfault⟩ :=
    RecvFile.deal_writes hind.sound hpf happend a.length.1 a.length.2 hcomes
  have htracking := RecvFile.deal_tracking hi.tracking Inv.numbers_lt hind.sound a.count (inc.number_pos _)
    (inc.number_lt _)
  generalize hm : s.client.toRecvFile.dealWithUdpSendFile a.pack = m at *
  have hwritten : s.client.comesToWriteFile a.pack = true ∧ s.receiving = some a.transfer := ⟨hcomes, hreceiving⟩
  rw [Client.dealWithUdpSendFile, hm, tookIn, if_pos hwritten]
  refine ⟨⟨hind.numbered, hind.kept, fun x hx => ?_, hfault⟩, ?_, ?_, ?_, fun x hx => ?_, fun t ht => ?_⟩
  · show (s.written ++ [a.id]).count x = 1
    rw [List.count_append, List.count_singleton]
    rcases List.mem_append.mp hx with hx | hx
    · have hne : ¬ (a.id == x) = true := by
        rw [beq_iff_eq]
        rintro rfl
        exact hnew hx
      rw [if_neg hne, hind.written x hx]
    · obtain rfl := List.mem_singleton.mp hx
      rw [if_pos (beq_self_eq_true _), List.count_eq_zero.mpr fun h => hnew (hi.written _ h)]
  · show m.sendFileCount = ((if m.reports = s.client.reports then s.sinceComplete else 0 : Nat) : Int)
    rcases hopen with ⟨-, hreports, hcount⟩ | ⟨-, hreports, hcount⟩
    · rw [if_pos hreports, hcount]
      exact hi.count
    · rw [if_neg (by rw [hreports]; simp), hcount]
      rfl
  · show (if m.reports = s.client.reports then s.sinceComplete else 0) < 2147483648
    have := hi.fits
    split
    · exact this
    · decide
  · show m.Tracking ((s.arrived ++ [a.id]).map inc.number)
    rw [List.map_append]
    exact htracking
  · rcases List.mem_append.mp hx with hx | hx
    · exact List.mem_append_left _ (hi.written x hx)
    · exact List.mem_append_right _ hx
  · have hsome := (stillOpen_some (show s.stillOpen _ = some t from ht)).2
    rcases hopen with ⟨hpf', -⟩ | ⟨hpf', -⟩
    · exact ⟨pf', hpf', happend'⟩
    · rw [show ({ s.client with toRecvFile := m } : Client).pf = none from hpf'] at hsome
      cases hsome

/-- A chunk that comes for the first time is told apart from all others, or is not
    written to its file. -/
theorem arrive_inv {inc : Incoming} {s s' : Transfers} {a : inc.Arrival} (hi : Inv inc s)
    (h : s.next (.arrive a) = some s') :
    (Apart s (.arrive a) → Inv inc s') ∧ (Independent s' → Apart s (.arrive a)) := by
  obtain rfl := Option.some.inj h
  refine ⟨fun ha => ?_, fun hind hnew => ?_⟩
  · by_cases hold : a.id ∈ s.arrived
    · exact hi.again hold
    · exact hi.first hold (ha hold).1 (ha hold).2
  · have hcount : (s.tookIn a (s.client.dealWithUdpSendFile a.pack)).written.count a.id = 1 :=
      hind.written a.id (List.mem_append_right _ (List.mem_singleton_self _))
    by_cases hwritten : s.client.comesToWriteFile a.pack = true ∧ s.receiving = some a.transfer
    · exact ⟨hwritten.2, (hi.comes_iff a).mp hwritten.1⟩
    · rw [tookIn, if_neg hwritten] at hcount
      have hmem : a.id ∈ s.written := List.count_pos_iff.mp (by rw [hcount]; decide)
      exact absurd (hi.written _ hmem) hnew

/-! ## Whole runs -/

theorem step_inv {inc : Incoming} {s s' : Transfers} {e : Ev inc} (hi : Inv inc s) (h : s.step e = some s') :
    (Apart s e → Inv inc s') ∧ (Independent s' → Apart s e) := by
  unfold step at h
  split at h
  · cases h
  · cases e with
    | startSendFile junk now => exact startSendFile_inv hi h
    | arrive a => exact arrive_inv hi h
    | evict count now => exact ⟨fun _ => evict_inv hi h, fun _ => trivial⟩
    | recvFileDecide transfer c there => exact ⟨fun _ => recvFileDecide_inv hi h, fun _ => trivial⟩
    | chooseFile filename sayToClientId =>
      obtain rfl := Option.some.inj h
      exact ⟨fun _ => hi.frame rfl rfl rfl rfl rfl rfl rfl rfl (fun _ _ hq => hq) hi.receiving, fun _ => trivial⟩
    | fileRet content =>
      obtain rfl := Option.some.inj h
      exact ⟨fun _ => hi.frame rfl rfl rfl rfl rfl rfl rfl rfl (fun _ _ hq => hq) nofun, fun _ => trivial⟩
    | resend pack =>
      obtain rfl := Option.some.inj h
      exact ⟨fun _ => hi.frame rfl rfl rfl rfl rfl rfl rfl rfl (fun _ _ hq => hq) hi.receiving, fun _ => trivial⟩

end Transfers

end GroupeChat.ChatClient
