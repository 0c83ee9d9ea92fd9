/-
  GroupeChat.ChatClient.UdpTransfer — one file from client to client, no other on its way.

  The sender's two loops (`StartSendFile`, which reads chunks, forgets old ones and answers
  requests, and `Startudpsend`, which gives one packet in three to `sendto`), whatever is
  between the clients, and the receiver's loop (`StartWriteFile`, which writes chunks and
  asks for missing ones). What is between them, the server with its cache included, may
  lose a packet, bring it late or bring it again, but brings only packets that were sent,
  each with its chunk unchanged (`Relayed`), and requests only for numbers that were asked
  for. It may lose them all: the server's own send loop, `startUdpSendFunc`, is commented
  out where it would be started.

  - `transfer_right`: in every run what has come are chunks that were read from the file,
    the receiver has the bytes of those that came, in the order in which they first came,
    and what it reports complete is the file exactly when they came in order.
  - `tail_lost_for_good`: a receiver asks for numbers below the highest it has seen. So once
    everything is read and no packet with `n` or a higher number is on its way, a receiver
    that has seen none of them never completes the file, whatever is still asked for and
    sent again.
-/

import GroupeChat.ChatClient.LastChunk
import GroupeChat.ChatClient.LossReports

namespace GroupeChat.ChatClient

open Base

structure UdpTransfer where
  loop : SendLoop
  udpSendNum : Int
  /-- The packets given to `sendto` that may still come, and come again. -/
  net : List Buf
  receiver : RecvFile
  /-- The numbers of the chunks that came. -/
  arrived : List Nat
  /-- The numbers that the receiver has asked for. -/
  asked : List Int

namespace UdpTransfer

/-- A pass of `StartWriteFile` over `m_udpMap`: the numbers in the packets that it pushes. -/
def reported (mUdpMap : StdMap Int Int) (userId : Int) (junk : Nat → Buf) : List Int :=
  let pass := LossPass.pass mUdpMap userId junk
  (pass.pushed.map pass.reports).flatMap LossReport.numbers

inductive Ev where
  /-- The loop of `StartSendFile`; a `resend` is a UDPRESEND that has reached the sender. -/
  | send (e : SendLoop.Ev)
  | startudpsend
  | lose (i : Nat)
  | deliver (pack : Buf)
  | report (junk : Nat → Buf)

/-- A FILERET for the file has come to a new client, and the other has opened a new file. -/
def init (f : SentFile) (udpSendNum : Int) : UdpTransfer where
  loop := .init (((Client.new f.userId f.sendFileToClientId 0 f.name).chooseFile f.name f.sendFileToClientId).fileRet
    f.bytes)
  udpSendNum := udpSendNum
  net := []
  receiver := RecvFile.new.recvFileDecide 'y'.toUInt8 []
  arrived := []
  asked := []

def Comes (s : UdpTransfer) (pack : Buf) : Prop := ∃ q ∈ s.net, Proto.Relayed q pack

def Asked (s : UdpTransfer) : SendLoop.Ev → Prop
  | .resend pack => ∀ i < (Proto.num pack).toNat, Proto.loseNum pack i ∈ s.asked
  | _ => True

instance (q p : Buf) : Decidable (Proto.Relayed q p) :=
  inferInstanceAs (Decidable (∀ i < (Proto.length q).toNat, i < Proto.timeOff ∨ Proto.filesizeOff ≤ i → p i = q i))

instance (s : UdpTransfer) (pack : Buf) : Decidable (s.Comes pack) :=
  inferInstanceAs (Decidable (∃ q ∈ s.net, Proto.Relayed q pack))

instance (s : UdpTransfer) : (e : SendLoop.Ev) → Decidable (s.Asked e)
  | .resend pack => inferInstanceAs (Decidable (∀ i < (Proto.num pack).toNat, Proto.loseNum pack i ∈ s.asked))
  | .startSendFile _ _ => isTrue trivial
  | .evict _ _ => isTrue trivial

def step (f : SentFile) (s : UdpTransfer) : Ev → Option UdpTransfer
  | .send e => if s.Asked e then (s.loop.step e).map fun loop => { s with loop := loop } else none
  | .startudpsend =>
    if s.loop.exited then none
    else
      match s.loop.client.mWriteList with
      | [] => none
      | pack :: rest =>
        some { s with
          loop := { s.loop with client := { s.loop.client with mWriteList := rest } }
          net := if Passes s.udpSendNum pack then s.net ++ [pack] else s.net
          udpSendNum := wrap 4 (s.udpSendNum + 1) }
  | .lose i => some { s with net := s.net.eraseIdx i }
  | .deliver pack =>
    if s.Comes pack then
      some { s with
        receiver := s.receiver.dealWithUdpSendFile pack
        arrived := s.arrived ++ [(Proto.count pack).toNat] }
    else none
  | .report junk =>
    if s.receiver.faulted then none
    else some { s with asked := s.asked ++ reported s.receiver.mUdpMap f.sendFileToClientId junk }

/-- What has come was read, what is written came, and what is asked for is missing. -/
structure Right (f : SentFile) (s : UdpTransfer) : Prop where
  read : ∀ c ∈ s.arrived, 1 ≤ c ∧ (c : Int) ≤ s.loop.client.sendFileCount
  written : ∀ pf, s.receiver.pf = some pf → pf.content = f.joined (firsts s.arrived)
  whole : (∀ r ∈ s.receiver.reports, r = f.bytes) ↔ f.Ordered s.arrived
  asked : ∀ n ∈ s.asked, 1 ≤ n ∧ ∃ c ∈ s.arrived, n < c

/-- Everything is read, and of the chunks from `n` on none has come or is on its way. -/
structure Lost (f : SentFile) (n : Nat) (s : UdpTransfer) : Prop where
  pos : 1 ≤ n
  le : n ≤ chunkCount f.bytes
  read : s.loop.client.sendFileCount = chunkCount f.bytes
  queued : ∀ q ∈ s.loop.client.mWriteList, Proto.count q < n
  net : ∀ q ∈ s.net, Proto.count q < n
  seen : ∀ c ∈ s.arrived, c < n

instance (f : SentFile) (n : Nat) (s : UdpTransfer) : Decidable (Lost f n s) :=
  decidable_of_iff ((1 ≤ n ∧ n ≤ chunkCount f.bytes) ∧ s.loop.client.sendFileCount = chunkCount f.bytes ∧
      (∀ q ∈ s.loop.client.mWriteList, Proto.count q < n) ∧ (∀ q ∈ s.net, Proto.count q < n) ∧ ∀ c ∈ s.arrived, c < n)
    ⟨fun ⟨⟨pos, le⟩, read, queued, net, seen⟩ => ⟨pos, le, read, queued, net, seen⟩,
      fun h => ⟨⟨h.pos, h.le⟩, h.read, h.queued, h.net, h.seen⟩⟩

end UdpTransfer

/-! ## The sender -/

/-- Any packet that a call of `udpSendFile` can build for a chunk has been sent by some
    run of them. -/
theorem SentFile.sent_any (f : SentFile) {k : Nat} (hk : k < chunkCount f.bytes) (junk : Buf) (now : Int) :
    f.Sent (k + 1) (f.sender.udpsend junk now (k + 1 : Nat) (f.chunk (k + 1))) := by
  obtain ⟨s, hrun, hs, -⟩ := f.run_packets (Nat.le_of_lt hk)
  obtain ⟨t, ht, hq⟩ : ∃ t, s.step (junk, now) = some t ∧
      t.mWriteList[k]? = some (f.sender.udpsend junk now (k + 1 : Nat) (f.chunk (k + 1))) := by
    refine ⟨_, step_eq (junk, now) hs hk, ?_⟩
    dsimp only
    rw [← hs.length, List.getElem?_concat_length, hs.length]
  refine ⟨List.replicate k (fun _ => 0, 0) ++ [(junk, now)], t, ?_, Or.inl ⟨Nat.succ_pos k, hq⟩⟩
  rw [run_append hrun, run_cons ht]
  rfl

structure SentFile.Sender (f : SentFile) (k : Nat) (l : SendLoop) : Prop where
  le : k ≤ chunkCount f.bytes
  user : l.client.userId = f.userId
  peer : l.client.sendFileToClientId = f.sendFileToClientId
  size : l.client.fileSize = wrap 4 f.bytes.length
  name : l.client.filename = f.name
  count : l.client.sendFileCount = k
  queued : ∀ q ∈ l.client.mWriteList, ∃ i ≤ k, f.Sent i q
  saved : ∀ n q, l.client.mUdpSaveMap.find? n = some q → ∃ i ≤ k, n = (i : Nat) ∧ f.Sent i q
  phase : SendLoop.Sending f.bytes k l ∨
    k = chunkCount f.bytes ∧ (l.exited = true ∨ l.client.startTransfer = false)

namespace SentFile

variable {f : SentFile} {k : Nat} {l : SendLoop}

theorem init_sender (f : SentFile) (udpSendNum : Int) : f.Sender 0 (UdpTransfer.init f udpSendNum).loop where
  le := Nat.zero_le _
  user := rfl
  peer := rfl
  size := rfl
  name := rfl
  count := rfl
  queued := nofun
  saved := nofun
  phase := by
    refine Or.inl ⟨rfl, rfl, ?_, rfl, rfl, ?_⟩
    · simp [UdpTransfer.init, SendLoop.init, Client.fileRet, File.fopen]
    · simp [UdpTransfer.init, SendLoop.init]

/-- A round before the end of the file sends the next chunk. -/
theorem Sender.reads (h : f.Sender k l) (hs : SendLoop.Sending f.bytes k l) (hk : k < chunkCount f.bytes) (junk : Buf)
    (now : Int) : ∃ pf, l.client.startSendFile junk now = some { l.client with
      pf := some pf
      sendFileCount := (k + 1 : Nat)
      mUdpSaveMap := l.client.mUdpSaveMap.insertNew (k + 1 : Nat)
        (f.sender.udpsend junk now (k + 1 : Nat) (f.chunk (k + 1)))
      mWriteList := l.client.mWriteList ++ [f.sender.udpsend junk now (k + 1 : Nat) (f.chunk (k + 1))] } := by
  have hlt := lt_chunkCount.mp hk
  obtain ⟨hround, -, -⟩ := SendLoop.round_reads hs junk now (Nat.le_of_lt hlt)
  have hcount : wrap 4 (l.client.sendFileCount + 1) = (k + 1 : Nat) := by
    have := f.numbered
    rw [h.count]
    exact wrap_four (by omega) (by omega)
  have hchunk : (f.bytes.drop (Proto.contextSize * k)).take Proto.contextSize = f.chunk (k + 1) := by
    rw [chunk, Nat.add_sub_cancel]
  have hne : ¬ (f.chunk (k + 1)).length = 0 := by
    rw [chunk_length, Nat.add_sub_cancel]
    simp only [Proto.contextSize] at *
    omega
  rw [hround]
  unfold Client.udpSendFile SendFile.udpSendFile Client.sender
  dsimp only
  rw [SendLoop.fread_eq (Nat.le_of_lt hlt), hchunk, if_neg hne, hcount]
  refine ⟨⟨false, f.bytes, min (Proto.contextSize * (k + 1)) f.bytes.length,
    decide (f.bytes.length < Proto.contextSize * (k + 1))⟩, ?_⟩
  simp only [SendFile.udpsend, SentFile.sender, h.user, h.peer, h.size, h.name, Option.map_some]

/-- What a round does: it queues the next chunk, or nothing. -/
theorem Sender.round (h : f.Sender k l) (hrunning : l.exited = false) (junk : Buf) (now : Int) :
    k < chunkCount f.bytes ∧ f.Sender (k + 1) (l.startSendFile junk now) ∨
      k = chunkCount f.bytes ∧ f.Sender k (l.startSendFile junk now) ∧
        (l.startSendFile junk now).client.mWriteList = l.client.mWriteList := by
  rcases h.phase with hs | ⟨hk, hover⟩
  · rcases Nat.lt_trichotomy (Proto.contextSize * k) f.bytes.length with hlt | heq | hgt
    · have hk := lt_chunkCount.mpr hlt
      obtain ⟨pf, hround⟩ := h.reads hs hk junk now
      have hsent := f.sent_any hk junk now
      have hnext := SendLoop.round_sending hs junk now hlt
      refine Or.inl ⟨hk, ?_⟩
      unfold SendLoop.startSendFile at hnext ⊢
      rw [hround] at hnext ⊢
      constructor
      case le => exact hk
      case user => exact h.user
      case peer => exact h.peer
      case size => exact h.size
      case name => exact h.name
      case count => rfl
      case queued =>
        intro q hq
        rcases List.mem_append.mp hq with hq | hq
        · obtain ⟨i, hi, hqs⟩ := h.queued q hq
          exact ⟨i, Nat.le_succ_of_le hi, hqs⟩
        · rw [List.mem_singleton.mp hq]
          exact ⟨k + 1, Nat.le_refl _, hsent⟩
      case saved =>
        intro n q hn
        rcases StdMap.of_find?_insertNew hn with hn | ⟨rfl, rfl⟩
        · obtain ⟨i, hi, hni, hqs⟩ := h.saved n q hn
          exact ⟨i, Nat.le_succ_of_le hi, hni, hqs⟩
        · exact ⟨k + 1, Nat.le_refl _, rfl, hsent⟩
      case phase => exact Or.inl hnext
    · have hk : k = chunkCount f.bytes := by
        unfold chunkCount
        simp only [Proto.contextSize] at *
        omega
      rw [SendLoop.round_exits hs junk now heq.symm]
      exact Or.inr ⟨hk, { h with phase := Or.inr ⟨hk, Or.inl rfl⟩ }, rfl⟩
    · have hk : k = chunkCount f.bytes := by
        have := h.le
        have hge : ¬ k < chunkCount f.bytes := by
          rw [lt_chunkCount]
          omega
        omega
      rw [SendLoop.round_done hs junk now hgt]
      exact Or.inr ⟨hk, { h with phase := Or.inr ⟨hk, Or.inr rfl⟩ }, rfl⟩
  · have hstopped : l.client.startTransfer = false := by simpa [hrunning] using hover
    have hidle : l.startSendFile junk now = { l with rounds := l.rounds + 1 } := by
      unfold SendLoop.startSendFile Client.startSendFile SendLoop.comesToUdpSendFile
      rw [hstopped]
      rfl
    rw [hidle]
    exact Or.inr ⟨hk, { h with phase := Or.inr ⟨hk, Or.inr hstopped⟩ }, rfl⟩

/-- What is left of the loops changes only what is queued and what is saved. -/
theorem Sender.frame {mWriteList : List Buf} {mUdpSaveMap : StdMap Int Buf} (h : f.Sender k l)
    (hqueued : ∀ q ∈ mWriteList, ∃ i ≤ k, f.Sent i q)
    (hsaved : ∀ n q, mUdpSaveMap.find? n = some q → l.client.mUdpSaveMap.find? n = some q) :
    f.Sender k { l with client := { l.client with mWriteList := mWriteList, mUdpSaveMap := mUdpSaveMap } } :=
  { h with
    queued := hqueued
    saved := fun n q hn => h.saved n q (hsaved n q hn)
    phase := h.phase.imp_left fun hs => { hs with } }

theorem mem_resent {c : Client} {pack q : Buf} (h : q ∈ (c.resend pack).mWriteList) :
    q ∈ c.mWriteList ∨ ∃ i < (Proto.num pack).toNat, c.mUdpSaveMap.find? (Proto.loseNum pack i) = some q := by
  rcases List.mem_append.mp h with h | h
  · exact Or.inl h
  · obtain ⟨i, hi, hfind⟩ := List.mem_filterMap.mp h
    exact Or.inr ⟨i, List.mem_range.mp hi, hfind⟩

theorem Sender.step {e : SendLoop.Ev} {l' : SendLoop} (h : f.Sender k l) (hs : l.step e = some l') :
    ∃ k', k ≤ k' ∧ f.Sender k' l' := by
  unfold SendLoop.step at hs
  split at hs
  · obtain rfl := Option.some.inj hs
    exact ⟨k, Nat.le_refl k, h⟩
  · rename_i hrunning
    cases e with
    | startSendFile junk now =>
      obtain rfl := Option.some.inj hs
      rcases h.round (by simpa using hrunning) junk now with ⟨-, hnext⟩ | ⟨-, hsame, -⟩
      · exact ⟨k + 1, Nat.le_succ k, hnext⟩
      · exact ⟨k, Nat.le_refl k, hsame⟩
    | evict count now =>
      obtain ⟨client, hclient, rfl⟩ := Option.map_eq_some_iff.mp hs
      unfold Client.evict at hclient
      split at hclient
      · cases hclient
      · split at hclient
        · obtain rfl := Option.some.inj hclient
          exact ⟨k, Nat.le_refl k, h.frame h.queued fun n q hn => (StdMap.of_find?_remove hn).2⟩
        · cases hclient
    | resend pack =>
      obtain rfl := Option.some.inj hs
      refine ⟨k, Nat.le_refl k, h.frame (fun q hq => ?_) fun n q hn => hn⟩
      rcases mem_resent hq with hq | ⟨i, -, hfind⟩
      · exact h.queued q hq
      · obtain ⟨j, hj, -, hqs⟩ := h.saved _ q hfind
        exact ⟨j, hj, hqs⟩

end SentFile

/-! ## The receiver -/

namespace RecvFile

def Senders (m : RecvFile) : Prop := ∀ n v, m.mUdpMap.find? n = some v → wrap 4 v = v

@[simp] theorem writeFile_mUdpMap (m : RecvFile) (pack : Buf) (fileseek : Int) :
    (m.writeFile pack fileseek).mUdpMap = m.mUdpMap := by
  unfold writeFile
  dsimp only
  split
  · rfl
  · split
    · rfl
    · split <;> rfl

theorem Senders.deal {m : RecvFile} (h : m.Senders) (pack : Buf) : (m.dealWithUdpSendFile pack).Senders := by
  unfold dealWithUdpSendFile
  dsimp only
  split
  · exact h
  · split
    · split
      · intro n v hn
        rw [writeFile_mUdpMap] at hn
        exact h n v (StdMap.of_find?_remove hn).2
      · exact h
    · split
      · intro n v hn
        rw [writeFile_mUdpMap] at hn
        exact h n v hn
      · intro n v hn
        rw [writeFile_mUdpMap] at hn
        dsimp only at hn
        rw [find?_missing] at hn
        split at hn
        · obtain rfl := Option.some.inj hn
          exact wrap_wrap 4 _
        · exact h n v hn

end RecvFile

namespace UdpTransfer

variable {f : SentFile}

/-- A pass asks for the numbers in the gap, and for them only. -/
theorem mem_reported {m : RecvFile} {cs : List Nat} (ht : m.Tracking cs) (hcs : ∀ c ∈ cs, c < 2147483648)
    (hv : m.Senders) {userId : Int} {junk : Nat → Buf} {n : Int} (h : n ∈ reported m.mUdpMap userId junk) :
    1 ≤ n ∧ ∃ c ∈ cs, n < c := by
  have hnow := ht.bounds hcs
  have hgap : ∀ k v, m.mUdpMap.find? k = some v → 1 ≤ k ∧ k < m.nowPackNum := by
    intro k v hk
    obtain ⟨c, rfl, hpos, hle, hnot⟩ := (ht.missing k).mp (by rw [hk]; rfl)
    have hne : (c : Int) ≠ m.nowPackNum := by
      intro heq
      rcases ht.top with h0 | ⟨d, hd, htop⟩
      · omega
      · rw [htop, Int.ofNat_inj] at heq
        exact hnot (heq ▸ hd)
    omega
  have hints : ∀ k v, m.mUdpMap.find? k = some v → wrap 4 k = k ∧ wrap 4 v = v := by
    intro k v hk
    have := hgap k v hk
    exact ⟨wrap_four (by omega) (by omega), hv k v hk⟩
  have hmem : n ∈ m.mUdpMap.ascending.map Prod.fst := by
    rw [← LoseMap.flatMap_numbers ⟨m.mUdpMap, hints⟩ userId junk]
    exact h
  obtain ⟨⟨k, v⟩, he, rfl⟩ := List.mem_map.mp hmem
  obtain ⟨hpos, hlt⟩ := hgap k v (StdMap.mem_ascending.mp he)
  refine ⟨hpos, ?_⟩
  rcases ht.top with h0 | ⟨d, hd, htop⟩
  · omega
  · exact ⟨d, hd, htop ▸ hlt⟩

/-! ## Runs -/

structure Inv (f : SentFile) (k : Nat) (s : UdpTransfer) : Prop where
  sender : f.Sender k s.loop
  net : ∀ q ∈ s.net, ∃ i ≤ k, f.Sent i q
  receives : ∃ as : List f.Arrival, as.map SentFile.Arrival.number = s.arrived ∧ f.receive as = s.receiver
  read : ∀ c ∈ s.arrived, 1 ≤ c ∧ c ≤ k
  senders : s.receiver.Senders
  asked : ∀ n ∈ s.asked, 1 ≤ n ∧ ∃ c ∈ s.arrived, n < c

theorem init_inv (f : SentFile) (udpSendNum : Int) : Inv f 0 (init f udpSendNum) :=
  ⟨f.init_sender udpSendNum, nofun, ⟨[], rfl, rfl⟩, nofun, nofun, nofun⟩

theorem Inv.more {k k' : Nat} {s : UdpTransfer} {loop : SendLoop} (h : Inv f k s) (hk : k ≤ k')
    (hsender : f.Sender k' loop) : Inv f k' { s with loop := loop } where
  sender := hsender
  net := fun q hq => by
    obtain ⟨i, hi, hqs⟩ := h.net q hq
    exact ⟨i, Nat.le_trans hi hk, hqs⟩
  receives := h.receives
  read := fun c hc => ⟨(h.read c hc).1, Nat.le_trans (h.read c hc).2 hk⟩
  senders := h.senders
  asked := h.asked

theorem Inv.tracking {k : Nat} {s : UdpTransfer} (h : Inv f k s) :
    SentFile.Inv f s.arrived s.receiver ∧ ∀ c ∈ s.arrived, c < 2147483648 := by
  obtain ⟨as, harrived, hreceiver⟩ := h.receives
  refine ⟨harrived ▸ hreceiver ▸ f.receive_inv as, fun c hc => ?_⟩
  have := (h.read c hc).2
  have := h.sender.le
  have := f.numbered
  omega

/-- A packet that comes is a packet of a chunk that was read. -/
theorem Inv.comes {k : Nat} {s : UdpTransfer} (h : Inv f k s) {pack : Buf} (hc : s.Comes pack) :
    ∃ i ≤ k, ∃ a : f.Arrival, a.number = i ∧ a.pack = pack ∧ (Proto.count pack).toNat = i ∧
      ∃ q ∈ s.net, Proto.count q = i := by
  obtain ⟨q, hq, hr⟩ := hc
  obtain ⟨i, hi, hqs⟩ := h.net q hq
  have hcount := ((SentFile.sent_chunk hqs).relayed hr).count
  exact ⟨i, hi, ⟨i, pack, q, hqs, hr⟩, rfl, rfl, by omega, q, hq, (SentFile.sent_chunk hqs).count⟩

theorem step_inv {k : Nat} {s s' : UdpTransfer} {e : Ev} (h : Inv f k s) (hs : s.step f e = some s') :
    ∃ k', Inv f k' s' := by
  cases e with
  | send e =>
    simp only [step] at hs
    split at hs
    · obtain ⟨l, hl, rfl⟩ := Option.map_eq_some_iff.mp hs
      obtain ⟨k', hk, hsender⟩ := h.sender.step hl
      exact ⟨k', h.more hk hsender⟩
    · cases hs
  | startudpsend =>
    simp only [step] at hs
    split at hs
    · cases hs
    · split at hs
      · cases hs
      · rename_i pack rest hlist
        obtain rfl := Option.some.inj hs
        have hqueued : ∀ q ∈ pack :: rest, ∃ i ≤ k, f.Sent i q := hlist ▸ h.sender.queued
        have hsender := h.sender.frame (fun q hq => hqueued q (List.mem_cons_of_mem _ hq)) fun n q hn => hn
        refine ⟨k, hsender, fun q hq => ?_, h.receives, h.read, h.senders, h.asked⟩
        dsimp only at hq
        split at hq
        · rcases List.mem_append.mp hq with hq | hq
          · exact h.net q hq
          · rw [List.mem_singleton.mp hq]
            exact hqueued pack List.mem_cons_self
        · exact h.net q hq
  | lose i =>
    obtain rfl := Option.some.inj hs
    exact ⟨k, h.sender, fun q hq => h.net q (List.mem_of_mem_eraseIdx hq), h.receives, h.read, h.senders, h.asked⟩
  | deliver pack =>
    simp only [step] at hs
    split at hs
    · rename_i hcomes
      obtain rfl := Option.some.inj hs
      obtain ⟨i, hi, a, rfl, rfl, hcount, -⟩ := h.comes hcomes
      obtain ⟨as, harrived, hreceiver⟩ := h.receives
      refine ⟨k, h.sender, h.net, ⟨as ++ [a], ?_, ?_⟩, fun c hc => ?_, h.senders.deal _, fun n hn => ?_⟩
      · rw [List.map_append, harrived, List.map_singleton, hcount]
      · rw [← hreceiver, SentFile.receive, List.foldl_append]
        rfl
      · rcases List.mem_append.mp hc with hc | hc
        · exact h.read c hc
        · rw [List.mem_singleton.mp hc, hcount]
          exact ⟨a.chunk.pos, hi⟩
      · obtain ⟨hpos, c, hc, hlt⟩ := h.asked n hn
        exact ⟨hpos, c, List.mem_append_left _ hc, hlt⟩
    · cases hs
  | report junk =>
    simp only [step] at hs
    split at hs
    · cases hs
    · rename_i hsound
      obtain rfl := Option.some.inj hs
      obtain ⟨hinv, hcs⟩ := h.tracking
      refine ⟨k, h.sender, h.net, h.receives, h.read, h.senders, fun n hn => ?_⟩
      rcases List.mem_append.mp hn with hn | hn
      · exact h.asked n hn
      · exact mem_reported (hinv.tracking (by simpa using hsound)) hcs h.senders hn

theorem Inv.right {k : Nat} {s : UdpTransfer} (h : Inv f k s) : Right f s where
  read := fun c hc => by
    obtain ⟨hpos, hle⟩ := h.read c hc
    rw [h.sender.count]
    exact ⟨hpos, Int.ofNat_le.mpr hle⟩
  written := fun pf hpf => by
    cases h.tracking.1.filed with
    | opened pf' hf hpf' ha hc hs hn hr =>
      rw [hpf] at hpf'
      obtain rfl := Option.some.inj hpf'
      exact hc
    | closed n hn hleast hpf' hr =>
      rw [hpf] at hpf'
      cases hpf'
  whole := by
    obtain ⟨as, harrived, hreceiver⟩ := h.receives
    rw [← harrived, ← hreceiver]
    exact f.whole_iff_ordered as
  asked := h.asked

/-- What is received is right, whatever is lost, comes late, comes twice or is asked for. -/
theorem transfer_right (f : SentFile) (udpSendNum : Int) (es : List Ev) :
    Always (step f) (Right f) (init f udpSendNum) es := by
  refine (always_of_inv (I := fun s => ∃ k, Inv f k s) ?_ ⟨0, init_inv f udpSendNum⟩).mono fun s ⟨k, h⟩ => h.right
  exact fun _ _ _ ⟨_, h⟩ hs => step_inv h hs

/-! ## The end of a file -/

theorem Inv.all_read {k n : Nat} {s : UdpTransfer} (h : Inv f k s) (hl : Lost f n s) : k = chunkCount f.bytes := by
  have := h.sender.count
  rw [hl.read, Int.ofNat_inj] at this
  exact this.symm

/-- Only what is asked for is sent again, and only what is below a number that has come is
    asked for. -/
theorem step_lost {k n : Nat} {s s' : UdpTransfer} {e : Ev} (h : Inv f k s) (hl : Lost f n s)
    (hs : s.step f e = some s') : Lost f n s' := by
  have hk := h.all_read hl
  cases e with
  | send e =>
    simp only [step] at hs
    split at hs
    · rename_i hasked
      obtain ⟨l, hstep, rfl⟩ := Option.map_eq_some_iff.mp hs
      unfold SendLoop.step at hstep
      split at hstep
      · obtain rfl := Option.some.inj hstep
        exact { hl with }
      · rename_i hrunning
        cases e with
        | startSendFile junk now =>
          obtain rfl := Option.some.inj hstep
          rcases h.sender.round (by simpa using hrunning) junk now with ⟨hlt, -⟩ | ⟨-, hsame, hqueued⟩
          · omega
          · refine { hl with read := ?_, queued := ?_ }
            · rw [hsame.count, hk]
            · rw [hqueued]
              exact hl.queued
        | evict count now =>
          obtain ⟨client, hclient, rfl⟩ := Option.map_eq_some_iff.mp hstep
          unfold Client.evict at hclient
          split at hclient
          · cases hclient
          · split at hclient
            · obtain rfl := Option.some.inj hclient
              exact { hl with }
            · cases hclient
        | resend pack =>
          obtain rfl := Option.some.inj hstep
          refine { hl with queued := fun q hq => ?_ }
          rcases SentFile.mem_resent hq with hq | ⟨i, hi, hfind⟩
          · exact hl.queued q hq
          · obtain ⟨j, -, hj, hqs⟩ := h.sender.saved _ q hfind
            obtain ⟨-, c, hc, hlt⟩ := h.asked _ (hasked i hi)
            have := hl.seen c hc
            have := (SentFile.sent_chunk hqs).count
            omega
    · cases hs
  | startudpsend =>
    simp only [step] at hs
    split at hs
    · cases hs
    · split at hs
      · cases hs
      · rename_i pack rest hlist
        obtain rfl := Option.some.inj hs
        have hqueued : ∀ q ∈ pack :: rest, Proto.count q < n := hlist ▸ hl.queued
        refine { hl with queued := fun q hq => hqueued q (List.mem_cons_of_mem _ hq), net := fun q hq => ?_ }
        dsimp only at hq
        split at hq
        · rcases List.mem_append.mp hq with hq | hq
          · exact hl.net q hq
          · rw [List.mem_singleton.mp hq]
            exact hqueued pack List.mem_cons_self
        · exact hl.net q hq
  | lose i =>
    obtain rfl := Option.some.inj hs
    exact { hl with net := fun q hq => hl.net q (List.mem_of_mem_eraseIdx hq) }
  | deliver pack =>
    simp only [step] at hs
    split at hs
    · rename_i hcomes
      obtain rfl := Option.some.inj hs
      obtain ⟨i, -, -, -, -, hcount, q, hq, hqi⟩ := h.comes hcomes
      refine { hl with seen := fun c hc => ?_ }
      rcases List.mem_append.mp hc with hc | hc
      · exact hl.seen c hc
      · have := hl.net q hq
        rw [List.mem_singleton.mp hc]
        omega
    · cases hs
  | report junk =>
    simp only [step] at hs
    split at hs
    · cases hs
    · obtain rfl := Option.some.inj hs
      exact { hl with }

/-- Without the chunks from `n` on the lengths do not add up. -/
theorem Lost.unreported {k n : Nat} {s : UdpTransfer} (h : Inv f k s) (hl : Lost f n s)
    (hsize : f.bytes.length < 4294967296) : s.receiver.reports = [] := by
  have hseen : ∀ c ∈ firsts s.arrived, 0 < c ∧ c ≤ chunkCount f.bytes := by
    intro c hc
    obtain ⟨hpos, hle⟩ := h.read c (mem_firsts.mp hc)
    exact ⟨hpos, Nat.le_trans hle h.sender.le⟩
  cases h.tracking.1.filed with
  | opened pf hf hpf ha hc hs hn hr => exact hr
  | closed j hj hleast hpf hr =>
    exfalso
    have hlen := SentFile.length_of_completes hsize (firsts_nodup s.arrived) hseen hj
    have hmissing : n ∉ (firsts s.arrived).take j := fun hn =>
      Nat.lt_irrefl n (hl.seen n (mem_firsts.mp (List.mem_of_mem_take hn)))
    have hnodup : (n :: (firsts s.arrived).take j).Nodup :=
      List.nodup_cons.mpr ⟨hmissing, (firsts_nodup s.arrived).sublist (List.take_sublist j _)⟩
    have hle := SentFile.joined_length_le (f := f) hnodup fun c hc => by
      rcases List.mem_cons.mp hc with rfl | hc
      · exact ⟨hl.pos, hl.le⟩
      · exact hseen c (List.mem_of_mem_take hc)
    have hpos : 0 < (f.chunk n).length := by
      have hpos := hl.pos
      have hlt := SentFile.lt_chunkCount.mp (show n - 1 < chunkCount f.bytes by have := hl.le; omega)
      rw [SentFile.chunk_length]
      simp only [Proto.contextSize] at *
      omega
    rw [SentFile.joined, List.map_cons, List.flatten_cons, List.length_append] at hle
    unfold SentFile.joined at hlen
    omega

/-- Once the end of a file is lost the receiver waits for it for good. -/
theorem tail_lost_for_good {udpSendNum : Int} {es : List Ev} {s : UdpTransfer} {n : Nat}
    (hrun : run (step f) (init f udpSendNum) es = some s) (hsize : f.bytes.length < 4294967296) (h : Lost f n s)
    (fs : List Ev) : Always (step f) (fun t => Lost f n t ∧ t.receiver.reports = []) s fs := by
  have hinv : ∃ k, Inv f k s :=
    run_inv (I := fun s => ∃ k, Inv f k s) (fun _ _ _ ⟨_, hi⟩ hs => step_inv hi hs) ⟨0, init_inv f udpSendNum⟩ hrun
  refine (always_of_inv (I := fun t => (∃ k, Inv f k t) ∧ Lost f n t) ?_ ⟨hinv, h⟩).mono
    fun t ⟨⟨k, hi⟩, hl⟩ => ⟨hl, hl.unreported hi hsize⟩
  exact fun _ _ _ ⟨⟨_, hi⟩, hl⟩ hs => ⟨step_inv hi hs, step_lost hi hl hs⟩

def oneByte : SentFile where
  bytes := [0]
  name := ['a'.toUInt8]
  userId := 1
  sendFileToClientId := 2
  name_fits := by decide
  numbered := by decide

def oneLost : List Ev := [.send (.startSendFile (fun _ => 0) 0), .startudpsend, .lose 0]

theorem a_byte_is_lost : ∃ s, run (step oneByte) (init oneByte 2) oneLost = some s ∧
    Always (step oneByte) (fun t => Lost oneByte 1 t ∧ t.receiver.reports = []) s [.report fun _ _ => 0] := by
  have h : (run (step oneByte) (init oneByte 2) oneLost).any (fun s => decide (Lost oneByte 1 s)) = true := by
    decide +kernel
  obtain ⟨s, hrun, hlost⟩ := (Option.any_eq_true _ _).mp h
  exact ⟨s, hrun, tail_lost_for_good hrun (by decide) (of_decide_eq_true hlost) _⟩

end UdpTransfer

end GroupeChat.ChatClient
