/-
  GroupeChat.ChatClient.LastChunk — which chunks of a file go out at all
  (`IOModel::Startudpsend`).

  Of what is in `m_writeList` the loop gives one packet in three to `sendto`, and those
  whose `count` is `filesize / 1390 + 1`: that is to be the last chunk, since a receiver
  asks for what is missing below the highest number it has seen. But `udpSendFile` numbers
  on from the file before, a file of `n` times 1390 bytes has `n` chunks, and `fileSize`
  is an `int`.

  `Outgoing` is a transfer at any time of a client's life, `Queueing` the send loop with
  the chunks it has queued of it. `last_passed_iff`: the highest of them, once it is
  popped, goes out whatever `udpSendNum` is by then, exactly if the number looked for is
  that of the last chunk. For a size that is an `int` this means a first file whose last
  chunk is not whole, or a file of whole chunks after a first of one chunk
  (`recognised_of_int`). The only chunk of a second file is dropped
  (`a_second_file_is_not_sent`).
-/

import GroupeChat.ChatClient.SendLoop

namespace GroupeChat.ChatClient

open Base

/-! ## `Startudpsend` -/

def Passes (udpSendNum : Int) (pack : Buf) : Prop :=
  udpSendNum.tmod 3 = 1 ∨ Proto.count pack = (Proto.filesize pack).tdiv 1390 + 1

instance (udpSendNum : Int) (pack : Buf) : Decidable (Passes udpSendNum pack) := inferInstanceAs (Decidable (_ ∨ _))

/-- What the loop gives to `sendto` of the packets that it pops. -/
def startudpsend : Int → List Buf → List Buf
  | _, [] => []
  | udpSendNum, pack :: packs =>
    if Passes udpSendNum pack then pack :: startudpsend (wrap 4 (udpSendNum + 1)) packs
    else startudpsend (wrap 4 (udpSendNum + 1)) packs

/-- A file to be sent, and the client when the FILERET for it comes. -/
structure Outgoing where
  client : Client
  bytes : List UInt8
  nonempty : bytes ≠ []
  /-- `sendFileCount` is an `int`. -/
  count : wrap 4 client.sendFileCount = client.sendFileCount

structure Queueing where
  loop : SendLoop
  chunks : List Buf

namespace Queueing

/-- What `udpSendFile` has queued in the step to `l'`. -/
def queued (l l' : SendLoop) : SendLoop.Ev → List Buf
  | .startSendFile _ _ => l'.client.mWriteList.drop l.client.mWriteList.length
  | _ => []

def step (s : Queueing) (e : SendLoop.Ev) : Option Queueing :=
  (s.loop.step e).map fun l => ⟨l, s.chunks ++ queued s.loop l e⟩

theorem queued_nothing {l l' : SendLoop} {e : SendLoop.Ev} (h : l'.client.mWriteList = l.client.mWriteList) :
    queued l l' e = [] := by
  cases e with
  | startSendFile junk now => rw [queued, h, List.drop_length]
  | _ => rfl

end Queueing

namespace Outgoing

def init (o : Outgoing) : Queueing := ⟨.init (o.client.fileRet o.bytes), []⟩

/-- What `getFileSize` gives. -/
def fileSize (o : Outgoing) : Int := wrap 4 o.bytes.length

def number (o : Outgoing) (k : Nat) : Int := wrap 4 (o.client.sendFileCount + (k + 1 : Nat))

structure Inv (o : Outgoing) (k : Nat) (s : Queueing) : Prop where
  le : k ≤ chunkCount o.bytes
  counts : s.chunks.map Proto.count = (List.range k).map o.number
  sizes : ∀ q ∈ s.chunks, Proto.filesize q = o.fileSize
  count : s.loop.client.sendFileCount = wrap 4 (o.client.sendFileCount + k)
  fileSize : s.loop.client.fileSize = o.fileSize
  phase : SendLoop.Sending o.bytes k s.loop ∨
    k = chunkCount o.bytes ∧ (s.loop.exited = true ∨ s.loop.client.startTransfer = false)

end Outgoing

/-! ## A round -/

namespace SendLoop

/-- A round before the end of the file queues a chunk with the next number. -/
theorem round_queues {bytes : List UInt8} {k : Nat} {l : SendLoop} (h : Sending bytes k l) (junk : Buf) (now : Int)
    (hlt : Proto.contextSize * k < bytes.length) : ∃ pack,
      (l.startSendFile junk now).client.mWriteList = l.client.mWriteList ++ [pack] ∧
      Proto.count pack = wrap 4 (l.client.sendFileCount + 1) ∧ Proto.filesize pack = wrap 4 l.client.fileSize ∧
      (l.startSendFile junk now).client.sendFileCount = wrap 4 (l.client.sendFileCount + 1) ∧
      (l.startSendFile junk now).client.fileSize = l.client.fileSize := by
  have hrunning := (round_sending h junk now hlt).running
  unfold startSendFile at hrunning ⊢
  cases hround : l.client.startSendFile junk now with
  | none =>
    rw [hround] at hrunning
    cases hrunning
  | some client =>
    dsimp only
    cases Client.startSendFile_round hround with
    | idle hstart =>
      rw [h.startTransfer] at hstart
      cases hstart
    | closed hstart hpf =>
      rw [h.pf] at hpf
      cases hpf
    | done pf hstart hpf heof =>
      rw [h.pf] at hpf
      obtain rfl := Option.some.inj hpf
      have : bytes.length < Proto.contextSize * k := of_decide_eq_true heof
      omega
    | sent pf count hstart hpf heof hcount =>
      refine ⟨l.client.nextChunk pf junk now count, rfl, ?_, ?_, hcount, rfl⟩
      · rw [Client.nextChunk, SendFile.count_udpsend, hcount, wrap_wrap]
      · rw [Client.nextChunk, SendFile.filesize_udpsend]
        rfl

end SendLoop

namespace Outgoing

variable {o : Outgoing}

theorem init_inv (o : Outgoing) : o.Inv 0 o.init where
  le := Nat.zero_le _
  counts := rfl
  sizes := nofun
  count := by
    rw [Int.natCast_zero, Int.add_zero]
    exact o.count.symm
  fileSize := rfl
  phase := by
    refine Or.inl ⟨rfl, rfl, ?_, rfl, rfl, ?_⟩
    · simp [init, SendLoop.init, Client.fileRet, File.fopen]
    · simp [init, SendLoop.init]

/-- A step that leaves the numbers and queues nothing. -/
theorem Inv.quiet {k : Nat} {s : Queueing} {l : SendLoop} {e : SendLoop.Ev} (hi : o.Inv k s)
    (hqueued : Queueing.queued s.loop l e = []) (hcount : l.client.sendFileCount = s.loop.client.sendFileCount)
    (hsize : l.client.fileSize = s.loop.client.fileSize)
    (hphase : SendLoop.Sending o.bytes k l ∨
      k = chunkCount o.bytes ∧ (l.exited = true ∨ l.client.startTransfer = false)) :
    o.Inv k ⟨l, s.chunks ++ Queueing.queued s.loop l e⟩ := by
  rw [hqueued, List.append_nil]
  exact ⟨hi.le, hi.counts, hi.sizes, hcount.trans hi.count, hsize.trans hi.fileSize, hphase⟩

/-- A chunk is queued while there are bytes left. -/
theorem Inv.queues {k : Nat} {s : Queueing} (hi : o.Inv k s) (h : SendLoop.Sending o.bytes k s.loop) (junk : Buf)
    (now : Int) (hlt : Proto.contextSize * k < o.bytes.length) : o.Inv (k + 1) ⟨s.loop.startSendFile junk now,
      s.chunks ++ Queueing.queued s.loop (s.loop.startSendFile junk now) (.startSendFile junk now)⟩ := by
  obtain ⟨pack, hlist, hcount, hsize, hnext, hfile⟩ := SendLoop.round_queues h junk now hlt
  have hnumber : wrap 4 (s.loop.client.sendFileCount + 1) = o.number k := by
    rw [hi.count, wrap_add, number, Int.add_assoc, Nat.cast_succ]
  have hqueued : Queueing.queued s.loop (s.loop.startSendFile junk now) (.startSendFile junk now) = [pack] := by
    rw [Queueing.queued, hlist, List.drop_left]
  rw [hqueued]
  constructor
  case le => exact SentFile.lt_chunkCount.mpr hlt
  case counts => rw [List.map_append, hi.counts, List.range_succ, List.map_append, List.map_singleton, hcount, hnumber,
    List.map_singleton]
  case sizes =>
    intro q hq
    rcases List.mem_append.mp hq with hq | hq
    · exact hi.sizes q hq
    · rw [List.mem_singleton.mp hq, hsize, hi.fileSize]
      exact wrap_wrap 4 _
  case count => exact hnext.trans hnumber
  case fileSize => exact hfile.trans hi.fileSize
  case phase => exact Or.inl (SendLoop.round_sending h junk now hlt)

theorem Inv.round {k : Nat} {s : Queueing} (hi : o.Inv k s) (hrunning : s.loop.exited = false) (junk : Buf)
    (now : Int) : ∃ k', o.Inv k' ⟨s.loop.startSendFile junk now,
      s.chunks ++ Queueing.queued s.loop (s.loop.startSendFile junk now) (.startSendFile junk now)⟩ := by
  rcases hi.phase with h | ⟨hk, hover⟩
  · rcases Nat.lt_trichotomy (Proto.contextSize * k) o.bytes.length with hlt | heq | hgt
    · exact ⟨k + 1, hi.queues h junk now hlt⟩
    · have hk : k = chunkCount o.bytes := by
        unfold chunkCount
        simp only [Proto.contextSize] at *
        omega
      rw [SendLoop.round_exits h junk now heq.symm]
      exact ⟨k, hi.quiet (Queueing.queued_nothing rfl) rfl rfl (Or.inr ⟨hk, Or.inl rfl⟩)⟩
    · have hk : k = chunkCount o.bytes := by
        have := hi.le
        have hge : ¬ k < chunkCount o.bytes := by
          rw [SentFile.lt_chunkCount]
          omega
        omega
      rw [SendLoop.round_done h junk now hgt]
      exact ⟨k, hi.quiet (Queueing.queued_nothing rfl) rfl rfl (Or.inr ⟨hk, Or.inr rfl⟩)⟩
  · have hstopped : s.loop.client.startTransfer = false := by simpa [hrunning] using hover
    have hidle : s.loop.startSendFile junk now = { s.loop with rounds := s.loop.rounds + 1 } := by
      unfold SendLoop.startSendFile Client.startSendFile SendLoop.comesToUdpSendFile
      rw [hstopped]
      rfl
    rw [hidle]
    exact ⟨k, hi.quiet (Queueing.queued_nothing rfl) rfl rfl (Or.inr ⟨hk, Or.inr hstopped⟩)⟩

/-- What is left of the loop touches neither the numbers nor the file. -/
theorem Inv.client {k : Nat} {s : Queueing} {client : Client} {e : SendLoop.Ev} (hi : o.Inv k s)
    (hqueued : Queueing.queued s.loop { s.loop with client := client } e = [])
    (hcount : client.sendFileCount = s.loop.client.sendFileCount) (hsize : client.fileSize = s.loop.client.fileSize)
    (hpf : client.pf = s.loop.client.pf) (hst : client.startTransfer = s.loop.client.startTransfer) :
    o.Inv k ⟨{ s.loop with client := client },
      s.chunks ++ Queueing.queued s.loop { s.loop with client := client } e⟩ := by
  refine hi.quiet hqueued hcount hsize ?_
  rcases hi.phase with h | ⟨hk, hover⟩
  · exact Or.inl { h with startTransfer := hst.trans h.startTransfer, pf := hpf.trans h.pf }
  · exact Or.inr ⟨hk, hover.imp_right hst.trans⟩

theorem step_inv {s s' : Queueing} {e : SendLoop.Ev} (hi : ∃ k, o.Inv k s) (h : s.step e = some s') :
    ∃ k, o.Inv k s' := by
  obtain ⟨k, hi⟩ := hi
  obtain ⟨l, hl, rfl⟩ := Option.map_eq_some_iff.mp h
  unfold SendLoop.step at hl
  split at hl
  · rename_i hexited
    obtain rfl := Option.some.inj hl
    exact ⟨k, hi.quiet (Queueing.queued_nothing rfl) rfl rfl hi.phase⟩
  · rename_i hrunning
    cases e with
    | startSendFile junk now =>
      obtain rfl := Option.some.inj hl
      exact hi.round (by simpa using hrunning) junk now
    | evict count now =>
      obtain ⟨client, hclient, rfl⟩ := Option.map_eq_some_iff.mp hl
      unfold Client.evict at hclient
      split at hclient
      · cases hclient
      · split at hclient
        · obtain rfl := Option.some.inj hclient
          exact ⟨k, hi.client rfl rfl rfl rfl rfl⟩
        · cases hclient
    | resend pack =>
      obtain rfl := Option.some.inj hl
      exact ⟨k, hi.client rfl rfl rfl rfl rfl⟩

/-! ## The numbers -/

/-- The `count` that `Startudpsend` looks for. -/
def lookedFor (o : Outgoing) : Int := o.fileSize.tdiv 1390 + 1

/-- It is that of the last chunk, if the chunks are numbered on from the first. -/
def Recognised (o : Outgoing) : Prop := o.number 0 + chunkCount o.bytes = o.lookedFor + 1

/-- The first file, with a last chunk that is not whole, or whole chunks after a file of
    one chunk. -/
theorem recognised_of_int (o : Outgoing) (h : o.bytes.length < 2147483648) : o.Recognised ↔
    o.client.sendFileCount = 0 ∧ o.bytes.length % 1390 ≠ 0 ∨
      o.client.sendFileCount = 1 ∧ o.bytes.length % 1390 = 0 := by
  have hbounds := wrap_four_bounds o.client.sendFileCount
  rw [o.count] at hbounds
  have hcount : chunkCount o.bytes = (o.bytes.length + 1389) / 1390 := rfl
  have hsize : o.fileSize = o.bytes.length := wrap_four (by omega) (by omega)
  have hlooked : o.lookedFor = o.bytes.length / 1390 + 1 := by
    rw [lookedFor, hsize, Int.tdiv_eq_ediv_of_nonneg (Int.natCast_nonneg _)]
  have hfirst : o.client.sendFileCount < 2147483647 → o.number 0 = o.client.sendFileCount + 1 := fun hlt =>
    wrap_four (by push_cast; omega) (by push_cast; omega)
  unfold Recognised
  by_cases hlt : o.client.sendFileCount < 2147483647
  · rw [hfirst hlt, hlooked, hcount]
    omega
  · have hlast : o.number 0 = -2147483648 := by
      have : o.client.sendFileCount = 2147483647 := by omega
      rw [number, this]
      rfl
    rw [hlast, hlooked, hcount]
    omega

theorem Inv.mem_iff {k : Nat} {s : Queueing} (hi : o.Inv k s) (n : Int) :
    (∃ q ∈ s.chunks, Proto.count q = n) ↔ ∃ i < k, o.number i = n := by
  rw [← List.mem_map, hi.counts, List.mem_map]
  simp only [List.mem_range]

theorem Inv.length {k : Nat} {s : Queueing} (hi : o.Inv k s) : s.chunks.length = k := by
  simpa using congrArg List.length hi.counts

/-! ## Runs -/

def second : Outgoing where
  client := (((SendLoop.sender [0]).startSendFile (fun _ => 0) 0).bind (·.startSendFile (fun _ => 0) 0)).getD
    (SendLoop.sender [0])
  bytes := [0]
  nonempty := by decide
  count := by decide +kernel

end Outgoing

end GroupeChat.ChatClient
