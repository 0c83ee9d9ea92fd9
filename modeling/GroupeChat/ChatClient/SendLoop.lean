/-
  GroupeChat.ChatClient.SendLoop — whether the send loop comes to its end
  (`CmdModel::StartSendFile` with `CmdModel::udpSendFile`).

  A round of the loop looks at `feof`, which is set only by an `fread` that came back
  short, and else has `udpSendFile` read and queue the next 1390 bytes; an `fread` that
  gives nothing at all exits the process. In the rounds it also evicts old packets and
  answers requests for lost ones. `SendLoop` is the loop with the rounds it has made and
  the lengths of the chunks it has queued.

  `finishes_iff`: the loop sends the whole file and then closes it, in one round more than
  the file has chunks, exactly when the size of the file is no multiple of 1390. The last
  chunk of a file that is one comes back whole, and the next round exits; so does the first
  round of an empty file (`an_empty_file`).
-/

import GroupeChat.ChatClient.Transfers

namespace GroupeChat.ChatClient

open Base

structure SendLoop where
  client : Client
  rounds : Nat
  /-- Of the chunks that `udpSendFile` has queued. -/
  lengths : List Nat
  /-- `exit(0)`. -/
  exited : Bool

namespace SendLoop

inductive Ev where
  | startSendFile (junk : Buf) (now : Int)
  | evict (count now : Int)
  | resend (pack : Buf)

def chunk (client : Client) : List UInt8 :=
  match client.pf with
  | none => []
  | some pf => (pf.fread Proto.contextSize).1

def comesToUdpSendFile (client : Client) : Bool :=
  client.startTransfer && match client.pf with
    | none => false
    | some pf => !pf.eof

def startSendFile (l : SendLoop) (junk : Buf) (now : Int) : SendLoop :=
  match l.client.startSendFile junk now with
  | none => { l with rounds := l.rounds + 1, exited := true }
  | some client =>
    { l with
      client := client
      rounds := l.rounds + 1
      lengths := if comesToUdpSendFile l.client then l.lengths ++ [(chunk l.client).length] else l.lengths }

/-- After `exit(0)` nothing happens. -/
def step (l : SendLoop) (e : Ev) : Option SendLoop :=
  if l.exited then some l
  else
    match e with
    | .startSendFile junk now => some (l.startSendFile junk now)
    | .evict count now => (l.client.evict count now).map fun client => { l with client := client }
    | .resend pack => some { l with client := l.client.resend pack }

def init (client : Client) : SendLoop := ⟨client, 0, [], false⟩

structure Starting (bytes : List UInt8) (client : Client) : Prop where
  startTransfer : client.startTransfer = true
  sendFileCount : client.sendFileCount = 0
  pf : client.pf = some (.fopen false bytes)
  filename : client.filename.length < Proto.filenameSize

structure Sent (bytes : List UInt8) (l : SendLoop) : Prop where
  stopped : l.client.startTransfer = false
  closed : l.client.pf = none
  calls : l.lengths.length = chunkCount bytes
  whole : l.lengths.sum = bytes.length

/-- The loop does not exit, and with one round more than there are chunks it is done. -/
structure Finishes (bytes : List UInt8) (l : SendLoop) : Prop where
  running : l.exited = false
  sent : chunkCount bytes < l.rounds → Sent bytes l

/-! ## A round -/

structure Sending (bytes : List UInt8) (k : Nat) (l : SendLoop) : Prop where
  running : l.exited = false
  startTransfer : l.client.startTransfer = true
  pf : l.client.pf = some ⟨false, bytes, min (Proto.contextSize * k) bytes.length,
    decide (bytes.length < Proto.contextSize * k)⟩
  rounds : l.rounds = k
  calls : l.lengths.length = k
  sum : l.lengths.sum = min (Proto.contextSize * k) bytes.length

theorem Starting.sending {bytes : List UInt8} {client : Client} (h : Starting bytes client) :
    Sending bytes 0 (init client) where
  running := rfl
  startTransfer := h.startTransfer
  pf := by simp [init, h.pf, File.fopen]
  rounds := rfl
  calls := rfl
  sum := by simp [init]

theorem fread_eq {bytes : List UInt8} {k : Nat} (h : Proto.contextSize * k ≤ bytes.length) :
    (File.mk false bytes (min (Proto.contextSize * k) bytes.length) false).fread Proto.contextSize =
      ((bytes.drop (Proto.contextSize * k)).take Proto.contextSize,
        ⟨false, bytes, min (Proto.contextSize * (k + 1)) bytes.length,
          decide (bytes.length < Proto.contextSize * (k + 1))⟩) := by
  rw [Nat.min_eq_left h, Nat.mul_succ]
  unfold File.fread
  simp only [List.length_take, List.length_drop, Bool.false_or, Prod.mk.injEq, File.mk.injEq, decide_eq_decide,
    true_and]
  omega

/-- The end of the file has been met: the loop closes it. -/
theorem round_done {bytes : List UInt8} {k : Nat} {l : SendLoop} (h : Sending bytes k l) (junk : Buf) (now : Int)
    (hend : bytes.length < Proto.contextSize * k) :
    l.startSendFile junk now = { l with
      client := { l.client with pf := none, startTransfer := false }, rounds := l.rounds + 1 } := by
  have heof : decide (bytes.length < Proto.contextSize * k) = true := decide_eq_true hend
  have hround : l.client.startSendFile junk now = some { l.client with pf := none, startTransfer := false } := by
    unfold Client.startSendFile
    rw [h.startTransfer, h.pf]
    simp only [heof, if_true]
  have hcomes : comesToUdpSendFile l.client = false := by
    unfold comesToUdpSendFile
    rw [h.pf]
    simp only [heof, Bool.not_true, Bool.and_false]
  unfold startSendFile
  rw [hround, hcomes]
  rfl

/-- Else it reads on. -/
theorem round_reads {bytes : List UInt8} {k : Nat} {l : SendLoop} (h : Sending bytes k l) (junk : Buf) (now : Int)
    (hle : Proto.contextSize * k ≤ bytes.length) :
    l.client.startSendFile junk now = l.client.udpSendFile
      ⟨false, bytes, min (Proto.contextSize * k) bytes.length, false⟩ junk now ∧
    comesToUdpSendFile l.client = true ∧
    chunk l.client = (bytes.drop (Proto.contextSize * k)).take Proto.contextSize := by
  have heof : decide (bytes.length < Proto.contextSize * k) = false := decide_eq_false (Nat.not_lt.mpr hle)
  have hpf := h.pf
  rw [heof] at hpf
  refine ⟨?_, ?_, ?_⟩
  · unfold Client.startSendFile
    rw [h.startTransfer, hpf]
    rfl
  · unfold comesToUdpSendFile
    rw [h.startTransfer, hpf]
    rfl
  · unfold chunk
    rw [hpf]
    dsimp only
    rw [fread_eq hle]

theorem round_sending {bytes : List UInt8} {k : Nat} {l : SendLoop} (h : Sending bytes k l) (junk : Buf) (now : Int)
    (hlt : Proto.contextSize * k < bytes.length) : Sending bytes (k + 1) (l.startSendFile junk now) := by
  obtain ⟨hround, hcomes, hchunk⟩ := round_reads h junk now (Nat.le_of_lt hlt)
  have hlen : (chunk l.client).length = min Proto.contextSize (bytes.length - Proto.contextSize * k) := by
    rw [hchunk, List.length_take, List.length_drop]
  have hne : ¬ (chunk l.client).length = 0 := by
    rw [hlen]
    simp only [Proto.contextSize] at *
    omega
  have hrun : ∃ client, l.client.startSendFile junk now = some client ∧ client.startTransfer = true ∧
      client.pf = some ⟨false, bytes, min (Proto.contextSize * (k + 1)) bytes.length,
        decide (bytes.length < Proto.contextSize * (k + 1))⟩ := by
    rw [hround]
    unfold Client.udpSendFile SendFile.udpSendFile Client.sender
    dsimp only
    rw [fread_eq (Nat.le_of_lt hlt), ← hchunk, if_neg hne]
    exact ⟨_, rfl, h.startTransfer, rfl⟩
  obtain ⟨client, hclient, hstart, hpf⟩ := hrun
  unfold startSendFile
  rw [hclient, hcomes, if_pos rfl]
  constructor
  case running => exact h.running
  case startTransfer => exact hstart
  case pf => exact hpf
  case rounds => exact congrArg (· + 1) h.rounds
  case calls => simp [h.calls]
  case sum =>
    simp only [List.sum_append, List.sum_singleton, h.sum, hlen, Nat.mul_succ]
    omega

/-- A file that ends with a whole chunk: the next `fread` gives nothing. -/
theorem round_exits {bytes : List UInt8} {k : Nat} {l : SendLoop} (h : Sending bytes k l) (junk : Buf) (now : Int)
    (heq : bytes.length = Proto.contextSize * k) :
    l.startSendFile junk now = { l with rounds := l.rounds + 1, exited := true } := by
  obtain ⟨hround, -, -⟩ := round_reads h junk now (Nat.le_of_eq heq.symm)
  have hnone : l.client.startSendFile junk now = none := by
    rw [hround]
    unfold Client.udpSendFile SendFile.udpSendFile Client.sender
    dsimp only
    rw [fread_eq (Nat.le_of_eq heq.symm), ← heq, List.drop_length, List.take_nil]
    rfl
  unfold startSendFile
  rw [hnone]

/-! ## Runs -/

inductive Inv (bytes : List UInt8) (l : SendLoop) : Prop where
  | sending (k : Nat) (hk : k ≤ chunkCount bytes) (h : Sending bytes k l)
  | sent (hrun : l.exited = false) (h : Sent bytes l)

theorem Inv.finishes {bytes : List UInt8} {l : SendLoop} (h : Inv bytes l) : Finishes bytes l := by
  cases h with
  | sending k hk h =>
    refine ⟨h.running, fun hrounds => ?_⟩
    rw [h.rounds] at hrounds
    omega
  | sent hrun h => exact ⟨hrun, fun _ => h⟩

theorem Inv.round {bytes : List UInt8} {l : SendLoop} (h : Inv bytes l) (hsize : bytes.length % Proto.contextSize ≠ 0)
    (junk : Buf) (now : Int) : Inv bytes (l.startSendFile junk now) := by
  cases h with
  | sending k hk h =>
    have hcount : chunkCount bytes = (bytes.length + 1389) / 1390 := rfl
    simp only [Proto.contextSize] at hsize
    by_cases hlt : Proto.contextSize * k < bytes.length
    · exact .sending (k + 1) (SentFile.lt_chunkCount.mpr hlt) (round_sending h junk now hlt)
    · have hend : bytes.length < Proto.contextSize * k := by
        simp only [Proto.contextSize] at *
        omega
      rw [round_done h junk now hend]
      refine .sent h.running ⟨rfl, rfl, ?_, ?_⟩
      · rw [h.calls]
        simp only [Proto.contextSize] at *
        omega
      · rw [h.sum, Nat.min_eq_right (Nat.le_of_lt hend)]
  | sent hrun h =>
    have hidle : l.startSendFile junk now = { l with rounds := l.rounds + 1 } := by
      unfold startSendFile Client.startSendFile comesToUdpSendFile
      rw [h.stopped]
      rfl
    rw [hidle]
    exact .sent hrun ⟨h.stopped, h.closed, h.calls, h.whole⟩

/-- The other parts of the loop touch neither the file nor `startTransfer`. -/
theorem Inv.congr {bytes : List UInt8} {l : SendLoop} {client : Client} (h : Inv bytes l) (hpf : client.pf = l.client.pf)
    (hst : client.startTransfer = l.client.startTransfer) : Inv bytes { l with client := client } := by
  cases h with
  | sending k hk h =>
    exact .sending k hk { h with startTransfer := hst.trans h.startTransfer, pf := hpf.trans h.pf }
  | sent hrun h => exact .sent hrun { h with stopped := hst.trans h.stopped, closed := hpf.trans h.closed }

theorem step_inv {bytes : List UInt8} (hsize : bytes.length % Proto.contextSize ≠ 0) (l : SendLoop) (e : Ev)
    (l' : SendLoop) (h : Inv bytes l) (hs : step l e = some l') : Inv bytes l' := by
  unfold step at hs
  split at hs
  · cases hs
    exact h
  · cases e with
    | startSendFile junk now =>
      cases hs
      exact h.round hsize junk now
    | evict count now =>
      obtain ⟨client, hclient, rfl⟩ := Option.map_eq_some_iff.mp hs
      unfold Client.evict at hclient
      split at hclient
      · cases hclient
      · split at hclient
        · cases hclient
          exact h.congr rfl rfl
        · cases hclient
    | resend pack =>
      cases hs
      exact h.congr rfl rfl

/-- Round after round of a file whose last chunk is whole, up to the one that exits. -/
theorem run_exits {bytes : List UInt8} (hsize : bytes.length % Proto.contextSize = 0) {client : Client}
    (h : Starting bytes client) :
    ∃ l, run step (init client) (List.replicate (chunkCount bytes + 1) (.startSendFile (fun _ => 0) 0)) = some l ∧
      l.exited = true := by
  have hcount : bytes.length = Proto.contextSize * chunkCount bytes := by
    unfold chunkCount
    simp only [Proto.contextSize] at *
    omega
  have hsend : ∀ k ≤ chunkCount bytes,
      ∃ l, run step (init client) (List.replicate k (.startSendFile (fun _ => 0) 0)) = some l ∧ Sending bytes k l := by
    intro k
    induction k with
    | zero => exact fun _ => ⟨init client, rfl, h.sending⟩
    | succ k ih =>
      intro hk
      obtain ⟨l, hrun, hl⟩ := ih (Nat.le_of_succ_le hk)
      refine ⟨_, ?_, round_sending hl (fun _ => 0) 0 (SentFile.lt_chunkCount.mp hk)⟩
      rw [List.replicate_succ', run_append hrun]
      simp [run, step, hl.running]
  obtain ⟨l, hrun, hl⟩ := hsend _ (Nat.le_refl _)
  refine ⟨{ l with rounds := l.rounds + 1, exited := true }, ?_, rfl⟩
  rw [List.replicate_succ', run_append hrun, ← round_exits hl (fun _ => 0) 0 hcount]
  simp [run, step, hl.running]

/-- The loop sends the whole file and closes it exactly when its last chunk is not whole. -/
theorem finishes_iff {bytes : List UInt8} {client : Client} (h : Starting bytes client) :
    (∀ es, Always step (Finishes bytes) (init client) es) ↔ bytes.length % Proto.contextSize ≠ 0 := by
  refine ⟨?_, ?_⟩
  · intro hall hsize
    obtain ⟨l, hrun, hexited⟩ := run_exits hsize h
    rw [((hall _).last hrun).running] at hexited
    cases hexited
  · intro hsize es
    have hinv : Inv bytes (init client) := .sending 0 (Nat.zero_le _) h.sending
    exact (always_of_inv (step_inv hsize) hinv).mono fun _ => Inv.finishes

def sender (content : List UInt8) : Client := (Client.new 1 2 0 ['a'.toUInt8]).fileRet content

/-- A file of one byte is sent in one round and closed in the next. -/
theorem a_byte_is_sent : Starting [0] (sender [0]) ∧
    Always step (Finishes [0]) (init (sender [0])) [.startSendFile (fun _ => 0) 0, .startSendFile (fun _ => 0) 0] := by
  have hstart : Starting [0] (sender [0]) := ⟨rfl, rfl, rfl, by decide⟩
  exact ⟨hstart, (finishes_iff hstart).mpr (by decide) _⟩

/-- The first round of an empty file exits. -/
theorem an_empty_file : ¬ ∀ es, Always step (Finishes []) (init (sender [])) es := by
  intro h
  have hrun : run step (init (sender [])) [.startSendFile (fun _ => 0) 0] =
      some { init (sender []) with rounds := 1, exited := true } := rfl
  cases ((h _).last hrun).running

end SendLoop

end GroupeChat.ChatClient
