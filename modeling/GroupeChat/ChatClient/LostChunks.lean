/-
  GroupeChat.ChatClient.LostChunks — what a client knows of the chunks that have not come.

  A transfer is any number of chunks of any lengths (`Transfer`); its packets arrive in
  any order and any number of times. `receive` keeps, beside the client, the numbers for
  which `writeFile` was called.

  After any arrivals (`tracking_exact`): the keys of `m_udpMap` are the numbers up to
  `nowPackNum` that were not written, every number that arrived was written once, and the
  file was reported complete once if all have arrived, else not yet. That a running
  total of lengths notices the last chunk rests on every chunk having a length
  (`total_eq_iff`).
-/

import GroupeChat.ChatClient.WriteFile
import Mathlib.Algebra.BigOperators.Intervals
import Mathlib.Algebra.Order.BigOperators.Group.Finset

namespace GroupeChat.ChatClient

open Base

/-- The chunks 1 to `n` of a file, by their lengths. -/
structure Transfer where
  n : Nat
  len : Nat → Nat
  nonempty : 1 ≤ n
  pos : ∀ c, 1 ≤ c → c ≤ n → 0 < len c
  /-- A packet has room for it. -/
  fits : ∀ c, 1 ≤ c → c ≤ n → len c ≤ Proto.contextSize
  small : ∑ c ∈ Finset.Icc 1 n, len c < 2147483648

namespace Transfer

variable {t : Transfer}

def filesize (t : Transfer) : Nat := ∑ c ∈ Finset.Icc 1 t.n, t.len c

structure Arrival (t : Transfer) where
  pack : Buf
  number : Nat
  pos : 1 ≤ number
  le : number ≤ t.n
  cmdId : Proto.cmdId pack = CmdId.udpSendFile.code
  count : Proto.count pack = number
  length : Proto.length pack = Proto.contextOff + t.len number
  filesize : Proto.filesize pack = t.filesize

structure Receiver where
  client : RecvFile
  called : List Nat

def Receiver.next (r : Receiver) (a : t.Arrival) : Receiver where
  client := r.client.dealWithUdpSendFile a.pack
  called := if r.client.comesToWriteFile a.pack then r.called ++ [a.number] else r.called

/-- A fresh client accepts the file, with `there` in the file of its name, and gets `as`. -/
def receive (there : List UInt8) (as : List t.Arrival) : Receiver :=
  as.foldl Receiver.next ⟨RecvFile.new.recvFileDecide 'y'.toUInt8 there, []⟩

/-! ## How long different chunks are -/

theorem n_le (t : Transfer) : t.n ≤ t.filesize := by
  have h : ∑ _c ∈ Finset.Icc 1 t.n, 1 ≤ t.filesize := by
    apply Finset.sum_le_sum
    intro c hc
    have hc := Finset.mem_Icc.mp hc
    exact t.pos c hc.1 hc.2
  simpa using h

def total (t : Transfer) (cs : List Nat) : Nat := (cs.map t.len).sum

theorem total_eq {cs : List Nat} (hn : cs.Nodup) : t.total cs = ∑ c ∈ cs.toFinset, t.len c :=
  (List.sum_toFinset _ hn).symm

theorem subset_Icc {cs : List Nat} (hcs : ∀ c ∈ cs, 1 ≤ c ∧ c ≤ t.n) : cs.toFinset ⊆ Finset.Icc 1 t.n := by
  intro c hc
  exact Finset.mem_Icc.mpr (hcs c (List.mem_toFinset.mp hc))

theorem total_le {cs : List Nat} (hn : cs.Nodup) (hcs : ∀ c ∈ cs, 1 ≤ c ∧ c ≤ t.n) : t.total cs ≤ t.filesize := by
  rw [total_eq hn]
  exact Finset.sum_le_sum_of_subset (subset_Icc hcs)

/-- Different chunks are as long as the file exactly when none is missing. -/
theorem total_eq_iff {cs : List Nat} (hn : cs.Nodup) (hcs : ∀ c ∈ cs, 1 ≤ c ∧ c ≤ t.n) :
    t.total cs = t.filesize ↔ ∀ c, 1 ≤ c → c ≤ t.n → c ∈ cs := by
  rw [total_eq hn]
  refine ⟨?_, ?_⟩
  · intro hsum c h1 hle
    by_contra hout
    have hlt := Finset.sum_lt_sum_of_subset (f := t.len) (subset_Icc hcs) (Finset.mem_Icc.mpr ⟨h1, hle⟩)
      (fun h => hout (List.mem_toFinset.mp h)) (t.pos c h1 hle) fun _ _ _ => Nat.zero_le _
    rw [hsum] at hlt
    exact Nat.lt_irrefl _ hlt
  · intro hall
    have heq : cs.toFinset = Finset.Icc 1 t.n := by
      apply Finset.Subset.antisymm (subset_Icc hcs)
      intro c hc
      have hc := Finset.mem_Icc.mp hc
      exact List.mem_toFinset.mpr (hall c hc.1 hc.2)
    rw [heq]
    rfl

theorem total_snoc (cs : List Nat) (c : Nat) : t.total (cs ++ [c]) = t.total cs + t.len c := by
  simp [total]

/-! ## Arrivals -/

/-- The chunks in `cs` have been written: the file is open, or complete and reported. -/
inductive Progress (t : Transfer) (cs : List Nat) (m : RecvFile) : Prop where
  | opened (pf : File) (hpf : m.pf = some pf) (ha : pf.append = true) (hs : m.recvFileSize = t.total cs)
      (hlt : t.total cs < t.filesize) (hr : m.reports = [])
  | reported (hall : t.total cs = t.filesize) (hr : m.reports.length = 1)

structure Inv (t : Transfer) (cs : List Nat) (r : Receiver) : Prop where
  tracking : r.client.Tracking cs
  unfaulted : r.client.faulted = false
  nodup : r.called.Nodup
  mem : ∀ c, c ∈ r.called ↔ c ∈ cs
  range : ∀ c ∈ cs, 1 ≤ c ∧ c ≤ t.n
  progress : Progress t r.called r.client

theorem accept_inv (t : Transfer) (there : List UInt8) : Inv t [] ⟨RecvFile.new.recvFileDecide 'y'.toUInt8 there, []⟩ where
  tracking := RecvFile.new_tracking.congr rfl rfl
  unfaulted := rfl
  nodup := List.nodup_nil
  mem := fun _ => Iff.rfl
  range := nofun
  progress := .opened (.fopen true there) rfl rfl rfl (Nat.lt_of_lt_of_le t.nonempty t.n_le) rfl

/-- A chunk that goes to the open file is the last one or leaves the file open. -/
theorem writeFile_progress {cs : List Nat} {m : RecvFile} {a : t.Arrival} {pf : File} (hpf : m.pf = some pf)
    (ha : pf.append = true) (hs : m.recvFileSize = t.total cs) (hr : m.reports = [])
    (hle : t.total cs + t.len a.number ≤ t.filesize) :
    Progress t (cs ++ [a.number]) (m.writeFile a.pack a.number) ∧ (m.writeFile a.pack a.number).faulted = m.faulted := by
  have hfits := t.fits a.number a.pos a.le
  have hsmall : t.filesize < 2147483648 := t.small
  have hsize : Proto.length a.pack - Proto.contextOff = t.len a.number := by
    rw [a.length]
    omega
  have ha' : (pf.fseek (wrap 4 (Proto.contextSize * ((a.number : Int) - 1)))).append = true := by
    rw [File.fseek_append]
    exact ha
  have hsum : wrap 4 ((t.total cs : Int) + t.len a.number) = (t.total cs + t.len a.number : Nat) := by
    rw [wrap_four (by omega) (by omega)]
    rfl
  unfold RecvFile.writeFile
  dsimp only
  rw [hpf, hsize, a.filesize]
  dsimp only
  rw [if_neg (by omega), File.fwrite_nwrite ha', Mem.read_length, Int.toNat_natCast, hs, hsum, hr]
  by_cases hlast : t.total cs + t.len a.number = t.filesize
  · rw [if_pos (by rw [hlast])]
    exact ⟨.reported (by rw [total_snoc, hlast]) rfl, rfl⟩
  · rw [if_neg fun h => hlast (Int.ofNat_inj.mp h)]
    refine ⟨.opened _ rfl ?_ ?_ ?_ rfl, rfl⟩
    · rw [File.fwrite_append]
      exact ha'
    · rw [total_snoc]
    · rw [total_snoc]
      omega

theorem next_inv {cs : List Nat} {r : Receiver} (h : Inv t cs r) (a : t.Arrival) : Inv t (cs ++ [a.number]) (r.next a) := by
  have hbound : ∀ d, 1 ≤ d ∧ d ≤ t.n → d < 2147483648 := fun d hd =>
    Nat.lt_of_le_of_lt (Nat.le_trans hd.2 t.n_le) t.small
  have hcs : ∀ d ∈ cs, d < 2147483648 := fun d hd => hbound d (h.range d hd)
  have hlt := hbound a.number ⟨a.pos, a.le⟩
  have hcomes := RecvFile.comesToWriteFile_iff h.tracking hcs a.count a.pos hlt
  have hrange : ∀ d ∈ cs ++ [a.number], 1 ≤ d ∧ d ≤ t.n := by
    intro d hd
    rcases List.mem_append.mp hd with hd | hd
    · exact h.range d hd
    · rw [List.mem_singleton.mp hd]
      exact ⟨a.pos, a.le⟩
  rcases RecvFile.deal_cases h.tracking hcs h.unfaulted a.count a.pos hlt with ⟨hold, hdeal⟩ | ⟨hnew, mp, now, hdeal, ht⟩
  · have hnext : r.next a = r := by
      unfold Receiver.next
      rw [hdeal, if_neg fun hc => hcomes.mp hc hold]
    rw [hnext]
    refine { h with tracking := h.tracking.again hold, range := hrange, mem := fun d => ?_ }
    rw [h.mem, List.mem_append, List.mem_singleton]
    refine ⟨Or.inl, fun hd => ?_⟩
    rcases hd with hd | rfl
    · exact hd
    · exact hold
  · have hnext : r.next a = ⟨{ r.client with mUdpMap := mp, nowPackNum := now }.writeFile a.pack a.number,
        r.called ++ [a.number]⟩ := by
      unfold Receiver.next
      rw [hdeal, if_pos (hcomes.mpr hnew)]
    have hcalled : a.number ∉ r.called := fun hc => hnew ((h.mem _).mp hc)
    have hnodup : (r.called ++ [a.number]).Nodup := by
      rw [← List.concat_eq_append]
      exact h.nodup.concat hcalled
    have hmem : ∀ d, d ∈ r.called ++ [a.number] ↔ d ∈ cs ++ [a.number] := by
      intro d
      rw [List.mem_append, List.mem_append, h.mem]
    have hle := total_le (t := t) hnodup fun d hd => hrange d ((hmem d).mp hd)
    rw [total_snoc] at hle
    have hprogress : Progress t (r.called ++ [a.number]) (r.next a).client ∧ (r.next a).client.faulted = false := by
      rw [hnext]
      cases h.progress with
      | opened pf hpf ha hs _ hr =>
        obtain ⟨hp, hf⟩ := writeFile_progress (m := { r.client with mUdpMap := mp, nowPackNum := now }) hpf ha hs hr hle
        exact ⟨hp, hf.trans h.unfaulted⟩
      | reported hall _ =>
        -- the file has every chunk
        have hin := (total_eq_iff h.nodup fun d hd => h.range d ((h.mem d).mp hd)).mp hall
        exact absurd (hin a.number a.pos a.le) hcalled
    constructor
    case tracking => rw [hnext]; exact RecvFile.writeFile_tracking ht a.pack a.number
    case unfaulted => exact hprogress.2
    case nodup => rw [hnext]; exact hnodup
    case mem => rw [hnext]; exact hmem
    case range => exact hrange
    case progress =>
      have := hprogress.1
      rw [hnext] at this ⊢
      exact this

theorem receive_inv (there : List UInt8) (as : List t.Arrival) :
    Inv t (as.map Arrival.number) (receive there as) := by
  induction as using List.reverseRecOn with
  | nil => exact accept_inv t there
  | append_singleton as a ih =>
    rw [receive, List.foldl_append, List.map_append]
    exact next_inv ih a

structure Exact (t : Transfer) (cs : List Nat) (r : Receiver) : Prop where
  unfaulted : r.client.faulted = false
  missing : ∀ k : Int, (∃ user, r.client.mUdpMap.find? k = some user) ↔
    ∃ c : Nat, k = c ∧ 1 ≤ c ∧ (c : Int) ≤ r.client.nowPackNum ∧ c ∉ r.called
  once : r.called.Nodup
  written : ∀ c, c ∈ r.called ↔ c ∈ cs
  complete : r.client.reports.length = if ∀ c ∈ List.range' 1 t.n, c ∈ cs then 1 else 0

theorem tracking_exact (t : Transfer) (there : List UInt8) (as : List t.Arrival) :
    Exact t (as.map Arrival.number) (receive there as) := by
  have h := receive_inv there as
  constructor
  case unfaulted => exact h.unfaulted
  case missing =>
    intro k
    rw [← Option.isSome_iff_exists, h.tracking.missing]
    simp only [h.mem]
    rfl
  case once => exact h.nodup
  case written => exact h.mem
  case complete =>
    have hall := total_eq_iff h.nodup fun d hd => h.range d ((h.mem d).mp hd)
    simp only [h.mem] at hall
    cases h.progress with
    | opened pf hpf ha hs hlt hr =>
      rw [hr, if_neg]
      · rfl
      · intro hin
        exact Nat.ne_of_lt hlt (hall.mpr fun c h1 hle => hin c (List.mem_range'_1.mpr ⟨h1, by omega⟩))
    | reported htotal hr =>
      rw [hr, if_pos]
      intro c hc
      have hc := List.mem_range'_1.mp hc
      exact hall.mp htotal c hc.1 (by omega)

def twoBytes : Transfer where
  n := 2
  len _ := 1
  nonempty := by decide
  pos _ _ _ := Nat.one_pos
  fits _ _ _ := by decide
  small := by decide

def ofTwoBytes (number : Nat) : Buf :=
  ((((Mem.putInt 4 (fun _ => 0) 0 CmdId.udpSendFile.code).putInt 4 8 (Proto.contextOff + 1)).putInt 4 Proto.countOff
    number).putInt 4 Proto.filesizeOff 2)

def firstByte : twoBytes.Arrival where
  pack := ofTwoBytes 1
  number := 1
  pos := by decide
  le := by decide
  cmdId := by decide +kernel
  count := by decide +kernel
  length := by decide +kernel
  filesize := by decide +kernel

def secondByte : twoBytes.Arrival where
  pack := ofTwoBytes 2
  number := 2
  pos := by decide
  le := by decide
  cmdId := by decide +kernel
  count := by decide +kernel
  length := by decide +kernel
  filesize := by decide +kernel

/-- The second comes first, and again after the first. -/
theorem two_bytes_crossed : Exact twoBytes [2, 1, 2] (receive [] [secondByte, firstByte, secondByte]) :=
  tracking_exact twoBytes [] [secondByte, firstByte, secondByte]

end Transfer

end GroupeChat.ChatClient
