/-
  GroupeChat.ChatClient.Reassembly — whether what arrives is put together again.

  The chunks of a file arrive in any order and any number of times. The tracker writes
  each once, when it first arrives; `writeFile` seeks to its place, but the stream was
  opened with `a+` and writes at the end. So the file is the chunks in the order in which
  they first came (`Filed`), and it is reported complete when their lengths add up to its
  size, as ints.

  `whole_iff_ordered`: every report finds the whole file exactly when the chunks, put one
  behind the other as they first came, are the file by the time their lengths add up.
  Chunks that first come in order are (`ordered_of_sorted`), whatever comes again; the
  second before the first are not (`two_chunks_crossed`).
-/

import GroupeChat.ChatClient.SendFile
import GroupeChat.ChatClient.WriteFile
import Mathlib.Algebra.BigOperators.Intervals
import Mathlib.Algebra.Order.BigOperators.Group.Finset
import Mathlib.Data.List.Sort

namespace GroupeChat.ChatClient

open Base

/-! ## First arrivals -/

def firsts (cs : List Nat) : List Nat := cs.foldl (fun seen c => if c ∈ seen then seen else seen ++ [c]) []

theorem firsts_snoc (cs : List Nat) (c : Nat) :
    firsts (cs ++ [c]) = if c ∈ firsts cs then firsts cs else firsts cs ++ [c] := by
  rw [firsts, List.foldl_append]
  rfl

theorem mem_firsts {cs : List Nat} {d : Nat} : d ∈ firsts cs ↔ d ∈ cs := by
  induction cs using List.reverseRecOn with
  | nil => exact Iff.rfl
  | append_singleton cs c ih =>
    rw [firsts_snoc]
    by_cases hc : c ∈ firsts cs
    · rw [if_pos hc, ih, List.mem_append, List.mem_singleton]
      refine ⟨Or.inl, fun h => ?_⟩
      rcases h with h | rfl
      · exact h
      · exact ih.mp hc
    · rw [if_neg hc, List.mem_append, List.mem_append, ih]

theorem firsts_nodup (cs : List Nat) : (firsts cs).Nodup := by
  induction cs using List.reverseRecOn with
  | nil => exact List.nodup_nil
  | append_singleton cs c ih =>
    rw [firsts_snoc]
    by_cases hc : c ∈ firsts cs
    · rwa [if_pos hc]
    · rw [if_neg hc, ← List.concat_eq_append]
      exact ih.concat hc

namespace SentFile

structure Arrival (f : SentFile) where
  number : Nat
  pack : Buf
  sent : ∃ q, f.Sent number q ∧ Proto.Relayed q pack

theorem Arrival.chunk {f : SentFile} (a : f.Arrival) : f.Chunk a.number a.pack := by
  obtain ⟨q, hq, hr⟩ := a.sent
  exact (sent_chunk hq).relayed hr

def arrival (f : SentFile) (c : Nat) (hpos : 0 < c) (hle : c ≤ chunkCount f.bytes) : f.Arrival :=
  ⟨c, f.packet c, f.packet c, f.packet_sent hpos hle, .refl _⟩

/-- A fresh client accepts the file, having none of its name, and gets `as`. -/
def receive (f : SentFile) (as : List f.Arrival) : RecvFile :=
  as.foldl (fun m a => m.dealWithUdpSendFile a.pack) (RecvFile.new.recvFileDecide 'y'.toUInt8 [])

def joined (f : SentFile) (cs : List Nat) : List UInt8 := (cs.map f.chunk).flatten

/-- The lengths of the first `k` chunks add up to the size of the file, as ints. -/
def Completes (f : SentFile) (seen : List Nat) (k : Nat) : Prop :=
  0 < k ∧ k ≤ seen.length ∧ wrap 4 (f.joined (seen.take k)).length = wrap 4 f.bytes.length

/-- When the lengths of the first arrivals add up, the arrivals make the file. -/
def Ordered (f : SentFile) (cs : List Nat) : Prop :=
  ∀ k, f.Completes (firsts cs) k → f.joined ((firsts cs).take k) = f.bytes

theorem joined_snoc (f : SentFile) (cs : List Nat) (c : Nat) : f.joined (cs ++ [c]) = f.joined cs ++ f.chunk c := by
  simp [joined]

theorem joined_append (f : SentFile) (cs ds : List Nat) : f.joined (cs ++ ds) = f.joined cs ++ f.joined ds := by
  simp [joined]

theorem completes_snoc {f : SentFile} {seen : List Nat} {c k : Nat} :
    f.Completes (seen ++ [c]) k ↔ f.Completes seen k ∨
      k = seen.length + 1 ∧ wrap 4 (f.joined (seen ++ [c])).length = wrap 4 f.bytes.length := by
  unfold Completes
  rw [List.length_append, List.length_singleton]
  by_cases hk : k ≤ seen.length
  · rw [List.take_append_of_le_length hk]
    refine ⟨fun h => Or.inl ⟨h.1, hk, h.2.2⟩, fun h => ?_⟩
    · rcases h with ⟨h0, _, hw⟩ | ⟨rfl, _⟩
      · exact ⟨h0, by omega, hw⟩
      · omega
  · refine ⟨fun h => ?_, fun h => ?_⟩
    · obtain ⟨_, hle, hw⟩ := h
      rw [List.take_of_length_le (by simp; omega)] at hw
      exact Or.inr ⟨by omega, hw⟩
    · rcases h with ⟨_, hle, _⟩ | ⟨rfl, hw⟩
      · exact absurd hle hk
      · exact ⟨Nat.succ_pos _, Nat.le_refl _, by rwa [List.take_of_length_le (by simp)]⟩

/-- Once the first `k` have added up, what comes later does not change it. -/
theorem least_snoc {f : SentFile} {seen : List Nat} {k : Nat} (c : Nat) (hk : f.Completes seen k)
    (hleast : ∀ j < k, ¬ f.Completes seen j) :
    f.Completes (seen ++ [c]) k ∧ (∀ j < k, ¬ f.Completes (seen ++ [c]) j) ∧
      (seen ++ [c]).take k = seen.take k := by
  refine ⟨completes_snoc.mpr (Or.inl hk), fun j hj hjc => ?_, List.take_append_of_le_length hk.2.1⟩
  rcases completes_snoc.mp hjc with h | ⟨rfl, _⟩
  · exact hleast j hj h
  · have := hk.2.1
    omega

/-! ## The file as it grows -/

/-- The chunks in `seen` have been written, in that order: the file has them all, or it
    was closed when the first `k` of them added up. -/
inductive Filed (f : SentFile) (seen : List Nat) (m : RecvFile) : Prop where
  | opened (pf : File) (hf : m.faulted = false) (hpf : m.pf = some pf) (ha : pf.append = true)
      (hc : pf.content = f.joined seen) (hs : m.recvFileSize = wrap 4 (f.joined seen).length)
      (hn : ∀ k, ¬ f.Completes seen k) (hr : m.reports = [])
  | closed (k : Nat) (hk : f.Completes seen k) (hleast : ∀ j < k, ¬ f.Completes seen j) (hpf : m.pf = none)
      (hr : m.reports = [f.joined (seen.take k)])

theorem new_filed (f : SentFile) : Filed f [] (RecvFile.new.recvFileDecide 'y'.toUInt8 []) := by
  refine .opened (.fopen true []) rfl rfl rfl rfl ?_ (fun _ ⟨h0, hle, _⟩ => absurd hle (Nat.not_le.mpr h0)) rfl
  rw [joined, List.map_nil, List.flatten_nil, List.length_nil]
  decide

/-- A chunk that is written goes to the end of the file, whatever its number. -/
theorem writeFile_filed {f : SentFile} {seen : List Nat} {m : RecvFile} {c : Nat} {p : Buf} (h : Filed f seen m)
    (hp : f.Chunk c p) : Filed f (seen ++ [c]) (m.writeFile p c) := by
  have hlen : (f.chunk c).length ≤ Proto.contextSize := by
    rw [chunk_length]
    exact Nat.min_le_left _ _
  have hsize : Proto.length p - Proto.contextOff = (f.chunk c).length := by
    rw [hp.length]
    omega
  unfold RecvFile.writeFile
  dsimp only
  rw [hsize, hp.filesize, Int.toNat_natCast, hp.context]
  cases h with
  | opened pf hf hpf ha hc hs hn hr =>
    rw [hpf]
    dsimp only
    have ha' : (pf.fseek (wrap 4 (Proto.contextSize * ((c : Int) - 1)))).append = true := by
      rw [File.fseek_append]
      exact ha
    rw [if_neg (by omega), File.fwrite_nwrite ha', hs, wrap_add, hr, List.nil_append]
    have hsum : ((f.joined seen).length + (f.chunk c).length : Int) = (f.joined (seen ++ [c])).length := by
      rw [joined_snoc, List.length_append]
      push_cast
      rfl
    have hcontent : ((pf.fseek (wrap 4 (Proto.contextSize * ((c : Int) - 1)))).fwrite (f.chunk c)).2.content =
        f.joined (seen ++ [c]) := by
      rw [File.fwrite_content ha', File.fseek_content, hc, joined_snoc]
    rw [hsum, hcontent]
    by_cases hdone : wrap 4 (f.joined (seen ++ [c])).length = wrap 4 f.bytes.length
    · rw [if_pos hdone]
      refine .closed (seen.length + 1) (completes_snoc.mpr (Or.inr ⟨rfl, hdone⟩)) (fun j hj hjc => ?_) rfl ?_
      · rcases completes_snoc.mp hjc with h | ⟨rfl, _⟩
        · exact hn j h
        · omega
      · rw [List.take_of_length_le (by simp)]
    · rw [if_neg hdone]
      refine .opened _ hf rfl ?_ hcontent rfl (fun k hk => ?_) rfl
      · rw [File.fwrite_append]
        exact ha'
      · rcases completes_snoc.mp hk with h | ⟨_, h⟩
        · exact hn k h
        · exact hdone h
  | closed k hk hleast hpf hr =>
    rw [hpf]
    obtain ⟨hk', hleast', htake⟩ := least_snoc c hk hleast
    exact .closed k hk' hleast' rfl (by rw [htake]; exact hr)

/-! ## Runs -/

structure Inv (f : SentFile) (cs : List Nat) (m : RecvFile) : Prop where
  filed : Filed f (firsts cs) m
  tracking : m.faulted = false → m.Tracking cs

theorem Filed.congr {f : SentFile} {seen : List Nat} {m : RecvFile} (h : Filed f seen m) (mp : StdMap Int Int) (now : Int) :
    Filed f seen { m with mUdpMap := mp, nowPackNum := now } := by
  cases h with
  | opened pf hf hpf ha hc hs hn hr => exact .opened pf hf hpf ha hc hs hn hr
  | closed k hk hleast hpf hr => exact .closed k hk hleast hpf hr

/-- After a fault the file is closed, and stays as it is. -/
theorem Filed.faulted {f : SentFile} {seen : List Nat} {m : RecvFile} (h : Filed f seen m) (hf : m.faulted = true)
    (c : Nat) : Filed f (seen ++ [c]) m := by
  cases h with
  | opened pf hnot => cases hf.symm.trans hnot
  | closed k hk hleast hpf hr =>
    obtain ⟨hk', hleast', htake⟩ := least_snoc c hk hleast
    exact .closed k hk' hleast' hpf (by rw [htake]; exact hr)

theorem deal_inv {f : SentFile} {cs : List Nat} {m : RecvFile} (h : Inv f cs m) (hcs : ∀ c ∈ cs, c ≤ chunkCount f.bytes)
    {c : Nat} {p : Buf} (hp : f.Chunk c p) : Inv f (cs ++ [c]) (m.dealWithUdpSendFile p) := by
  have hnum := f.numbered
  cases hf : m.faulted with
  | true =>
    have hsame : m.dealWithUdpSendFile p = m := by
      unfold RecvFile.dealWithUdpSendFile
      rw [if_pos hf]
    rw [hsame]
    refine ⟨?_, fun h => (nomatch hf.symm.trans h)⟩
    rw [firsts_snoc]
    split
    · exact h.filed
    · exact h.filed.faulted hf c
  | false =>
    have hlt : c < 2147483648 := Nat.lt_of_le_of_lt hp.le hnum
    have hcs' : ∀ d ∈ cs, d < 2147483648 := fun d hd => Nat.lt_of_le_of_lt (hcs d hd) hnum
    refine ⟨?_, fun _ => RecvFile.deal_tracking (h.tracking hf) hcs' hf hp.count hp.pos hlt⟩
    rcases RecvFile.deal_cases (h.tracking hf) hcs' hf hp.count hp.pos hlt with ⟨hold, heq⟩ | ⟨hnew, mp, now, heq, -⟩
    · rw [heq, firsts_snoc, if_pos (mem_firsts.mpr hold)]
      exact h.filed
    · rw [heq, firsts_snoc, if_neg fun hmem => hnew (mem_firsts.mp hmem)]
      exact writeFile_filed (h.filed.congr mp now) hp

theorem receive_inv (f : SentFile) (as : List f.Arrival) : Inv f (as.map Arrival.number) (f.receive as) := by
  induction as using List.reverseRecOn with
  | nil => exact ⟨f.new_filed, fun _ => RecvFile.new_tracking.congr rfl rfl⟩
  | append_singleton as a ih =>
    have hcs : ∀ c ∈ as.map Arrival.number, c ≤ chunkCount f.bytes := by
      intro c hc
      obtain ⟨b, _, rfl⟩ := List.mem_map.mp hc
      exact b.chunk.le
    rw [receive, List.foldl_append, List.map_append]
    exact deal_inv ih hcs a.chunk

/-! ## How long different chunks are -/

theorem joined_length (f : SentFile) {cs : List Nat} (hn : cs.Nodup) :
    (f.joined cs).length = ∑ c ∈ cs.toFinset, (f.chunk c).length := by
  rw [List.sum_toFinset _ hn, joined, List.length_flatten, List.map_map]
  rfl

theorem sum_chunks (f : SentFile) (n : Nat) :
    ∑ i ∈ Finset.range n, (f.chunk (i + 1)).length = min (Proto.contextSize * n) f.bytes.length := by
  induction n with
  | zero => simp
  | succ n ih =>
    rw [Finset.sum_range_succ, ih, chunk_length, Nat.add_sub_cancel, Nat.mul_succ]
    omega

theorem sum_all_chunks (f : SentFile) :
    ∑ c ∈ Finset.Ico 1 (chunkCount f.bytes + 1), (f.chunk c).length = f.bytes.length := by
  rw [Finset.sum_Ico_eq_sum_range, Nat.add_sub_cancel]
  simp only [Nat.add_comm 1]
  rw [sum_chunks]
  unfold chunkCount
  simp only [Proto.contextSize]
  omega

/-- Different chunks are no longer than the file. -/
theorem joined_length_le {f : SentFile} {cs : List Nat} (hn : cs.Nodup) (hcs : ∀ c ∈ cs, 0 < c ∧ c ≤ chunkCount f.bytes) :
    (f.joined cs).length ≤ f.bytes.length := by
  calc (f.joined cs).length = ∑ c ∈ cs.toFinset, (f.chunk c).length := f.joined_length hn
    _ ≤ ∑ c ∈ Finset.Ico 1 (chunkCount f.bytes + 1), (f.chunk c).length := by
        refine Finset.sum_le_sum_of_subset fun c hc => ?_
        have := hcs c (List.mem_toFinset.mp hc)
        exact Finset.mem_Ico.mpr (by omega)
    _ = f.bytes.length := f.sum_all_chunks

/-- Every report finds the whole file exactly when the chunks, as they first came, make
    the file by the time their lengths add up. -/
theorem whole_iff_ordered (f : SentFile) (as : List f.Arrival) :
    (∀ r ∈ (f.receive as).reports, r = f.bytes) ↔ f.Ordered (as.map Arrival.number) := by
  have hnums : ∀ c ∈ firsts (as.map Arrival.number), 0 < c ∧ c ≤ chunkCount f.bytes := by
    intro c hc
    obtain ⟨a, _, rfl⟩ := List.mem_map.mp (mem_firsts.mp hc)
    exact ⟨a.chunk.pos, a.chunk.le⟩
  have hnodup := firsts_nodup (as.map Arrival.number)
  cases (f.receive_inv as).filed with
  | opened pf hf hpf ha hc hs hn hr =>
    rw [hr]
    exact ⟨fun _ k hk => absurd hk (hn k), fun _ => nofun⟩
  | closed k hk hleast hpf hr =>
    rw [hr]
    refine ⟨fun h j hj => ?_, fun h r hmem => ?_⟩
    · have hwhole := h _ (List.mem_singleton_self _)
      have hkj : k ≤ j := Nat.not_lt.mp fun hlt => hleast j hlt hj
      -- what came after the first `k` is empty: the file is all there
      have hsplit : (firsts (as.map Arrival.number)).take j =
          (firsts (as.map Arrival.number)).take k ++ ((firsts (as.map Arrival.number)).drop k).take (j - k) := by
        rw [← List.take_add, Nat.add_sub_cancel' hkj]
      have hle := joined_length_le (f := f) (hnodup.sublist (List.take_sublist j _))
        fun c hc => hnums c (List.mem_of_mem_take hc)
      rw [hsplit, joined_append, List.length_append, hwhole] at hle
      have hrest : f.joined (((firsts (as.map Arrival.number)).drop k).take (j - k)) = [] :=
        List.length_eq_zero_iff.mp (by omega)
      rw [hsplit, joined_append, hwhole, hrest, List.append_nil]
    · rw [List.mem_singleton.mp hmem]
      exact h k hk

def crossed : SentFile :=
  { bytes := List.replicate Proto.contextSize 0 ++ [1]
    name := [97]
    userId := 1
    sendFileToClientId := 2
    name_fits := by decide
    numbered := by
      rw [chunkCount, List.length_append, List.length_replicate]
      decide }

theorem crossed_count : chunkCount crossed.bytes = 2 := by
  rw [chunkCount, crossed, List.length_append, List.length_replicate]
  rfl

theorem crossed_chunk : crossed.chunk 2 = [1] := by
  have hdrop : crossed.bytes.drop Proto.contextSize = [1] := List.drop_left' List.length_replicate
  rw [chunk, Nat.mul_one, hdrop]
  rfl

def crossedArrivals : List crossed.Arrival :=
  [crossed.arrival 2 (by decide) (by rw [crossed_count]), crossed.arrival 1 (by decide) (by rw [crossed_count]; decide)]

/-- The second chunk, a single 1, comes first: the file that the receiver calls complete
    starts with it. -/
theorem two_chunks_crossed : ¬ ∀ r ∈ (crossed.receive crossedArrivals).reports, r = crossed.bytes := by
  have hlen : (crossed.joined [2, 1]).length = crossed.bytes.length := by
    rw [joined_length _ (by decide), ← sum_all_chunks, crossed_count]
    exact Finset.sum_congr (by decide) fun _ _ => rfl
  have hcross : crossed.Completes [2, 1] 2 := ⟨by decide, Nat.le_refl 2, by rw [List.take_of_length_le (Nat.le_refl 2), hlen]⟩
  have hfirsts : firsts (crossedArrivals.map Arrival.number) = [2, 1] := by decide
  intro h
  cases (crossed.receive_inv crossedArrivals).filed with
  | opened pf hf hpf ha hc hs hn hr =>
    rw [hfirsts] at hn
    exact hn 2 hcross
  | closed k hk hleast hpf hr =>
    have hwhole := h (crossed.joined ((firsts (crossedArrivals.map Arrival.number)).take k))
      (hr ▸ List.mem_singleton_self _)
    obtain ⟨k, rfl⟩ := Nat.exists_eq_add_of_lt hk.1
    rw [hfirsts, Nat.zero_add, List.take_succ_cons, joined, List.map_cons, List.flatten_cons, crossed_chunk] at hwhole
    have hzero : crossed.bytes.head? = some 0 := by
      have : crossed.bytes = List.replicate (1389 + 1) 0 ++ [1] := rfl
      rw [this, List.replicate_succ]
      rfl
    rw [← hwhole] at hzero
    cases hzero

/-! ## In order -/

/-- In a file of less than `2 ^ 32` bytes, different chunks that add up are all of it. -/
theorem length_of_completes {f : SentFile} {seen : List Nat} {k : Nat} (hsize : f.bytes.length < 4294967296)
    (hn : seen.Nodup) (hseen : ∀ c ∈ seen, 0 < c ∧ c ≤ chunkCount f.bytes) (hk : f.Completes seen k) :
    (f.joined (seen.take k)).length = f.bytes.length := by
  have hle := joined_length_le (f := f) (hn.sublist (List.take_sublist k _)) fun c hc => hseen c (List.mem_of_mem_take hc)
  have hmod := congrArg (· % (256 ^ 4 : Int)) hk.2.2
  simp only [wrap_emod] at hmod
  norm_num at hmod
  omega

/-- Chunks of which none is missing, in order, are the file. -/
theorem joined_range (f : SentFile) (n : Nat) : f.joined (List.range' 1 n) = f.bytes.take (Proto.contextSize * n) := by
  induction n with
  | zero => simp [joined]
  | succ n ih =>
    rw [List.range'_1_concat, joined_snoc, ih, chunk, Nat.add_sub_cancel_left, Nat.mul_succ, List.take_add]

theorem joined_sorted {f : SentFile} {cs : List Nat} (hs : cs.Pairwise (· < ·))
    (hcs : ∀ c ∈ cs, 0 < c ∧ c ≤ chunkCount f.bytes) (hlen : (f.joined cs).length = f.bytes.length) :
    f.joined cs = f.bytes := by
  have hn : cs.Nodup := hs.imp fun h => Nat.ne_of_lt h
  have hsub : cs.toFinset ⊆ Finset.Ico 1 (chunkCount f.bytes + 1) := by
    intro c hc
    have := hcs c (List.mem_toFinset.mp hc)
    exact Finset.mem_Ico.mpr (by omega)
  -- a chunk left out would be missing from the length
  have hall : ∀ c ∈ List.range' 1 (chunkCount f.bytes), c ∈ cs := by
    intro c hc
    have hc' := List.mem_range'_1.mp hc
    by_contra hout
    have hpos : 0 < (f.chunk c).length := by
      have := lt_chunkCount.mp (show c - 1 < chunkCount f.bytes by omega)
      rw [chunk_length]
      simp only [Proto.contextSize] at *
      omega
    have hlt := Finset.sum_lt_sum_of_subset (f := fun c => (f.chunk c).length) hsub (Finset.mem_Ico.mpr (by omega))
      (fun h => hout (List.mem_toFinset.mp h)) hpos fun _ _ _ => Nat.zero_le _
    rw [← f.joined_length hn, f.sum_all_chunks, hlen] at hlt
    exact Nat.lt_irrefl _ hlt
  have hperm : cs.Perm (List.range' 1 (chunkCount f.bytes)) := by
    rw [List.perm_ext_iff_of_nodup hn List.nodup_range']
    intro c
    refine ⟨fun hc => List.mem_range'_1.mpr ?_, hall c⟩
    have := hcs c hc
    omega
  rw [hperm.eq_of_pairwise' hs List.pairwise_lt_range', joined_range]
  refine List.take_of_length_le ?_
  unfold chunkCount
  simp only [Proto.contextSize]
  omega

/-- Chunks that first come in order are put together, whatever comes again. -/
theorem ordered_of_sorted {f : SentFile} {cs : List Nat} (hsize : f.bytes.length < 4294967296)
    (hcs : ∀ c ∈ cs, 0 < c ∧ c ≤ chunkCount f.bytes) (hs : (firsts cs).Pairwise (· < ·)) : f.Ordered cs := by
  intro k hk
  have hseen : ∀ c ∈ firsts cs, 0 < c ∧ c ≤ chunkCount f.bytes := fun c hc => hcs c (mem_firsts.mp hc)
  exact joined_sorted (hs.sublist (List.take_sublist k _)) (fun c hc => hseen c (List.mem_of_mem_take hc))
    (length_of_completes hsize (firsts_nodup cs) hseen hk)

end SentFile

end GroupeChat.ChatClient
