/-
  GroupeChat.ChatClient.WriteFile — how a client takes in the chunks of a file
  (`recvFileDecide`, the UDPSENDFILE case of `dealWithMessage`, `writeFile`).

  `nowPackNum` is the highest number seen, `m_udpMap` the numbers below it still missing.
  A chunk above goes to the file and leaves a gap behind it, one in the gap goes to the
  file and closes it, any other is a duplicate. `Tracking` says that the two fields know
  exactly which numbers have arrived; `deal_cases` is what the arrival of a chunk does.
-/

import GroupeChat.Base.Stdio
import GroupeChat.Base.StdMap
import GroupeChat.Proto

namespace GroupeChat.ChatClient

open Base

structure RecvFile where
  nowPackNum : Int
  mUdpMap : StdMap Int Int
  /-- `none` while no stream is open. -/
  pf : Option File
  recvFileSize : Int
  recvFileCount : Int
  sendFileCount : Int
  /-- Something was written to a stream that is not open, or out of a packet. -/
  faulted : Bool
  /-- What the file held each time it was reported complete. -/
  reports : List (List UInt8)

namespace RecvFile

def new : RecvFile := ⟨0, ∅, none, 0, 0, 0, false, []⟩

/-- `c` is what the user types, `there` what the file with the name and `++` after it
    holds. -/
def recvFileDecide (m : RecvFile) (c : UInt8) (there : List UInt8) : RecvFile :=
  if c = 'y'.toUInt8 then { m with pf := some (.fopen true there) } else m

def writeFile (m : RecvFile) (pack : Buf) (fileseek : Int) : RecvFile :=
  let size := Proto.length pack - Proto.contextOff
  match m.pf with
  | none => { m with faulted := true }
  | some pf =>
    if size < 0 ∨ Proto.contextSize < size then { m with faulted := true }
    else
      let nwrite := (pf.fseek (wrap 4 (Proto.contextSize * (fileseek - 1)))).fwrite
        (pack.read Proto.contextOff size.toNat)
      let recvFileSize := wrap 4 (m.recvFileSize + nwrite.1)
      if recvFileSize = Proto.filesize pack then
        { m with
          pf := none
          recvFileSize := 0
          recvFileCount := 0
          sendFileCount := 0
          reports := m.reports ++ [nwrite.2.content] }
      else
        { m with
          pf := some nwrite.2
          recvFileSize := recvFileSize
          recvFileCount := wrap 4 (m.recvFileCount + 1) }

/-- The loop that enters the numbers between `nowPackNum` and `count`. -/
def missing (mUdpMap : StdMap Int Int) (nowPackNum count userId : Int) : StdMap Int Int :=
  (List.range (count - (nowPackNum + 1)).toNat).foldl (fun mp (i : Nat) => mp.set (nowPackNum + 1 + i) userId) mUdpMap

def dealWithUdpSendFile (m : RecvFile) (pack : Buf) : RecvFile :=
  if m.faulted then m
  else
    let count := Proto.count pack
    let ahead := wrap 4 (count - m.nowPackNum)
    if ahead < 1 then
      match m.mUdpMap.find? count with
      | some _ => { m with mUdpMap := m.mUdpMap.remove count }.writeFile pack count
      | none => m
    else if ahead = 1 then { m with nowPackNum := count }.writeFile pack count
    else
      { m with
        mUdpMap := missing m.mUdpMap m.nowPackNum count (Proto.userId pack)
        nowPackNum := count }.writeFile pack count

/-- Whether the case comes to `writeFile`. -/
def comesToWriteFile (m : RecvFile) (pack : Buf) : Bool :=
  decide (1 ≤ wrap 4 (Proto.count pack - m.nowPackNum)) || (m.mUdpMap.find? (Proto.count pack)).isSome

theorem deal_of_not_comes {m : RecvFile} {pack : Buf} (h : m.comesToWriteFile pack = false) :
    m.dealWithUdpSendFile pack = m := by
  simp only [comesToWriteFile, Bool.or_eq_false_iff, decide_eq_false_iff_not] at h
  have hnone : m.mUdpMap.find? (Proto.count pack) = none := by simpa using h.2
  unfold dealWithUdpSendFile
  dsimp only
  split
  · rfl
  · rw [if_pos (by omega), hnone]

/-- Then it has changed only what it knows of the numbers. -/
theorem deal_of_comes {m : RecvFile} {pack : Buf} (hf : m.faulted = false) (h : m.comesToWriteFile pack = true) :
    ∃ mp now, m.dealWithUdpSendFile pack =
      { m with mUdpMap := mp, nowPackNum := now }.writeFile pack (Proto.count pack) := by
  simp only [comesToWriteFile, Bool.or_eq_true, decide_eq_true_iff] at h
  unfold dealWithUdpSendFile
  rw [if_neg (by rw [hf]; decide)]
  dsimp only
  split
  · rename_i hahead
    obtain ⟨u, hu⟩ := Option.isSome_iff_exists.mp (h.resolve_left (by omega))
    rw [hu]
    exact ⟨_, m.nowPackNum, rfl⟩
  · split
    · exact ⟨m.mUdpMap, _, rfl⟩
    · exact ⟨_, _, rfl⟩

/-- A stream that was opened to write takes the bytes of the packet. -/
theorem writeFile_writes {m : RecvFile} {pf : File} {pack : Buf} (fileseek : Int) (hpf : m.pf = some pf)
    (ha : pf.append = true) (hlen : Proto.contextOff ≤ Proto.length pack)
    (hmax : Proto.length pack ≤ Proto.contextOff + Proto.contextSize) :
    ∃ pf' : File, pf'.append = true ∧
      pf'.content = pf.content ++ pack.read Proto.contextOff (Proto.length pack - Proto.contextOff).toNat ∧
      ((m.writeFile pack fileseek).pf = some pf' ∧ (m.writeFile pack fileseek).reports = m.reports ∧
          (m.writeFile pack fileseek).sendFileCount = m.sendFileCount ∨
        (m.writeFile pack fileseek).pf = none ∧ (m.writeFile pack fileseek).reports = m.reports ++ [pf'.content] ∧
          (m.writeFile pack fileseek).sendFileCount = 0) ∧
      (m.writeFile pack fileseek).faulted = m.faulted := by
  have ha' : (pf.fseek (wrap 4 (Proto.contextSize * (fileseek - 1)))).append = true := by
    rw [File.fseek_append]
    exact ha
  refine ⟨_, File.fwrite_append _ _ |>.trans ha', by rw [File.fwrite_content ha', File.fseek_content], ?_, ?_⟩
  · unfold writeFile
    rw [hpf]
    dsimp only
    rw [if_neg (by omega)]
    split
    · exact Or.inr ⟨rfl, rfl, rfl⟩
    · exact Or.inl ⟨rfl, rfl, rfl⟩
  · unfold writeFile
    rw [hpf]
    dsimp only
    rw [if_neg (by omega)]
    split <;> rfl

/-- So a chunk whose number is still out goes to the end of the file that is open. -/
theorem deal_writes {m : RecvFile} {pf : File} {pack : Buf} (hf : m.faulted = false) (hpf : m.pf = some pf)
    (ha : pf.append = true) (hlen : Proto.contextOff ≤ Proto.length pack)
    (hmax : Proto.length pack ≤ Proto.contextOff + Proto.contextSize) (h : m.comesToWriteFile pack = true) :
    ∃ pf' : File, pf'.append = true ∧
      pf'.content = pf.content ++ pack.read Proto.contextOff (Proto.length pack - Proto.contextOff).toNat ∧
      ((m.dealWithUdpSendFile pack).pf = some pf' ∧ (m.dealWithUdpSendFile pack).reports = m.reports ∧
          (m.dealWithUdpSendFile pack).sendFileCount = m.sendFileCount ∨
        (m.dealWithUdpSendFile pack).pf = none ∧ (m.dealWithUdpSendFile pack).reports = m.reports ++ [pf'.content] ∧
          (m.dealWithUdpSendFile pack).sendFileCount = 0) ∧
      (m.dealWithUdpSendFile pack).faulted = false := by
  obtain ⟨mp, now, hdeal⟩ := deal_of_comes hf h
  obtain ⟨pf', ha', hcontent, hopen, hfault⟩ := writeFile_writes
    (m := { m with mUdpMap := mp, nowPackNum := now }) (Proto.count pack) hpf ha hlen hmax
  rw [hdeal]
  exact ⟨pf', ha', hcontent, hopen, hfault.trans hf⟩

/-! ## The gap tracker -/

theorem find?_missing (mp : StdMap Int Int) (now count userId k : Int) :
    (missing mp now count userId).find? k = if now < k ∧ k < count then some userId else mp.find? k := by
  have h : ∀ n : Nat, ((List.range n).foldl (fun mp (i : Nat) => mp.set (now + 1 + i) userId) mp).find? k =
      if now < k ∧ k < now + 1 + n then some userId else mp.find? k := by
    intro n
    induction n with
    | zero =>
      rw [if_neg (by omega)]
      rfl
    | succ n ih =>
      rw [List.range_succ, List.foldl_append, List.foldl_cons, List.foldl_nil, StdMap.find?_set, ih]
      by_cases hk : k = now + 1 + n
      · rw [if_pos hk, if_pos (by omega)]
      · rw [if_neg hk]
        by_cases hin : now < k ∧ k < now + 1 + n
        · rw [if_pos hin, if_pos (by omega)]
        · rw [if_neg hin, if_neg (by omega)]
  unfold missing
  rw [h]
  by_cases hle : now + 1 ≤ count
  · rw [show now + 1 + ((count - (now + 1)).toNat : Int) = count by omega]
  · rw [if_neg (by omega), if_neg (by omega)]

structure Tracking (cs : List Nat) (m : RecvFile) : Prop where
  le : ∀ c ∈ cs, (c : Int) ≤ m.nowPackNum
  top : m.nowPackNum = 0 ∨ ∃ c ∈ cs, m.nowPackNum = c
  missing : ∀ k : Int, (m.mUdpMap.find? k).isSome = true ↔
    ∃ c : Nat, k = c ∧ 0 < c ∧ (c : Int) ≤ m.nowPackNum ∧ c ∉ cs

theorem Tracking.bounds {cs : List Nat} {m : RecvFile} (h : Tracking cs m) (hcs : ∀ d ∈ cs, d < 2147483648) :
    0 ≤ m.nowPackNum ∧ m.nowPackNum < 2147483648 := by
  rcases h.top with h0 | ⟨d, hd, htop⟩
  · omega
  · have := hcs d hd
    omega

theorem new_tracking : Tracking [] new := by
  refine ⟨nofun, Or.inl rfl, fun k => ⟨nofun, fun h => ?_⟩⟩
  obtain ⟨c, -, hc, hle, -⟩ := h
  simp only [new] at hle
  omega

theorem Tracking.congr {cs : List Nat} {m m' : RecvFile} (h : Tracking cs m) (hn : m'.nowPackNum = m.nowPackNum)
    (hm : m'.mUdpMap = m.mUdpMap) : Tracking cs m' := by
  refine ⟨?_, ?_, ?_⟩ <;> simp only [hn, hm]
  · exact h.le
  · exact h.top
  · exact h.missing

theorem writeFile_tracking {cs : List Nat} {m : RecvFile} (h : Tracking cs m) (pack : Buf) (fileseek : Int) :
    Tracking cs (m.writeFile pack fileseek) := by
  unfold writeFile
  dsimp only
  split
  · exact h.congr rfl rfl
  · split
    · exact h.congr rfl rfl
    · split
      · exact h.congr rfl rfl
      · exact h.congr rfl rfl

/-- A number that comes again. -/
theorem Tracking.again {cs : List Nat} {m : RecvFile} {c : Nat} (h : Tracking cs m) (hc : c ∈ cs) :
    Tracking (cs ++ [c]) m := by
  have hmem : ∀ d, d ∈ cs ++ [c] ↔ d ∈ cs := by
    intro d
    rw [List.mem_append, List.mem_singleton]
    refine ⟨fun hd => ?_, Or.inl⟩
    rcases hd with hd | rfl
    · exact hd
    · exact hc
  refine ⟨?_, ?_, ?_⟩ <;> simp only [hmem]
  · exact h.le
  · exact h.top
  · exact h.missing

/-- A number that closes a gap. -/
theorem Tracking.close {cs : List Nat} {m : RecvFile} {c : Nat} (h : Tracking cs m) (hle : (c : Int) ≤ m.nowPackNum) :
    Tracking (cs ++ [c]) { m with mUdpMap := m.mUdpMap.remove c } := by
  refine ⟨fun d hd => ?_, ?_, fun k => ?_⟩
  · rcases List.mem_append.mp hd with hd | hd
    · exact h.le d hd
    · rwa [List.mem_singleton.mp hd]
  · rcases h.top with h0 | ⟨d, hd, htop⟩
    · exact Or.inl h0
    · exact Or.inr ⟨d, List.mem_append_left _ hd, htop⟩
  · simp only [StdMap.find?_remove]
    by_cases hk : k = c
    · rw [if_pos hk]
      refine ⟨fun h => (by cases h), fun h => ?_⟩
      obtain ⟨d, hd, -, -, hnot⟩ := h
      rw [hk, Int.ofNat_inj] at hd
      exact absurd (List.mem_append_right _ (List.mem_singleton.mpr hd.symm)) hnot
    · rw [if_neg hk, h.missing k]
      refine ⟨fun h => ?_, fun h => ?_⟩
      · obtain ⟨d, hd, h0, hle, hnot⟩ := h
        refine ⟨d, hd, h0, hle, fun hmem => ?_⟩
        rcases List.mem_append.mp hmem with hmem | hmem
        · exact hnot hmem
        · rw [List.mem_singleton.mp hmem] at hd
          exact hk hd
      · obtain ⟨d, hd, h0, hle, hnot⟩ := h
        exact ⟨d, hd, h0, hle, fun hmem => hnot (List.mem_append_left _ hmem)⟩

/-- A number above all others, with the gap it leaves. -/
theorem Tracking.advance {cs : List Nat} {m : RecvFile} {c : Nat} {mp : StdMap Int Int} (h : Tracking cs m)
    (hlt : m.nowPackNum < c)
    (hmp : ∀ k, (mp.find? k).isSome = true ↔
      (m.nowPackNum < k ∧ k < c) ∨ (m.mUdpMap.find? k).isSome = true) :
    Tracking (cs ++ [c]) { m with mUdpMap := mp, nowPackNum := c } := by
  have hpos : 0 ≤ m.nowPackNum := by
    rcases h.top with h0 | ⟨d, -, htop⟩
    · omega
    · omega
  refine ⟨fun d hd => ?_, Or.inr ⟨c, List.mem_append_right _ (List.mem_singleton_self c), rfl⟩, fun k => ?_⟩
  · rcases List.mem_append.mp hd with hd | hd
    · exact Int.le_trans (h.le d hd) (Int.le_of_lt hlt)
    · rw [List.mem_singleton.mp hd]
  · simp only [hmp, h.missing k, List.mem_append, List.mem_singleton, not_or]
    refine ⟨fun hk => ?_, fun h => ?_⟩
    · rcases hk with ⟨hk1, hk2⟩ | ⟨d, hd, h0, hle, hnot⟩
      · refine ⟨k.toNat, by omega, by omega, by omega, fun hmem => ?_, by omega⟩
        have := h.le _ hmem
        omega
      · exact ⟨d, hd, h0, by omega, hnot, by omega⟩
    · obtain ⟨d, hd, h0, hle, hnot, hne⟩ := h
      by_cases hd' : (d : Int) ≤ m.nowPackNum
      · exact Or.inr ⟨d, hd, h0, hd', hnot⟩
      · exact Or.inl ⟨by omega, by omega⟩

/-- The case comes to `writeFile` for the numbers that have not arrived. -/
theorem comesToWriteFile_iff {cs : List Nat} {m : RecvFile} {pack : Buf} {c : Nat} (h : Tracking cs m)
    (hcs : ∀ d ∈ cs, d < 2147483648) (hc : Proto.count pack = c) (hpos : 0 < c) (hlt : c < 2147483648) :
    m.comesToWriteFile pack = true ↔ c ∉ cs := by
  have hnow := h.bounds hcs
  have hahead : wrap 4 ((c : Int) - m.nowPackNum) = c - m.nowPackNum := wrap_four (by omega) (by omega)
  simp only [comesToWriteFile, Bool.or_eq_true, decide_eq_true_iff, hc, hahead, h.missing c]
  refine ⟨fun hcomes hold => ?_, fun hnew => ?_⟩
  · rcases hcomes with hahead | ⟨d, hd, -, -, hnot⟩
    · have := h.le c hold
      omega
    · rw [Int.ofNat_inj] at hd
      exact hnot (hd ▸ hold)
  · by_cases hle : (c : Int) ≤ m.nowPackNum
    · exact Or.inr ⟨c, rfl, hpos, hle, hnew⟩
    · exact Or.inl (by omega)

/-- A chunk that has arrived before changes nothing; any other is written once, and is
    from then on known to have arrived. -/
theorem deal_cases {cs : List Nat} {m : RecvFile} {pack : Buf} {c : Nat} (h : Tracking cs m)
    (hcs : ∀ d ∈ cs, d < 2147483648) (hf : m.faulted = false) (hc : Proto.count pack = c) (hpos : 0 < c)
    (hlt : c < 2147483648) :
    (c ∈ cs ∧ m.dealWithUdpSendFile pack = m) ∨
      c ∉ cs ∧ ∃ mp now, m.dealWithUdpSendFile pack = { m with mUdpMap := mp, nowPackNum := now }.writeFile pack c ∧
        Tracking (cs ++ [c]) { m with mUdpMap := mp, nowPackNum := now } := by
  have hnow := h.bounds hcs
  have hahead : wrap 4 ((c : Int) - m.nowPackNum) = c - m.nowPackNum := wrap_four (by omega) (by omega)
  by_cases hold : c ∈ cs
  · refine Or.inl ⟨hold, deal_of_not_comes ?_⟩
    rw [← Bool.not_eq_true, comesToWriteFile_iff h hcs hc hpos hlt]
    exact fun hnew => hnew hold
  · refine Or.inr ⟨hold, ?_⟩
    unfold dealWithUdpSendFile
    rw [if_neg (by rw [hf]; decide)]
    dsimp only
    rw [hc, hahead]
    by_cases hle : (c : Int) ≤ m.nowPackNum
    · rw [if_pos (by omega)]
      obtain ⟨u, hu⟩ := Option.isSome_iff_exists.mp ((h.missing c).mpr ⟨c, rfl, hpos, hle, hold⟩)
      rw [hu]
      exact ⟨_, m.nowPackNum, rfl, h.close hle⟩
    · rw [if_neg (by omega)]
      by_cases hone : (c : Int) - m.nowPackNum = 1
      · rw [if_pos hone]
        have habove : m.nowPackNum < c := by omega
        refine ⟨m.mUdpMap, c, rfl, h.advance habove fun k => ⟨Or.inr, fun hk => ?_⟩⟩
        rcases hk with hk | hk
        · omega
        · exact hk
      · rw [if_neg hone]
        have habove : m.nowPackNum < c := by omega
        refine ⟨_, c, rfl, h.advance habove fun k => ?_⟩
        rw [find?_missing]
        by_cases hk : m.nowPackNum < k ∧ k < c
        · simp [hk]
        · simp [hk]

/-- The numbers that have arrived, with the one that arrives. -/
theorem deal_tracking {cs : List Nat} {m : RecvFile} {pack : Buf} {c : Nat} (h : Tracking cs m)
    (hcs : ∀ d ∈ cs, d < 2147483648) (hf : m.faulted = false) (hc : Proto.count pack = c) (hpos : 0 < c)
    (hlt : c < 2147483648) : Tracking (cs ++ [c]) (m.dealWithUdpSendFile pack) := by
  rcases deal_cases h hcs hf hc hpos hlt with ⟨hold, hdeal⟩ | ⟨-, mp, now, hdeal, ht⟩
  · rw [hdeal]
    exact h.again hold
  · rw [hdeal]
    exact writeFile_tracking ht pack c

end RecvFile

end GroupeChat.ChatClient
