/-
  GroupeChat.ChatServer.LostNumbers — how UDPRESEND parts the numbers that are asked for
  (`CCmd::setWriteSocketFdFlag`).

  A number that is cached is answered with a copy of the chunk; the others are collected in
  one packet for the sender of the file, made when the first of them turns up. A request
  has room for 50 numbers, that packet was given 220 bytes.

  `parted_iff_room`: every number goes one way or the other, in the order asked for, and
  nothing is stored behind the 220 bytes, exactly when no more than 49 numbers are not
  cached. Fifty numbers with none of them cached are one too many (`fifty_lost_numbers`).
-/

import GroupeChat.ChatServer.KnownUsers

namespace GroupeChat.ChatServer

open Base

structure LoseNumSend where
  cmdId : Int
  recvFromWhichClient : Int
  num : Int
  loseNum : List Int
  deriving DecidableEq

def loseNums (pack : Buf) (n : Nat) : List Int := (List.range n).map (Proto.loseNum pack)

def LoseNumSend.ofPack (pack : Buf) : LoseNumSend :=
  ⟨Proto.cmdId pack, Proto.peerId pack, Proto.num pack, loseNums pack (Proto.num pack).toNat⟩

/-- A UDPRESEND packet of no more than 50 numbers from a user who is logged in, about a
    user who is. -/
structure UdpResend where
  cmd : Cmd
  packet : Packet
  running : cmd.fault = none
  cmdId : Proto.cmdId packet.pack = CmdId.udpResend.code
  num_nonneg : 0 ≤ Proto.num packet.pack
  num_le : Proto.num packet.pack ≤ 50
  requester : cmd.Live (Proto.userId packet.pack)
  sender : cmd.Live (Proto.peerId packet.pack)

namespace Cmd

def hits (c : Cmd) (ns : List Int) : List Buf := ns.filterMap c.mUdpLoseMap.find?

def misses (c : Cmd) (ns : List Int) : List Int := ns.filter fun n => (c.mUdpLoseMap.find? n).isNone

end Cmd

namespace UdpResend

def requesterId (q : UdpResend) : Int := Proto.userId q.packet.pack

def senderId (q : UdpResend) : Int := Proto.peerId q.packet.pack

def asked (q : UdpResend) : List Int := loseNums q.packet.pack (Proto.num q.packet.pack).toNat

def after (q : UdpResend) : Cmd := q.cmd.setWriteSocketFdFlag q.packet

def forward (q : UdpResend) : LoseNumSend :=
  ⟨CmdId.udpResend.code, q.requesterId, (q.cmd.misses q.asked).length, q.cmd.misses q.asked⟩

/-- What the users are sent, and nobody else is changed. -/
structure Parted (q : UdpResend) : Prop where
  inside : q.after.fault = none
  queued : ∃ copies forwards : List Buf,
    copies.map (·.read 0 Proto.packSize) = (q.cmd.hits q.asked).map (·.read 0 Proto.packSize) ∧
      forwards.map LoseNumSend.ofPack = (if q.cmd.misses q.asked = [] then [] else [q.forward]) ∧
      ∀ id u, q.cmd.mMap.find? id = some (some u) → q.after.mMap.find? id = some (some { u with
        mUdpSendList := u.mUdpSendList ++
          ((if id = q.requesterId then copies else []) ++ if id = q.senderId then forwards else []) })

end UdpResend

/-! ## Pushes -/

namespace Cmd

structure Pushed (c c' : Cmd) (f : Int → List Buf) : Prop where
  fault : c'.fault = none
  cache : c'.mUdpLoseMap = c.mUdpLoseMap
  users : ∀ id u, c.mMap.find? id = some (some u) →
    c'.mMap.find? id = some (some { u with mUdpSendList := u.mUdpSendList ++ f id })

theorem Pushed.congr {c c' : Cmd} {f g : Int → List Buf} (h : Pushed c c' f) (hfg : ∀ id, f id = g id) :
    Pushed c c' g := by
  obtain rfl : f = g := funext hfg
  exact h

theorem Pushed.push {c c' : Cmd} {f : Int → List Buf} (h : Pushed c c' f) {id : Int} (hl : c.Live id) (pack : Buf) :
    Pushed c (c'.withUser id fun u => .ok (u.udpPush pack)) fun i => f i ++ if i = id then [pack] else [] := by
  obtain ⟨v, hv⟩ := hl
  have hqueue : ({ v with mUdpSendList := v.mUdpSendList ++ f id } : User).udpPush pack =
      { v with mUdpSendList := v.mUdpSendList ++ (f id ++ [pack]) } := by
    simp [User.udpPush]
  have hwith : c'.withUser id (fun u => .ok (u.udpPush pack)) = { c' with
      mMap := c'.mMap.set id (some { v with mUdpSendList := v.mUdpSendList ++ (f id ++ [pack]) }) } := by
    unfold withUser
    rw [h.users id v hv]
    dsimp only
    rw [hqueue]
  rw [hwith]
  refine ⟨h.fault, h.cache, fun i u hu => ?_⟩
  rw [StdMap.find?_set]
  by_cases hi : i = id
  · subst hi
    obtain rfl := Option.some.inj (Option.some.inj (hv.symm.trans hu))
    simp
  · rw [if_neg hi, h.users i u hu]
    simp [hi]

end Cmd

namespace UdpResend

/-! ## The loop -/

def copy (q : UdpResend) (cached : Buf) : Buf := q.packet.junk.write 0 (cached.read 0 Proto.packSize)

theorem copy_read (q : UdpResend) (cached : Buf) :
    (q.copy cached).read 0 Proto.packSize = cached.read 0 Proto.packSize := by
  apply Mem.read_eq_iff.mpr
  intro i hi
  rw [Nat.zero_add]
  exact Mem.write_read _ _ hi

structure Looped (q : UdpResend) (ns : List Int) (r : Cmd.Resend) : Prop where
  pushed : q.cmd.Pushed r.cmd fun id => if id = q.requesterId then (q.cmd.hits ns).map q.copy else []
  num : r.num = (q.cmd.misses ns).length
  peer : r.num ≠ 0 → Proto.peerId r.resend2 = q.requesterId
  collected : loseNums r.resend2 r.num = q.cmd.misses ns

theorem loseNums_succ (pack : Buf) (n : Nat) : loseNums pack (n + 1) = loseNums pack n ++ [Proto.loseNum pack n] := by
  simp [loseNums, List.range_succ]

theorem loseNums_congr {p q : Buf} {n : Nat} (h : ∀ i < n, Proto.loseNum p i = Proto.loseNum q i) :
    loseNums p n = loseNums q n :=
  List.map_congr_left fun i hi => h i (List.mem_range.mp hi)

theorem loseNum_wrap (pack : Buf) (i : Nat) : wrap 4 (Proto.loseNum pack i) = Proto.loseNum pack i := wrap_wrap 4 _

theorem requesterId_wrap (q : UdpResend) : wrap 4 q.requesterId = q.requesterId := wrap_wrap 4 _

theorem Looped.answer {q : UdpResend} {ns : List Int} {r : Cmd.Resend} (h : Looped q ns r) {n : Int} {cached : Buf}
    (hn : q.cmd.mUdpLoseMap.find? n = some cached) :
    Looped q (ns ++ [n]) { r with cmd := r.cmd.answer q.packet n cached } := by
  have hhits : q.cmd.hits (ns ++ [n]) = q.cmd.hits ns ++ [cached] := by simp [Cmd.hits, hn]
  have hmisses : q.cmd.misses (ns ++ [n]) = q.cmd.misses ns := by simp [Cmd.misses, hn]
  have hpush := h.pushed.push q.requester (q.copy cached)
  have hanswer : r.cmd.answer q.packet n cached =
      { r.cmd.withUser q.requesterId (fun u => .ok (u.udpPush (q.copy cached))) with
        answers := (r.cmd.withUser q.requesterId fun u => .ok (u.udpPush (q.copy cached))).answers ++
          [⟨q.requesterId, n, q.copy cached⟩] } := by
    unfold Cmd.answer Cmd.andThen
    dsimp only
    exact if_pos hpush.fault
  constructor
  case pushed =>
    rw [hanswer, hhits]
    refine Cmd.Pushed.congr ⟨hpush.fault, hpush.cache, hpush.users⟩ fun id => ?_
    by_cases hid : id = q.requesterId
    · simp [hid, requesterId]
    · have : id ≠ Proto.userId q.packet.pack := hid
      simp [hid, this]
  case num => rw [hmisses]; exact h.num
  case peer => exact h.peer
  case collected => rw [hmisses]; exact h.collected

/-- A number that goes into the packet. -/
theorem Looped.collect {q : UdpResend} {ns : List Int} {r : Cmd.Resend} (h : Looped q ns r) {i : Nat}
    (hn : q.cmd.mUdpLoseMap.find? (Proto.loseNum q.packet.pack i) = none) (hroom : (q.cmd.misses ns).length < 49) :
    Looped q (ns ++ [Proto.loseNum q.packet.pack i]) (r.collect q.packet (Proto.loseNum q.packet.pack i)) := by
  have hhits : q.cmd.hits (ns ++ [Proto.loseNum q.packet.pack i]) = q.cmd.hits ns := by simp [Cmd.hits, hn]
  have hmisses : q.cmd.misses (ns ++ [Proto.loseNum q.packet.pack i]) =
      q.cmd.misses ns ++ [Proto.loseNum q.packet.pack i] := by
    simp [Cmd.misses, hn]
  have hfits : ¬ Cmd.resendSize < Proto.loseNumOff + 4 * (r.num + 1) := by
    rw [h.num]
    simp only [Cmd.resendSize, Proto.loseNumOff]
    omega
  obtain ⟨resend2, hr⟩ : ∃ b, b = if r.num = 0 then q.packet.junk.putInt 4 Proto.peerOff q.requesterId else r.resend2 :=
    ⟨_, rfl⟩
  have hcollect : r.collect q.packet (Proto.loseNum q.packet.pack i) = { r with
      resend2 := resend2.putInt 4 (Proto.loseNumOff + 4 * r.num) (Proto.loseNum q.packet.pack i)
      num := r.num + 1 } := by
    unfold Cmd.Resend.collect
    rw [if_neg hfits, hr]
    rfl
  have hpeer : Proto.peerId resend2 = q.requesterId := by
    rw [hr]
    by_cases h0 : r.num = 0
    · rw [if_pos h0, Proto.peerId, Mem.getInt_putInt, requesterId_wrap]
    · rw [if_neg h0]
      exact h.peer h0
  have hold : loseNums resend2 r.num = loseNums r.resend2 r.num := by
    rw [hr]
    by_cases h0 : r.num = 0
    · simp [h0, loseNums]
    · rw [if_neg h0]
  rw [hcollect]
  constructor
  case pushed =>
    rw [hhits]
    exact h.pushed
  case num =>
    show r.num + 1 = _
    rw [hmisses, List.length_append, h.num]
    rfl
  case peer =>
    intro _
    dsimp only
    rw [Proto.peerId, Mem.getInt_putInt_ne _ _ (Or.inl (by simp only [Proto.peerOff, Proto.loseNumOff]; omega))]
    exact hpeer
  case collected =>
    have hlast : Proto.loseNum (resend2.putInt 4 (Proto.loseNumOff + 4 * r.num) (Proto.loseNum q.packet.pack i)) r.num =
        Proto.loseNum q.packet.pack i := by
      rw [Proto.loseNum, Mem.getInt_putInt, loseNum_wrap]
    have hothers : loseNums (resend2.putInt 4 (Proto.loseNumOff + 4 * r.num) (Proto.loseNum q.packet.pack i)) r.num =
        loseNums resend2 r.num := by
      refine loseNums_congr fun j hj => ?_
      rw [Proto.loseNum, Mem.getInt_putInt_ne _ _ (Or.inl (by omega)), Proto.loseNum]
    dsimp only
    rw [loseNums_succ, hlast, hothers, hold, h.collected, hmisses]

/-- A number that finds the packet full. -/
theorem Looped.full {q : UdpResend} {ns : List Int} {r : Cmd.Resend} (h : Looped q ns r) (n : Int)
    (hfull : 49 ≤ (q.cmd.misses ns).length) : (r.collect q.packet n).cmd.fault ≠ none := by
  have hno : Cmd.resendSize < Proto.loseNumOff + 4 * (r.num + 1) := by
    rw [h.num]
    simp only [Cmd.resendSize, Proto.loseNumOff]
    omega
  unfold Cmd.Resend.collect
  rw [if_pos hno]
  nofun

/-- Which way the next number goes. -/
theorem Looped.next {q : UdpResend} {ns : List Int} {r : Cmd.Resend} (h : Looped q ns r) {k : Nat} (hk : k < 50) :
    (∀ cached, q.cmd.mUdpLoseMap.find? (Proto.loseNum q.packet.pack k) = some cached →
        r.next q.packet k = { r with cmd := r.cmd.answer q.packet (Proto.loseNum q.packet.pack k) cached }) ∧
      (q.cmd.mUdpLoseMap.find? (Proto.loseNum q.packet.pack k) = none →
        r.next q.packet k = r.collect q.packet (Proto.loseNum q.packet.pack k)) := by
  have hinside : ¬ Proto.packSize < Proto.loseNumOff + 4 * (k + 1) := by
    simp only [Proto.packSize, Proto.loseNumOff]
    omega
  unfold Cmd.Resend.next
  rw [if_neg (not_not.mpr h.pushed.fault), if_neg hinside, h.pushed.cache]
  refine ⟨?_, ?_⟩
  · intro cached hfind
    simp only [hfind]
  · intro hfind
    simp only [hfind]

def loop (q : UdpResend) (k : Nat) : Cmd.Resend :=
  (List.range k).foldl (Cmd.Resend.next q.packet) ⟨q.cmd, q.packet.junk, 0⟩

theorem loop_succ (q : UdpResend) (k : Nat) : q.loop (k + 1) = (q.loop k).next q.packet k := by
  simp [loop, List.range_succ]

theorem misses_le (q : UdpResend) (k : Nat) :
    (q.cmd.misses (loseNums q.packet.pack k)).length ≤ (q.cmd.misses (loseNums q.packet.pack (k + 1))).length := by
  rw [loseNums_succ, Cmd.misses, Cmd.misses, List.filter_append, List.length_append]
  exact Nat.le_add_right _ _

/-- It goes on as long as there is room, and ends in a fault with the first number for
    which there is none. -/
theorem loop_spec (q : UdpResend) {k : Nat} (hk : k ≤ 50) :
    ((q.cmd.misses (loseNums q.packet.pack k)).length ≤ 49 → Looped q (loseNums q.packet.pack k) (q.loop k)) ∧
      (49 < (q.cmd.misses (loseNums q.packet.pack k)).length → (q.loop k).cmd.fault ≠ none) := by
  induction k with
  | zero =>
    refine ⟨fun _ => ?_, fun h => absurd h (Nat.not_lt_zero _)⟩
    refine ⟨⟨q.running, rfl, fun id u hu => ?_⟩, rfl, fun h => absurd rfl h, rfl⟩
    simpa [Cmd.hits, loseNums, loop] using hu
  | succ k ih =>
    obtain ⟨hgoes, hends⟩ := ih (by omega)
    have hle := q.misses_le k
    rw [loop_succ]
    by_cases hroom : (q.cmd.misses (loseNums q.packet.pack k)).length ≤ 49
    · have hlooped := hgoes hroom
      rw [loseNums_succ]
      cases hfind : q.cmd.mUdpLoseMap.find? (Proto.loseNum q.packet.pack k) with
      | some cached =>
        have hmisses : q.cmd.misses (loseNums q.packet.pack k ++ [Proto.loseNum q.packet.pack k]) =
            q.cmd.misses (loseNums q.packet.pack k) := by
          simp [Cmd.misses, hfind]
        rw [hmisses, (hlooped.next (by omega)).1 cached hfind]
        exact ⟨fun _ => hlooped.answer hfind, fun h => absurd h (Nat.not_lt.mpr hroom)⟩
      | none =>
        have hmisses : (q.cmd.misses (loseNums q.packet.pack k ++ [Proto.loseNum q.packet.pack k])).length =
            (q.cmd.misses (loseNums q.packet.pack k)).length + 1 := by
          simp [Cmd.misses, hfind]
        rw [hmisses, (hlooped.next (by omega)).2 hfind]
        exact ⟨fun h => hlooped.collect hfind (by omega), fun h => hlooped.full _ (by omega)⟩
    · have hfault := hends (Nat.not_le.mp hroom)
      have hnext : (q.loop k).next q.packet k = q.loop k := by
        unfold Cmd.Resend.next
        rw [if_pos hfault]
      rw [hnext]
      exact ⟨fun h => absurd (Nat.le_trans hle h) hroom, fun _ => hfault⟩

/-! ## The packet for the sender -/

def finished (r : Cmd.Resend) : Buf := (r.resend2.putInt 4 Proto.numOff r.num).putInt 4 0 CmdId.udpResend.code

theorem Looped.finished {q : UdpResend} {ns : List Int} {r : Cmd.Resend} (h : Looped q ns r) (h0 : r.num ≠ 0)
    (hle : r.num ≤ 49) :
    LoseNumSend.ofPack (finished r) =
      ⟨CmdId.udpResend.code, q.requesterId, (q.cmd.misses ns).length, q.cmd.misses ns⟩ := by
  have hcmd : Proto.cmdId (UdpResend.finished r) = CmdId.udpResend.code := by
    rw [Proto.cmdId, UdpResend.finished, Mem.getInt_putInt]
    rfl
  have hpeer : Proto.peerId (UdpResend.finished r) = q.requesterId := by
    rw [← h.peer h0, Proto.peerId, UdpResend.finished, Mem.getInt_putInt_ne _ _ (Or.inr (by decide)),
      Mem.getInt_putInt_ne _ _ (Or.inl (by decide)), Proto.peerId]
  have hnum : Proto.num (UdpResend.finished r) = r.num := by
    rw [Proto.num, UdpResend.finished, Mem.getInt_putInt_ne _ _ (Or.inr (by decide)), Mem.getInt_putInt,
      wrap_four (by omega) (by omega)]
  have hnums : loseNums (UdpResend.finished r) r.num = loseNums r.resend2 r.num := by
    refine loseNums_congr fun i _ => ?_
    rw [Proto.loseNum, UdpResend.finished, Mem.getInt_putInt_ne _ _ (Or.inr (by simp only [Proto.loseNumOff]; omega)),
      Mem.getInt_putInt_ne _ _ (Or.inr (by simp only [Proto.loseNumOff, Proto.numOff]; omega)), Proto.loseNum]
  unfold LoseNumSend.ofPack
  rw [hcmd, hpeer, hnum, Int.toNat_natCast, hnums, h.collected, h.num]

theorem after_eq (q : UdpResend) : q.after =
    let r := q.loop (Proto.num q.packet.pack).toNat
    if r.num = 0 then r.cmd
    else r.cmd.andThen fun c => c.withUser q.senderId fun u => .ok (u.udpPush (finished r)) := by
  unfold after Cmd.setWriteSocketFdFlag
  rw [q.cmdId, CmdId.ofCode_code]
  rfl

theorem num_le_fifty (q : UdpResend) : (Proto.num q.packet.pack).toNat ≤ 50 := by
  have := q.num_le
  omega

/-- One number too many. -/
theorem after_full {q : UdpResend} (h : 49 < (q.cmd.misses q.asked).length) : q.after.fault ≠ none := by
  have hfault := (q.loop_spec q.num_le_fifty).2 h
  rw [after_eq]
  dsimp only
  split
  · exact hfault
  · unfold Cmd.andThen
    rw [if_neg hfault]
    exact hfault

theorem copies_read (q : UdpResend) (chunks : List Buf) :
    (chunks.map q.copy).map (·.read 0 Proto.packSize) = chunks.map (·.read 0 Proto.packSize) := by
  rw [List.map_map]
  apply List.map_congr_left
  intro cached _
  rw [Function.comp_apply, copy_read]

/-- Everything is cached, and nothing is forwarded. -/
theorem Looped.parted_of_none {q : UdpResend} (h : Looped q q.asked (q.loop (Proto.num q.packet.pack).toNat))
    (h0 : (q.loop (Proto.num q.packet.pack).toNat).num = 0) : q.Parted := by
  have hnone : q.cmd.misses q.asked = [] := List.length_eq_zero_iff.mp (h.num.symm.trans h0)
  have hafter : q.after = (q.loop (Proto.num q.packet.pack).toNat).cmd := by
    rw [after_eq]
    exact if_pos h0
  refine ⟨?_, (q.cmd.hits q.asked).map q.copy, [], q.copies_read _, ?_, fun id u hu => ?_⟩
  · rw [hafter]
    exact h.pushed.fault
  · rw [hnone, if_pos rfl, List.map_nil]
  · rw [hafter, h.pushed.users id u hu]
    simp

/-- What is not cached is forwarded in one packet. -/
theorem Looped.parted_of_some {q : UdpResend} (h : Looped q q.asked (q.loop (Proto.num q.packet.pack).toNat))
    (h0 : (q.loop (Proto.num q.packet.pack).toNat).num ≠ 0)
    (hroom : (q.loop (Proto.num q.packet.pack).toNat).num ≤ 49) : q.Parted := by
  have hsome : q.cmd.misses q.asked ≠ [] := by
    intro hnone
    exact h0 (h.num.trans (List.length_eq_zero_iff.mpr hnone))
  have hpush := h.pushed.push q.sender (UdpResend.finished (q.loop (Proto.num q.packet.pack).toNat))
  have hafter := q.after_eq
  dsimp only at hafter
  rw [if_neg h0, Cmd.andThen, if_pos h.pushed.fault] at hafter
  refine ⟨?_, (q.cmd.hits q.asked).map q.copy, [UdpResend.finished (q.loop (Proto.num q.packet.pack).toNat)],
    q.copies_read _, ?_, fun id u hu => ?_⟩
  · rw [hafter]
    exact hpush.fault
  · rw [if_neg hsome, List.map_singleton, h.finished h0 hroom]
    rfl
  · rw [hafter]
    exact hpush.users id u hu

theorem parted_iff_room (q : UdpResend) : q.Parted ↔ (q.cmd.misses q.asked).length ≤ 49 := by
  refine ⟨?_, ?_⟩
  · intro h
    by_contra hfull
    exact after_full (Nat.not_le.mp hfull) h.inside
  · intro hroom
    have hlooped := (q.loop_spec q.num_le_fifty).1 hroom
    by_cases h0 : (q.loop (Proto.num q.packet.pack).toNat).num = 0
    · exact hlooped.parted_of_none h0
    · exact hlooped.parted_of_some h0 (by rw [hlooped.num]; exact hroom)

/-! ## Fifty numbers -/

/-- A user asks for the numbers 0 to 49 of a file that is on its way to him; nothing is
    cached. -/
def fifty : List UInt8 := Proto.headBytes CmdId.udpResend.code 1 224 1 ++ toLe 4 2 ++ toLe 4 50 ++
  (List.range 50).flatMap fun i => toLe 4 i

def fiftyLost : UdpResend where
  cmd := { Cmd.init with
    mMap := (StdMap.set ∅ 1 (some (.new (fun _ => 0) 5 1 0))).set 2 (some (.new (fun _ => 0) 6 2 0)) }
  packet := { pack := Mem.ofList 0 fifty, temaddr := none, tmp := none, now := 0, junk := fun _ => 0 }
  running := rfl
  cmdId := by decide
  num_nonneg := by decide
  num_le := by decide
  requester := ⟨.new (fun _ => 0) 5 1 0, by simp [show Proto.userId (Mem.ofList 0 fifty) = 1 by decide]⟩
  sender := ⟨.new (fun _ => 0) 6 2 0, by simp [show Proto.peerId (Mem.ofList 0 fifty) = 2 by decide]⟩

theorem fifty_lost_numbers : ¬ fiftyLost.Parted := by
  intro h
  have hinside := h.inside
  revert hinside
  decide +kernel

end UdpResend

end GroupeChat.ChatServer
