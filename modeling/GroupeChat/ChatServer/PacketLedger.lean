/-
  GroupeChat.ChatServer.PacketLedger — what becomes of the packets that the command thread
  takes from `m_packList`.

  Every case of `setWriteSocketFdFlag` deletes its packet but UDPSENDFILE, which puts it
  into `m_udpLoseMap`; the insert does nothing when the chunk's number is there, and the
  packet is then no one's. A LOGIN and an unknown `cmdId` have no case. What UDPRESEND and
  UDPSENDFILE pop next is deleted unseen; what UDPREGISTER pops is kept as an address.

  `Ledger` is dispatch with the packets numbered as they are taken; a step whose handling
  the process does not survive is none of its steps. `Accounted`: the packets taken are
  those deleted and those stored, each once. It holds all along exactly the runs in which
  every packet has a case, no chunk comes while its number is stored, and no UDPREGISTER
  pops a packet (`accounted_iff_disposable`). `a_chunk_sent_twice` is a run that breaks it.
-/

import GroupeChat.ChatServer.KnownUsers

namespace GroupeChat.ChatServer

open Base
open scoped List

structure Ledger where
  cmd : Cmd
  /-- How many packets have been taken; the `n`-th one has the number `n`. -/
  taken : Nat
  deleted : List Nat
  /-- The packets behind the pointers of `m_udpLoseMap`. -/
  stored : StdMap Int Nat

namespace Ledger

inductive Ev where
  /-- `packNext`: what stands behind the packet in the list is a packet too. -/
  | packet (p : Packet) (packNext : Bool)
  | dispatch (e : Cmd.Ev)

def init : Ledger := ⟨.init, 0, [], ∅⟩

/-- The second element that the case pops, where it is a packet. -/
def second (n : Nat) (p : Packet) (packNext : Bool) : List Nat :=
  match CmdId.ofCode (Proto.cmdId p.pack) with
  | some .udpResend => if p.temaddr.isSome && packNext then [n] else []
  | some .udpSendFile => if p.temaddr.isSome && packNext then [n] else []
  | some .udpRegister => if p.temaddr.isSome && packNext then [n] else []
  | _ => []

/-- What the case deletes: `pack` is the packet, `popped` what was popped behind it. -/
def disposal (pack : Nat) (popped : List Nat) (p : Packet) : List Nat :=
  match CmdId.ofCode (Proto.cmdId p.pack) with
  | some .udpResend => popped ++ [pack]
  | some .sendToOne => [pack]
  | some .sendToOthers => [pack]
  | some .sendFileName => [pack]
  | some .fileRet => [pack]
  | some .sendFile => [pack]
  | some .udpSendFile => popped
  | some .udpRegister => [pack]
  | some .heartbeat => [pack]
  | some .quit => [pack]
  | some .login => []
  | none => []

def handle (s : Ledger) (p : Packet) (packNext : Bool) : Ledger :=
  let popped := second (s.taken + 1) p packNext
  { cmd := s.cmd.setWriteSocketFdFlag p
    taken := s.taken + 1 + popped.length
    deleted := s.deleted ++ disposal s.taken popped p
    stored :=
      if CmdId.ofCode (Proto.cmdId p.pack) = some .udpSendFile then s.stored.insertNew (Proto.count p.pack) s.taken
      else s.stored }

def next (s : Ledger) : Ev → Option Ledger
  | .packet p packNext => some (s.handle p packNext)
  | .dispatch (.packet _) => none
  | .dispatch (.evict count now) =>
    (s.cmd.next (.evict count now)).map fun c =>
      { s with cmd := c, deleted := s.deleted ++ (s.stored.find? count).toList, stored := s.stored.remove count }
  | .dispatch e => (s.cmd.next e).map fun c => { s with cmd := c }

def step (s : Ledger) (e : Ev) : Option Ledger :=
  (s.next e).bind fun s' => if s.cmd.fault = none ∧ s'.cmd.fault = none then some s' else none

def storedPackets (s : Ledger) : List Nat := s.stored.toList.map Prod.snd

/-- The packets taken are those deleted and those stored, each once. -/
def Accounted (s : Ledger) : Prop := (s.deleted ++ s.storedPackets).Perm (List.range s.taken)

instance : DecidablePred Accounted := fun s =>
  inferInstanceAs (Decidable ((s.deleted ++ s.storedPackets).Perm (List.range s.taken)))

/-- The packet has a case; a chunk's number is not stored; what a UDPREGISTER pops is an
    address. -/
def HasPlace (s : Ledger) (p : Packet) (packNext : Bool) : Prop :=
  match CmdId.ofCode (Proto.cmdId p.pack) with
  | none => False
  | some .login => False
  | some .udpSendFile => s.cmd.mUdpLoseMap.find? (Proto.count p.pack) = none
  | some .udpRegister => (p.temaddr.isSome && packNext) = false
  | some _ => True

def Disposable (s : Ledger) : Ev → Prop
  | .packet p packNext => s.HasPlace p packNext
  | .dispatch _ => True

def Matched (s : Ledger) : Prop := ∀ k, (s.stored.find? k).isSome = (s.cmd.mUdpLoseMap.find? k).isSome

structure Inv (s : Ledger) : Prop where
  accounted : Accounted s
  matched : Matched s

/-! ## The map -/

theorem Matched.none_iff {s : Ledger} (h : Matched s) (k : Int) :
    s.stored.find? k = none ↔ s.cmd.mUdpLoseMap.find? k = none := by
  rw [← Option.not_isSome_iff_eq_none, ← Option.not_isSome_iff_eq_none, h k]

theorem handle_matched {s : Ledger} {p : Packet} {packNext : Bool} (hm : Matched s)
    (hf : (s.handle p packNext).cmd.fault = none) : Matched (s.handle p packNext) := by
  intro k
  have hcache := Cmd.setWriteSocketFdFlag_cache (c := s.cmd) (p := p) hf
  show ((s.handle p packNext).stored.find? k).isSome = ((s.cmd.setWriteSocketFdFlag p).mUdpLoseMap.find? k).isSome
  rw [hcache]
  unfold handle
  dsimp only
  split
  · rw [StdMap.find?_insertNew, StdMap.find?_insertNew]
    split
    · rfl
    · exact hm k
  · exact hm k

/-! ## The accounts -/

theorem range_second (n : Nat) (p : Packet) (packNext : Bool) :
    List.range (n + 1 + (second (n + 1) p packNext).length) = List.range n ++ n :: second (n + 1) p packNext := by
  have hsecond : second (n + 1) p packNext = [] ∨ second (n + 1) p packNext = [n + 1] := by
    unfold second
    split
    · split <;> simp
    · split <;> simp
    · split <;> simp
    · simp
  rcases hsecond with h | h
  · rw [h]
    exact List.range_succ
  · rw [h]
    show List.range (n + 1 + 1) = _
    rw [List.range_succ, List.range_succ, List.append_assoc]
    rfl

/-- What is accounted for is as much as was taken. -/
theorem Accounted.length {s : Ledger} (h : Accounted s) : s.deleted.length + s.storedPackets.length = s.taken := by
  have := List.Perm.length_eq h
  rwa [List.length_append, List.length_range] at this

/-- The packets that the handling took are those it deleted and those it stored. -/
theorem Accounted.handle {s : Ledger} {p : Packet} {packNext : Bool} (h : Accounted s) (added : List Nat)
    (hd : (disposal s.taken (second (s.taken + 1) p packNext) p ++ added).Perm
      (s.taken :: second (s.taken + 1) p packNext))
    (hs : (s.handle p packNext).storedPackets.Perm (added ++ s.storedPackets)) : Accounted (s.handle p packNext) := by
  obtain ⟨popped, hpopped⟩ : ∃ l, l = second (s.taken + 1) p packNext := ⟨_, rfl⟩
  have hrange := range_second s.taken p packNext
  have htaken : (s.handle p packNext).taken = s.taken + 1 + popped.length := by rw [hpopped]; rfl
  have hdeleted : (s.handle p packNext).deleted = s.deleted ++ disposal s.taken popped p := by rw [hpopped]; rfl
  rw [← hpopped] at hd hrange
  unfold Accounted
  rw [htaken, hrange, hdeleted]
  calc s.deleted ++ disposal s.taken popped p ++ (s.handle p packNext).storedPackets
      _ ~ s.deleted ++ disposal s.taken popped p ++ (added ++ s.storedPackets) := hs.append_left _
      _ = s.deleted ++ ((disposal s.taken popped p ++ added) ++ s.storedPackets) := by simp only [List.append_assoc]
      _ ~ s.deleted ++ (s.storedPackets ++ (disposal s.taken popped p ++ added)) :=
        List.perm_append_comm.append_left _
      _ ~ s.deleted ++ (s.storedPackets ++ (s.taken :: popped)) := (hd.append_left _).append_left _
      _ = (s.deleted ++ s.storedPackets) ++ (s.taken :: popped) := (List.append_assoc _ _ _).symm
      _ ~ List.range s.taken ++ s.taken :: popped := h.append_right _

/-- Any case but UDPSENDFILE. -/
theorem handle_stored (s : Ledger) (p : Packet) (packNext : Bool)
    (hcmd : CmdId.ofCode (Proto.cmdId p.pack) ≠ some .udpSendFile) :
    (s.handle p packNext).storedPackets = s.storedPackets := by
  unfold handle storedPackets
  dsimp only
  rw [if_neg hcmd]

/-- A chunk whose number is new. -/
theorem handle_stored_new {s : Ledger} {p : Packet} {packNext : Bool}
    (hcmd : CmdId.ofCode (Proto.cmdId p.pack) = some .udpSendFile) (hk : s.stored.find? (Proto.count p.pack) = none) :
    (s.handle p packNext).storedPackets.Perm (s.taken :: s.storedPackets) := by
  unfold handle storedPackets
  dsimp only
  rw [if_pos hcmd]
  exact (StdMap.toList_insertNew s.taken hk).map Prod.snd

/-- A chunk whose number is stored. -/
theorem handle_stored_old {s : Ledger} {p : Packet} (packNext : Bool)
    (hcmd : CmdId.ofCode (Proto.cmdId p.pack) = some .udpSendFile) (hk : s.stored.find? (Proto.count p.pack) ≠ none) :
    (s.handle p packNext).storedPackets = s.storedPackets := by
  unfold handle storedPackets
  dsimp only
  rw [if_pos hcmd, StdMap.insertNew, if_pos (Option.isSome_iff_ne_none.mpr hk)]

/-- A packet with a case is disposed of once. -/
theorem handle_accounted {s : Ledger} {p : Packet} {packNext : Bool} (hi : Inv s)
    (hc : s.HasPlace p packNext) : Accounted (s.handle p packNext) := by
  unfold HasPlace at hc
  cases hcmd : CmdId.ofCode (Proto.cmdId p.pack) with
  | none =>
    rw [hcmd] at hc
    exact hc.elim
  | some k =>
    rw [hcmd] at hc
    by_cases hk : k = .udpSendFile
    · subst hk
      have hnew := (hi.matched.none_iff _).mpr hc
      refine hi.accounted.handle [s.taken] ?_ (handle_stored_new hcmd hnew)
      simp only [disposal, hcmd]
      exact List.perm_append_comm
    · have hsame := handle_stored s p packNext (by rw [hcmd]; simpa using hk)
      refine hi.accounted.handle [] ?_ (by rw [hsame]; exact List.Perm.refl _)
      rw [List.append_nil]
      cases k with
      | login => exact hc.elim
      | udpSendFile => exact absurd rfl hk
      | udpResend =>
        simp only [disposal, hcmd]
        exact List.perm_append_comm
      | udpRegister =>
        dsimp only at hc
        simp [disposal, second, hcmd, hc]
      | _ => simp [disposal, second, hcmd]

/-- The map left alone, as many packets were deleted as were taken. -/
theorem Accounted.balance {s : Ledger} {p : Packet} {packNext : Bool} (h : Accounted s)
    (h' : Accounted (s.handle p packNext)) (hsame : (s.handle p packNext).storedPackets = s.storedPackets) :
    (disposal s.taken (second (s.taken + 1) p packNext) p).length = 1 + (second (s.taken + 1) p packNext).length := by
  have hold := h.length
  have hnew := h'.length
  have htaken : (s.handle p packNext).taken = s.taken + 1 + (second (s.taken + 1) p packNext).length := rfl
  have hdeleted : (s.handle p packNext).deleted.length =
      s.deleted.length + (disposal s.taken (second (s.taken + 1) p packNext) p).length := List.length_append
  rw [hsame] at hnew
  omega

/-- One that is not, or of which another is lost, leaves the account short. -/
theorem hasPlace_of_accounted {s : Ledger} {p : Packet} {packNext : Bool} (hi : Inv s)
    (h : Accounted (s.handle p packNext)) : s.HasPlace p packNext := by
  unfold HasPlace
  cases hcmd : CmdId.ofCode (Proto.cmdId p.pack) with
  | none =>
    have hbalance := hi.accounted.balance h (handle_stored s p packNext (by rw [hcmd]; decide))
    simp [disposal, second, hcmd] at hbalance
  | some k =>
    cases k with
    | login =>
      have hbalance := hi.accounted.balance h (handle_stored s p packNext (by rw [hcmd]; decide))
      simp [disposal, second, hcmd] at hbalance
    | udpSendFile =>
      show s.cmd.mUdpLoseMap.find? (Proto.count p.pack) = none
      rw [← hi.matched.none_iff]
      by_contra hk
      have hbalance := hi.accounted.balance h (handle_stored_old packNext hcmd hk)
      simp only [disposal, hcmd] at hbalance
      omega
    | udpRegister =>
      show (p.temaddr.isSome && packNext) = false
      by_contra hpop
      have hpop : (p.temaddr.isSome && packNext) = true := by simpa using hpop
      have hbalance := hi.accounted.balance h (handle_stored s p packNext (by rw [hcmd]; decide))
      simp only [disposal, second, hcmd, hpop, if_true, List.length_singleton] at hbalance
      omega
    | _ => trivial

/-! ## A step -/

theorem evict_inv {s : Ledger} {count now : Int} {c : Cmd} (hi : Inv s) (h : s.cmd.next (.evict count now) = some c) :
    Inv { s with
      cmd := c, deleted := s.deleted ++ (s.stored.find? count).toList, stored := s.stored.remove count } := by
  simp only [Cmd.next] at h
  split at h
  · cases h
  · rename_i cached hcached
    split at h
    · obtain rfl := Option.some.inj h
      have hsome : (s.stored.find? count).isSome = true := by
        rw [hi.matched count, hcached]
        rfl
      obtain ⟨n, hn⟩ := Option.isSome_iff_exists.mp hsome
      refine ⟨?_, ?_⟩
      · have hperm : s.storedPackets.Perm (n :: (s.stored.remove count).toList.map Prod.snd) :=
          (StdMap.toList_remove hn).map Prod.snd
        show (s.deleted ++ (s.stored.find? count).toList ++ (s.stored.remove count).toList.map Prod.snd).Perm _
        rw [hn, Option.toList_some, List.append_assoc]
        exact (hperm.symm.append_left _).trans hi.accounted
      · intro k
        show ((s.stored.remove count).find? k).isSome = ((s.cmd.mUdpLoseMap.remove count).find? k).isSome
        rw [StdMap.find?_remove, StdMap.find?_remove]
        split
        · rfl
        · exact hi.matched k
    · cases h

/-- An event that leaves the cache leaves the account. -/
theorem Inv.quiet {s : Ledger} {c : Cmd} (hi : Inv s) (h : Cmd.Quiet s.cmd c) : Inv { s with cmd := c } := by
  refine ⟨hi.accounted, fun k => ?_⟩
  show (s.stored.find? k).isSome = (c.mUdpLoseMap.find? k).isSome
  rw [h.cache]
  exact hi.matched k

theorem dispatch_inv {s s' : Ledger} {e : Cmd.Ev} (hi : Inv s) (h : s.next (.dispatch e) = some s') : Inv s' := by
  cases e with
  | packet p => cases h
  | evict count now =>
    simp only [next] at h
    obtain ⟨c, hc, rfl⟩ := Option.map_eq_some_iff.mp h
    exact evict_inv hi hc
  | login junk socket userId now =>
    simp only [next] at h
    obtain ⟨c, hc, rfl⟩ := Option.map_eq_some_iff.mp h
    exact hi.quiet (Cmd.login_quiet hc)
  | startSend userId nread =>
    simp only [next] at h
    obtain ⟨c, hc, rfl⟩ := Option.map_eq_some_iff.mp h
    exact hi.quiet (Cmd.startSend_quiet hc)
  | deleteloginUser userId =>
    simp only [next] at h
    obtain ⟨c, hc, rfl⟩ := Option.map_eq_some_iff.mp h
    exact hi.quiet (Cmd.deleteloginUser_quiet hc)
  | sweep userId =>
    simp only [next] at h
    obtain ⟨c, hc, rfl⟩ := Option.map_eq_some_iff.mp h
    exact hi.quiet (Cmd.sweep_quiet hc)

theorem step_inv {s s' : Ledger} {e : Ev} (hi : Inv s) (h : step s e = some s') :
    (Disposable s e → Inv s') ∧ (Accounted s' → Disposable s e) := by
  obtain ⟨t, hnext, hlive⟩ := Option.bind_eq_some_iff.mp h
  split at hlive
  · rename_i hfault
    obtain rfl := Option.some.inj hlive
    cases e with
    | packet p packNext =>
      obtain rfl := Option.some.inj hnext
      exact ⟨fun hc => ⟨handle_accounted hi hc, handle_matched hi.matched hfault.2⟩, hasPlace_of_accounted hi⟩
    | dispatch e => exact ⟨fun _ => dispatch_inv hi hnext, fun _ => trivial⟩
  · cases hlive

/-! ## Runs -/

theorem init_inv : Inv init := ⟨List.Perm.refl _, fun _ => rfl⟩

/-- Whatever is handled with live users and whatever is evicted in between, the packets are
    accounted for all along exactly when each finds a case that disposes of it. -/
theorem accounted_iff_disposable (es : List Ev) : Always step Accounted init es ↔ Along step Disposable init es :=
  always_iff_along (fun _ hi => hi.accounted) (fun _ _ _ hi h => step_inv hi h) init_inv

def chunk : Packet :=
  ⟨((Mem.putInt 4 (fun _ => 0) 0 CmdId.udpSendFile.code).putInt 4 8 1436).putInt 4 Proto.udpPeerOff 2,
    none, none, 0, fun _ => 0⟩

/-- The second one is neither stored nor deleted. -/
theorem a_chunk_sent_twice : ¬ Always step Accounted init
    [.dispatch (.login (fun _ => 0) 6 2 0), .packet chunk false, .packet chunk false] := by
  decide +kernel

end Ledger

end GroupeChat.ChatServer
