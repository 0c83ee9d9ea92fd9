/-
  GroupeChat.ChatServer.Retransmit — what UDPRESEND answers out of the cache.

  UDPSENDFILE queues for the addressee a copy of the chunk with the sender in the
  addressee's place, and caches the chunk as it came, under its number alone, where an
  older one stays. UDPRESEND queues for whoever asks a copy of what is cached under the
  number: of any transfer, and with the addressee still in it.

  `Faithful`: every answer is a chunk that was queued before, for the same user under
  the same number, but for its time. It holds all along every run in which the chunks
  asked for are `Own`: sent by the user who asks, to himself (`faithful_of_own`). In a
  transfer from one user to another it fails at the first lost number
  (`an_answer_to_a_lost_number`).
-/

import GroupeChat.ChatServer.Cmd

namespace GroupeChat.ChatServer.Cmd

open Base

/-- Every field of the packet but `time`: the fixed ones, and the `length - 46` bytes of
    the chunk. -/
def SameButTime (f a : Buf) : Prop :=
  ∀ i < max Proto.contextOff (Proto.length a).toNat, i < Proto.timeOff ∨ Proto.timeOff + Proto.timeSize ≤ i → f i = a i

instance (f a : Buf) : Decidable (SameButTime f a) :=
  inferInstanceAs (Decidable (∀ i < max Proto.contextOff (Proto.length a).toNat, _))

def Faithful (c : Cmd) : Prop :=
  ∀ a ∈ c.answers, ∃ f ∈ c.forwards, f.dest = a.dest ∧ f.count = a.count ∧ SameButTime f.pack a.pack

instance : DecidablePred Faithful := fun c =>
  inferInstanceAs (Decidable (∀ a ∈ c.answers, ∃ f ∈ c.forwards, _))

/-- The user who asks has sent the chunk to himself, and it is long enough to be one. -/
def OwnChunk (p : Packet) (q : Buf) : Prop :=
  Proto.userId q = Proto.userId p.pack ∧ Proto.udpPeerId q = Proto.userId p.pack ∧ Proto.contextOff ≤ Proto.length q

def Own (c : Cmd) : Ev → Prop
  | .packet p => CmdId.ofCode (Proto.cmdId p.pack) = some .udpResend →
      ∀ i < (Proto.num p.pack).toNat, ∀ q ∈ c.mUdpLoseMap.find? (Proto.loseNum p.pack i), OwnChunk p q
  | _ => True

instance (p : Packet) (q : Buf) : Decidable (OwnChunk p q) := inferInstanceAs (Decidable (_ ∧ _ ∧ _))

instance (c : Cmd) : (e : Ev) → Decidable (c.Own e)
  | .packet p => inferInstanceAs (Decidable (CmdId.ofCode (Proto.cmdId p.pack) = some .udpResend →
      ∀ i < (Proto.num p.pack).toNat, ∀ q ∈ c.mUdpLoseMap.find? (Proto.loseNum p.pack i), OwnChunk p q))
  | .login .. | .startSend .. | .deleteloginUser _ | .sweep _ | .evict .. => inferInstanceAs (Decidable True)

/-! ## The cache and what was queued -/

/-- A cached chunk was queued for its addressee, and is what was queued if it was sent
    by him. -/
structure Cached (forwards : List Queued) (k : Int) (q : Buf) : Prop where
  fits : Proto.length q ≤ Proto.packSize
  forward : ∃ f ∈ forwards, f.dest = Proto.udpPeerId q ∧ f.count = k ∧
    (Proto.userId q = Proto.udpPeerId q → Proto.contextOff ≤ Proto.length q → SameButTime f.pack q)

structure Inv (c : Cmd) : Prop where
  cached : ∀ k q, c.mUdpLoseMap.find? k = some q → Cached c.forwards k q
  faithful : c.Faithful

theorem init_faithful_inv : Inv init := ⟨nofun, nofun⟩

theorem Inv.quiet {c c' : Cmd} (hi : Inv c) (h : Quiet c c') : Inv c' := by
  refine ⟨?_, ?_⟩
  · rw [h.cache, h.forwards]
    exact hi.cached
  · unfold Faithful
    rw [h.answers, h.forwards]
    exact hi.faithful

theorem Cached.mono {fs gs : List Queued} {k : Int} {q : Buf} (h : Cached fs k q) (hsub : fs ⊆ gs) : Cached gs k q := by
  obtain ⟨f, hf, hd, hc, hsame⟩ := h.forward
  exact ⟨h.fits, f, hsub hf, hd, hc, hsame⟩

/-- What is forwarded is the chunk, relayed. -/
theorem udpcopy_relayed (junk pack : Buf) : Proto.Relayed pack (udpcopy junk pack) := by
  intro i hi h
  unfold udpcopy
  rw [← Mem.write_read junk pack hi]
  rcases h with h | h
  · exact Mem.putInt_below _ _ _ (Nat.lt_trans h (by decide))
  · exact Mem.putInt_above _ _ _ h

/-- So is what is answered out of the cache. -/
theorem answer_relayed (junk pack : Buf) (now : Int) (hfits : Proto.length pack ≤ Proto.packSize) :
    Proto.Relayed pack (junk.write 0 ((pack.putInt Proto.timeSize Proto.timeOff now).read 0 Proto.packSize)) := by
  intro i hi h
  rw [Mem.write_read junk _ (by omega)]
  rcases h with h | h
  · exact Mem.putInt_below _ _ _ h
  · exact Mem.putInt_above _ _ _ (Nat.le_trans (by decide) h)

/-- With the time set in one and the sender put over the addressee in the other, a chunk
    from a user to himself is the same. -/
theorem udpcopy_same {junk pack : Buf} {now : Int} (hself : Proto.userId pack = Proto.udpPeerId pack)
    (hlen : Proto.contextOff ≤ Proto.length pack) :
    SameButTime (udpcopy junk pack) (pack.putInt Proto.timeSize Proto.timeOff now) := by
  intro i hi htime
  have hl : Proto.length (pack.putInt Proto.timeSize Proto.timeOff now) = Proto.length pack :=
    Mem.getInt_putInt_ne _ _ (Or.inl (by decide))
  rw [hl] at hi
  have hlt : i < (Proto.length pack).toNat := by
    simp only [Proto.contextOff] at hi hlen
    omega
  have hkeep : pack.putInt Proto.timeSize Proto.timeOff now i = pack i := by
    rcases htime with h | h
    · exact Mem.putInt_below _ _ _ h
    · exact Mem.putInt_above _ _ _ h
  -- the sender put over himself
  have hput : pack.putInt 4 Proto.udpPeerOff (Proto.userId pack) = pack := by
    rw [hself]
    exact Mem.putInt_getInt 4 pack Proto.udpPeerOff
  calc udpcopy junk pack i
      = pack.putInt 4 Proto.udpPeerOff (Proto.userId pack) i := Mem.putInt_congr _ (Mem.write_read junk pack hlt)
    _ = pack i := congrFun hput i
    _ = pack.putInt Proto.timeSize Proto.timeOff now i := hkeep.symm

theorem cached_udpcopy {fs : List Queued} {junk pack : Buf} {now : Int} (hfits : Proto.length pack ≤ Proto.packSize) :
    Cached (fs ++ [⟨Proto.udpPeerId pack, Proto.count pack, udpcopy junk pack⟩]) (Proto.count pack)
      (pack.putInt Proto.timeSize Proto.timeOff now) := by
  have hl : Proto.length (pack.putInt Proto.timeSize Proto.timeOff now) = Proto.length pack :=
    Mem.getInt_putInt_ne _ _ (Or.inl (by decide))
  have hu : Proto.userId (pack.putInt Proto.timeSize Proto.timeOff now) = Proto.userId pack :=
    Mem.getInt_putInt_ne _ _ (Or.inl (by decide))
  have hp : Proto.udpPeerId (pack.putInt Proto.timeSize Proto.timeOff now) = Proto.udpPeerId pack :=
    Mem.getInt_putInt_ne _ _ (Or.inr (by decide))
  have hmem : ⟨Proto.udpPeerId pack, Proto.count pack, udpcopy junk pack⟩ ∈
      fs ++ [(⟨Proto.udpPeerId pack, Proto.count pack, udpcopy junk pack⟩ : Queued)] :=
    List.mem_append_right _ (List.mem_singleton_self _)
  refine ⟨hl.le.trans hfits, ⟨_, hmem, ?_, ?_, ?_⟩⟩
  · dsimp only
    exact hp.symm
  · dsimp only
  · rw [hl, hu, hp]
    exact udpcopy_same

/-- What is cached is a chunk that was queued just before, or an older one. -/
theorem udpSendFile_inv {c : Cmd} (p : Packet) (hi : Inv c) : Inv (c.udpSendFile p) := by
  unfold udpSendFile
  dsimp only
  set f : User → Except Fault User := fun u =>
    if 0 ≤ Proto.length p.pack ∧ Proto.length p.pack ≤ Proto.packSize then .ok (u.udpPush (udpcopy p.junk p.pack))
    else .error .outOfBounds with hf
  obtain ⟨hcached, hfaithful⟩ := hi.quiet (withUser_quiet c (Proto.udpPeerId p.pack) f)
  unfold andThen
  split
  · rename_i hfault
    obtain ⟨u, u', -, hu', -⟩ := withUser_ok hfault
    have hfits : Proto.length p.pack ≤ Proto.packSize := by
      simp only [hf] at hu'
      split at hu'
      · rename_i hlen
        exact hlen.2
      · cases hu'
    refine ⟨fun k q hk => ?_, fun a ha => ?_⟩
    · rcases StdMap.of_find?_insertNew hk with hold | ⟨hkey, rfl⟩
      · exact (hcached k q hold).mono (List.subset_append_left _ _)
      · rw [hkey]
        exact cached_udpcopy hfits
    · obtain ⟨g, hg, h⟩ := hfaithful a ha
      exact ⟨g, List.mem_append_left _ hg, h⟩
  · exact ⟨hcached, hfaithful⟩

/-! ## Answers -/

/-- A copy of the first 1436 bytes is the same chunk. -/
theorem SameButTime.copy {f q junk : Buf} (h : SameButTime f q) (hfits : Proto.length q ≤ Proto.packSize) :
    SameButTime f (junk.write 0 (q.read 0 Proto.packSize)) := by
  have hcopy : ∀ i < Proto.packSize, junk.write 0 (q.read 0 Proto.packSize) i = q i := fun i hi =>
    Mem.write_read junk q hi
  have hl : Proto.length (junk.write 0 (q.read 0 Proto.packSize)) = Proto.length q := by
    refine Proto.length_congr (Mem.read_eq_iff.mpr fun i hi => ?_)
    rw [Nat.zero_add]
    exact hcopy i (Nat.lt_trans hi (by decide))
  intro i hi htime
  rw [hl] at hi
  have hlt : i < Proto.packSize := by
    simp only [Proto.packSize, Proto.contextOff] at *
    omega
  rw [hcopy i hlt]
  exact h i hi htime

theorem answer_inv {c : Cmd} {p : Packet} {n : Int} {q : Buf} (hi : Inv c) (hq : c.mUdpLoseMap.find? n = some q)
    (hown : OwnChunk p q) : Inv (c.answer p n q) := by
  obtain ⟨hu, hp, hlen⟩ := hown
  have hquiet := withUser_quiet c (Proto.userId p.pack) fun u =>
    .ok (u.udpPush (p.junk.write 0 (q.read 0 Proto.packSize)))
  obtain ⟨hcached, hfaithful⟩ := hi.quiet hquiet
  unfold answer
  dsimp only
  unfold andThen
  split
  · refine ⟨hcached, fun a ha => ?_⟩
    rcases List.mem_append.mp ha with ha | ha
    · exact hfaithful a ha
    · rw [List.mem_singleton.mp ha]
      obtain ⟨f, hf, hdest, hcount, hsame⟩ := (hcached n q (by rw [hquiet.cache]; exact hq)).forward
      have hcopy : SameButTime f.pack (p.junk.write 0 (q.read 0 Proto.packSize)) :=
        SameButTime.copy (hsame (hu.trans hp.symm) hlen) (hi.cached n q hq).fits
      refine ⟨f, hf, ?_⟩
      dsimp only
      exact ⟨hdest.trans hp, hcount, hcopy⟩
  · exact ⟨hcached, hfaithful⟩

theorem udpResend_inv {c : Cmd} {p : Packet} (hi : Inv c)
    (hown : ∀ i < (Proto.num p.pack).toNat, ∀ q ∈ c.mUdpLoseMap.find? (Proto.loseNum p.pack i), OwnChunk p q) :
    Inv (c.udpResend p) := by
  let Held (r : Resend) : Prop := Inv r.cmd ∧ r.cmd.mUdpLoseMap = c.mUdpLoseMap
  have hloop : Held ((List.range (Proto.num p.pack).toNat).foldl (Resend.next p) ⟨c, p.junk, 0⟩) := by
    refine List.foldlRecOn (motive := Held) _ _ ⟨hi, rfl⟩ fun r hr i hmem => ?_
    obtain ⟨hr, hcache⟩ := hr
    unfold Resend.next
    split
    · exact ⟨hr, hcache⟩
    · split
      · exact ⟨hr.quiet (fail_quiet _ _), hcache⟩
      · dsimp only
        split
        · rename_i q hq
          have hq' := hcache ▸ hq
          exact ⟨answer_inv hr hq (hown i (List.mem_range.mp hmem) q hq'), (answer_cache ..).1.trans hcache⟩
        · unfold Resend.collect
          split
          · exact ⟨hr.quiet (fail_quiet _ _), hcache⟩
          · exact ⟨hr, hcache⟩
  obtain ⟨hr, -⟩ := hloop
  unfold udpResend
  dsimp only
  split
  · exact hr
  · exact hr.quiet ((Quiet.refl _).andThen (withUser_quiet _ _ _))

/-! ## Runs -/

theorem setWriteSocketFdFlag_inv {c : Cmd} {p : Packet} (hi : Inv c) (ho : c.Own (.packet p)) :
    Inv (c.setWriteSocketFdFlag p) := by
  unfold setWriteSocketFdFlag
  split
  · rename_i hcmd
    exact udpResend_inv hi (ho hcmd)
  · exact hi.quiet (relay_quiet c p)
  · exact hi.quiet (sendToOthers_quiet c p)
  · exact hi.quiet (relay_quiet c p)
  · exact hi.quiet (relay_quiet c p)
  · exact hi.quiet (relay_quiet c p)
  · exact udpSendFile_inv p hi
  · exact hi.quiet (udpRegister_quiet c p)
  · exact hi.quiet (heartbeat_quiet c p)
  · exact hi.quiet (quit_quiet c p)
  · exact hi
  · exact hi

theorem next_inv {c c' : Cmd} {e : Ev} (hi : Inv c) (ho : c.Own e) (h : c.next e = some c') : Inv c' := by
  cases e with
  | packet p =>
    obtain rfl := Option.some.inj h
    exact setWriteSocketFdFlag_inv hi ho
  | evict count now =>
    simp only [next] at h
    split at h
    · cases h
    · split at h
      · obtain rfl := Option.some.inj h
        exact ⟨fun k q hk => hi.cached k q (StdMap.of_find?_remove hk).2, hi.faithful⟩
      · cases h
  | login junk socket userId now => exact hi.quiet (login_quiet h)
  | startSend userId nread => exact hi.quiet (startSend_quiet h)
  | deleteloginUser userId => exact hi.quiet (deleteloginUser_quiet h)
  | sweep userId => exact hi.quiet (sweep_quiet h)

theorem step_faithful_inv {c c' : Cmd} {e : Ev} (hi : Inv c) (ho : c.Own e) (h : c.step e = some c') : Inv c' := by
  unfold step at h
  split at h
  · exact next_inv hi ho h
  · cases h

/-- Over any transfers, evictions and requests: when the chunks asked for are their
    requesters' own, every answer is a chunk queued before for the same user under the
    same number, but for its time. -/
theorem faithful_of_own (es : List Ev) (h : Along step Own init es) : Always step Faithful init es :=
  (always_of_along (fun _ _ _ => step_faithful_inv) init_faithful_inv h).mono fun _ hi => hi.faithful

def chunk (user peer count : Int) : Packet :=
  let head := (((Mem.putInt 4 (fun _ => 0) 0 CmdId.udpSendFile.code).putInt 4 4 user).putInt 4 8 50)
  ⟨(head.putInt 4 Proto.countOff count).putInt 4 Proto.udpPeerOff peer, none, none, 0, fun _ => 0⟩

def lost (user peer n : Int) : Packet :=
  let head := ((Mem.putInt 4 (fun _ => 0) 0 CmdId.udpResend.code).putInt 4 4 user).putInt 4 Proto.peerOff peer
  ⟨(head.putInt 4 Proto.numOff 1).putInt 4 Proto.loseNumOff n, none, none, 0, fun _ => 0⟩

theorem a_file_to_oneself :
    Always step Faithful init
      [.login (fun _ => 0) 5 1 0, .packet (chunk 1 1 1), .packet (lost 1 1 1), .evict 1 3, .packet (lost 1 1 1)] :=
  faithful_of_own _ (by decide +kernel)

/-- User 1 sends user 2 a chunk, and user 2 asks for it again: what it gets names user 2
    as the sender. -/
theorem an_answer_to_a_lost_number :
    ¬ Always step Faithful init
      [.login (fun _ => 0) 5 1 0, .login (fun _ => 0) 6 2 0, .packet (chunk 1 2 1), .packet (lost 2 1 1)] := by
  decide +kernel

end GroupeChat.ChatServer.Cmd
