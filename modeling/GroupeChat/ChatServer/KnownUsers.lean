/-
  GroupeChat.ChatServer.KnownUsers — what dispatch needs of the ids in a packet.

  Nothing checks an id before `m_map[id]`, except that UDPRESEND looks its lost numbers up
  with `find`. `Safe`: no null entry is in `m_map` and none was dereferenced. `Unmoved`: a
  packet that names a user who is not there changes no user. Both hold all along every run
  whose packets only name users who are logged in when they are handled
  (`safe_of_known`), whatever logins, removals and evictions come between. A private
  message to an id that nobody has breaks it (`a_message_to_nobody`).
-/

import GroupeChat.ChatServer.Cmd

namespace GroupeChat.ChatServer.Cmd

open Base

/-! ## The ids a packet names -/

def Live (c : Cmd) (id : Int) : Prop := ∃ u, c.mMap.find? id = some (some u)

instance (c : Cmd) (id : Int) : Decidable (c.Live id) :=
  match h : c.mMap.find? id with
  | some (some u) => isTrue ⟨u, h⟩
  | some none => isFalse fun ⟨_, hu⟩ => by cases h.symm.trans hu
  | none => isFalse fun ⟨_, hu⟩ => by cases h.symm.trans hu

def asked (p : Packet) : List Int := (List.range (Proto.num p.pack).toNat).map (Proto.loseNum p.pack)

/-- The ids that the packet's case puts in `m_map[...]`: the addressee, the sender, in
    UDPRESEND the one for the numbers that are cached and the other for those that are
    not, in QUIT whatever `tmp` points to. -/
def named (c : Cmd) (p : Packet) : List Int :=
  match CmdId.ofCode (Proto.cmdId p.pack) with
  | some .udpResend =>
    (if ∃ n ∈ asked p, (c.mUdpLoseMap.find? n).isSome then [Proto.userId p.pack] else []) ++
      (if ∃ n ∈ asked p, (c.mUdpLoseMap.find? n).isNone then [Proto.peerId p.pack] else [])
  | some .sendToOne => [Proto.peerId p.pack]
  | some .sendFileName => [Proto.peerId p.pack]
  | some .fileRet => [Proto.peerId p.pack]
  | some .sendFile => [Proto.peerId p.pack]
  | some .udpSendFile => [Proto.udpPeerId p.pack]
  | some .udpRegister => [Proto.userId p.pack]
  | some .heartbeat => [Proto.userId p.pack]
  | some .quit => p.tmp.toList
  | some .sendToOthers => []
  | some .login => []
  | none => []

def Known (c : Cmd) : Ev → Prop
  | .packet p => ∀ id ∈ c.named p, c.Live id
  | _ => True

instance (c : Cmd) : (e : Ev) → Decidable (c.Known e)
  | .packet p => inferInstanceAs (Decidable (∀ id ∈ c.named p, c.Live id))
  | .login .. | .startSend .. | .deleteloginUser _ | .sweep _ | .evict .. => inferInstanceAs (Decidable True)

/-- No null entry, and none met. -/
structure Safe (c : Cmd) : Prop where
  fault : c.fault ≠ some .nullUser
  entries : ∀ e ∈ c.mMap.toList, e.2.isSome = true

instance : DecidablePred Safe := fun c =>
  decidable_of_iff (c.fault ≠ some .nullUser ∧ ∀ e ∈ c.mMap.toList, e.2.isSome = true)
    ⟨fun h => ⟨h.1, h.2⟩, fun h => ⟨h.fault, h.entries⟩⟩

/-- A packet that names someone who is not logged in leaves every user as he was. -/
def Unmoved (c : Cmd) : Ev → Prop
  | .packet p => (∃ id ∈ c.named p, ¬ c.Live id) →
      ∀ id u, c.mMap.find? id = some (some u) → (c.setWriteSocketFdFlag p).mMap.find? id = some (some u)
  | _ => True

theorem safe_iff {c : Cmd} : c.Safe ↔ c.fault ≠ some .nullUser ∧ ∀ id, c.mMap.find? id ≠ some none := by
  refine ⟨fun h => ⟨h.fault, fun id hid => ?_⟩, fun h => ⟨h.1, fun ⟨id, o⟩ he => ?_⟩⟩
  · have := h.entries _ (StdMap.mem_toList.mpr hid)
    cases this
  · cases o with
    | none => exact absurd (StdMap.mem_toList.mp he) (h.2 id)
    | some u => rfl

theorem Safe.set {c : Cmd} {id : Int} {u : User} (hs : c.Safe) : ({ c with mMap := c.mMap.set id (some u) } : Cmd).Safe := by
  obtain ⟨hfault, hnull⟩ := safe_iff.mp hs
  refine safe_iff.mpr ⟨hfault, fun i h => ?_⟩
  rcases StdMap.of_find?_set h with ⟨_, hu⟩ | hold
  · cases hu
  · exact hnull i hold

/-! ## Stretches of dispatch that meet no null -/

structure Tame (c c' : Cmd) : Prop where
  live : ∀ id, c.Live id → c'.Live id
  safe : c.Safe → c'.Safe

theorem Tame.refl (c : Cmd) : Tame c c := ⟨fun _ h => h, fun h => h⟩

theorem Tame.trans {a b c : Cmd} (h : Tame a b) (h' : Tame b c) : Tame a c :=
  ⟨fun id hl => h'.live id (h.live id hl), fun hs => h'.safe (h.safe hs)⟩

theorem Tame.andThen {c c' : Cmd} {k : Cmd → Cmd} (h : Tame c c') (hk : Tame c' (k c')) : Tame c (c'.andThen k) := by
  unfold Cmd.andThen
  split
  · exact h.trans hk
  · exact h

theorem fail_tame (c : Cmd) {f : Fault} (hf : f ≠ .nullUser) : Tame c (c.fail f) := by
  refine ⟨fun _ h => h, fun hs => ⟨?_, hs.entries⟩⟩
  simpa [fail] using hf

/-- A lookup of someone who is logged in. -/
theorem withUser_tame {c : Cmd} {id : Int} {f : User → Except Fault User} (hl : c.Live id)
    (hf : ∀ u e, f u = .error e → e ≠ .nullUser) : Tame c (c.withUser id f) := by
  obtain ⟨u, hu⟩ := hl
  unfold withUser
  rw [hu]
  dsimp only
  split
  · rename_i u' hu'
    refine ⟨fun i ⟨v, hv⟩ => ?_, fun hs => hs.set⟩
    · simp only [Live, StdMap.find?_set]
      split
      · exact ⟨u', rfl⟩
      · exact ⟨v, hv⟩
  · rename_i e he
    exact fail_tame c (hf u e he)

theorem enqueue_error {pack : Buf} {u : User} {e : Fault} (h : u.enqueue pack = .error e) : e ≠ .nullUser := by
  unfold User.enqueue at h
  dsimp only at h
  split at h
  · cases h
  · cases h
    decide

theorem relay_tame {c : Cmd} {p : Packet} (hl : c.Live (Proto.peerId p.pack)) : Tame c (c.relay p) :=
  withUser_tame hl fun _ _ h => enqueue_error h

/-- A group message goes to the users there are. -/
theorem sendToOthers_tame {c : Cmd} (p : Packet) (hs : c.Safe) : Tame c (c.sendToOthers p) := by
  unfold sendToOthers
  refine List.foldlRecOn (motive := Tame c) _ _ (.refl c) fun c' h e he => ?_
  refine Tame.andThen h (withUser_tame (h.live _ ?_) fun _ _ h => enqueue_error h)
  obtain ⟨u, hu⟩ := Option.isSome_iff_exists.mp (hs.entries e (c.mMap.ascending_perm.mem_iff.mp he))
  exact ⟨u, by rw [← hu]; exact StdMap.mem_ascending.mp he⟩

theorem udpSendFile_safe {c : Cmd} {p : Packet} (hl : c.Live (Proto.udpPeerId p.pack)) (hs : c.Safe) :
    (c.udpSendFile p).Safe := by
  unfold udpSendFile
  dsimp only
  set c' := c.withUser (Proto.udpPeerId p.pack) _ with hc'
  have hsafe : c'.Safe := by
    refine (withUser_tame hl fun u e h => ?_).safe hs
    split at h
    · cases h
    · cases h
      decide
  unfold andThen
  split
  · exact ⟨hsafe.fault, hsafe.entries⟩
  · exact hsafe

theorem udpRegister_tame {c : Cmd} {p : Packet} (hl : c.Live (Proto.userId p.pack)) : Tame c (c.udpRegister p) := by
  unfold udpRegister
  split
  · exact fail_tame c (by decide)
  · exact withUser_tame hl nofun

theorem heartbeat_tame {c : Cmd} {p : Packet} (hl : c.Live (Proto.userId p.pack)) : Tame c (c.heartbeat p) :=
  withUser_tame hl nofun

theorem quit_tame {c : Cmd} {p : Packet} (hl : ∀ id ∈ p.tmp.toList, c.Live id) : Tame c (c.quit p) := by
  unfold quit
  split
  · exact fail_tame c (by decide)
  · rename_i id hid
    exact withUser_tame (hl id (by simp [hid])) nofun

theorem answer_tame {c : Cmd} {p : Packet} (n : Int) (cached : Buf) (hl : c.Live (Proto.userId p.pack)) :
    Tame c (c.answer p n cached) := by
  unfold answer
  dsimp only
  have h := withUser_tame (c := c) (f := fun u => .ok (u.udpPush (p.junk.write 0 (cached.read 0 Proto.packSize)))) hl nofun
  exact h.andThen ⟨fun _ h => h, fun hs => ⟨hs.fault, hs.entries⟩⟩

/-- The loop of UDPRESEND asks for the sender only when a number is not cached, and for
    the requester only when one is. -/
theorem udpResend_tame {c : Cmd} {p : Packet}
    (hu : (∃ n ∈ asked p, (c.mUdpLoseMap.find? n).isSome) → c.Live (Proto.userId p.pack))
    (hp : (∃ n ∈ asked p, (c.mUdpLoseMap.find? n).isNone) → c.Live (Proto.peerId p.pack)) :
    Tame c (c.udpResend p) := by
  let Held (r : Resend) : Prop :=
    Tame c r.cmd ∧ r.cmd.mUdpLoseMap = c.mUdpLoseMap ∧ (r.num ≠ 0 → c.Live (Proto.peerId p.pack))
  have hloop : Held ((List.range (Proto.num p.pack).toNat).foldl (Resend.next p) ⟨c, p.junk, 0⟩) := by
    refine List.foldlRecOn (motive := Held) _ _ ⟨.refl c, rfl, fun h => absurd rfl h⟩ fun r hr i hi => ?_
    obtain ⟨ht, hcache, hnum⟩ := hr
    have hmem : Proto.loseNum p.pack i ∈ asked p := List.mem_map_of_mem hi
    unfold Resend.next
    split
    · exact ⟨ht, hcache, hnum⟩
    · split
      · exact ⟨ht.trans (fail_tame _ (by decide)), hcache, hnum⟩
      · dsimp only
        rw [hcache]
        split
        · rename_i cached hc
          have hlive := hu ⟨_, hmem, by rw [hc]; rfl⟩
          exact ⟨ht.trans (answer_tame _ _ (ht.live _ hlive)), (answer_cache ..).1.trans hcache, hnum⟩
        · rename_i hc
          have hlive := hp ⟨_, hmem, by rw [hc]; rfl⟩
          unfold Resend.collect
          split
          · exact ⟨ht.trans (fail_tame _ (by decide)), hcache, hnum⟩
          · exact ⟨ht, hcache, fun _ => hlive⟩
  obtain ⟨ht, -, hnum⟩ := hloop
  unfold udpResend
  dsimp only
  split
  · exact ht
  · rename_i hne
    exact ht.andThen (withUser_tame (ht.live _ (hnum hne)) fun _ _ h => by cases h)

/-! ## Runs -/

theorem setWriteSocketFdFlag_safe {c : Cmd} {p : Packet} (hs : c.Safe) (hk : c.Known (.packet p)) :
    (c.setWriteSocketFdFlag p).Safe := by
  unfold setWriteSocketFdFlag
  simp only [Known, named] at hk
  split <;> rename_i hcmd <;> simp only [hcmd] at hk
  · refine (udpResend_tame (fun h => ?_) fun h => ?_).safe hs
    · exact hk _ (List.mem_append_left _ (by rw [if_pos h]; exact List.mem_singleton_self _))
    · exact hk _ (List.mem_append_right _ (by rw [if_pos h]; exact List.mem_singleton_self _))
  · exact (relay_tame (hk _ (List.mem_singleton_self _))).safe hs
  · exact (sendToOthers_tame p hs).safe hs
  · exact (relay_tame (hk _ (List.mem_singleton_self _))).safe hs
  · exact (relay_tame (hk _ (List.mem_singleton_self _))).safe hs
  · exact (relay_tame (hk _ (List.mem_singleton_self _))).safe hs
  · exact udpSendFile_safe (hk _ (List.mem_singleton_self _)) hs
  · exact (udpRegister_tame (hk _ (List.mem_singleton_self _))).safe hs
  · exact (heartbeat_tame (hk _ (List.mem_singleton_self _))).safe hs
  · exact (quit_tame hk).safe hs
  · exact hs
  · exact hs

/-- What happens to the users other than by a packet puts no null among them. -/
theorem next_safe {c c' : Cmd} {e : Ev} (hs : c.Safe) (hk : c.Known e) (h : c.next e = some c') : c'.Safe := by
  obtain ⟨hfault, hnull⟩ := safe_iff.mp hs
  cases e with
  | packet p =>
    obtain rfl := Option.some.inj h
    exact setWriteSocketFdFlag_safe hs hk
  | login junk socket userId now =>
    obtain rfl := Option.some.inj h
    refine safe_iff.mpr ⟨hfault, fun id h => ?_⟩
    rcases StdMap.of_find?_insertNew h with hold | ⟨_, hu⟩
    · exact hnull id hold
    · cases hu
  | startSend userId nread =>
    simp only [next] at h
    split at h
    · split at h
      · obtain rfl := Option.some.inj h
        exact hs.set
      · cases h
    · cases h
  | deleteloginUser userId =>
    simp only [next] at h
    split at h
    · obtain rfl := Option.some.inj h
      exact hs.set
    · cases h
  | sweep userId =>
    simp only [next] at h
    split at h
    · cases h
    · rename_i hid
      exact absurd hid (hnull userId)
    · split at h
      · obtain rfl := Option.some.inj h
        exact safe_iff.mpr ⟨hfault, fun id h => hnull id (StdMap.of_find?_remove h).2⟩
      · cases h
  | evict count now =>
    simp only [next] at h
    split at h
    · cases h
    · split at h
      · obtain rfl := Option.some.inj h
        exact ⟨hs.fault, hs.entries⟩
      · cases h

theorem step_safe {c c' : Cmd} {e : Ev} (hs : c.Safe) (hk : c.Known e) (h : c.step e = some c') : c'.Safe := by
  unfold step at h
  split at h
  · exact next_safe hs hk h
  · cases h

theorem known_unmoved {c : Cmd} {e : Ev} (hk : c.Known e) : c.Unmoved e := by
  cases e with
  | packet p =>
    intro ⟨id, hid, hl⟩
    exact absurd (hk id hid) hl
  | _ => trivial

theorem init_safe : init.Safe := ⟨nofun, nofun⟩

/-- Over any packets, logins, removals and sweeps: when every packet names users who are
    logged in as it is handled, no null is inserted or dereferenced, and no packet that
    names a stranger changes a user. -/
theorem safe_of_known (es : List Ev) (h : Along step Known init es) :
    Always step Safe init es ∧ Along step Unmoved init es :=
  ⟨always_of_along (fun _ _ _ => step_safe) init_safe h, h.mono fun _ _ => known_unmoved⟩

def message (k : CmdId) (user peer : Int) : Packet :=
  ⟨(((Mem.putInt 4 (fun _ => 0) 0 k.code).putInt 4 4 user).putInt 4 8 20).putInt 4 Proto.peerOff peer,
    none, none, 0, fun _ => 0⟩

theorem two_users_talk :
    Always step Safe init
        [.login (fun _ => 0) 5 1 0, .login (fun _ => 0) 6 2 0, .packet (message .sendToOne 1 2),
          .deleteloginUser 1, .sweep 1, .packet (message .sendToOthers 2 2)] ∧
      Along step Unmoved init
        [.login (fun _ => 0) 5 1 0, .login (fun _ => 0) 6 2 0, .packet (message .sendToOne 1 2),
          .deleteloginUser 1, .sweep 1, .packet (message .sendToOthers 2 2)] :=
  safe_of_known _ (by decide +kernel)

/-- User 1 writes to user 2, who is not there. -/
theorem a_message_to_nobody :
    ¬ (Always step Safe init [.login (fun _ => 0) 5 1 0, .packet (message .sendToOne 1 2)] ∧
      Along step Unmoved init [.login (fun _ => 0) 5 1 0, .packet (message .sendToOne 1 2)]) := by
  intro ⟨h, _⟩
  exact absurd h (by decide +kernel)

end GroupeChat.ChatServer.Cmd
