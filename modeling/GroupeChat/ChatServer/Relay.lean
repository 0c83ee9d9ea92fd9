/-
  GroupeChat.ChatServer.Relay — what the users get of the packets sent to them.

  SENDtoONE, SENDFILENAME, FILERET and SENDFILE go to one user, SENDtoOTHERS to all, each
  with the sender over the addressee. `Traffic` is the command thread handling packets,
  with sends in between that take everything that is buffered. While the packets fit and
  their addressees are there, every user gets exactly the packets addressed to him or to
  all, in the order in which they were handled (`relay_exact`).
-/

import GroupeChat.ChatServer.KnownUsers

namespace GroupeChat.ChatServer

open Base

/-- The packet with its sender in the field after the header. -/
def relayed (pack : Buf) : List UInt8 :=
  (pack.putInt 4 Proto.peerOff (Proto.userId pack)).read 0 (Proto.length pack).toNat

/-- It names `k`, or everyone. -/
def Addressed (k : Int) (pack : Buf) : Prop :=
  CmdId.ofCode (Proto.cmdId pack) = some .sendToOthers ∨ Proto.peerId pack = k

instance (k : Int) (pack : Buf) : Decidable (Addressed k pack) := inferInstanceAs (Decidable (_ ∨ _))

/-- Of the kinds that are relayed; a SENDtoONE from user 0 is the server's own heartbeat. -/
def Relayable (pack : Buf) : Prop :=
  ∃ kind ∈ [CmdId.sendToOne, .sendToOthers, .sendFileName, .fileRet, .sendFile],
    CmdId.ofCode (Proto.cmdId pack) = some kind ∧ (kind = .sendToOne → Proto.userId pack ≠ 0)

instance (pack : Buf) : Decidable (Relayable pack) :=
  inferInstanceAs (Decidable (∃ kind ∈ [CmdId.sendToOne, .sendToOthers, .sendFileName, .fileRet, .sendFile], _))

theorem rewritten_eq_relayed {pack : Buf} (h : ¬ (Proto.cmdId pack = CmdId.sendToOne.code ∧ Proto.userId pack = 0)) :
    rewritten pack (Proto.length pack).toNat = relayed pack := by
  simp only [rewritten, overwrite, storeField, storeValue, if_neg h]
  rfl

/-! ## One enqueue -/

namespace User

def enqueued (pack : Buf) (u : User) : User := (u.enqueue pack).toOption.getD u

/-- A packet is appended, rewritten, and nothing else of the user changes. -/
theorem enqueue_cases {pack : Buf} {u u' : User} (h : u.enqueue pack = .ok u') :
    u' = { u with mSend := u'.mSend } ∧
      u'.mSend.buffered = u.mSend.buffered ++ rewritten pack (Proto.length pack).toNat := by
  unfold enqueue at h
  dsimp only at h
  split at h
  · obtain rfl := Except.ok.inj h
    refine ⟨by dsimp only, ?_⟩
    rw [← read_enqueued]
    simp only [CmdSend.buffered, CmdSend.setPosition, CmdSend.mCopy]
  · cases h

/-- There is room for a packet behind 5120 bytes. -/
theorem enqueue_ok {pack : Buf} {u : User} (hlen : 20 ≤ Proto.length pack ∧ Proto.length pack ≤ Proto.packSize)
    (hpos : u.mSend.mPosition ≤ 5120) : ∃ u', u.enqueue pack = .ok u' := by
  have hfield : storeField pack ≤ 16 := by
    unfold storeField
    split
    · omega
    · omega
  unfold enqueue
  dsimp only
  simp only [Proto.packSize] at hlen
  rw [if_pos]
  · exact ⟨_, rfl⟩
  · simp only [Proto.packSize, CmdSend.sendBuffSize]
    omega

theorem enqueued_of_ok {pack : Buf} {u u' : User} (h : u.enqueue pack = .ok u') : u.enqueued pack = u' := by
  simp [enqueued, h, Except.toOption]

end User

namespace Cmd

/-- A lookup of a user that takes the packet. -/
theorem withUser_enqueue {c : Cmd} {id : Int} {u u' : User} {pack : Buf} (hu : c.mMap.find? id = some (some u))
    (h : u.enqueue pack = .ok u') :
    c.withUser id (User.enqueue · pack) = { c with mMap := c.mMap.set id (some (u.enqueued pack)) } := by
  unfold withUser
  rw [hu]
  dsimp only
  rw [h, User.enqueued_of_ok h]

/-- The packet goes to the users in `dests`, each once; everything else stays. -/
structure Sends (c : Cmd) (pack : Buf) (dests : Int → Prop) [DecidablePred dests] (c' : Cmd) : Prop where
  fault : c'.fault = none
  users : ∀ k, c'.mMap.find? k =
    if dests k then (c.mMap.find? k).map (Option.map (User.enqueued pack)) else c.mMap.find? k

theorem Sends.congr {c c' : Cmd} {pack : Buf} {dests dests' : Int → Prop} [DecidablePred dests] [DecidablePred dests']
    (hd : ∀ k, dests k ↔ dests' k) (h : c.Sends pack dests c') : c.Sends pack dests' c' :=
  ⟨h.fault, fun k => by rw [h.users k]; simp only [hd k]⟩

def Takes (c : Cmd) (pack : Buf) (k : Int) : Prop :=
  ∃ u, c.mMap.find? k = some (some u) ∧ ∃ u', u.enqueue pack = .ok u'

theorem relay_sends {c : Cmd} {p : Packet} (hf : c.fault = none) (h : c.Takes p.pack (Proto.peerId p.pack)) :
    c.Sends p.pack (fun k => Proto.peerId p.pack = k) (c.relay p) := by
  obtain ⟨u, hu, u', hu'⟩ := h
  unfold relay
  rw [withUser_enqueue hu hu']
  refine ⟨hf, fun k => ?_⟩
  dsimp only
  rw [StdMap.find?_set]
  by_cases hk : k = Proto.peerId p.pack
  · rw [if_pos hk, if_pos hk.symm, hk, hu]
    rfl
  · rw [if_neg hk, if_neg fun h => hk h.symm]

/-- The loop over the users of a group message. -/
theorem foldl_sends {pack : Buf} (l : List (Int × Option User)) {c : Cmd} (hf : c.fault = none)
    (hnodup : (l.map Prod.fst).Nodup) (h : ∀ k ∈ l.map Prod.fst, c.Takes pack k) :
    c.Sends pack (fun k => k ∈ l.map Prod.fst)
      (l.foldl (fun c e => c.andThen fun c => c.withUser e.1 (User.enqueue · pack)) c) := by
  induction l generalizing c with
  | nil => exact ⟨hf, fun k => by simp⟩
  | cons e l ih =>
    obtain ⟨u, hu, u', hu'⟩ := h e.1 (by simp)
    obtain ⟨hnot, hnodup⟩ := List.nodup_cons.mp hnodup
    have hhead : c.andThen (fun c => c.withUser e.1 (User.enqueue · pack)) =
        { c with mMap := c.mMap.set e.1 (some (u.enqueued pack)) } := by
      unfold andThen
      rw [if_pos hf]
      exact withUser_enqueue hu hu'
    have hne : ∀ k ∈ l.map Prod.fst, k ≠ e.1 := fun k hk heq => hnot (heq ▸ hk)
    rw [List.foldl_cons, hhead]
    have ih := ih (c := { c with mMap := c.mMap.set e.1 (some (u.enqueued pack)) }) hf hnodup fun k hk => by
      obtain ⟨v, hv, hv'⟩ := h k (List.mem_cons_of_mem _ hk)
      exact ⟨v, by rw [StdMap.find?_set, if_neg (hne k hk)]; exact hv, hv'⟩
    refine ⟨ih.fault, fun k => ?_⟩
    rw [ih.users k]
    dsimp only
    rw [StdMap.find?_set]
    by_cases hk : k = e.1
    · subst hk
      simp [hnot, hu]
    · by_cases hmem : k ∈ l.map Prod.fst
      · rw [if_pos hmem, if_neg hk,
          if_pos (show k ∈ (e :: l).map Prod.fst from List.mem_cons_of_mem _ hmem)]
      · rw [if_neg hmem, if_neg hk, if_neg]
        rw [List.map_cons, List.mem_cons]
        exact fun h => h.elim hk hmem

theorem sendToOthers_sends {c : Cmd} {p : Packet} (hf : c.fault = none)
    (h : ∀ k v, c.mMap.find? k = some v → c.Takes p.pack k) : c.Sends p.pack (fun _ => True) (c.sendToOthers p) := by
  have htakes : ∀ k ∈ c.mMap.ascending.map Prod.fst, c.Takes p.pack k := by
    intro k hk
    obtain ⟨v, hv⟩ := StdMap.mem_ascending_keys.mp hk
    exact h k v hv
  have hfold := foldl_sends c.mMap.ascending hf c.mMap.ascending_keys_nodup htakes
  refine ⟨hfold.fault, fun k => ?_⟩
  rw [if_pos trivial]
  refine (hfold.users k).trans ?_
  by_cases hk : k ∈ c.mMap.ascending.map Prod.fst
  · rw [if_pos hk]
  · rw [if_neg hk]
    cases hfind : c.mMap.find? k with
    | none => rfl
    | some v => exact absurd (StdMap.mem_ascending_keys.mpr ⟨v, hfind⟩) hk

/-- A packet that is relayed goes to the users it is addressed to. -/
theorem setWriteSocketFdFlag_sends {c : Cmd} {p : Packet} (hf : c.fault = none) (hr : Relayable p.pack)
    (h : ∀ k v, c.mMap.find? k = some v → c.Takes p.pack k)
    (hpeer : CmdId.ofCode (Proto.cmdId p.pack) ≠ some .sendToOthers → c.Takes p.pack (Proto.peerId p.pack)) :
    c.Sends p.pack (Addressed · p.pack) (c.setWriteSocketFdFlag p) := by
  obtain ⟨kind, hmem, hkind, -⟩ := hr
  unfold setWriteSocketFdFlag
  rw [hkind]
  have hone : kind ≠ .sendToOthers → c.Sends p.pack (Addressed · p.pack) (c.relay p) := by
    intro hne
    have hsome : CmdId.ofCode (Proto.cmdId p.pack) ≠ some .sendToOthers := fun h =>
      hne (Option.some.inj (hkind.symm.trans h))
    exact (relay_sends hf (hpeer hsome)).congr fun k => by simp [Addressed, hsome]
  simp only [List.mem_cons, List.not_mem_nil, or_false] at hmem
  rcases hmem with rfl | rfl | rfl | rfl | rfl
  · exact hone (by decide)
  · exact (sendToOthers_sends hf h).congr fun k => by simp [Addressed, hkind]
  · exact hone (by decide)
  · exact hone (by decide)
  · exact hone (by decide)

end Cmd

/-! ## Packets and sends -/

structure Traffic where
  cmd : Cmd
  /-- What `send()` has accepted for each user. -/
  sent : Int → List UInt8
  /-- The packets handled, in order. -/
  handled : List Buf

namespace Traffic

inductive Ev where
  | packet (p : Packet)
  /-- A `startSend` that takes everything the user has buffered. -/
  | startSend (userId : Int)

def init (c : Cmd) : Traffic := ⟨c, fun _ => [], []⟩

def step (s : Traffic) : Ev → Option Traffic
  | .packet p =>
    match s.cmd.step (.packet p) with
    | none => none
    | some c => some { s with cmd := c, handled := s.handled ++ [p.pack] }
  | .startSend userId =>
    match s.cmd.mMap.find? userId with
    | some (some u) =>
      match s.cmd.step (.startSend userId u.mSend.mPosition) with
      | none => none
      | some c => some { s with
          cmd := c
          sent := Function.update s.sent userId (s.sent userId ++ u.mSend.buffered) }
    | _ => none

/-- No user has more than 5120 bytes buffered. -/
def Low (s : Traffic) : Prop := ∀ k u, s.cmd.mMap.find? k = some (some u) → u.mSend.mPosition ≤ 5120

def Valid (s : Traffic) : Ev → Prop
  | .packet p => s.Low ∧ Relayable p.pack ∧ (20 ≤ Proto.length p.pack ∧ Proto.length p.pack ≤ Proto.packSize) ∧
      (CmdId.ofCode (Proto.cmdId p.pack) ≠ some .sendToOthers → s.cmd.Live (Proto.peerId p.pack))
  | .startSend _ => True

/-- The users are those of `c`, and each has been sent or still has buffered, after what
    `c` had buffered for him, exactly the packets addressed to him or to all. -/
structure Exact (c : Cmd) (s : Traffic) : Prop where
  fault : s.cmd.fault = none
  users : ∀ k u₀, c.mMap.find? k = some (some u₀) → ∃ u, s.cmd.mMap.find? k = some (some u) ∧
    s.sent k ++ u.mSend.buffered = u₀.mSend.buffered ++ (s.handled.filter (Addressed k)).flatMap relayed
  others : ∀ k, c.mMap.find? k = none → s.cmd.mMap.find? k = none

instance (s : Traffic) : Decidable s.Low :=
  decidable_of_iff (∀ e ∈ s.cmd.mMap.toList, ∀ u ∈ e.2, u.mSend.mPosition ≤ 5120)
    ⟨fun h k u hk => h (k, some u) (StdMap.mem_toList.mpr hk) u rfl,
      fun h e he u hu => h e.1 u (hu ▸ StdMap.mem_toList.mp he)⟩

instance (s : Traffic) : (e : Ev) → Decidable (s.Valid e)
  | .packet p => inferInstanceAs (Decidable (s.Low ∧ Relayable p.pack ∧ _ ∧ (_ → s.cmd.Live (Proto.peerId p.pack))))
  | .startSend _ => inferInstanceAs (Decidable True)

theorem Exact.takes {c : Cmd} {s : Traffic} {pack : Buf} (hi : Exact c s) (hc : c.Safe) (hlow : s.Low)
    (hlen : 20 ≤ Proto.length pack ∧ Proto.length pack ≤ Proto.packSize) {k : Int} {v : Option User}
    (h : s.cmd.mMap.find? k = some v) : s.cmd.Takes pack k := by
  have hsome : ∃ u, s.cmd.mMap.find? k = some (some u) := by
    cases hk : c.mMap.find? k with
    | none =>
      rw [hi.others k hk] at h
      cases h
    | some o =>
      cases o with
      | none => exact absurd hk ((Cmd.safe_iff.mp hc).2 k)
      | some u₀ =>
        obtain ⟨u, hu, -⟩ := hi.users k u₀ hk
        exact ⟨u, hu⟩
  obtain ⟨u, hu⟩ := hsome
  exact ⟨u, hu, User.enqueue_ok hlen (hlow k u hu)⟩

theorem packet_exact {c : Cmd} {s s' : Traffic} {p : Packet} (hi : Exact c s) (hc : c.Safe) (hv : Valid s (.packet p))
    (h : s.step (.packet p) = some s') : Exact c s' := by
  obtain ⟨hlow, hrel, hlen, hpeer⟩ := hv
  have htakes : ∀ k v, s.cmd.mMap.find? k = some v → s.cmd.Takes p.pack k := fun k v hk => hi.takes hc hlow hlen hk
  have hsends := Cmd.setWriteSocketFdFlag_sends hi.fault hrel htakes fun hne => by
    obtain ⟨u, hu⟩ := hpeer hne
    exact htakes _ _ hu
  simp only [step, Cmd.step, hi.fault, if_true, Cmd.next] at h
  obtain rfl := Option.some.inj h
  refine ⟨hsends.fault, fun k u₀ hk => ?_, fun k hk => ?_⟩
  · obtain ⟨u, hu, hsent⟩ := hi.users k u₀ hk
    have hfind := hsends.users k
    by_cases hadd : Addressed k p.pack
    · obtain ⟨v, hv, u', hu'⟩ := htakes k _ hu
      obtain rfl := Option.some.inj (Option.some.inj (hu.symm.trans hv))
      rw [if_pos hadd, hu] at hfind
      refine ⟨_, hfind, ?_⟩
      obtain ⟨kind, -, hkind, hzero⟩ := hrel
      have hone : ¬ (Proto.cmdId p.pack = CmdId.sendToOne.code ∧ Proto.userId p.pack = 0) := by
        intro hbad
        rw [hbad.1, CmdId.ofCode_code] at hkind
        exact hzero (Option.some.inj hkind).symm hbad.2
      rw [User.enqueued_of_ok hu', (User.enqueue_cases hu').2, rewritten_eq_relayed hone, ← List.append_assoc, hsent]
      simp [List.filter_append, hadd]
    · rw [if_neg hadd, hu] at hfind
      exact ⟨u, hfind, by simpa [List.filter_append, hadd] using hsent⟩
  · have hfind := hsends.users k
    rw [hi.others k hk] at hfind
    simpa using hfind

theorem startSend_exact {c : Cmd} {s s' : Traffic} {userId : Int} (hi : Exact c s)
    (h : s.step (.startSend userId) = some s') : Exact c s' := by
  simp only [step] at h
  split at h
  · rename_i u hu
    simp only [Cmd.step, hi.fault, if_true, Cmd.next, hu] at h
    rw [if_pos ⟨by omega, by omega⟩] at h
    obtain rfl := Option.some.inj h
    have hempty : (u.mSend.startSend u.mSend.mPosition).1.buffered = [] := by
      have hneg : ¬ ((u.mSend.mPosition : Int) < 0) := by omega
      simp [CmdSend.startSend, CmdSend.buffered, hneg]
    refine ⟨rfl, fun k u₀ hk => ?_, fun k hk => ?_⟩
    · obtain ⟨v, hv, hsent⟩ := hi.users k u₀ hk
      dsimp only
      rw [StdMap.find?_set]
      by_cases hkey : k = userId
      · subst hkey
        obtain rfl := Option.some.inj (Option.some.inj (hu.symm.trans hv))
        rw [if_pos rfl]
        refine ⟨_, rfl, ?_⟩
        rw [hempty, Function.update_self, List.append_nil]
        exact hsent
      · rw [if_neg hkey, Function.update_of_ne hkey]
        exact ⟨v, hv, hsent⟩
    · dsimp only
      rw [StdMap.find?_set, if_neg]
      · exact hi.others k hk
      · intro hkey
        rw [hkey] at hk
        rw [hi.others _ hk] at hu
        cases hu
  · cases h

/-- Whatever packets are handled and whenever the buffers are sent off, every user gets
    the packets addressed to him or to all, in order, with their senders in them. -/
theorem relay_exact {c : Cmd} (hf : c.fault = none) (hc : c.Safe) {es : List Ev} (h : Along step Valid (init c) es) :
    Always step (Exact c) (init c) es := by
  refine always_of_along (fun s e s' hi hv hs => ?_) ?_ h
  · cases e with
    | packet p => exact packet_exact hi hc hv hs
    | startSend userId => exact startSend_exact hi hs
  · exact ⟨hf, fun k u₀ hk => ⟨u₀, hk, by simp [init]⟩, fun k hk => hk⟩

def twoUsers : Cmd :=
  { Cmd.init with
    mMap := (StdMap.insertNew ∅ 1 (some (.new (fun _ => 0) 5 1 0))).insertNew 2 (some (.new (fun _ => 0) 6 2 0)) }

theorem a_message_and_a_group_message :
    Always step (Exact twoUsers) (init twoUsers)
      [.packet (Cmd.message .sendToOne 1 2), .packet (Cmd.message .sendToOthers 2 0), .startSend 2,
        .packet (Cmd.message .fileRet 1 2)] :=
  relay_exact rfl (by decide +kernel) (by decide +kernel)

end Traffic

end GroupeChat.ChatServer
