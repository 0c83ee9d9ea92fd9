/-
  GroupeChat.ChatServer.CopyBounds — where dispatch and the drains copy to and from
  (`m_copy`, `m_udpcopy`, and the `memmove` of `startSend`).

  `m_copy` puts `head.length` bytes at `m_position`, `m_udpcopy` puts as many into a new
  buffer; neither looks at the length, nor at what is left of the 10240 bytes, which only
  a drain gives back. The `memmove` reads the `nread` bytes behind the first `nread`.

  `Tracer` is dispatch with a note of every copy it makes, in order, and of what each user
  has pending: the lengths of the packets for him since his login, less what his sends
  took. `m_position` is that (`reckon_owes`), so all copies are inside all along exactly
  the runs in which every length is that of a packet and fits behind what is pending, and
  every send takes at most half a buffer (`inside_iff_room`). `a_length_of_two_thousand`
  is a run that breaks it.
-/

import GroupeChat.ChatServer.KnownUsers

namespace GroupeChat.ChatServer

open Base

inductive Copy where
  /-- `m_copy` at `m_position`. -/
  | mCopy (position : Nat) (length : Int)
  | mUdpcopy (length : Int)
  /-- The one in `startSend`. -/
  | memmove (nread : Int)

/-- It reads a packet's bytes into its buffer, or the send buffer's own. -/
def Copy.Inside : Copy → Prop
  | .mCopy position length => 0 ≤ length ∧ length ≤ Proto.packSize ∧ position + length ≤ CmdSend.sendBuffSize
  | .mUdpcopy length => 0 ≤ length ∧ length ≤ Proto.packSize
  | .memmove nread => nread + nread ≤ CmdSend.sendBuffSize

instance : DecidablePred Copy.Inside
  | .mCopy position length =>
    inferInstanceAs (Decidable (0 ≤ length ∧ length ≤ Proto.packSize ∧ position + length ≤ CmdSend.sendBuffSize))
  | .mUdpcopy length => inferInstanceAs (Decidable (0 ≤ length ∧ length ≤ Proto.packSize))
  | .memmove nread => inferInstanceAs (Decidable (nread + nread ≤ CmdSend.sendBuffSize))

def User.copyOf (u : User) (p : Packet) : Copy := .mCopy u.mSend.mPosition (Proto.length p.pack)

namespace Cmd

def copyTo (c : Cmd) (p : Packet) (id : Int) : List Copy :=
  match c.mMap.find? id with
  | some (some u) => [u.copyOf p]
  | _ => []

/-- SENDtoOTHERS over the entries that are left. -/
def copiesTo (p : Packet) : Cmd → List (Int × Option User) → List Copy
  | _, [] => []
  | c, e :: rest =>
    let c' := c.withUser e.1 (User.enqueue · p.pack)
    c.copyTo p e.1 ++ if c'.fault = none then copiesTo p c' rest else []

def packetCopies (c : Cmd) (p : Packet) : List Copy :=
  match CmdId.ofCode (Proto.cmdId p.pack) with
  | some .sendToOne => c.copyTo p (Proto.peerId p.pack)
  | some .sendFileName => c.copyTo p (Proto.peerId p.pack)
  | some .fileRet => c.copyTo p (Proto.peerId p.pack)
  | some .sendFile => c.copyTo p (Proto.peerId p.pack)
  | some .sendToOthers => copiesTo p c c.mMap.ascending
  | some .udpSendFile =>
    match c.mMap.find? (Proto.udpPeerId p.pack) with
    | some (some _) => [.mUdpcopy (Proto.length p.pack)]
    | _ => []
  | _ => []

def copies (c : Cmd) : Ev → List Copy
  | .packet p => c.packetCopies p
  | .startSend _ nread => if nread < 0 then [] else [.memmove nread]
  | _ => []

/-- The packet is no longer than a packet, and fits behind what is pending. -/
def RoomFor (p : Packet) (pending : Int) : Prop :=
  0 ≤ Proto.length p.pack ∧ Proto.length p.pack ≤ Proto.packSize ∧
    pending + Proto.length p.pack ≤ CmdSend.sendBuffSize

/-- It fits behind what each of them has pending, up to a user at whom the store of the
    sender's id lands behind the buffer. -/
def RoomForAll (p : Packet) (pending : Int → Int) : List (Int × Option User) → Prop
  | [] => True
  | (_, none) :: _ => True
  | (id, some _) :: rest =>
    RoomFor p (pending id) ∧
      (pending id + storeField p.pack + 4 ≤ CmdSend.sendBuffSize → RoomForAll p pending rest)

def PacketRoom (c : Cmd) (pending : Int → Int) (p : Packet) : Prop :=
  match CmdId.ofCode (Proto.cmdId p.pack) with
  | some .sendToOne => c.Live (Proto.peerId p.pack) → RoomFor p (pending (Proto.peerId p.pack))
  | some .sendFileName => c.Live (Proto.peerId p.pack) → RoomFor p (pending (Proto.peerId p.pack))
  | some .fileRet => c.Live (Proto.peerId p.pack) → RoomFor p (pending (Proto.peerId p.pack))
  | some .sendFile => c.Live (Proto.peerId p.pack) → RoomFor p (pending (Proto.peerId p.pack))
  | some .sendToOthers => RoomForAll p pending c.mMap.ascending
  | some .udpSendFile => c.Live (Proto.udpPeerId p.pack) →
    0 ≤ Proto.length p.pack ∧ Proto.length p.pack ≤ Proto.packSize
  | _ => True

/-- The bytes that the packet adds to what the user has pending. -/
def adds (c : Cmd) (p : Packet) (id : Int) : Int :=
  match CmdId.ofCode (Proto.cmdId p.pack) with
  | some .sendToOne => if id = Proto.peerId p.pack then Proto.length p.pack else 0
  | some .sendFileName => if id = Proto.peerId p.pack then Proto.length p.pack else 0
  | some .fileRet => if id = Proto.peerId p.pack then Proto.length p.pack else 0
  | some .sendFile => if id = Proto.peerId p.pack then Proto.length p.pack else 0
  | some .sendToOthers => if id ∈ c.mMap.ascending.map Prod.fst then Proto.length p.pack else 0
  | _ => 0

def Owes (c : Cmd) (pending : Int → Int) : Prop :=
  ∀ id u, c.mMap.find? id = some (some u) → (u.mSend.mPosition : Int) = pending id

end Cmd

structure Tracer where
  cmd : Cmd
  copies : List Copy
  /-- The lengths of the packets for each user since the login, less what his sends took. -/
  pending : Int → Int

namespace Tracer

def init : Tracer := ⟨.init, [], fun _ => 0⟩

def reckon (s : Tracer) : Cmd.Ev → Int → Int
  | .packet p => fun id => s.pending id + s.cmd.adds p id
  | .login _ _ userId _ => if s.cmd.mMap.find? userId = none then Function.update s.pending userId 0 else s.pending
  | .startSend userId nread => Function.update s.pending userId (s.pending userId - max nread 0)
  | _ => s.pending

def step (s : Tracer) (e : Cmd.Ev) : Option Tracer :=
  (s.cmd.step e).map fun c => ⟨c, s.copies ++ s.cmd.copies e, s.reckon e⟩

def Inside (s : Tracer) : Prop := ∀ x ∈ s.copies, x.Inside

instance : DecidablePred Inside := fun s => inferInstanceAs (Decidable (∀ x ∈ s.copies, x.Inside))

/-- Every length is that of a packet and fits behind what the addressees have pending,
    and a send takes at most half a buffer. -/
def Room (s : Tracer) : Cmd.Ev → Prop
  | .packet p => s.cmd.PacketRoom s.pending p
  | .startSend _ nread => nread + nread ≤ CmdSend.sendBuffSize
  | _ => True

end Tracer

/-! ## What is pending -/

namespace Cmd

theorem enqueue_position {pack : Buf} {u u' : User} (h : u.enqueue pack = .ok u') :
    (u'.mSend.mPosition : Int) = u.mSend.mPosition + Proto.length pack := by
  unfold User.enqueue at h
  dsimp only at h
  split at h
  · rename_i hroom
    obtain rfl := Except.ok.inj h
    simp only [CmdSend.setPosition, CmdSend.mCopy, Nat.cast_add, Int.toNat_of_nonneg hroom.1]
  · cases h

/-- A lookup that moves no position. -/
theorem withUser_owes {c : Cmd} {pending : Int → Int} {f : User → Except Fault User} (h : c.Owes pending) (id : Int)
    (hf : ∀ u u', f u = .ok u' → u'.mSend = u.mSend) : (c.withUser id f).Owes pending := by
  intro k u hu
  unfold withUser at hu
  split at hu
  · rcases StdMap.of_find?_insertNew hu with hold | ⟨-, hnew⟩
    · exact h k u hold
    · cases hnew
  · exact h k u hu
  · rename_i v hv
    split at hu
    · rename_i v' hv'
      rcases StdMap.of_find?_set hu with ⟨rfl, hnew⟩ | hold
      · rw [Option.some.inj hnew, hf v v' hv']
        exact h _ v hv
      · exact h k u hold
    · exact h k u hu

/-- One that succeeds. -/
theorem withUser_update {c : Cmd} {pending : Int → Int} {f : User → User} (h : c.Owes pending) (id : Int)
    (hf : ∀ u, (f u).mSend = u.mSend) : (c.withUser id fun u => .ok (f u)).Owes pending := by
  refine withUser_owes h id fun u u' hu => ?_
  obtain rfl := Except.ok.inj hu
  exact hf u

/-- One that enqueues a packet. -/
theorem withUser_adds {c : Cmd} {pending : Int → Int} {pack : Buf} {id : Int} (h : c.Owes pending)
    (hok : (c.withUser id (User.enqueue · pack)).fault = none) :
    (c.withUser id (User.enqueue · pack)).Owes fun k => pending k + if k = id then Proto.length pack else 0 := by
  obtain ⟨v, v', hv, hv', heq⟩ := withUser_ok hok
  rw [heq]
  intro k u hu
  simp only [StdMap.find?_set] at hu
  dsimp only
  by_cases hk : k = id
  · rw [if_pos hk, Option.some.injEq, Option.some.injEq] at hu
    rw [if_pos hk, ← hu, enqueue_position hv', hk, h id v hv]
  · rw [if_neg hk] at hu
    rw [if_neg hk, Int.add_zero]
    exact h k u hu

theorem foldl_fault {pack : Buf} (es : List (Int × Option User)) {c : Cmd} (hc : c.fault ≠ none) :
    (es.foldl (fun c e => c.andThen fun c => c.withUser e.1 (User.enqueue · pack)) c).fault ≠ none := by
  refine List.foldlRecOn (motive := fun c : Cmd => c.fault ≠ none) _ _ hc fun c hc e _ => ?_
  rw [andThen, if_neg hc]
  exact hc

/-- The loop of SENDtoOTHERS, when it comes to its end. -/
theorem foldl_adds {pack : Buf} {es : List (Int × Option User)} {c : Cmd} {pending : Int → Int} (h : c.Owes pending)
    (hc : c.fault = none) (hkeys : (es.map Prod.fst).Nodup)
    (hok : (es.foldl (fun c e => c.andThen fun c => c.withUser e.1 (User.enqueue · pack)) c).fault = none) :
    (es.foldl (fun c e => c.andThen fun c => c.withUser e.1 (User.enqueue · pack)) c).Owes
      fun k => pending k + if k ∈ es.map Prod.fst then Proto.length pack else 0 := by
  induction es generalizing c pending with
  | nil => simpa using h
  | cons e es ih =>
    obtain ⟨hid, hrest⟩ := List.nodup_cons.mp hkeys
    rw [List.foldl_cons, andThen, if_pos hc] at hok ⊢
    have hone : (c.withUser e.1 (User.enqueue · pack)).fault = none := by
      by_contra hne
      exact foldl_fault es hne hok
    have hall := ih (withUser_adds h hone) hone hrest hok
    intro k u hu
    rw [hall k u hu]
    dsimp only
    rw [Int.add_assoc]
    congr 1
    simp only [List.map_cons, List.mem_cons]
    by_cases hk : k = e.1
    · simp only [hk, hid, true_or, if_true, if_false, Int.add_zero]
    · simp only [hk, if_false, false_or, Int.zero_add]

theorem Owes.andThen {c : Cmd} {pending : Int → Int} {k : Cmd → Cmd} (h : c.Owes pending)
    (hk : (k c).Owes pending) : (c.andThen k).Owes pending := by
  unfold Cmd.andThen
  split
  · exact hk
  · exact h

theorem udpResend_owes {c : Cmd} {pending : Int → Int} (h : c.Owes pending) (p : Packet) :
    (c.udpResend p).Owes pending := by
  have hpush : ∀ (c : Cmd) (id : Int) (pack : Buf), c.Owes pending →
      (c.withUser id fun u => .ok (u.udpPush pack)).Owes pending := fun _ id _ h => withUser_update h id fun _ => rfl
  have hloop : ((List.range (Proto.num p.pack).toNat).foldl (Resend.next p) ⟨c, p.junk, 0⟩).cmd.Owes pending := by
    refine List.foldlRecOn (motive := fun r : Resend => r.cmd.Owes pending) _ _ h fun r hr i _ => ?_
    unfold Resend.next
    split
    · exact hr
    · split
      · exact hr
      · dsimp only
        split
        · exact (hpush _ _ _ hr).andThen (hpush _ _ _ hr)
        · unfold Resend.collect
          split
          · exact hr
          · exact hr
  unfold udpResend
  dsimp only
  split
  · exact hloop
  · exact hloop.andThen (hpush _ _ _ hloop)

/-- Every case leaves pending what it should. -/
theorem setWriteSocketFdFlag_owes {c : Cmd} {p : Packet} {pending : Int → Int} (h : c.Owes pending)
    (hc : c.fault = none) (hok : (c.setWriteSocketFdFlag p).fault = none) :
    (c.setWriteSocketFdFlag p).Owes fun id => pending id + c.adds p id := by
  have hquiet : ∀ {c' : Cmd}, c'.Owes pending → c'.Owes fun id => pending id + 0 := by
    intro c' h
    simpa using h
  unfold setWriteSocketFdFlag adds at *
  cases hcmd : CmdId.ofCode (Proto.cmdId p.pack) with
  | none => exact hquiet h
  | some k =>
    rw [hcmd] at hok
    cases k with
    | login => exact hquiet h
    | sendToOne => exact withUser_adds h hok
    | sendToOthers => exact foldl_adds h hc (StdMap.ascending_keys_nodup _) hok
    | sendFileName => exact withUser_adds h hok
    | fileRet => exact withUser_adds h hok
    | sendFile => exact withUser_adds h hok
    | udpSendFile =>
      dsimp only [udpSendFile]
      generalize hc' : c.withUser (Proto.udpPeerId p.pack) _ = c'
      have howes : c'.Owes pending := by
        rw [← hc']
        refine withUser_owes h _ fun u u' hu => ?_
        split at hu
        · obtain rfl := Except.ok.inj hu
          rfl
        · cases hu
      exact hquiet (howes.andThen howes)
    | udpRegister =>
      refine hquiet ?_
      dsimp only [udpRegister]
      split
      · exact h
      · exact withUser_update h _ fun _ => rfl
    | udpResend => exact hquiet (udpResend_owes h p)
    | heartbeat => exact hquiet (withUser_update h _ fun _ => rfl)
    | quit =>
      refine hquiet ?_
      dsimp only [quit]
      split
      · exact h
      · refine withUser_owes h _ fun u u' hu => ?_
        obtain rfl := Except.ok.inj hu
        rfl

/-- A new user has nothing pending. -/
theorem login_owes {c : Cmd} {pending : Int → Int} {u : User} (h : c.Owes pending) (id : Int)
    (hu : u.mSend.mPosition = 0) : ({ c with mMap := c.mMap.insertNew id (some u) } : Cmd).Owes
      (if c.mMap.find? id = none then Function.update pending id 0 else pending) := by
  intro k v hv
  simp only [StdMap.find?_insertNew] at hv
  by_cases hk : k = id
  · rw [if_pos hk] at hv
    cases hnone : c.mMap.find? id with
    | none =>
      rw [hnone, Option.getD_none] at hv
      obtain rfl := Option.some.inj (Option.some.inj hv)
      rw [if_pos rfl, hk, Function.update_self, hu]
      rfl
    | some w =>
      rw [hnone, Option.getD_some] at hv
      rw [if_neg (Option.some_ne_none w), hk]
      exact h id v (by rw [hnone]; exact hv)
  · rw [if_neg hk] at hv
    rw [h k v hv]
    split
    · rw [Function.update_of_ne hk]
    · rfl

/-- A send takes what `send()` accepted. -/
theorem startSend_owes {c : Cmd} {pending : Int → Int} {id nread : Int} {u : User} (h : c.Owes pending)
    (hu : c.mMap.find? id = some (some u)) (hn : nread ≤ u.mSend.mPosition) :
    ({ c with mMap := c.mMap.set id (some { u with mSend := (u.mSend.startSend nread).1 }) } : Cmd).Owes
      (Function.update pending id (pending id - max nread 0)) := by
  intro k v hv
  simp only [StdMap.find?_set] at hv
  by_cases hk : k = id
  · rw [if_pos hk] at hv
    obtain rfl := Option.some.inj (Option.some.inj hv)
    rw [hk, Function.update_self, ← h id u hu, CmdSend.startSend]
    split
    · rw [max_eq_right (by omega), Int.sub_zero]
    · dsimp only
      rw [max_eq_left (by omega)]
      omega
  · rw [if_neg hk] at hv
    rw [Function.update_of_ne hk]
    exact h k v hv

end Cmd

/-! ## The copies of one event -/

namespace Cmd

theorem copyTo_inside_iff {c : Cmd} {pending : Int → Int} {p : Packet} {id : Int} (hc : c.Owes pending) :
    (∀ x ∈ c.copyTo p id, x.Inside) ↔ (c.Live id → RoomFor p (pending id)) := by
  unfold copyTo
  split
  · rename_i u hu
    have hpos := hc id u hu
    refine ⟨?_, ?_⟩
    · intro h _
      have hin := h _ (List.mem_singleton.mpr rfl)
      rw [User.copyOf, Copy.Inside, hpos] at hin
      exact hin
    · intro h x hx
      rw [List.mem_singleton.mp hx, User.copyOf, Copy.Inside, hpos]
      exact h ⟨u, hu⟩
  · rename_i hnone
    refine ⟨fun _ hlive => ?_, fun _ x hx => absurd hx List.not_mem_nil⟩
    obtain ⟨u, hu⟩ := hlive
    exact absurd hu (hnone u)

/-- An enqueue that does not fault copied inside, and stored inside. -/
theorem enqueue_ok_iff {u : User} {p : Packet} : (∃ u', u.enqueue p.pack = .ok u') ↔
    RoomFor p u.mSend.mPosition ∧ (u.mSend.mPosition : Int) + storeField p.pack + 4 ≤ CmdSend.sendBuffSize := by
  unfold User.enqueue RoomFor
  dsimp only
  split
  · rename_i h
    exact ⟨fun _ => ⟨⟨h.1, h.2.1, h.2.2.1⟩, by omega⟩, fun _ => ⟨_, rfl⟩⟩
  · rename_i h
    refine ⟨fun ⟨u', hu'⟩ => (by cases hu'), fun hr => absurd ?_ h⟩
    exact ⟨hr.1.1, hr.1.2.1, hr.1.2.2, by omega⟩

/-- One turn of SENDtoOTHERS: the entries behind it are as they were. -/
theorem enqueue_rest {c c' : Cmd} {p : Packet} {id : Int} {rest : List (Int × Option User)}
    (hc : c' = c.withUser id (User.enqueue · p.pack)) (hok : c'.fault = none) (hid : id ∉ rest.map Prod.fst)
    (hrest : ∀ e ∈ rest, c.mMap.find? e.1 = some e.2) : ∀ e ∈ rest, c'.mMap.find? e.1 = some e.2 := by
  rw [hc] at hok
  obtain ⟨u, u', -, -, heq⟩ := withUser_ok hok
  intro e he
  have hne : e.1 ≠ id := fun h => hid (h ▸ List.mem_map_of_mem he)
  rw [hc, heq]
  dsimp only
  rw [StdMap.find?_set, if_neg hne]
  exact hrest e he

theorem copiesTo_inside_iff {c : Cmd} {pending : Int → Int} {p : Packet} {es : List (Int × Option User)}
    (hc : c.fault = none) (hkeys : (es.map Prod.fst).Nodup) (hes : ∀ e ∈ es, c.mMap.find? e.1 = some e.2)
    (hpos : ∀ e ∈ es, ∀ u, e.2 = some u → (u.mSend.mPosition : Int) = pending e.1) :
    (∀ x ∈ copiesTo p c es, x.Inside) ↔ RoomForAll p pending es := by
  induction es generalizing c with
  | nil => simp [copiesTo, RoomForAll]
  | cons e rest ih =>
    obtain ⟨id, o⟩ := e
    obtain ⟨hid, hrest⟩ := List.nodup_cons.mp hkeys
    have hfind : c.mMap.find? id = some o := hes _ List.mem_cons_self
    have hes' : ∀ e ∈ rest, c.mMap.find? e.1 = some e.2 := fun e he => hes e (List.mem_cons_of_mem _ he)
    have hpos' : ∀ e ∈ rest, ∀ u, e.2 = some u → (u.mSend.mPosition : Int) = pending e.1 :=
      fun e he => hpos e (List.mem_cons_of_mem _ he)
    obtain ⟨c', hc'⟩ : ∃ c', c' = c.withUser id (User.enqueue · p.pack) := ⟨_, rfl⟩
    simp only [copiesTo, List.mem_append, or_imp, forall_and]
    rw [← hc']
    cases o with
    | none =>
      have hfault : ¬ c'.fault = none := by
        rw [hc', withUser, hfind]
        simp [fail]
      simp [RoomForAll, hfault, copyTo, hfind]
    | some u =>
      have hu : (u.mSend.mPosition : Int) = pending id := hpos _ List.mem_cons_self u rfl
      have hok : c'.fault = none ↔ ∃ u', u.enqueue p.pack = .ok u' := by
        rw [hc', withUser, hfind]
        dsimp only
        cases u.enqueue p.pack with
        | ok u' => simp [hc]
        | error f => simp [fail]
      have hcopy : (∀ x ∈ c.copyTo p id, x.Inside) ↔ RoomFor p (pending id) := by
        simp only [copyTo, hfind, List.mem_singleton, forall_eq, User.copyOf, Copy.Inside, hu, RoomFor]
      rw [enqueue_ok_iff, hu] at hok
      rw [hcopy, RoomForAll]
      refine ⟨?_, ?_⟩
      · rintro ⟨hroom, htail⟩
        refine ⟨hroom, fun hstore => ?_⟩
        have hlive := hok.mpr ⟨hroom, hstore⟩
        rw [if_pos hlive] at htail
        exact (ih hlive hrest (enqueue_rest hc' hlive hid hes') hpos').mp htail
      · rintro ⟨hroom, htail⟩
        refine ⟨hroom, ?_⟩
        split
        · rename_i hlive
          exact (ih hlive hrest (enqueue_rest hc' hlive hid hes') hpos').mpr (htail (hok.mp hlive).2)
        · exact fun x hx => absurd hx List.not_mem_nil

theorem packetCopies_inside_iff {c : Cmd} {pending : Int → Int} {p : Packet} (hc : c.fault = none)
    (h : c.Owes pending) : (∀ x ∈ c.packetCopies p, x.Inside) ↔ c.PacketRoom pending p := by
  unfold packetCopies PacketRoom
  split
  · exact copyTo_inside_iff h
  · exact copyTo_inside_iff h
  · exact copyTo_inside_iff h
  · exact copyTo_inside_iff h
  · refine copiesTo_inside_iff hc (StdMap.ascending_keys_nodup _) (fun _ he => StdMap.mem_ascending.mp he)
      fun e he u hu => ?_
    exact h e.1 u (by rw [← hu]; exact StdMap.mem_ascending.mp he)
  · split
    · rename_i u hu
      refine ⟨?_, ?_⟩
      · exact fun h _ => h _ (List.mem_singleton.mpr rfl)
      · intro h x hx
        rw [List.mem_singleton.mp hx]
        exact h ⟨u, hu⟩
    · rename_i hnone
      refine ⟨fun _ hlive => ?_, fun _ x hx => absurd hx List.not_mem_nil⟩
      obtain ⟨u, hu⟩ := hlive
      exact absurd hu (hnone u)
  · exact ⟨fun _ => trivial, fun _ x hx => absurd hx List.not_mem_nil⟩

end Cmd

/-! ## Runs -/

namespace Tracer

structure Inv (s : Tracer) : Prop where
  inside : s.Inside
  owes : s.cmd.fault = none → s.cmd.Owes s.pending

theorem copies_inside_iff {s : Tracer} {e : Cmd.Ev} (hc : s.cmd.fault = none) (h : s.cmd.Owes s.pending) :
    (∀ x ∈ s.cmd.copies e, x.Inside) ↔ s.Room e := by
  cases e with
  | packet p => exact Cmd.packetCopies_inside_iff hc h
  | startSend userId nread =>
    unfold Cmd.copies Room
    dsimp only
    by_cases hneg : nread < 0
    · have hroom : nread + nread ≤ CmdSend.sendBuffSize := by omega
      rw [if_pos hneg]
      exact ⟨fun _ => hroom, fun _ x hx => absurd hx List.not_mem_nil⟩
    · rw [if_neg hneg]
      refine ⟨?_, ?_⟩
      · exact fun h => h _ (List.mem_singleton.mpr rfl)
      · intro h x hx
        rw [List.mem_singleton.mp hx]
        exact h
  | _ => exact ⟨fun _ => trivial, fun _ x hx => absurd hx List.not_mem_nil⟩

/-- Every event leaves pending what it should. -/
theorem reckon_owes {s : Tracer} {e : Cmd.Ev} {c : Cmd} (hc : s.cmd.fault = none) (h : s.cmd.Owes s.pending)
    (hnext : s.cmd.next e = some c) (hok : c.fault = none) : c.Owes (s.reckon e) := by
  cases e with
  | packet p =>
    obtain rfl := Option.some.inj hnext
    exact Cmd.setWriteSocketFdFlag_owes h hc hok
  | login junk socket userId now =>
    obtain rfl := Option.some.inj hnext
    exact Cmd.login_owes h userId rfl
  | startSend userId nread =>
    simp only [Cmd.next] at hnext
    split at hnext
    · rename_i v hv
      split at hnext
      · rename_i hn
        obtain rfl := Option.some.inj hnext
        exact Cmd.startSend_owes h hv hn.2
      · cases hnext
    · cases hnext
  | deleteloginUser userId =>
    simp only [Cmd.next] at hnext
    split at hnext
    · rename_i v hv
      obtain rfl := Option.some.inj hnext
      intro k u hu
      rcases StdMap.of_find?_set hu with ⟨rfl, hnew⟩ | hold
      · obtain rfl := Option.some.inj hnew
        exact h _ v hv
      · exact h k u hold
    · cases hnext
  | sweep userId =>
    simp only [Cmd.next] at hnext
    split at hnext
    · cases hnext
    · obtain rfl := Option.some.inj hnext
      cases hok
    · split at hnext
      · obtain rfl := Option.some.inj hnext
        exact fun k u hu => h k u (StdMap.of_find?_remove hu).2
      · cases hnext
  | evict count now =>
    simp only [Cmd.next] at hnext
    split at hnext
    · cases hnext
    · split at hnext
      · obtain rfl := Option.some.inj hnext
        exact h
      · cases hnext

theorem step_inv {s s' : Tracer} {e : Cmd.Ev} (hs : Inv s) (h : step s e = some s') :
    (Room s e → Inv s') ∧ (Inside s' → Room s e) := by
  obtain ⟨c, hc, rfl⟩ := Option.map_eq_some_iff.mp h
  unfold Cmd.step at hc
  split at hc
  · rename_i hfault
    have howes := hs.owes hfault
    have hcopies := copies_inside_iff (e := e) hfault howes
    refine ⟨?_, ?_⟩
    · intro hroom
      refine ⟨fun x hx => ?_, reckon_owes hfault howes hc⟩
      rcases List.mem_append.mp hx with hold | hnew
      · exact hs.inside x hold
      · exact hcopies.mpr hroom x hnew
    · exact fun hin => hcopies.mp fun x hx => hin x (List.mem_append_right _ hx)
  · cases hc

/-- The run is dispatch's. -/
theorem run_dispatch {es : List Cmd.Ev} {s s' : Tracer} (h : run step s es = some s') :
    run Cmd.step s.cmd es = some s'.cmd := by
  induction es generalizing s with
  | nil =>
    cases h
    rfl
  | cons e es ih =>
    obtain ⟨t, ht, hr⟩ := Option.bind_eq_some_iff.mp h
    obtain ⟨c, hc, rfl⟩ := Option.map_eq_some_iff.mp ht
    rw [run_cons hc]
    exact ih hr

theorem init_inv : Inv init := ⟨fun _ hx => absurd hx List.not_mem_nil, fun _ _ _ hu => (by cases hu)⟩

end Tracer

end GroupeChat.ChatServer
