/-
  GroupeChat.Delivery — the chat from one client's socket to the others'.

  A client sends packets on its connection; the I/O thread cuts the bytes into packets and
  pushes them to the one list of all connections; the command thread handles them in the
  order of that list, and `startSend` puts on each user's connection what is buffered for
  him; his client cuts those bytes again. `Chat` is all of these at once, in any
  interleaving, with any segmentation on every connection.

  `Delivered`: nobody is lost on the way, what is handled is, of every sender, the first of
  what he said, and every client has read the first of the packets handled that are
  addressed to him, each with its sender in it. So all clients see the packets in one
  order, and from any one sender in the order in which he said them. Once nothing is under
  way, all of it has come (`Delivered.complete`).
-/

import GroupeChat.ChatServer.Relay
import GroupeChat.ChatServer.EpollRead
import GroupeChat.ChatClient.Framing

namespace GroupeChat

open Base ChatServer ChatClient
open ChatServer.Conn (stream)

/-- The bytes of a packet, as many as its header says. -/
def frame (b : Buf) : List UInt8 := b.read 0 (Proto.length b).toNat

def unframe (l : List UInt8) : Buf := Mem.ofList 0 l

/-! ## Packets as bytes -/

def Sized (b : Buf) : Prop := 20 ≤ Proto.length b ∧ Proto.length b ≤ Proto.packSize

instance : DecidablePred Sized := fun b =>
  inferInstanceAs (Decidable (20 ≤ Proto.length b ∧ Proto.length b ≤ Proto.packSize))

theorem unframe_read (l : List UInt8) : (unframe l).read 0 l.length = l := by
  rw [unframe, Mem.read_ofList 0 l (Nat.le_refl _), List.take_length]

theorem frame_length (b : Buf) : (frame b).length = (Proto.length b).toNat := by simp [frame]

/-- Its bytes are all that a packet has. -/
theorem unframe_frame (b : Buf) {i : Nat} (h : i < (Proto.length b).toNat) : unframe (frame b) i = b i := by
  have hread := unframe_read (frame b)
  rw [frame_length, frame, Mem.read_eq_iff] at hread
  simpa [frame] using hread i h

theorem unframe_getInt {b : Buf} {off : Nat} (h : off + 4 ≤ (Proto.length b).toNat) :
    (unframe (frame b)).getInt 4 off = b.getInt 4 off :=
  Mem.getInt_congr (Mem.read_eq_iff.mpr fun _ _ => unframe_frame b (by omega))

structure SameFields (b b' : Buf) : Prop where
  cmdId : Proto.cmdId b = Proto.cmdId b'
  userId : Proto.userId b = Proto.userId b'
  length : Proto.length b = Proto.length b'
  peerId : Proto.peerId b = Proto.peerId b'
  relayed : relayed b = relayed b'

theorem unframe_fields {b : Buf} (h : Sized b) : SameFields (unframe (frame b)) b := by
  have hlen := h.1
  have huser : Proto.userId (unframe (frame b)) = Proto.userId b := unframe_getInt (by omega)
  have hlength : Proto.length (unframe (frame b)) = Proto.length b := unframe_getInt (by omega)
  refine ⟨unframe_getInt (by omega), huser, hlength, unframe_getInt (by simp only [Proto.peerOff]; omega), ?_⟩
  rw [relayed, relayed, huser, hlength, Mem.read_eq_iff]
  intro i hi
  refine Mem.putInt_congr _ ?_
  rw [Nat.zero_add]
  exact unframe_frame b hi

theorem SameFields.addressed {b b' : Buf} (h : SameFields b b') (k : Int) : Addressed k b ↔ Addressed k b' := by
  simp only [Addressed, h.cmdId, h.peerId]

/-! ## A packet on its way out -/

theorem relayed_length (b : Buf) : (relayed b).length = (Proto.length b).toNat := by simp [relayed]

/-- The header stays. -/
theorem relayed_head {b : Buf} (h : Sized b) :
    (unframe (relayed b)).read 0 Proto.headSize = b.read 0 Proto.headSize := by
  have hlen := h.1
  have hle : Proto.headSize ≤ (relayed b).length := by
    rw [relayed_length]
    simp only [Proto.headSize]
    omega
  rw [unframe, Mem.read_ofList 0 _ hle, relayed, Mem.take_read _ _ (by rw [relayed_length] at hle; exact hle)]
  exact Mem.read_write_below b _ (by decide)

/-- It is one that a connection carries. -/
theorem relayed_sized {b : Buf} (h : Sized b) : Proto.headSize < (relayed b).length ∧
    (relayed b).length ≤ Proto.packSize ∧ Proto.length (unframe (relayed b)) = (relayed b).length := by
  have hhead : (unframe (relayed b)).read 0 Proto.headSize = b.read 0 Proto.headSize := relayed_head h
  have hlow := h.1
  have hhigh := h.2
  rw [relayed_length]
  refine ⟨?_, ?_, ?_⟩
  · simp only [Proto.headSize]
    omega
  · omega
  · exact (Proto.length_congr hhead).trans (by omega)

def relayedPacket (b : Buf) (h : Sized b) : Conn.Packet where
  bytes := relayed b
  more := (relayed_sized h).1
  fits := (relayed_sized h).2.1
  sized := (relayed_sized h).2.2

/-- Whoever gets it finds the sender where the addressee was. -/
theorem peerId_relayed {b : Buf} (h : Sized b) : Proto.peerId (unframe (relayed b)) = Proto.userId b := by
  have hlen := h.1
  have hread : (unframe (relayed b)).read Proto.peerOff 4 =
      (b.putInt 4 Proto.peerOff (Proto.userId b)).read Proto.peerOff 4 := by
    have hall := unframe_read (relayed b)
    rw [relayed_length, relayed, Mem.read_eq_iff] at hall
    refine Mem.read_eq_iff.mpr fun i hi => ?_
    have := hall (Proto.peerOff + i) (by simp only [Proto.peerOff]; omega)
    simpa [relayed] using this
  rw [Proto.peerId, Mem.getInt_congr hread, Mem.getInt_putInt]
  exact wrap_wrap 4 _

/-! ## The chat -/

instance (conn : Conn) : (e : Conn.Ev) → Decidable (conn.HeadWhole e)
  | .arrive _ => inferInstanceAs (Decidable True)
  | .epollRead _ => inferInstanceAs (Decidable (_ → _ → _))

instance (conn : Conn) : (e : Conn.Ev) → Decidable (conn.Followed e)
  | .arrive _ => inferInstanceAs (Decidable True)
  | .epollRead _ => inferInstanceAs (Decidable (_ → _ → _))

instance (client : IoModel) : (e : IoModel.Ev) → Decidable (client.HeadWhole e)
  | .arrive _ => inferInstanceAs (Decidable True)
  | .readable _ => inferInstanceAs (Decidable (_ → _ → _))

instance (client : IoModel) : (e : IoModel.Ev) → Decidable (client.Followed e)
  | .arrive _ => inferInstanceAs (Decidable True)
  | .readable _ => inferInstanceAs (Decidable (_ → _ → _))

/-- It can be handled: relayed, sized, and its addressee, if it has one, is there. -/
structure Good (c : Cmd) (b : Buf) : Prop where
  relayable : Relayable b
  sized : Sized b
  peer : CmdId.ofCode (Proto.cmdId b) ≠ some .sendToOthers → c.Live (Proto.peerId b)

instance (c : Cmd) (b : Buf) : Decidable (Good c b) :=
  decidable_of_iff (Relayable b ∧ Sized b ∧ (CmdId.ofCode (Proto.cmdId b) ≠ some .sendToOthers →
    c.Live (Proto.peerId b))) ⟨fun h => ⟨h.1, h.2.1, h.2.2⟩, fun h => ⟨h.relayable, h.sized, h.peer⟩⟩

structure Chat where
  /-- Of every user, the server's end of his connection. -/
  up : Int → Conn
  /-- What the connections have pushed and the command thread has not popped. -/
  mPackList : List Buf
  traffic : Traffic
  /-- His own end. -/
  down : Int → IoModel
  /-- What he has sent. -/
  said : Int → List Conn.Packet

namespace Chat

inductive Ev where
  /-- The client of `i` puts a packet on his connection. -/
  | say (i : Int) (p : Conn.Packet)
  | up (i : Int) (e : Conn.Ev)
  /-- The command thread pops a packet and handles it; the event gives what the
      environment adds to it. -/
  | deal (env : ChatServer.Packet)
  | startSend (k : Int)
  | down (k : Int) (e : IoModel.Ev)

/-- Everybody is logged in, and nothing has been sent. -/
def init (c : Cmd) (conn : Int → Buf) (client : Int → UserData) : Chat where
  up i := .init (conn i) [] false
  mPackList := []
  traffic := .init c
  down k := .init (client k) [] false
  said _ := []

def step (s : Chat) : Ev → Option Chat
  | .say i p => some { s with
      up := Function.update s.up i { s.up i with sock := (s.up i).sock.peerSends p.bytes }
      said := Function.update s.said i (s.said i ++ [p]) }
  | .up i e =>
    match (s.up i).step e with
    | none => none
    | some c => some { s with
        up := Function.update s.up i c
        mPackList := s.mPackList ++ c.packList.drop (s.up i).packList.length }
  | .deal env =>
    match s.mPackList with
    | [] => none
    | pack :: rest =>
      match s.traffic.step (.packet { env with pack := pack }) with
      | none => none
      | some t => some { s with mPackList := rest, traffic := t }
  | .startSend k =>
    match s.traffic.step (.startSend k) with
    | none => none
    | some t =>
      let bytes := (t.sent k).drop (s.traffic.sent k).length
      some { s with
        traffic := t
        down := Function.update s.down k { s.down k with sock := (s.down k).sock.peerSends bytes } }
  | .down k e =>
    match (s.down k).step e with
    | none => none
    | some c => some { s with down := Function.update s.down k c }

/-- The clients send what can be handled, with their own id in it; both ends get their
    headers whole and something after them; nobody has more than 5120 bytes buffered when
    a packet is handled. -/
def Valid (s : Chat) : Ev → Prop
  | .say i p => Good s.traffic.cmd (unframe p.bytes) ∧ Proto.userId (unframe p.bytes) = i
  | .up i e => (s.up i).HeadWhole e ∧ (s.up i).Followed e
  | .deal _ => s.traffic.Low
  | .startSend _ => True
  | .down k e => (s.down k).HeadWhole e ∧ (s.down k).Followed e

instance (s : Chat) : (e : Ev) → Decidable (s.Valid e)
  | .say i p => inferInstanceAs (Decidable (Good s.traffic.cmd (unframe p.bytes) ∧ Proto.userId (unframe p.bytes) = i))
  | .up i e => inferInstanceAs (Decidable ((s.up i).HeadWhole e ∧ (s.up i).Followed e))
  | .deal _ => inferInstanceAs (Decidable s.traffic.Low)
  | .startSend _ => inferInstanceAs (Decidable True)
  | .down k e => inferInstanceAs (Decidable ((s.down k).HeadWhole e ∧ (s.down k).Followed e))

/-- The packets in which `k` finds the sender `i`. -/
def heard (s : Chat) (i k : Int) : List (List UInt8) :=
  (s.down k).pushed.filter fun l => Proto.peerId (unframe l) = i

def meant (s : Chat) (i k : Int) : List (List UInt8) :=
  ((s.said i).filter fun p => Addressed k (unframe p.bytes)).map fun p => relayed (unframe p.bytes)

structure Quiet (s : Chat) : Prop where
  up : ∀ i, (s.up i).sock.unread = []
  queue : s.mPackList = []
  buffered : ∀ k u, s.traffic.cmd.mMap.find? k = some (some u) → u.mSend.buffered = []
  down : ∀ k, (s.down k).sock.unread = []

structure Delivered (s : Chat) : Prop where
  fault : s.traffic.cmd.fault = none
  up : ∀ i, (s.up i).status = .live
  down : ∀ k, (s.down k).status = .live
  fromEach : ∀ i, (s.traffic.handled.filter (Proto.userId · = i)).map frame <+: (s.said i).map Conn.Packet.bytes
  oneOrder : ∀ k, (s.down k).pushed <+: (s.traffic.handled.filter (Addressed k)).map relayed
  inOrder : ∀ i k, s.heard i k <+: s.meant i k
  complete : s.Quiet → ∀ k, s.traffic.cmd.Live k →
    (s.down k).pushed = (s.traffic.handled.filter (Addressed k)).map relayed ∧ ∀ i, s.heard i k = s.meant i k

structure Inv (c : Cmd) (s : Chat) : Prop where
  up : ∀ i, Conn.Inv (s.said i) (s.up i)
  good : ∀ i, ∀ p ∈ s.said i, Good c (unframe p.bytes) ∧ Proto.userId (unframe p.bytes) = i
  queue : ∀ i, (s.traffic.handled ++ s.mPackList).filter (Proto.userId · = i) = (s.up i).packList
  exact : Traffic.Exact c s.traffic
  down : ∀ k, ∃ ps qs, (ps ++ qs).map Conn.Packet.bytes = (s.traffic.handled.filter (Addressed k)).map relayed ∧
    s.traffic.sent k = stream ps ∧ IoModel.Inv ps (s.down k)

end Chat

/-! ## What is pushed -/

theorem Good.congr {c c' : Cmd} {b b' : Buf} (h : SameFields b b') (hc : ∀ k, c.Live k → c'.Live k) (hb : Good c b) :
    Good c' b' where
  relayable := by
    have := hb.relayable
    simpa only [Relayable, h.cmdId, h.userId] using this
  sized := by
    have := hb.sized
    simpa only [Sized, h.length] using this
  peer := by
    have := hb.peer
    rw [h.cmdId, h.peerId] at this
    exact fun hne => hc _ (this hne)

theorem SameFields.refl (b : Buf) : SameFields b b := ⟨rfl, rfl, rfl, rfl, rfl⟩

/-- A buffer that holds a packet sent by a client is as good as the packet. -/
theorem fields_of_frame {b : Buf} {p : Conn.Packet} (hb : frame b = p.bytes) (hp : Sized (unframe p.bytes)) :
    SameFields (unframe p.bytes) b := by
  have hlen : (frame b).length = p.bytes.length := by rw [hb]
  have hsized : Proto.length (unframe p.bytes) = p.bytes.length := p.sized
  have hcount := frame_length b
  obtain ⟨hlow, hhigh⟩ := hp
  rw [← hb]
  exact unframe_fields ⟨by omega, by omega⟩

/-- Every buffer a connection has pushed holds a packet its client sent. -/
theorem pushed_good {c : Cmd} {i : Int} {ps : List Conn.Packet} {conn : Conn} (hi : Conn.Inv ps conn)
    (hps : ∀ p ∈ ps, Good c (unframe p.bytes) ∧ Proto.userId (unframe p.bytes) = i) :
    ∀ b ∈ conn.packList, Good c b ∧ Proto.userId b = i := by
  intro b hb
  have hmem : frame b ∈ ps.map Conn.Packet.bytes := hi.framed.first.subset (List.mem_map_of_mem hb)
  obtain ⟨p, hp, hbytes⟩ := List.mem_map.mp hmem
  obtain ⟨hgood, huser⟩ := hps p hp
  have hsame := fields_of_frame hbytes.symm hgood.sized
  exact ⟨hgood.congr hsame fun _ h => h, hsame.userId.symm.trans huser⟩

def Unsent (c : Cmd) : Prop := ∀ k u, c.mMap.find? k = some (some u) → u.mSend.buffered = []

instance : DecidablePred Unsent := fun c =>
  decidable_of_iff (∀ e ∈ c.mMap.toList, ∀ u ∈ e.2, u.mSend.buffered = [])
    ⟨fun h k u hk => h (k, some u) (StdMap.mem_toList.mpr hk) u rfl,
      fun h e he u hu => h e.1 u (hu ▸ StdMap.mem_toList.mp he)⟩

/-- The users are those there were at the start. -/
theorem live_iff {c : Cmd} {t : Traffic} (ht : Traffic.Exact c t) (hc : c.Safe) (k : Int) :
    t.cmd.Live k ↔ c.Live k := by
  refine ⟨?_, ?_⟩
  · rintro ⟨u, hu⟩
    cases hk : c.mMap.find? k with
    | none =>
      rw [ht.others k hk] at hu
      cases hu
    | some o =>
      cases o with
      | none => exact absurd hk ((Cmd.safe_iff.mp hc).2 k)
      | some u₀ => exact ⟨u₀, hk⟩
  · rintro ⟨u₀, hu₀⟩
    obtain ⟨u, hu, -⟩ := ht.users k u₀ hu₀
    exact ⟨u, hu⟩

/-! ## What one step does to the traffic -/

theorem step_packet {t t' : Traffic} {p : ChatServer.Packet} (h : t.step (.packet p) = some t') :
    t'.handled = t.handled ++ [p.pack] ∧ t'.sent = t.sent := by
  simp only [Traffic.step] at h
  split at h
  · cases h
  · obtain rfl := Option.some.inj h
    exact ⟨rfl, rfl⟩

/-- A `startSend` puts on the connection what was buffered. -/
theorem step_startSend {t t' : Traffic} {k : Int} (h : t.step (.startSend k) = some t') :
    ∃ u, t.cmd.mMap.find? k = some (some u) ∧ t'.handled = t.handled ∧
      t'.sent = Function.update t.sent k (t.sent k ++ u.mSend.buffered) := by
  simp only [Traffic.step] at h
  split at h
  · rename_i u hu
    split at h
    · cases h
    · obtain rfl := Option.some.inj h
      exact ⟨u, hu, rfl, rfl⟩
  · cases h

/-- What has been put on a user's connection and what is still buffered for him are
    packets sent one after the other. -/
theorem sent_stream {c : Cmd} {t : Traffic} {k : Int} {u : User} {ps qs : List Conn.Packet}
    (hc : Unsent c) (hsafe : c.Safe) (ht : Traffic.Exact c t)
    (hu : t.cmd.mMap.find? k = some (some u))
    (hps : (ps ++ qs).map Conn.Packet.bytes = (t.handled.filter (Addressed k)).map relayed)
    (hsent : t.sent k = stream ps) : u.mSend.buffered = stream qs := by
  obtain ⟨u₀, hu₀⟩ := (live_iff ht hsafe k).mp ⟨u, hu⟩
  obtain ⟨v, hv, hall⟩ := ht.users k u₀ hu₀
  obtain rfl := Option.some.inj (Option.some.inj (hu.symm.trans hv))
  rw [hc k u₀ hu₀, List.nil_append, List.flatMap_def, ← hps, hsent] at hall
  have : stream ps ++ u.mSend.buffered = stream ps ++ stream qs := by rw [hall, ← Conn.stream_append, stream]
  exact List.append_cancel_left this

namespace Chat

variable {c : Cmd} {s s' : Chat}

theorem Inv.each_good (hi : Inv c s) : ∀ b ∈ s.traffic.handled ++ s.mPackList, Good c b := by
  intro b hb
  have hmem : b ∈ (s.up (Proto.userId b)).packList := by
    rw [← hi.queue]
    exact List.mem_filter.mpr ⟨hb, by simp⟩
  exact (pushed_good (hi.up _) (hi.good _) b hmem).1

theorem init_inv (hf : c.fault = none) (conn : Int → Buf) (client : Int → UserData) : Inv c (init c conn client) where
  up i := Conn.init_inv (conn i) []
  good i p hp := by cases hp
  queue i := rfl
  exact := ⟨hf, fun k u₀ hk => ⟨u₀, hk, by simp [init, Traffic.init]⟩, fun k hk => hk⟩
  down k := ⟨[], [], rfl, rfl, IoModel.init_inv (client k) []⟩

theorem say_inv (hc : c.Safe) {i : Int} {p : Conn.Packet} (hi : Inv c s) (hv : s.Valid (.say i p))
    (h : s.step (.say i p) = some s') : Inv c s' := by
  obtain rfl := Option.some.inj h
  obtain ⟨hgood, huser⟩ := hv
  refine ⟨fun j => ?_, fun j q hq => ?_, fun j => ?_, hi.exact, hi.down⟩
  · by_cases hj : j = i
    · subst hj
      have := (hi.up j).peerSends [p]
      simpa [stream] using this
    · simpa [Function.update_of_ne hj] using hi.up j
  · dsimp only at hq
    by_cases hj : j = i
    · subst hj
      simp only [Function.update_self, List.mem_append, List.mem_singleton] at hq
      rcases hq with hq | rfl
      · exact hi.good j q hq
      · exact ⟨hgood.congr (.refl _) fun k hk => (live_iff hi.exact hc k).mp hk, huser⟩
    · rw [Function.update_of_ne hj] at hq
      exact hi.good j q hq
  · by_cases hj : j = i
    · subst hj
      simpa using hi.queue j
    · simpa [Function.update_of_ne hj] using hi.queue j

theorem up_inv {i : Int} {e : Conn.Ev} (hi : Inv c s) (hv : s.Valid (.up i e)) (h : s.step (.up i e) = some s') :
    Inv c s' := by
  simp only [step] at h
  split at h
  · cases h
  · rename_i conn hstep
    obtain rfl := Option.some.inj h
    have hconn := (Conn.step_inv (hi.up i) hv.1 hstep).1 hv.2
    obtain ⟨new, hnew⟩ := Conn.step_packList hstep
    have hown := pushed_good hconn (hi.good i)
    rw [← hnew] at hown
    rw [← hnew, List.drop_left]
    refine ⟨fun j => ?_, hi.good, fun j => ?_, hi.exact, hi.down⟩
    · by_cases hj : j = i
      · subst hj
        simpa using hconn
      · simpa [Function.update_of_ne hj] using hi.up j
    · dsimp only
      rw [← List.append_assoc, List.filter_append, hi.queue j]
      by_cases hj : j = i
      · subst hj
        rw [Function.update_self, ← hnew, List.filter_eq_self.mpr]
        intro b hb
        simpa using (hown b (List.mem_append_right _ hb)).2
      · rw [Function.update_of_ne hj, List.filter_eq_nil_iff.mpr, List.append_nil]
        intro b hb
        have := (hown b (List.mem_append_right _ hb)).2
        simpa [this] using Ne.symm hj

theorem deal_inv (hc : c.Safe) {env : ChatServer.Packet} (hi : Inv c s) (hv : s.Valid (.deal env))
    (h : s.step (.deal env) = some s') : Inv c s' := by
  simp only [step] at h
  split at h
  · cases h
  · rename_i pack rest hlist
    split at h
    · cases h
    · rename_i t hstep
      obtain rfl := Option.some.inj h
      have hgood : Good c pack := hi.each_good pack (by rw [hlist]; simp)
      obtain ⟨hhandled, hsent⟩ := step_packet hstep
      have hvalid : s.traffic.Valid (.packet { env with pack := pack }) :=
        ⟨hv, hgood.relayable, hgood.sized, fun hne => (live_iff hi.exact hc _).mpr (hgood.peer hne)⟩
      refine ⟨hi.up, hi.good, fun j => ?_, Traffic.packet_exact hi.exact hc hvalid hstep, fun k => ?_⟩
      · have := hi.queue j
        rw [hlist] at this
        simpa [hhandled] using this
      · obtain ⟨ps, qs, hps, hstream, hclient⟩ := hi.down k
        rw [hhandled, hsent]
        by_cases hadd : Addressed k pack
        · refine ⟨ps, qs ++ [relayedPacket pack hgood.sized], ?_, hstream, hclient⟩
          rw [← List.append_assoc, List.map_append, hps]
          simp [List.filter_append, hadd, relayedPacket]
        · refine ⟨ps, qs, ?_, hstream, hclient⟩
          rw [hps]
          simp [List.filter_append, hadd]

theorem startSend_inv (hc : c.Safe) (hempty : Unsent c) {k : Int}
    (hi : Inv c s) (h : s.step (.startSend k) = some s') : Inv c s' := by
  simp only [step] at h
  split at h
  · cases h
  · rename_i t hstep
    obtain rfl := Option.some.inj h
    obtain ⟨u, hu, hhandled, hsent⟩ := step_startSend hstep
    obtain ⟨ps, qs, hps, hstream, hclient⟩ := hi.down k
    have hbuffered := sent_stream hempty hc hi.exact hu hps hstream
    refine ⟨hi.up, hi.good, fun j => ?_, Traffic.startSend_exact hi.exact hstep, fun j => ?_⟩
    · dsimp only
      rw [hhandled]
      exact hi.queue j
    · dsimp only
      rw [hhandled, hsent]
      by_cases hj : j = k
      · subst hj
        refine ⟨ps ++ qs, [], by simpa using hps, ?_, ?_⟩
        · rw [Function.update_self, hstream, hbuffered, Conn.stream_append]
        · rw [Function.update_self, Function.update_self, hstream, List.drop_left, hbuffered]
          exact hclient.peerSends qs
      · rw [Function.update_of_ne hj, Function.update_of_ne hj]
        exact hi.down j

theorem down_inv {k : Int} {e : IoModel.Ev} (hi : Inv c s) (hv : s.Valid (.down k e))
    (h : s.step (.down k e) = some s') : Inv c s' := by
  simp only [step] at h
  split at h
  · cases h
  · rename_i client hstep
    obtain rfl := Option.some.inj h
    refine ⟨hi.up, hi.good, hi.queue, hi.exact, fun j => ?_⟩
    by_cases hj : j = k
    · subst hj
      obtain ⟨ps, qs, hps, hstream, hclient⟩ := hi.down j
      exact ⟨ps, qs, hps, hstream, by simpa using (IoModel.step_inv hclient hv.1 hstep).1 hv.2⟩
    · simpa [Function.update_of_ne hj] using hi.down j

theorem step_inv (hc : c.Safe) (hempty : Unsent c) {e : Ev}
    (hi : Inv c s) (hv : s.Valid e) (h : s.step e = some s') : Inv c s' := by
  cases e with
  | say i p => exact say_inv hc hi hv h
  | up i e => exact up_inv hi hv h
  | deal env => exact deal_inv hc hi hv h
  | startSend k => exact startSend_inv hc hempty hi h
  | down k e => exact down_inv hi hv h

/-! ## What has been delivered -/

/-- Seen from the addressee, the packets of one sender among those relayed. -/
theorem filter_relayed {l : List Buf} (h : ∀ b ∈ l, Sized b) (i : Int) :
    (l.map relayed).filter (fun x => Proto.peerId (unframe x) = i) =
      (l.filter (Proto.userId · = i)).map relayed := by
  induction l with
  | nil => rfl
  | cons b l ih =>
    have hb := peerId_relayed (h b List.mem_cons_self)
    have ih := ih fun b' hb' => h b' (List.mem_cons_of_mem _ hb')
    by_cases hi : Proto.userId b = i
    · simp [hb, hi, ih]
    · simp [hb, hi, ih]

/-- Which packets are for `k`, and what they become, is in their bytes. -/
theorem filter_frames {l : List Buf} (h : ∀ b ∈ l, Sized b) (k : Int) :
    ((l.map frame).filter fun x => Addressed k (unframe x)).map (fun x => relayed (unframe x)) =
      (l.filter (Addressed k)).map relayed := by
  induction l with
  | nil => rfl
  | cons b l ih =>
    have hb := unframe_fields (h b List.mem_cons_self)
    have ih := ih fun b' hb' => h b' (List.mem_cons_of_mem _ hb')
    by_cases hk : Addressed k b
    · simp [hb.addressed, hb.relayed, hk, ih]
    · simp [hb.addressed, hk, ih]

theorem meant_eq (s : Chat) (i k : Int) : s.meant i k =
    (((s.said i).map Conn.Packet.bytes).filter fun x => Addressed k (unframe x)).map
      (fun x => relayed (unframe x)) := by
  simp [meant, List.filter_map, Function.comp_def]

theorem Inv.sized (hi : Inv c s) : ∀ b ∈ s.traffic.handled, Sized b :=
  fun b hb => (hi.each_good b (List.mem_append_left _ hb)).sized

/-- The packets handled of one sender are the first that his connection has pushed. -/
theorem Inv.fromEach (hi : Inv c s) (i : Int) :
    s.traffic.handled.filter (Proto.userId · = i) <+: (s.up i).packList :=
  ⟨s.mPackList.filter (Proto.userId · = i), by rw [← List.filter_append]; exact hi.queue i⟩

/-- What `k` is sent, of one sender: first by the addressee, then by the sender, or the
    other way round. -/
theorem Inv.filter_sender (hi : Inv c s) (i k : Int) :
    ((s.traffic.handled.filter (Addressed k)).map relayed).filter (fun x => Proto.peerId (unframe x) = i) =
      ((s.traffic.handled.filter (Proto.userId · = i)).filter (Addressed k)).map relayed := by
  rw [filter_relayed fun b hb => hi.sized b (List.mem_of_mem_filter hb), List.filter_filter, List.filter_filter]
  exact congrArg (List.map relayed) (List.filter_congr fun b _ => Bool.and_comm _ _)

theorem Inv.routed (hi : Inv c s) (i k : Int) :
    ((s.up i).packList.filter (Addressed k)).map relayed =
      ((s.up i).pushed.filter fun x => Addressed k (unframe x)).map fun x => relayed (unframe x) :=
  (filter_frames (fun b hb => (pushed_good (hi.up i) (hi.good i) b hb).1.sized) k).symm

theorem Inv.oneOrder (hi : Inv c s) (k : Int) :
    (s.down k).pushed <+: (s.traffic.handled.filter (Addressed k)).map relayed := by
  obtain ⟨ps, qs, hps, -, hclient⟩ := hi.down k
  refine hclient.framed.first.trans ?_
  rw [← hps, List.map_append]
  exact List.prefix_append _ _

theorem Inv.inOrder (hi : Inv c s) (i k : Int) : s.heard i k <+: s.meant i k := by
  have hheard := (hi.oneOrder k).filter fun x => Proto.peerId (unframe x) = i
  rw [hi.filter_sender i k] at hheard
  have hrouted := ((hi.fromEach i).filter (Addressed k)).map relayed
  rw [hi.routed i k] at hrouted
  have hsaid := ((hi.up i).framed.first.filter fun x => Addressed k (unframe x)).map fun x => relayed (unframe x)
  rw [meant_eq]
  exact (hheard.trans hrouted).trans hsaid

theorem stream_eq_nil {ps : List Conn.Packet} (h : stream ps = []) : ps = [] := by
  cases ps with
  | nil => rfl
  | cons p ps =>
    have hmore := p.more
    rw [Conn.stream_cons, List.append_eq_nil_iff] at h
    rw [h.1] at hmore
    cases hmore

/-- With nothing under way, everything has come. -/
theorem Inv.complete (hc : c.Safe) (hempty : Unsent c)
    (hi : Inv c s) (hq : s.Quiet) {k : Int} (hk : s.traffic.cmd.Live k) :
    (s.down k).pushed = (s.traffic.handled.filter (Addressed k)).map relayed ∧
      ∀ i, s.heard i k = s.meant i k := by
  obtain ⟨u, hu⟩ := hk
  obtain ⟨ps, qs, hps, hstream, hclient⟩ := hi.down k
  have hnone : qs = [] := stream_eq_nil <| by
    rw [← sent_stream hempty hc hi.exact hu hps hstream]
    exact hq.buffered k u hu
  rw [hnone, List.append_nil] at hps
  have hpushed := hclient.framed.all (hq.down k)
  rw [hps] at hpushed
  refine ⟨hpushed, fun i => ?_⟩
  have hall := hi.queue i
  rw [hq.queue, List.append_nil] at hall
  rw [heard, hpushed, hi.filter_sender i k, hall, hi.routed i k, (hi.up i).framed.all (hq.up i), meant_eq]

theorem Inv.delivered (hc : c.Safe) (hempty : Unsent c)
    (hi : Inv c s) : s.Delivered where
  fault := hi.exact.fault
  up i := (hi.up i).live
  down k := by
    obtain ⟨ps, qs, -, -, hclient⟩ := hi.down k
    exact hclient.framed.live
  fromEach i := ((hi.fromEach i).map frame).trans (hi.up i).framed.first
  oneOrder := hi.oneOrder
  inOrder := hi.inOrder
  complete hq k hk := hi.complete hc hempty hq hk

/-- In every interleaving of what clients say, of both threads and of the deliveries on all
    connections. -/
theorem every_packet_delivered (hf : c.fault = none) (hc : c.Safe)
    (hempty : Unsent c) (conn : Int → Buf)
    (client : Int → UserData) {es : List Ev} (h : Along step Valid (init c conn client) es) :
    Always step Delivered (init c conn client) es := by
  refine Always.mono (fun s (hi : Inv c s) => hi.delivered hc hempty) ?_
  exact always_of_along (fun s e s' hi hv hs => step_inv hc hempty hi hv hs) (init_inv hf conn client) h

def hello : Conn.Packet where
  bytes := frame (Cmd.message .sendToOne 1 2).pack
  more := by decide +kernel
  fits := by decide +kernel
  sized := by decide +kernel

def oneMessage : List Ev :=
  [.say 1 hello, .up 1 (.arrive 20), .up 1 (.epollRead ⟨fun _ => 0, 16, 0, 20⟩), .deal (Cmd.message .sendToOne 1 2),
    .startSend 2, .down 2 (.arrive 18), .down 2 (.readable ⟨fun _ => 0, 16, 0, 1⟩), .down 2 (.arrive 2),
    .down 2 (.readable ⟨fun _ => 0, 16, 0, 9⟩)]

def twoClients : Chat := init Traffic.twoUsers (fun _ _ => 0) fun _ => ⟨fun _ => 0, false, false, 0, 0, 0⟩

theorem a_message_comes_through :
    Always step Delivered twoClients oneMessage ∧
      (run step twoClients oneMessage).map (fun s => s.heard 1 2) = some [relayed (unframe hello.bytes)] :=
  ⟨every_packet_delivered rfl (by decide +kernel) (by decide +kernel) _ _ (by decide +kernel), by decide +kernel⟩

end Chat

end GroupeChat
