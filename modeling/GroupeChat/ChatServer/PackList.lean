/-
  GroupeChat.ChatServer.PackList — the list that feeds the command thread (`m_packList`).

  The TCP reader pushes each packet; the UDP reader pushes a datagram and then, in a
  second push, the address it came from; the command thread pops an element, takes it
  for a packet, and for a UDPSENDFILE or UDPRESEND with something in the list, and for
  every UDPREGISTER, pops one more and takes that for the address. Nothing ties the two
  pushes or the two pops together, nothing says which reader a packet came from, and
  `m_packcount` starts with whatever its memory held.

  `Wire` is the list with its three threads, `uses` what the command thread took each
  element for. `Right`: never an address for a packet, never anything for an address but
  the one pushed with the datagram in hand, and no pop of an empty list. What is in hand
  and in the list is then packets and datagram-address pairs (`Blocks`), which the
  `Paired` steps keep: no push between a datagram and its address, UDP commands from
  datagrams only, an address there when it is looked for (`right_of_paired`).
  A TCP packet between the two pushes is registered as an address
  (`a_packet_for_an_address`).
-/

import GroupeChat.Base.CountedList
import GroupeChat.Base.Run
import GroupeChat.Proto

namespace GroupeChat

open Base

/-! ## `CList` -/

structure CList (α : Type) where
  /-- `m_packcount` and `m_package`. -/
  package : CountedList 32 α

namespace CList

variable {α : Type}

/-- The constructor leaves `m_packcount` as it finds it. -/
def new (junk : BitVec 32) : CList α := ⟨.new junk⟩

def getPackSize (l : CList α) : Int := l.package.size

def packPush (l : CList α) (p : α) : CList α := ⟨l.package.push p⟩

def packPop (l : CList α) : Option (α × CList α) := l.package.pop.map fun (p, q) => (p, ⟨q⟩)

theorem packPop_some {l l' : CList α} {p : α} (h : l.packPop = some (p, l')) :
    l.package.pop = some (p, l'.package) := by
  obtain ⟨q, hq, heq⟩ := Option.map_eq_some_iff.mp h
  cases heq
  exact hq

theorem packPop_of_cons {l : CList α} {p : α} {rest : List α} (h : l.package.list = p :: rest) :
    ∃ l', l.packPop = some (p, l') ∧ l'.package.list = rest := by
  refine ⟨⟨⟨l.package.count - 1, rest⟩⟩, ?_, rfl⟩
  rw [packPop, CountedList.pop, h]
  rfl

/-- What a pop takes was there, and so was what it leaves. -/
theorem mem_of_packPop {l l' : CList α} {p : α} (h : l.packPop = some (p, l')) :
    p ∈ l.package.list ∧ ∀ q ∈ l'.package.list, q ∈ l.package.list := by
  rw [(CountedList.pop_some (packPop_some h)).1]
  exact ⟨List.mem_cons_self, fun q hq => List.mem_cons_of_mem _ hq⟩

/-- The count started at 0, so it is that of the elements as far as an `int` goes. -/
def Counted (l : CList α) : Prop := l.package.base = 0

theorem Counted.push {l : CList α} (h : l.Counted) (p : α) : (l.packPush p).Counted :=
  (CountedList.base_push l.package p).trans h

theorem Counted.pop {l l' : CList α} {p : α} (h : l.Counted) (hp : l.packPop = some (p, l')) : l'.Counted :=
  (CountedList.base_pop (packPop_some hp)).trans h

/-- A count above 0 is that of a list that is not empty. -/
theorem Counted.ne_nil {l : CList α} (h : l.Counted) (hpos : 0 < l.getPackSize) : l.package.list ≠ [] := by
  intro hnil
  have hcount : l.package.count = 0 := by rw [l.package.count_eq, h, hnil]; rfl
  rw [getPackSize, CountedList.size, hcount] at hpos
  exact absurd hpos (by decide)

end CList

namespace ChatServer

/-! ## The three threads -/

inductive Origin where
  | tcp
  /-- The `n`-th datagram. -/
  | datagram (n : Nat)
  /-- The address pushed with the `n`-th datagram. -/
  | address (n : Nat)
  deriving DecidableEq

structure Elem where
  buf : Buf
  origin : Origin

namespace Elem

def cmd (e : Elem) : Option CmdId := CmdId.ofCode (Proto.cmdId e.buf)

def wantsAddress (e : Elem) : Bool :=
  e.cmd = some .udpResend || e.cmd = some .udpSendFile || e.cmd = some .udpRegister

end Elem

inductive Use where
  | packet (e : Elem)
  | addressOf (pack e : Elem)

def Origin.isAddress : Origin → Bool
  | .address _ => true
  | _ => false

def Origin.followedBy : Origin → Origin → Bool
  | .datagram n, .address m => n = m
  | _, _ => false

/-- A packet was a packet, an address that of its datagram. -/
def Use.Right : Use → Prop
  | .packet e => e.origin.isAddress = false
  | .addressOf pack e => pack.origin.followedBy e.origin = true

instance : DecidablePred Use.Right
  | .packet e => inferInstanceAs (Decidable (e.origin.isAddress = false))
  | .addressOf pack e => inferInstanceAs (Decidable (pack.origin.followedBy e.origin = true))

structure Wire where
  mPackList : CList Elem
  /-- The datagram whose address the UDP reader has not pushed yet. -/
  udp : Option Nat
  datagrams : Nat
  /-- The packet whose address the command thread is about to pop. -/
  hand : Option Elem
  uses : List Use
  /-- The list was popped empty. -/
  faulted : Bool

namespace Wire

inductive Ev where
  | tcpPush (buf : Buf)
  | datagramPush (buf : Buf)
  /-- `buf` is the `sockaddr_in`. -/
  | addressPush (buf : Buf)
  /-- `startDealCmd` finds a count and pops a packet. -/
  | packetPop
  /-- The UDP cases of `setWriteSocketFdFlag` pop the address. -/
  | addressPop

def init (junk : BitVec 32) : Wire := ⟨.new junk, none, 0, none, [], false⟩

def popPacket (w : Wire) : Wire :=
  match w.mPackList.packPop with
  | none => { w with faulted := true }
  | some (e, l) =>
    { w with mPackList := l, hand := if e.wantsAddress then some e else none, uses := w.uses ++ [.packet e] }

def popAddress (w : Wire) (pack : Elem) : Wire :=
  match w.mPackList.packPop with
  | none => { w with faulted := true }
  | some (e, l) => { w with mPackList := l, hand := none, uses := w.uses ++ [.addressOf pack e] }

def step (w : Wire) : Ev → Option Wire
  | .tcpPush buf => some { w with mPackList := w.mPackList.packPush ⟨buf, .tcp⟩ }
  | .datagramPush buf =>
    if w.udp = none then some { w with
      mPackList := w.mPackList.packPush ⟨buf, .datagram w.datagrams⟩
      udp := some w.datagrams
      datagrams := w.datagrams + 1 }
    else none
  | .addressPush buf =>
    match w.udp with
    | none => none
    | some n => some { w with mPackList := w.mPackList.packPush ⟨buf, .address n⟩, udp := none }
  | .packetPop =>
    if w.faulted = false ∧ w.hand.isNone ∧ 0 < w.mPackList.getPackSize then some w.popPacket else none
  | .addressPop =>
    match w.hand with
    | none => none
    | some pack =>
      if w.faulted then none
      -- UDPREGISTER does not look at the count
      else if pack.cmd = some .udpRegister ∨ 0 < w.mPackList.getPackSize then some (w.popAddress pack)
      else some { w with hand := none }

structure Right (w : Wire) : Prop where
  uses : ∀ u ∈ w.uses, u.Right
  faulted : w.faulted = false

/-- The command thread finds an address where there has to be one, and nothing where there
    is none. -/
def AddressThere (l : CList Elem) (e : Elem) : Prop :=
  if e.origin = .tcp then ¬ 0 < l.getPackSize
  else l.package.list ≠ [] ∧ (e.cmd = some .udpRegister ∨ 0 < l.getPackSize)

instance (l : CList Elem) (e : Elem) : Decidable (AddressThere l e) :=
  inferInstanceAs (Decidable (if e.origin = .tcp then ¬ 0 < l.getPackSize
    else l.package.list ≠ [] ∧ (e.cmd = some .udpRegister ∨ 0 < l.getPackSize)))

/-- A push of a TCP packet keeps out of the two pushes of a datagram, and is not a
    registration; a datagram is of a UDP command. The address of a datagram in hand is
    there, and nothing is when a TCP packet is in hand. -/
def Paired (w : Wire) : Ev → Prop
  | .tcpPush buf => w.udp = none ∧ Elem.cmd ⟨buf, .tcp⟩ ≠ some .udpRegister
  | .datagramPush buf => Elem.wantsAddress ⟨buf, .tcp⟩ = true
  | .addressPush _ => True
  | .packetPop => True
  | .addressPop => ∀ e ∈ w.hand, AddressThere w.mPackList e

instance (w : Wire) : (e : Ev) → Decidable (w.Paired e)
  | .tcpPush buf => inferInstanceAs (Decidable (w.udp = none ∧ Elem.cmd ⟨buf, .tcp⟩ ≠ some .udpRegister))
  | .datagramPush buf => inferInstanceAs (Decidable (Elem.wantsAddress ⟨buf, .tcp⟩ = true))
  | .addressPush _ | .packetPop => inferInstanceAs (Decidable True)
  | .addressPop => inferInstanceAs (Decidable (∀ e ∈ w.hand, AddressThere w.mPackList e))

instance : DecidablePred Right := fun w =>
  decidable_of_iff ((∀ u ∈ w.uses, u.Right) ∧ w.faulted = false) ⟨fun h => ⟨h.1, h.2⟩, fun h => ⟨h.uses, h.faulted⟩⟩

/-! ## Packets and pairs -/

/-- TCP packets, and datagrams of UDP commands each followed by its address; the `n` of a
    last datagram whose address is still to come. -/
inductive Blocks : Option Nat → List Elem → Prop where
  | nil : Blocks none []
  | half {n : Nat} {d : Elem} : d.origin = .datagram n → d.wantsAddress = true → Blocks (some n) [d]
  | tcp {m : Option Nat} {e : Elem} {l : List Elem} :
      e.origin = .tcp → e.cmd ≠ some .udpRegister → Blocks m l → Blocks m (e :: l)
  | pair {m : Option Nat} {n : Nat} {d a : Elem} {l : List Elem} :
      d.origin = .datagram n → d.wantsAddress = true → a.origin = .address n → Blocks m l → Blocks m (d :: a :: l)

theorem Blocks.snoc_tcp {l : List Elem} {e : Elem} (h : Blocks none l) (he : e.origin = .tcp)
    (hc : e.cmd ≠ some .udpRegister) : Blocks none (l ++ [e]) := by
  generalize hm : (none : Option Nat) = m at h
  induction h with
  | nil => exact .tcp he hc .nil
  | half => cases hm
  | tcp ho hc' _ ih => exact .tcp ho hc' (ih hm)
  | pair hd hw ha _ ih => exact .pair hd hw ha (ih hm)

theorem Blocks.snoc_datagram {l : List Elem} {e : Elem} {n : Nat} (h : Blocks none l) (he : e.origin = .datagram n)
    (hw : e.wantsAddress = true) : Blocks (some n) (l ++ [e]) := by
  generalize hm : (none : Option Nat) = m at h
  induction h with
  | nil => exact .half he hw
  | half => cases hm
  | tcp ho hc _ ih => exact .tcp ho hc (ih hm)
  | pair hd hw' ha _ ih => exact .pair hd hw' ha (ih hm)

theorem Blocks.snoc_address {l : List Elem} {a : Elem} {n : Nat} (h : Blocks (some n) l)
    (ha : a.origin = .address n) : Blocks none (l ++ [a]) := by
  generalize hm : some n = m at h
  induction h with
  | nil => cases hm
  | half hd hw =>
    obtain rfl := Option.some.inj hm
    exact .pair hd hw ha .nil
  | tcp ho hc _ ih => exact .tcp ho hc (ih hm)
  | pair hd hw ha' _ ih => exact .pair hd hw ha' (ih hm)

/-- The first element is a packet, and without an address if it wants none. -/
theorem Blocks.front {m : Option Nat} {e : Elem} {l : List Elem} (h : Blocks m (e :: l)) :
    (Use.packet e).Right ∧ (e.wantsAddress = false → Blocks m l) := by
  cases h with
  | half hd hw => exact ⟨congrArg Origin.isAddress hd, fun h => (nomatch hw.symm.trans h)⟩
  | tcp ho hc hl => exact ⟨congrArg Origin.isAddress ho, fun _ => hl⟩
  | pair hd hw ha hl => exact ⟨congrArg Origin.isAddress hd, fun h => (nomatch hw.symm.trans h)⟩

/-- After a datagram comes its address. -/
theorem Blocks.second {m : Option Nat} {d a : Elem} {l : List Elem} (h : Blocks m (d :: a :: l))
    (hd : d.origin ≠ .tcp) : (Use.addressOf d a).Right ∧ Blocks m l := by
  cases h with
  | tcp ho _ _ => exact absurd ho hd
  | pair ho _ ha hl =>
    refine ⟨?_, hl⟩
    simp only [Use.Right, ho, ha, Origin.followedBy, decide_true]

/-- A TCP packet stands alone, and is no registration. -/
theorem Blocks.alone {m : Option Nat} {e : Elem} {l : List Elem} (h : Blocks m (e :: l)) (he : e.origin = .tcp) :
    e.cmd ≠ some .udpRegister ∧ Blocks m l := by
  cases h with
  | half hd _ => cases hd.symm.trans he
  | tcp _ hc hl => exact ⟨hc, hl⟩
  | pair hd _ _ _ => cases hd.symm.trans he

structure Inv (w : Wire) : Prop where
  counted : w.mPackList.Counted
  blocks : Blocks w.udp (w.hand.toList ++ w.mPackList.package.list)
  right : Right w

theorem init_inv : Inv (init 0) := ⟨rfl, .nil, ⟨fun _ h => absurd h List.not_mem_nil, rfl⟩⟩

theorem Right.snoc {w w' : Wire} {u : Use} (h : Right w) (hu : u.Right) (huses : w'.uses = w.uses ++ [u])
    (hf : w'.faulted = false) : Right w' := by
  refine ⟨fun v hv => ?_, hf⟩
  rw [huses] at hv
  rcases List.mem_append.mp hv with hv | hv
  · exact h.uses v hv
  · rw [List.mem_singleton.mp hv]
    exact hu

/-- A packet popped is a packet; one that wants an address keeps its place before it. -/
theorem popPacket_inv {w : Wire} (hi : Inv w) (hh : w.hand = none) (hc : 0 < w.mPackList.getPackSize) :
    Inv w.popPacket := by
  obtain ⟨e, rest, hrest⟩ := List.exists_cons_of_ne_nil (hi.counted.ne_nil hc)
  obtain ⟨l, hpop, hl⟩ := CList.packPop_of_cons hrest
  have hb := hi.blocks
  rw [hh, Option.toList_none, List.nil_append, hrest, ← hl] at hb
  obtain ⟨hpacket, hnext⟩ := hb.front
  unfold popPacket
  rw [hpop]
  refine ⟨hi.counted.pop hpop, ?_, hi.right.snoc hpacket rfl hi.right.faulted⟩
  by_cases hw : e.wantsAddress = true
  · simp only [hw, if_true]
    exact hb
  · simp only [hw, Bool.false_eq_true, if_false]
    exact hnext (by simpa using hw)

/-- An address popped for a datagram is its own. -/
theorem popAddress_inv {w : Wire} {pack a : Elem} {rest : List Elem} (hi : Inv w) (hh : w.hand = some pack)
    (hd : pack.origin ≠ .tcp) (hrest : w.mPackList.package.list = a :: rest) : Inv (w.popAddress pack) := by
  obtain ⟨l, hpop, hl⟩ := CList.packPop_of_cons hrest
  have hb := hi.blocks
  rw [hh, hrest, ← hl] at hb
  obtain ⟨hpair, hafter⟩ := hb.second hd
  unfold popAddress
  rw [hpop]
  exact ⟨hi.counted.pop hpop, hafter, hi.right.snoc hpair rfl hi.right.faulted⟩

theorem step_inv {w w' : Wire} {e : Ev} (hi : Inv w) (hp : Paired w e) (h : step w e = some w') : Inv w' := by
  cases e with
  | tcpPush buf =>
    obtain rfl := Option.some.inj h
    obtain ⟨hu, hc⟩ := hp
    have hb := hi.blocks
    refine ⟨hi.counted.push _, ?_, ⟨hi.right.uses, hi.right.faulted⟩⟩
    rw [hu] at hb
    simp only [CList.packPush, CountedList.list_push, hu, ← List.append_assoc]
    exact hb.snoc_tcp rfl hc
  | datagramPush buf =>
    simp only [step] at h
    split at h
    · rename_i hu
      obtain rfl := Option.some.inj h
      have hb := hi.blocks
      refine ⟨hi.counted.push _, ?_, ⟨hi.right.uses, hi.right.faulted⟩⟩
      rw [hu] at hb
      simp only [CList.packPush, CountedList.list_push, ← List.append_assoc]
      exact hb.snoc_datagram rfl hp
    · cases h
  | addressPush buf =>
    simp only [step] at h
    split at h
    · cases h
    · rename_i n hu
      obtain rfl := Option.some.inj h
      have hb := hi.blocks
      refine ⟨hi.counted.push _, ?_, ⟨hi.right.uses, hi.right.faulted⟩⟩
      rw [hu] at hb
      simp only [CList.packPush, CountedList.list_push, ← List.append_assoc]
      exact hb.snoc_address rfl
  | packetPop =>
    simp only [step] at h
    split at h
    · rename_i hen
      obtain rfl := Option.some.inj h
      exact popPacket_inv hi (by simpa using hen.2.1) hen.2.2
    · cases h
  | addressPop =>
    simp only [step] at h
    split at h
    · cases h
    · rename_i pack hh
      have hb := hi.blocks
      rw [hh] at hb
      have hthere : AddressThere w.mPackList pack := hp pack hh
      unfold AddressThere at hthere
      split at h
      · cases h
      · by_cases ht : pack.origin = .tcp
        · -- nothing is there for a TCP packet, and it is no registration
          obtain ⟨hc, hrest⟩ := hb.alone ht
          rw [if_pos ht] at hthere
          rw [if_neg fun h => h.elim hc hthere] at h
          obtain rfl := Option.some.inj h
          exact ⟨hi.counted, hrest, ⟨hi.right.uses, hi.right.faulted⟩⟩
        · rw [if_neg ht] at hthere
          obtain ⟨hne, hlooks⟩ := hthere
          obtain ⟨a, rest, hl⟩ := List.exists_cons_of_ne_nil hne
          rw [if_pos hlooks] at h
          obtain rfl := Option.some.inj h
          exact popAddress_inv hi hh ht hl

/-- Whatever the interleaving and the commands: with a count that starts at 0, a run of
    paired steps takes packets for packets and addresses for those of their datagrams. -/
theorem right_of_paired (junk : BitVec 32) (es : List Ev) (hjunk : junk = 0) (h : Along step Paired (init junk) es) :
    Always step Right (init junk) es := by
  subst hjunk
  exact (always_of_along (fun _ _ _ => step_inv) init_inv h).mono fun _ hi => hi.right

def command (k : CmdId) : Buf := Mem.putInt 4 (fun _ => 0) 0 k.code

theorem a_registration_and_a_message :
    Always step Right (init 0)
      [.tcpPush (command .sendToOne), .datagramPush (command .udpRegister), .packetPop, .addressPush (fun _ => 0),
        .packetPop, .addressPop] :=
  right_of_paired 0 _ rfl (by decide +kernel)

/-- A message arrives between a registration and its address, and is registered. -/
theorem a_packet_for_an_address :
    ¬ Always step Right (init 0)
      [.datagramPush (command .udpRegister), .tcpPush (command .sendToOne), .addressPush (fun _ => 0), .packetPop,
        .addressPop] := by
  decide +kernel

end Wire

end ChatServer

end GroupeChat
