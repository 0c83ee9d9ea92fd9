/-
  GroupeChat.UdpChat.Server — whom the UDP chat server broadcasts to (`Server::recvData`,
  `Server::broadCast`).

  A datagram enters its sender into `_onlineList`, and one that says "quit" takes it out.
  The list is keyed by the sender's address alone: what is there under the address stays,
  port and all, and a quit erases whatever is there.

  `Right`: a broadcast goes once to each endpoint whose latest datagram is not a quit, and
  nowhere else. It holds all along exactly the runs in which no datagram comes while
  another port of its address is online (`right_iff_alone`). Two clients behind one
  address are one entry (`two_ports_of_one_address`).
-/

import GroupeChat.Base.CString
import GroupeChat.Base.Run
import GroupeChat.Base.StdMap
import GroupeChat.UdpChat.DataPool

namespace GroupeChat.UdpChat

open Base

def maxLen : Nat := 1024

/-- `strInfo`, after `recvfrom` into the buffer and a NUL behind it. -/
def recvBuffer (datagram : List UInt8) : Text := cstr (datagram.take (maxLen - 1))

structure Info where
  userName : Text
  school : Text
  message : Text
  token : Text

def quit : Text := [113, 117, 105, 116]

structure Endpoint where
  addr : UInt32
  port : UInt16
  deriving DecidableEq

/-- A datagram to a server whose JSON reader is `deSerialize`. -/
structure Datagram (deSerialize : Text → Info) where
  peer : Endpoint
  bytes : List UInt8
  /-- What the sender wrote as its token. -/
  token : Text
  /-- The reader returns it, of what the buffer takes of the datagram. -/
  legible : (deSerialize (recvBuffer bytes)).token = token

structure Server (deSerialize : Text → Info) where
  onlineList : StdMap UInt32 Endpoint
  /-- The datagrams handled. -/
  history : List (Datagram deSerialize)

namespace Server

variable {deSerialize : Text → Info}

def init : Server deSerialize := ⟨∅, []⟩

/-- `recvData`, but for the message that it puts into the queue. -/
def recvData (s : Server deSerialize) (d : Datagram deSerialize) : Server deSerialize :=
  if d.bytes.length = 0 then s
  else
    let info := deSerialize (recvBuffer d.bytes)
    { onlineList :=
        if info.token = quit then
          if (s.onlineList.find? d.peer.addr).isSome then s.onlineList.remove d.peer.addr else s.onlineList
        else s.onlineList.insertNew d.peer.addr d.peer
      history := s.history ++ [d] }

/-- Where `broadCast` sends what, with `data` out of the queue. -/
def broadCast (s : Server deSerialize) (data : Text) : List (Endpoint × Text) :=
  s.onlineList.toList.map fun it => (it.2, data)

def step (s : Server deSerialize) (d : Datagram deSerialize) : Option (Server deSerialize) := some (s.recvData d)

def Online (history : List (Datagram deSerialize)) (e : Endpoint) : Prop :=
  ∃ d, (history.filter fun d => d.peer = e).getLast? = some d ∧ d.token ≠ quit

/-- Every broadcast goes once to each endpoint online, and nowhere else. -/
def Right (s : Server deSerialize) : Prop :=
  ∀ data, (s.broadCast data).Nodup ∧ ∀ e t, (e, t) ∈ s.broadCast data ↔ t = data ∧ Online s.history e

/-- No other port of the sender's address is online. -/
def Alone (s : Server deSerialize) (d : Datagram deSerialize) : Prop :=
  d.bytes.length ≠ 0 → ∀ e, Online s.history e → e.addr = d.peer.addr → e = d.peer

/-! ## The list and the endpoints online -/

theorem online_snoc {history : List (Datagram deSerialize)} {d : Datagram deSerialize} {e : Endpoint} :
    Online (history ++ [d]) e ↔ if e = d.peer then d.token ≠ quit else Online history e := by
  by_cases h : e = d.peer
  · subst h
    simp [Online]
  · have hne : ¬ d.peer = e := fun heq => h heq.symm
    simp [Online, List.filter_append, h, hne]

theorem mem_broadCast {s : Server deSerialize} {data t : Text} {e : Endpoint} :
    (e, t) ∈ s.broadCast data ↔ t = data ∧ ∃ addr, s.onlineList.find? addr = some e := by
  unfold broadCast
  rw [List.mem_map]
  refine ⟨?_, ?_⟩
  · intro h
    obtain ⟨⟨addr, e'⟩, hmem, heq⟩ := h
    obtain ⟨rfl, rfl⟩ := Prod.mk.injEq .. |>.mp heq
    exact ⟨rfl, addr, StdMap.mem_toList.mp hmem⟩
  · intro h
    obtain ⟨rfl, addr, hfind⟩ := h
    exact ⟨(addr, e), StdMap.mem_toList.mpr hfind, rfl⟩

def Inv (s : Server deSerialize) : Prop :=
  ∀ addr e, s.onlineList.find? addr = some e ↔ Online s.history e ∧ e.addr = addr

theorem Inv.right {s : Server deSerialize} (hi : Inv s) : Right s := by
  intro data
  refine ⟨?_, ?_⟩
  · unfold broadCast
    apply List.Nodup.map_on
    · intro x hx y hy heq
      obtain ⟨he, -⟩ := Prod.mk.injEq .. |>.mp heq
      have hkx := ((hi x.1 x.2).mp (StdMap.mem_toList.mp hx)).2
      have hky := ((hi y.1 y.2).mp (StdMap.mem_toList.mp hy)).2
      exact Prod.ext (by rw [← hkx, ← hky, he]) he
    · exact StdMap.toList_nodup s.onlineList
  · intro e t
    rw [mem_broadCast]
    refine ⟨?_, ?_⟩
    · intro h
      obtain ⟨ht, addr, hfind⟩ := h
      exact ⟨ht, ((hi addr e).mp hfind).1⟩
    · intro h
      exact ⟨h.1, e.addr, (hi e.addr e).mpr ⟨h.2, rfl⟩⟩

theorem init_inv : Inv (init : Server deSerialize) := by
  intro addr e
  simp [init, Online]

/-! ## A datagram -/

theorem quit_inv {s : Server deSerialize} {d : Datagram deSerialize} (hi : Inv s) (ha : Alone s d)
    (hb : d.bytes.length ≠ 0) (hq : d.token = quit) : Inv (s.recvData d) := by
  intro addr e
  have hfind : (s.recvData d).onlineList.find? addr = if addr = d.peer.addr then none else s.onlineList.find? addr := by
    unfold recvData
    rw [if_neg hb]
    dsimp only
    rw [d.legible, if_pos hq]
    split
    · exact StdMap.find?_remove _ _ _
    · rename_i hnone
      by_cases haddr : addr = d.peer.addr
      · rw [if_pos haddr, haddr]
        simpa using hnone
      · rw [if_neg haddr]
  have hhist : (s.recvData d).history = s.history ++ [d] := by
    unfold recvData
    rw [if_neg hb]
  rw [hfind, hhist, online_snoc]
  by_cases haddr : addr = d.peer.addr
  · rw [if_pos haddr]
    refine ⟨fun h => (by cases h), fun h => ?_⟩
    obtain ⟨honline, hea⟩ := h
    by_cases he : e = d.peer
    · rw [if_pos he] at honline
      exact absurd hq honline
    · rw [if_neg he] at honline
      exact absurd (ha hb e honline (hea.trans haddr)) he
  · rw [if_neg haddr, hi addr e]
    by_cases he : e = d.peer
    · rw [if_pos he]
      exact ⟨fun h => absurd (h.2.symm.trans (congrArg Endpoint.addr he)) haddr, fun h => absurd hq h.1⟩
    · rw [if_neg he]

theorem join_inv {s : Server deSerialize} {d : Datagram deSerialize} (hi : Inv s) (ha : Alone s d)
    (hb : d.bytes.length ≠ 0) (hq : d.token ≠ quit) : Inv (s.recvData d) := by
  intro addr e
  have hfind : (s.recvData d).onlineList.find? addr =
      if addr = d.peer.addr then some ((s.onlineList.find? d.peer.addr).getD d.peer) else s.onlineList.find? addr := by
    unfold recvData
    rw [if_neg hb]
    dsimp only
    rw [d.legible, if_neg hq]
    exact StdMap.find?_insertNew _ _ _ _
  have hhist : (s.recvData d).history = s.history ++ [d] := by
    unfold recvData
    rw [if_neg hb]
  -- what stands under the address is the sender
  have hold : (s.onlineList.find? d.peer.addr).getD d.peer = d.peer := by
    cases hf : s.onlineList.find? d.peer.addr with
    | none => rfl
    | some e' =>
      obtain ⟨honline, haddr⟩ := (hi _ e').mp hf
      exact ha hb e' honline haddr
  rw [hfind, hhist, online_snoc, hold]
  by_cases haddr : addr = d.peer.addr
  · rw [if_pos haddr]
    refine ⟨?_, ?_⟩
    · intro h
      obtain rfl := Option.some.inj h
      exact ⟨by rw [if_pos rfl]; exact hq, haddr.symm⟩
    · intro h
      obtain ⟨honline, hea⟩ := h
      by_cases he : e = d.peer
      · rw [he]
      · rw [if_neg he] at honline
        exact absurd (ha hb e honline (hea.trans haddr)) he
  · rw [if_neg haddr, hi addr e]
    by_cases he : e = d.peer
    · rw [if_pos he]
      exact ⟨fun h => absurd (h.2.symm.trans (congrArg Endpoint.addr he)) haddr,
        fun h => absurd (h.2.symm.trans (congrArg Endpoint.addr he)) haddr⟩
    · rw [if_neg he]

/-- While another port of the address is online, the datagram makes the list wrong. -/
theorem alone_of_right {s : Server deSerialize} {d : Datagram deSerialize} (hi : Inv s) (hr : Right (s.recvData d)) :
    Alone s d := by
  intro hb e honline haddr
  by_contra hne
  have hfind : s.onlineList.find? d.peer.addr = some e := (hi _ e).mpr ⟨honline, haddr⟩
  have hmem : ∀ e', (∃ addr, (s.recvData d).onlineList.find? addr = some e') ↔ Online (s.history ++ [d]) e' := by
    intro e'
    have := (hr []).2 e' []
    rw [mem_broadCast] at this
    unfold recvData at this ⊢
    rw [if_neg hb] at this ⊢
    simpa using this
  unfold recvData at hmem
  rw [if_neg hb] at hmem
  dsimp only at hmem
  rw [d.legible] at hmem
  by_cases hq : d.token = quit
  · -- the other port is taken out
    obtain ⟨addr, ha⟩ := (hmem e).mpr (online_snoc.mpr (by rwa [if_neg hne]))
    rw [if_pos hq, hfind, Option.isSome_some, if_pos rfl] at ha
    obtain ⟨hk, ha⟩ := StdMap.of_find?_remove ha
    exact hk (((hi addr e).mp ha).2.symm.trans haddr)
  · -- the sender is not entered
    obtain ⟨addr, ha⟩ := (hmem d.peer).mpr (online_snoc.mpr (by rwa [if_pos rfl]))
    rw [if_neg hq, StdMap.find?_insertNew, hfind] at ha
    by_cases hk : addr = d.peer.addr
    · rw [if_pos hk] at ha
      exact hne (Option.some.inj ha)
    · rw [if_neg hk] at ha
      exact hk ((hi addr d.peer).mp ha).2.symm

theorem recvData_inv {s : Server deSerialize} {d : Datagram deSerialize} (hi : Inv s) (ha : Alone s d) :
    Inv (s.recvData d) := by
  by_cases hb : d.bytes.length = 0
  · unfold recvData
    rwa [if_pos hb]
  · by_cases hq : d.token = quit
    · exact quit_inv hi ha hb hq
    · exact join_inv hi ha hb hq

/-! ## Runs -/

/-- Whatever the datagrams, broadcasts go where they should all along exactly when no
    datagram comes while another port of its address is online. -/
theorem right_iff_alone (ds : List (Datagram deSerialize)) : Always step Right init ds ↔ Along step Alone init ds := by
  refine always_iff_along (I := Inv) (fun s hi => hi.right) (fun s d s' hi h => ?_) init_inv
  obtain rfl := Option.some.inj h
  exact ⟨recvData_inv hi, alone_of_right hi⟩

end Server

/-! ## Two clients behind one address -/

def ascii (s : String) : Text := s.toList.map fun c => c.toNat.toUInt8

/-- The JSON object, where the texts need no escapes. -/
def Info.json (i : Info) : Text :=
  ascii "\x7b\"_message\":\"" ++ i.message ++ ascii "\",\"_school\":\"" ++ i.school ++ ascii "\",\"_token\":\"" ++
    i.token ++ ascii "\",\"_userName\":\"" ++ i.userName ++ ascii "\"\x7d"

def readerOf (infos : List Info) (t : Text) : Info := (infos.find? fun i => i.json = t).getD ⟨[], [], [], []⟩

def greeting : Info := ⟨ascii "ann", ascii "west", ascii "hi", ascii "None"⟩

def hello (port : UInt16) : Datagram (readerOf [greeting]) :=
  ⟨⟨167772161, port⟩, greeting.json, ascii "None", by decide +kernel⟩

/-- The second client is never entered. -/
theorem Server.two_ports_of_one_address : ¬ Always Server.step Server.Right Server.init [hello 4000, hello 4001] := by
  intro h
  have hright := ((h.2 _ rfl).2 _ rfl)
  have honline : Server.Online [hello 4000, hello 4001] ⟨167772161, 4001⟩ := ⟨hello 4001, rfl, by decide⟩
  have hsent := ((hright []).2 ⟨167772161, 4001⟩ []).mpr ⟨rfl, honline⟩
  revert hsent
  decide +kernel

end GroupeChat.UdpChat
