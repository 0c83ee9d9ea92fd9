/-
  GroupeChat.ChatServer.Senders — whose name a relayed packet carries.

  The I/O thread knows which user a packet came from; what it pushes is the packet alone.
  The command thread goes by the id in the packet's header, which its client wrote.

  `Desk` is the table of users with the list between the two threads, each entry with the
  id that the server gave, at login, to the user on whose socket it arrived. A relayed
  packet carries the id in its header, and a heartbeat is counted for the user named
  there; that is the sender's own id in every run whose clients write their own
  (`from_the_header`). One that writes another's speaks for the other
  (`in_anothers_name`).
-/

import GroupeChat.ChatServer.PackList
import GroupeChat.ChatServer.Relay

namespace GroupeChat.ChatServer

open Base

structure Arrival where
  sender : Int
  pack : Buf

structure Desk where
  cmd : Cmd
  /-- The id of the last user logged in on each socket. -/
  ids : StdMap Int Int
  mPackList : CList Arrival

namespace Desk

inductive Ev where
  /-- `epollRead` has a whole packet from `sockfd`. -/
  | epollRead (sockfd : Int) (pack : Buf)
  /-- The command thread pops a packet and handles it; `temaddr` is where the next one
      lies, the others are what its handling meets. -/
  | startDealCmd (temaddr : Addr) (tmp : Option Int) (now : Int) (junk : Buf)
  /-- Anything else that happens to the users. -/
  | users (e : Cmd.Ev)

def init (junk : BitVec 32) : Desk := ⟨.init, ∅, .new junk⟩

/-- What the command thread pops: a packet, and in the UDP cases the next element for its
    address. -/
def packPop (s : Desk) : Option (Arrival × Bool × CList Arrival) :=
  match s.mPackList.packPop with
  | none => none
  | some (a, l) =>
    let e : Elem := ⟨a.pack, .tcp⟩
    if e.wantsAddress ∧ (e.cmd = some .udpRegister ∨ 0 < l.getPackSize) then
      l.packPop.map fun next => (a, true, next.2)
    else some (a, false, l)

def startDealCmd (s : Desk) (temaddr : Addr) (tmp : Option Int) (now : Int) (junk : Buf) : Desk :=
  match s.packPop with
  | none => { s with cmd := s.cmd.fail .emptyPop }
  | some (a, two, l) =>
    { s with
      cmd := s.cmd.setWriteSocketFdFlag ⟨a.pack, if two then some temaddr else none, tmp, now, junk⟩
      mPackList := l }

def step (s : Desk) : Ev → Option Desk
  | .epollRead sockfd pack =>
    match s.ids.find? sockfd with
    | none => none
    | some id =>
      if Proto.headSize ≤ Proto.length pack ∧ Proto.length pack ≤ Proto.packSize then
        some { s with mPackList := s.mPackList.packPush ⟨id, pack⟩ }
      else none
  | .startDealCmd temaddr tmp now junk =>
    if s.cmd.fault = none ∧ 0 < s.mPackList.getPackSize then some (s.startDealCmd temaddr tmp now junk) else none
  | .users (.packet _) => none
  | .users (.login junk socket userId now) =>
    match s.cmd.step (.login junk socket userId now) with
    | none => none
    | some c => some { s with cmd := c, ids := s.ids.set socket userId }
  | .users e =>
    match s.cmd.step e with
    | none => none
    | some c => some { s with cmd := c }

/-- Each user gets nothing, or one packet with `id` in its sender's field, as far as that
    is there. -/
def SentBy (id : Int) (c c' : Cmd) : Prop :=
  ∀ k u u', c.mMap.find? k = some (some u) → c'.mMap.find? k = some (some u') →
    u'.mSend.buffered = u.mSend.buffered ∨
      ∃ pack, u'.mSend.buffered = u.mSend.buffered ++ pack ∧ (pack.drop Proto.peerOff).take 4 <+: toLe 4 id

def OnlyOf (id : Int) (c c' : Cmd) : Prop := ∀ k ≠ id, c'.mMap.find? k = c.mMap.find? k

/-- The packet handled is `who`'s: relayed, it carries his id; of one of the `kinds`, it
    changes no one else. -/
def From (who : Arrival → Int) (kinds : List CmdId) (s : Desk) : Ev → Prop
  | .startDealCmd temaddr tmp now junk => ∀ a two l, s.packPop = some (a, two, l) →
      (Relayable a.pack → SentBy (who a) s.cmd (s.startDealCmd temaddr tmp now junk).cmd) ∧
      (∀ kind ∈ kinds, CmdId.ofCode (Proto.cmdId a.pack) = some kind →
        OnlyOf (who a) s.cmd (s.startDealCmd temaddr tmp now junk).cmd)
  | _ => True

def Honest (s : Desk) : Ev → Prop
  | .epollRead sockfd pack => s.ids.find? sockfd = some (Proto.userId pack)
  | _ => True

end Desk

/-! ## What a packet does to one user -/

namespace Cmd

/-- A lookup leaves everyone there, and changes only the one looked up. -/
theorem withUser_user {c : Cmd} {id k : Int} {f : User → Except Fault User} {u : User}
    (hu : c.mMap.find? k = some (some u)) :
    ∃ u', (c.withUser id f).mMap.find? k = some (some u') ∧ (u' = u ∨ k = id ∧ f u = .ok u') := by
  unfold withUser
  split
  · rename_i hnone
    refine ⟨u, ?_, Or.inl rfl⟩
    dsimp only
    have hne : k ≠ id := fun h => by rw [h, hnone] at hu; cases hu
    rw [StdMap.find?_insertNew, if_neg hne, hu]
  · exact ⟨u, hu, Or.inl rfl⟩
  · rename_i v hv
    split
    · rename_i v' hv'
      dsimp only
      rw [StdMap.find?_set]
      by_cases hk : k = id
      · subst hk
        obtain rfl := Option.some.inj (Option.some.inj (hu.symm.trans hv))
        exact ⟨v', if_pos rfl, Or.inr ⟨rfl, hv'⟩⟩
      · exact ⟨u, by rw [if_neg hk]; exact hu, Or.inl rfl⟩
    · exact ⟨u, hu, Or.inl rfl⟩

theorem withUser_other {c : Cmd} {id k : Int} {f : User → Except Fault User} (hk : k ≠ id) :
    (c.withUser id f).mMap.find? k = c.mMap.find? k := by
  unfold withUser
  split
  · dsimp only
    rw [StdMap.find?_insertNew, if_neg hk]
  · rfl
  · split
    · dsimp only
      rw [StdMap.find?_set, if_neg hk]
    · rfl

/-- The loop over the users gives each the packet at most once. -/
theorem foldl_user {pack : Buf} (l : List (Int × Option User)) {c : Cmd} (hnodup : (l.map Prod.fst).Nodup) {k : Int}
    {u : User} (hu : c.mMap.find? k = some (some u)) :
    ∃ u', (l.foldl (fun c e => c.andThen fun c => c.withUser e.1 (User.enqueue · pack)) c).mMap.find? k =
        some (some u') ∧ (u' = u ∨ k ∈ l.map Prod.fst ∧ u.enqueue pack = .ok u') := by
  induction l generalizing c u with
  | nil => exact ⟨u, hu, Or.inl rfl⟩
  | cons e l ih =>
    obtain ⟨hnot, hnodup⟩ := List.nodup_cons.mp hnodup
    obtain ⟨v, hv, hcase⟩ : ∃ v, (c.andThen fun c => c.withUser e.1 (User.enqueue · pack)).mMap.find? k =
        some (some v) ∧ (v = u ∨ k = e.1 ∧ u.enqueue pack = .ok v) := by
      unfold andThen
      split
      · exact withUser_user hu
      · exact ⟨u, hu, Or.inl rfl⟩
    obtain ⟨u', hu', hcase'⟩ := ih hnodup hv
    refine ⟨u', hu', ?_⟩
    rw [List.map_cons, List.mem_cons]
    rcases hcase with rfl | ⟨hk, hgot⟩
    · rcases hcase' with rfl | ⟨hmem, hgot⟩
      · exact Or.inl rfl
      · exact Or.inr ⟨Or.inr hmem, hgot⟩
    · -- he had it already, so the rest of the loop passes him by
      rcases hcase' with rfl | ⟨hmem, -⟩
      · exact Or.inr ⟨Or.inl hk, hgot⟩
      · exact absurd (hk ▸ hmem) hnot

/-- Of a packet that is relayed, a user gets nothing or one copy. -/
theorem setWriteSocketFdFlag_user {c : Cmd} {p : Packet} (hr : Relayable p.pack) {k : Int} {u : User}
    (hu : c.mMap.find? k = some (some u)) :
    ∃ u', (c.setWriteSocketFdFlag p).mMap.find? k = some (some u') ∧ (u' = u ∨ u.enqueue p.pack = .ok u') := by
  have hone : ∃ u', (c.relay p).mMap.find? k = some (some u') ∧ (u' = u ∨ u.enqueue p.pack = .ok u') := by
    obtain ⟨u', hu', hcase⟩ := @withUser_user c (Proto.peerId p.pack) k (User.enqueue · p.pack) u hu
    exact ⟨u', hu', hcase.imp_right And.right⟩
  have hall : ∃ u', (c.sendToOthers p).mMap.find? k = some (some u') ∧ (u' = u ∨ u.enqueue p.pack = .ok u') := by
    obtain ⟨u', hu', hcase⟩ := @foldl_user p.pack c.mMap.ascending c c.mMap.ascending_keys_nodup k u hu
    exact ⟨u', hu', hcase.imp_right And.right⟩
  obtain ⟨kind, hmem, hkind, -⟩ := hr
  unfold setWriteSocketFdFlag
  rw [hkind]
  simp only [List.mem_cons, List.not_mem_nil, or_false] at hmem
  rcases hmem with rfl | rfl | rfl | rfl | rfl
  · exact hone
  · exact hall
  · exact hone
  · exact hone
  · exact hone

end Cmd

namespace Desk

/-- A copy of a relayed packet has the id of its header in the sender's field. -/
theorem setWriteSocketFdFlag_sentBy {c : Cmd} {p : Packet} (hr : Relayable p.pack) :
    SentBy (Proto.userId p.pack) c (c.setWriteSocketFdFlag p) := by
  intro k u u' hu hu'
  obtain ⟨v, hv, hcase⟩ := Cmd.setWriteSocketFdFlag_user hr hu
  obtain rfl := Option.some.inj (Option.some.inj (hu'.symm.trans hv))
  rcases hcase with rfl | hgot
  · exact Or.inl rfl
  · refine Or.inr ⟨_, (User.enqueue_cases hgot).2, ?_⟩
    obtain ⟨kind, -, hkind, hzero⟩ := hr
    rw [rewritten_eq_relayed]
    · have hlen : (toLe 4 (Proto.userId p.pack)).length = 4 := toLe_length _ _
      have := Mem.written_prefix p.pack Proto.peerOff (Proto.length p.pack).toNat (toLe 4 (Proto.userId p.pack))
      rwa [hlen] at this
    · intro hbad
      rw [hbad.1, CmdId.ofCode_code] at hkind
      exact hzero (Option.some.inj hkind).symm hbad.2

theorem heartbeat_onlyOf {c : Cmd} {p : Packet} (h : CmdId.ofCode (Proto.cmdId p.pack) = some .heartbeat) :
    OnlyOf (Proto.userId p.pack) c (c.setWriteSocketFdFlag p) := by
  intro k hk
  unfold Cmd.setWriteSocketFdFlag
  rw [h]
  exact Cmd.withUser_other hk

theorem from_header (s : Desk) (e : Ev) : From (fun a => Proto.userId a.pack) [.heartbeat] s e := by
  cases e with
  | startDealCmd temaddr tmp now junk =>
    intro a two l hpop
    unfold startDealCmd
    rw [hpop]
    dsimp only
    refine ⟨?_, ?_⟩
    · intro hr
      exact @setWriteSocketFdFlag_sentBy s.cmd ⟨a.pack, if two then some temaddr else none, tmp, now, junk⟩ hr
    · intro kind hkind h
      obtain rfl := List.mem_singleton.mp hkind
      exact @heartbeat_onlyOf s.cmd ⟨a.pack, if two then some temaddr else none, tmp, now, junk⟩ h
  | epollRead sockfd pack => trivial
  | users e => trivial

/-! ## Runs -/

def Own (s : Desk) : Prop := ∀ a ∈ s.mPackList.package.list, Proto.userId a.pack = a.sender

theorem packPop_mem {s : Desk} {a : Arrival} {two : Bool} {l : CList Arrival} (h : s.packPop = some (a, two, l)) :
    a ∈ s.mPackList.package.list ∧ ∀ b ∈ l.package.list, b ∈ s.mPackList.package.list := by
  unfold packPop at h
  split at h
  · cases h
  · rename_i b l₁ hfirst
    obtain ⟨hmem, hrest⟩ := CList.mem_of_packPop hfirst
    dsimp only at h
    split at h
    · obtain ⟨⟨b', l₂⟩, hsecond, heq⟩ := Option.map_eq_some_iff.mp h
      cases heq
      exact ⟨hmem, fun q hq => hrest q ((CList.mem_of_packPop hsecond).2 q hq)⟩
    · cases h
      exact ⟨hmem, hrest⟩

theorem step_own {s s' : Desk} {e : Ev} (hi : Own s) (hh : Honest s e) (h : s.step e = some s') : Own s' := by
  cases e with
  | epollRead sockfd pack =>
    simp only [step] at h
    split at h
    · cases h
    · rename_i id hid
      split at h
      · obtain rfl := Option.some.inj h
        intro a ha
        rcases List.mem_append.mp ha with hold | hnew
        · exact hi a hold
        · obtain rfl := List.mem_singleton.mp hnew
          exact (Option.some.inj (hid.symm.trans hh)).symm
      · cases h
  | startDealCmd temaddr tmp now junk =>
    simp only [step] at h
    split at h
    · obtain rfl := Option.some.inj h
      unfold startDealCmd
      split
      · exact hi
      · rename_i a two l hpop
        exact fun b hb => hi b ((packPop_mem hpop).2 b hb)
    · cases h
  | users e =>
    cases e with
    | packet p => cases h
    | _ =>
      simp only [step] at h
      split at h
      · cases h
      · obtain rfl := Option.some.inj h
        exact hi

theorem from_sender {s : Desk} {e : Ev} (hi : Own s) : From Arrival.sender [.heartbeat] s e := by
  have hfrom := from_header s e
  cases e with
  | startDealCmd temaddr tmp now junk =>
    intro a two l hpop
    rw [← hi a (packPop_mem hpop).1]
    exact hfrom a two l hpop
  | epollRead sockfd pack => trivial
  | users e => trivial

/-- Over any logins, removals and packets: what is relayed carries the id in its header,
    and a heartbeat counts for the user named there; while every client writes its own id,
    that is the id the server gave it. -/
theorem from_the_header (junk : BitVec 32) (es : List Ev) :
    Along step (From (fun a => Proto.userId a.pack) [.heartbeat]) (init junk) es ∧
      (Along step Honest (init junk) es → Along step (From Arrival.sender [.heartbeat]) (init junk) es) := by
  have hinit : Own (init junk) := fun a ha => absurd ha List.not_mem_nil
  refine ⟨?_, ?_⟩
  · have hall : Always step (fun _ => True) (init junk) es := always_of_inv (fun _ _ _ _ _ => trivial) trivial
    exact hall.along fun s e _ _ _ => from_header s e
  · intro hh
    exact along_of_steps (fun s e s' hi hc hs => ⟨step_own hi hc hs, from_sender hi⟩) hinit hh

def forged : Buf := (Cmd.message .sendToOne 3 2).pack

/-- What user 1 writes to user 2 as user 3 reaches him as from user 3. -/
theorem in_anothers_name :
    ¬ Along step (From Arrival.sender [.heartbeat, .quit]) (init 0)
      [.users (.login (fun _ => 0) 5 1 0), .users (.login (fun _ => 0) 6 2 0), .epollRead 5 forged,
        .startDealCmd 0 none 0 (fun _ => 0)] := by
  intro h
  let s₁ : Desk := ⟨Traffic.twoUsers, ((∅ : StdMap Int Int).set 5 1).set 6 2, .new 0⟩
  let s₂ : Desk := { s₁ with mPackList := s₁.mPackList.packPush ⟨1, forged⟩ }
  have h₃ : s₁.step (.epollRead 5 forged) = some s₂ := by
    have hid : s₁.ids.find? 5 = some 1 := rfl
    simp only [step, hid]
    exact if_pos (by decide +kernel)
  have h₄ : s₂.step (.startDealCmd 0 none 0 fun _ => 0) = some (s₂.startDealCmd 0 none 0 fun _ => 0) := by
    simp only [step]
    exact if_pos ⟨rfl, by decide⟩
  have hfrom := ((((h _ rfl).2 _ rfl).2 _ h₃).2 _ h₄).1
  obtain ⟨l, hfront, -⟩ := CList.packPop_of_cons (show s₂.mPackList.package.list = ⟨1, forged⟩ :: [] from rfl)
  have hpop : s₂.packPop = some (⟨1, forged⟩, false, l) := by
    simp only [packPop, hfront]
    exact if_neg fun h => absurd h.1 (by decide +kernel)
  have hsent := (hfrom _ _ _ hpop).1 (by decide +kernel)
  -- what user 2 has got
  let field (u : User) : List UInt8 := (u.mSend.buffered.drop Proto.peerOff).take 4
  have hgot : ((s₂.startDealCmd 0 none 0 fun _ => 0).cmd.mMap.find? 2).join.map field = some (toLe 4 3) := by
    decide +kernel
  obtain ⟨u', hu', hfield⟩ := Option.map_eq_some_iff.mp hgot
  rcases hsent 2 _ u' rfl (Option.join_eq_some_iff.mp hu') with hnone | ⟨pack, hpack, hprefix⟩
  · simp only [field] at hfield
    rw [hnone] at hfield
    revert hfield
    decide +kernel
  · have hempty : (User.new (fun _ => 0) 6 2 0).mSend.buffered = [] := rfl
    simp only [field] at hfield
    rw [hpack, hempty, List.nil_append] at hfield
    rw [hfield] at hprefix
    revert hprefix
    decide +kernel

end Desk

end GroupeChat.ChatServer
