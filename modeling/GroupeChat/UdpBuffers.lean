/-
  GroupeChat.UdpBuffers — how long the buffers are that go out by UDP.

  The client's `Startudpsend` and the server's `startUdpSendFunc` pop a buffer and give
  `sendto` 1436 bytes of it, whoever pushed it. At the client `udpSendRegister`,
  `udpSendFile` and the answers to a UDPRESEND allocate as many, at the server `m_udpcopy`
  and its answers do. The loss reports of `StartWriteFile` and the server's packet for the
  numbers it has not cached are 220 bytes long.

  `UdpLists` is a client and a server, step by step in any order, with the sizes of all
  they have pushed; a step that the program does not survive is none. `Full` holds all
  along exactly the runs in which no reporting pass finds a number missing and no
  UDPRESEND asks for one that is not cached (`full_iff_none_lost`). A chunk that comes
  before the first is enough to break it (`a_report_of_one_number`).
-/

import GroupeChat.ChatClient.LossReports
import GroupeChat.ChatClient.Transfers
import GroupeChat.ChatServer.KnownUsers

namespace GroupeChat

open Base

/-! ## What the client pushes -/

namespace ChatClient.Client

def reportSize : Nat := 220

/-- The packet of `udpSendRegister`, in a buffer that `get_send` has given. -/
def register (s : Client) (junk : Buf) : Buf :=
  ((((junk.strcpy (Proto.peerOff + 4) ['Y'.toUInt8]).putInt 4 12 1).putInt 4 0 CmdId.udpRegister.code).putInt 4 4
    s.userId).putInt 4 8 Proto.packSize

def udpSendRegister (s : Client) (junk : Buf) : Client := { s with mWriteList := s.mWriteList ++ [s.register junk] }

def report (s : Client) (junk : Nat → Buf) : Client :=
  let pass := LossPass.pass s.mUdpMap s.userId junk
  { s with mWriteList := s.mWriteList ++ pass.pushed.map fun n => (pass.reports n).buf }

inductive Ev where
  | udpSendRegister (junk : Buf)
  | chooseFile (filename : List UInt8) (sayToClientId : Int)
  | fileRet (content : List UInt8)
  | startSendFile (junk : Buf) (now : Int)
  | evict (count now : Int)
  | resend (pack : Buf)
  | recvFileDecide (c : UInt8) (there : List UInt8)
  | dealWithUdpSendFile (pack : Buf)
  | report (junk : Nat → Buf)

def next (s : Client) : Ev → Option Client
  | .udpSendRegister junk => some (s.udpSendRegister junk)
  | .chooseFile filename sayToClientId => some (s.chooseFile filename sayToClientId)
  | .fileRet content => some (s.fileRet content)
  | .startSendFile junk now => s.startSendFile junk now
  | .evict count now => s.evict count now
  | .resend pack => some (s.resend pack)
  | .recvFileDecide c there => some (s.recvFileDecide c there)
  | .dealWithUdpSendFile pack => some (s.dealWithUdpSendFile pack)
  | .report junk => some (s.report junk)

def Ev.size : Ev → Nat
  | .report _ => reportSize
  | _ => Proto.packSize

def pushes (s s' : Client) (e : Ev) : List Nat := List.replicate (s'.mWriteList.length - s.mWriteList.length) e.size

end ChatClient.Client

/-! ## What the server pushes -/

namespace ChatServer.Cmd

def resendLoop (c : Cmd) (p : Packet) (n : Nat) : Resend := (List.range n).foldl (Resend.next p) ⟨c, p.junk, 0⟩

def pushes (c : Cmd) (p : Packet) : List Nat :=
  match CmdId.ofCode (Proto.cmdId p.pack) with
  | some .udpSendFile => [Proto.packSize]
  | some .udpResend =>
    let r := c.resendLoop p (Proto.num p.pack).toNat
    List.replicate (r.cmd.answers.length - c.answers.length) Proto.packSize ++ if r.num = 0 then [] else [resendSize]
  | _ => []

end ChatServer.Cmd

structure UdpLists where
  client : ChatClient.Client
  server : ChatServer.Cmd
  /-- The sizes of the buffers pushed on `m_writeList`. -/
  writeList : List Nat
  /-- Those of the buffers pushed on the users' `m_udpSendList`s. -/
  udpSendList : List Nat

namespace UdpLists

inductive Ev where
  | client (e : ChatClient.Client.Ev)
  | server (e : ChatServer.Cmd.Ev)

/-- Both programs as they start. -/
def init (userId sendFileToClientId fileSize : Int) (filename : List UInt8) : UdpLists :=
  ⟨.new userId sendFileToClientId fileSize filename, .init, [], []⟩

def clientStep (s : UdpLists) (e : ChatClient.Client.Ev) : Option UdpLists :=
  if s.client.faulted = true then none
  else (s.client.next e).map fun client =>
    { s with client := client, writeList := s.writeList ++ s.client.pushes client e }

def serverStep (s : UdpLists) (e : ChatServer.Cmd.Ev) : Option UdpLists :=
  (s.server.step e).bind fun server =>
    if server.fault = none then
      some { s with
        server := server
        udpSendList := s.udpSendList ++ match e with
          | .packet p => s.server.pushes p
          | _ => [] }
    else none

def step (s : UdpLists) : Ev → Option UdpLists
  | .client e => s.clientStep e
  | .server e => s.serverStep e

/-- What `sendto` reads is there. -/
def Full (s : UdpLists) : Prop :=
  (∀ n ∈ s.writeList, Proto.packSize ≤ n) ∧ ∀ n ∈ s.udpSendList, Proto.packSize ≤ n

instance : DecidablePred Full := fun s =>
  inferInstanceAs (Decidable ((∀ n ∈ s.writeList, Proto.packSize ≤ n) ∧ ∀ n ∈ s.udpSendList, Proto.packSize ≤ n))

/-- A reporting pass finds nothing missing, and a UDPRESEND asks for what is cached. -/
def NoneLost (s : UdpLists) : Ev → Prop
  | .client (.report _) => s.client.mUdpMap.toList = []
  | .server (.packet p) => CmdId.ofCode (Proto.cmdId p.pack) = some .udpResend →
      s.server.misses (ChatServer.Cmd.asked p) = []
  | _ => True

end UdpLists

/-! ## A step of the client -/

namespace ChatClient.Client

theorem pushes_of_size {s s' : Client} {e : Ev} (he : e.size = Proto.packSize) :
    ∀ n ∈ s.pushes s' e, Proto.packSize ≤ n := by
  intro n hn
  rw [pushes, he] at hn
  rw [List.eq_of_mem_replicate hn]

/-- A pass pushes nothing only where nothing is missing. -/
theorem pushes_report (s : Client) (junk : Nat → Buf) :
    (∀ n ∈ s.pushes (s.report junk) (.report junk), Proto.packSize ≤ n) ↔ s.mUdpMap.toList = [] := by
  have hlen : (s.report junk).mWriteList.length - s.mWriteList.length = (s.mUdpMap.toList.length + 9) / 10 := by
    simp only [report, List.length_append, List.length_map, LossPass.pass_pushed]
    omega
  unfold pushes
  rw [hlen, ← List.length_eq_zero_iff]
  refine ⟨?_, ?_⟩
  · intro h
    by_contra hne
    have hmem : reportSize ∈ List.replicate ((s.mUdpMap.toList.length + 9) / 10) reportSize :=
      List.mem_replicate.mpr ⟨by omega, rfl⟩
    exact absurd (h _ hmem) (by decide)
  · intro h n hn
    rw [h] at hn
    cases hn

end ChatClient.Client

/-! ## A step of the server -/

namespace ChatServer.Cmd

theorem resendLoop_succ (c : Cmd) (p : Packet) (n : Nat) :
    c.resendLoop p (n + 1) = Resend.next p (c.resendLoop p n) n := by
  rw [resendLoop, List.range_succ, List.foldl_append]
  rfl

theorem resendLoop_cache (c : Cmd) (p : Packet) (n : Nat) : (c.resendLoop p n).cmd.mUdpLoseMap = c.mUdpLoseMap :=
  Resend.foldl_cache p _ _

/-- A round that ends without a fault has put its number into the packet if it is not
    cached. -/
theorem Resend.next_num {p : Packet} {r : Resend} {i : Nat} (h : (Resend.next p r i).cmd.fault = none) :
    r.cmd.fault = none ∧
      (Resend.next p r i).num = r.num + if r.cmd.mUdpLoseMap.find? (Proto.loseNum p.pack i) = none then 1 else 0 := by
  unfold Resend.next at h ⊢
  by_cases hf : r.cmd.fault = none
  · rw [if_neg (not_not.mpr hf)] at h ⊢
    refine ⟨hf, ?_⟩
    split at h
    · cases h
    · rename_i hroom
      rw [if_neg hroom]
      dsimp only at h ⊢
      cases hfind : r.cmd.mUdpLoseMap.find? (Proto.loseNum p.pack i) with
      | some cached => rfl
      | none =>
        rw [hfind] at h
        dsimp only [collect] at h ⊢
        split at h
        · cases h
        · rename_i hfits
          rw [if_neg hfits]
          rfl
  · rw [if_pos hf] at h
    exact absurd h hf

/-- So all that are not cached are in it at the end. -/
theorem resendLoop_num {c : Cmd} {p : Packet} {n : Nat} (h : (c.resendLoop p n).cmd.fault = none) :
    (c.resendLoop p n).num = (c.misses ((List.range n).map (Proto.loseNum p.pack))).length := by
  induction n with
  | zero => rfl
  | succ n ih =>
    rw [resendLoop_succ] at h ⊢
    obtain ⟨hf, hnum⟩ := Resend.next_num h
    rw [resendLoop_cache] at hnum
    rw [hnum, ih hf, List.range_succ, List.map_append, misses, misses, List.filter_append, List.length_append]
    congr 1
    cases hfind : c.mUdpLoseMap.find? (Proto.loseNum p.pack n) with
    | none => simp [hfind]
    | some cached => simp [hfind]

theorem resendLoop_fault {c : Cmd} {p : Packet} (h : (c.udpResend p).fault = none) :
    (c.resendLoop p (Proto.num p.pack).toNat).cmd.fault = none := by
  unfold udpResend at h
  unfold resendLoop
  dsimp only at h
  generalize (List.range (Proto.num p.pack).toNat).foldl (Resend.next p) ⟨c, p.junk, 0⟩ = r at h ⊢
  split at h
  · exact h
  · unfold andThen at h
    split at h
    · assumption
    · exact h

/-- Only the packet for the numbers that are not cached is short. -/
theorem pushes_full_iff {c : Cmd} {p : Packet} (h : (c.setWriteSocketFdFlag p).fault = none) :
    (∀ n ∈ c.pushes p, Proto.packSize ≤ n) ↔
      (CmdId.ofCode (Proto.cmdId p.pack) = some .udpResend → c.misses (asked p) = []) := by
  unfold pushes
  cases hcmd : CmdId.ofCode (Proto.cmdId p.pack) with
  | none => simp
  | some k =>
    cases k with
    | udpResend =>
      unfold setWriteSocketFdFlag at h
      rw [hcmd] at h
      have hnum : (c.resendLoop p (Proto.num p.pack).toNat).num = (c.misses (asked p)).length :=
        resendLoop_num (resendLoop_fault h)
      simp only [hnum, List.length_eq_zero_iff, List.mem_append, List.mem_replicate, forall_const]
      refine ⟨?_, ?_⟩
      · intro hall
        by_contra hne
        have := hall resendSize (Or.inr (by rw [if_neg hne]; exact List.mem_singleton_self _))
        exact absurd this (by decide)
      · intro hnone n hn
        rcases hn with hn | hn
        · rw [hn.2]
        · rw [if_pos hnone] at hn
          cases hn
    | udpSendFile => simp
    | _ => simp

end ChatServer.Cmd

/-! ## Runs -/

namespace UdpLists

theorem clientStep_full {s s' : UdpLists} {e : ChatClient.Client.Ev} (hs : Full s) (h : s.clientStep e = some s') :
    Full s' ↔ NoneLost s (.client e) := by
  unfold clientStep at h
  split at h
  · cases h
  · obtain ⟨client, hnext, rfl⟩ := Option.map_eq_some_iff.mp h
    have hpushes : (∀ n ∈ s.client.pushes client e, Proto.packSize ≤ n) ↔ NoneLost s (.client e) := by
      cases e with
      | report junk =>
        obtain rfl := Option.some.inj hnext
        exact s.client.pushes_report junk
      | _ => exact ⟨fun _ => trivial, fun _ => ChatClient.Client.pushes_of_size rfl⟩
    rw [← hpushes]
    simp only [Full, List.mem_append, or_imp, forall_and]
    exact ⟨fun h => h.1.2, fun h => ⟨⟨hs.1, h⟩, hs.2⟩⟩

theorem serverStep_full {s s' : UdpLists} {e : ChatServer.Cmd.Ev} (hs : Full s) (h : s.serverStep e = some s') :
    Full s' ↔ NoneLost s (.server e) := by
  obtain ⟨server, hstep, hlive⟩ := Option.bind_eq_some_iff.mp h
  split at hlive
  · rename_i hfault
    obtain rfl := Option.some.inj hlive
    cases e with
    | packet p =>
      have hserver : server = s.server.setWriteSocketFdFlag p := by
        unfold ChatServer.Cmd.step at hstep
        split at hstep
        · exact (Option.some.inj hstep).symm
        · cases hstep
      rw [hserver] at hfault
      have hpushes := ChatServer.Cmd.pushes_full_iff hfault
      simp only [Full, NoneLost, List.mem_append, or_imp, forall_and]
      rw [← hpushes]
      exact ⟨fun h => h.2.2, fun h => ⟨hs.1, hs.2, h⟩⟩
    | _ => simpa [Full, NoneLost] using hs
  · cases hlive

theorem step_full {s s' : UdpLists} {e : Ev} (hs : Full s) (h : step s e = some s') : Full s' ↔ NoneLost s e := by
  cases e with
  | client e => exact clientStep_full hs h
  | server e => exact serverStep_full hs h

/-- Whatever the two programs do, what they push is as long as what is sent of it exactly
    when nothing that is missing is reported, and nothing asked for is not there. -/
theorem full_iff_none_lost (userId sendFileToClientId fileSize : Int) (filename : List UInt8) (es : List Ev) :
    Always step Full (init userId sendFileToClientId fileSize filename) es ↔
      Along step NoneLost (init userId sendFileToClientId fileSize filename) es :=
  always_iff_along (I := Full) (fun _ h => h) (fun _ _ _ hs h => ⟨(step_full hs h).mpr, (step_full hs h).mp⟩)
    ⟨nofun, nofun⟩

def secondChunk : Buf :=
  (((Mem.putInt 4 (fun _ => 0) 0 CmdId.udpSendFile.code).putInt 4 8 47).putInt 4 Proto.countOff 2).putInt 4
    Proto.filesizeOff 1391

/-- The second chunk of a file comes, and the first is reported. -/
theorem a_report_of_one_number : ¬ Always step Full (init 1 2 0 [])
    [.client (.recvFileDecide 'y'.toUInt8 []), .client (.dealWithUdpSendFile secondChunk),
      .client (.report fun _ _ => 0)] := by
  decide +kernel

end UdpLists

end GroupeChat
