/-
  GroupeChat.ChatServer.Quit — a user who leaves with a QUIT packet: the packet's case in
  `CCmd::setWriteSocketFdFlag`, then a pass of the I/O thread over its users, then the
  command thread's timed sweep.

  The case goes through `tmp`, which it does not set: it flags whoever `tmp` leads to, if
  it leads anywhere. The I/O thread takes a flagged user out of its table, the sweep closes
  the socket and frees the user; both go on with an iterator whose entry they have erased.

  `never_quits`: whatever the users, what was done to them before and where `tmp` points,
  the user who sent the packet is not removed. For nobody is whenever all of it is defined
  (`nobody_leaves`); and where `tmp` happens to point to the packet, the pass is not
  (`tmp_at_the_packet`). The simplest case is a user alone whose QUIT finds `tmp` pointing
  nowhere (`the_only_user_quits`).
-/

import GroupeChat.ChatServer.Cmd
import GroupeChat.TableSweeps

namespace GroupeChat.ChatServer

open Base MapSweep

structure Residents where
  heap : Heap
  /-- `CCmd::m_map`, by id. -/
  mMap : StdMap Int Nat
  /-- `CIo::m_map`, by socket. -/
  ioMap : StdMap Int Nat

def Heap.setFlag1 (h : Heap) (n : Nat) : Heap :=
  { h with users := fun i => if i = n then { h.users n with deleteFlag1 := true } else h.users i }

/-- `m_map[tmp->head.userId]->deleteFlag1 = true`. -/
def Residents.quit (s : Residents) (p : Packet) : Except Stop Residents :=
  match p.tmp.bind s.mMap.find? with
  | some n => .ok { s with heap := s.heap.setFlag1 n }
  | none => .error .undefined

/-- A user in both tables, and the packet he sends. -/
structure Departure where
  server : Residents
  userId : Int
  user : Nat
  known : server.mMap.find? userId = some user
  connected : server.ioMap.find? (server.heap.users user).mSocket = some user
  packet : Packet
  cmdId : Proto.cmdId packet.pack = CmdId.quit.code
  sender : Proto.userId packet.pack = userId

structure Remaining where
  heap : Heap
  mMap : List (Int × Nat)
  ioMap : List (Int × Nat)

namespace Departure

def socket (d : Departure) : Int := (d.server.heap.users d.user).mSocket

def after (d : Departure) : Except Stop Remaining := do
  let s ← d.server.quit d.packet
  let io ← sweep ioMapBody s.heap s.ioMap
  let cmd ← sweep cmdMapBody io.env s.mMap
  pure ⟨cmd.env, cmd.entries, io.entries⟩

/-- The sender is out of both tables, closed and deleted once, and no one else is touched. -/
structure Removed (d : Departure) (r : Remaining) : Prop where
  mMap : r.mMap = d.server.mMap.toList.filter fun e => e.1 ≠ d.userId
  ioMap : r.ioMap = d.server.ioMap.toList.filter fun e => e.1 ≠ d.socket
  closed : r.heap.closed = d.server.heap.closed ++ [d.socket]
  deleted : r.heap.deleted = d.server.heap.deleted ++ [d.user]
  others : ∀ n, n ≠ d.user → r.heap.users n = d.server.heap.users n

def Quits (d : Departure) : Prop := ∃ r, d.after = .ok r ∧ Removed d r

/-! ## The case in dispatch -/

def Shows (s : Residents) (c : Cmd) : Prop :=
  ∀ id, c.mMap.find? id = (s.mMap.find? id).map fun n => some (s.heap.users n)

/-- The case does to the users what it does in `Cmd`. -/
theorem quit_shows {s : Residents} {c : Cmd} {p : Packet} (h : Shows s c) (hc : c.fault = none)
    (honce : ∀ id id' n, s.mMap.find? id = some n → s.mMap.find? id' = some n → id = id') :
    (∀ s', s.quit p = .ok s' → (c.quit p).fault = none ∧ Shows s' (c.quit p)) ∧
      (s.quit p = .error .undefined → (c.quit p).fault ≠ none) := by
  unfold Residents.quit Cmd.quit
  cases htmp : p.tmp with
  | none => exact ⟨nofun, fun _ => nofun⟩
  | some id =>
    simp only [Option.bind_some]
    cases hn : s.mMap.find? id with
    | none =>
      have hnone : c.mMap.find? id = none := by rw [h id, hn, Option.map_none]
      refine ⟨nofun, fun _ => ?_⟩
      unfold Cmd.withUser
      rw [hnone]
      nofun
    | some n =>
      have hsome : c.mMap.find? id = some (some (s.heap.users n)) := by rw [h id, hn, Option.map_some]
      have hwith : c.withUser id (fun u => .ok { u with deleteFlag1 := true }) =
          { c with mMap := c.mMap.set id (some { s.heap.users n with deleteFlag1 := true }) } := by
        unfold Cmd.withUser
        rw [hsome]
      rw [hwith]
      refine ⟨fun s' hs' => ⟨hc, fun id' => ?_⟩, nofun⟩
      obtain rfl := Except.ok.inj hs'
      dsimp only
      rw [StdMap.find?_set]
      by_cases hid : id' = id
      · simp [hid, hn, Heap.setFlag1]
      · rw [if_neg hid, h id']
        cases hn' : s.mMap.find? id' with
        | none => rfl
        | some n' =>
          have hne : n' ≠ n := fun heq => hid (honce id' id n (by rw [hn', heq]) hn)
          simp [Heap.setFlag1, hne]

theorem quit_mMap {s s' : Residents} {p : Packet} (h : s.quit p = .ok s') :
    s'.mMap = s.mMap ∧ s'.ioMap = s.ioMap ∧ ∃ n, s'.heap = s.heap.setFlag1 n := by
  unfold Residents.quit at h
  split at h
  · obtain rfl := Except.ok.inj h
    exact ⟨rfl, rfl, _, rfl⟩
  · cases h

/-! ## The pass and the sweep -/

/-- A sweep that comes to its end has kept every entry. -/
theorem sweep_keeps {σ ν : Type} {body : Body σ Int ν} {remove : σ → Int × ν → Bool} {env : σ} {m : StdMap Int ν}
    {s : MapSweep σ Int ν} (hb : Acts body remove id) (h : sweep body env m = .ok s) : s.entries = m.toList := by
  by_cases hrem : ∃ e ∈ m.toList, remove env e = true
  · have hundef : sweep body env m = .error .undefined := loop_removes hb (start_before env m) hrem
    rw [hundef] at h
    cases h
  · have hkeep : ∀ e ∈ m.toList, remove env e = false := by
      intro e he
      by_contra hv
      exact hrem ⟨e, he, Bool.of_not_eq_false hv⟩
    have hkept : sweep body env m = .ok _ := loop_kept hb (start_before env m) hkeep
    obtain rfl := Except.ok.inj (hkept.symm.trans h)
    simp

theorem nobody_leaves {d : Departure} {r : Remaining} (h : d.after = .ok r) :
    r.mMap = d.server.mMap.toList ∧ r.ioMap = d.server.ioMap.toList := by
  unfold after at h
  cases hquit : d.server.quit d.packet with
  | error e =>
    rw [hquit] at h
    cases h
  | ok s =>
    obtain ⟨hmap, hio, -⟩ := quit_mMap hquit
    rw [hquit] at h
    cases hpass : sweep ioMapBody s.heap s.ioMap with
    | error e =>
      simp only [bind, Except.bind, hpass] at h
      cases h
    | ok io =>
      cases hsweep : sweep cmdMapBody io.env s.mMap with
      | error e =>
        simp only [bind, Except.bind, hpass, hsweep] at h
        cases h
      | ok cmd =>
        simp only [bind, Except.bind, hpass, hsweep] at h
        obtain rfl := Except.ok.inj h
        exact ⟨(sweep_keeps cmdMapBody_acts hsweep).trans (by rw [hmap]),
          (sweep_keeps ioMapBody_acts hpass).trans (by rw [hio])⟩

/-- The sender is flagged, and the pass meets him. -/
theorem tmp_at_the_packet {d : Departure} (h : d.packet.tmp = some d.userId) : d.after = .error .undefined := by
  have hquit : d.server.quit d.packet = .ok { d.server with heap := d.server.heap.setFlag1 d.user } := by
    unfold Residents.quit
    rw [h, Option.bind_some, d.known]
  have hflagged : ∃ e ∈ d.server.ioMap.toList, oneFlag (d.server.heap.setFlag1 d.user) e = true := by
    refine ⟨_, StdMap.mem_toList.mpr d.connected, ?_⟩
    simp [oneFlag, Heap.setFlag1]
  have hpass : sweep ioMapBody (d.server.heap.setFlag1 d.user) d.server.ioMap = .error .undefined :=
    loop_removes ioMapBody_acts (start_before _ _) hflagged
  unfold after
  simp only [bind, Except.bind, hquit, hpass]

/-- Someone has to leave for the property to hold. -/
theorem Removed.leaves {d : Departure} {r : Remaining} (h : Removed d r) : r.mMap ≠ d.server.mMap.toList := by
  intro hall
  have hmem := StdMap.mem_toList.mpr d.known
  rw [← hall, h.mMap, List.mem_filter] at hmem
  simp at hmem

theorem never_quits (d : Departure) : ¬ d.Quits := by
  rintro ⟨r, hafter, hremoved⟩
  exact hremoved.leaves (nobody_leaves hafter).1

def onlyUser : Departure where
  server :=
    { heap := ⟨fun _ => .new (fun _ => 0) 5 1 0, [], []⟩
      mMap := StdMap.set ∅ 1 0
      ioMap := StdMap.set ∅ 5 0 }
  userId := 1
  user := 0
  known := by decide
  connected := by decide
  packet :=
    { pack := Mem.ofList 0 (Proto.headBytes CmdId.quit.code 1 Proto.headSize 1)
      temaddr := none
      tmp := none
      now := 0
      junk := fun _ => 0 }
  cmdId := by decide
  sender := by decide

theorem the_only_user_quits : ¬ onlyUser.Quits := by
  rintro ⟨r, hafter, -⟩
  have hwild : onlyUser.after = .error .undefined := rfl
  rw [hwild] at hafter
  cases hafter

end Departure

end GroupeChat.ChatServer
