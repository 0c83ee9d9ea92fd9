/-
  GroupeChat.ChatServer.Deletion — the two flags by which I/O thread and command thread
  agree that a user may be deleted.

  The I/O thread is done with a user when it has set both of its flags and erased its
  entry (`deleteloginUser`); the command thread's sweep deletes a user whose flags are
  both set. QUIT sets the first flag from the command thread, so the I/O thread's first
  store, of the second flag, can already complete the pair, and its next store goes to a
  user that may be gone (`deleted_between_the_flags`).

  `Handshake` is both threads statement by statement. `Sound`: the I/O thread has used no
  user after its deletion, and none has been deleted twice. It holds all along the runs
  in which no user is deleted while the I/O thread is between its two stores to him, and,
  where a run leaves the I/O thread outside `deleteloginUser`, only along those
  (`sound_iff_apart`).
-/

import GroupeChat.Base.Run
import GroupeChat.Base.StdMap
import GroupeChat.ChatServer.CmdSend

namespace GroupeChat.ChatServer

open Base

inductive Leaving where
  | out
  /-- `deleteFlag2` is set. -/
  | flag2 (sockfd : Int)
  /-- `deleteFlag1` is set as well. -/
  | flag1 (sockfd : Int)
  deriving DecidableEq

/-- Where the command thread is in its sweep. -/
inductive Sweep where
  | out
  /-- Both flags of the entry were found set. -/
  | found (userId : Int)
  /-- The user is deleted, the entry still there. -/
  | deleted (userId : Int)
  deriving DecidableEq

structure Handshake where
  /-- Every user ever made; a pointer to one is its place here. -/
  users : List User
  /-- The pointers that `delete` was called on. -/
  deleted : List Nat
  /-- `CCmd::m_map`. -/
  mMap : StdMap Int Nat
  /-- `m_userListToIO`. -/
  userListToIO : List Nat
  /-- `CIo::m_map`. -/
  ioMap : StdMap Int Nat
  leaving : Leaving
  sweep : Sweep
  /-- The I/O thread has used a user after its deletion. -/
  strayed : Bool

namespace Handshake

inductive Ev where
  /-- A login is turned into a user. -/
  | promote (junk : Buf) (socket userId now : Int)
  | quit (userId : Int)
  /-- The sweep looks at the flags of an entry. -/
  | test (userId : Int)
  | delete
  | eraseUser
  /-- `vcdPop` and the insert into `CIo::m_map`. -/
  | vcdPop
  /-- Any other statement of the I/O thread on the user of a socket. -/
  | use (sockfd : Int)
  | setFlag2 (sockfd : Int)
  | setFlag1
  | eraseSocket

def init : Handshake := ⟨[], [], ∅, [], ∅, .out, .out, false⟩

def updateUser (s : Handshake) (p : Nat) (f : User → User) : Handshake := { s with users := s.users.modify p f }

def touch (s : Handshake) (p : Nat) : Handshake := { s with strayed := s.strayed || decide (p ∈ s.deleted) }

def Deletable (s : Handshake) (p : Nat) : Prop := ∃ u ∈ s.users[p]?, u.Deleted

instance (s : Handshake) (p : Nat) : Decidable (s.Deletable p) :=
  inferInstanceAs (Decidable (∃ u ∈ s.users[p]?, u.Deleted))

def step (s : Handshake) : Ev → Option Handshake
  | .promote junk socket userId now =>
    if s.sweep = .out then
      some { s with
        users := s.users ++ [.new junk socket userId now]
        mMap := s.mMap.insertNew userId s.users.length
        userListToIO := s.userListToIO ++ [s.users.length] }
    else none
  | .quit userId =>
    match s.sweep, s.mMap.find? userId with
    | .out, some p => some (s.updateUser p fun u => { u with deleteFlag1 := true })
    | _, _ => none
  | .test userId =>
    match s.sweep, s.mMap.find? userId with
    | .out, some p => some (if s.Deletable p then { s with sweep := .found userId } else s)
    | _, _ => none
  | .delete =>
    match s.sweep with
    | .found userId =>
      match s.mMap.find? userId with
      | some p => some { s with deleted := s.deleted ++ [p], sweep := .deleted userId }
      | none => none
    | _ => none
  | .eraseUser =>
    match s.sweep with
    | .deleted userId => some { s with mMap := s.mMap.remove userId, sweep := .out }
    | _ => none
  | .vcdPop =>
    match s.leaving, s.userListToIO with
    | .out, p :: rest =>
      match s.users[p]? with
      | some u => some { s.touch p with userListToIO := rest, ioMap := s.ioMap.insertNew u.mSocket p }
      | none => none
    | _, _ => none
  | .use sockfd =>
    match s.leaving, s.ioMap.find? sockfd with
    | .out, some p => some (s.touch p)
    | _, _ => none
  | .setFlag2 sockfd =>
    match s.leaving, s.ioMap.find? sockfd with
    | .out, some p =>
      some { (s.touch p).updateUser p (fun u => { u with deleteFlag2 := true }) with leaving := .flag2 sockfd }
    | _, _ => none
  | .setFlag1 =>
    match s.leaving with
    | .flag2 sockfd =>
      match s.ioMap.find? sockfd with
      | some p =>
        some { (s.touch p).updateUser p (fun u => { u with deleteFlag1 := true }) with leaving := .flag1 sockfd }
      | none => none
    | _ => none
  | .eraseSocket =>
    match s.leaving with
    | .flag1 sockfd => some { s with ioMap := s.ioMap.remove sockfd, leaving := .out }
    | _ => none

structure Sound (s : Handshake) : Prop where
  strayed : s.strayed = false
  once : s.deleted.Nodup

instance : DecidablePred Sound := fun s =>
  decidable_of_iff (s.strayed = false ∧ s.deleted.Nodup) ⟨fun h => ⟨h.1, h.2⟩, fun h => ⟨h.strayed, h.once⟩⟩

def Between (s : Handshake) (p : Nat) : Prop := ∃ sockfd, s.leaving = .flag2 sockfd ∧ s.ioMap.find? sockfd = some p

/-- The sweep deletes no user whom the I/O thread still has a flag to set. -/
def Apart (s : Handshake) : Ev → Prop
  | .delete => ∀ userId p, s.sweep = .found userId → s.mMap.find? userId = some p → ¬ s.Between p
  | _ => True

/-! ## The second flag -/

def Flagged (users : List User) (p : Nat) : Prop := ∃ u ∈ users[p]?, u.deleteFlag2 = true

theorem Flagged.lt {users : List User} {p : Nat} (h : Flagged users p) : p < users.length := by
  obtain ⟨u, hu, -⟩ := h
  exact (List.getElem?_eq_some_iff.mp hu).1

theorem flagged_flag1 {users : List User} {p q : Nat} :
    Flagged (users.modify p fun u => { u with deleteFlag1 := true }) q ↔ Flagged users q := by
  unfold Flagged
  rw [List.getElem?_modify]
  cases users[q]? with
  | none => simp
  | some u =>
    by_cases h : p = q
    · simp [h]
    · simp [h]

theorem flagged_flag2 {users : List User} {p q : Nat} :
    Flagged (users.modify p fun u => { u with deleteFlag2 := true }) q ↔
      Flagged users q ∨ q = p ∧ q < users.length := by
  unfold Flagged
  rw [List.getElem?_modify]
  by_cases hq : q < users.length
  · rw [List.getElem?_eq_getElem hq]
    by_cases h : p = q
    · simp [h, hq]
    · have hne : q ≠ p := fun heq => h heq.symm
      simp [h, hne]
  · rw [List.getElem?_eq_none (by omega)]
    simp [hq]

theorem flagged_concat {users : List User} {junk : Buf} {socket userId now : Int} {q : Nat} :
    Flagged (users ++ [.new junk socket userId now]) q ↔ Flagged users q := by
  unfold Flagged
  rcases Nat.lt_trichotomy q users.length with hlt | rfl | hgt
  · rw [List.getElem?_append_left hlt]
  · simp [User.new]
  · rw [List.getElem?_eq_none (by simp; omega), List.getElem?_eq_none (by omega)]

/-! ## The invariant -/

/-- Each user is known to the I/O thread in one place, and is one entry of `m_map`. -/
structure Placed (s : Handshake) : Prop where
  listed : s.userListToIO.Nodup
  listed_lt : ∀ p ∈ s.userListToIO, p < s.users.length
  entered : ∀ sockfd p, s.ioMap.find? sockfd = some p → p < s.users.length ∧ p ∉ s.userListToIO
  entered_once : ∀ sockfd sockfd' p, s.ioMap.find? sockfd = some p → s.ioMap.find? sockfd' = some p → sockfd = sockfd'
  held : ∀ userId p, s.mMap.find? userId = some p → p < s.users.length
  held_once : ∀ userId userId' p, s.mMap.find? userId = some p → s.mMap.find? userId' = some p → userId = userId'

/-- A user that has the second flag is known to the I/O thread at most where it is
    deleting him; a deleted user has that flag, and is an entry of `m_map` at most where
    the sweep is. -/
structure Inv (s : Handshake) : Prop where
  placed : Placed s
  sound : Sound s
  flagged : ∀ p, Flagged s.users p → p ∉ s.userListToIO ∧
    ∀ sockfd, s.ioMap.find? sockfd = some p → s.leaving = .flag2 sockfd ∨ s.leaving = .flag1 sockfd
  deleted : ∀ p ∈ s.deleted, Flagged s.users p
  gone : ∀ userId p, s.mMap.find? userId = some p → p ∈ s.deleted → s.sweep = .deleted userId
  found : ∀ userId p, s.sweep = .found userId → s.mMap.find? userId = some p → Flagged s.users p
  between : ∀ p, s.Between p → p ∉ s.deleted

theorem init_inv : Inv init := by
  refine ⟨⟨List.nodup_nil, ?_, ?_, ?_, ?_, ?_⟩, ⟨rfl, List.nodup_nil⟩, ?_, ?_, ?_, ?_, ?_⟩
  · intro p h
    cases h
  · intro sockfd p h
    cases h
  · intro sockfd sockfd' p h
    cases h
  · intro userId p h
    cases h
  · intro userId userId' p h
    cases h
  · intro p h
    exact absurd h.lt (Nat.not_lt_zero _)
  · intro p h
    cases h
  · intro userId p h
    cases h
  · intro userId p h
    cases h
  · intro p h
    obtain ⟨sockfd, h, -⟩ := h
    cases h

/-- Outside `deleteloginUser` every entry is of a user that is still there. -/
theorem Inv.alive {s : Handshake} (hi : Inv s) (h : s.leaving = .out) {sockfd : Int} {p : Nat}
    (hp : s.ioMap.find? sockfd = some p) : ¬ Flagged s.users p ∧ p ∉ s.deleted := by
  have hflag : ¬ Flagged s.users p := by
    intro hflag
    rcases (hi.flagged p hflag).2 sockfd hp with hl | hl
    · rw [h] at hl
      cases hl
    · rw [h] at hl
      cases hl
  exact ⟨hflag, fun hdel => hflag (hi.deleted p hdel)⟩

theorem touch_of_alive {s : Handshake} {p : Nat} (h : p ∉ s.deleted) : s.touch p = s := by
  simp [touch, h]

/-! ## The command thread -/

theorem promote_inv {s : Handshake} {junk : Buf} {socket userId now : Int} (hi : Inv s) (hout : s.sweep = .out) :
    Inv { s with
      users := s.users ++ [.new junk socket userId now]
      mMap := s.mMap.insertNew userId s.users.length
      userListToIO := s.userListToIO ++ [s.users.length] } := by
  have hp := hi.placed
  have hlen : (s.users ++ [User.new junk socket userId now]).length = s.users.length + 1 := by simp
  have hfresh : s.users.length ∉ s.userListToIO := fun h => Nat.lt_irrefl _ (hp.listed_lt _ h)
  have hold : ∀ userId' p, (s.mMap.insertNew userId s.users.length).find? userId' = some p →
      s.mMap.find? userId' = some p ∨ userId' = userId ∧ p = s.users.length := by
    intro userId' p h
    exact StdMap.of_find?_insertNew h
  refine ⟨⟨?_, ?_, ?_, hp.entered_once, ?_, ?_⟩, ⟨hi.sound.strayed, hi.sound.once⟩, ?_, ?_, ?_, ?_, hi.between⟩
  · exact List.nodup_append.mpr ⟨hp.listed, List.nodup_singleton _, fun p h q hq heq => by
      rw [List.mem_singleton.mp hq] at heq
      exact hfresh (heq ▸ h)⟩
  · intro p h
    rw [hlen]
    rcases List.mem_append.mp h with h | h
    · exact Nat.lt_succ_of_lt (hp.listed_lt p h)
    · rw [List.mem_singleton.mp h]
      exact Nat.lt_succ_self _
  · intro sockfd p h
    obtain ⟨hlt, hnot⟩ := hp.entered sockfd p h
    rw [hlen]
    refine ⟨Nat.lt_succ_of_lt hlt, fun hmem => ?_⟩
    rcases List.mem_append.mp hmem with hmem | hmem
    · exact hnot hmem
    · rw [List.mem_singleton.mp hmem] at hlt
      exact Nat.lt_irrefl _ hlt
  · intro userId' p h
    rw [hlen]
    rcases hold userId' p h with h | ⟨-, rfl⟩
    · exact Nat.lt_succ_of_lt (hp.held userId' p h)
    · exact Nat.lt_succ_self _
  · intro userId₁ userId₂ p h₁ h₂
    rcases hold userId₁ p h₁ with h₁' | ⟨hid₁, hp₁⟩
    · rcases hold userId₂ p h₂ with h₂' | ⟨-, hp₂⟩
      · exact hp.held_once _ _ p h₁' h₂'
      · have := hp.held _ p h₁'
        omega
    · rcases hold userId₂ p h₂ with h₂' | ⟨hid₂, -⟩
      · have := hp.held _ p h₂'
        omega
      · rw [hid₁, hid₂]
  · intro p h
    rw [flagged_concat] at h
    obtain ⟨hnot, hio⟩ := hi.flagged p h
    refine ⟨fun hmem => ?_, hio⟩
    rcases List.mem_append.mp hmem with hmem | hmem
    · exact hnot hmem
    · rw [List.mem_singleton.mp hmem] at h
      exact Nat.lt_irrefl _ h.lt
  · intro p h
    exact flagged_concat.mpr (hi.deleted p h)
  · intro userId' p h hdel
    rcases hold userId' p h with h' | ⟨-, hp'⟩
    · exact hi.gone userId' p h' hdel
    · have := (hi.deleted p hdel).lt
      omega
  · intro userId' p h
    rw [hout] at h
    cases h

/-- A store to a user moves none. -/
theorem Placed.updateUser {s : Handshake} (hp : Placed s) (p : Nat) (f : User → User) : Placed (s.updateUser p f) := by
  have hlen : (s.users.modify p f).length = s.users.length := List.length_modify ..
  refine ⟨hp.listed, ?_, ?_, hp.entered_once, ?_, hp.held_once⟩
  · intro q h
    exact hlen.symm ▸ hp.listed_lt q h
  · intro sockfd q h
    exact ⟨hlen.symm ▸ (hp.entered sockfd q h).1, (hp.entered sockfd q h).2⟩
  · intro userId q h
    exact hlen.symm ▸ hp.held userId q h

/-- Setting the first flag is not seen by the invariant. -/
theorem flag1_inv {s : Handshake} (hi : Inv s) (p : Nat) :
    Inv (s.updateUser p fun u => { u with deleteFlag1 := true }) := by
  refine ⟨hi.placed.updateUser p _, ⟨hi.sound.strayed, hi.sound.once⟩, ?_, ?_, hi.gone, ?_, hi.between⟩
  · intro q h
    exact hi.flagged q (flagged_flag1.mp h)
  · intro q h
    exact flagged_flag1.mpr (hi.deleted q h)
  · intro userId q h hm
    exact flagged_flag1.mpr (hi.found userId q h hm)

theorem test_inv {s : Handshake} {userId : Int} {p : Nat} (hi : Inv s) (hout : s.sweep = .out)
    (hm : s.mMap.find? userId = some p) (hd : s.Deletable p) : Inv { s with sweep := .found userId } := by
  refine ⟨{ hi.placed with }, ⟨hi.sound.strayed, hi.sound.once⟩, hi.flagged, hi.deleted, ?_, ?_, hi.between⟩
  · intro userId' q h hdel
    have := hi.gone userId' q h hdel
    rw [hout] at this
    cases this
  · intro userId' q h hq
    cases h
    obtain rfl := Option.some.inj (hm.symm.trans hq)
    obtain ⟨u, hu, hdel⟩ := hd
    exact ⟨u, hu, hdel.2⟩

/-- The sweep deletes a user whom the I/O thread is not about to use. -/
theorem delete_inv {s : Handshake} {userId : Int} {p : Nat} (hi : Inv s) (hf : s.sweep = .found userId)
    (hm : s.mMap.find? userId = some p) (hb : ¬ s.Between p) :
    Inv { s with deleted := s.deleted ++ [p], sweep := .deleted userId } := by
  have hflag := hi.found userId p hf hm
  have hnew : p ∉ s.deleted := by
    intro hdel
    have := hi.gone userId p hm hdel
    rw [hf] at this
    cases this
  refine ⟨{ hi.placed with }, ⟨hi.sound.strayed, ?_⟩, hi.flagged, ?_, ?_, ?_, ?_⟩
  · exact List.nodup_append.mpr ⟨hi.sound.once, List.nodup_singleton _, fun q h r hr heq => by
      rw [List.mem_singleton.mp hr] at heq
      exact hnew (heq ▸ h)⟩
  · intro q h
    rcases List.mem_append.mp h with h | h
    · exact hi.deleted q h
    · rw [List.mem_singleton.mp h]
      exact hflag
  · intro userId' q h hdel
    rcases List.mem_append.mp hdel with hdel | hdel
    · have := hi.gone userId' q h hdel
      rw [hf] at this
      cases this
    · rw [List.mem_singleton.mp hdel] at h
      rw [hi.placed.held_once userId' userId p h hm]
  · intro userId' q h
    cases h
  · intro q h hdel
    rcases List.mem_append.mp hdel with hdel | hdel
    · exact hi.between q h hdel
    · rw [List.mem_singleton.mp hdel] at h
      exact hb h

theorem eraseUser_inv {s : Handshake} {userId : Int} (hi : Inv s) (hd : s.sweep = .deleted userId) :
    Inv { s with mMap := s.mMap.remove userId, sweep := .out } := by
  have hp := hi.placed
  have hold : ∀ userId' p, (s.mMap.remove userId).find? userId' = some p →
      userId' ≠ userId ∧ s.mMap.find? userId' = some p := fun userId' p h => StdMap.of_find?_remove h
  refine ⟨⟨hp.listed, hp.listed_lt, hp.entered, hp.entered_once, ?_, ?_⟩, ⟨hi.sound.strayed, hi.sound.once⟩, hi.flagged,
    hi.deleted, ?_, ?_, hi.between⟩
  · intro userId' p h
    exact hp.held userId' p (hold userId' p h).2
  · intro userId₁ userId₂ p h₁ h₂
    exact hp.held_once userId₁ userId₂ p (hold _ p h₁).2 (hold _ p h₂).2
  · intro userId' p h hdel
    obtain ⟨hne, h'⟩ := hold userId' p h
    have := hi.gone userId' p h' hdel
    rw [hd] at this
    cases this
    exact absurd rfl hne
  · intro userId' p h
    cases h

/-! ## The I/O thread -/

theorem vcdPop_inv {s : Handshake} {p : Nat} {rest : List Nat} (hi : Inv s) (hout : s.leaving = .out)
    (hlist : s.userListToIO = p :: rest) (socket : Int) :
    p ∉ s.deleted ∧ Inv { s with userListToIO := rest, ioMap := s.ioMap.insertNew socket p } := by
  have hp := hi.placed
  have hmem : p ∈ s.userListToIO := by
    rw [hlist]
    exact List.mem_cons_self
  have hflag : ¬ Flagged s.users p := fun h => (hi.flagged p h).1 hmem
  have hnodup := hp.listed
  rw [hlist] at hnodup
  obtain ⟨hnot, hrest⟩ := List.nodup_cons.mp hnodup
  have hsub : ∀ q ∈ rest, q ∈ s.userListToIO := fun q hq => by rw [hlist]; exact List.mem_cons_of_mem _ hq
  have hold : ∀ sockfd q, (s.ioMap.insertNew socket p).find? sockfd = some q →
      s.ioMap.find? sockfd = some q ∨ sockfd = socket ∧ q = p := fun sockfd q h => StdMap.of_find?_insertNew h
  refine ⟨fun hdel => hflag (hi.deleted p hdel), ⟨hrest, ?_, ?_, ?_, hp.held, hp.held_once⟩,
    ⟨hi.sound.strayed, hi.sound.once⟩, ?_, hi.deleted, hi.gone, hi.found, ?_⟩
  · intro q hq
    exact hp.listed_lt q (hsub q hq)
  · intro sockfd q h
    rcases hold sockfd q h with h' | ⟨-, rfl⟩
    · exact ⟨(hp.entered sockfd q h').1, fun hq => (hp.entered sockfd q h').2 (hsub q hq)⟩
    · exact ⟨hp.listed_lt q hmem, hnot⟩
  · intro sockfd sockfd' q h h'
    rcases hold sockfd q h with h₁ | ⟨hs₁, hq₁⟩
    · rcases hold sockfd' q h' with h₂ | ⟨-, hq₂⟩
      · exact hp.entered_once _ _ q h₁ h₂
      · rw [hq₂] at h₁
        exact absurd hmem (hp.entered _ p h₁).2
    · rcases hold sockfd' q h' with h₂ | ⟨hs₂, -⟩
      · rw [hq₁] at h₂
        exact absurd hmem (hp.entered _ p h₂).2
      · rw [hs₁, hs₂]
  · intro q hq
    obtain ⟨hnotin, hio⟩ := hi.flagged q hq
    refine ⟨fun hin => hnotin (hsub q hin), fun sockfd h => ?_⟩
    rcases hold sockfd q h with h' | ⟨-, rfl⟩
    · exact hio sockfd h'
    · exact absurd hq hflag
  · intro q h
    obtain ⟨sockfd, hl, -⟩ := h
    rw [hout] at hl
    cases hl

theorem setFlag2_inv {s : Handshake} {sockfd : Int} {p : Nat} (hi : Inv s) (hout : s.leaving = .out)
    (hp : s.ioMap.find? sockfd = some p) :
    Inv { s.updateUser p (fun u => { u with deleteFlag2 := true }) with leaving := .flag2 sockfd } := by
  have hpl := hi.placed
  have halive := hi.alive hout hp
  refine ⟨{ hpl.updateUser p _ with }, ⟨hi.sound.strayed, hi.sound.once⟩, ?_, ?_, hi.gone, ?_, ?_⟩
  · intro q h
    rcases flagged_flag2.mp h with h' | ⟨rfl, -⟩
    · -- whoever had the flag is no longer known to the I/O thread
      obtain ⟨hnot, hio⟩ := hi.flagged q h'
      refine ⟨hnot, fun sockfd' hq => ?_⟩
      exact absurd h' (hi.alive hout hq).1
    · refine ⟨(hpl.entered sockfd q hp).2, fun sockfd' hq => Or.inl ?_⟩
      rw [hpl.entered_once sockfd sockfd' q hp hq]
  · intro q h
    exact flagged_flag2.mpr (Or.inl (hi.deleted q h))
  · intro userId q h hm
    exact flagged_flag2.mpr (Or.inl (hi.found userId q h hm))
  · intro q h
    obtain ⟨sockfd', hl, hq⟩ := h
    cases hl
    obtain rfl := Option.some.inj (hp.symm.trans hq)
    exact halive.2

theorem setFlag1_inv {s : Handshake} {sockfd : Int} {p : Nat} (hi : Inv s) (hl : s.leaving = .flag2 sockfd) :
    Inv { s.updateUser p (fun u => { u with deleteFlag1 := true }) with leaving := .flag1 sockfd } := by
  have hi' := flag1_inv hi p
  refine ⟨{ hi'.placed with }, { hi'.sound with }, ?_, hi'.deleted, hi'.gone, hi'.found, ?_⟩
  · intro q h
    obtain ⟨hnot, hio⟩ := hi'.flagged q h
    refine ⟨hnot, fun sockfd' hq => ?_⟩
    rcases hio sockfd' hq with h' | h'
    · have heq : Leaving.flag2 sockfd = .flag2 sockfd' := hl.symm.trans h'
      cases heq
      exact Or.inr rfl
    · have heq : Leaving.flag2 sockfd = .flag1 sockfd' := hl.symm.trans h'
      cases heq
  · intro q h
    obtain ⟨sockfd', h', -⟩ := h
    cases h'

theorem eraseSocket_inv {s : Handshake} {sockfd : Int} (hi : Inv s) (hl : s.leaving = .flag1 sockfd) :
    Inv { s with ioMap := s.ioMap.remove sockfd, leaving := .out } := by
  have hp := hi.placed
  have hold : ∀ sockfd' p, (s.ioMap.remove sockfd).find? sockfd' = some p →
      sockfd' ≠ sockfd ∧ s.ioMap.find? sockfd' = some p := fun sockfd' p h => StdMap.of_find?_remove h
  refine ⟨⟨hp.listed, hp.listed_lt, ?_, ?_, hp.held, hp.held_once⟩, ⟨hi.sound.strayed, hi.sound.once⟩, ?_, hi.deleted,
    hi.gone, hi.found, ?_⟩
  · intro sockfd' p h
    exact hp.entered sockfd' p (hold sockfd' p h).2
  · intro sockfd₁ sockfd₂ p h₁ h₂
    exact hp.entered_once sockfd₁ sockfd₂ p (hold _ p h₁).2 (hold _ p h₂).2
  · intro p h
    obtain ⟨hnot, hio⟩ := hi.flagged p h
    refine ⟨hnot, fun sockfd' hp' => ?_⟩
    obtain ⟨hne, hold'⟩ := hold sockfd' p hp'
    rcases hio sockfd' hold' with h' | h'
    · rw [hl] at h'
      cases h'
    · rw [hl] at h'
      cases h'
      exact absurd rfl hne
  · intro p h
    obtain ⟨sockfd', h', -⟩ := h
    cases h'

/-! ## The statements -/

/-- All that a statement can do. -/
inductive Change (s : Handshake) : Ev → Handshake → Prop where
  | promote {junk : Buf} {socket userId now : Int} (hout : s.sweep = .out) :
      Change s (.promote junk socket userId now) { s with
        users := s.users ++ [.new junk socket userId now]
        mMap := s.mMap.insertNew userId s.users.length
        userListToIO := s.userListToIO ++ [s.users.length] }
  | quit {userId : Int} (p : Nat) :
      Change s (.quit userId) (s.updateUser p fun u => { u with deleteFlag1 := true })
  | test {userId : Int} (p : Nat) (hout : s.sweep = .out) (hm : s.mMap.find? userId = some p) (hd : s.Deletable p) :
      Change s (.test userId) { s with sweep := .found userId }
  | pass {userId : Int} : Change s (.test userId) s
  | delete (userId : Int) (p : Nat) (hf : s.sweep = .found userId) (hm : s.mMap.find? userId = some p) :
      Change s .delete { s with deleted := s.deleted ++ [p], sweep := .deleted userId }
  | eraseUser (userId : Int) (hd : s.sweep = .deleted userId) :
      Change s .eraseUser { s with mMap := s.mMap.remove userId, sweep := .out }
  | vcdPop (p : Nat) (rest : List Nat) (socket : Int) (hout : s.leaving = .out) (hlist : s.userListToIO = p :: rest) :
      Change s .vcdPop { s.touch p with userListToIO := rest, ioMap := s.ioMap.insertNew socket p }
  | use {sockfd : Int} (p : Nat) (hout : s.leaving = .out) (hp : s.ioMap.find? sockfd = some p) :
      Change s (.use sockfd) (s.touch p)
  | setFlag2 {sockfd : Int} (p : Nat) (hout : s.leaving = .out) (hp : s.ioMap.find? sockfd = some p) :
      Change s (.setFlag2 sockfd)
        { (s.touch p).updateUser p (fun u => { u with deleteFlag2 := true }) with leaving := .flag2 sockfd }
  | setFlag1 (sockfd : Int) (p : Nat) (hl : s.leaving = .flag2 sockfd) (hp : s.ioMap.find? sockfd = some p) :
      Change s .setFlag1
        { (s.touch p).updateUser p (fun u => { u with deleteFlag1 := true }) with leaving := .flag1 sockfd }
  | eraseSocket (sockfd : Int) (hl : s.leaving = .flag1 sockfd) :
      Change s .eraseSocket { s with ioMap := s.ioMap.remove sockfd, leaving := .out }

theorem change_of_step {s s' : Handshake} {e : Ev} (h : s.step e = some s') : Change s e s' := by
  cases e with
  | promote junk socket userId now =>
    simp only [step] at h
    split at h
    · rename_i hout
      obtain rfl := Option.some.inj h
      exact .promote hout
    · cases h
  | quit userId =>
    simp only [step] at h
    split at h
    · obtain rfl := Option.some.inj h
      exact .quit _
    · cases h
  | test userId =>
    simp only [step] at h
    split at h
    · rename_i p hout hm
      obtain rfl := Option.some.inj h
      split
      · rename_i hd
        exact .test p hout hm hd
      · exact .pass
    · cases h
  | delete =>
    simp only [step] at h
    split at h
    · rename_i userId hf
      split at h
      · rename_i p hm
        obtain rfl := Option.some.inj h
        exact .delete userId p hf hm
      · cases h
    · cases h
  | eraseUser =>
    simp only [step] at h
    split at h
    · rename_i userId hd
      obtain rfl := Option.some.inj h
      exact .eraseUser userId hd
    · cases h
  | vcdPop =>
    simp only [step] at h
    split at h
    · rename_i p rest hout hlist
      split at h
      · obtain rfl := Option.some.inj h
        exact .vcdPop p rest _ hout hlist
      · cases h
    · cases h
  | use sockfd =>
    simp only [step] at h
    split at h
    · rename_i p hout hp
      obtain rfl := Option.some.inj h
      exact .use p hout hp
    · cases h
  | setFlag2 sockfd =>
    simp only [step] at h
    split at h
    · rename_i p hout hp
      obtain rfl := Option.some.inj h
      exact .setFlag2 p hout hp
    · cases h
  | setFlag1 =>
    simp only [step] at h
    split at h
    · rename_i sockfd hl
      split at h
      · rename_i p hp
        obtain rfl := Option.some.inj h
        exact .setFlag1 sockfd p hl hp
      · cases h
    · cases h
  | eraseSocket =>
    simp only [step] at h
    split at h
    · rename_i sockfd hl
      obtain rfl := Option.some.inj h
      exact .eraseSocket sockfd hl
    · cases h

/-! ## Runs -/

theorem step_inv {s s' : Handshake} {e : Ev} (hi : Inv s) (ha : Apart s e) (h : s.step e = some s') : Inv s' := by
  cases change_of_step h with
  | promote hout => exact promote_inv hi hout
  | quit p => exact flag1_inv hi p
  | test p hout hm hd => exact test_inv hi hout hm hd
  | pass => exact hi
  | delete userId p hf hm => exact delete_inv hi hf hm (ha userId p hf hm)
  | eraseUser userId hd => exact eraseUser_inv hi hd
  | vcdPop p rest socket hout hlist =>
    obtain ⟨halive, hinv⟩ := vcdPop_inv hi hout hlist socket
    rw [touch_of_alive halive]
    exact hinv
  | use p hout hp =>
    rw [touch_of_alive (hi.alive hout hp).2]
    exact hi
  | setFlag2 p hout hp =>
    rw [touch_of_alive (hi.alive hout hp).2]
    exact setFlag2_inv hi hout hp
  | setFlag1 sockfd p hl hp =>
    rw [touch_of_alive (hi.between p ⟨sockfd, hl, hp⟩)]
    exact setFlag1_inv hi hl
  | eraseSocket sockfd hl => exact eraseSocket_inv hi hl

/-- The I/O thread has used a deleted user, or will with its next store. -/
def Doomed (s : Handshake) : Prop := s.strayed = true ∨ ∃ p, s.Between p ∧ p ∈ s.deleted

theorem doomed_of_delete {s s' : Handshake} {e : Ev} (ha : ¬ Apart s e) (h : s.step e = some s') : Doomed s' := by
  cases e with
  | delete =>
    simp only [Apart, not_forall, not_not] at ha
    obtain ⟨userId, p, hf, hm, hb⟩ := ha
    simp only [step, hf, hm] at h
    obtain rfl := Option.some.inj h
    exact Or.inr ⟨p, hb, List.mem_append_right _ (List.mem_singleton_self p)⟩
  | _ => exact absurd trivial ha

/-- A statement of the command thread leaves the I/O thread where it is. -/
theorem Doomed.cmd {s s' : Handshake} (hd : Doomed s) (hs : s'.strayed = s.strayed) (hl : s'.leaving = s.leaving)
    (hm : s'.ioMap = s.ioMap) (hdel : ∀ p ∈ s.deleted, p ∈ s'.deleted) : Doomed s' := by
  rcases hd with hd | ⟨p, ⟨sockfd, hb, hp⟩, hmem⟩
  · exact Or.inl (hs.trans hd)
  · exact Or.inr ⟨p, ⟨sockfd, hl.trans hb, hm ▸ hp⟩, hdel p hmem⟩

/-- So does one of the I/O thread's own outside its two stores; what it has used stays
    used. -/
theorem Doomed.io {s s' : Handshake} (hd : Doomed s) (hl : ∀ sockfd, s.leaving ≠ .flag2 sockfd)
    (hs : s.strayed = true → s'.strayed = true) : Doomed s' := by
  rcases hd with hd | ⟨p, ⟨sockfd, hb, -⟩, -⟩
  · exact Or.inl (hs hd)
  · exact absurd hb (hl sockfd)

theorem touch_strayed {s : Handshake} {p : Nat} (h : s.strayed = true) : (s.touch p).strayed = true := by
  simp [touch, h]

theorem doomed_step {s s' : Handshake} {e : Ev} (hd : Doomed s) (h : s.step e = some s') : Doomed s' := by
  cases change_of_step h with
  | promote hout => exact hd.cmd rfl rfl rfl fun _ hp => hp
  | quit p => exact hd.cmd rfl rfl rfl fun _ hp => hp
  | test p hout hm hdel => exact hd.cmd rfl rfl rfl fun _ hp => hp
  | pass => exact hd
  | delete userId p hf hm => exact hd.cmd rfl rfl rfl fun _ hp => List.mem_append_left _ hp
  | eraseUser userId hdel => exact hd.cmd rfl rfl rfl fun _ hp => hp
  | vcdPop p rest socket hout hlist => exact hd.io (fun sockfd hl => by rw [hout] at hl; cases hl) touch_strayed
  | use p hout hp => exact hd.io (fun sockfd hl => by rw [hout] at hl; cases hl) touch_strayed
  | setFlag2 p hout hp => exact hd.io (fun sockfd hl => by rw [hout] at hl; cases hl) touch_strayed
  | setFlag1 sockfd q hl hq =>
    rcases hd with hd | ⟨p, ⟨sockfd', hl', hp⟩, hmem⟩
    · exact Or.inl (touch_strayed hd)
    · -- this is the store that was still to come
      obtain rfl := Leaving.flag2.inj (hl.symm.trans hl')
      obtain rfl := Option.some.inj (hq.symm.trans hp)
      refine Or.inl ?_
      show (s.strayed || decide (q ∈ s.deleted)) = true
      simp [hmem]
  | eraseSocket sockfd hl => exact hd.io (fun sockfd hl' => by rw [hl] at hl'; cases hl') fun hs => hs

/-- Whatever the interleaving: while no user is deleted between the I/O thread's stores of
    his two flags, it uses no deleted user and none is deleted twice; and a run that is
    sound and leaves the I/O thread outside `deleteloginUser` is one of those. -/
theorem sound_iff_apart (es : List Ev) :
    (Along step Apart init es → Always step Sound init es) ∧
      ∀ s, run step init es = some s → s.leaving = .out → Always step Sound init es → Along step Apart init es := by
  refine ⟨?_, ?_⟩
  · intro h
    exact (always_of_along (fun _ _ _ => step_inv) init_inv h).mono fun s hi => hi.sound
  · intro s hrun hout hsound
    refine along_of_last (I := Inv) (fun s e s' hi h => ⟨fun ha => step_inv hi ha h, fun ha => doomed_of_delete ha h⟩)
      (fun _ _ _ => doomed_step) init_inv hrun ?_
    intro hd
    rcases hd with hd | ⟨p, ⟨sockfd, hl, -⟩, -⟩
    · rw [(hsound.last hrun).strayed] at hd
      cases hd
    · rw [hout] at hl
      cases hl

/-- User 1 quits while the I/O thread finds his connection closed. -/
theorem deleted_between_the_flags :
    ¬ Always step Sound init
      [.promote (fun _ => 0) 5 1 0, .vcdPop, .quit 1, .setFlag2 5, .test 1, .delete, .setFlag1] := by
  decide +kernel

end Handshake

end GroupeChat.ChatServer
