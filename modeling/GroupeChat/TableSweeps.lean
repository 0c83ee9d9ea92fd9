/-
  GroupeChat.TableSweeps — the loops that take entries out of the programs' tables
  (`CCmd::startDealCmd`, `CIo::startRequestFunc`, the client's `CmdModel::StartSendFile`).

  All five erase the entry under the iterator and then come to `iter++`: the caches by the
  chunk's age, the users by their delete flags, the I/O thread's users through
  `deleteloginUser`, and the login records by their delete flags or `loginReturnFlag`,
  which is read through the iterator after the first of the two may have erased it. A
  table of users holds pointers (`Heap`).

  `swept_iff_nothing_to_remove`: a sweep removes what it should, visits the rest once and
  uses no iterator whose entry is gone exactly when no entry meets its condition. One
  chunk three seconds old is enough (`an_old_chunk`).
-/

import GroupeChat.Base.MapSweep
import GroupeChat.ChatServer.CmdSend
import GroupeChat.ChatServer.Login

namespace GroupeChat

open Base

/-! ## Cached chunks -/

/-- Chunks older than `limit` seconds; `now` is what `time(NULL)` gives at each key. -/
def outdated (limit : Int) (now : Int → Int) (e : Int × Buf) : Bool := decide (limit < now e.1 - Proto.time e.2)

def cacheBody (limit : Int) : MapSweep.Body (Int → Int) Int Buf := fun s => do
  let tmp ← s.deref
  if outdated limit s.env tmp then s.erase else pure s

def ChatServer.udpLoseMapBody : MapSweep.Body (Int → Int) Int Buf := cacheBody 2

def ChatClient.udpSaveMapBody : MapSweep.Body (Int → Int) Int Buf := cacheBody 200

/-! ## Users -/

namespace ChatServer

structure Heap where
  users : Nat → User
  /-- The addresses passed to `delete`. -/
  deleted : List Nat
  closed : List Int

/-- Both flags are set: `CCmd`'s sweep over `m_map`. -/
def bothFlags (h : Heap) (e : Int × Nat) : Bool := (h.users e.2).deleteFlag1 && (h.users e.2).deleteFlag2

/-- The socket closed, the user deleted. -/
def Heap.free (h : Heap) (n : Nat) : Heap :=
  { h with closed := h.closed ++ [(h.users n).mSocket], deleted := h.deleted ++ [n] }

def cmdMapBody : MapSweep.Body Heap Int Nat := fun s => do
  let user ← s.deref
  if bothFlags s.env user then (s.mapEnv (·.free user.2)).erase else pure s

def oneFlag (h : Heap) (e : Int × Nat) : Bool := (h.users e.2).deleteFlag1

def Heap.setFlags (h : Heap) (n : Nat) : Heap :=
  { h with users := fun i => if i = n then { h.users n with deleteFlag1 := true, deleteFlag2 := true } else h.users i }

/-- `CIo::deleteloginUser`, of an entry that is there. -/
def deleteloginUser (s : MapSweep Heap Int Nat) (e : Int × Nat) : MapSweep Heap Int Nat :=
  (s.mapEnv (·.setFlags e.2)).eraseKey e.1

def ioMapBody : MapSweep.Body Heap Int Nat := fun s => do
  let user ← s.deref
  if oneFlag s.env user then pure (deleteloginUser s user) else pure s

/-! ## Login records -/

structure Promotions where
  closed : List Int
  /-- The sockets and ids of the users made. -/
  made : List (Int × Int)

namespace Unloginuser

def authenticate (u : Unloginuser) : Unloginuser :=
  let u := { u with loginState := u.verdict }
  { (u.setResult (if u.loginState = .loginSuccess then yes else no)).setReplyId with authFlag := true }

def checked (u : Unloginuser) : Unloginuser := if u.authFlag = false then u.authenticate else u

end Unloginuser

def loginOver (_ : Promotions) (e : Int × Unloginuser) : Bool :=
  e.2.deleteFlag1 && e.2.deleteFlag2 || e.2.loginReturnFlag

def Promotions.promote (p : Promotions) (e : Int × Unloginuser) : Promotions :=
  if e.2.loginState = .loginSuccess then { p with made := p.made ++ [(e.1, e.2.mUserId)] } else p

def Promotions.close (p : Promotions) (socket : Int) : Promotions := { p with closed := p.closed ++ [socket] }

/-- The body's three statements: the check, -/
def loginCheck : MapSweep.Body Promotions Int Unloginuser := fun s => do
  let e ← s.deref
  if e.2.authFlag = false then s.store e.2.authenticate else pure s

/-- the removal of a deleted record, -/
def loginReap : MapSweep.Body Promotions Int Unloginuser := fun s => do
  let e ← s.deref
  if e.2.deleteFlag1 && e.2.deleteFlag2 then (s.mapEnv (·.close e.1)).erase else pure s

/-- and that of one that was answered. -/
def loginPromote : MapSweep.Body Promotions Int Unloginuser := fun s => do
  let e ← s.deref
  if e.2.loginReturnFlag then (s.mapEnv (·.promote e)).erase else pure s

def loginMapBody : MapSweep.Body Promotions Int Unloginuser := fun s => do
  let s ← loginCheck s
  let s ← loginReap s
  loginPromote s

end ChatServer

/-! ## What each does at an entry -/

open ChatServer MapSweep

theorem cacheBody_acts (limit : Int) : Acts (cacheBody limit) (outdated limit) id where
  kept {done rest k v s} h hkeep := by
    refine ⟨s, ?_, h, rfl, rfl⟩
    simp only [cacheBody, h.deref, bind, Except.bind, hkeep]
    rfl
  removed {done rest k v s} h hrem := by
    right
    refine ⟨s.eraseKey k, ?_, h.eraseKey⟩
    simp only [cacheBody, h.deref, bind, Except.bind, hrem, if_true]
    exact h.erase

theorem cmdMapBody_acts : Acts cmdMapBody bothFlags id where
  kept {done rest k v s} h hkeep := by
    refine ⟨s, ?_, h, rfl, rfl⟩
    simp only [cmdMapBody, h.deref, bind, Except.bind, hkeep]
    rfl
  removed {done rest k v s} h hrem := by
    right
    have hfree := h.mapEnv (·.free v)
    refine ⟨_, ?_, hfree.eraseKey⟩
    simp only [cmdMapBody, h.deref, bind, Except.bind, hrem, if_true]
    exact hfree.erase

theorem ioMapBody_acts : Acts ioMapBody oneFlag id where
  kept {done rest k v s} h hkeep := by
    refine ⟨s, ?_, h, rfl, rfl⟩
    simp only [ioMapBody, h.deref, bind, Except.bind, hkeep]
    rfl
  removed {done rest k v s} h hrem := by
    right
    refine ⟨_, ?_, (h.mapEnv (·.setFlags v)).eraseKey⟩
    simp only [ioMapBody, h.deref, bind, Except.bind, hrem, if_true]
    rfl

theorem loginOver_checked (p : Promotions) (k : Int) (u : Unloginuser) :
    loginOver p (k, u.checked) = loginOver p (k, u) := by
  unfold loginOver Unloginuser.checked
  split <;> rfl

/-- The check changes the record where it is. -/
theorem loginCheck_at {done rest : List (Int × Unloginuser)} {k : Int} {u : Unloginuser}
    {s : MapSweep Promotions Int Unloginuser} (h : At done k u rest s) :
    ∃ s', loginCheck s = .ok s' ∧ At done k u.checked rest s' ∧ s'.env = s.env ∧ s'.visited = s.visited := by
  simp only [loginCheck, h.deref, bind, Except.bind]
  unfold Unloginuser.checked
  split
  · exact h.store u.authenticate
  · exact ⟨s, rfl, h, rfl, rfl⟩

theorem loginReap_at {done rest : List (Int × Unloginuser)} {k : Int} {u : Unloginuser}
    {s : MapSweep Promotions Int Unloginuser} (h : At done k u rest s) :
    (u.deleteFlag1 && u.deleteFlag2) = false ∧ loginReap s = .ok s ∨
      (u.deleteFlag1 && u.deleteFlag2) = true ∧ ∃ s', loginReap s = .ok s' ∧ Gone s' := by
  simp only [loginReap, h.deref, bind, Except.bind]
  split
  · rename_i hdel
    have hclose := h.mapEnv (·.close k)
    exact Or.inr ⟨hdel, _, hclose.erase, hclose.eraseKey⟩
  · rename_i hdel
    exact Or.inl ⟨Bool.eq_false_iff.mpr hdel, rfl⟩

theorem loginPromote_at {done rest : List (Int × Unloginuser)} {k : Int} {u : Unloginuser}
    {s : MapSweep Promotions Int Unloginuser} (h : At done k u rest s) :
    u.loginReturnFlag = false ∧ loginPromote s = .ok s ∨
      u.loginReturnFlag = true ∧ ∃ s', loginPromote s = .ok s' ∧ Gone s' := by
  simp only [loginPromote, h.deref, bind, Except.bind]
  split
  · rename_i hret
    have hpromote := h.mapEnv (·.promote (k, u))
    exact Or.inr ⟨hret, _, hpromote.erase, hpromote.eraseKey⟩
  · rename_i hret
    exact Or.inl ⟨Bool.eq_false_iff.mpr hret, rfl⟩

/-- After the first of the two removals there is nothing to read `loginReturnFlag` from. -/
theorem loginMapBody_acts : Acts loginMapBody loginOver Unloginuser.checked where
  kept {done rest k u s} h hkeep := by
    obtain ⟨s', hcheck, hat, henv, hvisited⟩ := loginCheck_at h
    rw [← loginOver_checked, loginOver, Bool.or_eq_false_iff] at hkeep
    refine ⟨s', ?_, hat, henv, hvisited⟩
    simp only [loginMapBody, hcheck, bind, Except.bind]
    rcases loginReap_at hat with ⟨-, hreap⟩ | ⟨hdel, -⟩
    · rw [hreap]
      rcases loginPromote_at hat with ⟨-, hpromote⟩ | ⟨hret, -⟩
      · exact hpromote
      · cases hkeep.2.symm.trans hret
    · cases hkeep.1.symm.trans hdel
  removed {done rest k u s} h hrem := by
    obtain ⟨s', hcheck, hat, -, -⟩ := loginCheck_at h
    rw [← loginOver_checked, loginOver, Bool.or_eq_true] at hrem
    simp only [loginMapBody, hcheck, bind, Except.bind]
    rcases loginReap_at hat with ⟨hdel, hreap⟩ | ⟨-, s'', hreap, hgone⟩
    · rw [hreap]
      rcases loginPromote_at hat with ⟨hret, -⟩ | ⟨-, hpromote⟩
      · rcases hrem with hrem | hrem
        · cases hdel.symm.trans hrem
        · cases hret.symm.trans hrem
      · exact Or.inr hpromote
    · rw [hreap]
      left
      simp only [loginPromote, hgone.deref, bind, Except.bind]

/-! ## The five tables -/

inductive Table where
  | mUdpLoseMap (now : Int → Int) (m : StdMap Int Buf)
  | cmdMap (heap : Heap) (m : StdMap Int Nat)
  | mLoginMap (p : Promotions) (m : StdMap Int Unloginuser)
  | ioMap (heap : Heap) (m : StdMap Int Nat)
  | mUdpSaveMap (now : Int → Int) (m : StdMap Int Buf)

namespace Table

def Swept : Table → Prop
  | mUdpLoseMap now m => Sound udpLoseMapBody (outdated 2) id now m
  | cmdMap heap m => Sound cmdMapBody bothFlags id heap m
  | mLoginMap p m => Sound loginMapBody loginOver Unloginuser.checked p m
  | ioMap heap m => Sound ioMapBody oneFlag id heap m
  | mUdpSaveMap now m => Sound ChatClient.udpSaveMapBody (outdated 200) id now m

def NothingToRemove : Table → Prop
  | mUdpLoseMap now m => ∀ e ∈ m.toList, outdated 2 now e = false
  | cmdMap heap m => ∀ e ∈ m.toList, bothFlags heap e = false
  | mLoginMap p m => ∀ e ∈ m.toList, loginOver p e = false
  | ioMap heap m => ∀ e ∈ m.toList, oneFlag heap e = false
  | mUdpSaveMap now m => ∀ e ∈ m.toList, outdated 200 now e = false

theorem swept_iff_nothing_to_remove (t : Table) : t.Swept ↔ t.NothingToRemove := by
  cases t with
  | mUdpLoseMap now m => exact sound_iff (cacheBody_acts 2) now m
  | cmdMap heap m => exact sound_iff cmdMapBody_acts heap m
  | mLoginMap p m => exact sound_iff loginMapBody_acts p m
  | ioMap heap m => exact sound_iff ioMapBody_acts heap m
  | mUdpSaveMap now m => exact sound_iff (cacheBody_acts 200) now m

/-- A chunk cached three seconds ago. -/
theorem an_old_chunk :
    ¬ (mUdpLoseMap (fun _ => 3) (StdMap.set ∅ 1 fun _ => 0)).Swept := by
  intro h
  have hmem : ((1, fun _ => 0) : Int × Buf) ∈ (StdMap.set ∅ 1 fun _ => 0).toList := by
    apply StdMap.mem_toList.mpr
    simp
  have hkeep := (sound_iff (cacheBody_acts 2) _ _).mp h _ hmem
  revert hkeep
  decide

end Table

end GroupeChat
