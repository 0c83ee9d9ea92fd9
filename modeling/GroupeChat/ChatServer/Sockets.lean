/-
  GroupeChat.ChatServer.Sockets — who has an accepted socket, and who closes it.

  A socket comes with its login record, through the hand-over list into the command
  thread's `m_loginMap`; a login that succeeds passes it on to a user in `m_map`. The
  command thread closes it when it deletes a record that was given up, or a user.

  `Sockets` is the server with the sockets that are open. `Owned`: each open socket has
  one record, login or user, each record's socket is open, and nothing was closed that
  was not open; so a record is never deleted with its socket left open. A record whose
  reply was "N", and a user whose id was taken, are let go without a close
  (`a_wrong_password`). All along is the sockets' ownership kept exactly in the runs
  where neither happens (`owned_iff_kept`).
-/

import GroupeChat.Base.Ownership
import GroupeChat.ChatServer.UserIds

namespace GroupeChat.ChatServer

open Base

/-- What a socket can belong to. -/
inductive Record where
  /-- The `i`-th connection's login record. -/
  | login (i : Nat)
  /-- The user that `m_map` has under an id. -/
  | user (userId : Int)
  deriving DecidableEq

def Login.Held (l : Login) : Prop := l.cmd ≠ .gone ∧ l.cmd ≠ .faulted

def Server.Holds (s : Server) (fd : Int) : Record → Prop
  | .login i => ∃ l, s.logins[i]? = some l ∧ l.Held ∧ l.user.mSocket = fd
  | .user userId => ∃ n u, s.mMap.find? userId = some n ∧ s.users[n]? = some u ∧ u.mSocket = fd

structure Sockets where
  server : Server
  /-- Accepted, not closed. -/
  opened : List Int
  /-- Something was closed that was not open. -/
  closedTwice : Bool

namespace Sockets

def init : Sockets := ⟨.init, [], false⟩

def close (s : Sockets) (fd : Int) : Sockets :=
  if fd ∈ s.opened then { s with opened := s.opened.filter (· ≠ fd) } else { s with closedTwice := true }

/-- The socket that a step closes: that of the login record or of the user it deletes. -/
def closes (s : Server) : Server.Ev → Option Int
  | .login i .reap _ _ => s.logins[i]?.map fun l => l.user.mSocket
  | .sweep userId => ((s.mMap.find? userId).bind (s.users[·]?)).map User.mSocket
  | _ => none

/-- `accept` returns a socket that is not open. -/
def step (s : Sockets) (e : Server.Ev) : Option Sockets :=
  match s.server.step e with
  | none => none
  | some server =>
    match e with
    | .accept _ fd _ _ _ => if fd ∈ s.opened then none else some { s with server := server, opened := s.opened ++ [fd] }
    | e =>
      match closes s.server e with
      | none => some { s with server := server }
      | some fd => some ({ s with server := server }.close fd)

/-- Each open socket is one record's, each record's socket is open, and none is closed
    twice. -/
structure Owned (s : Sockets) : Prop where
  exclusive : Exclusive (fun fd => fd ∈ s.opened) s.server.Holds
  once : s.closedTwice = false

/-- A login record found answered is that of a login that succeeded, and no user stands
    under its id. -/
def Kept (s : Sockets) : Server.Ev → Prop
  | .login i .promote _ _ => ∀ l, s.server.logins[i]? = some l →
      l.user.loginState = .loginSuccess ∧ s.server.mMap.find? l.user.mUserId = none
  | _ => True

end Sockets

/-! ## A login record keeps its socket -/

namespace Login

theorem recvBody_mSocket (c : Login) (io : Io) : (c.recvBody io).user.mSocket = c.user.mSocket := by
  unfold recvBody
  dsimp only
  split
  · rfl
  · rfl

theorem epollIn_mSocket (c : Login) (io : Io) : (c.epollIn io).user.mSocket = c.user.mSocket := by
  unfold epollIn
  split
  · rfl
  · split
    · split
      · split
        · rfl
        · split
          · exact recvBody_mSocket _ io
          · rfl
      · exact recvBody_mSocket c io
    · unfold timeoutFunc
      split
      · rfl
      · rfl

theorem epollOut_mSocket (c : Login) (nread : Int) : (c.epollOut nread).user.mSocket = c.user.mSocket := by
  unfold epollOut
  dsimp only
  split
  · rfl
  · split
    · rfl
    · rfl

theorem step_mSocket {c c' : Login} {e : Ev} (h : step c e = some c') : c'.user.mSocket = c.user.mSocket := by
  obtain ⟨-, -, rfl⟩ := step_eq h
  cases e with
  | epollIn io => exact epollIn_mSocket c io
  | epollOut nread => exact epollOut_mSocket c nread
  | _ => rfl

theorem epollIn_cmd (c : Login) (io : Io) : (c.epollIn io).cmd = c.cmd := by
  rcases epollIn_quiet c io with hq | hq
  · exact hq.cmd
  · rw [hq]

/-- The record stays with the server until it is deleted. -/
theorem step_held {c c' : Login} {e : Ev} (h : step c e = some c') (hr : e ≠ .reap) (hp : e ≠ .promote) :
    c'.Held ↔ c.Held := by
  obtain ⟨-, hen, rfl⟩ := step_eq h
  -- the command thread goes from one place to the next
  have hmove : ∀ {p q : Phase}, c.cmd = p → p ≠ .gone ∧ p ≠ .faulted → q ≠ .gone ∧ q ≠ .faulted →
      (q ≠ .gone ∧ q ≠ .faulted ↔ c.Held) := by
    intro p q hc hp hq
    rw [Held, hc]
    exact ⟨fun _ => hp, fun _ => hq⟩
  cases e with
  | arrive n => exact Iff.rfl
  | epollIn io =>
    show (c.epollIn io).Held ↔ _
    rw [Held, Held, epollIn_cmd]
  | timeoutSend => exact Iff.rfl
  | armOut => exact Iff.rfl
  | epollOut nread =>
    show (c.epollOut nread).Held ↔ _
    rw [Held, Held, (epollOut_cases c nread).1]
  | takeOver => exact hmove (q := .taken) hen (by decide) (by decide)
  | check => exact hmove (q := .published) hen.1 (by decide) (by decide)
  | fillResult => exact hmove (q := .filled) hen (by decide) (by decide)
  | fillUserId => exact hmove (q := .named) hen (by decide) (by decide)
  | setAuthFlag => exact hmove (q := .taken) hen (by decide) (by decide)
  | reap => exact absurd rfl hr
  | promote => exact absurd rfl hp

end Login

namespace Sockets

/-! ## What a step does to the records -/

/-- Who has what is seen in three of the server's fields. -/
theorem holds_congr {s s' : Server} (hl : s'.logins = s.logins) (hu : s'.users = s.users) (hm : s'.mMap = s.mMap)
    (fd : Int) (r : Record) : s'.Holds fd r ↔ s.Holds fd r := by
  cases r with
  | login i => simp only [Server.Holds, hl]
  | user userId => simp only [Server.Holds, hu, hm]

theorem holds_single (s : Server) (fd fd' : Int) (r : Record) (h : s.Holds fd r) (h' : s.Holds fd' r) : fd = fd' := by
  cases r with
  | login i =>
    obtain ⟨l, hl, -, rfl⟩ := h
    obtain ⟨l', hl', -, rfl⟩ := h'
    rw [Option.some.inj (hl.symm.trans hl')]
  | user userId =>
    obtain ⟨n, u, hn, hu, rfl⟩ := h
    obtain ⟨n', u', hn', hu', rfl⟩ := h'
    obtain rfl := Option.some.inj (hn.symm.trans hn')
    rw [Option.some.inj (hu.symm.trans hu')]

theorem holds_accept {s : Server} {l : Login} (hl : l.Held) (fd : Int) (r : Record) :
    Server.Holds { s with logins := s.logins ++ [l] } fd r ↔
      s.Holds fd r ∨ fd = l.user.mSocket ∧ r = .login s.logins.length := by
  cases r with
  | user userId => simp [Server.Holds]
  | login i =>
    simp only [Server.Holds, Record.login.injEq]
    rcases Nat.lt_trichotomy i s.logins.length with hlt | rfl | hgt
    · rw [List.getElem?_append_left hlt]
      refine ⟨Or.inl, fun h => h.resolve_right fun h => ?_⟩
      have := h.2
      omega
    · rw [List.getElem?_concat_length, List.getElem?_eq_none (Nat.le_refl _)]
      refine ⟨?_, ?_⟩
      · intro h
        obtain ⟨l', hl', -, hfd⟩ := h
        obtain rfl := Option.some.inj hl'
        exact Or.inr ⟨hfd.symm, rfl⟩
      · intro h
        rcases h with ⟨l', hl', -⟩ | ⟨hfd, -⟩
        · cases hl'
        · exact ⟨l, rfl, hl, hfd.symm⟩
    · rw [List.getElem?_eq_none (by simp; omega), List.getElem?_eq_none (by omega)]
      refine ⟨?_, ?_⟩
      · intro h
        obtain ⟨l', hl', -⟩ := h
        cases hl'
      · intro h
        rcases h with ⟨l', hl', -⟩ | ⟨-, hi⟩
        · cases hl'
        · omega

/-- A step on one record. -/
theorem holds_set {s : Server} {i : Nat} {l l' : Login} (hl : s.logins[i]? = some l) (fd : Int) (r : Record) :
    Server.Holds { s with logins := s.logins.set i l' } fd r ↔
      s.Holds fd r ∧ r ≠ .login i ∨ r = .login i ∧ l'.Held ∧ l'.user.mSocket = fd := by
  cases r with
  | user userId => simp [Server.Holds]
  | login j =>
    simp only [Server.Holds, List.getElem?_set, Record.login.injEq, ne_eq]
    by_cases hj : i = j
    · subst hj
      have hlt := (List.getElem?_eq_some_iff.mp hl).1
      simp [hlt]
    · have hne : ¬ j = i := fun h => hj h.symm
      simp [hj, hne]

/-- It leaves the record with its socket. -/
theorem holds_keep {s : Server} {i : Nat} {l l' : Login} (hl : s.logins[i]? = some l) (hh : l'.Held ↔ l.Held)
    (hs : l'.user.mSocket = l.user.mSocket) (fd : Int) (r : Record) :
    Server.Holds { s with logins := s.logins.set i l' } fd r ↔ s.Holds fd r := by
  rw [holds_set hl]
  by_cases hr : r = .login i
  · subst hr
    rw [hh, hs]
    simp [Server.Holds, hl]
  · simp [hr]

/-- It deletes the record. -/
theorem holds_delete {s : Server} {i : Nat} {l l' : Login} (hl : s.logins[i]? = some l) (hh : ¬ l'.Held) (fd : Int)
    (r : Record) :
    Server.Holds { s with logins := s.logins.set i l' } fd r ↔ s.Holds fd r ∧ r ≠ .login i := by
  rw [holds_set hl]
  simp [hh]

theorem holds_user {s s' : Server} {n : Nat} {f : User → User} (hs : ∀ u, (f u).mSocket = u.mSocket)
    (h' : s' = s.updateUser n f) (fd : Int) (r : Record) : s'.Holds fd r ↔ s.Holds fd r := by
  subst h'
  cases r with
  | login i => exact Iff.rfl
  | user userId =>
    simp only [Server.Holds, Server.updateUser, List.getElem?_modify]
    refine ⟨?_, ?_⟩
    · intro h
      obtain ⟨m, u, hm, hu, hfd⟩ := h
      obtain ⟨v, hv, rfl⟩ := Option.map_eq_some_iff.mp hu
      refine ⟨m, v, hm, hv, ?_⟩
      split at hfd
      · rw [← hs]
        exact hfd
      · exact hfd
    · intro h
      obtain ⟨m, u, hm, hu, hfd⟩ := h
      refine ⟨m, _, hm, by rw [hu]; rfl, ?_⟩
      split
      · rw [hs]
        exact hfd
      · exact hfd

theorem holds_sweep {s : Server} {userId : Int} (fd : Int) (r : Record) :
    Server.Holds { s with mMap := s.mMap.remove userId } fd r ↔ s.Holds fd r ∧ r ≠ .user userId := by
  cases r with
  | login i => simp [Server.Holds]
  | user k =>
    simp only [Server.Holds, StdMap.find?_remove, Record.user.injEq, ne_eq]
    by_cases hk : k = userId
    · simp [hk]
    · simp [hk]

/-- It deletes the record of a successful login, whose socket the new user takes if no one
    stands under his id. -/
theorem holds_promote {s : Server} {i : Nat} {l l' : Login} {junk : Buf} {now : Int} (hi : s.Inv)
    (hl : s.logins[i]? = some l) (hh : ¬ l'.Held) (fd : Int) (r : Record) :
    Server.Holds (Server.promote { s with logins := s.logins.set i l' } l junk now) fd r ↔
      s.Holds fd r ∧ r ≠ .login i ∨
        s.mMap.find? l.user.mUserId = none ∧ fd = l.user.mSocket ∧ r = .user l.user.mUserId := by
  cases r with
  | login j =>
    refine (holds_delete hl hh fd (.login j)).trans ?_
    simp
  | user k =>
    -- an entry is one of the users there were
    have hold : ∀ n u, s.mMap.find? k = some n →
        ((s.users ++ [User.new junk l.user.mSocket l.user.mUserId now])[n]? = some u ↔ s.users[n]? = some u) := by
      intro n u hn
      obtain ⟨v, hv, -⟩ := hi.users k n hn
      rw [List.getElem?_append_left (List.getElem?_eq_some_iff.mp hv).1]
    simp only [Server.Holds, Server.promote, StdMap.find?_insertNew, Record.user.injEq, reduceCtorEq, ne_eq,
      not_false_eq_true, and_true]
    by_cases hk : k = l.user.mUserId
    · subst hk
      cases hfind : s.mMap.find? l.user.mUserId with
      | none =>
        simp [User.new, eq_comm]
      | some n =>
        have := hold n
        simp [hfind] at this ⊢
        simp [this]
    · simp only [hk, and_false, or_false, if_false]
      refine ⟨?_, ?_⟩
      · intro h
        obtain ⟨n, u, hn, hu, hfd⟩ := h
        exact ⟨n, u, hn, (hold n u hn).mp hu, hfd⟩
      · intro h
        obtain ⟨n, u, hn, hu, hfd⟩ := h
        exact ⟨n, u, hn, (hold n u hn).mpr hu, hfd⟩

/-! ## Closing -/

theorem close_opened {s : Sockets} {fd : Int} (h : fd ∈ s.opened) :
    (s.close fd).closedTwice = s.closedTwice ∧ (s.close fd).server = s.server ∧
      ∀ fd', fd' ∈ (s.close fd).opened ↔ fd' ∈ s.opened ∧ fd' ≠ fd := by
  unfold close
  rw [if_pos h]
  exact ⟨rfl, rfl, fun fd' => by simp⟩

/-- A record is deleted and its socket closed. -/
theorem Owned.delete {s : Sockets} {server : Server} {fd : Int} {r₀ : Record} (ho : Owned s)
    (h₀ : s.server.Holds fd r₀) (hh : ∀ fd r, server.Holds fd r ↔ s.server.Holds fd r ∧ r ≠ r₀) :
    Owned ({ s with server := server }.close fd) := by
  obtain ⟨honce, hserver, hopened⟩ := @close_opened { s with server := server } fd (ho.exclusive.live fd r₀ h₀)
  refine ⟨?_, ?_⟩
  · rw [hserver]
    exact ho.exclusive.release h₀ hopened hh
  · rw [honce]
    exact ho.once

theorem Owned.keep {s : Sockets} {server : Server} (ho : Owned s)
    (hh : ∀ fd r, server.Holds fd r ↔ s.server.Holds fd r) : Owned { s with server := server } :=
  ⟨ho.exclusive.congr (fun _ => Iff.rfl) hh, ho.once⟩

theorem init_owned : Owned init := by
  refine ⟨⟨?_, ?_, ?_, ?_⟩, rfl⟩
  · intro fd h
    cases h
  · intro fd r r' h
    cases r with
    | login i =>
      obtain ⟨l, hl, -⟩ := h
      cases hl
    | user k =>
      obtain ⟨n, u, hn, -⟩ := h
      cases hn
  · exact fun fd fd' r => holds_single _ fd fd' r
  · intro fd r h
    cases r with
    | login i =>
      obtain ⟨l, hl, -⟩ := h
      cases hl
    | user k =>
      obtain ⟨n, u, hn, -⟩ := h
      cases hn

/-! ## Runs -/

structure Inv (s : Sockets) : Prop where
  server : s.server.Inv
  owned : Owned s

theorem accept_owned {s : Sockets} {server : Server} {junk : Unloginuser} {fd now : Int} {stream : List UInt8}
    {closed : Bool} (ho : Owned s) (h : s.server.step (.accept junk fd now stream closed) = some server)
    (hfd : fd ∉ s.opened) : Owned { s with server := server, opened := s.opened ++ [fd] } := by
  unfold Server.step at h
  split at h
  · obtain rfl := Option.some.inj h
    refine ⟨?_, ?_⟩
    · refine ho.exclusive.grant (.login s.server.logins.length) hfd ?_ (fun fd' => by simp)
        (holds_accept ⟨nofun, nofun⟩)
      intro fd' hlogin
      obtain ⟨l, hl, -⟩ := hlogin
      rw [List.getElem?_eq_none (Nat.le_refl _)] at hl
      cases hl
    · exact ho.once
  · cases h

/-- A step on a login, and what is left of it. -/
theorem login_step {s server : Server} {i : Nat} {e : Login.Ev} {junk : Buf} {now : Int}
    (h : s.step (.login i e junk now) = some server) :
    ∃ l l', s.logins[i]? = some l ∧ l.step e = some l' ∧
      server = Server.after { s with logins := s.logins.set i l' } l e l' junk now := by
  unfold Server.step at h
  split at h
  · simp only [Server.next] at h
    split at h
    · cases h
    · rename_i l hl
      split at h
      · cases h
      · rename_i l' hl'
        exact ⟨l, l', hl, hl', (Option.some.inj h).symm⟩
  · cases h

theorem holds_advance (s : Server) (l l' : Login) (fd : Int) (r : Record) :
    (s.advance l l').Holds fd r ↔ s.Holds fd r := by
  refine holds_congr ?_ (Server.advance_users s l l') (Server.advance_mMap s l l') fd r
  unfold Server.advance
  split
  · rfl
  · rfl

/-- The command thread finds a record answered. -/
theorem promote_owned {s : Sockets} {server : Server} {i : Nat} {junk : Buf} {now : Int} (hi : Inv s)
    (h : s.server.step (.login i .promote junk now) = some server) :
    Owned { s with server := server } ↔ Kept s (.login i .promote junk now) := by
  obtain ⟨l, l', hl, hstep, rfl⟩ := login_step h
  obtain ⟨-, hen, hl'⟩ := Login.step_eq hstep
  have hgone : ¬ l'.Held := fun hheld => hheld.1 (by rw [hl']; rfl)
  have hheld : l.Held := by
    rw [Login.Held, hen.1]
    decide
  have h₀ : s.server.Holds l.user.mSocket (.login i) := ⟨l, hl, hheld, rfl⟩
  have hopen := hi.owned.exclusive.live _ _ h₀
  simp only [Server.after]
  refine ⟨?_, ?_⟩
  · intro ho l₁ hl₁
    obtain rfl := Option.some.inj (hl.symm.trans hl₁)
    by_cases hs : l.user.loginState = .loginSuccess
    · refine ⟨hs, ?_⟩
      by_contra htaken
      rw [if_pos hs] at ho
      refine hi.owned.exclusive.not_of_drop h₀ hopen (fun r hr => ?_) ho.exclusive
      exact ((holds_promote hi.server hl hgone _ r).mp hr).resolve_right fun h => htaken h.1
    · rw [if_neg hs] at ho
      exact absurd ho.exclusive (hi.owned.exclusive.not_of_drop h₀ hopen fun r hr => (holds_delete hl hgone _ r).mp hr)
  · intro hk
    obtain ⟨hs, hnone⟩ := hk l hl
    rw [if_pos hs]
    refine ⟨?_, ?_⟩
    · refine hi.owned.exclusive.transfer (.user l.user.mUserId) h₀ ?_ (fun _ => Iff.rfl) ?_
      · intro fd hu
        obtain ⟨n, u, hn, -⟩ := hu
        rw [hnone] at hn
        cases hn
      · intro fd r
        refine (holds_promote hi.server hl hgone fd r).trans ?_
        simp [hnone]
    · exact hi.owned.once

theorem reap_owned {s : Sockets} {server : Server} {i : Nat} {l : Login} {junk : Buf} {now : Int} (ho : Owned s)
    (hl : s.server.logins[i]? = some l) (h : s.server.step (.login i .reap junk now) = some server) :
    Owned ({ s with server := server }.close l.user.mSocket) := by
  obtain ⟨l₁, l', hl₁, hstep, rfl⟩ := login_step h
  obtain rfl := Option.some.inj (hl.symm.trans hl₁)
  obtain ⟨-, hen, hl'⟩ := Login.step_eq hstep
  have hdead : ¬ l'.Held := fun hheld => hheld.2 (by rw [hl']; rfl)
  have hheld : l.Held := by
    rw [Login.Held, hen.1]
    decide
  have h₀ : s.server.Holds l.user.mSocket (.login i) := ⟨l, hl, hheld, rfl⟩
  refine ho.delete h₀ fun fd r => ?_
  simp only [Server.after]
  rw [holds_advance]
  exact holds_delete hl hdead fd r

/-- The other steps of a login leave its socket where it is. -/
theorem login_owned {s : Sockets} {server : Server} {i : Nat} {e : Login.Ev} {junk : Buf} {now : Int} (ho : Owned s)
    (h : s.server.step (.login i e junk now) = some server) (hr : e ≠ .reap) (hp : e ≠ .promote) :
    Owned { s with server := server } := by
  obtain ⟨l, l', hl, hstep, rfl⟩ := login_step h
  have hafter : Server.after { s.server with logins := s.server.logins.set i l' } l e l' junk now =
      Server.advance { s.server with logins := s.server.logins.set i l' } l l' := by
    cases e with
    | promote => exact absurd rfl hp
    | _ => rfl
  rw [hafter]
  refine ho.keep fun fd r => ?_
  rw [holds_advance]
  exact holds_keep hl (Login.step_held hstep hr hp) (Login.step_mSocket hstep) fd r

theorem sweep_owned {s : Sockets} {server : Server} {userId : Int} (ho : Owned s)
    (h : s.server.step (.sweep userId) = some server) :
    ∃ fd, closes s.server (.sweep userId) = some fd ∧ Owned ({ s with server := server }.close fd) := by
  unfold Server.step at h
  split at h
  · simp only [Server.next] at h
    split at h
    · cases h
    · rename_i u hfind
      split at h
      · obtain rfl := Option.some.inj h
        obtain ⟨n, hn, hu⟩ := Option.bind_eq_some_iff.mp hfind
        have h₀ : s.server.Holds u.mSocket (.user userId) := ⟨n, u, hn, hu, rfl⟩
        exact ⟨u.mSocket, by simp [closes, hfind], ho.delete h₀ holds_sweep⟩
      · cases h
  · cases h

theorem flag_owned {s : Sockets} {server : Server} {e : Server.Ev} {n : Nat} {f : User → User} (ho : Owned s)
    (he : s.server.next e = some (s.server.updateUser n f)) (hs : ∀ u, (f u).mSocket = u.mSocket)
    (h : s.server.step e = some server) : Owned { s with server := server } := by
  unfold Server.step at h
  split at h
  · rw [he] at h
    obtain rfl := Option.some.inj h
    exact ho.keep (holds_user hs rfl)
  · cases h

/-- A step keeps the ownership exactly when it meets the condition. -/
theorem step_owned {s s' : Sockets} {e : Server.Ev} (hi : Inv s) (h : s.step e = some s') :
    (Kept s e → Owned s') ∧ (Owned s' → Kept s e) := by
  unfold step at h
  split at h
  · cases h
  · rename_i server hserver
    cases e with
    | accept junk fd now stream closed =>
      dsimp only at h
      split at h
      · cases h
      · rename_i hfd
        obtain rfl := Option.some.inj h
        exact ⟨fun _ => accept_owned hi.owned hserver hfd, fun _ => trivial⟩
    | quit n =>
      obtain rfl := Option.some.inj h
      refine ⟨fun _ => ?_, fun _ => trivial⟩
      exact @flag_owned s server _ n (fun u => { u with deleteFlag1 := true }) hi.owned rfl (fun _ => rfl) hserver
    | deleteloginUser n =>
      obtain rfl := Option.some.inj h
      refine ⟨fun _ => ?_, fun _ => trivial⟩
      exact @flag_owned s server _ n (fun u => { u with deleteFlag1 := true, deleteFlag2 := true }) hi.owned rfl
        (fun _ => rfl) hserver
    | sweep userId =>
      obtain ⟨fd, hfd, howned⟩ := sweep_owned hi.owned hserver
      dsimp only at h
      rw [hfd] at h
      obtain rfl := Option.some.inj h
      exact ⟨fun _ => howned, fun _ => trivial⟩
    | login i e junk now =>
      cases e with
      | promote =>
        obtain rfl := Option.some.inj h
        have hiff := promote_owned hi hserver
        exact ⟨hiff.mpr, hiff.mp⟩
      | reap =>
        obtain ⟨l, l', hl, -⟩ := login_step hserver
        simp only [closes, hl, Option.map_some] at h
        obtain rfl := Option.some.inj h
        exact ⟨fun _ => reap_owned hi.owned hl hserver, fun _ => trivial⟩
      | _ =>
        obtain rfl := Option.some.inj h
        exact ⟨fun _ => login_owned hi.owned hserver nofun nofun, fun _ => trivial⟩

theorem step_server {s s' : Sockets} {e : Server.Ev} (h : s.step e = some s') : s.server.step e = some s'.server := by
  have hclose : ∀ (t : Sockets) fd, (t.close fd).server = t.server := by
    intro t fd
    unfold close
    split
    · rfl
    · rfl
  unfold step at h
  split at h
  · cases h
  · rename_i server hserver
    rw [hserver]
    split at h
    · split at h
      · cases h
      · obtain rfl := Option.some.inj h
        rfl
    · split at h
      · obtain rfl := Option.some.inj h
        rfl
      · obtain rfl := Option.some.inj h
        rw [hclose]

theorem Kept.fresh {s : Sockets} {e : Server.Ev} (h : Kept s e) : s.server.Fresh e := by
  cases e with
  | login i e junk now =>
    cases e with
    | promote => exact fun l hl _ => (h l hl).2
    | _ => trivial
  | _ => trivial

/-- Whatever the connections, the logins and the users' leaving: the sockets are owned all
    along exactly when every record found answered is that of a successful login whose id
    is free. -/
theorem owned_iff_kept (es : List Server.Ev) : Always step Owned init es ↔ Along step Kept init es := by
  refine always_iff_along (I := Inv) (fun s hi => hi.owned) (fun s e s' hi h => ?_) ⟨Server.init_inv, init_owned⟩
  have hstep := step_owned hi h
  refine ⟨fun hk => ⟨?_, hstep.1 hk⟩, hstep.2⟩
  exact (Server.change_inv hi.server (Server.step_change (step_server h))).1 hk.fresh

def nobodyLogin : List UInt8 := Proto.headBytes CmdId.login.code 0 Proto.loginSize 1 ++ List.replicate 70 0

/-- Once the client has its "N", its record is deleted and its socket stays open. -/
theorem a_wrong_password :
    ¬ Always step Owned init (.accept Unloginuser.zero 5 0 nobodyLogin false :: Server.logIn 0) := by
  intro h
  have hrun : (run step init (.accept Unloginuser.zero 5 0 nobodyLogin false :: Server.logIn 0)).map
      (fun s => (s.opened, s.server.logins.map (·.cmd), s.server.mMap.toList)) = some ([5], [.gone], []) := by
    decide +kernel
  obtain ⟨s, hs, heq⟩ := Option.map_eq_some_iff.mp hrun
  simp only [Prod.mk.injEq] at heq
  obtain ⟨hopened, hcmd, hmap⟩ := heq
  obtain ⟨r, hr⟩ := (h.last hs).exclusive.owner 5 (by rw [hopened]; exact List.mem_singleton_self 5)
  cases r with
  | login i =>
    obtain ⟨l, hl, hheld, -⟩ := hr
    have hmem : l.cmd ∈ s.server.logins.map (·.cmd) := List.mem_map_of_mem (List.mem_of_getElem? hl)
    rw [hcmd] at hmem
    exact hheld.1 (List.mem_singleton.mp hmem)
  | user k =>
    obtain ⟨n, u, hn, -⟩ := hr
    have hmem := StdMap.mem_toList.mpr hn
    rw [hmap] at hmem
    cases hmem

end Sockets

end GroupeChat.ChatServer
