/-
  GroupeChat.PollServer.Table — the table of connections, and what it may be indexed with.

  In every run the entries have different descriptors, at most five are clients, and an
  entry's `events` are what it was accepted with until somebody else has said something,
  and every bit there is from then on (the two `|= ~` never take a bit away): from the
  first message on `poll` asks for everything and waits for nothing. `POLLOUT` is asked for
  only where a message has set the two pointers, to the entry of somebody else; so no
  pointer that `new` left unset is followed.

  `users` has ten places. While the kernel hands out the lowest free descriptor and the
  program has at most five others open, no index goes past them (`table_sound`).
-/

import GroupeChat.PollServer.Server
import Mathlib.Data.Finset.Card

namespace GroupeChat.PollServer

open Base

/-! ## Bits -/

def fresh : Bits := pollIn ||| pollErr ||| pollRdHup

/-- A bit that was not asked for and is not reported unasked is not reported. -/
theorem PollFd.Reports.not_has {e : PollFd} {r b : Bits} (h : e.Reports r)
    (hb : b &&& (e.events ||| pollErr ||| pollHup ||| pollNval) = 0) : ¬ Has r b := by
  refine not_not.mpr ?_
  have h' : r &&& ~~~(e.events ||| pollErr ||| pollHup ||| pollNval) = 0#16 := h
  generalize e.events ||| pollErr ||| pollHup ||| pollNval = m at h' hb
  show r &&& b = 0#16
  ext i hi
  have h1 := congrArg (fun v => v.getLsbD i) h'
  have h2 := congrArg (fun v => v.getLsbD i) (show b &&& m = 0#16 from hb)
  simp only [BitVec.getLsbD_and, BitVec.getLsbD_not, BitVec.getLsbD_zero, hi, decide_true, Bool.true_and] at h1 h2
  rw [BitVec.getElem_and, BitVec.getElem_zero, ← BitVec.getLsbD_eq_getElem, ← BitVec.getLsbD_eq_getElem]
  revert h1 h2
  cases r.getLsbD i <;> cases m.getLsbD i <;> cases b.getLsbD i <;> simp

/-- Asking for more forbids no report. -/
theorem PollFd.Reports.more {e : PollFd} {r : Bits} (h : e.Reports r) (b : Bits) :
    ({ e with events := e.events ||| b } : PollFd).Reports r := by
  have h' : r &&& ~~~(e.events ||| pollErr ||| pollHup ||| pollNval) = 0#16 := h
  show r &&& ~~~(e.events ||| b ||| pollErr ||| pollHup ||| pollNval) = 0#16
  have hor : e.events ||| b ||| pollErr ||| pollHup ||| pollNval =
      (e.events ||| pollErr ||| pollHup ||| pollNval) ||| b := by
    rw [BitVec.or_assoc, BitVec.or_assoc, BitVec.or_assoc, BitVec.or_comm b, ← BitVec.or_assoc, ← BitVec.or_assoc,
      ← BitVec.or_assoc]
  rw [hor, BitVec.not_or, ← BitVec.and_assoc, h', BitVec.zero_and]

/-- The pointers of the client with descriptor `fd` point nowhere, or at somebody else. -/
def ClientData.Aimed (d : ClientData) (fd : Nat) : Prop :=
  (d.writePost = .null ∧ d.writeAddr = .null) ∨ ∃ g ≠ fd, d.writePost = .entry g ∧ d.writeAddr = .entry g

namespace Server

/-- What entry `i` asks `poll` for: what it was accepted with until somebody else has said
    something, and everything from then on. -/
def Asked (s : Server) (i : Nat) : Prop :=
  (s.posted (s.fdAt i) = [] ∧ (s.fds i).events = fresh) ∨
    (s.posted (s.fdAt i) ≠ [] ∧ (s.fds i).events = BitVec.allOnes 16 ∧ (s.users (s.fdAt i)).Aimed (s.fdAt i))

structure Sound (sock : Int) (s : Server) : Prop where
  limit : s.userCount ≤ USER_LIMIT
  listening : (s.fds 0).fd = sock ∧ (s.fds 0).events = pollIn ||| pollErr
  nonneg : ∀ i ≤ s.userCount, 0 ≤ (s.fds i).fd
  distinct : ∀ i ≤ s.userCount, ∀ j ≤ s.userCount, (s.fds i).fd = (s.fds j).fd → i = j
  reported : ∀ i ≤ s.userCount, (s.fds i).Reports (s.fds i).revents
  asked : ∀ i, 1 ≤ i → i ≤ s.userCount → s.Asked i
  wild : s.fault ≠ some .wild

variable {sock : Int} {s s' : Server}

theorem Sound.fdAt_inj (hs : Sound sock s) {i j : Nat} (hi : i ≤ s.userCount) (hj : j ≤ s.userCount)
    (h : s.fdAt i = s.fdAt j) : i = j := by
  have := hs.nonneg i hi
  have := hs.nonneg j hj
  refine hs.distinct i hi j hj ?_
  unfold fdAt at h
  omega

/-- What is not asked for of the listening socket is not reported. -/
theorem Sound.listens (hs : Sound sock s) {b : Bits}
    (hb : b &&& (pollIn ||| pollErr ||| pollErr ||| pollHup ||| pollNval) = 0) : ¬ Has (s.fds 0).revents b := by
  refine (hs.reported 0 (Nat.zero_le _)).not_has ?_
  rw [hs.listening.2]
  exact hb

theorem init_sound (junk : Nat → ClientData) (hsock : 0 ≤ sock) : Sound sock (init junk sock) where
  limit := Nat.zero_le _
  listening := ⟨rfl, rfl⟩
  nonneg i hi := by
    obtain rfl : i = 0 := Nat.le_zero.mp hi
    exact hsock
  distinct i hi j hj _ := (Nat.le_zero.mp hi).trans (Nat.le_zero.mp hj).symm
  reported i hi := by
    obtain rfl : i = 0 := Nat.le_zero.mp hi
    exact BitVec.zero_and
  asked i h1 hi := absurd (Nat.le_trans h1 hi) (by simp [init])
  wild := nofun

/-! ## What keeps the table -/

/-- Texts, addresses, the phase and what was written are not the table's business. -/
theorem Sound.congr (hs : Sound sock s) (hfds : s'.fds = s.fds) (hcount : s'.userCount = s.userCount)
    (hposted : s'.posted = s.posted) (hpost : ∀ fd, (s'.users fd).writePost = (s.users fd).writePost)
    (haddr : ∀ fd, (s'.users fd).writeAddr = (s.users fd).writeAddr) (hwild : s'.fault ≠ some .wild) :
    Sound sock s' := by
  obtain ⟨h1, h2, h3, h4, h5, h6, -⟩ := hs
  refine ⟨by rwa [hcount], by rwa [hfds], ?_, ?_, ?_, ?_, hwild⟩
  · rwa [hfds, hcount]
  · rwa [hfds, hcount]
  · rwa [hfds, hcount]
  · intro i hi hle
    have := h6 i hi (by rwa [← hcount])
    simpa only [Asked, fdAt, ClientData.Aimed, hfds, hposted, hpost, haddr] using this

theorem addUser_sound (hs : Sound sock s) {connfd : Nat} {peer : InAddr} (hfree : s.Free connfd)
    (hcount : s.userCount < USER_LIMIT) : Sound sock (s.addUser connfd peer) := by
  unfold addUser
  split
  · exact hs.congr rfl rfl rfl (fun _ => rfl) (fun _ => rfl) (by simp [fail])
  · have hold : ∀ i ≤ s.userCount, i ≠ s.userCount + 1 := fun i hi => by omega
    refine ⟨hcount, ?_, ?_, ?_, ?_, ?_, hs.wild⟩
    · simpa [Function.update_of_ne (hold 0 (Nat.zero_le _))] using hs.listening
    · intro i hi
      by_cases he : i = s.userCount + 1
      · subst he
        simp
      · simpa [Function.update_of_ne he] using hs.nonneg i (by dsimp only at hi; omega)
    · intro i hi j hj hfd
      dsimp only at hi hj hfd
      by_cases hei : i = s.userCount + 1
      · by_cases hej : j = s.userCount + 1
        · rw [hei, hej]
        · rw [hei, Function.update_self, Function.update_of_ne hej] at hfd
          exact absurd hfd.symm (hfree j (by omega))
      · by_cases hej : j = s.userCount + 1
        · rw [hej, Function.update_self, Function.update_of_ne hei] at hfd
          exact absurd hfd (hfree i (by omega))
        · rw [Function.update_of_ne hei, Function.update_of_ne hej] at hfd
          exact hs.distinct i (by omega) j (by omega) hfd
    · intro i hi
      by_cases he : i = s.userCount + 1
      · subst he
        simp only [Function.update_self]
        exact BitVec.zero_and
      · simpa [Function.update_of_ne he] using hs.reported i (by dsimp only at hi; omega)
    · intro i h1 hi
      by_cases he : i = s.userCount + 1
      · subst he
        exact Or.inl (by simp [fresh, fdAt])
      · have hle : i ≤ s.userCount := by dsimp only at hi; omega
        have hne : (s.fds i).fd.toNat ≠ connfd := by
          intro h
          have := hs.nonneg i hle
          refine hfree i hle ?_
          omega
        have := hs.asked i h1 hle
        simpa [Asked, fdAt, Function.update_of_ne he, Function.update_of_ne hne] using this

theorem accept_sound (hs : Sound sock s) {res : Option (Nat × InAddr)} (hfree : ∀ r ∈ res, s.Free r.1) :
    Sound sock (s.accept res) := by
  unfold accept
  split
  · split
    · exact hs.congr rfl rfl rfl (fun _ => rfl) (fun _ => rfl) hs.wild
    · split
      · exact hs.congr rfl rfl rfl (fun _ => rfl) (fun _ => rfl) hs.wild
      · rename_i hcount
        exact addUser_sound hs (hfree _ rfl) (Nat.not_le.mp hcount)
  · exact hs.congr rfl rfl rfl (fun _ => rfl) (fun _ => rfl) hs.wild

theorem leave_sound (hs : Sound sock s) {i : Nat} (h1 : 1 ≤ i) (hi : i ≤ s.userCount) : Sound sock (s.leave i) := by
  -- entry `j` afterwards is the one that was at `at_ j`
  let at_ (j : Nat) := if j = i then s.userCount else j
  have hfds : ∀ j, (s.leave i).fds j = s.fds (at_ j) := by
    intro j
    by_cases hj : j = i
    · subst hj
      simp [leave, at_]
    · simp [leave, at_, hj]
  have hle : ∀ j ≤ s.userCount - 1, at_ j ≤ s.userCount ∧ at_ j ≠ i := by
    intro j hj
    simp only [at_]
    split <;> omega
  have hinj : ∀ j ≤ s.userCount - 1, ∀ k ≤ s.userCount - 1, at_ j = at_ k → j = k := by
    intro j hj k hk
    simp only [at_]
    split <;> split <;> omega
  refine ⟨Nat.le_trans (Nat.sub_le _ _) hs.limit, ?_, ?_, ?_, ?_, ?_, hs.wild⟩
  · rw [hfds]
    have h0 : at_ 0 = 0 := if_neg (by omega)
    rw [h0]
    exact hs.listening
  · intro j hj
    rw [hfds]
    exact hs.nonneg _ (hle j hj).1
  · intro j hj k hk h
    rw [hfds, hfds] at h
    exact hinj j hj k hk (hs.distinct _ (hle j hj).1 _ (hle k hk).1 h)
  · intro j hj
    rw [hfds]
    exact hs.reported _ (hle j hj).1
  · intro j hj1 hj
    obtain ⟨hjle, hjne⟩ := hle j hj
    have hpos : 1 ≤ at_ j := by
      simp only [at_]
      split <;> omega
    have hslot : s.fdAt (at_ j) ≠ s.fdAt i := fun h => hjne (hs.fdAt_inj hjle hi h)
    have hfd : (s.leave i).fdAt j = s.fdAt (at_ j) := by simp only [fdAt, hfds]
    have husers : (s.leave i).users (s.fdAt (at_ j)) = s.users (s.fdAt (at_ j)) := Function.update_of_ne hslot _ _
    have := hs.asked _ hpos hjle
    rw [Asked, hfd, hfds, husers]
    exact this

theorem post_sound (hs : Sound sock s) {connfd j : Nat} (h1 : 1 ≤ j) (hj : j ≤ s.userCount) :
    Sound sock (s.post connfd j) := by
  unfold post
  split
  · exact hs
  · rename_i hne
    have hother : connfd ≠ s.fdAt j := by
      intro h
      have := hs.nonneg j hj
      refine hne ?_
      unfold fdAt at h
      omega
    have hfd : ∀ k, (Function.update s.fds j
        { s.fds j with events := (s.fds j).events ||| ~~~pollIn ||| pollOut } k).fd = (s.fds k).fd := by
      intro k
      by_cases hk : k = j
      · subst hk
        simp
      · simp [Function.update_of_ne hk]
    refine ⟨hs.limit, ?_, ?_, ?_, ?_, ?_, hs.wild⟩
    · simpa [Function.update_of_ne (show 0 ≠ j by omega)] using hs.listening
    · intro k hk
      rw [hfd]
      exact hs.nonneg k hk
    · intro k hk l hl h
      rw [hfd, hfd] at h
      exact hs.distinct k hk l hl h
    · intro k hk
      by_cases he : k = j
      · subst he
        simp only [Function.update_self]
        have := ((hs.reported k hk).more (~~~pollIn)).more pollOut
        exact this
      · simpa [Function.update_of_ne he] using hs.reported k hk
    · intro k hk1 hk
      by_cases he : k = j
      · subst he
        right
        have hall : ∀ e : Bits, e = fresh ∨ e = BitVec.allOnes 16 →
            e ||| ~~~pollIn ||| pollOut = BitVec.allOnes 16 := by
          rintro e (rfl | rfl) <;> decide
        refine ⟨by simp [fdAt], ?_, Or.inr ⟨connfd, ?_, ?_, ?_⟩⟩
        · simpa using hall _ ((hs.asked k hk1 hk).imp And.right fun h => h.2.1)
        · simpa [fdAt] using hother
        · simp [fdAt]
        · simp [fdAt]
      · have hslot : (s.fds k).fd.toNat ≠ (s.fds j).fd.toNat := fun h => he (hs.fdAt_inj hk hj h)
        have := hs.asked k hk1 hk
        simpa [Asked, fdAt, Function.update_of_ne he, Function.update_of_ne hslot] using this

theorem post_userCount (s : Server) (connfd j : Nat) : (s.post connfd j).userCount = s.userCount := by
  unfold post
  split <;> rfl

theorem posts_sound (hs : Sound sock s) (connfd : Nat) {n : Nat} (hn : n ≤ s.userCount) :
    Sound sock ((List.range n).foldl (fun s j => s.post connfd (j + 1)) s) ∧
      ((List.range n).foldl (fun s j => s.post connfd (j + 1)) s).userCount = s.userCount := by
  induction n with
  | zero => exact ⟨hs, rfl⟩
  | succ n ih =>
    obtain ⟨ih, hcount⟩ := ih (by omega)
    rw [List.range_succ, List.foldl_append, List.foldl_cons, List.foldl_nil, post_userCount]
    exact ⟨post_sound ih (by omega) (by omega), hcount⟩

theorem setBuf_sound (hs : Sound sock s) (i : Nat) (l : List UInt8) (ph : Phase) : Sound sock { s with
    users := Function.update s.users (s.fdAt i) { s.users (s.fdAt i) with buf := l }, phase := ph } := by
  refine hs.congr rfl rfl rfl (fun fd => ?_) (fun fd => ?_) hs.wild
  · by_cases h : fd = s.fdAt i
    · simp [h]
    · simp [h]
  · by_cases h : fd = s.fdAt i
    · simp [h]
    · simp [h]

theorem readFrom_sound (hs : Sound sock s) {i : Nat} {data : Option (List UInt8)} (h1 : 1 ≤ i) (hi : i ≤ s.userCount) :
    Sound sock (s.readFrom i data) := by
  unfold readFrom
  dsimp only
  split
  · exact leave_sound (setBuf_sound hs i _ s.phase) h1 hi
  · split
    · exact setBuf_sound hs i _ _
    · exact (posts_sound (setBuf_sound hs i _ _) _ (Nat.le_refl _)).1

/-- Where `poll` says that a client can be written, a message has been posted to him. -/
theorem Sound.asks_everything (hs : Sound sock s) {i : Nat} (h1 : 1 ≤ i) (hi : i ≤ s.userCount)
    (hout : Has (s.fds i).revents pollOut) :
    s.posted (s.fdAt i) ≠ [] ∧ (s.fds i).events = BitVec.allOnes 16 ∧ (s.users (s.fdAt i)).Aimed (s.fdAt i) := by
  refine (hs.asked i h1 hi).resolve_left fun ⟨_, hfresh⟩ => ?_
  refine (hs.reported i hi).not_has ?_ hout
  rw [hfresh]
  decide

theorem writeTo_sound (hs : Sound sock s) {i : Nat} (h1 : 1 ≤ i) (hi : i ≤ s.userCount)
    (hout : Has (s.fds i).revents pollOut) : Sound sock (s.writeTo i) := by
  obtain ⟨hposted, hevents, haimed⟩ := hs.asks_everything h1 hi hout
  unfold writeTo
  dsimp only
  rcases haimed with ⟨hnull, -⟩ | ⟨g, hg, hpost, haddr⟩
  · rw [hnull]
    exact hs.congr rfl rfl rfl (fun _ => rfl) (fun _ => rfl) hs.wild
  · rw [hpost]
    dsimp only
    rw [haddr]
    dsimp only
    split
    · have hfds : Function.update s.fds i
          { s.fds i with events := (s.fds i).events ||| ~~~pollOut ||| pollIn } = s.fds := by
        refine Function.update_eq_self_iff.mpr ?_
        have : (s.fds i).events ||| ~~~pollOut ||| pollIn = (s.fds i).events := by
          rw [hevents]
          decide
        rw [this]
      rw [hfds]
      refine ⟨hs.limit, hs.listening, hs.nonneg, hs.distinct, hs.reported, fun k hk1 hk => ?_, hs.wild⟩
      by_cases he : k = i
      · subst he
        exact Or.inr ⟨hposted, hevents, Or.inl (by simp [fdAt])⟩
      · have hslot : (s.fds k).fd.toNat ≠ (s.fds i).fd.toNat := fun h => he (hs.fdAt_inj hk hi h)
        have := hs.asked k hk1 hk
        simpa [Asked, fdAt, Function.update_of_ne hslot] using this
    · exact hs.congr rfl rfl rfl (fun _ => rfl) (fun _ => rfl) (by simp [fail])

theorem entry_sound (hs : Sound sock s) {i : Nat} {data : Option (List UInt8)} (hi : i ≤ s.userCount) :
    Sound sock (s.entry i data) := by
  have hpos : ∀ b : Bits, b &&& (pollIn ||| pollErr ||| pollErr ||| pollHup ||| pollNval) = 0 →
      Has (s.fds i).revents b → 1 ≤ i := by
    intro b hb h
    rcases Nat.eq_zero_or_pos i with rfl | hpos
    · exact absurd h (hs.listens hb)
    · exact hpos
  unfold entry
  dsimp only
  split
  · exact hs.congr rfl rfl rfl (fun _ => rfl) (fun _ => rfl) hs.wild
  · split
    · rename_i hrd
      exact leave_sound hs (hpos _ (by decide) hrd) hi
    · split
      · rename_i hin
        exact readFrom_sound hs hin.1 hi
      · split
        · rename_i hout
          exact writeTo_sound hs (hpos _ (by decide) hout) hi hout
        · exact hs.congr rfl rfl rfl (fun _ => rfl) (fun _ => rfl) hs.wild

theorem step_sound (hs : Sound sock s) {e : Ev} (h : s.step e = some s') : Sound sock s' := by
  unfold step at h
  split at h
  · cases h
  · split at h
    · split at h
      · rename_i hrep
        obtain rfl := Option.some.inj h
        have hfds : ∀ i ≤ s.userCount, ∀ r,
            (if i ≤ s.userCount then ({ s.fds i with revents := r } : PollFd) else s.fds i) =
              { s.fds i with revents := r } := fun i hi _ => if_pos hi
        refine ⟨hs.limit, hs.listening, fun i hi => ?_, fun i hi j hj => ?_, fun i hi => ?_, fun i h1 hi => ?_, hs.wild⟩
        · simpa only [hfds i hi] using hs.nonneg i hi
        · simpa only [hfds i hi, hfds j hj] using hs.distinct i hi j hj
        · simpa only [hfds i hi, PollFd.Reports] using hrep i hi
        · simpa only [Asked, fdAt, hfds i hi] using hs.asked i h1 hi
      · cases h
    · split at h
      · rename_i hfree
        obtain rfl := Option.some.inj h
        exact accept_sound hs hfree
      · cases h
    · split at h
      · rename_i hi
        split at h
        · obtain rfl := Option.some.inj h
          exact entry_sound hs hi
        · cases h
      · obtain rfl := Option.some.inj h
        exact hs.congr rfl rfl rfl (fun _ => rfl) (fun _ => rfl) hs.wild
    · cases h

/-! ## Indices into `users` -/

/-- `accept` returns the lowest number that is not open: every lower one is one of `taken`,
    which the program has open besides its clients, or a client's. -/
def LowestFree (taken : Finset Nat) (s : Server) : Ev → Prop
  | .poll _ => True
  | .accept res => ∀ r ∈ res, ∀ m < r.1, m ∈ taken ∨ ∃ i < s.userCount, s.fdAt (i + 1) = m
  | .entry _ => True

instance (taken : Finset Nat) (s : Server) : (e : Ev) → Decidable (s.LowestFree taken e)
  | .poll _ => inferInstanceAs (Decidable True)
  | .accept res => inferInstanceAs (Decidable (∀ r ∈ res, ∀ m < r.1, _ ∨ ∃ i < s.userCount, _))
  | .entry _ => inferInstanceAs (Decidable True)

/-- Every client has a place in `users`, and no other was ever asked for. -/
structure Bounded (s : Server) : Prop where
  fault : s.fault ≠ some .users
  clients : ∀ i, 1 ≤ i → i ≤ s.userCount → s.fdAt i < FD_LIMIT

structure Fewer (s s' : Server) : Prop where
  fault : s.fault ≠ some .users → s'.fault ≠ some .users
  clients : ∀ i, 1 ≤ i → i ≤ s'.userCount → ∃ j, 1 ≤ j ∧ j ≤ s.userCount ∧ s'.fdAt i = s.fdAt j

theorem Fewer.refl (s : Server) : Fewer s s := ⟨id, fun i h1 hi => ⟨i, h1, hi, rfl⟩⟩

theorem Fewer.trans {s t u : Server} (h : Fewer s t) (h' : Fewer t u) : Fewer s u := by
  refine ⟨fun hs => h'.fault (h.fault hs), fun i h1 hi => ?_⟩
  obtain ⟨j, hj1, hj, heq⟩ := h'.clients i h1 hi
  obtain ⟨k, hk1, hk, heq'⟩ := h.clients j hj1 hj
  exact ⟨k, hk1, hk, heq.trans heq'⟩

theorem Fewer.bounded (h : Fewer s s') (hb : s.Bounded) : s'.Bounded := by
  refine ⟨h.fault hb.fault, fun i h1 hi => ?_⟩
  obtain ⟨j, hj1, hj, heq⟩ := h.clients i h1 hi
  rw [heq]
  exact hb.clients j hj1 hj

theorem leave_fewer (s : Server) {i : Nat} (h1 : 1 ≤ i) (hi : i ≤ s.userCount) : Fewer s (s.leave i) := by
  refine ⟨id, fun j hj1 hj => ?_⟩
  have hcount : (s.leave i).userCount = s.userCount - 1 := rfl
  by_cases he : j = i
  · exact ⟨s.userCount, by omega, Nat.le_refl _, by simp [fdAt, leave, he]⟩
  · exact ⟨j, hj1, by omega, by simp [fdAt, leave, he]⟩

theorem post_fewer (s : Server) (connfd j : Nat) : Fewer s (s.post connfd j) := by
  unfold post
  split
  · exact .refl s
  · refine ⟨id, fun k hk1 hk => ⟨k, hk1, hk, ?_⟩⟩
    by_cases he : k = j
    · simp [fdAt, he]
    · simp [fdAt, he]

theorem posts_fewer (s : Server) (connfd n : Nat) :
    Fewer s ((List.range n).foldl (fun s j => s.post connfd (j + 1)) s) := by
  induction n with
  | zero => exact .refl s
  | succ n ih =>
    rw [List.range_succ, List.foldl_append]
    exact ih.trans (post_fewer _ _ _)

theorem readFrom_fewer (s : Server) {i : Nat} (data : Option (List UInt8)) (h1 : 1 ≤ i) (hi : i ≤ s.userCount) :
    Fewer s (s.readFrom i data) := by
  have hbuf : ∀ (users : Nat → ClientData) (ph : Phase), Fewer s { s with users := users, phase := ph } :=
    fun _ _ => ⟨id, fun j h1 hj => ⟨j, h1, hj, rfl⟩⟩
  unfold readFrom
  dsimp only
  split
  · exact (hbuf _ s.phase).trans (leave_fewer _ h1 hi)
  · split
    · exact hbuf _ _
    · exact (hbuf _ _).trans (posts_fewer _ _ _)

theorem writeTo_fewer (s : Server) (i : Nat) : Fewer s (s.writeTo i) := by
  have hfail : ∀ f, f ≠ Fault.users → Fewer s (s.fail f) :=
    fun f hf => ⟨fun _ => by simp [fail, hf], fun j h1 hj => ⟨j, h1, hj, rfl⟩⟩
  unfold writeTo
  dsimp only
  split
  · exact ⟨id, fun j h1 hj => ⟨j, h1, hj, rfl⟩⟩
  · exact hfail _ (by decide)
  · split
    · exact hfail _ (by decide)
    · exact hfail _ (by decide)
    · split
      · refine ⟨id, fun k hk1 hk => ⟨k, hk1, hk, ?_⟩⟩
        by_cases he : k = i
        · simp [fdAt, he]
        · simp [fdAt, he]
      · exact hfail _ (by decide)

theorem entry_fewer (hs : Sound sock s) {i : Nat} (data : Option (List UInt8)) (hi : i ≤ s.userCount) :
    Fewer s (s.entry i data) := by
  unfold entry
  dsimp only
  split
  · exact ⟨id, fun j h1 hj => ⟨j, h1, hj, rfl⟩⟩
  · split
    · rename_i hrd
      refine leave_fewer s (Nat.one_le_iff_ne_zero.mpr fun h0 => ?_) hi
      subst h0
      exact hs.listens (by decide) hrd
    · split
      · rename_i hin
        exact readFrom_fewer s data hin.1 hi
      · split
        · exact writeTo_fewer s i
        · exact ⟨id, fun j h1 hj => ⟨j, h1, hj, rfl⟩⟩

/-- Lower numbers than one returned are few. -/
theorem lowest_le {taken : Finset Nat} {connfd : Nat}
    (h : ∀ m < connfd, m ∈ taken ∨ ∃ i < s.userCount, s.fdAt (i + 1) = m) :
    connfd ≤ taken.card + s.userCount := by
  have hsub : Finset.range connfd ⊆ taken ∪ (Finset.range s.userCount).image fun i => s.fdAt (i + 1) := by
    intro m hm
    rcases h m (Finset.mem_range.mp hm) with hm | ⟨i, hi, hfd⟩
    · exact Finset.mem_union_left _ hm
    · exact Finset.mem_union_right _ (Finset.mem_image.mpr ⟨i, Finset.mem_range.mpr hi, hfd⟩)
  calc connfd = (Finset.range connfd).card := (Finset.card_range connfd).symm
    _ ≤ (taken ∪ (Finset.range s.userCount).image fun i => s.fdAt (i + 1)).card := Finset.card_le_card hsub
    _ ≤ taken.card + ((Finset.range s.userCount).image fun i => s.fdAt (i + 1)).card := Finset.card_union_le _ _
    _ ≤ taken.card + s.userCount := Nat.add_le_add_left (Finset.card_image_le.trans_eq (Finset.card_range _)) _

theorem accept_bounded {taken : Finset Nat} (htaken : taken.card ≤ 5) (hb : s.Bounded)
    {res : Option (Nat × InAddr)} (hlow : s.LowestFree taken (.accept res)) : (s.accept res).Bounded := by
  have hsame : ∀ ph, ({ s with phase := ph } : Server).Bounded := fun _ => ⟨hb.fault, hb.clients⟩
  unfold accept
  split
  · split
    · exact hsame _
    · rename_i connfd peer
      split
      · exact hsame _
      · rename_i hcount
        have hle : connfd ≤ taken.card + s.userCount := lowest_le (hlow _ rfl)
        have hlt : connfd < FD_LIMIT := by
          unfold USER_LIMIT at hcount
          unfold FD_LIMIT
          omega
        unfold addUser
        rw [if_neg (Nat.not_le.mpr hlt)]
        refine ⟨hb.fault, fun i h1 hi => ?_⟩
        by_cases he : i = s.userCount + 1
        · simpa [fdAt, he] using hlt
        · have := hb.clients i h1 (by dsimp only at hi; omega)
          simpa [fdAt, he] using this
  · exact hsame _

theorem step_bounded {taken : Finset Nat} (htaken : taken.card ≤ 5) (hs : Sound sock s) (hb : s.Bounded) {e : Ev}
    (hlow : s.LowestFree taken e) (h : s.step e = some s') : s'.Bounded := by
  unfold step at h
  split at h
  · cases h
  · split at h
    · split at h
      · obtain rfl := Option.some.inj h
        refine ⟨hb.fault, fun i h1 hi => ?_⟩
        have := hb.clients i h1 hi
        simpa only [fdAt, if_pos (show i ≤ s.userCount from hi)] using this
      · cases h
    · split at h
      · obtain rfl := Option.some.inj h
        exact accept_bounded htaken hb hlow
      · cases h
    · split at h
      · rename_i hi
        split at h
        · obtain rfl := Option.some.inj h
          exact (entry_fewer hs _ hi).bounded hb
        · cases h
      · obtain rfl := Option.some.inj h
        exact ⟨hb.fault, hb.clients⟩
    · cases h

/-- Whatever `poll` reports, whoever comes, speaks and goes. -/
theorem table_sound {taken : Finset Nat} (htaken : taken.card ≤ 5) (junk : Nat → ClientData) (hsock : 0 ≤ sock)
    {es : List Ev} (h : Along step (LowestFree taken) (init junk sock) es) :
    Always step (fun s => Sound sock s ∧ s.Bounded) (init junk sock) es := by
  refine always_of_along ?_ ⟨init_sound junk hsock, by simp [init], fun i h1 hi => absurd (Nat.le_trans h1 hi) ?_⟩ h
  · intro s e s' hi hlow hs
    exact ⟨step_sound hi.1 hs, step_bounded htaken hi.1 hi.2 hlow hs⟩
  · simp [init]

def nobody : ClientData := ⟨⟨0, 0, 0, 0⟩, .wild, [], .wild⟩

def aVisit : List Ev :=
  [.poll fun i => if i = 0 then pollIn else 0, .accept (some (5, ⟨127, 0, 0, 1⟩)), .entry none, .entry none,
    .entry none, .poll fun i => if i = 0 then pollIn else 0, .accept (some (6, ⟨127, 0, 0, 1⟩)), .entry none,
    .entry none, .entry none, .entry none, .poll fun i => if i = 1 then pollIn else 0, .accept none, .entry none,
    .entry (some [104, 105, 10]), .entry none, .entry none, .poll fun i => if i = 2 then pollOut else 0, .accept none,
    .entry none, .entry none, .entry none, .entry none, .poll fun i => if i = 1 then pollRdHup else 0, .accept none,
    .entry none, .entry none]

/-- Two clients come, the first speaks, the second is written to, and the first hangs up. -/
theorem one_client_stays :
    Always step (fun s => Sound 3 s ∧ s.Bounded) (init (fun _ => nobody) 3) aVisit ∧
      (run step (init (fun _ => nobody) 3) aVisit).map (fun s => (s.userCount, (s.written 6).length)) = some (1, 1) := by
  have htaken : ({0, 1, 2, 3, 4} : Finset Nat).card ≤ 5 := by decide
  exact ⟨table_sound htaken _ (by decide) (by decide +kernel), by decide +kernel⟩

end Server

end GroupeChat.PollServer
