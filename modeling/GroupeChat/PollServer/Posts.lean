/-
  GroupeChat.PollServer.Posts — when everybody gets what the others say.

  A message is not copied for its readers: each has a pointer to the speaker's entry of
  `users`, and one pointer only. `Lossless`: what has been written to a client, and what
  the pointer would give him now, are the messages of the others since he came.

  It holds all along exactly the runs (`lossless_iff_orderly`) in which nobody speaks while
  a message is waiting for somebody else, and nothing changes the entry of a speaker whose
  message is waiting: he does not hang up (the last client's entry is copied over his, so
  the others get that one's text under that one's address), his descriptor does not go to
  the next client (the text then has the new address), and no `read` of his comes back with
  nothing (the text has been cleared). Two clients who speak in one round are enough
  (`two_speak_at_once`).
-/

import GroupeChat.PollServer.Table

namespace GroupeChat.PollServer

open Base

/-! ## A text on loan -/

/-- What a pointer to entry `g` reads as. -/
def record (users : Nat → ClientData) (g : Nat) : List UInt8 := padded (line (users g) (users g))

/-- What was written and what a pointer to `w` reads as are what was to be written. -/
structure Owed (users : Nat → ClientData) (w : Option Nat) (written posted : List (List UInt8)) : Prop where
  terminated : ∀ g ∈ w, (users g).Terminated
  all : written ++ w.toList.map (record users) = posted

def ClientData.ReadsAs (d d' : ClientData) : Prop := d.Terminated ∧ padded (line d d) = padded (line d' d')

instance (d d' : ClientData) : Decidable (d.ReadsAs d') := inferInstanceAs (Decidable (_ ∧ _))

variable {users users' : Nat → ClientData} {w : Option Nat} {written posted : List (List UInt8)}

/-- Pointers do not show in a text. -/
theorem Owed.congr (haddr : ∀ g, (users' g).address = (users g).address) (hbuf : ∀ g, (users' g).buf = (users g).buf)
    (h : Owed users w written posted) : Owed users' w written posted := by
  have hrec : record users' = record users := by
    funext g
    simp only [record, line, haddr, hbuf]
  refine ⟨fun g hg => ?_, by rw [hrec]; exact h.all⟩
  have := h.terminated g hg
  simpa only [ClientData.Terminated, hbuf] using this

/-- An entry that changes under a pointer. -/
theorem Owed.update_iff (fd : Nat) (d : ClientData) (h : Owed users w written posted) :
    Owed (Function.update users fd d) w written posted ↔ (w = some fd → d.ReadsAs (users fd)) := by
  have hself : record (Function.update users fd d) fd = padded (line d d) := by simp [record]
  refine ⟨?_, ?_⟩
  · rintro h' rfl
    refine ⟨by simpa using h'.terminated fd rfl, ?_⟩
    have hall := h'.all.trans h.all.symm
    have hone := List.append_cancel_left hall
    simp only [Option.toList_some, List.map_cons, List.map_nil, List.cons.injEq, and_true, hself] at hone
    exact hone
  · intro hreads
    by_cases hw : w = some fd
    · subst hw
      obtain ⟨hterm, hline⟩ := hreads rfl
      refine ⟨fun g hg => ?_, ?_⟩
      · obtain rfl := Option.mem_some_iff.mp hg
        simpa using hterm
      · have := h.all
        simp only [Option.toList_some, List.map_cons, List.map_nil, hself, hline]
        simpa [record] using this
    · have hne : ∀ g ∈ w, g ≠ fd := by
        rintro g hg rfl
        exact hw hg
      refine ⟨fun g hg => ?_, ?_⟩
      · rw [Function.update_of_ne (hne g hg)]
        exact h.terminated g hg
      · rw [← h.all]
        congr 1
        refine List.map_congr_left fun g hg => ?_
        simp only [record, Function.update_of_ne (hne g (Option.mem_toList.mp hg))]

/-- Another message, while `w` is waiting. -/
theorem Owed.post_iff {g : Nat} (h : Owed users w written posted) (hterm : (users' g).Terminated) :
    Owed users' (some g) written (posted ++ [record users' g]) ↔ w = none := by
  refine ⟨?_, ?_⟩
  · intro h'
    have hall := h'.all
    simp only [Option.toList_some, List.map_cons, List.map_nil] at hall
    have hwritten := List.append_cancel_right hall
    have := h.all
    rw [← hwritten] at this
    cases w with
    | none => rfl
    | some v => simp at this
  · rintro rfl
    refine ⟨fun v hv => ?_, ?_⟩
    · obtain rfl := Option.mem_some_iff.mp hv
      exact hterm
    · have := h.all
      simp only [Option.toList_none, List.map_nil, List.append_nil] at this
      simp [this]

namespace Server

/-! ## The condition -/

/-- Whose text is waiting for entry `i`. -/
def waitsFor (s : Server) (i : Nat) : Option Nat :=
  if Has (s.fds i).events pollOut then
    match (s.users (s.fdAt i)).writePost with
    | .null => none
    | .wild => none
    | .entry g => some g
  else none

/-- What the loop does with an entry. -/
inductive Turn where
  | skip
  | leave
  | read
  | write
  deriving DecidableEq

def turn (s : Server) (i : Nat) : Turn :=
  let revents := (s.fds i).revents
  if Has revents pollErr then .skip
  else if Has revents pollRdHup then .leave
  else if 0 < i ∧ Has revents pollIn then .read
  else if Has revents pollOut then .write
  else .skip

theorem entry_eq (s : Server) (i : Nat) (data : Option (List UInt8)) : s.entry i data =
    match s.turn i with
    | .skip => { s with phase := .entry (i + 1) }
    | .leave => s.leave i
    | .read => s.readFrom i data
    | .write => s.writeTo i := by
  unfold entry turn
  dsimp only
  split_ifs <;> rfl

/-- The entry of descriptor `fd` in `users` can become `d`: for all but entry `i`, what
    waits still reads the same. -/
def Undisturbed (s : Server) (i fd : Nat) (d : ClientData) : Prop :=
  ∀ j ≤ s.userCount, 1 ≤ j → j ≠ i → s.waitsFor j = some fd → d.ReadsAs (s.users fd)

instance (s : Server) (i fd : Nat) (d : ClientData) : Decidable (s.Undisturbed i fd d) :=
  inferInstanceAs (Decidable (∀ j ≤ s.userCount, _ → _ → _ → _))

def cleared (s : Server) (i : Nat) : ClientData :=
  { s.users (s.fdAt i) with buf := List.replicate BUFFSIZE 0 }

/-- What takes the place of entry `i`'s data when his `read` fails. -/
def replaces (s : Server) (i : Nat) : ClientData :=
  if i = s.userCount then s.cleared i else s.users (s.fdAt s.userCount)

def ReadsOrderly (s : Server) (i : Nat) : Option (List UInt8) → Prop
  | none => s.Undisturbed i (s.fdAt i) (s.replaces i)
  | some [] => s.Undisturbed i (s.fdAt i) (s.cleared i)
  | some (_ :: _) => ∀ j ≤ s.userCount, 1 ≤ j → j ≠ i → s.waitsFor j = none

def Orderly (s : Server) : Ev → Prop
  | .poll _ => True
  | .accept res => Has (s.fds 0).revents pollIn → s.userCount < USER_LIMIT → ∀ r ∈ res, r.1 < FD_LIMIT →
      s.Undisturbed 0 r.1 { s.users r.1 with address := r.2 }
  | .entry data => match s.phase with
    | .poll => True
    | .accept => True
    | .entry i => i ≤ s.userCount → match s.turn i with
      | .skip => True
      | .leave => s.Undisturbed i (s.fdAt i) (s.users (s.fdAt s.userCount))
      | .read => s.ReadsOrderly i data
      | .write => True

instance (s : Server) (i : Nat) : (data : Option (List UInt8)) → Decidable (s.ReadsOrderly i data)
  | none => inferInstanceAs (Decidable (s.Undisturbed i (s.fdAt i) (s.replaces i)))
  | some [] => inferInstanceAs (Decidable (s.Undisturbed i (s.fdAt i) (s.cleared i)))
  | some (_ :: _) => inferInstanceAs (Decidable (∀ j ≤ s.userCount, 1 ≤ j → j ≠ i → s.waitsFor j = none))

instance (s : Server) (e : Ev) : Decidable (s.Orderly e) := by
  unfold Orderly
  cases e with
  | poll _ => exact inferInstanceAs (Decidable True)
  | accept res => exact inferInstanceAs (Decidable (_ → _ → ∀ r ∈ res, _ → s.Undisturbed 0 _ _))
  | entry data =>
    cases s.phase with
    | poll => exact inferInstanceAs (Decidable True)
    | accept => exact inferInstanceAs (Decidable True)
    | entry i =>
      dsimp only
      cases s.turn i with
      | skip => exact inferInstanceAs (Decidable (i ≤ s.userCount → True))
      | leave => exact inferInstanceAs (Decidable (i ≤ s.userCount → s.Undisturbed i _ _))
      | read => exact inferInstanceAs (Decidable (i ≤ s.userCount → s.ReadsOrderly i data))
      | write => exact inferInstanceAs (Decidable (i ≤ s.userCount → True))

/-- Every client has been written, or has waiting for him, what the others have said. -/
def Lossless (s : Server) : Prop :=
  ∀ i ≤ s.userCount, 1 ≤ i → Owed s.users (s.waitsFor i) (s.written (s.fdAt i)) (s.posted (s.fdAt i))

variable {sock : Int} {s s' : Server}

/-- Nobody's own text is waiting for him. -/
theorem Sound.waitsFor_ne (hs : Sound sock s) {i : Nat} (h1 : 1 ≤ i) (hi : i ≤ s.userCount) :
    s.waitsFor i ≠ some (s.fdAt i) := by
  intro h
  unfold waitsFor at h
  rcases hs.asked i h1 hi with ⟨-, hfresh⟩ | ⟨-, -, haimed⟩
  · rw [hfresh, if_neg (by decide)] at h
    cases h
  · rcases haimed with ⟨hnull, -⟩ | ⟨g, hg, hpost, -⟩
    · rw [hnull] at h
      split at h <;> cases h
    · rw [hpost] at h
      split at h
      · exact hg (Option.some.inj h)
      · cases h

/-! ## Steps that say nothing -/

/-- The entries are those there were, with the same texts waiting. -/
theorem Lossless.congr (hl : s.Lossless) (hcount : s'.userCount = s.userCount) (hfd : ∀ i, s'.fdAt i = s.fdAt i)
    (hevents : ∀ i, (s'.fds i).events = (s.fds i).events) (husers : s'.users = s.users)
    (hwritten : s'.written = s.written) (hposted : s'.posted = s.posted) : s'.Lossless := by
  intro i hi h1
  have := hl i (by rwa [← hcount]) h1
  simpa only [waitsFor, hfd, hevents, husers, hwritten, hposted] using this

def leaveWith (s : Server) (i : Nat) (d : ClientData) : Server :=
  { s with
    users := Function.update s.users (s.fdAt i) d
    fds := Function.update s.fds i (s.fds s.userCount)
    userCount := s.userCount - 1
    phase := .entry i }

theorem leaveWith_iff (hs : Sound sock s) (hl : s.Lossless) {i : Nat} (h1 : 1 ≤ i) (hi : i ≤ s.userCount)
    (d : ClientData) : (s.leaveWith i d).Lossless ↔ s.Undisturbed i (s.fdAt i) d := by
  let at_ (j : Nat) := if j = i then s.userCount else j
  have hfds : ∀ j, (s.leaveWith i d).fds j = s.fds (at_ j) := by
    intro j
    by_cases hj : j = i
    · subst hj
      simp [leaveWith, at_]
    · simp [leaveWith, at_, hj]
  have howed : ∀ j, at_ j ≤ s.userCount → 1 ≤ at_ j → at_ j ≠ i →
      (Owed (s.leaveWith i d).users ((s.leaveWith i d).waitsFor j) ((s.leaveWith i d).written ((s.leaveWith i d).fdAt j))
        ((s.leaveWith i d).posted ((s.leaveWith i d).fdAt j)) ↔
        (s.waitsFor (at_ j) = some (s.fdAt i) → d.ReadsAs (s.users (s.fdAt i)))) := by
    intro j hle hpos hne
    have hslot : s.fdAt (at_ j) ≠ s.fdAt i := fun h => hne (hs.fdAt_inj hle hi h)
    have hfd : (s.leaveWith i d).fdAt j = s.fdAt (at_ j) := by simp only [fdAt, hfds]
    have husers : (s.leaveWith i d).users (s.fdAt (at_ j)) = s.users (s.fdAt (at_ j)) := Function.update_of_ne hslot _ _
    have hwaits : (s.leaveWith i d).waitsFor j = s.waitsFor (at_ j) := by
      simp only [waitsFor, hfd, hfds, husers]
    rw [hwaits, hfd]
    exact (hl _ hle hpos).update_iff _ _
  have hcount : (s.leaveWith i d).userCount = s.userCount - 1 := rfl
  refine ⟨?_, ?_⟩
  · intro h k hk hk1 hki
    -- entry `k` stays where it is, or is the last and goes to `i`
    by_cases hlast : k = s.userCount
    · have hat : at_ i = k := by simp [at_, hlast]
      have := (howed i (by omega) (by omega) (by omega)).mp (h i (by omega) h1)
      rwa [hat] at this
    · have hat : at_ k = k := by simp [at_, hki]
      have := (howed k (by omega) (by omega) (by omega)).mp (h k (by omega) hk1)
      rwa [hat] at this
  · intro h j hj hj1
    have hle : at_ j ≤ s.userCount ∧ 1 ≤ at_ j ∧ at_ j ≠ i := by
      simp only [at_]
      split <;> omega
    exact (howed j hle.1 hle.2.1 hle.2.2).mpr (h _ hle.1 hle.2.1 hle.2.2)

/-- A client's entry changes, but for what he is waiting for. -/
theorem setUser_iff (hl : s.Lossless) {fd : Nat} {d : ClientData} {ph : Phase}
    (hpost : d.writePost = (s.users fd).writePost) :
    ({ s with users := Function.update s.users fd d, phase := ph } : Server).Lossless ↔
      ∀ j ≤ s.userCount, 1 ≤ j → s.waitsFor j = some fd → d.ReadsAs (s.users fd) := by
  have hwaits : ∀ j, ({ s with users := Function.update s.users fd d, phase := ph } : Server).waitsFor j =
      s.waitsFor j := by
    intro j
    by_cases h : s.fdAt j = fd
    · subst h
      simp only [waitsFor, fdAt, Function.update_self] at hpost ⊢
      rw [hpost]
    · have h' : (s.fds j).fd.toNat ≠ fd := h
      simp only [waitsFor, fdAt, Function.update_of_ne h']
  refine forall_congr' fun j => ?_
  refine forall_congr' fun hj => ?_
  refine forall_congr' fun h1 => ?_
  rw [hwaits]
  exact (hl j hj h1).update_iff _ _

theorem addUser_iff (hs : Sound sock s) (hl : s.Lossless) {connfd : Nat} {peer : InAddr} (hfree : s.Free connfd)
    (hlt : connfd < FD_LIMIT) :
    (s.addUser connfd peer).Lossless ↔
      s.Undisturbed 0 connfd { s.users connfd with address := peer } := by
  have hne : ∀ j ≤ s.userCount, s.fdAt j ≠ connfd := by
    intro j hj h
    have := hs.nonneg j hj
    refine hfree j hj ?_
    unfold fdAt at h
    omega
  unfold addUser
  rw [if_neg (Nat.not_le.mpr hlt)]
  have howed : ∀ j ≤ s.userCount, 1 ≤ j →
      (Owed (Function.update s.users connfd { s.users connfd with address := peer }) (s.waitsFor j)
        (s.written (s.fdAt j)) (s.posted (s.fdAt j)) ↔
        (s.waitsFor j = some connfd → ({ s.users connfd with address := peer } : ClientData).ReadsAs (s.users connfd))) :=
    fun j hj h1 => (hl j hj h1).update_iff _ _
  have hold : ∀ j ≤ s.userCount, Function.update s.fds (s.userCount + 1)
      ⟨connfd, pollIn ||| pollErr ||| pollRdHup, 0⟩ j = s.fds j := fun j hj => Function.update_of_ne (by omega) _ _
  refine ⟨?_, ?_⟩
  · intro h j hj h1 _
    have := h j (Nat.le_succ_of_le hj) h1
    have hslot := hne j hj
    simp only [waitsFor, fdAt, hold j hj] at this hslot
    simp only [Function.update_of_ne hslot] at this
    exact (howed j hj h1).mp this
  · intro h j hj h1
    by_cases hnew : j = s.userCount + 1
    · subst hnew
      have hno : ¬ Has (pollIn ||| pollErr ||| pollRdHup) pollOut := by decide
      simp only [waitsFor, fdAt, Function.update_self, hno, if_false, Int.toNat_natCast]
      exact ⟨fun g hg => (by cases hg), rfl⟩
    · have hj' : j ≤ s.userCount := by dsimp only at hj; omega
      have := (howed j hj' h1).mpr (h j hj' h1 (by omega))
      have hslot := hne j hj'
      simp only [waitsFor, fdAt, hold j hj'] at this hslot ⊢
      simpa only [Function.update_of_ne hslot] using this

/-! ## A message -/

theorem has_or (e b : Bits) (h : b ≠ 0#16) : Has (e ||| b) b := by
  have hand : (e ||| b) &&& b = b := by
    ext i hi
    simp
    exact fun h => Or.inr h
  unfold Has
  rw [hand]
  exact h

/-- After the first `m` turns of the loop that gives out what entry `i` has said in `s`. -/
structure Posting (s : Server) (i m : Nat) (t : Server) : Prop where
  count : t.userCount = s.userCount
  fds : ∀ k, (t.fds k).fd = (s.fds k).fd
  address : ∀ g, (t.users g).address = (s.users g).address
  buf : ∀ g, (t.users g).buf = (s.users g).buf
  written : t.written = s.written
  done : ∀ k, 1 ≤ k → k ≤ m → k ≠ i → t.waitsFor k = some (s.fdAt i) ∧
    t.posted (s.fdAt k) = s.posted (s.fdAt k) ++ [record s.users (s.fdAt i)]
  todo : ∀ k ≤ s.userCount, 1 ≤ k → (k = i ∨ m < k) →
    t.waitsFor k = s.waitsFor k ∧ t.posted (s.fdAt k) = s.posted (s.fdAt k)

theorem post_posting (hs : Sound sock s) {i m : Nat} {t : Server} (hi : i ≤ s.userCount) (hm : m + 1 ≤ s.userCount)
    (ht : Posting s i m t) : Posting s i (m + 1) (t.post (s.fdAt i) (m + 1)) := by
  have hfdAt : ∀ k, t.fdAt k = s.fdAt k := fun k => by simp only [fdAt, ht.fds]
  have hcast : ∀ k ≤ s.userCount, (s.fds k).fd = (s.fdAt k : Int) := by
    intro k hk
    have := hs.nonneg k hk
    unfold fdAt
    omega
  by_cases he : m + 1 = i
  · -- his own entry is left out
    have hself : (t.fds (m + 1)).fd = (s.fdAt i : Int) := by rw [ht.fds, he, hcast i hi]
    have hsame : t.post (s.fdAt i) (m + 1) = t := by
      unfold post
      rw [if_pos hself]
    rw [hsame]
    refine { ht with done := fun k h1 hk hki => ht.done k h1 (by omega) hki, todo := fun k hk h1 hor => ?_ }
    exact ht.todo k hk h1 (by omega)
  · have hother : ¬ (t.fds (m + 1)).fd = (s.fdAt i : Int) := by
      rw [ht.fds]
      intro h
      refine he (hs.fdAt_inj hm hi ?_)
      rw [hcast _ hm] at h
      exact_mod_cast h
    have hne : ∀ k ≤ s.userCount, k ≠ m + 1 → s.fdAt k ≠ s.fdAt (m + 1) := fun k hk hkm h => hkm (hs.fdAt_inj hk hm h)
    have hrec : padded (line (t.users (s.fdAt i)) (t.users (s.fdAt i))) = record s.users (s.fdAt i) := by
      simp only [record, line, ht.address, ht.buf]
    have hkeep : ∀ k ≤ s.userCount, k ≠ m + 1 → (t.post (s.fdAt i) (m + 1)).waitsFor k = t.waitsFor k ∧
        (t.post (s.fdAt i) (m + 1)).posted (s.fdAt k) = t.posted (s.fdAt k) := by
      intro k hk hkm
      have hslot := hne k hk hkm
      unfold post
      rw [if_neg hother]
      refine ⟨?_, ?_⟩
      · have hslot' : (t.fds k).fd.toNat ≠ (t.fds (m + 1)).fd.toNat := by
          rw [ht.fds, ht.fds]
          exact hslot
        simp only [waitsFor, fdAt, Function.update_of_ne hkm, Function.update_of_ne hslot']
      · dsimp only
        rw [hfdAt, Function.update_of_ne hslot]
    have hnew : (t.post (s.fdAt i) (m + 1)).waitsFor (m + 1) = some (s.fdAt i) ∧
        (t.post (s.fdAt i) (m + 1)).posted (s.fdAt (m + 1)) =
          t.posted (s.fdAt (m + 1)) ++ [record s.users (s.fdAt i)] := by
      unfold post
      rw [if_neg hother]
      refine ⟨?_, ?_⟩
      · have hhas := has_or ((t.fds (m + 1)).events ||| ~~~pollIn) pollOut (by decide)
        simp only [waitsFor, fdAt, Function.update_self, if_pos hhas]
      · dsimp only
        rw [hfdAt, Function.update_self, hrec]
    refine ⟨(post_userCount _ _ _).trans ht.count, fun k => ?_, fun g => ?_, fun g => ?_, ?_, fun k h1 hk hki => ?_,
      fun k hk h1 hor => ?_⟩
    · rw [← ht.fds]
      unfold post
      rw [if_neg hother]
      by_cases hk : k = m + 1
      · simp [hk]
      · simp [hk]
    · rw [← ht.address]
      unfold post
      rw [if_neg hother]
      by_cases hg : g = t.fdAt (m + 1)
      · simp [hg]
      · simp [hg]
    · rw [← ht.buf]
      unfold post
      rw [if_neg hother]
      by_cases hg : g = t.fdAt (m + 1)
      · simp [hg]
      · simp [hg]
    · rw [← ht.written]
      unfold post
      rw [if_neg hother]
    · by_cases hkm : k = m + 1
      · subst hkm
        obtain ⟨-, hposted⟩ := ht.todo (m + 1) hm h1 (Or.inr (by omega))
        rw [← hposted]
        exact hnew
      · obtain ⟨hw, hp⟩ := hkeep k (by omega) hkm
        obtain ⟨hw', hp'⟩ := ht.done k h1 (by omega) hki
        exact ⟨hw.trans hw', hp.trans hp'⟩
    · have hkm : k ≠ m + 1 := by omega
      obtain ⟨hw, hp⟩ := hkeep k hk hkm
      obtain ⟨hw', hp'⟩ := ht.todo k hk h1 (by omega)
      exact ⟨hw.trans hw', hp.trans hp'⟩

theorem posts_posting (hs : Sound sock s) {i : Nat} (hi : i ≤ s.userCount) {m : Nat} (hm : m ≤ s.userCount) :
    Posting s i m ((List.range m).foldl (fun t j => t.post (s.fdAt i) (j + 1)) s) := by
  induction m with
  | zero =>
    exact ⟨rfl, fun _ => rfl, fun _ => rfl, fun _ => rfl, rfl, fun k h1 hk => absurd (Nat.le_trans h1 hk) (by omega),
      fun _ _ _ _ => ⟨rfl, rfl⟩⟩
  | succ m ih =>
    rw [List.range_succ, List.foldl_append]
    exact post_posting hs hi hm (ih (by omega))

/-- Somebody speaks: nothing is lost exactly when nobody else had anything waiting. -/
theorem says_iff (hs : Sound sock s) (hl : s.Lossless) {i : Nat} (h1 : 1 ≤ i) (hi : i ≤ s.userCount) {b : UInt8}
    {rest : List UInt8} (hlen : (b :: rest).length ≤ BUFFSIZE - 1) :
    (s.readFrom i (some (b :: rest))).Lossless ↔ ∀ j ≤ s.userCount, 1 ≤ j → j ≠ i → s.waitsFor j = none := by
  obtain ⟨buf, hbuf⟩ : ∃ l, l = (b :: rest).dropLast ++ List.replicate (BUFFSIZE + 1 - (b :: rest).length) 0 := ⟨_, rfl⟩
  obtain ⟨u, hu⟩ : ∃ u, u = ({ s with
      users := Function.update s.users (s.fdAt i) { s.users (s.fdAt i) with buf := buf }
      phase := .entry (i + 1) } : Server) := ⟨_, rfl⟩
  have hread : s.readFrom i (some (b :: rest)) =
      (List.range u.userCount).foldl (fun t j => t.post (u.fdAt i) (j + 1)) u := by
    rw [hu, hbuf]
    unfold readFrom
    dsimp only
    rw [if_neg (by simp)]
    rfl
  have hsound : Sound sock u := by
    rw [hu]
    exact setBuf_sound hs i buf _
  have hfd : ∀ k, u.fdAt k = s.fdAt k := fun k => by rw [hu]; rfl
  have hcount : u.userCount = s.userCount := by rw [hu]
  have hposting := posts_posting hsound (i := i) (by rw [hcount]; exact hi) (Nat.le_refl u.userCount)
  rw [← hread] at hposting
  have hwaits : ∀ k, u.waitsFor k = s.waitsFor k := by
    intro k
    rw [hu]
    by_cases h : s.fdAt k = s.fdAt i
    · have h' : (s.fds k).fd.toNat = (s.fds i).fd.toNat := h
      simp only [waitsFor, fdAt, h', Function.update_self]
    · have h' : (s.fds k).fd.toNat ≠ (s.fds i).fd.toNat := h
      simp only [waitsFor, fdAt, Function.update_of_ne h']
  have hterm : (u.users (u.fdAt i)).Terminated := by
    rw [hfd, hu]
    simp only [ClientData.Terminated, Function.update_self, hbuf]
    refine List.mem_append_right _ (List.mem_replicate.mpr ⟨?_, rfl⟩)
    simp only [BUFFSIZE] at hlen ⊢
    omega
  have hrec : record (s.readFrom i (some (b :: rest))).users (u.fdAt i) = record u.users (u.fdAt i) := by
    simp only [record, line, hposting.address, hposting.buf]
  have hterm' : ((s.readFrom i (some (b :: rest))).users (u.fdAt i)).Terminated := by
    simpa only [ClientData.Terminated, hposting.buf] using hterm
  have hfdAt : ∀ k, (s.readFrom i (some (b :: rest))).fdAt k = s.fdAt k := fun k => by
    rw [← hfd k]
    simp only [fdAt, hposting.fds]
  have hwritten : (s.readFrom i (some (b :: rest))).written = s.written := hposting.written.trans (by rw [hu])
  have hposted : u.posted = s.posted := by rw [hu]
  have hothers : ∀ j ≤ s.userCount, 1 ≤ j → j ≠ i →
      (Owed (s.readFrom i (some (b :: rest))).users ((s.readFrom i (some (b :: rest))).waitsFor j)
        ((s.readFrom i (some (b :: rest))).written ((s.readFrom i (some (b :: rest))).fdAt j))
        ((s.readFrom i (some (b :: rest))).posted ((s.readFrom i (some (b :: rest))).fdAt j)) ↔ s.waitsFor j = none) := by
    intro j hj hj1 hji
    obtain ⟨hw, hp⟩ := hposting.done j hj1 (by rw [hcount]; exact hj) hji
    rw [hw, hfdAt, hwritten, ← hfd j, hp, hposted, hfd j, ← hrec]
    exact (hl j hj hj1).post_iff hterm'
  refine ⟨?_, ?_⟩
  · intro h j hj hj1 hji
    exact (hothers j hj hj1 hji).mp (h j (by rw [hposting.count, hcount]; exact hj) hj1)
  · intro h j hj hj1
    rw [hposting.count, hcount] at hj
    by_cases hji : j = i
    · subst hji
      obtain ⟨hw, hp⟩ := hposting.todo j (by rw [hcount]; exact hj) hj1 (Or.inl rfl)
      rw [hw, hwaits, hfdAt, hwritten, ← hfd j, hp, hposted, hfd j]
      have hown := (hl j hj hj1).update_iff (s.fdAt j)
        { s.users (s.fdAt j) with buf := buf } |>.mpr fun h => absurd h (hs.waitsFor_ne hj1 hj)
      refine hown.congr (fun g => ?_) fun g => ?_
      · rw [hposting.address, hu]
      · rw [hposting.buf, hu]
    · exact (hothers j hj hj1 hji).mpr (h j hj hj1 hji)

/-! ## Runs -/

theorem writeTo_lossless (hs : Sound sock s) (hl : s.Lossless) {i : Nat} (h1 : 1 ≤ i) (hi : i ≤ s.userCount)
    (hout : Has (s.fds i).revents pollOut) : (s.writeTo i).Lossless := by
  obtain ⟨-, hevents, haimed⟩ := hs.asks_everything h1 hi hout
  have hasks : Has (s.fds i).events pollOut := by
    rw [hevents]
    decide
  unfold writeTo
  dsimp only
  rcases haimed with ⟨hnull, -⟩ | ⟨g, hg, hpost, haddr⟩
  · rw [hnull]
    exact hl.congr rfl (fun _ => rfl) (fun _ => rfl) rfl rfl rfl
  · have hwaits : s.waitsFor i = some g := by
      unfold waitsFor
      rw [if_pos hasks, hpost]
    have howed := hl i hi h1
    rw [hwaits] at howed
    rw [hpost]
    dsimp only
    rw [haddr]
    dsimp only
    rw [if_pos (howed.terminated g rfl)]
    intro k hk hk1
    by_cases he : k = i
    · subst he
      have hnone : (if Has (BitVec.allOnes 16 ||| ~~~pollOut ||| pollIn) pollOut then (none : Option Nat) else none) =
          none := by split <;> rfl
      simp only [waitsFor, fdAt, Function.update_self, hevents]
      rw [hnone]
      refine ⟨fun v hv => (by cases hv), ?_⟩
      have := howed.all
      simpa [record, fdAt] using this
    · have hslot : (s.fds k).fd.toNat ≠ (s.fds i).fd.toNat := fun h => he (hs.fdAt_inj hk hi h)
      have := hl k hk hk1
      simp only [waitsFor, fdAt, Function.update_of_ne he, Function.update_of_ne hslot] at this ⊢
      refine this.congr (fun v => ?_) fun v => ?_
      · by_cases hv : v = (s.fds i).fd.toNat
        · simp [hv]
        · simp [hv]
      · by_cases hv : v = (s.fds i).fd.toNat
        · simp [hv]
        · simp [hv]

/-- A `read` that fails. -/
theorem readFrom_none (hs : Sound sock s) {i : Nat} (hi : i ≤ s.userCount) :
    s.readFrom i none = s.leaveWith i (s.replaces i) := by
  have hslot : s.fdAt s.userCount = s.fdAt i ↔ i = s.userCount :=
    ⟨fun h => (hs.fdAt_inj (Nat.le_refl _) hi h).symm, fun h => by rw [h]⟩
  unfold readFrom leave leaveWith replaces cleared
  dsimp only
  congr 1
  show Function.update (Function.update s.users (s.fdAt i) _) (s.fdAt i)
    (Function.update s.users (s.fdAt i) _ (s.fdAt s.userCount)) = _
  rw [Function.update_idem]
  congr 1
  by_cases h : i = s.userCount
  · rw [if_pos h, hslot.mpr h, Function.update_self]
  · rw [if_neg h, Function.update_of_ne fun h' => h (hslot.mp h')]

theorem entry_iff (hs : Sound sock s) (hl : s.Lossless) {i : Nat} {data : Option (List UInt8)}
    (hphase : s.phase = .entry i) (hi : i ≤ s.userCount) (hlen : ∀ d ∈ data, d.length ≤ BUFFSIZE - 1) :
    (s.entry i data).Lossless ↔ s.Orderly (.entry data) := by
  have hturn : s.turn i ≠ .skip → 1 ≤ i := by
    intro h
    rcases Nat.eq_zero_or_pos i with rfl | hpos
    · refine absurd ?_ h
      have hrd := hs.listens (b := pollRdHup) (by decide)
      have hout := hs.listens (b := pollOut) (by decide)
      simp [turn, hrd, hout]
    · exact hpos
  have hskip : ∀ ph, ({ s with phase := ph } : Server).Lossless :=
    fun _ => hl.congr rfl (fun _ => rfl) (fun _ => rfl) rfl rfl rfl
  rw [entry_eq]
  simp only [Orderly, hphase, hi, forall_const]
  cases ht : s.turn i with
  | skip => exact iff_of_true (hskip _) trivial
  | leave => exact leaveWith_iff hs hl (hturn (by simp [ht])) hi _
  | write =>
    refine iff_of_true (writeTo_lossless hs hl (hturn (by simp [ht])) hi ?_) trivial
    by_contra hout
    simp only [turn, hout, if_false] at ht
    split_ifs at ht
  | read =>
    have h1 := hturn (by simp [ht])
    cases data with
    | none =>
      dsimp only
      rw [readFrom_none hs hi]
      exact leaveWith_iff hs hl h1 hi _
    | some l =>
      cases l with
      | nil =>
        dsimp only
        refine (setUser_iff hl (d := s.cleared i) rfl).trans ?_
        refine ⟨fun h j hj hj1 _ => h j hj hj1, fun h j hj hj1 hw => ?_⟩
        by_cases hji : j = i
        · subst hji
          exact absurd hw (hs.waitsFor_ne hj1 hj)
        · exact h j hj hj1 hji hw
      | cons b rest => exact says_iff hs hl h1 hi (hlen _ rfl)

theorem step_iff (hs : Sound sock s) (hl : s.Lossless) {e : Ev} (h : s.step e = some s') :
    s'.Lossless ↔ s.Orderly e := by
  have hskip : ∀ ph, ({ s with phase := ph } : Server).Lossless :=
    fun _ => hl.congr rfl (fun _ => rfl) (fun _ => rfl) rfl rfl rfl
  unfold step at h
  split at h
  · cases h
  · split at h
    · split at h
      · obtain rfl := Option.some.inj h
        refine iff_of_true (hl.congr rfl (fun i => ?_) (fun i => ?_) rfl rfl rfl) trivial
        · unfold fdAt
          dsimp only
          split <;> rfl
        · dsimp only
          split <;> rfl
      · cases h
    · split at h
      · rename_i res _ hfree
        obtain rfl := Option.some.inj h
        unfold accept Orderly
        by_cases hin : Has (s.fds 0).revents pollIn
        · rw [if_pos hin]
          cases res with
          | none => exact iff_of_true (hskip _) fun _ _ r hr => by cases hr
          | some r =>
            obtain ⟨connfd, peer⟩ := r
            dsimp only
            by_cases hcount : USER_LIMIT ≤ s.userCount
            · rw [if_pos hcount]
              exact iff_of_true (hskip _) fun _ hlt => absurd hlt (Nat.not_lt.mpr hcount)
            · rw [if_neg hcount]
              by_cases hlt : connfd < FD_LIMIT
              · refine (addUser_iff hs hl (hfree _ rfl) hlt).trans ?_
                refine ⟨fun h _ _ r hr _ => ?_, fun h => h hin (Nat.not_le.mp hcount) _ rfl hlt⟩
                obtain rfl := Option.mem_some_iff.mp hr
                exact h
              · refine iff_of_true ?_ fun _ _ r hr hr' => ?_
                · unfold addUser
                  rw [if_pos (Nat.not_lt.mp hlt)]
                  exact hl.congr rfl (fun _ => rfl) (fun _ => rfl) rfl rfl rfl
                · obtain rfl := Option.mem_some_iff.mp hr
                  exact absurd hr' hlt
        · rw [if_neg hin]
          exact iff_of_true (hskip _) fun h => absurd h hin
      · cases h
    · rename_i i data hphase
      split at h
      · rename_i hi
        split at h
        · rename_i hlen
          obtain rfl := Option.some.inj h
          exact entry_iff hs hl hphase hi hlen
        · cases h
      · rename_i hi
        obtain rfl := Option.some.inj h
        refine iff_of_true (hskip _) ?_
        simp only [Orderly, hphase]
        exact fun h => absurd h hi
    · cases h

/-- Whatever `poll` reports, whoever comes, speaks and goes. -/
theorem lossless_iff_orderly (junk : Nat → ClientData) (hsock : 0 ≤ sock) (es : List Ev) :
    Always step Lossless (init junk sock) es ↔ Along step Orderly (init junk sock) es := by
  refine always_iff_along (I := fun s => Sound sock s ∧ s.Lossless) (fun _ h => h.2) ?_ ⟨init_sound junk hsock, ?_⟩
  · intro s e s' hi hs
    have hiff := step_iff hi.1 hi.2 hs
    exact ⟨fun hC => ⟨step_sound hi.1 hs, hiff.mpr hC⟩, hiff.mp⟩
  · intro i hi h1
    exact absurd (Nat.le_trans h1 hi) (by simp [init])

/-- Three clients; the first two speak in one round, and the third gets one message. -/
theorem two_speak_at_once :
    ¬ Always step Lossless (init (fun _ => nobody) 3)
      [.poll fun i => if i = 0 then pollIn else 0, .accept (some (5, ⟨127, 0, 0, 1⟩)), .entry none, .entry none,
        .entry none, .poll fun i => if i = 0 then pollIn else 0, .accept (some (6, ⟨127, 0, 0, 1⟩)), .entry none,
        .entry none, .entry none, .entry none, .poll fun i => if i = 0 then pollIn else 0,
        .accept (some (7, ⟨127, 0, 0, 1⟩)), .entry none, .entry none, .entry none, .entry none, .entry none,
        .poll fun i => if i = 1 ∨ i = 2 then pollIn else 0, .accept none, .entry none, .entry (some [104, 105, 10]),
        .entry (some [121, 111, 10])] := by
  rw [lossless_iff_orderly _ (by decide)]
  decide +kernel

end Server

end GroupeChat.PollServer
