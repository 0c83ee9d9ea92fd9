/-
  GroupeChat.ChatServer.UserIds — whether a user id names one user.

  The accept thread gives every new connection the value of `m_userId` and advances it
  only when the reply to a successful login has gone out. The command thread turns a
  successful login into a user: it inserts it into `m_map` under its id, which keeps an
  entry that is there, and pushes it to the I/O thread's list either way.

  `Server` is all connections with both threads. `Unique`: users that are logged in at
  the same time have different ids, and each is the entry of `m_map` under its own. It
  holds all along exactly the runs whose promotions find no entry under the id they
  insert, and those include the runs whose logins are serial, each accepted once no
  earlier one with the same id can still succeed (`unique_iff_fresh`). Two clients that
  log in at once get one id (`two_logins_at_once`).
-/

import GroupeChat.Base.StdMap
import GroupeChat.ChatServer.CmdSend
import GroupeChat.ChatServer.LoginStage

namespace GroupeChat.ChatServer

open Base

structure Server where
  /-- `CAccept::m_userId`. -/
  mUserId : Int
  /-- Every connection accepted. -/
  logins : List Login
  /-- Every user pushed to `m_userListToIO`; a pointer to one is its place here. -/
  users : List User
  /-- `CCmd::m_map`. -/
  mMap : StdMap Int Nat

namespace Server

inductive Ev where
  | accept (junk : Unloginuser) (fd now : Int) (stream : List UInt8) (closed : Bool)
  /-- A step of either thread on the `i`-th connection; `junk` and `now` are for the user
      it may make. -/
  | login (i : Nat) (e : Login.Ev) (junk : Buf) (now : Int)
  /-- QUIT of the `n`-th user. -/
  | quit (n : Nat)
  /-- The I/O thread's `deleteloginUser` of the `n`-th user. -/
  | deleteloginUser (n : Nat)
  /-- The command thread's sweep reaches the entry under `userId`. -/
  | sweep (userId : Int)

def init : Server := ⟨1, [], [], ∅⟩

def advance (s : Server) (l l' : Login) : Server :=
  if l.user.loginReturnFlag = false ∧ l'.user.loginReturnFlag = true ∧ l'.user.loginState = .loginSuccess then
    { s with mUserId := wrap 4 (s.mUserId + 1) }
  else s

/-- `m_map.insert` and `vcdPush` of a new user. -/
def promote (s : Server) (l : Login) (junk : Buf) (now : Int) : Server :=
  { s with
    users := s.users ++ [.new junk l.user.mSocket l.user.mUserId now]
    mMap := s.mMap.insertNew l.user.mUserId s.users.length }

def after (s : Server) (l : Login) (e : Login.Ev) (l' : Login) (junk : Buf) (now : Int) : Server :=
  match e with
  | .promote => if l.user.loginState = .loginSuccess then s.promote l junk now else s
  | _ => s.advance l l'

def updateUser (s : Server) (n : Nat) (f : User → User) : Server := { s with users := s.users.modify n f }

def running (s : Server) : Prop := ∀ l ∈ s.logins, l.running

instance : DecidablePred running := fun s => inferInstanceAs (Decidable (∀ l ∈ s.logins, l.running))

def next (s : Server) : Ev → Option Server
  | .accept junk fd now stream closed =>
    some { s with logins := s.logins ++ [.init junk fd s.mUserId now stream closed] }
  | .login i e junk now =>
    match s.logins[i]? with
    | none => none
    | some l =>
      match l.step e with
      | none => none
      | some l' => some ({ s with logins := s.logins.set i l' }.after l e l' junk now)
  | .quit n => some (s.updateUser n fun u => { u with deleteFlag1 := true })
  | .deleteloginUser n => some (s.updateUser n fun u => { u with deleteFlag1 := true, deleteFlag2 := true })
  | .sweep userId =>
    match (s.mMap.find? userId).bind (s.users[·]?) with
    | none => none
    | some u => if u.Deleted then some { s with mMap := s.mMap.remove userId } else none

def step (s : Server) (e : Ev) : Option Server := if s.running then s.next e else none

/-- Different users logged in have different ids, and each is the entry under its own. -/
structure Unique (s : Server) : Prop where
  ids : ∀ (m n : Nat) (u v : User), m ≠ n → s.users[m]? = some u → s.users[n]? = some v →
    ¬ u.Deleted → ¬ v.Deleted → u.mUserId ≠ v.mUserId
  entry : ∀ (n : Nat) (u : User), s.users[n]? = some u → ¬ u.Deleted → s.mMap.find? u.mUserId = some n

/-- A user is made only when no entry stands under its id. -/
def Fresh (s : Server) : Ev → Prop
  | .login i .promote _ _ => ∀ l, s.logins[i]? = some l → l.user.loginState = .loginSuccess →
      s.mMap.find? l.user.mUserId = none
  | _ => True

/-! ## What a step does to the users -/

inductive Change (s : Server) (e : Ev) (s' : Server) : Prop where
  | none (hu : s'.users = s.users) (hm : s'.mMap = s.mMap) (hf : s.Fresh e)
  | promote (i : Nat) (l : Login) (junk : Buf) (now : Int) (he : e = .login i .promote junk now)
      (hl : s.logins[i]? = some l) (hs : l.user.loginState = .loginSuccess)
      (hu : s'.users = s.users ++ [.new junk l.user.mSocket l.user.mUserId now])
      (hm : s'.mMap = s.mMap.insertNew l.user.mUserId s.users.length)
  | flag (n : Nat) (f : User → User) (hu : s'.users = s.users.modify n f) (hm : s'.mMap = s.mMap)
      (hid : ∀ u, (f u).mUserId = u.mUserId) (hdel : ∀ u : User, u.Deleted → (f u).Deleted) (hf : s.Fresh e)
  | sweep (k : Int) (n : Nat) (u : User) (hk : s.mMap.find? k = some n) (hn : s.users[n]? = some u) (hd : u.Deleted)
      (hu : s'.users = s.users) (hm : s'.mMap = s.mMap.remove k) (hf : s.Fresh e)

theorem advance_users (s : Server) (l l' : Login) : (s.advance l l').users = s.users := by
  unfold advance; split <;> rfl

theorem advance_mMap (s : Server) (l l' : Login) : (s.advance l l').mMap = s.mMap := by
  unfold advance; split <;> rfl

theorem login_change {s s' : Server} {i : Nat} {e : Login.Ev} {junk : Buf} {now : Int}
    (h : next s (.login i e junk now) = some s') : Change s (.login i e junk now) s' := by
  simp only [next] at h
  split at h
  · cases h
  · rename_i l hl
    split at h
    · cases h
    · rename_i l' hstep
      obtain rfl := Option.some.inj h
      cases e with
      | promote =>
        by_cases hs : l.user.loginState = .loginSuccess
        · exact .promote i l junk now rfl hl hs (by simp [after, hs, promote]) (by simp [after, hs, promote])
        · refine .none (by simp [after, hs]) (by simp [after, hs]) fun l₁ hl₁ hs₁ => ?_
          obtain rfl := Option.some.inj (hl.symm.trans hl₁)
          exact absurd hs₁ hs
      | _ => exact .none (by simp [after, advance_users]) (by simp [after, advance_mMap]) trivial

theorem step_change {s s' : Server} {e : Ev} (h : step s e = some s') : Change s e s' := by
  unfold step at h
  split at h
  · cases e with
    | accept junk fd now stream closed =>
      obtain rfl := Option.some.inj h
      exact .none rfl rfl trivial
    | login i e junk now => exact login_change h
    | quit n =>
      obtain rfl := Option.some.inj h
      exact .flag n _ rfl rfl (fun _ => rfl) (fun _ hd => ⟨rfl, hd.2⟩) trivial
    | deleteloginUser n =>
      obtain rfl := Option.some.inj h
      exact .flag n _ rfl rfl (fun _ => rfl) (fun _ _ => ⟨rfl, rfl⟩) trivial
    | sweep userId =>
      simp only [next] at h
      split at h
      · cases h
      · rename_i u hu
        obtain ⟨n, hk, hn⟩ := Option.bind_eq_some_iff.mp hu
        split at h
        · rename_i hd
          obtain rfl := Option.some.inj h
          exact .sweep userId n u hk hn hd rfl rfl trivial
        · cases h
  · cases h

/-! ## Unique ids -/

structure Inv (s : Server) : Prop where
  users : ∀ (k : Int) (n : Nat), s.mMap.find? k = some n → ∃ u, s.users[n]? = some u ∧ u.mUserId = k
  entry : ∀ (n : Nat) (u : User), s.users[n]? = some u → ¬ u.Deleted → s.mMap.find? u.mUserId = some n

theorem Inv.unique {s : Server} (hi : Inv s) : Unique s := by
  refine ⟨fun m n u v hne hu hv hdu hdv heq => hne ?_, hi.entry⟩
  have hm := hi.entry m u hu hdu
  rw [heq, hi.entry n v hv hdv] at hm
  exact (Option.some.inj hm).symm

theorem init_inv : Inv init := ⟨nofun, nofun⟩

theorem getElem?_modify_cases {l : List User} {n m : Nat} {f : User → User} {u : User}
    (h : (l.modify n f)[m]? = some u) : ∃ v, l[m]? = some v ∧ (u = v ∨ u = f v) := by
  rw [List.getElem?_modify] at h
  obtain ⟨v, hv, rfl⟩ := Option.map_eq_some_iff.mp h
  refine ⟨v, hv, ?_⟩
  split
  · exact Or.inr rfl
  · exact Or.inl rfl

/-- A step keeps the invariant exactly when it makes no user under an id that is taken. -/
theorem change_inv {s s' : Server} {e : Ev} (hi : Inv s) (h : Change s e s') :
    (Fresh s e → Inv s') ∧ (Unique s' → Fresh s e) := by
  cases h with
  | none hu hm hf => exact ⟨fun _ => ⟨by rw [hu, hm]; exact hi.users, by rw [hu, hm]; exact hi.entry⟩, fun _ => hf⟩
  | promote i l junk now he hl hs hu hm =>
    subst he
    refine ⟨?_, ?_⟩
    · intro hf
      have hnone := hf l hl hs
      refine ⟨?_, ?_⟩
      · intro k n hk
        rw [hm, StdMap.find?_insertNew] at hk
        rw [hu]
        split at hk
        · rename_i hkid
          rw [hnone] at hk
          obtain rfl := Option.some.inj hk
          exact ⟨_, List.getElem?_concat_length .., hkid.symm⟩
        · obtain ⟨u, hn, hid⟩ := hi.users k n hk
          have hlt := (List.getElem?_eq_some_iff.mp hn).1
          exact ⟨u, by rw [List.getElem?_append_left hlt]; exact hn, hid⟩
      · intro n u hn hd
        rw [hu] at hn
        rw [hm, StdMap.find?_insertNew]
        rcases Nat.lt_trichotomy n s.users.length with hlt | rfl | hgt
        · rw [List.getElem?_append_left hlt] at hn
          have hent := hi.entry n u hn hd
          rw [if_neg fun hid => by rw [hid, hnone] at hent; cases hent]
          exact hent
        · rw [List.getElem?_concat_length] at hn
          obtain rfl := Option.some.inj hn
          rw [hnone]
          exact if_pos rfl
        · rw [List.getElem?_eq_none (by simp; omega)] at hn
          cases hn
    · intro huniq l₁ hl₁ _
      obtain rfl := Option.some.inj (hl.symm.trans hl₁)
      by_contra hsome
      obtain ⟨m, hm'⟩ := Option.ne_none_iff_exists'.mp hsome
      obtain ⟨v, hv, -⟩ := hi.users _ m hm'
      have hlt := (List.getElem?_eq_some_iff.mp hv).1
      -- the new user is pushed, and the old entry stays
      have hnew := huniq.entry s.users.length (.new junk l.user.mSocket l.user.mUserId now)
        (by rw [hu, List.getElem?_concat_length]) (fun hd => by cases hd.1)
      rw [hm, StdMap.find?_insertNew] at hnew
      simp only [User.new, if_true, hm', Option.getD_some] at hnew
      have := Option.some.inj hnew
      omega
  | flag n f hu hm hid hdel hf =>
    refine ⟨fun _ => ⟨fun k m hk => ?_, fun m u hn hd => ?_⟩, fun _ => hf⟩
    · rw [hm] at hk
      obtain ⟨u, hn, hku⟩ := hi.users k m hk
      rw [hu, List.getElem?_modify, hn]
      refine ⟨_, rfl, ?_⟩
      split
      · exact (hid u).trans hku
      · exact hku
    · rw [hu] at hn
      obtain ⟨v, hv, rfl | rfl⟩ := getElem?_modify_cases hn
      · rw [hm]; exact hi.entry m u hv hd
      · rw [hm, hid]; exact hi.entry m v hv fun h => hd (hdel v h)
  | sweep k n u hk hn hd hu hm hf =>
    refine ⟨fun _ => ⟨fun k' m hk' => ?_, fun m v hv hdv => ?_⟩, fun _ => hf⟩
    · rw [hm, StdMap.find?_remove] at hk'
      split at hk'
      · cases hk'
      · rw [hu]; exact hi.users k' m hk'
    · rw [hu] at hv
      have hent := hi.entry m v hv hdv
      rw [hm, StdMap.find?_remove, if_neg ?_]
      · exact hent
      · intro hid
        rw [hid, hk] at hent
        obtain rfl := Option.some.inj hent
        obtain rfl := Option.some.inj (hn.symm.trans hv)
        exact hdv hd

/-! ## Serial logins -/

/-- A client is accepted once no earlier one with the same id can still succeed, and the
    ids have not run out. -/
def Serial (s : Server) : Ev → Prop
  | .accept _ _ _ _ _ => ∀ l ∈ s.logins, l.user.mUserId = s.mUserId → l.Over
  | .login _ _ _ _ => s.mUserId < 2147483647
  | _ => True

/-- Logins that can still succeed have different ids: the one that is yet to be answered
    has the counter's, the others lower ones, and no user has one of them. -/
structure Apart (s : Server) : Prop where
  stage : ∀ l ∈ s.logins, l.Stage
  bound : 1 ≤ s.mUserId ∧ s.mUserId ≤ 2147483647
  pending : ∀ (i : Nat) (l : Login), s.logins[i]? = some l → l.Candidate → l.user.loginReturnFlag = false →
    l.user.mUserId = s.mUserId
  returned : ∀ (i : Nat) (l : Login), s.logins[i]? = some l → l.Candidate → l.user.loginReturnFlag = true →
    l.user.mUserId < s.mUserId
  distinct : ∀ (i j : Nat) (l l' : Login), i ≠ j → s.logins[i]? = some l → s.logins[j]? = some l' → l.Candidate →
    l'.Candidate → l.user.mUserId ≠ l'.user.mUserId
  below : ∀ (k : Int) (n : Nat), s.mMap.find? k = some n → k < s.mUserId
  taken : ∀ (k : Int) (n i : Nat) (l : Login), s.mMap.find? k = some n → s.logins[i]? = some l → l.Candidate →
    l.user.mUserId ≠ k

theorem init_apart : Apart init where
  stage _ h := absurd h List.not_mem_nil
  bound := by decide
  pending _ _ h := absurd h (by simp [init])
  returned _ _ h := absurd h (by simp [init])
  distinct _ _ _ _ _ h := absurd h (by simp [init])
  below _ _ h := absurd h (by simp [init])
  taken _ _ _ _ h := absurd h (by simp [init])

theorem Apart.fresh {s s' : Server} {e : Ev} (hi : Apart s) (h : step s e = some s') : Fresh s e := by
  cases e with
  | login i e junk now =>
    cases e with
    | promote =>
      intro l hl hs
      obtain ⟨l', hstep⟩ : ∃ l', l.step .promote = some l' := by
        unfold step at h
        split at h
        · simp only [next, hl] at h
          split at h
          · cases h
          · exact ⟨_, ‹_›⟩
        · cases h
      have hc : l.Candidate := Login.candidate_of_promote hstep hs
      by_contra hsome
      obtain ⟨n, hn⟩ := Option.ne_none_iff_exists'.mp hsome
      exact hi.taken _ n i l hn hl hc rfl
    | _ => trivial
  | _ => trivial

theorem Apart.accept {s : Server} (hi : Apart s) {junk : Unloginuser} {fd now : Int} {stream : List UInt8}
    {closed : Bool} (hser : ∀ l ∈ s.logins, l.user.mUserId = s.mUserId → l.Over) :
    Apart { s with logins := s.logins ++ [.init junk fd s.mUserId now stream closed] } := by
  obtain ⟨l₀, hl₀⟩ : ∃ l₀, l₀ = Login.init junk fd s.mUserId now stream closed := ⟨_, rfl⟩
  have hid : l₀.user.mUserId = s.mUserId := by
    rw [hl₀]
    exact wrap_four (by have := hi.bound; omega) (by have := hi.bound; omega)
  have hflag : l₀.user.loginReturnFlag = false := by rw [hl₀]; rfl
  -- an earlier candidate does not have the counter's value
  have hold : ∀ (i : Nat) (l : Login), s.logins[i]? = some l → l.Candidate → l.user.mUserId ≠ s.mUserId :=
    fun i l hl hc heq => hc.2 (hser l (List.mem_of_getElem? hl) heq)
  have hcase : ∀ (i : Nat) (l : Login), (s.logins ++ [l₀])[i]? = some l →
      s.logins[i]? = some l ∨ i = s.logins.length ∧ l = l₀ := by
    intro i l h
    rcases Nat.lt_trichotomy i s.logins.length with hlt | rfl | hgt
    · rw [List.getElem?_append_left hlt] at h
      exact Or.inl h
    · rw [List.getElem?_concat_length] at h
      exact Or.inr ⟨rfl, (Option.some.inj h).symm⟩
    · rw [List.getElem?_eq_none (by simp; omega)] at h
      cases h
  rw [← hl₀]
  constructor
  case stage =>
    intro l hl
    rcases List.mem_append.mp hl with hl | hl
    · exact hi.stage l hl
    · rw [List.mem_singleton.mp hl, hl₀]
      exact Login.init_stage ..
  case bound => exact hi.bound
  case pending =>
    intro i l hl hc hf
    rcases hcase i l hl with hl | ⟨-, rfl⟩
    · exact hi.pending i l hl hc hf
    · exact hid
  case returned =>
    intro i l hl hc hf
    rcases hcase i l hl with hl | ⟨-, rfl⟩
    · exact hi.returned i l hl hc hf
    · cases hflag.symm.trans hf
  case distinct =>
    intro i j l l' hne hl hl' hc hc'
    rcases hcase i l hl with h | ⟨hi₀, h⟩ <;> rcases hcase j l' hl' with h' | ⟨hj₀, h'⟩
    · exact hi.distinct i j l l' hne h h' hc hc'
    · rw [h', hid]; exact hold i l h hc
    · rw [h, hid]; exact (hold j l' h' hc').symm
    · exact absurd (hi₀.trans hj₀.symm) hne
  case below => exact hi.below
  case taken =>
    intro k n i l hk hl hc
    rcases hcase i l hl with hl | ⟨-, rfl⟩
    · exact hi.taken k n i l hk hl hc
    · have := hi.below k n hk
      omega

/-- A login after a step is no more of a candidate than before it. -/
theorem Apart.before {s t : Server} (hi : Apart s) {i : Nat} {l l' : Login} {e : Login.Ev} (hl : s.logins[i]? = some l)
    (h : l.step e = some l') (ht : t.logins = s.logins.set i l') {j : Nat} {m : Login} (hm : t.logins[j]? = some m)
    (hc : m.Candidate) :
    ∃ m₀, s.logins[j]? = some m₀ ∧ m₀.Candidate ∧ m.user.mUserId = m₀.user.mUserId ∧
      (j ≠ i ∧ m = m₀ ∨ j = i ∧ m = l' ∧ m₀ = l) := by
  rw [ht, List.getElem?_set] at hm
  split at hm
  · rename_i hij
    subst hij
    have hlt := (List.getElem?_eq_some_iff.mp hl).1
    rw [if_pos hlt] at hm
    obtain rfl := Option.some.inj hm
    exact ⟨l, hl, Login.step_candidate (hi.stage l (List.mem_of_getElem? hl)) h hc, Login.step_userId h,
      Or.inr ⟨rfl, rfl, rfl⟩⟩
  · rename_i hij
    exact ⟨m, hm, hc, rfl, Or.inl ⟨fun h => hij h.symm, rfl⟩⟩

/-- A step on one connection keeps the logins apart if it leaves the map alone and, when it
    moves the counter on or returns the login, leaves none behind with the counter's
    old value. -/
theorem Apart.set {s t : Server} (hi : Apart s) {i : Nat} {l l' : Login} {e : Login.Ev} (hl : s.logins[i]? = some l)
    (h : l.step e = some l') (ht : t.logins = s.logins.set i l') (hmap : t.mMap = s.mMap)
    (hb : s.mUserId ≤ t.mUserId ∧ t.mUserId ≤ 2147483647)
    (hpend : ∀ (j : Nat) (m : Login), j ≠ i → s.logins[j]? = some m → m.Candidate → m.user.loginReturnFlag = false →
      m.user.mUserId = t.mUserId)
    (hown : l.Candidate → l'.Candidate → if l'.user.loginReturnFlag = true then l.user.mUserId < t.mUserId
      else l.user.mUserId = t.mUserId) : Apart t := by
  have hset := fun {j : Nat} {m : Login} => hi.before hl h ht (j := j) (m := m)
  have hbound := hi.bound
  constructor
  case stage =>
    intro m hm
    rw [ht] at hm
    rcases List.mem_or_eq_of_mem_set hm with hm | rfl
    · exact hi.stage m hm
    · exact Login.step_stage (hi.stage l (List.mem_of_getElem? hl)) h
  case bound => omega
  case pending =>
    intro j m hm hc hf
    obtain ⟨m₀, hm₀, hc₀, hid₀, hcase⟩ := hset hm hc
    rcases hcase with ⟨hj, rfl⟩ | ⟨-, rfl, rfl⟩
    · exact hpend j m hj hm₀ hc₀ hf
    · have := hown hc₀ hc
      rw [if_neg (by rw [hf]; decide)] at this
      rw [hid₀, this]
  case returned =>
    intro j m hm hc hf
    obtain ⟨m₀, hm₀, hc₀, hid₀, hcase⟩ := hset hm hc
    rw [hid₀]
    rcases hcase with ⟨-, rfl⟩ | ⟨-, rfl, rfl⟩
    · have := hi.returned j m hm₀ hc₀ hf
      omega
    · have := hown hc₀ hc
      rwa [if_pos hf] at this
  case distinct =>
    intro j k m m' hne hm hm' hc hc'
    obtain ⟨m₀, hm₀, hc₀, hid₀, -⟩ := hset hm hc
    obtain ⟨m₁, hm₁, hc₁, hid₁, -⟩ := hset hm' hc'
    rw [hid₀, hid₁]
    exact hi.distinct j k m₀ m₁ hne hm₀ hm₁ hc₀ hc₁
  case below =>
    intro k n hk
    rw [hmap] at hk
    have := hi.below k n hk
    omega
  case taken =>
    intro k n j m hk hm hc
    rw [hmap] at hk
    obtain ⟨m₀, hm₀, hc₀, hid₀, -⟩ := hset hm hc
    rw [hid₀]
    exact hi.taken k n j m₀ hk hm₀ hc₀

/-- The reply of a successful login goes out: it was the only one with the counter's
    value, and the counter moves on. -/
theorem Apart.advance {s t : Server} (hi : Apart s) {i : Nat} {l l' : Login} {e : Login.Ev}
    (hl : s.logins[i]? = some l) (h : l.step e = some l') (hlt : s.mUserId < 2147483647)
    (ht : t = { s with logins := s.logins.set i l' }) : Apart (t.advance l l') := by
  have hb := hi.bound
  have hstage := hi.stage l (List.mem_of_getElem? hl)
  by_cases hadv : l.user.loginReturnFlag = false ∧ l'.user.loginReturnFlag = true ∧
      l'.user.loginState = .loginSuccess
  · have hid : (t.advance l l').mUserId = s.mUserId + 1 := by
      unfold Server.advance
      rw [if_pos hadv, ht]
      show wrap 4 (s.mUserId + 1) = _
      exact wrap_four (by omega) (by omega)
    obtain ⟨h0, h1, h2⟩ := hadv
    have hret := (Login.step_return h).resolve_left (by rw [h0, h1]; decide)
    have hcand : l.Candidate := by
      refine ⟨fun hg => hstage.returned (Or.inr hg) hret.1, fun hf => ?_⟩
      rcases hf with hf | ⟨hn, -⟩
      · cases (hret.2.2.1.symm.trans h2).symm.trans hf
      · exact hn hret.1
    have hown := hi.pending i l hl hcand h0
    refine hi.set hl h (by unfold Server.advance; split <;> rw [ht]) (by rw [advance_mMap, ht]) (by omega) ?_ ?_
    · intro j m hj hm hc hf
      exact absurd ((hi.pending j m hm hc hf).trans hown.symm) (hi.distinct j i m l hj hm hl hc hcand)
    · intro _ _
      rw [if_pos h1]
      omega
  · have hid : t.advance l l' = t := by
      unfold Server.advance
      rw [if_neg hadv]
    rw [hid, ht]
    refine hi.set hl h rfl rfl ⟨Int.le_refl _, hb.2⟩ (fun j m _ hm hc hf => hi.pending j m hm hc hf) ?_
    intro hc hc'
    rcases Login.step_return h with hr | ⟨hlive, hr, hst, -⟩
    · rw [hr]
      split
      · rename_i hf
        exact hi.returned i l hl hc hf
      · rename_i hf
        exact hi.pending i l hl hc (by simpa using hf)
    · -- a login returned without success has failed
      have h0 : l.user.loginReturnFlag = false := by
        by_contra h0
        exact hstage.returned (Or.inl (by simpa using h0)) hlive
      have hne : l'.user.loginState ≠ .loginSuccess := fun h2 => hadv ⟨h0, hr, h2⟩
      have hno := (Login.step_stage hstage h).answered hr
      have hfail : l'.user.loginState ≠ .loginFailed := fun hf => hc'.2 (Or.inl hf)
      cases hs : l'.user.loginState <;> simp_all

/-- A promotion turns the login's id into a user's. -/
theorem Apart.promote {s t : Server} (hi : Apart s) {i : Nat} {l l' : Login} (hl : s.logins[i]? = some l)
    (h : l.step .promote = some l') (hs : l.user.loginState = .loginSuccess) (junk : Buf) (now : Int)
    (ht : t = { s with logins := s.logins.set i l' }) : Apart (t.promote l junk now) := by
  obtain ⟨-, hen, hl'⟩ := Login.step_eq h
  have hgone : ¬ l'.Candidate := fun hc => hc.1 (by rw [hl']; rfl)
  have hcand : l.Candidate := Login.candidate_of_promote h hs
  have hset : Apart t := by
    rw [ht]
    exact hi.set hl h rfl rfl ⟨Int.le_refl _, hi.bound.2⟩ (fun j m _ hm hc hf => hi.pending j m hm hc hf)
      fun _ hc => absurd hc hgone
  have hfind : ∀ k n, (t.promote l junk now).mMap.find? k = some n →
      k = l.user.mUserId ∨ s.mMap.find? k = some n := by
    intro k n hk
    simp only [Server.promote, ht, StdMap.find?_insertNew] at hk
    split at hk
    · exact Or.inl ‹_›
    · exact Or.inr hk
  have hcount : t.mUserId = s.mUserId := by rw [ht]
  refine ⟨hset.stage, hset.bound, hset.pending, hset.returned, hset.distinct, fun k n hk => ?_,
    fun k n j m hk hm hc => ?_⟩
  · rcases hfind k n hk with rfl | hk
    · exact hcount ▸ hi.returned i l hl hcand hen.2
    · exact hcount ▸ hi.below k n hk
  · obtain ⟨m₀, hm₀, hc₀, hid₀, hcase⟩ := hi.before hl h (by rw [Server.promote, ht]) hm hc
    rw [hid₀]
    rcases hfind k n hk with rfl | hk
    · rcases hcase with ⟨hj, rfl⟩ | ⟨-, rfl, rfl⟩
      · exact hi.distinct j i m l hj hm₀ hl hc₀ hcand
      · exact absurd hc hgone
    · exact hi.taken k n j m₀ hk hm₀ hc₀

theorem step_apart {s s' : Server} {e : Ev} (hi : Apart s) (hser : Serial s e) (h : step s e = some s') :
    Apart s' := by
  unfold step at h
  split at h
  · cases e with
    | accept junk fd now stream closed =>
      obtain rfl := Option.some.inj h
      exact hi.accept hser
    | login i e junk now =>
      simp only [next] at h
      split at h
      · cases h
      · rename_i l hl
        split at h
        · cases h
        · rename_i l' hstep
          obtain rfl := Option.some.inj h
          have hadv := hi.advance hl hstep hser rfl
          cases e with
          | promote =>
            simp only [after]
            split
            · exact hi.promote hl hstep ‹_› junk now rfl
            · obtain ⟨-, -, rfl⟩ := Login.step_eq hstep
              exact hi.set hl hstep rfl rfl ⟨Int.le_refl _, hi.bound.2⟩
                (fun j m _ hm hc hf => hi.pending j m hm hc hf) fun _ hc => absurd rfl hc.1
          | _ => exact hadv
    | quit n =>
      obtain rfl := Option.some.inj h
      exact ⟨hi.stage, hi.bound, hi.pending, hi.returned, hi.distinct, hi.below, hi.taken⟩
    | deleteloginUser n =>
      obtain rfl := Option.some.inj h
      exact ⟨hi.stage, hi.bound, hi.pending, hi.returned, hi.distinct, hi.below, hi.taken⟩
    | sweep userId =>
      have hfind : ∀ k n, (s.mMap.remove userId).find? k = some n → s.mMap.find? k = some n := by
        intro k n hk
        rw [StdMap.find?_remove] at hk
        split at hk
        · cases hk
        · exact hk
      simp only [next] at h
      split at h
      · cases h
      · split at h
        · obtain rfl := Option.some.inj h
          exact ⟨hi.stage, hi.bound, hi.pending, hi.returned, hi.distinct, fun k n hk => hi.below k n (hfind k n hk),
            fun k n j m hk hm hc => hi.taken k n j m (hfind k n hk) hm hc⟩
        · cases h
  · cases h

/-! ## Runs -/

/-- Over any connections and any interleaving of both threads' steps with the users'
    leaving: ids are unique all along exactly when every user is made under an id that
    no entry has; and that is so when logins are serial. -/
theorem unique_iff_fresh (es : List Ev) :
    (Always step Unique init es ↔ Along step Fresh init es) ∧ (Along step Serial init es → Along step Fresh init es) := by
  refine ⟨?_, ?_⟩
  · exact always_iff_along (I := Inv) (fun _ => Inv.unique)
      (fun _ _ _ hi h => change_inv hi (step_change h)) init_inv
  · exact along_of_steps (fun _ _ _ hi hs h => ⟨step_apart hi hs h, hi.fresh h⟩) init_apart

def logIn (i : Nat) : List Ev := Login.adminRun.map fun e => .login i e (fun _ => 0) 0

def twoAtOnce : List Ev :=
  [.accept Unloginuser.zero 5 0 Login.adminLogin false, .accept Unloginuser.zero 6 0 Login.adminLogin false] ++
    logIn 0 ++ logIn 1

theorem two_logins_at_once : ¬ Always step Unique init twoAtOnce := by
  intro h
  have hrun : (run step init twoAtOnce).map (fun s => s.users.map fun u => (u.mUserId, u.deleteFlag1)) =
      some [(1, false), (1, false)] := by decide +kernel
  obtain ⟨s, hs, hu⟩ := Option.map_eq_some_iff.mp hrun
  obtain ⟨u, us, hus, hu1, hu⟩ := List.map_eq_cons_iff.mp hu
  obtain ⟨v, vs, rfl, hv1, hv⟩ := List.map_eq_cons_iff.mp hu
  simp only [Prod.mk.injEq] at hu1 hv1
  refine (h.last hs).ids 0 1 u v (by decide) (by rw [hus]; rfl) (by rw [hus]; rfl) ?_ ?_ (hu1.1.trans hv1.1.symm)
  · exact fun hd => nomatch hu1.2.symm.trans hd.1
  · exact fun hd => nomatch hv1.2.symm.trans hd.1

end Server

end GroupeChat.ChatServer
