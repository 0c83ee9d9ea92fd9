/-
  GroupeChat.Logins.Agree — whether clients and server agree on who is logged in (the
  model is `GroupeChat.Logins.System`).

  `Agreed`: a client that takes itself to be logged in typed "admin" twice, and its record
  has succeeded under the very id it took; no two of them took the same one; a client
  that was told no is never made a user, and if it had typed "admin" twice it was only
  too slow; and the users that the server has are clients that know it, or have the "Y"
  with that id to read. It holds all along every run in which a check sees the message in
  two pieces and no reply goes out half written (`ChatServer.Login.Orderly`), logins come
  one after the other (`ChatServer.Server.Serial`) and replies are sent and received whole
  (`agreed_of_orderly`).
-/

import GroupeChat.Logins.Ids

namespace GroupeChat.Logins

open Base ChatServer

instance (l : Login) : Decidable l.Over :=
  inferInstanceAs (Decidable (l.user.loginState = .loginFailed ∨ l.accept ≠ .live ∧ l.user.loginReturnFlag = false))

instance (n : Nat) : (e : Login.Ev) → Decidable (Whole e n)
  | .epollOut nread => inferInstanceAs (Decidable (nread = Proto.loginReplySize))
  | .timeoutSend => inferInstanceAs (Decidable (n = Proto.loginReplySize))
  | .arrive _ | .epollIn _ | .armOut | .takeOver | .check | .fillResult | .fillUserId | .setAuthFlag | .reap
  | .promote => inferInstanceAs (Decidable True)

namespace System

structure Inv (s : System) : Prop where
  apart : s.server.Apart
  told : Told s.server
  length : s.clients.length = s.server.logins.length
  pair : ∀ (i : Nat) (c : Client) (l : Login), s.clients[i]? = some c → s.server.logins[i]? = some l → Pair c l

/-- Replies go out whole and are received whole, of records checked in order, each of which
    was accepted when no earlier one could still take its id. -/
def Orderly (s : System) : Ev → Prop
  | .start _ _ _ _ junk fd now => s.server.Serial (.accept junk fd now [] false)
  | .server e n =>
    s.server.Serial e ∧ match e with
      | .login i e _ _ => Whole e n ∧ ∀ l ∈ s.server.logins[i]?, l.Orderly e
      | _ => True
  | .recv _ n => n = Proto.loginReplySize
  | _ => True

theorem init_inv : Inv init where
  apart := Server.init_apart
  told := init_told
  length := rfl
  pair _ _ _ h := absurd h (by simp [init])

/-- The `i`-th client becomes another that goes with its record. -/
theorem Inv.setClient {s : System} (hi : Inv s) {i : Nat} {c : Client}
    (hc : ∀ l, s.server.logins[i]? = some l → Pair c l) : Inv (s.setClient i c) := by
  have hpair : ∀ (j : Nat) (c' : Client) (l : Login), (s.clients.set i c)[j]? = some c' →
      s.server.logins[j]? = some l → Pair c' l := by
    intro j c' l hj hl
    rcases Cells.getElem?_set_cases hj with ⟨-, hj⟩ | ⟨rfl, rfl⟩
    · exact hi.pair j c' l hj hl
    · exact hc l hl
  have hlen : (s.clients.set i c).length = s.server.logins.length := by
    rw [List.length_set]
    exact hi.length
  have hopen : Inv { s with clients := s.clients.set i c } := ⟨hi.apart, hi.told, hlen, hpair⟩
  have hclosed : Inv ⟨{ s.server with logins := s.server.logins.modify i closed }, s.clients.set i c⟩ := by
    refine ⟨closed_apart hi.apart i, closed_told hi.told i, hlen.trans (List.length_modify ..).symm, ?_⟩
    intro j c' m hj hm
    obtain ⟨l, hl, hcase⟩ := closed_before hm
    have hp := hpair j c' l hj hl
    rcases hcase with rfl | rfl
    · exact hp
    · exact hp.closed
  unfold System.setClient
  split <;> assumption

theorem Inv.start {s t : System} (hi : Inv s) {name passwd : List UInt8} {userId : Int} {recvMsg : Buf}
    {junk : Unloginuser} {fd now : Int} (ho : s.Orderly (.start name passwd userId recvMsg junk fd now))
    (h : s.step (.start name passwd userId recvMsg junk fd now) = some t) : Inv t := by
  obtain ⟨u, hu, rfl⟩ := Option.map_eq_some_iff.mp h
  have hser : s.server.Serial (.accept junk fd now (Client.start name passwd userId recvMsg).message false) := ho
  have hapart := Server.step_apart hi.apart hser hu
  unfold Server.step at hu
  split at hu
  · obtain rfl := Option.some.inj hu
    refine ⟨hapart, hi.told.accept .., ?_, ?_⟩
    · simp [hi.length]
    · intro j c l hc hl
      rcases Cells.getElem?_snoc_cases hc with hc | ⟨hj, rfl⟩
      · rcases Cells.getElem?_snoc_cases hl with hl | ⟨hj, -⟩
        · exact hi.pair j c l hc hl
        · have := (List.getElem?_eq_some_iff.mp hc).1
          have := hi.length
          omega
      · rcases Cells.getElem?_snoc_cases hl with hl | ⟨-, rfl⟩
        · have := (List.getElem?_eq_some_iff.mp hl).1
          have := hi.length
          omega
        · exact start_pair ..
  · cases hu

theorem Inv.login {s : System} {t : Server} (hi : Inv s) {i : Nat} {e : Login.Ev} {junk : Buf} {now : Int} {n : Nat}
    (ho : s.Orderly (.server (.login i e junk now) n)) (h : s.server.step (.login i e junk now) = some t) :
    Inv ⟨t, s.deliver (.login i e junk now) n⟩ := by
  obtain ⟨hser, hwhole, hord⟩ := ho
  have hgone : ∀ l ∈ s.server.logins, l.cmd = .gone → l.user.loginReturnFlag = true := by
    intro l hl hg
    obtain ⟨j, hj⟩ := List.mem_iff_getElem?.mp hl
    obtain ⟨c, hc⟩ : ∃ c, s.clients[j]? = some c :=
      ⟨_, List.getElem?_eq_getElem (by rw [hi.length]; exact (List.getElem?_eq_some_iff.mp hj).1)⟩
    exact (hi.pair j c l hc hj).sending.gone hg
  obtain ⟨l, l', hl, hstep, hlogins, -⟩ := server_login h
  have hdel : s.deliver (.login i e junk now) n =
      s.clients.modify i fun c => { c with unread := c.unread ++ sent l e n } := by
    simp only [deliver, hl]
  refine ⟨Server.step_apart hi.apart hser h, login_told hi.apart hi.told hgone hser h, ?_, ?_⟩
  · simp only [hdel, hlogins, List.length_modify, List.length_set, hi.length]
  · intro j c m hc hm
    rw [hdel, List.getElem?_modify] at hc
    obtain ⟨c₀, hc₀, rfl⟩ := Option.map_eq_some_iff.mp hc
    rw [hlogins] at hm
    rcases Cells.getElem?_set_cases hm with ⟨hj, hm⟩ | ⟨rfl, rfl⟩
    · rw [if_neg (Ne.symm hj)]
      exact hi.pair j c₀ m hc₀ hm
    · rw [if_pos rfl]
      exact (hi.pair j c₀ l hc₀ hl).login (hi.apart.stage l (List.mem_of_getElem? hl)) (hord l hl) hwhole hstep

/-- The users leave. -/
theorem Inv.users {s : System} (hi : Inv s) {t : Server} {e : Server.Ev} (hser : s.server.Serial e)
    (h : s.server.step e = some t) (hl : t.logins = s.server.logins) (hid : t.mUserId = s.server.mUserId)
    (hu : t.users.map (·.mUserId) = s.server.users.map (·.mUserId)) : Inv ⟨t, s.clients⟩ :=
  ⟨Server.step_apart hi.apart hser h, hi.told.congr hl hid hu, hi.length.trans (congrArg List.length hl).symm,
    by rw [hl]; exact hi.pair⟩

theorem map_modify_id (us : List User) (n : Nat) {f : User → User} (hf : ∀ u, (f u).mUserId = u.mUserId) :
    (us.modify n f).map (·.mUserId) = us.map (·.mUserId) := by
  refine List.ext_getElem? fun i => ?_
  rw [List.getElem?_map, List.getElem?_map, List.getElem?_modify]
  cases us[i]? with
  | none => rfl
  | some u =>
    split
    · exact congrArg some (hf u)
    · rfl

theorem Inv.server {s t : System} (hi : Inv s) {e : Server.Ev} {n : Nat} (ho : s.Orderly (.server e n))
    (h : s.step (.server e n) = some t) : Inv t := by
  cases e with
  | accept => cases h
  | login i e junk now =>
    obtain ⟨u, hu, rfl⟩ := Option.map_eq_some_iff.mp h
    exact hi.login ho hu
  | quit m =>
    obtain ⟨u, hu, rfl⟩ := Option.map_eq_some_iff.mp h
    have hu' := hu
    unfold Server.step at hu
    split at hu
    · obtain rfl := Option.some.inj hu
      exact hi.users ho.1 hu' rfl rfl (map_modify_id _ _ fun _ => rfl)
    · cases hu
  | deleteloginUser m =>
    obtain ⟨u, hu, rfl⟩ := Option.map_eq_some_iff.mp h
    have hu' := hu
    unfold Server.step at hu
    split at hu
    · obtain rfl := Option.some.inj hu
      exact hi.users ho.1 hu' rfl rfl (map_modify_id _ _ fun _ => rfl)
    · cases hu
  | sweep userId =>
    obtain ⟨u, hu, rfl⟩ := Option.map_eq_some_iff.mp h
    have hu' := hu
    unfold Server.step at hu
    split at hu
    · simp only [Server.next] at hu
      split at hu
      · cases hu
      · split at hu
        · obtain rfl := Option.some.inj hu
          exact hi.users ho.1 hu' rfl rfl rfl
        · cases hu
    · cases hu

theorem step_inv {s t : System} {e : Ev} (hi : Inv s) (ho : s.Orderly e) (h : s.step e = some t) : Inv t := by
  cases e with
  | start name passwd userId recvMsg junk fd now => exact hi.start ho h
  | server e n => exact hi.server ho h
  | relayed i more =>
    simp only [step] at h
    split at h
    · rename_i hany
      obtain rfl := Option.some.inj h
      obtain ⟨l, hl, hg⟩ := (Option.any_eq_true _ _).mp hany
      refine ⟨hi.apart, hi.told, (List.length_modify ..).trans hi.length, fun j c m hc hm => ?_⟩
      dsimp only at hc hm
      rw [List.getElem?_modify] at hc
      obtain ⟨c₀, hc₀, rfl⟩ := Option.map_eq_some_iff.mp hc
      have hp := hi.pair j c₀ m hc₀ hm
      split
      · rename_i hij
        subst hij
        obtain rfl := Option.some.inj (hl.symm.trans hm)
        exact hp.relayed (of_decide_eq_true hg) more
      · exact hp
    · cases h
  | recv i n =>
    simp only [step] at h
    split at h
    · cases h
    · rename_i c hc
      split at h
      · rename_i hen
        obtain rfl := Option.some.inj h
        obtain rfl : n = Proto.loginReplySize := ho
        exact hi.setClient fun l hl => (hi.pair i c l hc hl).recv hen.1 hen.2.2.2
      · cases h
  | exit i =>
    simp only [step] at h
    split at h
    · cases h
    · rename_i c hc
      obtain rfl := Option.some.inj h
      exact hi.setClient fun l hl => (hi.pair i c l hc hl).ended

structure Agreed (s : System) : Prop where
  loggedIn : ∀ (i : Nat) (c : Client) (userId : Int), s.clients[i]? = some c → c.outcome = .loggedIn userId →
    c.Admin ∧ ∃ l, s.server.logins[i]? = some l ∧ Returned l ∧ l.user.mUserId = userId ∧
      (l.cmd = .gone → ∃ u ∈ s.server.users, u.mUserId = userId)
  distinct : ∀ (i j : Nat) (c c' : Client) (userId : Int), i ≠ j → s.clients[i]? = some c → s.clients[j]? = some c' →
    c.outcome = .loggedIn userId → c'.outcome ≠ .loggedIn userId
  refused : ∀ (i : Nat) (c : Client), s.clients[i]? = some c → c.outcome = .inputError →
    ∃ l, s.server.logins[i]? = some l ∧ l.Over ∧ (c.Admin → l.user.loginState ≠ .loginFailed)
  users : ∀ u ∈ s.server.users, ∃ (i : Nat) (c : Client), s.clients[i]? = some c ∧ c.Admin ∧ Knows c u.mUserId

theorem Inv.agreed {s : System} (hi : Inv s) : Agreed s := by
  have hlogin : ∀ {i : Nat} {c : Client}, s.clients[i]? = some c → ∃ l, s.server.logins[i]? = some l ∧ Pair c l := by
    intro i c hc
    have hlt : i < s.server.logins.length := by
      rw [← hi.length]
      exact (List.getElem?_eq_some_iff.mp hc).1
    exact ⟨_, List.getElem?_eq_getElem hlt, hi.pair i c _ hc (List.getElem?_eq_getElem hlt)⟩
  constructor
  case loggedIn =>
    intro i c userId hc ho
    obtain ⟨l, hl, hp⟩ := hlogin hc
    obtain ⟨hret, hid⟩ := hp.loggedIn userId ho
    refine ⟨(hp.verdict (by rw [hret.1]; exact nofun)).mp hret.1, l, hl, hret, hid, fun hg => ?_⟩
    rw [← hid]
    exact hi.told.made i l hl hg hret
  case distinct =>
    intro i j c c' userId hne hc hc' ho ho'
    obtain ⟨l, hl, hp⟩ := hlogin hc
    obtain ⟨l', hl', hp'⟩ := hlogin hc'
    obtain ⟨hret, hid⟩ := hp.loggedIn userId ho
    obtain ⟨hret', hid'⟩ := hp'.loggedIn userId ho'
    exact hi.told.distinct i j l l' hne hl hl' hret hret' (hid.trans hid'.symm)
  case refused =>
    intro i c hc ho
    obtain ⟨l, hl, hp⟩ := hlogin hc
    refine ⟨l, hl, hp.refused ho, fun hadmin hf => ?_⟩
    cases hf.symm.trans ((hp.verdict (by rw [hf]; exact nofun)).mpr hadmin)
  case users =>
    intro u hu
    obtain ⟨i, l, hl, hg, hret, hid⟩ := hi.told.users u hu
    have hlt : i < s.clients.length := by
      rw [hi.length]
      exact (List.getElem?_eq_some_iff.mp hl).1
    obtain ⟨c, hc⟩ : ∃ c, s.clients[i]? = some c := ⟨_, List.getElem?_eq_getElem hlt⟩
    have hp := hi.pair i c l hc hl
    refine ⟨i, c, hc, (hp.verdict (by rw [hret.1]; exact nofun)).mp hret.1, ?_⟩
    rw [← hid]
    exact hp.knows hret

theorem agreed_of_orderly (es : List Ev) (h : Along step Orderly init es) : Always step Agreed init es :=
  (always_of_along (I := Inv) (fun _ _ _ hi ho hs => step_inv hi ho hs) init_inv h).mono fun _ hi => hi.agreed

instance (s : System) : (e : Ev) → Decidable (s.Orderly e)
  | .start .. => inferInstanceAs (Decidable (∀ l ∈ s.server.logins, l.user.mUserId = s.server.mUserId → l.Over))
  | .server (.accept ..) _ =>
    inferInstanceAs (Decidable ((∀ l ∈ s.server.logins, l.user.mUserId = s.server.mUserId → l.Over) ∧ True))
  | .server (.login i e _ _) n =>
    inferInstanceAs (Decidable (s.server.mUserId < 2147483647 ∧ Whole e n ∧ ∀ l ∈ s.server.logins[i]?, l.Orderly e))
  | .server (.quit _) _ | .server (.deleteloginUser _) _ | .server (.sweep _) _ =>
    inferInstanceAs (Decidable (True ∧ True))
  | .relayed .. | .exit .. => inferInstanceAs (Decidable True)
  | .recv _ n => inferInstanceAs (Decidable (n = Proto.loginReplySize))

def logIn (i : Nat) (es : List Login.Ev) : List Ev := es.map fun e => .server (.login i e (fun _ => 0) 0) 0

def threeClients : List Ev :=
  [.start Unloginuser.admin Unloginuser.admin 0 (fun _ => 0) .zero 5 0] ++ logIn 0 Login.adminRun ++
    [.recv 0 18, .start Unloginuser.admin [114, 111, 111, 116] 0 (fun _ => 0) .zero 6 0] ++
    logIn 1 (Login.adminRun.take 9) ++
    [.recv 1 18, .start Unloginuser.admin Unloginuser.admin 0 (fun _ => 0) .zero 7 0] ++ logIn 2 Login.adminRun ++
    [.recv 2 18]

theorem three_clients_agree :
    (run step init threeClients).map (fun s => s.clients.map (·.outcome)) =
        some [.loggedIn 1, .inputError, .loggedIn 2] ∧ Always step Agreed init threeClients :=
  ⟨by decide +kernel, agreed_of_orderly threeClients (by decide +kernel)⟩

end System

end GroupeChat.Logins
