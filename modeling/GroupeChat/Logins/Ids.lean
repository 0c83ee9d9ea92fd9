/-
  GroupeChat.Logins.Ids — the ids that successful records were returned with.

  `Told` is kept by every step of a server whose logins can still be told apart
  (`ChatServer.Server.Apart`): a record that is returned has the counter's value, which
  moves on (`returns_next`), and a user has its record's id.
-/

import GroupeChat.Base.Cells
import GroupeChat.Logins.Records

namespace GroupeChat.Logins

open Base ChatServer

/-- Successful records that were returned have ids of their own, below the counter, and
    the users are those of them that the command thread is through with. -/
structure Told (s : Server) : Prop where
  below : ∀ (i : Nat) (l : Login), s.logins[i]? = some l → Returned l → l.user.mUserId < s.mUserId
  distinct : ∀ (i j : Nat) (l l' : Login), i ≠ j → s.logins[i]? = some l → s.logins[j]? = some l' → Returned l →
    Returned l' → l.user.mUserId ≠ l'.user.mUserId
  users : ∀ u ∈ s.users, ∃ (i : Nat) (l : Login), s.logins[i]? = some l ∧ l.cmd = .gone ∧ Returned l ∧
    l.user.mUserId = u.mUserId
  made : ∀ (i : Nat) (l : Login), s.logins[i]? = some l → l.cmd = .gone → Returned l →
    ∃ u ∈ s.users, u.mUserId = l.user.mUserId

theorem init_told : Told Server.init where
  below _ _ h := absurd h (by simp [Server.init])
  distinct _ _ _ _ _ h := absurd h (by simp [Server.init])
  users _ h := absurd h List.not_mem_nil
  made _ _ h := absurd h (by simp [Server.init])

/-- A record that returns with success has the counter's value, which moves on. -/
theorem returns_next {s : Server} (hi : s.Apart) {i : Nat} {l l' : Login} {e : Login.Ev} (hl : s.logins[i]? = some l)
    (h : l.step e = some l') (hlt : s.mUserId < 2147483647) (hn : ¬ Returned l) (hr : Returned l') :
    l.user.mUserId = s.mUserId ∧ (s.advance l l').mUserId = s.mUserId + 1 ∧ e ≠ .promote := by
  have hstage := hi.stage l (List.mem_of_getElem? hl)
  have hb := hi.bound
  rcases Login.step_return h with hf | ⟨hlive, -, hstate, hne⟩
  · exact absurd (returned_before hstage h (hf.symm.trans hr.2) hr) hn
  · have hflag : l.user.loginReturnFlag = false :=
      Bool.eq_false_iff.mpr fun hf => hstage.returned (Or.inl hf) hlive
    have hcand : l.Candidate := by
      refine ⟨fun hg => hstage.returned (Or.inr hg) hlive, ?_⟩
      rintro (hf | ⟨hd, -⟩)
      · cases (hstate.symm.trans hr.1).symm.trans hf
      · exact hd hlive
    refine ⟨hi.pending i l hl hcand hflag, ?_, hne⟩
    unfold Server.advance
    rw [if_pos ⟨hflag, hr.2, hr.1⟩]
    exact wrap_four (by omega) (by omega)

/-- What a step on a record does to the server. -/
theorem server_login {s t : Server} {i : Nat} {e : Login.Ev} {junk : Buf} {now : Int}
    (h : s.step (.login i e junk now) = some t) : ∃ l l', s.logins[i]? = some l ∧ l.step e = some l' ∧
      t.logins = s.logins.set i l' ∧
      (t.users = s.users ∧ t.mUserId = (s.advance l l').mUserId ∧ (e = .promote → ¬ l.user.loginState = .loginSuccess) ∨
        t.users = s.users ++ [.new junk l.user.mSocket l.user.mUserId now] ∧ t.mUserId = s.mUserId ∧ e = .promote ∧
          l.user.loginState = .loginSuccess) := by
  unfold Server.step at h
  split at h
  · simp only [Server.next] at h
    split at h
    · cases h
    · rename_i l hl
      split at h
      · cases h
      · rename_i l' hstep
        obtain rfl := Option.some.inj h
        have hadv : ({ s with logins := s.logins.set i l' }.advance l l').logins = s.logins.set i l' ∧
            ({ s with logins := s.logins.set i l' }.advance l l').users = s.users ∧
            ({ s with logins := s.logins.set i l' }.advance l l').mUserId = (s.advance l l').mUserId := by
          unfold Server.advance
          split <;> exact ⟨rfl, rfl, rfl⟩
        obtain ⟨h1, h2, h3⟩ := hadv
        refine ⟨l, l', hl, hstep, ?_⟩
        cases e with
        | promote =>
          have hsame : l'.user = l.user := by
            obtain ⟨-, -, rfl⟩ := Login.step_eq hstep
            rfl
          have hstay : (s.advance l l').mUserId = s.mUserId := by
            unfold Server.advance
            rw [hsame, if_neg]
            rintro ⟨hf, ht, -⟩
            cases hf.symm.trans ht
          by_cases hs : l.user.loginState = .loginSuccess
          · rw [Server.after, if_pos hs]
            exact ⟨rfl, Or.inr ⟨rfl, rfl, rfl, hs⟩⟩
          · rw [Server.after, if_neg hs]
            exact ⟨rfl, Or.inl ⟨rfl, hstay.symm, fun _ => hs⟩⟩
        | _ =>
          refine ⟨h1, Or.inl ⟨h2, h3, fun he => ?_⟩⟩
          cases he
  · cases h

/-- The counter goes on, past an id that is returned. -/
theorem login_counter {s t : Server} {i : Nat} {e : Login.Ev} {l l' : Login} (hi : s.Apart) (ht : Told s)
    (hlt : s.mUserId < 2147483647) (hl : s.logins[i]? = some l) (hstep : l.step e = some l')
    (hcount : t.mUserId = (s.advance l l').mUserId ∨ t.mUserId = s.mUserId ∧ e = .promote) :
    s.mUserId ≤ t.mUserId ∧ (Returned l' → Returned l ∧ l.user.mUserId < s.mUserId ∨
      l.user.mUserId = s.mUserId ∧ s.mUserId < t.mUserId) := by
  have hb := hi.bound
  have hmono : s.mUserId ≤ (s.advance l l').mUserId := by
    unfold Server.advance
    split
    · dsimp only
      rw [wrap_four (by omega) (by omega)]
      omega
    · exact Int.le_refl _
  refine ⟨by omega, fun hr => ?_⟩
  by_cases hb : Returned l
  · exact Or.inl ⟨hb, ht.below i l hl hb⟩
  · obtain ⟨hid, hadv, hne⟩ := returns_next hi hl hstep hlt hb hr
    refine Or.inr ⟨hid, ?_⟩
    rcases hcount with h | ⟨-, h⟩
    · omega
    · exact absurd h hne

theorem login_told {s t : Server} {i : Nat} {e : Login.Ev} {junk : Buf} {now : Int} (hi : s.Apart) (ht : Told s)
    (hg : ∀ l ∈ s.logins, l.cmd = .gone → l.user.loginReturnFlag = true) (hlt : s.mUserId < 2147483647)
    (h : s.step (.login i e junk now) = some t) : Told t := by
  obtain ⟨l, l', hl, hstep, hlogins, hcases⟩ := server_login h
  have hmem := List.mem_of_getElem? hl
  have hst := hi.stage l hmem
  have hid := Login.step_userId hstep
  have hown : t.logins[i]? = some l' := by
    rw [hlogins, List.getElem?_set_self (List.getElem?_eq_some_iff.mp hl).1]
  obtain ⟨hmono, hret⟩ := login_counter (t := t) hi ht hlt hl hstep
    (hcases.imp (fun h => h.2.1) fun h => ⟨h.2.1, h.2.2.1⟩)
  constructor
  case below =>
    intro j m hm hr
    rw [hlogins] at hm
    rcases Cells.getElem?_set_cases hm with ⟨-, hj⟩ | ⟨rfl, rfl⟩
    · have := ht.below j m hj hr
      omega
    · rcases hret hr with ⟨-, h⟩ | ⟨h, h'⟩ <;> omega
  case distinct =>
    intro j k m m' hne hm hm' hr hr'
    rw [hlogins] at hm hm'
    rcases Cells.getElem?_set_cases hm with ⟨-, hj⟩ | ⟨hj, hml⟩
    · rcases Cells.getElem?_set_cases hm' with ⟨-, hk⟩ | ⟨hk, hml'⟩
      · exact ht.distinct j k m m' hne hj hk hr hr'
      · rw [hml'] at hr' ⊢
        rw [hid]
        rcases hret hr' with ⟨h, -⟩ | ⟨h, -⟩
        · exact ht.distinct j i m l (hk ▸ hne) hj hl hr h
        · have := ht.below j m hj hr
          omega
    · rcases Cells.getElem?_set_cases hm' with ⟨-, hk⟩ | ⟨hk, -⟩
      · rw [hml] at hr ⊢
        rw [hid]
        rcases hret hr with ⟨h, -⟩ | ⟨h, -⟩
        · exact ht.distinct i k l m' (hj ▸ hne) hl hk h hr'
        · have := ht.below k m' hk hr'
          omega
      · exact absurd (hj.trans hk.symm) hne
  case users =>
    have hold : ∀ u ∈ s.users, ∃ (j : Nat) (m : Login), t.logins[j]? = some m ∧ m.cmd = .gone ∧ Returned m ∧
        m.user.mUserId = u.mUserId := by
      intro u hu
      obtain ⟨j, m, hm, hgone, hr, hid'⟩ := ht.users u hu
      by_cases hj : j = i
      · subst hj
        obtain rfl := Option.some.inj (hl.symm.trans hm)
        exact ⟨j, l', hown, Login.step_gone hstep hgone, step_returned hst hstep hr, hid.trans hid'⟩
      · exact ⟨j, m, by rw [hlogins, List.getElem?_set_ne (Ne.symm hj)]; exact hm, hgone, hr, hid'⟩
    rcases hcases with ⟨hu, -, -⟩ | ⟨hu, -, rfl, hs⟩
    · rw [hu]
      exact hold
    · intro u hmu
      rw [hu] at hmu
      rcases List.mem_append.mp hmu with hmu | hmu
      · exact hold u hmu
      · obtain rfl := List.mem_singleton.mp hmu
        obtain ⟨-, hen, rfl⟩ := Login.step_eq hstep
        exact ⟨i, _, hown, rfl, ⟨hs, hen.2⟩, rfl⟩
  case made =>
    intro j m hm hgone hr
    have hsub : ∀ u ∈ s.users, u ∈ t.users := by
      rcases hcases with ⟨hu, -⟩ | ⟨hu, -⟩
      · rw [hu]
        exact fun _ => id
      · rw [hu]
        exact fun _ => List.mem_append_left _
    have hbefore : ∀ (j : Nat) (m : Login), s.logins[j]? = some m → m.cmd = .gone → Returned m →
        ∃ u ∈ t.users, u.mUserId = m.user.mUserId := by
      intro j m hm hgone hr
      obtain ⟨u, hu, hid'⟩ := ht.made j m hm hgone hr
      exact ⟨u, hsub u hu, hid'⟩
    rw [hlogins] at hm
    rcases Cells.getElem?_set_cases hm with ⟨-, hm⟩ | ⟨-, rfl⟩
    · exact hbefore j m hm hgone hr
    · rcases gone_before hstep hgone with hgl | rfl
      · rw [hid]
        exact hbefore i l hl hgl (returned_before hst hstep (hg l hmem hgl) hr)
      · rcases hcases with ⟨-, -, hns⟩ | ⟨hu, -⟩
        · obtain ⟨-, -, rfl⟩ := Login.step_eq hstep
          exact absurd hr.1 (hns rfl)
        · rw [hu]
          exact ⟨_, List.mem_append_right _ (List.mem_singleton_self _), hid.symm⟩

/-- A step that leaves the records alone, and the users' ids. -/
theorem Told.congr {s t : Server} (h : Told s) (hl : t.logins = s.logins) (hid : t.mUserId = s.mUserId)
    (hu : t.users.map (·.mUserId) = s.users.map (·.mUserId)) : Told t := by
  have hmem : ∀ k, (∃ u ∈ t.users, u.mUserId = k) ↔ ∃ u ∈ s.users, u.mUserId = k := by
    intro k
    rw [← List.mem_map, ← List.mem_map, hu]
  constructor
  case below => rw [hl, hid]; exact h.below
  case distinct => rw [hl]; exact h.distinct
  case users =>
    intro u hmu
    obtain ⟨v, hv, hvu⟩ := (hmem u.mUserId).mp ⟨u, hmu, rfl⟩
    rw [hl, ← hvu]
    exact h.users v hv
  case made =>
    intro i l hi hg hr
    rw [hl] at hi
    exact (hmem _).mpr (h.made i l hi hg hr)

theorem Told.accept {s : Server} (h : Told s) (junk : Unloginuser) (fd now : Int) (stream : List UInt8)
    (closed : Bool) : Told { s with logins := s.logins ++ [.init junk fd s.mUserId now stream closed] } := by
  have hnew : ¬ Returned (.init junk fd s.mUserId now stream closed) := fun hr => nomatch hr.2
  constructor
  case below =>
    intro i l hl hr
    rcases Cells.getElem?_snoc_cases hl with hl | ⟨-, rfl⟩
    · exact h.below i l hl hr
    · exact absurd hr hnew
  case distinct =>
    intro i j l l' hne hl hl' hr hr'
    rcases Cells.getElem?_snoc_cases hl with hl | ⟨-, rfl⟩
    · rcases Cells.getElem?_snoc_cases hl' with hl' | ⟨-, rfl⟩
      · exact h.distinct i j l l' hne hl hl' hr hr'
      · exact absurd hr' hnew
    · exact absurd hr hnew
  case users =>
    intro u hu
    obtain ⟨i, l, hl, hrest⟩ := h.users u hu
    exact ⟨i, l, by rw [List.getElem?_append_left (List.getElem?_eq_some_iff.mp hl).1]; exact hl, hrest⟩
  case made =>
    intro i l hl hg hr
    rcases Cells.getElem?_snoc_cases hl with hl | ⟨-, rfl⟩
    · exact h.made i l hl hg hr
    · exact absurd hr hnew

/-! ## A client hangs up -/

theorem closed_before {ls : List Login} {i j : Nat} {m : Login} (h : (ls.modify i System.closed)[j]? = some m) :
    ∃ l, ls[j]? = some l ∧ (m = l ∨ m = System.closed l) := by
  rw [List.getElem?_modify] at h
  obtain ⟨l, hl, rfl⟩ := Option.map_eq_some_iff.mp h
  refine ⟨l, hl, ?_⟩
  split
  · exact Or.inr rfl
  · exact Or.inl rfl

/-- Neither what a record may yet become nor its id is in its socket. -/
theorem closed_apart {s : Server} (h : s.Apart) (i : Nat) :
    { s with logins := s.logins.modify i System.closed }.Apart := by
  have hold : ∀ {j : Nat} {m : Login}, (s.logins.modify i System.closed)[j]? = some m →
      ∃ l, s.logins[j]? = some l ∧ (m.Candidate → l.Candidate) ∧ m.user = l.user := by
    intro j m hm
    obtain ⟨l, hl, hcase⟩ := closed_before hm
    refine ⟨l, hl, ?_⟩
    rcases hcase with rfl | rfl
    · exact ⟨id, rfl⟩
    · exact ⟨id, rfl⟩
  constructor
  case stage =>
    intro m hm
    obtain ⟨j, hj⟩ := List.mem_iff_getElem?.mp hm
    obtain ⟨l, hl, hcase⟩ := closed_before hj
    have hst := h.stage l (List.mem_of_getElem? hl)
    rcases hcase with rfl | rfl
    · exact hst
    · exact ⟨hst.unchecked, hst.checked, hst.out, hst.returned, hst.answered⟩
  case bound => exact h.bound
  case pending =>
    intro j m hm hc hf
    obtain ⟨l, hl, hcand, huser⟩ := hold hm
    rw [huser] at hf ⊢
    exact h.pending j l hl (hcand hc) hf
  case returned =>
    intro j m hm hc hf
    obtain ⟨l, hl, hcand, huser⟩ := hold hm
    rw [huser] at hf ⊢
    exact h.returned j l hl (hcand hc) hf
  case distinct =>
    intro j k m m' hne hm hm' hc hc'
    obtain ⟨l, hl, hcand, huser⟩ := hold hm
    obtain ⟨l', hl', hcand', huser'⟩ := hold hm'
    rw [huser, huser']
    exact h.distinct j k l l' hne hl hl' (hcand hc) (hcand' hc')
  case below => exact h.below
  case taken =>
    intro k n j m hk hm hc
    obtain ⟨l, hl, hcand, huser⟩ := hold hm
    rw [huser]
    exact h.taken k n j l hk hl (hcand hc)

theorem closed_told {s : Server} (h : Told s) (i : Nat) :
    Told { s with logins := s.logins.modify i System.closed } := by
  have hold : ∀ {j : Nat} {m : Login}, (s.logins.modify i System.closed)[j]? = some m →
      ∃ l, s.logins[j]? = some l ∧ m.user = l.user ∧ m.cmd = l.cmd ∧ (Returned m → Returned l) := by
    intro j m hm
    obtain ⟨l, hl, hcase⟩ := closed_before hm
    refine ⟨l, hl, ?_⟩
    rcases hcase with rfl | rfl
    · exact ⟨rfl, rfl, id⟩
    · exact ⟨rfl, rfl, id⟩
  constructor
  case below =>
    intro j m hm hr
    obtain ⟨l, hl, huser, -, hret⟩ := hold hm
    rw [huser]
    exact h.below j l hl (hret hr)
  case distinct =>
    intro j k m m' hne hm hm' hr hr'
    obtain ⟨l, hl, huser, -, hret⟩ := hold hm
    obtain ⟨l', hl', huser', -, hret'⟩ := hold hm'
    rw [huser, huser']
    exact h.distinct j k l l' hne hl hl' (hret hr) (hret' hr')
  case users =>
    intro u hu
    obtain ⟨j, l, hl, hg, hr, hid⟩ := h.users u hu
    by_cases hj : i = j
    · subst hj
      exact ⟨i, System.closed l, by simp [hl], hg, hr, hid⟩
    · exact ⟨j, l, by simp [hl, hj], hg, hr, hid⟩
  case made =>
    intro j m hm hg hr
    obtain ⟨l, hl, huser, hcmd, hret⟩ := hold hm
    rw [huser]
    exact h.made j l hl (hcmd.symm.trans hg) (hret hr)

end GroupeChat.Logins
