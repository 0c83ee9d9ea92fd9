/-
  GroupeChat.UdpChat.OnlineList — who stands in the UDP chat client's online window
  (`AddUser`, `DelUser`, and their call in `RunOutputOnline`).

  An entry is the text name-school, and both searches compare entries, so two users whose
  texts agree ("a-b" of "c" and "a" of "b-c") are one entry.

  `Right`: the entries are those of the users whose latest Info is not a quit, each once,
  in the order they joined, and the latest Info left the other users' entries alone. It
  holds all along exactly the runs in which no Info comes while another user of the same
  text is online (`online_iff_alone`). No name with a dash in it, and it always holds
  (`right_of_plain`); `one_entry_for_two` is a run that breaks it.
-/

import GroupeChat.Base.Run
import GroupeChat.UdpChat.Server

namespace GroupeChat.UdpChat

open Base

/-- `AddUser`, its search at the head of what is left of the list. -/
def addUser (f : Text) : List Text → List Text
  | [] => [f]
  | it :: rest => if it = f then it :: rest else it :: addUser f rest

def delUser (f : Text) : List Text → List Text
  | [] => []
  | it :: rest => if it = f then rest else it :: delUser f rest

structure Person where
  name : Text
  school : Text
  deriving DecidableEq

def Info.person (d : Info) : Person := ⟨d.userName, d.school⟩

def dash : UInt8 := 45

def Person.show_string (u : Person) : Text := u.name ++ dash :: u.school

def Info.enter (d : Info) (online : List Text) : List Text :=
  if d.token = quit then delUser d.person.show_string online else addUser d.person.show_string online

/-! ## The two searches -/

theorem addUser_of_mem {f : Text} {online : List Text} (h : f ∈ online) : addUser f online = online := by
  induction online with
  | nil => cases h
  | cons it rest ih =>
    unfold addUser
    by_cases he : it = f
    · rw [if_pos he]
    · rw [if_neg he, ih ((List.mem_cons.mp h).resolve_left fun hf => he hf.symm)]

theorem addUser_of_not_mem {f : Text} {online : List Text} (h : f ∉ online) : addUser f online = online ++ [f] := by
  induction online with
  | nil => rfl
  | cons it rest ih =>
    obtain ⟨hne, hrest⟩ := not_or.mp (List.mem_cons.not.mp h)
    unfold addUser
    rw [if_neg fun he => hne he.symm, ih hrest]
    rfl

theorem delUser_eq_erase (f : Text) (online : List Text) : delUser f online = online.erase f := by
  induction online with
  | nil => rfl
  | cons it rest ih =>
    unfold delUser
    rw [List.erase_cons, ih]
    simp

theorem delUser_of_nodup {f : Text} {online : List Text} (h : online.Nodup) :
    delUser f online = online.filter (· ≠ f) := by
  rw [delUser_eq_erase, h.erase_eq_filter]
  apply List.filter_congr
  intro t _
  by_cases he : t = f
  · simp [he]
  · simp [he]

/-- A list of entries without repetitions stays one, and an Info that quits leaves no entry. -/
theorem Info.enter_nodup (d : Info) {online : List Text} (h : online.Nodup) : (d.enter online).Nodup := by
  unfold Info.enter
  by_cases hq : d.token = quit
  · rw [if_pos hq, delUser_of_nodup h]
    exact h.filter _
  · rw [if_neg hq]
    by_cases hm : d.person.show_string ∈ online
    · rwa [addUser_of_mem hm]
    · rw [addUser_of_not_mem hm]
      apply List.nodup_append.mpr
      refine ⟨h, List.nodup_singleton _, fun a ha b hb he => hm ?_⟩
      rwa [← List.mem_singleton.mp hb, ← he]

theorem Info.not_mem_enter_quit {d : Info} {online : List Text} (h : online.Nodup) (hq : d.token = quit) :
    d.person.show_string ∉ d.enter online := by
  unfold Info.enter
  rw [if_pos hq, delUser_of_nodup h, List.mem_filter]
  simp

theorem Info.enter_quit_of_not_mem {d : Info} {online : List Text} (h : d.person.show_string ∉ online)
    (hq : d.token = quit) : d.enter online = online := by
  unfold Info.enter
  rw [if_pos hq, delUser_eq_erase, List.erase_of_not_mem h]

/-! ## The list and the users -/

structure OnlineList where
  online : List Text
  /-- `online` before the latest Info. -/
  was : List Text
  /-- The Infos processed. -/
  history : List Info

namespace OnlineList

def init : OnlineList := ⟨[], [], []⟩

def process (s : OnlineList) (d : Info) : OnlineList := ⟨d.enter s.online, s.online, s.history ++ [d]⟩

def step (s : OnlineList) (d : Info) : Option OnlineList := some (s.process d)

/-- The user's latest Info is not a quit. -/
def Online (history : List Info) (u : Person) : Prop :=
  ∃ d, (history.filter fun d => d.person = u).getLast? = some d ∧ d.token ≠ quit

def JoinedAt (history : List Info) (u : Person) (n : Nat) : Prop :=
  ¬ Online (history.take n) u ∧ ∀ m, n < m → Online (history.take m) u

def Before (history : List Info) (u v : Person) : Prop :=
  ∃ m n, JoinedAt history u m ∧ JoinedAt history v n ∧ m < n

/-- `us` are the users online, in the order they joined. -/
def Roster (history : List Info) (us : List Person) : Prop :=
  (∀ u, u ∈ us ↔ Online history u) ∧ us.Pairwise (Before history)

/-- The entries are the users', each once, and those of the others are where they were. -/
def Right (s : OnlineList) : Prop :=
  s.online.Nodup ∧ (∃ us, Roster s.history us ∧ s.online = us.map Person.show_string) ∧
  ∀ d, s.history.getLast? = some d → ∀ v, v ≠ d.person → Online s.history v →
    v.show_string ∈ s.was ∧ v.show_string ∈ s.online

def Alone (s : OnlineList) (d : Info) : Prop :=
  ∀ v, Online s.history v → v.show_string = d.person.show_string → v = d.person

/-! ## Who is online -/

theorem online_snoc {history : List Info} {d : Info} {u : Person} :
    Online (history ++ [d]) u ↔ if u = d.person then d.token ≠ quit else Online history u := by
  by_cases h : u = d.person
  · subst h
    simp [Online]
  · have hne : ¬ d.person = u := fun heq => h heq.symm
    simp [Online, List.filter_append, h, hne]

theorem online_other {history : List Info} {d : Info} {u : Person} (h : u ≠ d.person) :
    Online (history ++ [d]) u ↔ Online history u := by
  rw [online_snoc, if_neg h]

theorem online_sender {history : List Info} {d : Info} : Online (history ++ [d]) d.person ↔ d.token ≠ quit := by
  rw [online_snoc, if_pos rfl]

theorem JoinedAt.lt {history : List Info} {u : Person} {n : Nat} (h : JoinedAt history u n) : n < history.length := by
  by_contra hge
  have hnext := h.2 (n + 1) (Nat.lt_succ_self n)
  rw [List.take_of_length_le (by omega)] at hnext
  exact h.1 (by rwa [List.take_of_length_le (by omega)])

/-- Who stays online keeps its place. -/
theorem JoinedAt.snoc {history : List Info} {d : Info} {u : Person} {n : Nat} (h : JoinedAt history u n)
    (hu : Online (history ++ [d]) u) : JoinedAt (history ++ [d]) u n := by
  have hlt := h.lt
  refine ⟨by rw [List.take_append_of_le_length (by omega)]; exact h.1, fun m hm => ?_⟩
  by_cases hle : m ≤ history.length
  · rw [List.take_append_of_le_length hle]
    exact h.2 m hm
  · rw [List.take_of_length_le (by rw [List.length_append, List.length_singleton]; omega)]
    exact hu

/-- Who joins comes last. -/
theorem joinedAt_end {history : List Info} {d : Info} {u : Person} (hold : ¬ Online history u)
    (hnew : Online (history ++ [d]) u) : JoinedAt (history ++ [d]) u history.length := by
  refine ⟨by rw [List.take_append_of_le_length (Nat.le_refl _), List.take_length]; exact hold, fun m hm => ?_⟩
  rw [List.take_of_length_le (by rw [List.length_append, List.length_singleton]; omega)]
  exact hnew

theorem Before.snoc {history : List Info} {d : Info} {u v : Person} (h : Before history u v)
    (hu : Online (history ++ [d]) u) (hv : Online (history ++ [d]) v) : Before (history ++ [d]) u v := by
  obtain ⟨m, n, hm, hn, hlt⟩ := h
  exact ⟨m, n, hm.snoc hu, hn.snoc hv, hlt⟩

/-- Every user online joined at some point. -/
theorem Online.joinedAt {history : List Info} {u : Person} (h : Online history u) : ∃ n, JoinedAt history u n := by
  induction history using List.reverseRecOn with
  | nil =>
    obtain ⟨d, hd, -⟩ := h
    cases hd
  | append_singleton history d ih =>
    by_cases hold : Online history u
    · obtain ⟨n, hn⟩ := ih hold
      exact ⟨n, hn.snoc h⟩
    · exact ⟨history.length, joinedAt_end hold h⟩

/-! ## The roster -/

theorem Roster.keep {history : List Info} {us : List Person} {d : Info} (hr : Roster history us)
    (hu : d.person ∈ us) (hq : d.token ≠ quit) : Roster (history ++ [d]) us := by
  have hmem : ∀ u, u ∈ us ↔ Online (history ++ [d]) u := by
    intro u
    by_cases he : u = d.person
    · rw [he]
      exact ⟨fun _ => online_sender.mpr hq, fun _ => hu⟩
    · rw [online_other he]
      exact hr.1 u
  refine ⟨hmem, List.Pairwise.imp_of_mem ?_ hr.2⟩
  intro a b ha hb h
  exact h.snoc ((hmem a).mp ha) ((hmem b).mp hb)

theorem Roster.join {history : List Info} {us : List Person} {d : Info} (hr : Roster history us)
    (hu : d.person ∉ us) (hq : d.token ≠ quit) : Roster (history ++ [d]) (us ++ [d.person]) := by
  have hmem : ∀ u, u ∈ us ++ [d.person] ↔ Online (history ++ [d]) u := by
    intro u
    rw [List.mem_append, List.mem_singleton]
    by_cases he : u = d.person
    · rw [he, online_sender]
      exact ⟨fun _ => hq, fun _ => Or.inr rfl⟩
    · rw [online_other he, ← hr.1 u]
      exact ⟨fun h => h.resolve_right he, Or.inl⟩
  have hold : ∀ u ∈ us, Online (history ++ [d]) u := fun u hu => (hmem u).mp (List.mem_append_left _ hu)
  have hnew : Online (history ++ [d]) d.person := online_sender.mpr hq
  refine ⟨hmem, List.pairwise_append.mpr ⟨?_, List.pairwise_singleton _ _, ?_⟩⟩
  · apply List.Pairwise.imp_of_mem _ hr.2
    intro a b ha hb h
    exact h.snoc (hold a ha) (hold b hb)
  · intro a ha b hb
    rw [List.mem_singleton.mp hb]
    obtain ⟨n, hn⟩ := ((hr.1 a).mp ha).joinedAt
    have hout : ¬ Online history d.person := fun h => hu ((hr.1 _).mpr h)
    exact ⟨n, history.length, hn.snoc (hold a ha), joinedAt_end hout hnew, hn.lt⟩

theorem Roster.quit {history : List Info} {us : List Person} {d : Info} (hr : Roster history us)
    (hq : d.token = quit) : Roster (history ++ [d]) (us.filter (· ≠ d.person)) := by
  have hmem : ∀ u, u ∈ us.filter (· ≠ d.person) ↔ Online (history ++ [d]) u := by
    intro u
    rw [List.mem_filter, decide_eq_true_iff]
    by_cases he : u = d.person
    · rw [he, online_sender]
      exact ⟨fun h => absurd rfl h.2, fun h => absurd hq h⟩
    · rw [online_other he, ← hr.1 u]
      exact ⟨fun h => h.1, fun h => ⟨h, he⟩⟩
  refine ⟨hmem, List.Pairwise.imp_of_mem ?_ (hr.2.sublist List.filter_sublist)⟩
  intro a b ha hb h
  exact h.snoc ((hmem a).mp ha) ((hmem b).mp hb)

/-! ## An Info -/

/-- With no other user of its text online, an Info does to the entries what it does to the roster. -/
theorem process_right {s : OnlineList} {d : Info} (h : Right s) (ha : Alone s d) : Right (s.process d) := by
  obtain ⟨hnd, ⟨us, hr, heq⟩, -⟩ := h
  have hsame : ∀ v ∈ us, v.show_string = d.person.show_string → v = d.person := fun v hv => ha v ((hr.1 v).mp hv)
  have hmap : d.person.show_string ∈ s.online ↔ d.person ∈ us := by
    rw [heq, List.mem_map]
    refine ⟨?_, ?_⟩
    · intro hm
      obtain ⟨v, hv, hs⟩ := hm
      rwa [← hsame v hv hs]
    · exact fun hm => ⟨_, hm, rfl⟩
  have hroster : ∃ us', Roster (s.history ++ [d]) us' ∧ d.enter s.online = us'.map Person.show_string := by
    unfold Info.enter
    by_cases hq : d.token = UdpChat.quit
    · refine ⟨_, hr.quit hq, ?_⟩
      rw [if_pos hq, delUser_of_nodup hnd, heq, List.filter_map]
      congr 1
      apply List.filter_congr
      intro v hv
      have : v.show_string = d.person.show_string ↔ v = d.person := ⟨hsame v hv, congrArg _⟩
      simp [this]
    · rw [if_neg hq]
      by_cases hu : d.person ∈ us
      · exact ⟨us, hr.keep hu hq, by rw [addUser_of_mem (hmap.mpr hu), heq]⟩
      · refine ⟨_, hr.join hu hq, ?_⟩
        rw [addUser_of_not_mem fun h => hu (hmap.mp h), heq, List.map_append, List.map_singleton]
  obtain ⟨us', hr', heq'⟩ := hroster
  refine ⟨d.enter_nodup hnd, ⟨us', hr', heq'⟩, ?_⟩
  intro d' hd' v hv hon
  obtain rfl : d = d' := by simpa [process] using hd'
  have hold := (online_other hv).mp hon
  refine ⟨?_, ?_⟩
  · show v.show_string ∈ s.online
    rw [heq]
    exact List.mem_map_of_mem ((hr.1 v).mpr hold)
  · show v.show_string ∈ d.enter s.online
    rw [heq']
    exact List.mem_map_of_mem ((hr'.1 v).mpr hon)

/-- Another user of the same text loses its entry to a quit, or shares it. -/
theorem alone_of_right {s : OnlineList} {d : Info} (h : Right s) (h' : Right (s.process d)) : Alone s d := by
  intro v hv hs
  by_contra hne
  obtain ⟨hnd, -, -⟩ := h
  obtain ⟨hnd', ⟨us', hr', heq'⟩, -⟩ := h'
  change (d.enter s.online).Nodup at hnd'
  change d.enter s.online = us'.map Person.show_string at heq'
  have hmem : v ∈ us' := (hr'.1 v).mpr ((online_other hne).mpr hv)
  by_cases hq : d.token = UdpChat.quit
  · have hin : v.show_string ∈ d.enter s.online := by
      rw [heq']
      exact List.mem_map_of_mem hmem
    unfold Info.enter at hin
    rw [if_pos hq, delUser_of_nodup hnd, List.mem_filter] at hin
    simp [hs] at hin
  · have hself : d.person ∈ us' := (hr'.1 _).mpr (online_sender.mpr hq)
    rw [heq'] at hnd'
    exact hne (List.inj_on_of_nodup_map hnd' hmem hself hs)

/-! ## Runs -/

theorem init_right : Right init := by
  refine ⟨List.nodup_nil, ⟨[], ⟨fun u => ?_, List.Pairwise.nil⟩, rfl⟩, fun d hd => by cases hd⟩
  simp [init, Online]

/-- Whatever the Infos, the window is right all along exactly when none comes while another
    user of the same text is online. -/
theorem online_iff_alone (ds : List Info) : Always step Right init ds ↔ Along step Alone init ds := by
  refine always_iff_along (I := Right) (fun _ h => h) (fun s d s' hi h => ?_) init_right
  obtain rfl := Option.some.inj h
  exact ⟨process_right hi, alone_of_right hi⟩

/-! ## Names without a dash -/

/-- Before its first dash a text has the name. -/
theorem dash_cons_inj {a b c d : Text} (ha : dash ∉ a) (hc : dash ∉ c) (h : a ++ dash :: b = c ++ dash :: d) :
    a = c ∧ b = d := by
  induction a generalizing c with
  | nil =>
    cases c with
    | nil => exact ⟨rfl, (List.cons.inj h).2⟩
    | cons y c => exact absurd (by rw [(List.cons.inj h).1]; exact List.mem_cons_self) hc
  | cons x a ih =>
    cases c with
    | nil => exact absurd (by rw [← (List.cons.inj h).1]; exact List.mem_cons_self) ha
    | cons y c =>
      obtain ⟨hxy, hrest⟩ := List.cons.inj h
      obtain ⟨hac, hbd⟩ := ih (fun hm => ha (List.mem_cons_of_mem _ hm)) (fun hm => hc (List.mem_cons_of_mem _ hm))
        hrest
      exact ⟨by rw [hxy, hac], hbd⟩

/-- Where no name has a dash in it, the window is right whatever comes. -/
theorem right_of_plain {ds : List Info} (hd : ∀ d ∈ ds, dash ∉ d.userName) : Always step Right init ds := by
  have hrun : ∀ {es : List Info} {s : OnlineList}, Right s → (∀ d ∈ es, dash ∉ d.userName) →
      (∀ v, Online s.history v → dash ∉ v.name) → Always step Right s es := by
    intro es
    induction es with
    | nil => intro s hs _ _; exact hs
    | cons d es ih =>
      intro s hs hplain hold
      refine ⟨hs, fun t ht => ?_⟩
      obtain rfl := Option.some.inj ht
      have hself := hplain d List.mem_cons_self
      apply ih _ fun e he => hplain e (List.mem_cons_of_mem _ he)
      · intro v hv
        by_cases he : v = d.person
        · rw [he]
          exact hself
        · exact hold v ((online_other he).mp hv)
      · apply process_right hs
        intro v hv hsame
        obtain ⟨hname, hschool⟩ := dash_cons_inj (hold v hv) hself hsame
        cases v
        exact congrArg₂ Person.mk hname hschool
  apply hrun init_right hd
  intro v hv
  simp [init, Online] at hv

/-! ## Two users of one text -/

/-- The quit of "a" from "b-c" takes out "a-b" from "c". -/
theorem one_entry_for_two : ¬ Always step Right init
    [⟨ascii "a-b", ascii "c", [], []⟩, ⟨ascii "a", ascii "b-c", [], quit⟩] := by
  intro h
  obtain ⟨-, ⟨us, hr, heq⟩, -⟩ := (h.2 _ rfl).2 _ rfl
  have hon : Online [⟨ascii "a-b", ascii "c", [], []⟩, ⟨ascii "a", ascii "b-c", [], UdpChat.quit⟩]
      ⟨ascii "a-b", ascii "c"⟩ := ⟨⟨ascii "a-b", ascii "c", [], []⟩, rfl, by decide⟩
  have hmem := List.mem_map_of_mem (f := Person.show_string) ((hr.1 _).mpr hon)
  rw [← heq] at hmem
  revert hmem
  decide

end OnlineList

end GroupeChat.UdpChat
