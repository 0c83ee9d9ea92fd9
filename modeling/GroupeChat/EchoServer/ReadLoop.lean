/-
  GroupeChat.EchoServer.ReadLoop — whether `conn::read` returns.

  Its loop has two ways out: a `::read` that would block, and one that fails. The end of
  file sets `readOfEnd` and goes on, and from then on every `::read` returns 0.

  A `Feed` is a connection at the head of the loop and what the calls give it: some
  positive counts, and then one of the three endings. `after n` is the connection once
  `::read` has been called `n` times. The call returns, with `readOfEnd` set exactly when
  an end of file was seen, just in case the ending is not the end of file and the process
  does not exit for want of memory (`returns_iff`). `a_hang_up_spins` is a feed on which
  it does not.
-/

import GroupeChat.EchoServer

namespace GroupeChat.EchoServer

open Base Conn

inductive Ending where
  | again
  | error
  /-- From here on `::read` returns 0. -/
  | eof
  deriving DecidableEq

def Ending.result : Ending → Result
  | .again => .again
  | .error => .error
  | .eof => .eof

structure Feed where
  conn : Conn
  counts : List (List UInt8)
  ending : Ending
  /-- What `realloc` gives before the `n`-th `::read`, if it is called. -/
  realloc : Nat → Option (Mem UInt8)

namespace Feed

def result (f : Feed) (n : Nat) : Result := ((f.counts[n]?).map Result.count).getD f.ending.result

/-- The connection after `n` calls of `::read`, unless the process has exited. -/
def after (f : Feed) : Nat → Option Conn
  | 0 => some f.conn
  | n + 1 => (f.after n).bind fun c =>
    if c.place = .reading then (c.room (f.realloc n)).map fun c => c.read (f.result n) else some c

structure Proper (f : Feed) : Prop where
  inv : Inv f.conn
  /-- `read` has just been called. -/
  called : f.conn.place = .reading
  /-- A `::read` returns no more than it was asked for. -/
  fits : ∀ n c d, f.after n = some c → c.room (f.realloc n) = some d → (f.result n).Fits d.space

def EndSeen (f : Feed) : Prop := f.conn.readOfEnd = true ∨ f.ending = .eof

/-- The loop is left, with `readOfEnd` set when an end of file was seen. -/
def Returns (f : Feed) : Prop :=
  ∃ n c, f.after n = some c ∧ c.place ≠ .reading ∧ (c.readOfEnd = true ↔ f.EndSeen)

/-- No `realloc` fails on the way. -/
def Lives (f : Feed) : Prop := ∀ n, f.after n ≠ none

/-! ## One turn of the loop -/

theorem after_succ {f : Feed} {n : Nat} {c : Conn} (h : f.after n = some c) (hp : c.place = .reading) :
    f.after (n + 1) = (c.room (f.realloc n)).map fun c => c.read (f.result n) := by
  rw [after, h, Option.bind_some, if_pos hp]

/-- What the turn does is two steps of the connection. -/
theorem turn_run {f : Feed} {n : Nat} {c d : Conn} (hp : c.place = .reading) (h : c.room (f.realloc n) = some d)
    (hd : d.place = .asking) (hf : (f.result n).Fits d.space) :
    run step c [.room (f.realloc n), .read (f.result n)] = some (d.read (f.result n)) := by
  simp [run, step, hp, h, hd, hf]

theorem room_place {c d : Conn} {realloc : Option (Mem UInt8)} (hi : Inv c) (h : c.room realloc = some d) :
    d.place = .asking ∧ d.readOfEnd = c.readOfEnd := by
  rcases room_cases hi h with ⟨-, rfl⟩ | ⟨-, -, fresh, rfl⟩ | ⟨-, rfl⟩
  · exact ⟨rfl, rfl⟩
  · exact ⟨rfl, rfl⟩
  · exact ⟨rfl, rfl⟩

theorem read_count {c : Conn} {bytes : List UInt8} (hi : Inv c)
    (h : (Result.count bytes).Fits c.space) :
    (c.read (.count bytes)).place = .reading ∧ (c.read (.count bytes)).readOfEnd = c.readOfEnd := by
  have hpos : 0 < bytes.length := h.1
  refine ⟨?_, ?_⟩
  · rcases h.ret with hret | ⟨-, hnil⟩
    · obtain ⟨e, he⟩ := read_took hi h hret
      rw [he]
    · rw [show bytes = [] from hnil] at hpos
      cases hpos
  · rw [(read_flags h).1]
    exact Bool.or_false _

theorem read_eof (c : Conn) : (c.read .eof).place = .reading := by
  unfold Conn.read
  rw [show wrap 4 Result.eof.ret = 0 by decide]
  rfl

theorem read_leaves {c : Conn} {e : Ending} (he : e ≠ .eof) :
    (c.read e.result).place ≠ .reading ∧ (c.read e.result).readOfEnd = c.readOfEnd := by
  have hagain : wrap 4 Result.again.ret = -1 := by decide
  have herror : wrap 4 Result.error.ret = -1 := by decide
  unfold Conn.read
  cases e with
  | again =>
    rw [Ending.result, hagain]
    exact ⟨fun h => (by cases h), rfl⟩
  | error =>
    rw [Ending.result, herror]
    exact ⟨fun h => (by cases h), rfl⟩
  | eof => exact absurd rfl he

/-! ## The calls in order -/

theorem result_count {f : Feed} {n : Nat} {bytes : List UInt8} (h : f.counts[n]? = some bytes) :
    f.result n = .count bytes := by
  rw [result, h]
  rfl

theorem result_ending {f : Feed} {n : Nat} (h : f.counts.length ≤ n) : f.result n = f.ending.result := by
  rw [result, List.getElem?_eq_none h]
  rfl

/-- Through the positive counts the loop goes on. -/
theorem after_counts {f : Feed} (hf : f.Proper) {n : Nat} (hn : n ≤ f.counts.length) {c : Conn}
    (h : f.after n = some c) : Inv c ∧ c.place = .reading ∧ c.readOfEnd = f.conn.readOfEnd := by
  induction n generalizing c with
  | zero =>
    obtain rfl := Option.some.inj h
    exact ⟨hf.inv, hf.called, rfl⟩
  | succ n ih =>
    cases hprev : f.after n with
    | none =>
      rw [after, hprev] at h
      cases h
    | some b =>
      obtain ⟨hinv, hplace, hend⟩ := ih (by omega) hprev
      rw [after_succ hprev hplace] at h
      obtain ⟨d, hd, rfl⟩ := Option.map_eq_some_iff.mp h
      have hfits := hf.fits n b d hprev hd
      obtain ⟨hasking, hsame⟩ := room_place hinv hd
      have hrun := run_inv step_inv hinv (turn_run hplace hd hasking hfits)
      rw [result_count (List.getElem?_eq_getElem (by omega))] at hfits hrun ⊢
      obtain ⟨hread, hkept⟩ := read_count (room_inv hinv hd) hfits
      exact ⟨hrun, hread, by rw [hkept, hsame, hend]⟩

/-- After the end of file the loop goes on for ever. -/
theorem after_eof {f : Feed} (hf : f.Proper) (he : f.ending = .eof) (n : Nat) {c : Conn} (h : f.after n = some c) :
    c.place = .reading := by
  induction n generalizing c with
  | zero =>
    obtain rfl := Option.some.inj h
    exact hf.called
  | succ n ih =>
    by_cases hn : n + 1 ≤ f.counts.length
    · exact (after_counts hf hn h).2.1
    · cases hprev : f.after n with
      | none =>
        rw [after, hprev] at h
        cases h
      | some b =>
        rw [after_succ hprev (ih hprev)] at h
        obtain ⟨d, -, rfl⟩ := Option.map_eq_some_iff.mp h
        rw [result_ending (by omega), he]
        exact read_eof d

/-- Once the loop is left nothing more is called. -/
theorem after_left {f : Feed} {n m : Nat} {c : Conn} (h : f.after n = some c) (hp : c.place ≠ .reading) (hm : n ≤ m) :
    f.after m = some c := by
  induction m, hm using Nat.le_induction with
  | base => exact h
  | succ m _ ih => rw [after, ih, Option.bind_some, if_neg hp]

theorem after_exited {f : Feed} {n m : Nat} (h : f.after n = none) (hm : n ≤ m) : f.after m = none := by
  induction m, hm using Nat.le_induction with
  | base => exact h
  | succ m _ ih => rw [after, ih, Option.bind_none]

/-! ## Whether it returns -/

theorem not_returns_of_eof {f : Feed} (hf : f.Proper) (he : f.ending = .eof) : ¬ f.Returns := by
  intro h
  obtain ⟨n, c, hc, hp, -⟩ := h
  exact hp (after_eof hf he n hc)

theorem Returns.lives {f : Feed} (h : f.Returns) : f.Lives := by
  obtain ⟨n, c, hc, hp, -⟩ := h
  intro m hm
  by_cases hle : n ≤ m
  · rw [after_left hc hp hle] at hm
    cases hm
  · rw [after_exited hm (Nat.le_of_not_le hle)] at hc
    cases hc

/-- Would-block and an error end it in the call that meets them. -/
theorem returns_of_lives {f : Feed} (hf : f.Proper) (he : f.ending ≠ .eof) (hl : f.Lives) : f.Returns := by
  obtain ⟨c, hc⟩ := Option.ne_none_iff_exists'.mp (hl f.counts.length)
  obtain ⟨hinv, hplace, hend⟩ := after_counts hf (Nat.le_refl _) hc
  obtain ⟨e, hlast⟩ := Option.ne_none_iff_exists'.mp (hl (f.counts.length + 1))
  have hturn := hlast
  rw [after_succ hc hplace] at hturn
  obtain ⟨d, hd, rfl⟩ := Option.map_eq_some_iff.mp hturn
  rw [result_ending (Nat.le_refl _)] at hlast
  obtain ⟨hleft, hkept⟩ := read_leaves (c := d) he
  refine ⟨_, _, hlast, hleft, ?_⟩
  rw [hkept, (room_place hinv hd).2, hend, EndSeen]
  exact ⟨Or.inl, fun h => h.resolve_right he⟩

/-- `conn::read` returns as it should exactly when its input does not come to an end of
    file and the process has the memory it asks for. -/
theorem returns_iff (f : Feed) (hf : f.Proper) : f.Returns ↔ f.ending ≠ .eof ∧ f.Lives :=
  ⟨fun h => ⟨fun he => not_returns_of_eof hf he h, h.lives⟩, fun h => returns_of_lives hf h.1 h.2⟩

/-! ## Two peers -/

def fresh (counts : List (List UInt8)) (e : Ending) : Feed :=
  ⟨(init fun _ => 0).handle, counts, e, fun _ => some fun _ => 0⟩

def greeting : Feed := fresh [[104, 105]] .again

theorem greeting_proper : greeting.Proper where
  inv := handle_inv (init_inv _)
  called := rfl
  fits := by
    intro n c d hc hd
    cases n with
    | zero =>
      obtain rfl := Option.some.inj hc
      have hroom : (greeting.conn.room (greeting.realloc 0)).all fun d =>
          decide ((Result.count [104, 105]).Fits d.space) := by
        decide
      rw [hd] at hroom
      exact of_decide_eq_true hroom
    | succ n =>
      rw [result_ending (Nat.le_add_left 1 n)]
      trivial

theorem greeting_lives : greeting.Lives := by
  intro n hn
  rcases n with _ | _ | n
  · cases hn
  · cases hn
  · rw [after_left (n := 2) (c := _) rfl (by decide) (Nat.le_add_left 2 n)] at hn
    cases hn

theorem a_greeting_returns : greeting.Returns :=
  (returns_iff greeting greeting_proper).mpr ⟨by decide, greeting_lives⟩

theorem silent_proper (e : Ending) : (fresh [] e).Proper where
  inv := handle_inv (init_inv _)
  called := rfl
  fits := by
    intro n c d _ _
    rw [result_ending (Nat.zero_le n)]
    cases e <;> trivial

/-- The peer closes, the process has memory, and the call does not return. -/
theorem a_hang_up_spins : (fresh [] .eof).Proper ∧ ¬ (fresh [] .eof).Returns :=
  ⟨silent_proper .eof, not_returns_of_eof (silent_proper .eof) rfl⟩

end Feed

end GroupeChat.EchoServer
