/-
  GroupeChat.UdpChat.ChatLines — what the UDP chat client's output window shows
  (`Client::recvData` and the loop of `RunOutputOnline`).

  `recvData` leaves its string alone when `recvfrom` returns 0 or fails, and the loop reads
  that string again: the text of the round before is processed once more. The server makes
  such a datagram out of any that starts with a NUL, since what it relays is a C string.

  `ShownOnce`: the lines shown are those of the datagrams received that are neither empty
  nor a quit, in order, and a round that received nothing changed neither window. It holds
  all along exactly the runs in which nothing is received only after a quit
  (`shown_once_iff`). `a_nul_repeats_the_line` is a run that breaks it.
-/

import GroupeChat.UdpChat.OnlineList

namespace GroupeChat.UdpChat

open Base

inductive Recv where
  | datagram (bytes : List UInt8)
  | failed

/-- The text that `recvData` takes over, if any. -/
def Recv.text : Recv → Option Text
  | .datagram bytes => if 0 < bytes.length then some (recvBuffer bytes) else none
  | .failed => none

inductive ScreenEv where
  | recvfrom (r : Recv)
  /-- The server relays what it was sent. -/
  | relayed (datagram : List UInt8)

/-- An empty datagram is not relayed; what is sent is `strInfo`. -/
def ScreenEv.recv : ScreenEv → Option Recv
  | .recvfrom r => some r
  | .relayed datagram => if 0 < datagram.length then some (.datagram (recvBuffer datagram)) else none

def Info.line (d : Info) : Text := d.person.show_string ++ ascii ": " ++ d.message

structure Screen where
  out_string : Text
  online : List Text
  /-- The lines put into the output window. -/
  lines : List Text
  /-- The two windows before the latest round. -/
  wasOnline : List Text
  wasLines : List Text
  /-- What `recvfrom` has returned. -/
  history : List Recv

namespace Screen

variable (deSerialize : Text → Info)

def init : Screen := ⟨[], [], [], [], [], []⟩

def round (s : Screen) (r : Recv) : Screen :=
  let out_string := r.text.getD s.out_string
  let d := deSerialize out_string
  { out_string
    online := d.enter s.online
    lines := if d.token = quit then s.lines else s.lines ++ [d.line]
    wasOnline := s.online
    wasLines := s.lines
    history := s.history ++ [r] }

def step (s : Screen) (e : ScreenEv) : Option Screen := e.recv.map (s.round deSerialize)

/-- The line that what was received asks for. -/
def lineOf (r : Recv) : Option Text :=
  r.text.bind fun t => if (deSerialize t).token = quit then none else some (deSerialize t).line

/-- The lines are those asked for, and a round without a text changed nothing. -/
def ShownOnce (s : Screen) : Prop :=
  s.lines = s.history.filterMap (lineOf deSerialize) ∧
  ∀ r, s.history.getLast? = some r → r.text = none → s.lines = s.wasLines ∧ s.online = s.wasOnline

/-- The latest text received, none being the empty one. -/
def latest (history : List Recv) : Text := ((history.filterMap Recv.text).getLast?).getD []

def AfterQuit (s : Screen) (e : ScreenEv) : Prop :=
  ∀ r, e.recv = some r → r.text = none → (deSerialize (latest s.history)).token = quit

structure Inv (s : Screen) : Prop where
  shown : ShownOnce deSerialize s
  nodup : s.online.Nodup
  out_string : s.out_string = latest s.history
  /-- Who has just quit is not in the window. -/
  gone : (deSerialize s.out_string).token = quit → (deSerialize s.out_string).person.show_string ∉ s.online

variable {deSerialize}

/-! ## A round -/

theorem init_inv : Inv deSerialize init := by
  refine ⟨⟨rfl, fun r hr => ?_⟩, List.nodup_nil, rfl, fun _ => List.not_mem_nil⟩
  cases hr

theorem latest_snoc (history : List Recv) (r : Recv) : latest (history ++ [r]) = r.text.getD (latest history) := by
  unfold latest
  rw [List.filterMap_append]
  cases h : r.text with
  | none => simp [h]
  | some t => simp [h]

/-- A text: its line is shown and its sender's entry kept or taken out. -/
theorem round_text {s : Screen} {r : Recv} {t : Text} (hi : Inv deSerialize s) (ht : r.text = some t) :
    Inv deSerialize (s.round deSerialize r) := by
  have hout : (s.round deSerialize r).out_string = t := by simp [round, ht]
  refine ⟨⟨?_, ?_⟩, Info.enter_nodup _ hi.nodup, ?_, ?_⟩
  · simp only [round, ht, Option.getD_some, List.filterMap_append, List.filterMap_cons, List.filterMap_nil, lineOf,
      Option.bind_some]
    by_cases hq : (deSerialize t).token = quit
    · simp only [hq, if_true, List.append_nil]
      exact hi.shown.1
    · simp only [hq, if_false]
      exact congrArg (· ++ _) hi.shown.1
  · intro r' hr' hnone
    obtain rfl : r = r' := by simpa [round] using hr'
    rw [ht] at hnone
    cases hnone
  · rw [hout]
    simp only [round]
    rw [latest_snoc, ht]
    rfl
  · rw [hout]
    intro hq
    simp only [round, ht, Option.getD_some]
    exact Info.not_mem_enter_quit hi.nodup hq

/-- No text, after a quit: nothing happens. -/
theorem round_nothing {s : Screen} {r : Recv} (hi : Inv deSerialize s) (ht : r.text = none)
    (hq : (deSerialize (latest s.history)).token = quit) : Inv deSerialize (s.round deSerialize r) := by
  rw [← hi.out_string] at hq
  have honline : (s.round deSerialize r).online = s.online := by
    simp only [round, ht, Option.getD_none]
    exact Info.enter_quit_of_not_mem (hi.gone hq) hq
  have hlines : (s.round deSerialize r).lines = s.lines := by
    simp only [round, ht, Option.getD_none, hq, if_true]
  have hout : (s.round deSerialize r).out_string = s.out_string := by simp [round, ht]
  refine ⟨⟨?_, fun r' _ _ => ⟨hlines, honline⟩⟩, by rw [honline]; exact hi.nodup, ?_, ?_⟩
  · rw [hlines, hi.shown.1]
    simp [round, lineOf, ht]
  · rw [hout, hi.out_string]
    simp only [round]
    rw [latest_snoc, ht]
    rfl
  · rw [hout, honline]
    exact hi.gone

/-- No text otherwise: the line is shown again. -/
theorem quit_of_round {s : Screen} {r : Recv} (hi : Inv deSerialize s) (ht : r.text = none)
    (h : ShownOnce deSerialize (s.round deSerialize r)) : (deSerialize (latest s.history)).token = quit := by
  by_contra hq
  have hlines := (h.2 r (by simp [round]) ht).1
  rw [← hi.out_string] at hq
  simp [round, ht, hq] at hlines

theorem round_inv {s : Screen} {e : ScreenEv} {r : Recv} (hi : Inv deSerialize s) (hr : e.recv = some r)
    (hc : AfterQuit deSerialize s e) : Inv deSerialize (s.round deSerialize r) := by
  cases ht : r.text with
  | some t => exact round_text hi ht
  | none => exact round_nothing hi ht (hc r hr ht)

/-! ## Runs -/

/-- Whatever is received, each line is shown once all along exactly when nothing is received
    only after a quit. -/
theorem shown_once_iff (es : List ScreenEv) :
    Always (step deSerialize) (ShownOnce deSerialize) init es ↔
      Along (step deSerialize) (AfterQuit deSerialize) init es := by
  refine always_iff_along (I := Inv deSerialize) (fun s hi => hi.shown) (fun s e s' hi h => ?_) init_inv
  obtain ⟨r, hr, rfl⟩ := Option.map_eq_some_iff.mp h
  refine ⟨round_inv hi hr, fun hs r' hr' ht => ?_⟩
  obtain rfl := Option.some.inj (hr.symm.trans hr')
  exact quit_of_round hi ht hs

/-- The server relays "hi", and then a datagram of one NUL. -/
theorem a_nul_repeats_the_line : ¬ Always (step (readerOf [greeting])) (ShownOnce (readerOf [greeting])) init
    [.relayed greeting.json, .relayed [0]] := by
  intro h
  have hlines := ((h.2 _ rfl).2 _ rfl).1
  revert hlines
  decide +kernel

end Screen

end GroupeChat.UdpChat
