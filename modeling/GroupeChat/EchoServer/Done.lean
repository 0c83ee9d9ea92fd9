/-
  GroupeChat.EchoServer.Done — when the echo server drops a connection (`done`, and the
  event loop of `main`).

  `main` handles an event of the connection and then asks `done`, which says yes after an
  error, or when an end of file was read and bytes are still held: the opposite of what
  is left to wait for.

  `read` is taken to return when it has seen the end of file (`Conn.readToEnd`); that it
  does not is the matter of `ReadLoop`.

  `Kept`: the connection is dropped exactly when an error occurred or an end of file was
  seen and all that was read has been written. It holds all along exactly the runs in
  which `done` is never asked after an end of file without an error
  (`kept_iff_no_end_of_file`). `the_tail_is_lost` is a run that drops it too early; one
  that never drops it stands below it.
-/

import GroupeChat.Base.Run
import GroupeChat.EchoServer

namespace GroupeChat.EchoServer

open Base

namespace Conn

/-- `::read`, and `read`'s return once the end of file has been seen. -/
def readToEnd (c : Conn) (r : Result) : Conn := if r.isEof then { c.read r with place := .writing } else c.read r

def done (c : Conn) : Bool := c.error || (c.readOfEnd && toSize ((c.tail : Int) - c.head) != 0)

end Conn

inductive Stage where
  /-- In `epoll_wait`. -/
  | waiting
  /-- From `handle` to `done`. -/
  | handling
  /-- Deleted. -/
  | removed
  deriving DecidableEq

structure Served where
  conn : Conn
  stage : Stage
  /-- A `::read` has returned 0. -/
  endSeen : Bool
  /-- A `::read` or a `::write` has failed. -/
  failed : Bool

namespace Served

inductive Ev where
  /-- An event of the connection. -/
  | epoll
  | room (realloc : Option (Mem UInt8))
  | read (r : Conn.Result)
  | write (r : Conn.Result)
  /-- `write`'s loop ends with nothing held. -/
  | written
  | done

def init (junk : Mem UInt8) : Served := ⟨.init junk, .waiting, false, false⟩

def step (s : Served) : Ev → Option Served
  | .epoll => if s.stage = .waiting then some { s with conn := s.conn.handle, stage := .handling } else none
  | .room realloc => (s.conn.step (.room realloc)).map fun c => { s with conn := c }
  | .read r =>
    if s.conn.place = .asking ∧ r.Fits s.conn.space then
      some { s with conn := s.conn.readToEnd r, endSeen := s.endSeen || r.isEof, failed := s.failed || r.isError }
    else none
  | .write r => (s.conn.step (.write r)).map fun c => { s with conn := c, failed := s.failed || r.isError }
  | .written => (s.conn.step .written).map fun c => { s with conn := c }
  | .done =>
    if s.stage = .handling ∧ s.conn.place = .out then
      some { s with stage := if s.conn.done then .removed else .waiting }
    else none

/-- An error occurred, or the end of file was seen and nothing is left to write. -/
def Finished (s : Served) : Prop := s.failed = true ∨ s.endSeen = true ∧ s.conn.head = s.conn.tail

/-- The connection is dropped when it is finished, and only then; without an error all of
    its input has been written back. -/
def Kept (s : Served) : Prop :=
  (s.stage = .waiting → ¬ s.Finished) ∧
  (s.stage = .removed → s.Finished ∧ (s.failed = false → s.conn.put = s.conn.got))

instance : DecidablePred Finished := fun s =>
  inferInstanceAs (Decidable (s.failed = true ∨ s.endSeen = true ∧ s.conn.head = s.conn.tail))

instance : DecidablePred Kept := fun s =>
  inferInstanceAs (Decidable ((s.stage = .waiting → ¬ s.Finished) ∧
    (s.stage = .removed → s.Finished ∧ (s.failed = false → s.conn.put = s.conn.got))))

def NoEnd (s : Served) : Ev → Prop
  | .done => s.endSeen = true → s.failed = true
  | _ => True

structure Inv (s : Served) : Prop where
  conn : s.conn.Inv
  endSeen : s.conn.readOfEnd = s.endSeen
  failed : s.conn.error = s.failed
  idle : s.stage ≠ .handling → s.conn.place = .out
  waiting : s.stage = .waiting → s.endSeen = false ∧ s.failed = false
  removed : s.stage = .removed → s.failed = true

theorem Inv.kept {s : Served} (hi : Inv s) : Kept s := by
  refine ⟨?_, ?_⟩
  · intro hs
    obtain ⟨hend, hfail⟩ := hi.waiting hs
    simp [Finished, hend, hfail]
  · intro hs
    have hfail := hi.removed hs
    refine ⟨Or.inl hfail, fun hok => ?_⟩
    rw [hfail] at hok
    cases hok

theorem init_inv (junk : Mem UInt8) : Inv (init junk) where
  conn := Conn.init_inv junk
  endSeen := rfl
  failed := rfl
  idle := fun _ => rfl
  waiting := fun _ => ⟨rfl, rfl⟩
  removed := fun h => by cases h

/-! ## What a call does to the flags -/

theorem room_flags {c c' : Conn} {realloc : Option (Mem UInt8)} (hi : c.Inv) (h : c.room realloc = some c') :
    c'.readOfEnd = c.readOfEnd ∧ c'.error = c.error := by
  rcases Conn.room_cases hi h with ⟨-, rfl⟩ | ⟨-, -, fresh, rfl⟩ | ⟨-, rfl⟩
  · exact ⟨rfl, rfl⟩
  · exact ⟨rfl, rfl⟩
  · exact ⟨rfl, rfl⟩

theorem readToEnd_flags {c : Conn} {r : Conn.Result} (hr : r.Fits c.space) :
    (c.readToEnd r).readOfEnd = (c.readOfEnd || r.isEof) ∧ (c.readToEnd r).error = (c.error || r.isError) := by
  unfold Conn.readToEnd
  split
  · exact Conn.read_flags hr
  · exact Conn.read_flags hr

theorem readToEnd_inv {c : Conn} {r : Conn.Result} (hi : c.Inv) (hp : c.place = .asking) (hr : r.Fits c.space) :
    (c.readToEnd r).Inv := by
  unfold Conn.readToEnd
  split
  · exact (Conn.read_inv hi hp hr).goTo (by decide)
  · exact Conn.read_inv hi hp hr

/-! ## A step -/

/-- A call changes the connection and its flags alike, and is made while the event is handled. -/
theorem Inv.call {s : Served} (hi : Inv s) {c : Conn} {e f : Bool} (hp : s.conn.place ≠ .out) (hc : c.Inv)
    (he : c.readOfEnd = e) (hf : c.error = f) : Inv ⟨c, s.stage, e, f⟩ := by
  have hs : s.stage = .handling := by
    by_contra hne
    exact hp (hi.idle hne)
  refine ⟨hc, he, hf, fun h => absurd hs h, fun h => ?_, fun h => ?_⟩
  · exact Stage.noConfusion (hs.symm.trans h)
  · exact Stage.noConfusion (hs.symm.trans h)

/-- What `done` says of a connection without an error. -/
theorem done_iff {s : Served} (hi : Inv s) (hf : s.failed = false) :
    s.conn.done = true ↔ s.endSeen = true ∧ s.conn.head ≠ s.conn.tail := by
  have horder := hi.conn.order
  unfold Conn.done
  rw [hi.failed, hf, hi.endSeen, Conn.toSize_sub horder (Nat.le_trans hi.conn.fits hi.conn.small)]
  simp only [Bool.false_or, Bool.and_eq_true, bne_iff_ne, ne_eq]
  refine ⟨?_, ?_⟩
  · intro h
    exact ⟨h.1, fun heq => h.2 (by omega)⟩
  · intro h
    exact ⟨h.1, fun heq => h.2 (by omega)⟩

/-- After an error the connection is dropped; without an end of file it is not. -/
theorem done_inv {s : Served} (hi : Inv s) (hp : s.conn.place = .out) (hc : NoEnd s .done) :
    Inv { s with stage := if s.conn.done then .removed else .waiting } := by
  by_cases hf : s.failed = true
  · have hd : s.conn.done = true := by
      unfold Conn.done
      rw [hi.failed, hf, Bool.true_or]
    rw [hd]
    exact { hi with idle := fun _ => hp, waiting := fun h => (by cases h), removed := fun _ => hf }
  · have hok : s.failed = false := by simpa using hf
    have hend : s.endSeen = false := by
      by_contra hne
      exact hf (hc (by simpa using hne))
    have hd : s.conn.done = false := by
      by_contra hne
      have := ((done_iff hi hok).mp (by simpa using hne)).1
      rw [hend] at this
      cases this
    rw [hd]
    exact { hi with idle := fun _ => hp, waiting := fun _ => ⟨hend, hok⟩, removed := fun h => (by cases h) }

/-- After an end of file `done` says the opposite of what it should. -/
theorem noEnd_of_kept {s : Served} (hi : Inv s)
    (h : Kept { s with stage := if s.conn.done then .removed else .waiting }) : NoEnd s .done := by
  intro hend
  by_contra hne
  have hf : s.failed = false := by simpa using hne
  by_cases hd : s.conn.done = true
  · rw [hd] at h
    rcases (h.2 rfl).1 with hfail | ⟨-, heq⟩
    · exact hne hfail
    · exact ((done_iff hi hf).mp hd).2 heq
  · have heq : s.conn.head = s.conn.tail := by
      by_contra hne
      exact hd ((done_iff hi hf).mpr ⟨hend, hne⟩)
    rw [Bool.not_eq_true] at hd
    rw [hd] at h
    exact h.1 rfl (Or.inr ⟨hend, heq⟩)

theorem step_inv {s s' : Served} {e : Ev} (hi : Inv s) (hc : NoEnd s e) (h : step s e = some s') : Inv s' := by
  cases e with
  | epoll =>
    simp only [step] at h
    split at h
    · rename_i hs
      obtain rfl := Option.some.inj h
      have hhandle : s.conn.handle.readOfEnd = s.conn.readOfEnd ∧ s.conn.handle.error = s.conn.error := by
        unfold Conn.handle
        split <;> exact ⟨rfl, rfl⟩
      refine ⟨Conn.handle_inv hi.conn, hhandle.1.trans hi.endSeen, hhandle.2.trans hi.failed, ?_, ?_, ?_⟩
      · exact fun h => absurd rfl h
      · exact fun h => by cases h
      · exact fun h => by cases h
    · cases h
  | room realloc =>
    obtain ⟨c, hstep, rfl⟩ := Option.map_eq_some_iff.mp h
    have hinv := Conn.step_inv _ _ _ hi.conn hstep
    simp only [Conn.step] at hstep
    split at hstep
    · rename_i hp
      obtain ⟨hend, herr⟩ := room_flags hi.conn hstep
      exact hi.call (by rw [hp]; decide) hinv (hend.trans hi.endSeen) (herr.trans hi.failed)
    · cases hstep
  | read r =>
    simp only [step] at h
    split at h
    · rename_i hg
      obtain rfl := Option.some.inj h
      obtain ⟨hend, herr⟩ := readToEnd_flags hg.2
      rw [hi.endSeen] at hend
      rw [hi.failed] at herr
      exact hi.call (by rw [hg.1]; decide) (readToEnd_inv hi.conn hg.1 hg.2) hend herr
    · cases h
  | write r =>
    obtain ⟨c, hstep, rfl⟩ := Option.map_eq_some_iff.mp h
    have hinv := Conn.step_inv _ _ _ hi.conn hstep
    simp only [Conn.step] at hstep
    split at hstep
    · rename_i hg
      obtain rfl := Option.some.inj hstep
      obtain ⟨hend, herr⟩ := Conn.write_flags hg.2.2.1
      rw [hi.failed] at herr
      exact hi.call (by rw [hg.1]; decide) hinv (hend.trans hi.endSeen) herr
    · cases hstep
  | written =>
    obtain ⟨c, hstep, rfl⟩ := Option.map_eq_some_iff.mp h
    have hinv := Conn.step_inv _ _ _ hi.conn hstep
    simp only [Conn.step] at hstep
    split at hstep
    · rename_i hg
      obtain rfl := Option.some.inj hstep
      exact hi.call (by rw [hg.1]; decide) hinv hi.endSeen hi.failed
    · cases hstep
  | done =>
    simp only [step] at h
    split at h
    · rename_i hg
      obtain rfl := Option.some.inj h
      exact done_inv hi hg.2 hc
    · cases h

theorem noEnd_of_step {s s' : Served} {e : Ev} (hi : Inv s) (h : step s e = some s') (hk : Kept s') : NoEnd s e := by
  cases e with
  | done =>
    simp only [step] at h
    split at h
    · obtain rfl := Option.some.inj h
      exact noEnd_of_kept hi hk
    · cases h
  | _ => trivial

/-! ## Runs -/

/-- Whatever the calls return, the connection is dropped when it is finished and only then
    exactly when `done` is never asked after an end of file without an error. -/
theorem kept_iff_no_end_of_file (junk : Mem UInt8) (es : List Ev) :
    Always step Kept (init junk) es ↔ Along step NoEnd (init junk) es :=
  always_iff_along (fun _ hi => hi.kept) (fun _ _ _ hi h => ⟨fun hc => step_inv hi hc h, noEnd_of_step hi h⟩)
    (init_inv junk)

/-- The peer sends "hi" and closes, and `::write` would block: the connection is dropped
    with the two bytes in it. -/
theorem the_tail_is_lost : ¬ Always step Kept (init fun _ => 0)
    [.epoll, .room (some fun _ => 0), .read (.count [104, 105]), .room (some fun _ => 0),
      .read .eof, .write .again, .done] := by
  decide +kernel

/-- The peer closes at once: nothing is held, and the connection stays. -/
example : ¬ Always step Kept (init fun _ => 0) [.epoll, .room (some fun _ => 0), .read .eof, .written, .done] := by
  decide +kernel

end Served

end GroupeChat.EchoServer
