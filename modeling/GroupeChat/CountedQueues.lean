/-
  GroupeChat.CountedQueues — the lists that both programs hand their packets and users
  over in: the server's `CList`, which feeds the command thread in `PackList`, and
  `CUserList`, and the client's `SaveList`.

  Each list has an `int` beside it for its length, and every thread looks at that `int`
  before it pops. The constructors set up the mutexes and leave the counters alone, and
  the lists are made with `new`: a counter starts with what its memory held.

  The reported size is the length from counters of 0, for as long as the lists stay below
  the largest `int`, and not from any other (`sizes_are_lengths_iff`; `junk_counters` are
  two of them):
  - `queue_of_zero`: from 0 a list is the plain queue whose pop waits for an element.
  - `drained_pop`: from a counter above 0 the guard lets a pop of the drained list through.
  - `left_behind`: from one below 0 that many packets are never taken out.

  What the pointers in the lists are to is left open.
-/

import GroupeChat.ChatServer.PackList

namespace GroupeChat

open Base CountedList

variable {α β : Type}

/-! ## `CList` -/

namespace CList

theorem packQueue : QueueOf (α := α) package (fun _ => ()) packPush getPackSize packPop :=
  queueOf_set package (fun _ => ()) (fun _ q => ⟨q⟩) (fun _ _ => rfl) (fun _ _ => rfl)

abbrev step : Option (CList α) → Fifo.Op α → Option (Option (CList α)) := guarded packPush getPackSize packPop

abbrev SizeIsLength : Option (CList α) → Prop := Sound package getPackSize packPop

/-- A push finds fewer than 2^31 - 1 packets. -/
abbrev Room : Option (CList α) → Fifo.Op α → Prop := CountedList.Room package

end CList

/-! ## `CUserList` -/

structure CUserList (α β : Type) where
  /-- `m_count` and `m_user`. -/
  user : CountedList 32 α
  /-- `m_unLoginCount` and `m_unloginuser`. -/
  unloginuser : CountedList 32 β

namespace CUserList

def new (junk unLoginJunk : BitVec 32) : CUserList α β := ⟨.new junk, .new unLoginJunk⟩

def getSize (l : CUserList α β) : Int := l.user.size

def vcdPush (l : CUserList α β) (user : α) : CUserList α β := { l with user := l.user.push user }

def vcdPop (l : CUserList α β) : Option (α × CUserList α β) := l.user.pop.map fun (u, q) => (u, { l with user := q })

def getUnloginSize (l : CUserList α β) : Int := l.unloginuser.size

def unloginUserPush (l : CUserList α β) (user : β) : CUserList α β :=
  { l with unloginuser := l.unloginuser.push user }

def unloginUserPop (l : CUserList α β) : Option (β × CUserList α β) :=
  l.unloginuser.pop.map fun (u, q) => (u, { l with unloginuser := q })

theorem userQueue : QueueOf (α := α) (τ := CountedList 32 β) user unloginuser vcdPush getSize vcdPop :=
  queueOf_set user unloginuser (fun l q => { l with user := q }) (fun _ _ => rfl) (fun _ _ => rfl)

theorem unloginQueue :
    QueueOf (α := β) (τ := CountedList 32 α) unloginuser user unloginUserPush getUnloginSize unloginUserPop :=
  queueOf_set unloginuser user (fun l q => { l with unloginuser := q }) (fun _ _ => rfl) (fun _ _ => rfl)

/-- A push or a guarded pop of one of the two lists. -/
def step (l : Option (CUserList α β)) : Fifo.Op α ⊕ Fifo.Op β → Option (Option (CUserList α β))
  | .inl e => guarded vcdPush getSize vcdPop l e
  | .inr e => guarded unloginUserPush getUnloginSize unloginUserPop l e

structure SizesAreLengths (l : Option (CUserList α β)) : Prop where
  user : Sound user getSize vcdPop l
  unloginuser : Sound unloginuser getUnloginSize unloginUserPop l

def Room (l : Option (CUserList α β)) : Fifo.Op α ⊕ Fifo.Op β → Prop
  | .inl e => CountedList.Room user l e
  | .inr e => CountedList.Room unloginuser l e

theorem sizesAreLengths_iff (l : CUserList α β) :
    SizesAreLengths (some l) ↔ l.user.Agrees ∧ l.unloginuser.Agrees := by
  rw [← userQueue.sound_iff, ← unloginQueue.sound_iff]
  refine ⟨?_, ?_⟩
  · rintro ⟨hu, hn⟩
    exact ⟨hu, hn⟩
  · rintro ⟨hu, hn⟩
    exact ⟨hu, hn⟩

/-- A step moves one list and leaves the other as it was. -/
theorem step_sizesAreLengths {s s' : Option (CUserList α β)} {e : Fifo.Op α ⊕ Fifo.Op β} (hs : SizesAreLengths s)
    (h : step s e = some s') : SizesAreLengths s' ↔ Room s e := by
  obtain ⟨l, rfl, -⟩ := hs.user
  obtain ⟨hu, hn⟩ := (sizesAreLengths_iff l).mp hs
  rcases e with e | e
  · obtain ⟨t, rfl, hrest, hiff⟩ := userQueue.step hu h
    rw [sizesAreLengths_iff, hrest, hiff]
    exact and_iff_left hn
  · obtain ⟨t, rfl, hrest, hiff⟩ := unloginQueue.step hn h
    rw [sizesAreLengths_iff, hrest, hiff]
    exact and_iff_right hu

end CUserList

/-! ## `SaveList` -/

structure SaveList (α : Type) where
  /-- `m_packcount` and `m_package`. -/
  package : CountedList 32 α

namespace SaveList

def new (junk : BitVec 32) : SaveList α := ⟨.new junk⟩

def getPackSize (l : SaveList α) : Int := l.package.size

def packPush (l : SaveList α) (p : α) : SaveList α := ⟨l.package.push p⟩

def packPop (l : SaveList α) : Option (α × SaveList α) := l.package.pop.map fun (p, q) => (p, ⟨q⟩)

theorem saveQueue : QueueOf (α := α) package (fun _ => ()) packPush getPackSize packPop :=
  queueOf_set package (fun _ => ()) (fun _ q => ⟨q⟩) (fun _ _ => rfl) (fun _ _ => rfl)

abbrev step : Option (SaveList α) → Fifo.Op α → Option (Option (SaveList α)) :=
  guarded packPush getPackSize packPop

abbrev SizeIsLength : Option (SaveList α) → Prop := Sound package getPackSize packPop

abbrev Room : Option (SaveList α) → Fifo.Op α → Prop := CountedList.Room package

end SaveList

/-! ## Where the sizes are the lengths -/

/-- The reported sizes are the lengths all along exactly the runs that start on counters
    of 0 and never push onto a list of 2^31 - 1. -/
theorem sizes_are_lengths_iff :
    (∀ (junk : BitVec 32) (es : List (Fifo.Op α)),
      Always CList.step CList.SizeIsLength (some (.new junk)) es ↔
        junk = 0 ∧ Along CList.step CList.Room (some (.new junk)) es) ∧
    (∀ (junk unLoginJunk : BitVec 32) (es : List (Fifo.Op α ⊕ Fifo.Op β)),
      Always CUserList.step CUserList.SizesAreLengths (some (.new junk unLoginJunk)) es ↔
        (junk = 0 ∧ unLoginJunk = 0) ∧ Along CUserList.step CUserList.Room (some (.new junk unLoginJunk)) es) ∧
    (∀ (junk : BitVec 32) (es : List (Fifo.Op α)),
      Always SaveList.step SaveList.SizeIsLength (some (.new junk)) es ↔
        junk = 0 ∧ Along SaveList.step SaveList.Room (some (.new junk)) es) := by
  refine ⟨?_, ?_, ?_⟩
  · intro junk es
    rw [CList.packQueue.always_sound_iff]
    exact and_congr_left' (agrees_new junk)
  · intro junk unLoginJunk es
    rw [always_iff_and_along fun _ _ _ => CUserList.step_sizesAreLengths, CUserList.sizesAreLengths_iff]
    exact and_congr_left' (and_congr (agrees_new junk) (agrees_new unLoginJunk))
  · intro junk es
    rw [SaveList.saveQueue.always_sound_iff]
    exact and_congr_left' (agrees_new junk)

/-- Memory that held 1: the server pops its first packet from an empty list. Memory
    that held -1: the client does not see the first it has to write. -/
theorem junk_counters :
    ¬ Always CList.step CList.SizeIsLength (some (.new 1 : CList Nat)) [.pop] ∧
      run CList.step (some (.new 1 : CList Nat)) [.pop] = some none ∧
      ¬ Always SaveList.step SaveList.SizeIsLength (some (.new (-1) : SaveList Nat)) [.push 7] ∧
      run SaveList.step (some (.new (-1) : SaveList Nat)) [.push 7, .pop] = none := by
  refine ⟨?_, rfl, ?_, rfl⟩
  · intro h
    obtain ⟨l, hl, hr⟩ := h.head
    cases hl
    exact absurd hr.length (by decide)
  · intro h
    obtain ⟨l, hl, hr⟩ := h.head
    cases hl
    exact absurd hr.length (by decide)

/-! ## What the lists are then, and otherwise -/

/-- From 0 the runs are those of the plain queue of at most 2^31 - 1. -/
theorem queue_of_zero (es : List (Fifo.Op α)) (ps : List α) :
    ((∃ q, run (Fifo.bounded 2147483647) ⟨[], []⟩ es = some q ∧ q.held = ps) ↔
      Along CList.step CList.Room (some (.new 0)) es ∧
        ∃ l, run CList.step (some (.new 0)) es = some (some l) ∧ l.package.list = ps) ∧
    ((∃ q, run (Fifo.bounded 2147483647) ⟨[], []⟩ es = some q ∧ q.held = ps) ↔
      Along SaveList.step SaveList.Room (some (.new 0)) es ∧
        ∃ l, run SaveList.step (some (.new 0)) es = some (some l) ∧ l.package.list = ps) := by
  refine ⟨?_, ?_⟩
  · exact CList.packQueue.run_bounded ps ((agrees_new 0).mpr rfl) rfl
  · exact SaveList.saveQueue.run_bounded ps ((agrees_new 0).mpr rfl) rfl

/-- From above 0 the guard lets a pop of the drained list through. -/
theorem drained_pop :
    (∀ (junk : BitVec 32) (es : List (Fifo.Op α)) (l : CList α),
      run CList.step (some (.new junk)) es = some (some l) → 0 < junk.toInt → l.package.list = [] →
        CList.step (some l) .pop = some none) ∧
    (∀ (junk : BitVec 32) (es : List (Fifo.Op α)) (l : SaveList α),
      run SaveList.step (some (.new junk)) es = some (some l) → 0 < junk.toInt → l.package.list = [] →
        SaveList.step (some l) .pop = some none) := by
  refine ⟨?_, ?_⟩
  · intro junk es l hr hpos hnil
    exact CList.packQueue.pop_drained hr (by rwa [CList.new, base_new]) hnil
  · intro junk es l hr hpos hnil
    exact SaveList.saveQueue.pop_drained hr (by rwa [SaveList.new, base_new]) hnil

/-- From below 0 it lets none through to that many packets. -/
theorem left_behind :
    (∀ (junk : BitVec 32) (es : List (Fifo.Op α)) (l : CList α),
      run CList.step (some (.new junk)) es = some (some l) → junk.toInt + l.package.list.length ≤ 0 →
        CList.step (some l) .pop = none) ∧
    (∀ (junk : BitVec 32) (es : List (Fifo.Op α)) (l : SaveList α),
      run SaveList.step (some (.new junk)) es = some (some l) → junk.toInt + l.package.list.length ≤ 0 →
        SaveList.step (some l) .pop = none) := by
  refine ⟨?_, ?_⟩
  · intro junk es l hr hlen
    exact CList.packQueue.left_behind hr (by rwa [CList.new, base_new])
  · intro junk es l hr hlen
    exact SaveList.saveQueue.left_behind hr (by rwa [SaveList.new, base_new])

end GroupeChat
