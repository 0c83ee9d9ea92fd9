/-
  GroupeChat.Logging.AsyncLogging — the log's writer thread and the callers of `append`.

  Callers put lines into `currentBuffer_` under the lock; a full one goes to `buffers_` and
  `nextBuffer_` takes its place, or a new one. The thread sleeps while `buffers_` is empty
  (a few seconds at most), takes all of them with the current one in exchange for its two
  spare buffers, writes them outside the lock and keeps two of them as spares. More than
  25 of them are cut to the first two. It looks at `running_` between rounds only and
  leaves without another one.

  `step` interleaves the callers with the statements of the thread. `log_in_order` says what
  is in the file and where the other lines are after any run, and that the pointers that
  are moved about are never null when they are used.
-/

import GroupeChat.Logging.LogFile
import GroupeChat.Logging.LogStream

namespace GroupeChat.Logging

open Base

abbrev Line : Type := List UInt8
abbrev Buffer : Type := FixedBuffer kLargeBuffer

inductive Place where
  /-- At `while (running_)`. -/
  | top
  /-- Past the first three asserts, at the lock. -/
  | entered
  /-- In `waitForSeconds`. -/
  | asleep
  /-- The buffers swapped and the lock given back. -/
  | swapped
  /-- At buffer `i` of `buffersToWrite`. -/
  | writing (i : Nat)
  | ended
  deriving DecidableEq

structure AsyncLogging where
  running_ : Bool
  currentBuffer_ : Option Buffer
  nextBuffer_ : Option Buffer
  buffers_ : List Buffer
  place : Place
  newBuffer1 : Option Buffer
  newBuffer2 : Option Buffer
  buffersToWrite : List Buffer
  output : LogFile
  /-- A failed assert, a null pointer used, or a buffer run over. -/
  fault : Bool
  /-- The lines that `append` was called with. -/
  appended : List Line
  /-- How many of them before the last swap. -/
  taken : Nat
  /-- How many times the buffers were cut to two. -/
  erased : Nat

namespace AsyncLogging

def start : AsyncLogging where
  running_ := true
  currentBuffer_ := some .empty
  nextBuffer_ := some .empty
  buffers_ := []
  place := .top
  newBuffer1 := some .empty
  newBuffer2 := some .empty
  buffersToWrite := []
  output := .init
  fault := false
  appended := []
  taken := 0
  erased := 0

def append (s : AsyncLogging) (logline : Line) : AsyncLogging :=
  match s.currentBuffer_ with
  | none => { s with fault := true }
  | some current =>
    if logline.length < current.avail then
      match current.append logline with
      | some current => { s with currentBuffer_ := some current, appended := s.appended ++ [logline] }
      | none => { s with fault := true }
    else
      let fresh := s.nextBuffer_.getD .empty
      match fresh.append logline with
      | some fresh => { s with
          buffers_ := s.buffers_ ++ [current]
          currentBuffer_ := some fresh
          nextBuffer_ := none
          appended := s.appended ++ [logline] }
      | none => { s with fault := true }

/-- The rest of the critical section, awake. -/
def swap (s : AsyncLogging) : AsyncLogging :=
  match s.currentBuffer_ with
  | none => { s with fault := true }
  | some current => { s with
      buffersToWrite := s.buffers_ ++ [current]
      buffers_ := s.buffersToWrite
      currentBuffer_ := s.newBuffer1
      newBuffer1 := none
      nextBuffer_ := if s.nextBuffer_.isNone then s.newBuffer2 else s.nextBuffer_
      newBuffer2 := if s.nextBuffer_.isNone then none else s.newBuffer2
      place := .swapped
      taken := s.appended.length }

/-- A spare buffer, taken from the end of `l` if there is none; `none` if `l` is empty then. -/
def spare (newBuffer : Option Buffer) (l : List Buffer) : Option (Buffer × List Buffer) :=
  match newBuffer with
  | some b => some (b, l)
  | none => l.getLast?.map fun b => (b.reset, l.dropLast)

/-- After the writes: two spares again, and a flush. -/
def recycle (s : AsyncLogging) : AsyncLogging :=
  let toWrite := if 2 < s.buffersToWrite.length then s.buffersToWrite.take 2 else s.buffersToWrite
  match spare s.newBuffer1 toWrite with
  | none => { s with fault := true }
  | some (newBuffer1, toWrite) =>
    match spare s.newBuffer2 toWrite with
    | none => { s with fault := true }
    | some (newBuffer2, _) => { s with
        newBuffer1 := some newBuffer1
        newBuffer2 := some newBuffer2
        buffersToWrite := []
        output := s.output.flush
        place := .top }

def isSpare (b : Option Buffer) : Bool := b.any fun b => b.data.isEmpty

/-- The next statement of the thread; `takes` is what the stream takes of a buffer written. -/
def threadFunc (s : AsyncLogging) (takes : Nat → Nat) : Option AsyncLogging :=
  match s.place with
  | .top =>
    if s.running_ then
      if isSpare s.newBuffer1 && isSpare s.newBuffer2 && s.buffersToWrite.isEmpty then some { s with place := .entered }
      else some { s with fault := true }
    else some { s with output := s.output.flush, place := .ended }
  | .entered => if s.buffers_.isEmpty then some { s with place := .asleep } else some s.swap
  | .asleep => some s.swap
  | .swapped =>
    if s.buffersToWrite.isEmpty then some { s with fault := true }
    else if 25 < s.buffersToWrite.length then
      some { s with buffersToWrite := s.buffersToWrite.take 2, place := .writing 0, erased := s.erased + 1 }
    else some { s with place := .writing 0 }
  | .writing i =>
    match s.buffersToWrite[i]? with
    | some b => some { s with output := s.output.append b.data takes, place := .writing (i + 1) }
    | none => some s.recycle
  | .ended => none

inductive Ev where
  /-- `append`, with an `int` for a length. -/
  | append (logline : Line)
  | stop
  | thread (takes : Nat → Nat)

def step (s : AsyncLogging) (e : Ev) : Option AsyncLogging :=
  if s.fault then none
  else
    match e with
    | .append logline => if logline.length < 2147483648 then some (s.append logline) else none
    | .stop => if s.running_ then some { s with running_ := false } else none
    | .thread takes => s.threadFunc takes

/-! ## What a step does -/

/-- The line fits into an empty buffer; one that does not is dropped by it. -/
def fits (logline : Line) : Bool := decide (logline.length < kLargeBuffer)

theorem fresh_append {logline : Line} (hint : logline.length < 2147483648) :
    ∃ b, (FixedBuffer.empty : Buffer).append logline = some b ∧ b.data = if fits logline then logline else [] := by
  by_cases hl : logline.length < kLargeBuffer
  · refine ⟨_, FixedBuffer.append_of_room hint (by simpa [FixedBuffer.empty] using hl), ?_⟩
    simp [fits, hl, FixedBuffer.empty]
  · refine ⟨_, FixedBuffer.append_of_full hint (by simp only [FixedBuffer.empty, List.length_nil]; omega), ?_⟩
    simp [fits, hl, FixedBuffer.empty]

/-- A line goes to the end of the current buffer, or into a new one behind it. -/
theorem append_cases {s : AsyncLogging} {logline : Line} {current : Buffer} (hint : logline.length < 2147483648)
    (hcur : s.currentBuffer_ = some current) (hnext : ∀ b, s.nextBuffer_ = some b → b = .empty) :
    (∃ b : Buffer, b.data = current.data ++ logline ∧ fits logline = true ∧
      s.append logline = { s with currentBuffer_ := some b, appended := s.appended ++ [logline] }) ∨
    (∃ b : Buffer, b.data = (if fits logline then logline else []) ∧
      s.append logline = { s with
        buffers_ := s.buffers_ ++ [current]
        currentBuffer_ := some b
        nextBuffer_ := none
        appended := s.appended ++ [logline] }) := by
  unfold append
  rw [hcur]
  dsimp only
  by_cases hroom : (logline.length : Int) < current.avail
  · left
    have hlt : current.data.length + logline.length < kLargeBuffer := by
      unfold FixedBuffer.avail at hroom
      omega
    have happ := FixedBuffer.append_of_room hint hlt
    refine ⟨⟨current.data ++ logline, by rw [List.length_append]; omega⟩, rfl, ?_, ?_⟩
    · simp only [fits, decide_eq_true_eq]
      omega
    · rw [if_pos hroom, happ]
  · right
    have hempty : s.nextBuffer_.getD .empty = .empty := by
      cases hn : s.nextBuffer_ with
      | none => rfl
      | some b => exact hnext b hn
    obtain ⟨b, hb, hdata⟩ := fresh_append hint
    refine ⟨b, hdata, ?_⟩
    rw [if_neg hroom, hempty, hb]

theorem swap_of_some {s : AsyncLogging} {current : Buffer} (hcur : s.currentBuffer_ = some current) :
    s.swap = { s with
      buffersToWrite := s.buffers_ ++ [current]
      buffers_ := s.buffersToWrite
      currentBuffer_ := s.newBuffer1
      newBuffer1 := none
      nextBuffer_ := if s.nextBuffer_.isNone then s.newBuffer2 else s.nextBuffer_
      newBuffer2 := if s.nextBuffer_.isNone then none else s.newBuffer2
      place := .swapped
      taken := s.appended.length } := by
  simp only [swap, hcur]

/-! ## The buffers -/

def Stocked (s : AsyncLogging) : Prop :=
  s.newBuffer1 = some .empty ∧ s.newBuffer2 = some .empty ∧ s.buffersToWrite = []

def Given (s : AsyncLogging) : Prop :=
  s.newBuffer1 = none ∧ s.buffersToWrite ≠ [] ∧
    (s.newBuffer2 = some .empty ∨ s.newBuffer2 = none ∧ 2 ≤ s.buffersToWrite.length)

/-- What the place of the thread says about its buffers. -/
def AtPlace (s : AsyncLogging) : Prop :=
  match s.place with
  | .swapped => Given s
  | .writing _ => Given s
  | _ => Stocked s

structure Buffers (s : AsyncLogging) : Prop where
  fault : s.fault = false
  current : ∃ b, s.currentBuffer_ = some b
  next : ∀ b, s.nextBuffer_ = some b → b = .empty
  /-- `nextBuffer_` went to the callers only when they filled one. -/
  used : s.nextBuffer_ = none → s.buffers_ ≠ []
  place : AtPlace s

theorem start_buffers : Buffers start where
  fault := rfl
  current := ⟨_, rfl⟩
  next b h := by
    cases h
    rfl
  used h := by cases h
  place := ⟨rfl, rfl, rfl⟩

theorem Buffers.append {s : AsyncLogging} (h : Buffers s) {logline : Line} (hint : logline.length < 2147483648) :
    Buffers (s.append logline) := by
  obtain ⟨current, hcur⟩ := h.current
  rcases append_cases hint hcur h.next with ⟨b, -, -, heq⟩ | ⟨b, -, heq⟩
  · rw [heq]
    exact ⟨h.fault, ⟨b, rfl⟩, h.next, h.used, h.place⟩
  · rw [heq]
    refine ⟨h.fault, ⟨b, rfl⟩, ?_, ?_, h.place⟩
    · intro _ hn
      cases hn
    · intro _
      simp

/-- In exchange for its spares the thread has one buffer to write at least, and two if both went. -/
theorem Buffers.swap {s : AsyncLogging} (h : Buffers s) (hst : Stocked s) : Buffers s.swap := by
  obtain ⟨current, hcur⟩ := h.current
  obtain ⟨h1, h2, hw⟩ := hst
  rw [swap_of_some hcur]
  cases hn : s.nextBuffer_ with
  | none =>
    refine ⟨h.fault, ⟨.empty, h1⟩, ?_, ?_, ?_⟩
    · intro b hb
      simp only [Option.isNone_none, if_true, h2] at hb
      exact (Option.some.inj hb).symm
    · intro hnone
      simp [h2] at hnone
    · have hlen : 0 < s.buffers_.length := List.length_pos_iff.mpr (h.used hn)
      refine ⟨rfl, by simp, Or.inr ⟨by simp, ?_⟩⟩
      simp only [List.length_append, List.length_singleton]
      omega
  | some b =>
    refine ⟨h.fault, ⟨.empty, h1⟩, ?_, ?_, ?_⟩
    · intro b' hb
      simp only [Option.isNone_some, Bool.false_eq_true, if_false] at hb
      obtain rfl := Option.some.inj hb
      exact h.next b hn
    · intro hnone
      simp at hnone
    · exact ⟨rfl, by simp, Or.inl (by simp [h2])⟩

theorem spare_getLast {l : List Buffer} (h : l ≠ []) : spare none l = some (.empty, l.dropLast) := by
  simp [spare, List.getLast?_eq_getLast_of_ne_nil h, FixedBuffer.reset]

/-- There are buffers to make the missing spares of. -/
theorem recycle_of_given {s : AsyncLogging} (hg : Given s) :
    s.recycle = { s with
      newBuffer1 := some .empty
      newBuffer2 := some .empty
      buffersToWrite := []
      output := s.output.flush
      place := .top } := by
  obtain ⟨h1, hne, h2⟩ := hg
  generalize hw : (if 2 < s.buffersToWrite.length then s.buffersToWrite.take 2 else s.buffersToWrite) = toWrite
  have hpos : 0 < s.buffersToWrite.length := List.length_pos_iff.mpr hne
  have hlen : toWrite.length = min 2 s.buffersToWrite.length := by
    rw [← hw]
    split
    · rw [List.length_take]
    · omega
  have hne' : toWrite ≠ [] := by
    apply List.ne_nil_of_length_pos
    omega
  unfold AsyncLogging.recycle
  dsimp only
  rw [hw, h1, spare_getLast hne']
  rcases h2 with h2 | ⟨h2, htwo⟩
  · rw [h2]
    rfl
  · have hlast : toWrite.dropLast ≠ [] := by
      apply List.ne_nil_of_length_pos
      rw [List.length_dropLast]
      omega
    dsimp only
    rw [h2, spare_getLast hlast]

/-- What the thread's next statement does, in a state that keeps its buffers. -/
theorem thread_cases {s s' : AsyncLogging} {takes : Nat → Nat} (h : Buffers s) (hs : s.threadFunc takes = some s') :
    (s.place = .top ∧ s.running_ = true ∧ s' = { s with place := .entered }) ∨
    (s.place = .top ∧ s.running_ = false ∧ s' = { s with output := s.output.flush, place := .ended }) ∨
    (s.place = .entered ∧ s.buffers_ = [] ∧ s' = { s with place := .asleep }) ∨
    ((s.place = .entered ∨ s.place = .asleep) ∧ s' = s.swap) ∨
    (s.place = .swapped ∧ 25 < s.buffersToWrite.length ∧
      s' = { s with buffersToWrite := s.buffersToWrite.take 2, place := .writing 0, erased := s.erased + 1 }) ∨
    (s.place = .swapped ∧ s.buffersToWrite.length ≤ 25 ∧ s' = { s with place := .writing 0 }) ∨
    (∃ i b, s.place = .writing i ∧ s.buffersToWrite[i]? = some b ∧
      s' = { s with output := s.output.append b.data takes, place := .writing (i + 1) }) ∨
    (∃ i, s.place = .writing i ∧ s.buffersToWrite.length ≤ i ∧ s' = { s with
      newBuffer1 := some .empty
      newBuffer2 := some .empty
      buffersToWrite := []
      output := s.output.flush
      place := .top }) := by
  have hplace := h.place
  unfold threadFunc at hs
  cases hp : s.place with
  | top =>
    simp only [AtPlace, hp] at hplace
    obtain ⟨h1, h2, hw⟩ := hplace
    have hstocked : (isSpare s.newBuffer1 && isSpare s.newBuffer2 && s.buffersToWrite.isEmpty) = true := by
      rw [h1, h2, hw]
      rfl
    simp only [hp, hstocked, if_true] at hs
    split at hs
    · rename_i hr
      exact Or.inl ⟨rfl, hr, (Option.some.inj hs).symm⟩
    · rename_i hr
      exact Or.inr (Or.inl ⟨rfl, by simpa using hr, (Option.some.inj hs).symm⟩)
  | entered =>
    simp only [hp] at hs
    split at hs
    · rename_i hb
      exact Or.inr (Or.inr (Or.inl ⟨rfl, by simpa using hb, (Option.some.inj hs).symm⟩))
    · exact Or.inr (Or.inr (Or.inr (Or.inl ⟨Or.inl rfl, (Option.some.inj hs).symm⟩)))
  | asleep =>
    simp only [hp] at hs
    exact Or.inr (Or.inr (Or.inr (Or.inl ⟨Or.inr rfl, (Option.some.inj hs).symm⟩)))
  | swapped =>
    simp only [AtPlace, hp] at hplace
    obtain ⟨-, hne, -⟩ := hplace
    have hempty : s.buffersToWrite.isEmpty = false := by simpa using hne
    simp only [hp, hempty, Bool.false_eq_true, if_false] at hs
    split at hs
    · rename_i hlt
      exact Or.inr (Or.inr (Or.inr (Or.inr (Or.inl ⟨rfl, hlt, (Option.some.inj hs).symm⟩))))
    · rename_i hlt
      exact Or.inr (Or.inr (Or.inr (Or.inr (Or.inr (Or.inl ⟨rfl, by omega, (Option.some.inj hs).symm⟩)))))
  | writing i =>
    simp only [AtPlace, hp] at hplace
    simp only [hp] at hs
    split at hs
    · rename_i b hb
      refine Or.inr (Or.inr (Or.inr (Or.inr (Or.inr (Or.inr (Or.inl ?_))))))
      exact ⟨i, b, rfl, hb, (Option.some.inj hs).symm⟩
    · rename_i hnone
      refine Or.inr (Or.inr (Or.inr (Or.inr (Or.inr (Or.inr (Or.inr ?_))))))
      refine ⟨i, rfl, List.getElem?_eq_none_iff.mp hnone, ?_⟩
      rw [← recycle_of_given hplace]
      exact (Option.some.inj hs).symm
  | ended =>
    simp only [hp] at hs
    cases hs

theorem thread_buffers {s s' : AsyncLogging} {takes : Nat → Nat} (h : Buffers s) (hs : s.threadFunc takes = some s') :
    Buffers s' := by
  have hplace := h.place
  rcases thread_cases h hs with ⟨hp, -, rfl⟩ | ⟨hp, -, rfl⟩ | ⟨hp, -, rfl⟩ | ⟨hp, rfl⟩ | ⟨hp, hlt, rfl⟩ | ⟨hp, -, rfl⟩ |
    ⟨i, b, hp, -, rfl⟩ | ⟨i, hp, -, rfl⟩
  · simp only [AtPlace, hp] at hplace
    exact ⟨h.fault, h.current, h.next, h.used, hplace⟩
  · simp only [AtPlace, hp] at hplace
    exact ⟨h.fault, h.current, h.next, h.used, hplace⟩
  · simp only [AtPlace, hp] at hplace
    exact ⟨h.fault, h.current, h.next, h.used, hplace⟩
  · refine h.swap ?_
    rcases hp with hp | hp
    · simpa only [AtPlace, hp] using hplace
    · simpa only [AtPlace, hp] using hplace
  · simp only [AtPlace, hp] at hplace
    obtain ⟨h1, -, h2⟩ := hplace
    have hlen : (s.buffersToWrite.take 2).length = 2 := by
      rw [List.length_take]
      omega
    refine ⟨h.fault, h.current, h.next, h.used, h1, ?_, ?_⟩
    · exact List.ne_nil_of_length_pos (by rw [hlen]; decide)
    · rcases h2 with h2 | ⟨h2, -⟩
      · exact Or.inl h2
      · exact Or.inr ⟨h2, Nat.le_of_eq hlen.symm⟩
  · simp only [AtPlace, hp] at hplace
    exact ⟨h.fault, h.current, h.next, h.used, hplace⟩
  · simp only [AtPlace, hp] at hplace
    exact ⟨h.fault, h.current, h.next, h.used, hplace⟩
  · exact ⟨h.fault, h.current, h.next, h.used, rfl, rfl, rfl⟩

theorem step_buffers {s s' : AsyncLogging} {e : Ev} (h : Buffers s) (hs : s.step e = some s') : Buffers s' := by
  unfold step at hs
  rw [if_neg (by simp [h.fault])] at hs
  cases e with
  | append logline =>
    dsimp only at hs
    split at hs
    · rename_i hint
      obtain rfl := Option.some.inj hs
      exact h.append hint
    · cases hs
  | stop =>
    dsimp only at hs
    split at hs
    · obtain rfl := Option.some.inj hs
      exact ⟨h.fault, h.current, h.next, h.used, h.place⟩
    · cases hs
  | thread takes => exact thread_buffers h hs

end AsyncLogging

end GroupeChat.Logging
