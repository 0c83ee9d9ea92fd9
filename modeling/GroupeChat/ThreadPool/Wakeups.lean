/-
  GroupeChat.ThreadPool.Wakeups — no task waits for a worker that sleeps.

  `threadpool_add` signals once for each task and a worker that finds the queue empty goes
  to sleep, so what keeps a task from being overlooked is a count: while any worker sleeps,
  at least as many are on their way to the queue as there are tasks in it (`Sleep.enough`).
  Spurious wakeups and signals that reach nobody only add to that. `no_lost_wakeup` says
  what follows: with a task in the queue, some worker's next step takes it, or every worker
  is running one.
-/

import GroupeChat.ThreadPool.Fifo

namespace GroupeChat.ThreadPool.Pool

open Base

variable {F A : Type}

structure Sleep (p : Pool F A) : Prop where
  enough : p.waiting = 0 ∨ p.count ≤ p.ready
  /-- `threadpool_destroy` wakes every worker, and none waits any more. -/
  down : p.shutdown ≠ .no → p.waiting = 0
  left : p.exited ≠ 0 → p.shutdown = .immediate_shutdown ∨ p.shutdown = .graceful_shutdown ∧ p.count = 0

/-- A task in the queue is taken next, or every worker is at one. -/
structure Prompt (p : Pool F A) : Prop where
  enough : p.waiting = 0 ∨ p.count ≤ p.ready
  next : p.Lockable → p.count ≠ 0 → p.shutdown ≠ .immediate_shutdown →
    (∃ i p', p.step (.worker i) = some p' ∧ p'.taken.length = p.taken.length + 1) ∨
      ∀ w ∈ p.threads, ∃ task, w = .running task

/-! ## Counting the workers -/

section Moved

variable {p : Pool F A} {i : Nat} {w : Worker F A}

theorem ready_moved (h : p.threads[i]? = some w) (w' : Worker F A) :
    (p.moved i w').ready + (if w.isReady then 1 else 0) = p.ready + (if w'.isReady then 1 else 0) :=
  Cells.countP_set_add Worker.isReady h w'

theorem waiting_moved (h : p.threads[i]? = some w) (w' : Worker F A) :
    (p.moved i w').waiting + (if w.isWaiting then 1 else 0) = p.waiting + (if w'.isWaiting then 1 else 0) :=
  Cells.countP_set_add Worker.isWaiting h w'

theorem exited_moved (h : p.threads[i]? = some w) (w' : Worker F A) :
    (p.moved i w').exited + (if w.isExited then 1 else 0) = p.exited + (if w'.isExited then 1 else 0) :=
  Cells.countP_set_add Worker.isExited h w'

end Moved

theorem isWaiting_wake (w : Worker F A) : w.wake.isWaiting = false := by
  cases w with
  | ready => rfl
  | waiting => rfl
  | running task => rfl
  | exited => rfl

theorem isExited_wake (w : Worker F A) : w.wake.isExited = w.isExited := by
  cases w with
  | ready => rfl
  | waiting => rfl
  | running task => rfl
  | exited => rfl

theorem countP_wake (l : List (Worker F A)) : (l.map Worker.wake).countP Worker.isWaiting = 0 := by
  simp [List.countP_eq_zero, isWaiting_wake]

theorem exited_wake (l : List (Worker F A)) :
    (l.map Worker.wake).countP Worker.isExited = l.countP Worker.isExited := by
  rw [List.countP_map]
  congr 1
  funext w
  exact isExited_wake w

/-! ## The invariant -/

theorem start_sleep (n size : Nat) : Sleep (start n size : Pool F A) where
  enough := Or.inr (Nat.zero_le _)
  down h := absurd rfl h
  left h := by simp [exited, start, Worker.isExited] at h

theorem Sleep.wait {p : Pool F A} (h : Sleep p) {i : Nat} (hi : p.threads[i]? = some .ready) (hcount : p.count = 0)
    (hs : p.shutdown = .no) : Sleep (p.moved i .waiting) := by
  have hexited := exited_moved hi .waiting
  refine ⟨Or.inr ?_, fun hne => absurd hs hne, ?_⟩
  · show p.count ≤ _
    omega
  · intro hne
    simp only [Worker.isExited, Bool.false_eq_true, if_false, Nat.add_zero] at hexited
    rw [hexited] at hne
    exact h.left hne

theorem Sleep.exit {p : Pool F A} (h : Sleep p) {i : Nat} (hi : p.threads[i]? = some .ready)
    (hx : p.shutdown = .immediate_shutdown ∨ p.shutdown = .graceful_shutdown ∧ p.count = 0) (k : Int) :
    Sleep { p.moved i .exited with started := k } := by
  have hwaiting := waiting_moved hi .exited
  have hdown : p.waiting = 0 := by
    apply h.down
    rcases hx with hx | ⟨hx, -⟩
    · simp [hx]
    · simp [hx]
  have hzero : (p.moved i .exited).waiting = 0 := by
    simpa [Worker.isWaiting, hdown] using hwaiting
  exact ⟨Or.inl hzero, fun _ => hzero, fun _ => hx⟩

/-- A worker that takes a task is one worker and one task less. -/
theorem Sleep.dequeued {p : Pool F A} (h : Sleep p) {i : Nat} (hi : p.threads[i]? = some .ready)
    (hcount : p.count ≠ 0) (hs : p.shutdown ≠ .immediate_shutdown) (task : Task F A) :
    Sleep (p.dequeued i task) := by
  have hready : (p.dequeued i task).ready + 1 = p.ready := ready_moved hi (.running task)
  have hwaiting : (p.dequeued i task).waiting = p.waiting := waiting_moved hi (.running task)
  have hexited : (p.dequeued i task).exited = p.exited := exited_moved hi (.running task)
  refine ⟨?_, ?_, ?_⟩
  · rcases h.enough with h0 | hle
    · exact Or.inl (by rw [hwaiting, h0])
    · refine Or.inr ?_
      show p.count - 1 ≤ _
      omega
  · intro hne
    rw [hwaiting]
    exact h.down hne
  · intro hne
    rw [hexited] at hne
    rcases h.left hne with hx | ⟨-, h0⟩
    · exact absurd hx hs
    · exact absurd h0 hcount

/-- A worker more on its way to the queue. -/
theorem Sleep.readied {p : Pool F A} (h : Sleep p) {i : Nat} {w : Worker F A} (hi : p.threads[i]? = some w)
    (hr : w.isReady = false) (hx : w.isExited = false) (fin : List (Task F A)) :
    Sleep { p.moved i .ready with finished := fin } := by
  have hready : (p.moved i .ready).ready = p.ready + 1 := by
    have hmoved := ready_moved hi .ready
    rw [hr] at hmoved
    simpa [Worker.isReady] using hmoved
  have hwaiting : (p.moved i .ready).waiting ≤ p.waiting := by
    have hmoved := waiting_moved hi .ready
    simp only [Worker.isWaiting, Bool.false_eq_true, if_false] at hmoved
    omega
  have hexited : (p.moved i .ready).exited = p.exited := by
    have hmoved := exited_moved hi .ready
    rw [hx] at hmoved
    simpa [Worker.isExited] using hmoved
  refine ⟨?_, ?_, ?_⟩
  · rcases h.enough with h0 | hle
    · refine Or.inl ?_
      show (p.moved i .ready).waiting = 0
      omega
    · refine Or.inr ?_
      show p.count ≤ (p.moved i .ready).ready
      omega
  · intro hne
    have h0 := h.down hne
    show (p.moved i .ready).waiting = 0
    omega
  · intro hne
    exact h.left (hexited ▸ hne)

/-- A task added wakes a sleeping worker, if there is one. -/
theorem Sleep.enqueued {p p' : Pool F A} (h : Sleep p) (hs : p.shutdown = .no) {wakes : Nat} {task : Task F A}
    (hw : p.waiting = 0 ∧ p' = p.enqueued task ∨
      p.threads[wakes]? = some .waiting ∧ p' = (p.enqueued task).moved wakes .ready) : Sleep p' := by
  have hleft : p.exited = 0 := by
    by_contra hne
    rcases h.left hne with hx | ⟨hx, -⟩
    · simp [hs] at hx
    · simp [hs] at hx
  rcases hw with ⟨h0, rfl⟩ | ⟨hi, rfl⟩
  · exact ⟨Or.inl h0, fun _ => h0, fun hne => absurd hleft hne⟩
  · have hready : ((p.enqueued task).moved wakes .ready).ready = p.ready + 1 :=
      ready_moved (p := p.enqueued task) hi .ready
    have hexited : ((p.enqueued task).moved wakes .ready).exited = p.exited :=
      exited_moved (p := p.enqueued task) hi .ready
    have hpos : 0 < p.waiting := Cells.countP_pos_of_getElem? hi rfl
    refine ⟨Or.inr ?_, fun hne => absurd hs hne, fun hne => absurd (hexited.trans hleft) hne⟩
    show p.count + 1 ≤ _
    rcases h.enough with h0 | hle
    · omega
    · omega

theorem step_sleep {p p' : Pool F A} {e : Ev F A} (h : Sleep p) (hs : p.step e = some p') : Sleep p' := by
  cases e with
  | add function argument wakes =>
    obtain ⟨⟨err, q⟩, hq, rfl⟩ := Option.map_eq_some_iff.mp hs
    rcases add_cases hq with ⟨-, rfl⟩ | ⟨f, -, -, -, -, hno, hwake⟩
    · exact h
    · exact h.enqueued hno hwake
  | worker i =>
    rcases thread_cases hs with ⟨hi, -, hcase⟩ | ⟨task, hi, rfl⟩
    · rcases hcase with ⟨h0, hno, rfl⟩ | ⟨hx, rfl⟩ | ⟨hcount, hne, ⟨task, -, rfl⟩ | ⟨-, rfl⟩⟩
      · exact h.wait hi h0 hno
      · exact h.exit hi hx _
      · exact h.dequeued hi hcount hne task
      · exact ⟨h.enough, h.down, h.left⟩
    · exact h.readied hi rfl rfl _
  | spurious i =>
    obtain ⟨hi, rfl⟩ := spurious_cases hs
    exact h.readied hi rfl rfl p.finished
  | destroy flags =>
    obtain ⟨⟨err, q⟩, hq, rfl⟩ := Option.map_eq_some_iff.mp hs
    rcases destroy_cases hq with ⟨-, ⟨-, rfl⟩ | ⟨hno, rfl⟩⟩
    · exact ⟨h.enough, h.down, h.left⟩
    · have hzero : (p.threads.map Worker.wake).countP Worker.isWaiting = 0 := countP_wake p.threads
      refine ⟨Or.inl hzero, fun _ => hzero, fun hne => ?_⟩
      have hexited : p.exited ≠ 0 := by
        intro h0
        exact hne ((exited_wake p.threads).trans h0)
      rcases h.left hexited with hx | ⟨hx, -⟩
      · simp [hno] at hx
      · simp [hno] at hx
  | join =>
    obtain ⟨i, -, -, -, rfl⟩ := join_cases hs
    exact ⟨h.enough, h.down, h.left⟩
  | free =>
    rcases free_cases hs with ⟨i, -, -, ⟨-, rfl⟩ | ⟨-, rfl⟩⟩ | ⟨-, -, rfl⟩
    · exact ⟨h.enough, h.down, h.left⟩
    · exact ⟨h.enough, h.down, h.left⟩
    · exact ⟨h.enough, h.down, h.left⟩

/-! ## What follows for a task in the queue -/

/-- A worker at the queue takes the task at its head. -/
theorem Tasks.takes {size : Nat} {p : Pool F A} (h : Tasks size p) (hlock : p.Lockable) (hcount : p.count ≠ 0)
    (hs : p.shutdown ≠ .immediate_shutdown) {i : Nat} (hi : p.threads[i]? = some .ready) :
    ∃ task, p.step (.worker i) = some (p.dequeued i task) := by
  obtain ⟨task, l, -, -, hslot⟩ := h.front hcount
  refine ⟨task, ?_⟩
  have hstay : ¬ (p.count = 0 ∧ p.shutdown = .no) := fun hc => hcount hc.1
  have hgo : ¬ (p.shutdown = .immediate_shutdown ∨ p.shutdown = .graceful_shutdown ∧ p.count = 0) := by
    rintro (hx | ⟨-, h0⟩)
    · exact hs hx
    · exact hcount h0
  simp only [step, threadpool_thread, hi, hlock, hstay, hgo, if_true, if_false, hslot]
  rfl

theorem Sleep.prompt {size : Nat} {p : Pool F A} (h : Sleep p) (ht : Tasks size p) : Prompt p := by
  refine ⟨h.enough, ?_⟩
  intro hlock hcount hs
  by_cases hr : p.ready = 0
  · right
    have hw : p.waiting = 0 := by
      rcases h.enough with h0 | hle
      · exact h0
      · omega
    have hx : p.exited = 0 := by
      by_contra hne
      rcases h.left hne with hx | ⟨-, h0⟩
      · exact hs hx
      · exact hcount h0
    intro w hmem
    cases w with
    | running task => exact ⟨task, rfl⟩
    | ready => exact absurd rfl (List.countP_eq_zero.mp hr _ hmem)
    | waiting => exact absurd rfl (List.countP_eq_zero.mp hw _ hmem)
    | exited => exact absurd rfl (List.countP_eq_zero.mp hx _ hmem)
  · left
    obtain ⟨i, w, hi, hw⟩ := Cells.exists_getElem?_of_countP_pos (Nat.pos_of_ne_zero hr)
    cases w with
    | ready =>
      obtain ⟨task, hstep⟩ := ht.takes hlock hcount hs hi
      exact ⟨i, p.dequeued i task, hstep, by simp [Pool.dequeued]⟩
    | waiting => cases hw
    | running task => cases hw
    | exited => cases hw

/-- No wakeup is lost: however callers, signals, spurious wakeups and workers interleave, a
    task in the queue is taken by some worker's next step unless every worker runs one. -/
theorem no_lost_wakeup {n size : Nat} (h : 0 < size) (es : List (Ev F A)) :
    Always step Prompt (start n size) es := by
  have hall : Always step (fun p : Pool F A => Tasks size p ∧ Sleep p) (start n size) es :=
    always_of_inv (fun p e p' hp hs => ⟨step_tasks hp.1 hs, step_sleep hp.2 hs⟩) ⟨start_tasks h, start_sleep n size⟩
  exact hall.mono fun p hp => hp.2.prompt hp.1

/-- Two tasks for two sleeping workers, the second signal after a spurious wakeup. -/
theorem two_sleepers :
    Always step Prompt (start 2 2 : Pool Nat Nat)
      [.worker 0, .worker 1, .add (some 1) 0 0, .spurious 1, .worker 1, .worker 0, .add (some 2) 0 0] :=
  no_lost_wakeup (by decide) _

end GroupeChat.ThreadPool.Pool
