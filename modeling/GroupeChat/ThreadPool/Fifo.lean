/-
  GroupeChat.ThreadPool.Fifo — the tasks of the pool, over any interleaving.

  The ring of the pool is a queue that holds at most `queue_size` tasks: the tasks taken
  so far and then those in the ring are those that were added, in order, and each task
  taken is either finished or in the hands of one worker (`tasks_in_order`). The invariant
  ties the ring to the two records (`Tasks`); a worker never reads a slot that nothing was
  written to.
-/

import GroupeChat.Base.Cells
import GroupeChat.ThreadPool.Pool

namespace GroupeChat.ThreadPool.Pool

open Base

variable {F A : Type}

/-- What the ring of a pool of `size` slots holds and where its tasks are. -/
structure Tasks (size : Nat) (p : Pool F A) : Prop where
  fault : p.fault = false
  queue_size : p.queue_size = size
  length : p.queue.length = size
  stored : ∃ l, Ring.Stores p.queue p.head p.tail p.count l ∧ p.accepted = p.taken ++ l
  once : p.taken.Perm (p.finished ++ p.held)

/-- The tasks are taken in the order in which they were added, each by one worker. -/
structure InOrder (size : Nat) (p : Pool F A) : Prop where
  fault : p.fault = false
  indices : p.head < p.queue.length ∧ p.tail < p.queue.length
  bounded : p.contents.length = p.count ∧ p.count ≤ size
  inOrder : p.accepted = p.taken ++ p.contents
  once : p.taken.Perm (p.finished ++ p.held)

def view (p : Pool F A) : Fifo (Task F A) := ⟨p.taken, p.contents⟩

theorem contents_of_stores {p : Pool F A} {l : List (Task F A)}
    (h : Ring.Stores p.queue p.head p.tail p.count l) : p.contents = l := h.contents_eq

theorem Tasks.inOrder {size : Nat} {p : Pool F A} (h : Tasks size p) : InOrder size p := by
  obtain ⟨l, hl, hacc⟩ := h.stored
  have hcontents : p.contents = l := contents_of_stores hl
  refine ⟨h.fault, ⟨hl.head_lt, hl.tail_lt⟩, ⟨?_, ?_⟩, ?_, h.once⟩
  · rw [hcontents, hl.count_eq]
  · rw [← h.length]
    exact hl.count_le
  · rw [hcontents, hacc]

@[simp] theorem held_start (n size : Nat) : (start n size : Pool F A).held = [] := by
  simp [held, start, Worker.task?]

theorem start_tasks {n size : Nat} (h : 0 < size) : Tasks size (start n size : Pool F A) where
  fault := rfl
  queue_size := rfl
  length := by simp [start]
  stored := ⟨[], Ring.stores_nil h, rfl⟩
  once := by
    rw [held_start]
    exact List.Perm.refl _

/-! ## Who holds a task -/

theorem held_set {p : Pool F A} {i : Nat} {w : Worker F A} (h : p.threads[i]? = some w) (w' : Worker F A) :
    (w.task?.toList ++ (p.moved i w').held).Perm (w'.task?.toList ++ p.held) :=
  Cells.filterMap_set_perm Worker.task? h w'

/-- Workers without a task go from one place to another. -/
theorem held_moved {p : Pool F A} {i : Nat} {w w' : Worker F A} (h : p.threads[i]? = some w)
    (hw : w.task? = none) (hw' : w'.task? = none) : (p.moved i w').held.Perm p.held := by
  have hset := held_set h w'
  rw [hw, hw'] at hset
  simpa using hset

theorem task?_wake (w : Worker F A) : w.wake.task? = w.task? := by
  cases w with
  | ready => rfl
  | waiting => rfl
  | running task => rfl
  | exited => rfl

theorem held_wake (l : List (Worker F A)) :
    (l.map Worker.wake).filterMap Worker.task? = l.filterMap Worker.task? := by
  rw [List.filterMap_map]
  congr 1
  funext w
  exact task?_wake w

/-! ## The steps -/

/-- A step that leaves the ring and the records alone and moves workers that have no task. -/
theorem Tasks.of_same {size : Nat} {p p' : Pool F A} (h : Tasks size p) (hfault : p'.fault = p.fault)
    (hring : (p'.queue, p'.queue_size, p'.head, p'.tail, p'.count) = (p.queue, p.queue_size, p.head, p.tail, p.count))
    (hrec : (p'.accepted, p'.taken, p'.finished) = (p.accepted, p.taken, p.finished))
    (hheld : p'.held.Perm p.held) : Tasks size p' := by
  simp only [Prod.mk.injEq] at hring hrec
  obtain ⟨hq, hs, hh, ht, hc⟩ := hring
  obtain ⟨ha, htk, hf⟩ := hrec
  refine ⟨by rw [hfault, h.fault], by rw [hs, h.queue_size], by rw [hq, h.length], ?_, ?_⟩
  · obtain ⟨l, hl, hacc⟩ := h.stored
    exact ⟨l, by rw [hq, hh, ht, hc]; exact hl, by rw [ha, htk, hacc]⟩
  · rw [htk, hf]
    exact h.once.trans (hheld.symm.append_left _)

theorem Tasks.moved {size : Nat} {p : Pool F A} (h : Tasks size p) {i : Nat} {w w' : Worker F A}
    (hi : p.threads[i]? = some w) (hw : w.task? = none) (hw' : w'.task? = none) : Tasks size (p.moved i w') :=
  h.of_same rfl rfl rfl (held_moved hi hw hw')

theorem Tasks.enqueued {size : Nat} {p : Pool F A} (h : Tasks size p) (hroom : p.count ≠ p.queue_size)
    (task : Task F A) : Tasks size (p.enqueued task) := by
  obtain ⟨l, hl, hacc⟩ := h.stored
  have hlt : p.count < p.queue.length := by
    have hle := hl.count_le
    have hlen := h.length
    have hsize := h.queue_size
    omega
  refine ⟨h.fault, h.queue_size, ?_, ⟨l ++ [task], ?_, ?_⟩, h.once⟩
  · simpa [Pool.enqueued] using h.length
  · have hpush := hl.push hlt task
    rw [h.length, ← h.queue_size] at hpush
    exact hpush
  · simp [Pool.enqueued, hacc]

theorem Tasks.dequeued {size : Nat} {p : Pool F A} (h : Tasks size p) {i : Nat} (hi : p.threads[i]? = some .ready)
    {task : Task F A} {l : List (Task F A)} (hl : Ring.Stores p.queue p.head p.tail p.count (task :: l))
    (hacc : p.accepted = p.taken ++ task :: l) : Tasks size (p.dequeued i task) := by
  refine ⟨h.fault, h.queue_size, h.length, ⟨l, ?_, ?_⟩, ?_⟩
  · have hpop := hl.pop
    rw [h.length, ← h.queue_size] at hpop
    exact hpop
  · simp [Pool.dequeued, hacc]
  · have hset : ((p.dequeued i task).held).Perm (task :: p.held) := held_set hi (.running task)
    have hmove : (p.taken ++ [task]).Perm (p.finished ++ p.held ++ [task]) := h.once.append_right _
    refine hmove.trans ?_
    rw [List.append_assoc]
    exact ((List.perm_append_singleton task p.held).trans hset.symm).append_left _

/-- A worker that finds a task finds one that was added. -/
theorem Tasks.front {size : Nat} {p : Pool F A} (h : Tasks size p) (hcount : p.count ≠ 0) :
    ∃ task l, Ring.Stores p.queue p.head p.tail p.count (task :: l) ∧ p.accepted = p.taken ++ task :: l ∧
      p.queue[p.head]? = some (some task) := by
  obtain ⟨l, hl, hacc⟩ := h.stored
  obtain ⟨task, l', rfl, hslot⟩ := hl.exists_front hcount
  exact ⟨task, l', hl, hacc, hslot⟩

theorem Tasks.finished {size : Nat} {p : Pool F A} (h : Tasks size p) {i : Nat} {task : Task F A}
    (hi : p.threads[i]? = some (.running task)) :
    Tasks size { p.moved i .ready with finished := p.finished ++ [task] } := by
  refine ⟨h.fault, h.queue_size, h.length, h.stored, ?_⟩
  have hset : (task :: (p.moved i .ready).held).Perm p.held := held_set hi .ready
  refine h.once.trans ?_
  show (p.finished ++ p.held).Perm (p.finished ++ [task] ++ (p.moved i .ready).held)
  rw [List.append_assoc]
  exact hset.symm.append_left _

theorem thread_tasks {size : Nat} {p p' : Pool F A} {i : Nat} (h : Tasks size p)
    (hs : p.threadpool_thread i = some p') : Tasks size p' := by
  rcases thread_cases hs with ⟨hi, -, hcase⟩ | ⟨task, hi, rfl⟩
  · rcases hcase with ⟨-, -, rfl⟩ | ⟨-, rfl⟩ | ⟨hcount, -, hgrab⟩
    · exact h.moved hi rfl rfl
    · exact h.of_same rfl rfl rfl (held_moved hi rfl rfl)
    · obtain ⟨task, l, hl, hacc, hslot⟩ := h.front hcount
      rcases hgrab with ⟨task', hslot', rfl⟩ | ⟨hnone, -⟩
      · obtain rfl : task = task' := by simpa using hslot.symm.trans hslot'
        exact h.dequeued hi hl hacc
      · exact absurd hslot (hnone task)
  · exact h.finished hi

theorem step_tasks {size : Nat} {p p' : Pool F A} {e : Ev F A} (h : Tasks size p) (hs : p.step e = some p') :
    Tasks size p' := by
  cases e with
  | add function argument wakes =>
    obtain ⟨⟨err, q⟩, hq, rfl⟩ := Option.map_eq_some_iff.mp hs
    rcases add_cases hq with ⟨-, rfl⟩ | ⟨f, -, -, -, hroom, -, hwake⟩
    · exact h
    · have hadded : Tasks size (p.enqueued ⟨f, argument⟩) := h.enqueued hroom _
      rcases hwake with ⟨-, rfl⟩ | ⟨hw, rfl⟩
      · exact hadded
      · exact hadded.moved hw rfl rfl
  | worker i => exact thread_tasks h hs
  | spurious i =>
    obtain ⟨hi, rfl⟩ := spurious_cases hs
    exact h.moved hi rfl rfl
  | destroy flags =>
    obtain ⟨⟨err, q⟩, hq, rfl⟩ := Option.map_eq_some_iff.mp hs
    rcases destroy_cases hq with ⟨-, ⟨-, rfl⟩ | ⟨-, rfl⟩⟩
    · exact h.of_same rfl rfl rfl (List.Perm.refl _)
    · refine h.of_same rfl rfl rfl ?_
      show ((p.threads.map Worker.wake).filterMap Worker.task?).Perm _
      rw [held_wake]
      exact List.Perm.refl _
  | join =>
    obtain ⟨i, -, -, -, rfl⟩ := join_cases hs
    exact h.of_same rfl rfl rfl (List.Perm.refl _)
  | free =>
    rcases free_cases hs with ⟨i, -, -, ⟨-, rfl⟩ | ⟨-, rfl⟩⟩ | ⟨-, -, rfl⟩
    · exact h.of_same rfl rfl rfl (List.Perm.refl _)
    · exact h.of_same rfl rfl rfl (List.Perm.refl _)
    · exact h.of_same rfl rfl rfl (List.Perm.refl _)

/-! ## Refinement -/

theorem view_eq {p : Pool F A} {l : List (Task F A)} (h : Ring.Stores p.queue p.head p.tail p.count l) :
    p.view = ⟨p.taken, l⟩ := by
  simp only [view, contents_of_stores h]

/-- A call that takes a task on is a push. -/
theorem enqueued_view {size : Nat} {p : Pool F A} (h : Tasks size p) (hroom : p.count ≠ p.queue_size)
    (task : Task F A) : run (Fifo.bounded size) p.view [.push task] = some (p.enqueued task).view := by
  obtain ⟨l, hl, hacc⟩ := h.stored
  obtain ⟨l', hl', hacc'⟩ := (h.enqueued hroom task).stored
  have hl'' : l' = l ++ [task] := by
    have heq : p.taken ++ l' = p.taken ++ (l ++ [task]) := by
      rw [← List.append_assoc, ← hacc]
      exact hacc'.symm
    exact List.append_cancel_left heq
  have hlt : l.length < size := by
    have hle := hl.count_le
    have hlen := h.length
    have hsize := h.queue_size
    have hcount := hl.count_eq
    omega
  rw [view_eq hl, view_eq hl', hl'', Fifo.bounded_push task hlt]
  rfl

/-- A worker that grabs a task pops it. -/
theorem dequeued_view {size : Nat} {p : Pool F A} (h : Tasks size p) {i : Nat} (hi : p.threads[i]? = some .ready)
    {task : Task F A} {l : List (Task F A)} (hl : Ring.Stores p.queue p.head p.tail p.count (task :: l))
    (hacc : p.accepted = p.taken ++ task :: l) :
    run (Fifo.bounded size) p.view [.pop] = some (p.dequeued i task).view := by
  obtain ⟨l', hl', hacc'⟩ := (h.dequeued hi hl hacc).stored
  have hl'' : l' = l := by
    have heq : p.taken ++ [task] ++ l' = p.taken ++ [task] ++ l := by
      rw [List.append_assoc _ _ l]
      exact hacc'.symm.trans hacc
    exact List.append_cancel_left heq
  rw [view_eq hl, view_eq hl', hl'', Fifo.bounded_pop (by simp)]
  rfl

/-- A step of any thread is a push, a pop, or nothing to the queue. -/
theorem step_view {size : Nat} {p p' : Pool F A} {e : Ev F A} (h : Tasks size p) (hs : p.step e = some p') :
    ∃ ops, run (Fifo.bounded size) p.view ops = some p'.view := by
  cases e with
  | add function argument wakes =>
    obtain ⟨⟨err, q⟩, hq, rfl⟩ := Option.map_eq_some_iff.mp hs
    rcases add_cases hq with ⟨-, rfl⟩ | ⟨f, -, -, -, hroom, -, hwake⟩
    · exact ⟨[], rfl⟩
    · refine ⟨[.push ⟨f, argument⟩], ?_⟩
      rw [enqueued_view h hroom]
      rcases hwake with ⟨-, rfl⟩ | ⟨-, rfl⟩
      · rfl
      · rfl
  | worker i =>
    rcases thread_cases hs with ⟨hi, -, hcase⟩ | ⟨task, -, rfl⟩
    · rcases hcase with ⟨-, -, rfl⟩ | ⟨-, rfl⟩ | ⟨hcount, -, hgrab⟩
      · exact ⟨[], rfl⟩
      · exact ⟨[], rfl⟩
      · obtain ⟨task, l, hl, hacc, hslot⟩ := h.front hcount
        rcases hgrab with ⟨task', hslot', rfl⟩ | ⟨hnone, -⟩
        · obtain rfl : task = task' := by simpa using hslot.symm.trans hslot'
          exact ⟨[.pop], dequeued_view h hi hl hacc⟩
        · exact absurd hslot (hnone task)
    · exact ⟨[], rfl⟩
  | spurious i =>
    obtain ⟨-, rfl⟩ := spurious_cases hs
    exact ⟨[], rfl⟩
  | destroy flags =>
    obtain ⟨⟨err, q⟩, hq, rfl⟩ := Option.map_eq_some_iff.mp hs
    rcases destroy_cases hq with ⟨-, ⟨-, rfl⟩ | ⟨-, rfl⟩⟩
    · exact ⟨[], rfl⟩
    · exact ⟨[], rfl⟩
  | join =>
    obtain ⟨i, -, -, -, rfl⟩ := join_cases hs
    exact ⟨[], rfl⟩
  | free =>
    rcases free_cases hs with ⟨i, -, -, ⟨-, rfl⟩ | ⟨-, rfl⟩⟩ | ⟨-, -, rfl⟩
    · exact ⟨[], rfl⟩
    · exact ⟨[], rfl⟩
    · exact ⟨[], rfl⟩

/-- Over any interleaving of callers and workers the ring is a queue of at most
    `queue_size` tasks, from which each task added is taken once, in order. -/
theorem tasks_in_order {n size : Nat} (h : 0 < size) (es : List (Ev F A)) :
    Always step (InOrder size) (start n size) es ∧
      ∀ p, run step (start n size) es = some p → ∃ ops, run (Fifo.bounded size) ⟨[], []⟩ ops = some p.view := by
  have hall : Always step (Tasks size) (start n size : Pool F A) es :=
    always_of_inv (fun p e p' hp hs => step_tasks hp hs) (start_tasks h)
  refine ⟨hall.mono fun p hp => hp.inOrder, fun p hp => ?_⟩
  obtain ⟨ops, q, hq, -, rfl⟩ := run_simulates (R := fun p q => Tasks size p ∧ q = p.view)
    (fun p q e p' hR hs => by
      obtain ⟨hp, rfl⟩ := hR
      obtain ⟨ops, hops⟩ := step_view hp hs
      exact ⟨ops, _, hops, step_tasks hp hs, rfl⟩)
    ⟨start_tasks h, rfl⟩ hp
  exact ⟨ops, hq⟩

/-- Three tasks through a ring of two slots, by two workers, the second one woken by the signal. -/
def threeTasks : List (Ev Nat Nat) :=
  [.worker 1, .add (some 1) 0 1, .add (some 2) 0 1, .worker 0, .add (some 3) 0 1, .worker 1, .worker 1, .worker 0,
    .worker 0]

theorem a_ring_of_two :
    Always step (InOrder 2) (start 2 2) threeTasks ∧
      ∀ p, run step (start 2 2) threeTasks = some p → ∃ ops, run (Fifo.bounded 2) ⟨[], []⟩ ops = some p.view :=
  tasks_in_order (by decide) _

end GroupeChat.ThreadPool.Pool
