/-
  GroupeChat.ThreadPool.Pool — the thread pool (`threadpool.c`).

  Workers wait on `notify` while there is no task and no shutdown, take the task at
  `head`, run it with the lock given back, and leave once the pool shuts down.
  `threadpool_add` writes a task at `tail` and signals; `threadpool_destroy` sets
  `shutdown`, wakes every worker, joins them all and frees the pool. Everything shared is
  read and written under `lock`, so a step is what one thread does from taking the lock to
  giving it back (or to the wait, which gives it back too), and a run any interleaving.

  A call of `threadpool_destroy` that finds the pool shutting down leaves its loop by
  `break` and returns with the lock held: `locked`. Nothing that needs the lock moves
  after that.

  The `_cases` lemmas say once what a step does; `accepted`, `taken` and `finished` record the
  tasks that were added, grabbed by a worker and run to their end, in order.
-/

import GroupeChat.Base.Ring
import GroupeChat.Base.Fifo
import Mathlib.Data.List.Count

namespace GroupeChat.ThreadPool

open Base

structure Task (F A : Type) where
  function : F
  argument : A
  deriving DecidableEq, Repr

inductive Shutdown where
  | no
  | immediate_shutdown
  | graceful_shutdown
  deriving DecidableEq, Repr

inductive Error where
  | invalid
  | lock_failure
  | queue_full
  | shutdown
  | thread_failure
  deriving DecidableEq, Repr

inductive Worker (F A : Type) where
  /-- About to take the lock, at the top of the loop or woken from its wait. -/
  | ready
  /-- In `pthread_cond_wait`, not woken. -/
  | waiting
  /-- Past the unlock, in the task's function. -/
  | running (task : Task F A)
  | exited
  deriving DecidableEq, Repr

/-- How far the call of `threadpool_destroy` that shuts the pool down has come. -/
inductive Destroy where
  | idle
  /-- At the `pthread_join` of `threads[i]`. -/
  | joining (i : Nat)
  /-- In `threadpool_free`, the arrays given back, at the lock. -/
  | freeing
  | freed
  /-- `threadpool_free` found a worker that had not left. -/
  | kept
  deriving DecidableEq, Repr

namespace Worker

variable {F A : Type}

def isReady : Worker F A → Bool
  | .ready => true
  | _ => false

def isWaiting : Worker F A → Bool
  | .waiting => true
  | _ => false

def isExited : Worker F A → Bool
  | .exited => true
  | _ => false

def task? : Worker F A → Option (Task F A)
  | .running task => some task
  | _ => none

def wake : Worker F A → Worker F A
  | .waiting => .ready
  | w => w

end Worker

structure Pool (F A : Type) where
  threads : List (Worker F A)
  queue : List (Option (Task F A))
  thread_count : Nat
  queue_size : Nat
  head : Nat
  tail : Nat
  count : Nat
  shutdown : Shutdown
  started : Int
  /-- `lock` is held by a call that has returned. -/
  locked : Bool
  destroy : Destroy
  /-- A slot was read that nothing was written to. -/
  fault : Bool
  accepted : List (Task F A)
  taken : List (Task F A)
  finished : List (Task F A)
  deriving DecidableEq

namespace Pool

variable {F A : Type}

def start (thread_count queue_size : Nat) : Pool F A where
  threads := List.replicate thread_count .ready
  queue := List.replicate queue_size none
  thread_count := thread_count
  queue_size := queue_size
  head := 0
  tail := 0
  count := 0
  shutdown := .no
  started := thread_count
  locked := false
  destroy := .idle
  fault := false
  accepted := []
  taken := []
  finished := []

def contents (p : Pool F A) : List (Task F A) := Ring.contents p.queue p.head p.count

def held (p : Pool F A) : List (Task F A) := p.threads.filterMap Worker.task?

def ready (p : Pool F A) : Nat := p.threads.countP Worker.isReady

def waiting (p : Pool F A) : Nat := p.threads.countP Worker.isWaiting

def exited (p : Pool F A) : Nat := p.threads.countP Worker.isExited

/-- `pthread_cond_signal`: if any thread waits, one of them is woken. -/
def pthread_cond_signal (p : Pool F A) (wakes : Nat) : Option (Pool F A) :=
  if p.waiting = 0 then some p
  else
    match p.threads[wakes]? with
    | some .waiting => some { p with threads := p.threads.set wakes .ready }
    | _ => none

/-- The lock can be taken: the pool is there and no call kept the lock. -/
def Lockable (p : Pool F A) : Prop := p.locked = false ∧ p.destroy ≠ .freed

instance (p : Pool F A) : Decidable p.Lockable := inferInstanceAs (Decidable (_ ∧ _))

/-- What it returns (0 is `none`) and leaves; `function = none` is a null pointer. -/
def threadpool_add (p : Pool F A) (function : Option F) (argument : A) (wakes : Nat) :
    Option (Option Error × Pool F A) :=
  match function with
  | none => some (some .invalid, p)
  | some function =>
    if p.Lockable then
      let next := (p.tail + 1) % p.queue_size
      if p.count = p.queue_size then some (some .queue_full, p)
      else if p.shutdown ≠ .no then some (some .shutdown, p)
      else
        let task : Task F A := ⟨function, argument⟩
        let added : Pool F A := { p with
          queue := p.queue.set p.tail (some task)
          tail := next
          count := p.count + 1
          accepted := p.accepted ++ [task] }
        (added.pthread_cond_signal wakes).map fun p => (none, p)
    else none

/-- What worker `i` does next: under the lock, up to its wait, its exit or the call of a
    task's function, or the return from that. -/
def threadpool_thread (p : Pool F A) (i : Nat) : Option (Pool F A) :=
  match p.threads[i]? with
  | some .ready =>
    if p.Lockable then
      if p.count = 0 ∧ p.shutdown = .no then some { p with threads := p.threads.set i .waiting }
      else if p.shutdown = .immediate_shutdown ∨ p.shutdown = .graceful_shutdown ∧ p.count = 0 then
        some { p with threads := p.threads.set i .exited, started := p.started - 1 }
      else
        match p.queue[p.head]? with
        | some (some task) => some { p with
            head := (p.head + 1) % p.queue_size
            count := p.count - 1
            threads := p.threads.set i (.running task)
            taken := p.taken ++ [task] }
        | _ => some { p with fault := true }
    else none
  | some (.running task) => some { p with
      threads := p.threads.set i .ready
      finished := p.finished ++ [task] }
  | _ => none

def threadpool_destroy (p : Pool F A) (flags : BitVec 32) : Option (Option Error × Pool F A) :=
  if p.Lockable then
    if p.shutdown ≠ .no then
      -- `break` goes past the unlock
      some (some .shutdown, { p with locked := true })
    else some (none, { p with
      shutdown := if flags &&& 1 ≠ 0 then .graceful_shutdown else .immediate_shutdown
      threads := p.threads.map Worker.wake
      destroy := .joining 0 })
  else none

def pthread_join (p : Pool F A) : Option (Pool F A) :=
  match p.destroy with
  | .joining i =>
    if i < p.thread_count then
      match p.threads[i]? with
      | some .exited => some { p with destroy := .joining (i + 1) }
      | _ => none
    else none
  | _ => none

/-- Every worker joined: the arrays are given back, then, the lock taken once more, the pool. -/
def threadpool_free (p : Pool F A) : Option (Pool F A) :=
  match p.destroy with
  | .joining i =>
    if i < p.thread_count then none
    else if 0 < p.started then some { p with destroy := .kept }
    else some { p with destroy := .freeing }
  | .freeing => if p.locked then none else some { p with destroy := .freed }
  | _ => none

inductive Ev (F A : Type) where
  /-- A call of `threadpool_add`; `wakes` is the thread that its signal wakes. -/
  | add (function : Option F) (argument : A) (wakes : Nat)
  | worker (i : Nat)
  /-- `pthread_cond_wait` may return without a signal. -/
  | spurious (i : Nat)
  | destroy (flags : BitVec 32)
  | join
  | free

def step (p : Pool F A) : Ev F A → Option (Pool F A)
  | .add function argument wakes => (p.threadpool_add function argument wakes).map (·.2)
  | .worker i => p.threadpool_thread i
  | .spurious i =>
    match p.threads[i]? with
    | some .waiting => some { p with threads := p.threads.set i .ready }
    | _ => none
  | .destroy flags => (p.threadpool_destroy flags).map (·.2)
  | .join => p.pthread_join
  | .free => p.threadpool_free

/-! ## What a step does -/

def enqueued (p : Pool F A) (task : Task F A) : Pool F A :=
  { p with
    queue := p.queue.set p.tail (some task)
    tail := (p.tail + 1) % p.queue_size
    count := p.count + 1
    accepted := p.accepted ++ [task] }

def dequeued (p : Pool F A) (i : Nat) (task : Task F A) : Pool F A :=
  { p with
    head := (p.head + 1) % p.queue_size
    count := p.count - 1
    threads := p.threads.set i (.running task)
    taken := p.taken ++ [task] }

/-- The pool told to shut down. -/
def told (p : Pool F A) (flags : BitVec 32) : Pool F A :=
  { p with
    shutdown := if flags &&& 1 ≠ 0 then .graceful_shutdown else .immediate_shutdown
    threads := p.threads.map Worker.wake
    destroy := .joining 0 }

theorem told_shutdown (p : Pool F A) (flags : BitVec 32) : (p.told flags).shutdown ≠ .no := by
  simp only [told]
  split
  · simp
  · simp

def moved (p : Pool F A) (i : Nat) (w : Worker F A) : Pool F A := { p with threads := p.threads.set i w }

theorem signal_cases {p p' : Pool F A} {wakes : Nat} (h : p.pthread_cond_signal wakes = some p') :
    (p.waiting = 0 ∧ p' = p) ∨ (p.threads[wakes]? = some .waiting ∧ p' = p.moved wakes .ready) := by
  unfold pthread_cond_signal at h
  split at h
  · rename_i h0
    exact Or.inl ⟨h0, (Option.some.inj h).symm⟩
  · split at h
    · rename_i hw
      exact Or.inr ⟨hw, (Option.some.inj h).symm⟩
    · cases h

/-- A call of `threadpool_add` does nothing, or adds the task and wakes a waiting thread. -/
theorem add_cases {p p' : Pool F A} {function : Option F} {argument : A} {wakes : Nat} {err : Option Error}
    (h : p.threadpool_add function argument wakes = some (err, p')) :
    (err ≠ none ∧ p' = p) ∨
    ∃ f, function = some f ∧ err = none ∧ p.Lockable ∧ p.count ≠ p.queue_size ∧ p.shutdown = .no ∧
      (p.waiting = 0 ∧ p' = p.enqueued ⟨f, argument⟩ ∨
        p.threads[wakes]? = some .waiting ∧ p' = (p.enqueued ⟨f, argument⟩).moved wakes .ready) := by
  unfold threadpool_add at h
  cases function with
  | none => simp at h; simp [← h.1, h.2]
  | some f =>
    dsimp only at h
    split at h
    · rename_i hlock
      split at h
      · simp at h; simp [← h.1, h.2]
      · rename_i hroom
        split at h
        · simp at h; simp [← h.1, h.2]
        · rename_i hshut
          obtain ⟨q, hq, hqe⟩ := Option.map_eq_some_iff.mp h
          obtain ⟨rfl, rfl⟩ := Prod.mk.inj hqe
          refine Or.inr ⟨f, rfl, rfl, hlock, hroom, not_not.mp hshut, ?_⟩
          rcases signal_cases hq with ⟨h0, hq⟩ | ⟨hw, hq⟩
          · exact Or.inl ⟨h0, hq⟩
          · exact Or.inr ⟨hw, hq⟩
    · cases h

theorem thread_cases {p p' : Pool F A} {i : Nat} (h : p.threadpool_thread i = some p') :
    (p.threads[i]? = some .ready ∧ p.Lockable ∧
      (p.count = 0 ∧ p.shutdown = .no ∧ p' = p.moved i .waiting ∨
        (p.shutdown = .immediate_shutdown ∨ p.shutdown = .graceful_shutdown ∧ p.count = 0) ∧
          p' = { p.moved i .exited with started := p.started - 1 } ∨
        p.count ≠ 0 ∧ p.shutdown ≠ .immediate_shutdown ∧
          ((∃ task, p.queue[p.head]? = some (some task) ∧ p' = p.dequeued i task) ∨
            (∀ task, p.queue[p.head]? ≠ some (some task)) ∧ p' = { p with fault := true }))) ∨
    ∃ task, p.threads[i]? = some (.running task) ∧
      p' = { p.moved i .ready with finished := p.finished ++ [task] } := by
  unfold threadpool_thread at h
  split at h
  · rename_i hr
    split at h
    · rename_i hlock
      refine Or.inl ⟨hr, hlock, ?_⟩
      split at h
      · rename_i hc
        exact Or.inl ⟨hc.1, hc.2, (Option.some.inj h).symm⟩
      · rename_i hwait
        split at h
        · rename_i hx
          exact Or.inr (Or.inl ⟨hx, (Option.some.inj h).symm⟩)
        · rename_i hx
          have hcount : p.count ≠ 0 := by
            intro h0
            cases hs : p.shutdown with
            | no => exact hwait ⟨h0, hs⟩
            | immediate_shutdown => exact hx (Or.inl hs)
            | graceful_shutdown => exact hx (Or.inr ⟨hs, h0⟩)
          refine Or.inr (Or.inr ⟨hcount, fun hs => hx (Or.inl hs), ?_⟩)
          split at h
          · rename_i task htask
            exact Or.inl ⟨task, htask, (Option.some.inj h).symm⟩
          · rename_i hnone
            exact Or.inr ⟨hnone, (Option.some.inj h).symm⟩
    · cases h
  · rename_i task hr
    exact Or.inr ⟨task, hr, (Option.some.inj h).symm⟩
  · cases h

theorem destroy_cases {p p' : Pool F A} {flags : BitVec 32} {err : Option Error}
    (h : p.threadpool_destroy flags = some (err, p')) :
    p.Lockable ∧
      (p.shutdown ≠ .no ∧ p' = { p with locked := true } ∨ p.shutdown = .no ∧ p' = p.told flags) := by
  unfold threadpool_destroy at h
  split at h
  · rename_i hlock
    refine ⟨hlock, ?_⟩
    split at h
    · rename_i hs
      obtain ⟨-, rfl⟩ := Prod.mk.inj (Option.some.inj h)
      exact Or.inl ⟨hs, rfl⟩
    · rename_i hs
      obtain ⟨-, rfl⟩ := Prod.mk.inj (Option.some.inj h)
      exact Or.inr ⟨not_not.mp hs, rfl⟩
  · cases h

theorem step_destroy {p : Pool F A} (hlock : p.Lockable) (hno : p.shutdown = .no) (flags : BitVec 32) :
    p.step (.destroy flags) = some (p.told flags) := by
  simp only [step, threadpool_destroy, hlock, hno, if_true, ne_eq, not_true, if_false, Option.map_some]
  rfl

theorem join_cases {p p' : Pool F A} (h : p.pthread_join = some p') :
    ∃ i, p.destroy = .joining i ∧ i < p.thread_count ∧ p.threads[i]? = some .exited ∧
      p' = { p with destroy := .joining (i + 1) } := by
  unfold pthread_join at h
  split at h
  · rename_i i hi
    split at h
    · rename_i hlt
      split at h
      · rename_i hx
        exact ⟨i, hi, hlt, hx, (Option.some.inj h).symm⟩
      · cases h
    · cases h
  · cases h

theorem free_cases {p p' : Pool F A} (h : p.threadpool_free = some p') :
    (∃ i, p.destroy = .joining i ∧ p.thread_count ≤ i ∧
      (0 < p.started ∧ p' = { p with destroy := .kept } ∨ p.started ≤ 0 ∧ p' = { p with destroy := .freeing })) ∨
    (p.destroy = .freeing ∧ p.locked = false ∧ p' = { p with destroy := .freed }) := by
  unfold threadpool_free at h
  split at h
  · rename_i i hi
    split at h
    · cases h
    · rename_i hge
      refine Or.inl ⟨i, hi, Nat.le_of_not_lt hge, ?_⟩
      split at h
      · rename_i hs
        exact Or.inl ⟨hs, (Option.some.inj h).symm⟩
      · rename_i hs
        exact Or.inr ⟨Int.not_lt.mp hs, (Option.some.inj h).symm⟩
  · rename_i hf
    split at h
    · cases h
    · rename_i hl
      exact Or.inr ⟨hf, by simpa using hl, (Option.some.inj h).symm⟩
  · cases h

theorem spurious_cases {p p' : Pool F A} {i : Nat} (h : p.step (.spurious i) = some p') :
    p.threads[i]? = some .waiting ∧ p' = p.moved i .ready := by
  simp only [step] at h
  split at h
  · rename_i hw
    exact ⟨hw, (Option.some.inj h).symm⟩
  · cases h

end Pool

end GroupeChat.ThreadPool
