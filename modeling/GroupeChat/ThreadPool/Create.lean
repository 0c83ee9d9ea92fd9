/-
  GroupeChat.ThreadPool.Create — `threadpool_create` and what it cannot get.

  `Got` is what the calls it makes give it: three blocks, a mutex, a condition variable,
  and how many threads start before one does not. A pool whose threads do not all start is
  destroyed at once; that call joins the ones that did and frees it, however they
  interleave with it (`abandoned_ends`). The other ways to fail leave nothing behind only
  if the mutex and the condition variable are there to be destroyed, or the arrays are both
  missing (`failed_clean_iff`): a queue without its threads is never freed, because
  `threadpool_free` looks at `threads` alone.
-/

import GroupeChat.ThreadPool.Shutdown

namespace GroupeChat.ThreadPool.Pool

open Base

variable {F A : Type}

def MAX_THREADS : Int := 64
def MAX_QUEUE : Int := 65536

structure Got where
  pool : Bool
  threads : Bool
  queue : Bool
  mutex : Bool
  cond : Bool
  /-- The threads started before `pthread_create` first fails. -/
  created : Nat

inductive Block where
  | pool
  | threads
  | queue
  deriving DecidableEq, Repr

inductive Created (F A : Type) where
  /-- `NULL`: the blocks still allocated, and whether a mutex or condition variable was
      used that was never initialised. -/
  | failed (blocks : List Block) (uninitialised : Bool)
  /-- `NULL` once this pool, told to shut down, is destroyed. -/
  | abandoned (pool : Pool F A)
  | created (pool : Pool F A)

/-- `threadpool_free` of a pool with no worker. -/
def free_unstarted (got : Got) : Created F A :=
  if got.threads then .failed [] (!got.mutex || !got.cond)
  else .failed (if got.queue then [.queue] else []) false

def threadpool_create (thread_count queue_size : Int) (got : Got) : Created F A :=
  if thread_count ≤ 0 ∨ MAX_THREADS < thread_count ∨ queue_size ≤ 0 ∨ MAX_QUEUE < queue_size then .failed [] false
  else if !got.pool then .failed [] false
  else if !got.mutex || !got.cond || !got.threads || !got.queue then free_unstarted got
  else if got.created < thread_count.toNat then .abandoned ((start got.created queue_size.toNat).told 0)
  else .created (start thread_count.toNat queue_size.toNat)

theorem create_abandoned {thread_count queue_size : Int} {got : Got} {p : Pool F A}
    (h : threadpool_create thread_count queue_size got = .abandoned p) :
    0 < queue_size.toNat ∧ p = (start got.created queue_size.toNat).told 0 := by
  unfold threadpool_create at h
  split at h
  · cases h
  · rename_i hrange
    split at h
    · cases h
    · split at h
      · unfold free_unstarted at h
        split at h
        · cases h
        · cases h
      · split at h
        · injection h with h
          exact ⟨by omega, h.symm⟩
        · cases h

/-- Destroyed by `threadpool_create`, a pool without tasks comes down whatever its workers
    do first: the call returns, and neither a worker nor the pool is left. -/
theorem abandoned_ends {thread_count queue_size : Int} {got : Got} {p : Pool F A}
    (h : threadpool_create thread_count queue_size got = .abandoned p) :
    (∀ es q, (∀ e ∈ es, own e) → run step p es = some q →
      es.length ≤ work p ∧ q.taken = [] ∧
        ((∀ e, own e → q.step e = none) → q.destroy = .freed ∧ ∀ w ∈ q.threads, w = .exited)) ∧
      ∃ es q, (∀ e ∈ es, own e) ∧ run step p es = some q ∧ q.destroy = .freed ∧ ∀ w ∈ q.threads, w = .exited := by
  obtain ⟨hsize, rfl⟩ := create_abandoned h
  have hlock : (start got.created queue_size.toNat : Pool F A).Lockable := ⟨rfl, by simp [start]⟩
  have hinv : Inv got.created queue_size.toNat ((start got.created queue_size.toNat : Pool F A).told 0) :=
    step_inv (start_inv hsize) (step_destroy hlock rfl 0)
  have hgood : Down got.created queue_size.toNat ((start got.created queue_size.toNat : Pool F A).told 0) :=
    ⟨hinv, told_shutdown _ 0, rfl⟩
  have hgone : ∀ {q : Pool F A}, Inv got.created queue_size.toNat q → q.destroy = .freed →
      ∀ w ∈ q.threads, w = .exited := by
    intro q hq hfreed
    have hexited : q.exited = got.created := hq.crew.gone (Or.inr hfreed)
    rw [← hq.crew.threads] at hexited
    exact exited_eq_length.mp hexited
  refine ⟨?_, ?_⟩
  · intro es q hown hr
    have hle := (drains got.created queue_size.toNat).length_le hgood hown hr
    have hacc : q.accepted = [] := run_down hgood.shutdown hr
    have hq := hgood.inv.run hr
    refine ⟨by omega, ?_, ?_⟩
    · obtain ⟨l, -, hl⟩ := hq.tasks.stored
      rw [hacc] at hl
      exact (List.append_eq_nil_iff.mp hl.symm).1
    · intro hstuck
      have hfreed := (drains got.created queue_size.toNat).final_of_stuck hgood hown hr hstuck
      exact ⟨hfreed, hgone hq hfreed⟩
  · obtain ⟨es, q, hown, hr, hq, hfreed⟩ := (drains got.created queue_size.toNat).exists_run hgood
    exact ⟨es, q, hown, hr, hfreed, hgone hq.inv hfreed⟩

/-- Three threads asked for, one started. -/
theorem one_of_three_started :
    (∀ es q, (∀ e ∈ es, own e) → run step ((start 1 8 : Pool Nat Nat).told 0) es = some q →
      es.length ≤ work ((start 1 8 : Pool Nat Nat).told 0) ∧ q.taken = [] ∧
        ((∀ e, own e → q.step e = none) → q.destroy = .freed ∧ ∀ w ∈ q.threads, w = .exited)) ∧
      ∃ es q, (∀ e ∈ es, own e) ∧ run step ((start 1 8 : Pool Nat Nat).told 0) es = some q ∧
        q.destroy = .freed ∧ ∀ w ∈ q.threads, w = .exited :=
  @abandoned_ends Nat Nat 3 8 ⟨true, true, true, true, true, 1⟩ _ rfl

/-- What a failed call leaves: nothing, unless the queue was allocated and its threads were
    not, or the arrays were and the mutex or the condition variable was not initialised. -/
theorem failed_clean_iff {thread_count queue_size : Int} {got : Got} {blocks : List Block} {uninitialised : Bool}
    (h : (threadpool_create thread_count queue_size got : Created F A) = .failed blocks uninitialised) :
    (blocks = [] ∧ uninitialised = false) ↔
      ¬ (0 < thread_count ∧ thread_count ≤ MAX_THREADS ∧ 0 < queue_size ∧ queue_size ≤ MAX_QUEUE ∧ got.pool = true ∧
        (got.threads = false ∧ got.queue = true ∨ got.threads = true ∧ (got.mutex = false ∨ got.cond = false))) := by
  unfold threadpool_create at h
  split at h
  · rename_i hrange
    injection h with hb hu
    refine ⟨fun _ hall => ?_, fun _ => ⟨hb.symm, hu.symm⟩⟩
    omega
  · rename_i hrange
    have hin : 0 < thread_count ∧ thread_count ≤ MAX_THREADS ∧ 0 < queue_size ∧ queue_size ≤ MAX_QUEUE := by omega
    obtain ⟨pool, threads, queue, mutex, cond, created⟩ := got
    split at h
    · rename_i hpool
      injection h with hb hu
      refine ⟨fun _ hall => ?_, fun _ => ⟨hb.symm, hu.symm⟩⟩
      have htrue : pool = true := hall.2.2.2.2.1
      simp [htrue] at hpool
    · rename_i hpool
      split at h
      · rename_i hmissing
        unfold free_unstarted at h
        cases threads with
        | true =>
          injection h with hb hu
          subst hb hu
          simp only [Bool.not_eq_true, Bool.not_eq_false'] at hpool
          cases mutex with
          | true =>
            cases cond with
            | true => simp
            | false => simp [hin, hpool]
          | false => simp [hin, hpool]
        | false =>
          injection h with hb hu
          subst hb hu
          simp only [Bool.not_eq_true, Bool.not_eq_false'] at hpool
          cases queue with
          | true => simp [hin, hpool]
          | false => simp
      · split at h
        · cases h
        · cases h

end GroupeChat.ThreadPool.Pool
