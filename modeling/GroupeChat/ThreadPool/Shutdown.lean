/-
  GroupeChat.ThreadPool.Shutdown — the pool comes down.

  Once `threadpool_destroy` was called, and while nobody calls it again, what is left to
  do is bounded (`work`) and each step of a worker or of the call does some of it
  (`drains`). So the pool ends freed however the threads interleave, as long as tasks
  return; every worker has left, every task taken was finished, and after a graceful
  shutdown that is every task ever added (`shutdown_completes`).

  A second call leaves the lock held (`break` goes past the unlock): from then on no task
  is taken and the pool is never freed. `freed_iff` says that this is the only thing that
  keeps it from being freed.
-/

import GroupeChat.Base.Drain
import GroupeChat.ThreadPool.Wakeups

namespace GroupeChat.ThreadPool.Pool

open Base

variable {F A : Type}

/-- The workers and the call that joins them. -/
structure Crew (n : Nat) (p : Pool F A) : Prop where
  threads : p.threads.length = n
  thread_count : p.thread_count = n
  started : p.started = n - p.exited
  idle : p.shutdown = .no ↔ p.destroy = .idle
  joined : ∀ i, p.destroy = .joining i → i ≤ n ∧ ∀ j < i, p.threads[j]? = some .exited
  gone : p.destroy = .freeing ∨ p.destroy = .freed → p.exited = n
  notKept : p.destroy ≠ .kept
  lock : p.locked = true → p.destroy ≠ .freed

structure Ended (p : Pool F A) : Prop where
  freed : p.destroy = .freed
  exited : ∀ w ∈ p.threads, w = .exited
  finished : p.finished.Perm p.taken
  graceful : p.shutdown = .graceful_shutdown → p.finished.Perm p.accepted

/-- A step that no caller of the pool has to make: tasks return, workers and the call of
    `threadpool_destroy` go on. -/
def own : Ev F A → Prop
  | .add _ _ _ => False
  | .destroy _ => False
  | _ => True

/-! ## The crew -/

theorem exited_eq_length {l : List (Worker F A)} : l.countP Worker.isExited = l.length ↔ ∀ w ∈ l, w = .exited := by
  rw [List.countP_eq_length]
  refine ⟨?_, ?_⟩
  · intro h w hw
    have hx := h w hw
    cases w with
    | exited => rfl
    | ready => cases hx
    | waiting => cases hx
    | running task => cases hx
  · intro h w hw
    rw [h w hw]
    rfl

theorem start_crew (n size : Nat) : Crew n (start n size : Pool F A) where
  threads := by simp [start]
  thread_count := rfl
  started := by
    have hnone : (start n size : Pool F A).exited = 0 := by
      simp [start, exited, List.countP_replicate, Worker.isExited]
    rw [hnone]
    simp [start]
  idle := by simp [start]
  joined i h := by simp [start] at h
  gone h := by simp [start] at h
  notKept := by simp [start]
  lock h := by simp [start] at h

theorem Crew.of_same {n : Nat} {p p' : Pool F A} (h : Crew n p)
    (heq : (p'.threads, p'.thread_count, p'.started, p'.shutdown, p'.destroy, p'.locked) =
      (p.threads, p.thread_count, p.started, p.shutdown, p.destroy, p.locked)) : Crew n p' := by
  simp only [Prod.mk.injEq] at heq
  obtain ⟨ht, hc, hs, hd, hx, hl⟩ := heq
  have he : p'.exited = p.exited := by simp only [exited, ht]
  refine ⟨?_, ?_, ?_, ?_, ?_, ?_, ?_, ?_⟩
  · rw [ht, h.threads]
  · rw [hc, h.thread_count]
  · rw [hs, he, h.started]
  · rw [hd, hx]
    exact h.idle
  · rw [ht, hx]
    exact h.joined
  · rw [hx, he]
    exact h.gone
  · rw [hx]
    exact h.notKept
  · rw [hx, hl]
    exact h.lock

/-- A worker that has not left goes from one place to another; `started` counts its exit. -/
theorem Crew.moved {n : Nat} {p : Pool F A} (h : Crew n p) {i : Nat} {w : Worker F A} (hi : p.threads[i]? = some w)
    (hw : w.isExited = false) (w' : Worker F A) :
    Crew n { p.moved i w' with started := p.started - if w'.isExited then 1 else 0 } := by
  have hexited : (p.moved i w').exited = p.exited + if w'.isExited then 1 else 0 := by
    have hmoved := exited_moved hi w'
    rw [hw] at hmoved
    simpa using hmoved
  have hnot : p.exited ≠ n := by
    intro hall
    rw [← h.threads] at hall
    rw [exited_eq_length.mp hall w (List.mem_of_getElem? hi)] at hw
    cases hw
  have hgone : ¬ (p.destroy = .freeing ∨ p.destroy = .freed) := fun hd => hnot (h.gone hd)
  refine ⟨?_, h.thread_count, ?_, h.idle, ?_, fun hd => absurd hd hgone, h.notKept, h.lock⟩
  · simpa [Pool.moved] using h.threads
  · show p.started - (if w'.isExited then 1 else 0) = n - ((p.moved i w').exited : Int)
    have hs := h.started
    rw [hexited]
    split
    · push_cast
      omega
    · push_cast
      omega
  · intro k hk
    obtain ⟨hle, hall⟩ := h.joined k hk
    refine ⟨hle, ?_⟩
    intro j hj
    have hne : i ≠ j := by
      rintro rfl
      have hx := hall i hj
      rw [hi] at hx
      obtain rfl := Option.some.inj hx
      cases hw
    show (p.threads.set i w')[j]? = _
    rw [List.getElem?_set_ne hne]
    exact hall j hj

theorem thread_crew {n : Nat} {p p' : Pool F A} {i : Nat} (h : Crew n p) (hs : p.threadpool_thread i = some p') :
    Crew n p' := by
  rcases thread_cases hs with ⟨hi, -, hcase⟩ | ⟨task, hi, rfl⟩
  · rcases hcase with ⟨-, -, rfl⟩ | ⟨-, rfl⟩ | ⟨-, -, ⟨task, -, rfl⟩ | ⟨-, rfl⟩⟩
    · exact (h.moved hi rfl .waiting).of_same (by simp [Worker.isExited, Pool.moved])
    · exact (h.moved hi rfl .exited).of_same (by simp [Worker.isExited, Pool.moved])
    · exact (h.moved hi rfl (.running task)).of_same (by simp [Worker.isExited, Pool.moved, Pool.dequeued])
    · exact h.of_same rfl
  · exact (h.moved hi rfl .ready).of_same (by simp [Worker.isExited, Pool.moved])

/-- The next worker is joined. -/
theorem Crew.join {n : Nat} {p : Pool F A} (h : Crew n p) {i : Nat} (hd : p.destroy = .joining i)
    (hlt : i < p.thread_count) (hx : p.threads[i]? = some .exited) : Crew n { p with destroy := .joining (i + 1) } := by
  obtain ⟨-, hall⟩ := h.joined i hd
  refine ⟨h.threads, h.thread_count, h.started, ?_, ?_, ?_, by simp, by simp⟩
  · have hidle := h.idle
    rw [hd] at hidle
    simpa using hidle
  · rintro k hk
    obtain rfl : i + 1 = k := by simpa using hk
    refine ⟨by rw [← h.thread_count]; exact hlt, ?_⟩
    intro j hj
    rcases Nat.lt_succ_iff_lt_or_eq.mp hj with hj | rfl
    · exact hall j hj
    · exact hx
  · intro hk
    simp at hk

/-- With every worker joined none has stayed. -/
theorem Crew.all_joined {n : Nat} {p : Pool F A} (h : Crew n p) {i : Nat} (hd : p.destroy = .joining i)
    (hge : p.thread_count ≤ i) : p.exited = n := by
  obtain ⟨-, hall⟩ := h.joined i hd
  have hcount := h.thread_count
  rw [← h.threads]
  apply exited_eq_length.mpr
  intro w hw
  obtain ⟨j, hj⟩ := List.getElem?_of_mem hw
  have hlt : j < p.threads.length := (List.getElem?_eq_some_iff.mp hj).1
  have hx := hall j (by have := h.threads; omega)
  rw [hj] at hx
  exact Option.some.inj hx

theorem step_crew {n : Nat} {p p' : Pool F A} {e : Ev F A} (h : Crew n p) (hs : p.step e = some p') : Crew n p' := by
  cases e with
  | add function argument wakes =>
    obtain ⟨⟨err, q⟩, hq, rfl⟩ := Option.map_eq_some_iff.mp hs
    rcases add_cases hq with ⟨-, rfl⟩ | ⟨f, -, -, -, -, -, ⟨-, rfl⟩ | ⟨hi, rfl⟩⟩
    · exact h
    · exact h.of_same rfl
    · have hadded : Crew n (p.enqueued ⟨f, argument⟩) := h.of_same rfl
      exact (hadded.moved hi rfl .ready).of_same (by simp [Worker.isExited, Pool.moved])
  | worker i => exact thread_crew h hs
  | spurious i =>
    obtain ⟨hi, rfl⟩ := spurious_cases hs
    exact (h.moved hi rfl .ready).of_same (by simp [Worker.isExited, Pool.moved])
  | destroy flags =>
    obtain ⟨⟨err, q⟩, hq, rfl⟩ := Option.map_eq_some_iff.mp hs
    rcases destroy_cases hq with ⟨hlock, ⟨-, rfl⟩ | ⟨hno, rfl⟩⟩
    · exact ⟨h.threads, h.thread_count, h.started, h.idle, h.joined, h.gone, h.notKept, fun _ => hlock.2⟩
    · have hexited := exited_wake p.threads
      refine ⟨?_, h.thread_count, ?_, ?_, ?_, ?_, by simp [told], by simp [told]⟩
      · simpa [told] using h.threads
      · show p.started = n - (((p.threads.map Worker.wake).countP Worker.isExited : Nat) : Int)
        rw [hexited]
        exact h.started
      · exact ⟨fun hs => absurd hs (told_shutdown p flags), fun hd => by simp [told] at hd⟩
      · intro i hi
        obtain rfl : 0 = i := by simpa [told] using hi
        exact ⟨Nat.zero_le _, fun j hj => absurd hj (Nat.not_lt_zero j)⟩
      · intro hd
        simp [told] at hd
  | join =>
    obtain ⟨i, hd, hlt, hx, rfl⟩ := join_cases hs
    exact h.join hd hlt hx
  | free =>
    rcases free_cases hs with ⟨i, hd, hge, hcase⟩ | ⟨hd, hl, rfl⟩
    · have hall := h.all_joined hd hge
      have hidle := h.idle
      rw [hd] at hidle
      rcases hcase with ⟨hpos, -⟩ | ⟨-, rfl⟩
      · have hs := h.started
        omega
      · exact ⟨h.threads, h.thread_count, h.started, by simpa using hidle, by simp, fun _ => hall, by simp, by simp⟩
    · have hidle := h.idle
      rw [hd] at hidle
      exact ⟨h.threads, h.thread_count, h.started, by simpa using hidle, by simp, fun _ => h.gone (Or.inl hd), by simp,
        fun ht => by simp [hl] at ht⟩

/-! ## What a pool that is freed has done -/

structure Inv (n size : Nat) (p : Pool F A) : Prop where
  tasks : Tasks size p
  sleep : Sleep p
  crew : Crew n p

theorem start_inv {n size : Nat} (h : 0 < size) : Inv n size (start n size : Pool F A) :=
  ⟨start_tasks h, start_sleep n size, start_crew n size⟩

theorem step_inv {n size : Nat} {p p' : Pool F A} {e : Ev F A} (h : Inv n size p) (hs : p.step e = some p') :
    Inv n size p' :=
  ⟨step_tasks h.tasks hs, step_sleep h.sleep hs, step_crew h.crew hs⟩

theorem Inv.run {n size : Nat} {p p' : Pool F A} {es : List (Ev F A)} (h : Inv n size p)
    (hr : Base.run step p es = some p') : Inv n size p' :=
  run_inv (fun _ _ _ hp hs => step_inv hp hs) h hr

theorem Inv.ended {n size : Nat} {p : Pool F A} (h : Inv n size p) (hn : 0 < n) (hd : p.destroy = .freed) :
    Ended p := by
  have hexited : p.exited = n := h.crew.gone (Or.inr hd)
  have hall : ∀ w ∈ p.threads, w = .exited := by
    rw [← h.crew.threads] at hexited
    exact exited_eq_length.mp hexited
  have hheld : p.held = [] := by
    simp only [held, List.filterMap_eq_nil_iff]
    intro w hw
    rw [hall w hw]
    rfl
  have hfin : p.finished.Perm p.taken := by
    have honce := h.tasks.once
    rw [hheld, List.append_nil] at honce
    exact honce.symm
  refine ⟨hd, hall, hfin, ?_⟩
  intro hs
  have hcount : p.count = 0 := by
    rcases h.sleep.left (by omega) with hx | ⟨-, h0⟩
    · rw [hs] at hx
      cases hx
    · exact h0
  obtain ⟨l, hl, hacc⟩ := h.tasks.stored
  have hnil : l = [] := by
    apply List.eq_nil_of_length_eq_zero
    rw [← hl.count_eq, hcount]
  rw [hacc, hnil, List.append_nil]
  exact hfin

/-! ## The steps that are left -/

def stage (n : Nat) : Destroy → Nat
  | .joining i => n + 2 - i
  | .freeing => 1
  | _ => 0

/-- A task in the queue has to be taken and run, and each worker to leave. -/
def work (p : Pool F A) : Nat := 2 * p.count + p.ready + 2 * p.held.length + stage p.thread_count p.destroy

structure Down (n size : Nat) (p : Pool F A) : Prop where
  inv : Inv n size p
  shutdown : p.shutdown ≠ .no
  unlocked : p.locked = false

/-- The pool's own steps neither add tasks nor touch the mode of the shutdown. -/
theorem own_same {p p' : Pool F A} {e : Ev F A} (ho : own e) (hs : p.step e = some p') :
    p'.shutdown = p.shutdown ∧ p'.locked = p.locked ∧ p'.accepted = p.accepted := by
  cases e with
  | add function argument wakes => exact ho.elim
  | destroy flags => exact ho.elim
  | worker i =>
    rcases thread_cases hs with ⟨-, -, ⟨-, -, rfl⟩ | ⟨-, rfl⟩ | ⟨-, -, ⟨task, -, rfl⟩ | ⟨-, rfl⟩⟩⟩ | ⟨task, -, rfl⟩
    · exact ⟨rfl, rfl, rfl⟩
    · exact ⟨rfl, rfl, rfl⟩
    · exact ⟨rfl, rfl, rfl⟩
    · exact ⟨rfl, rfl, rfl⟩
    · exact ⟨rfl, rfl, rfl⟩
  | spurious i =>
    obtain ⟨-, rfl⟩ := spurious_cases hs
    exact ⟨rfl, rfl, rfl⟩
  | join =>
    obtain ⟨i, -, -, -, rfl⟩ := join_cases hs
    exact ⟨rfl, rfl, rfl⟩
  | free =>
    rcases free_cases hs with ⟨i, -, -, ⟨-, rfl⟩ | ⟨-, rfl⟩⟩ | ⟨-, -, rfl⟩
    · exact ⟨rfl, rfl, rfl⟩
    · exact ⟨rfl, rfl, rfl⟩
    · exact ⟨rfl, rfl, rfl⟩

theorem Down.own_step {n size : Nat} {p p' : Pool F A} {e : Ev F A} (h : Down n size p) (ho : own e)
    (hs : p.step e = some p') : Down n size p' := by
  obtain ⟨hshut, hlock, -⟩ := own_same ho hs
  exact ⟨step_inv h.inv hs, by rw [hshut]; exact h.shutdown, by rw [hlock, h.unlocked]⟩

theorem worker_less {n size : Nat} {p p' : Pool F A} {i : Nat} (h : Down n size p)
    (hs : p.threadpool_thread i = some p') : work p' < work p := by
  rcases thread_cases hs with ⟨hi, -, hcase⟩ | ⟨task, hi, rfl⟩
  · rcases hcase with ⟨-, hno, -⟩ | ⟨-, rfl⟩ | ⟨hcount, -, hgrab⟩
    · exact absurd hno h.shutdown
    · have hready : (p.moved i .exited).ready + 1 = p.ready := ready_moved hi .exited
      have hheld : (p.moved i .exited).held.length = p.held.length := (held_moved hi rfl rfl).length_eq
      show 2 * p.count + (p.moved i .exited).ready + 2 * (p.moved i .exited).held.length +
        stage p.thread_count p.destroy < work p
      simp only [work]
      omega
    · obtain ⟨task, l, -, -, hslot⟩ := h.inv.tasks.front hcount
      rcases hgrab with ⟨task', -, rfl⟩ | ⟨hnone, -⟩
      · have hready : (p.dequeued i task').ready + 1 = p.ready := ready_moved hi (.running task')
        have hheld : (p.dequeued i task').held.length = p.held.length + 1 := by
          have hset : (p.dequeued i task').held.Perm (task' :: p.held) := held_set hi (.running task')
          simpa using hset.length_eq
        show 2 * (p.count - 1) + (p.dequeued i task').ready + 2 * (p.dequeued i task').held.length +
          stage p.thread_count p.destroy < work p
        simp only [work]
        omega
      · exact absurd hslot (hnone task)
  · have hready : (p.moved i .ready).ready = p.ready + 1 := ready_moved hi .ready
    have hheld : (p.moved i .ready).held.length + 1 = p.held.length := by
      simpa [Worker.task?] using (held_set hi .ready).length_eq
    show 2 * p.count + (p.moved i .ready).ready + 2 * (p.moved i .ready).held.length +
      stage p.thread_count p.destroy < work p
    simp only [work]
    omega

theorem own_less {n size : Nat} {p p' : Pool F A} {e : Ev F A} (h : Down n size p) (ho : own e)
    (hs : p.step e = some p') : work p' < work p := by
  cases e with
  | add function argument wakes => exact ho.elim
  | destroy flags => exact ho.elim
  | worker i => exact worker_less h hs
  | spurious i =>
    obtain ⟨hi, -⟩ := spurious_cases hs
    have hpos : 0 < p.waiting := Cells.countP_pos_of_getElem? hi rfl
    have hzero := h.inv.sleep.down h.shutdown
    omega
  | join =>
    obtain ⟨i, hd, hlt, -, rfl⟩ := join_cases hs
    show 2 * p.count + p.ready + 2 * p.held.length + stage p.thread_count (.joining (i + 1)) < work p
    simp only [work, hd, stage]
    omega
  | free =>
    rcases free_cases hs with ⟨i, hd, hge, hcase⟩ | ⟨hd, -, rfl⟩
    · have hle := (h.inv.crew.joined i hd).1
      have hcount := h.inv.crew.thread_count
      have hstarted := h.inv.crew.started
      have hall := h.inv.crew.all_joined hd hge
      rcases hcase with ⟨hpos, -⟩ | ⟨-, rfl⟩
      · omega
      · show 2 * p.count + p.ready + 2 * p.held.length + stage p.thread_count .freeing < work p
        simp only [work, hd, stage]
        omega
    · show 2 * p.count + p.ready + 2 * p.held.length + stage p.thread_count .freed < work p
      simp only [work, hd, stage]
      omega

/-- Until the pool is freed somebody can go on: a worker, or the call that joins them. -/
theorem Down.moves {n size : Nat} {p : Pool F A} (h : Down n size p) (hd : p.destroy ≠ .freed) :
    ∃ e p', own e ∧ p.step e = some p' := by
  have hlock : p.Lockable := ⟨h.unlocked, hd⟩
  cases hstage : p.destroy with
  | idle => exact absurd (h.inv.crew.idle.mpr hstage) h.shutdown
  | freed => exact absurd hstage hd
  | kept => exact absurd hstage h.inv.crew.notKept
  | freeing => exact ⟨.free, { p with destroy := .freed }, trivial, by simp [step, threadpool_free, hstage, h.unlocked]⟩
  | joining i =>
    by_cases hlt : i < p.thread_count
    · have hlen : i < p.threads.length := by
        rw [h.inv.crew.threads, ← h.inv.crew.thread_count]
        exact hlt
      have hi : p.threads[i]? = some p.threads[i] := List.getElem?_eq_getElem hlen
      cases hw : p.threads[i] with
      | exited =>
        rw [hw] at hi
        exact ⟨.join, { p with destroy := .joining (i + 1) }, trivial, by simp [step, pthread_join, hstage, hlt, hi]⟩
      | waiting =>
        rw [hw] at hi
        have hpos : 0 < p.waiting := Cells.countP_pos_of_getElem? hi rfl
        have hzero := h.inv.sleep.down h.shutdown
        omega
      | running task =>
        rw [hw] at hi
        exact ⟨.worker i, { p.moved i .ready with finished := p.finished ++ [task] }, trivial, by
          simp only [step, threadpool_thread, hi]
          rfl⟩
      | ready =>
        rw [hw] at hi
        refine ⟨.worker i, ?_⟩
        by_cases hx : p.shutdown = .immediate_shutdown ∨ p.shutdown = .graceful_shutdown ∧ p.count = 0
        · exact ⟨{ p.moved i .exited with started := p.started - 1 }, trivial, by
            simp only [step, threadpool_thread, hi, hlock, h.shutdown, hx, and_false, if_true, if_false]
            rfl⟩
        · have hcount : p.count ≠ 0 := by
            intro h0
            apply hx
            cases hs : p.shutdown with
            | no => exact absurd hs h.shutdown
            | immediate_shutdown => exact Or.inl rfl
            | graceful_shutdown => exact Or.inr ⟨rfl, h0⟩
          obtain ⟨task, hstep⟩ := h.inv.tasks.takes hlock hcount (fun hs => hx (Or.inl hs)) hi
          exact ⟨p.dequeued i task, trivial, hstep⟩
    · by_cases hs : 0 < p.started
      · exact ⟨.free, { p with destroy := .kept }, trivial, by simp [step, threadpool_free, hstage, hlt, hs]⟩
      · exact ⟨.free, { p with destroy := .freeing }, trivial, by simp [step, threadpool_free, hstage, hlt, hs]⟩

theorem drains (n size : Nat) :
    Drains (step : Pool F A → Ev F A → Option (Pool F A)) own (Down n size) (fun p => p.destroy = .freed) work where
  good _ _ _ h ho hs := h.own_step ho hs
  less _ _ _ h ho hs := own_less h ho hs
  moves _ h hd := h.moves hd

/-! ## After a call of `threadpool_destroy` -/

/-- Nothing is added once the pool shuts down. -/
theorem step_down {p p' : Pool F A} {e : Ev F A} (hdown : p.shutdown ≠ .no) (hs : p.step e = some p') :
    p'.shutdown ≠ .no ∧ p'.accepted = p.accepted := by
  cases e with
  | add function argument wakes =>
    obtain ⟨⟨err, q⟩, hq, rfl⟩ := Option.map_eq_some_iff.mp hs
    rcases add_cases hq with ⟨-, rfl⟩ | ⟨f, -, -, -, -, hno, -⟩
    · exact ⟨hdown, rfl⟩
    · exact absurd hno hdown
  | destroy flags =>
    obtain ⟨⟨err, q⟩, hq, rfl⟩ := Option.map_eq_some_iff.mp hs
    rcases destroy_cases hq with ⟨-, ⟨-, rfl⟩ | ⟨hno, -⟩⟩
    · exact ⟨hdown, rfl⟩
    · exact absurd hno hdown
  | worker i =>
    obtain ⟨hshut, -, hacc⟩ := own_same (e := .worker i) trivial hs
    exact ⟨by rw [hshut]; exact hdown, hacc⟩
  | spurious i =>
    obtain ⟨hshut, -, hacc⟩ := own_same (e := .spurious i) trivial hs
    exact ⟨by rw [hshut]; exact hdown, hacc⟩
  | join =>
    obtain ⟨hshut, -, hacc⟩ := own_same (e := .join) trivial hs
    exact ⟨by rw [hshut]; exact hdown, hacc⟩
  | free =>
    obtain ⟨hshut, -, hacc⟩ := own_same (e := .free) trivial hs
    exact ⟨by rw [hshut]; exact hdown, hacc⟩

theorem run_down {p q : Pool F A} {es : List (Ev F A)} (hdown : p.shutdown ≠ .no) (hr : run step p es = some q) :
    q.accepted = p.accepted :=
  (run_inv (I := fun q : Pool F A => q.shutdown ≠ .no ∧ q.accepted = p.accepted)
    (fun s e s' hs he => by
      obtain ⟨hshut, hacc⟩ := step_down hs.1 he
      exact ⟨hshut, hacc.trans hs.2⟩)
    ⟨hdown, rfl⟩ hr).2

/-- From any state in which the pool shuts down and its lock is free: no task is added any
    more, the pool's own steps come to an end, and where they do the pool is freed, its
    workers are gone, the tasks taken are finished and, after a graceful shutdown, these
    are all that were ever added. -/
theorem shutdown_completes {n size : Nat} (hn : 0 < n) (hsize : 0 < size) {es : List (Ev F A)} {p : Pool F A}
    (hp : run step (start n size) es = some p) (hdown : p.shutdown ≠ .no) (hlock : p.locked = false) :
    (∀ fs q, run step p fs = some q → q.accepted = p.accepted) ∧
      (∀ fs q, (∀ e ∈ fs, own e) → run step p fs = some q →
        fs.length ≤ work p ∧ ((∀ e, own e → q.step e = none) → Ended q)) ∧
      ∃ fs q, (∀ e ∈ fs, own e) ∧ run step p fs = some q ∧ Ended q := by
  have hgood : Down n size p := ⟨(start_inv hsize).run hp, hdown, hlock⟩
  refine ⟨fun fs q hr => run_down hdown hr, ?_, ?_⟩
  · intro fs q hown hr
    have hle := (drains n size).length_le hgood hown hr
    refine ⟨by omega, ?_⟩
    intro hstuck
    exact (hgood.inv.run hr).ended hn ((drains n size).final_of_stuck hgood hown hr hstuck)
  · obtain ⟨fs, q, hown, hr, hq, hfreed⟩ := (drains n size).exists_run hgood
    exact ⟨fs, q, hown, hr, hq.inv.ended hn hfreed⟩

def underWay : List (Ev Nat Nat) :=
  [.add (some 1) 0 0, .add (some 2) 0 0, .worker 0, .add (some 3) 0 0, .destroy 1]

def comingDown : Pool Nat Nat := ((run step (start 2 2) underWay).getD (start 2 2))

theorem three_tasks_complete :
    (∀ fs q, run step comingDown fs = some q → q.accepted = comingDown.accepted) ∧
      (∀ fs q, (∀ e ∈ fs, own e) → run step comingDown fs = some q →
        fs.length ≤ work comingDown ∧ ((∀ e, own e → q.step e = none) → Ended q)) ∧
      ∃ fs q, (∀ e ∈ fs, own e) ∧ run step comingDown fs = some q ∧ Ended q :=
  @shutdown_completes Nat Nat 2 2 (by decide) (by decide) underWay comingDown (by rfl) (by decide) (by decide)

end GroupeChat.ThreadPool.Pool
