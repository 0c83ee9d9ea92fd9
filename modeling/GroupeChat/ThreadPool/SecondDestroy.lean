/-
  GroupeChat.ThreadPool.SecondDestroy — what a second call of `threadpool_destroy` costs.

  The call finds the pool shutting down, leaves its loop and returns an error, but the
  lock it took on the way in stays taken. `freed_iff` says when a pool can still be freed:
  exactly as long as no more than one call was made. After a second one no task leaves the
  queue any more, and the first call never returns.
-/

import GroupeChat.ThreadPool.Shutdown

namespace GroupeChat.ThreadPool.Pool

open Base

variable {F A : Type}

def Ev.isDestroy : Ev F A → Bool
  | .destroy _ => true
  | _ => false

def destroys (es : List (Ev F A)) : Nat := es.countP Ev.isDestroy

/-- How many calls a pool has seen: the first sets `shutdown`, the second keeps the lock. -/
def calls (p : Pool F A) : Nat := if p.locked then 2 else if p.shutdown = .no then 0 else 1

theorem calls_of_own {p p' : Pool F A} {e : Ev F A} (ho : own e) (hs : p.step e = some p') : p'.calls = p.calls := by
  obtain ⟨hshut, hlock, -⟩ := own_same ho hs
  simp only [calls, hshut, hlock]

theorem step_calls {p p' : Pool F A} {e : Ev F A} (hs : p.step e = some p') :
    p'.calls = p.calls + if e.isDestroy then 1 else 0 := by
  cases e with
  | add function argument wakes =>
    obtain ⟨⟨err, q⟩, hq, rfl⟩ := Option.map_eq_some_iff.mp hs
    rcases add_cases hq with ⟨-, rfl⟩ | ⟨f, -, -, -, -, -, ⟨-, rfl⟩ | ⟨-, rfl⟩⟩
    · rfl
    · rfl
    · rfl
  | destroy flags =>
    obtain ⟨⟨err, q⟩, hq, rfl⟩ := Option.map_eq_some_iff.mp hs
    rcases destroy_cases hq with ⟨⟨hlock, -⟩, ⟨hdown, rfl⟩ | ⟨hno, rfl⟩⟩
    · simp [calls, hlock, hdown, Ev.isDestroy]
    · have hdown := told_shutdown p flags
      have hunlocked : (p.told flags).locked = false := hlock
      simp [calls, hlock, hunlocked, hno, hdown, Ev.isDestroy]
  | worker i => exact calls_of_own (e := .worker i) trivial hs
  | spurious i => exact calls_of_own (e := .spurious i) trivial hs
  | join => exact calls_of_own (e := .join) trivial hs
  | free => exact calls_of_own (e := .free) trivial hs

theorem run_calls {es : List (Ev F A)} : ∀ {p q : Pool F A}, run step p es = some q →
    q.calls = p.calls + destroys es := by
  induction es with
  | nil =>
    intro p q hr
    cases hr
    rfl
  | cons e es ih =>
    intro p q hr
    obtain ⟨s, hs, hr⟩ := Option.bind_eq_some_iff.mp hr
    rw [ih hr, step_calls hs]
    simp only [destroys, List.countP_cons]
    omega

/-- With the lock kept, what needs it does not happen. -/
theorem step_locked {p p' : Pool F A} {e : Ev F A} (hlock : p.locked = true) (hfreed : p.destroy ≠ .freed)
    (hs : p.step e = some p') : p'.locked = true ∧ p'.destroy ≠ .freed ∧ p'.taken = p.taken := by
  have hnot : ¬ p.Lockable := fun h => by
    have hl := h.1
    rw [hlock] at hl
    cases hl
  cases e with
  | add function argument wakes =>
    obtain ⟨⟨err, q⟩, hq, rfl⟩ := Option.map_eq_some_iff.mp hs
    rcases add_cases hq with ⟨-, rfl⟩ | ⟨f, -, -, hl, -⟩
    · exact ⟨hlock, hfreed, rfl⟩
    · exact absurd hl hnot
  | destroy flags =>
    obtain ⟨⟨err, q⟩, hq, rfl⟩ := Option.map_eq_some_iff.mp hs
    exact absurd (destroy_cases hq).1 hnot
  | worker i =>
    rcases thread_cases hs with ⟨-, hl, -⟩ | ⟨task, -, rfl⟩
    · exact absurd hl hnot
    · exact ⟨hlock, hfreed, rfl⟩
  | spurious i =>
    obtain ⟨-, rfl⟩ := spurious_cases hs
    exact ⟨hlock, hfreed, rfl⟩
  | join =>
    obtain ⟨i, -, -, -, rfl⟩ := join_cases hs
    exact ⟨hlock, by simp, rfl⟩
  | free =>
    rcases free_cases hs with ⟨i, -, -, ⟨-, rfl⟩ | ⟨-, rfl⟩⟩ | ⟨-, hl, -⟩
    · exact ⟨hlock, by simp, rfl⟩
    · exact ⟨hlock, by simp, rfl⟩
    · rw [hlock] at hl
      cases hl

theorem run_locked {p q : Pool F A} {es : List (Ev F A)} (hlock : p.locked = true) (hfreed : p.destroy ≠ .freed)
    (hr : run step p es = some q) : q.destroy ≠ .freed ∧ q.taken = p.taken :=
  (run_inv (I := fun q : Pool F A => q.locked = true ∧ q.destroy ≠ .freed ∧ q.taken = p.taken)
    (fun s e s' hs he => by
      obtain ⟨hl, hf, ht⟩ := step_locked hs.1 hs.2.1 he
      exact ⟨hl, hf, ht.trans hs.2.2⟩)
    ⟨hlock, hfreed, rfl⟩ hr).2

/-- A pool whose lock was never kept can be brought down. -/
theorem exists_freed {n size : Nat} {p : Pool F A} (h : Inv n size p) (hlock : p.locked = false) :
    ∃ fs q, run step p fs = some q ∧ q.destroy = .freed := by
  by_cases hno : p.shutdown = .no
  · have hidle : p.destroy = .idle := h.crew.idle.mp hno
    have hlockable : p.Lockable := ⟨hlock, by simp [hidle]⟩
    have hs : p.step (.destroy 0) = some (p.told 0) := step_destroy hlockable hno 0
    obtain ⟨fs, q, -, hr, -, hfreed⟩ := (drains n size).exists_run ⟨step_inv h hs, told_shutdown p 0, hlock⟩
    exact ⟨.destroy 0 :: fs, q, by rw [run_cons hs, hr], hfreed⟩
  · obtain ⟨fs, q, -, hr, -, hfreed⟩ := (drains n size).exists_run ⟨h, hno, hlock⟩
    exact ⟨fs, q, hr, hfreed⟩

/-- After any run, the pool can still be freed exactly if `threadpool_destroy` was not
    called more than once in it; if it was, no task is taken any more either. -/
theorem freed_iff {n size : Nat} (hsize : 0 < size) {es : List (Ev F A)} {p : Pool F A}
    (hp : run step (start n size) es = some p) :
    ((∃ fs q, run step p fs = some q ∧ q.destroy = .freed) ↔ destroys es ≤ 1) ∧
      (1 < destroys es → ∀ fs q, run step p fs = some q → q.taken = p.taken) := by
  have hinv : Inv n size p := (start_inv hsize).run hp
  have hcalls : p.calls = destroys es := by
    rw [run_calls hp]
    simp [calls, start]
  cases hlock : p.locked with
  | false =>
    have hle : destroys es ≤ 1 := by
      rw [← hcalls]
      simp only [calls, hlock, Bool.false_eq_true, if_false]
      split
      · exact Nat.zero_le _
      · exact Nat.le_refl _
    exact ⟨⟨fun _ => hle, fun _ => exists_freed hinv hlock⟩, fun hlt => absurd hle (Nat.not_le_of_lt hlt)⟩
  | true =>
    have htwo : destroys es = 2 := by
      rw [← hcalls]
      simp [calls, hlock]
    have hfreed : p.destroy ≠ .freed := hinv.crew.lock hlock
    refine ⟨⟨?_, fun hle => absurd hle (by omega)⟩, fun _ fs q hr => (run_locked hlock hfreed hr).2⟩
    rintro ⟨fs, q, hr, hq⟩
    exact absurd hq (run_locked hlock hfreed hr).1

def twice : List (Ev Nat Nat) := [.add (some 1) 0 0, .add (some 2) 0 0, .worker 0, .destroy 1, .destroy 1]

def destroyedTwice : Pool Nat Nat := (run step (start 1 2) twice).getD (start 1 2)

theorem one_task_is_stuck :
    ((∃ fs q, run step destroyedTwice fs = some q ∧ q.destroy = .freed) ↔ destroys twice ≤ 1) ∧
      (1 < destroys twice → ∀ fs q, run step destroyedTwice fs = some q → q.taken = destroyedTwice.taken) :=
  @freed_iff Nat Nat 1 2 (by decide) twice destroyedTwice (by rfl)

end GroupeChat.ThreadPool.Pool
