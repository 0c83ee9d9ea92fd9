/-
  GroupeChat.Base.Fifo — a queue read from the front in pieces, with what has left it.

  `out` is everything taken so far, `held` what is still queued. Whatever the pushes and
  takes, `all`, the two in a row, is what was pushed, in order (`all_push`, `all_take`).
  `bounded` is the queue of one element at a time that never holds more than `size`.
-/

import GroupeChat.Base.Run
import Mathlib.Data.List.Basic

namespace GroupeChat.Base

structure Fifo (α : Type) where
  out : List α
  held : List α
  deriving DecidableEq

namespace Fifo

variable {α : Type}

def push (q : Fifo α) (l : List α) : Fifo α := { q with held := q.held ++ l }

def take (q : Fifo α) (k : Nat) : Fifo α := ⟨q.out ++ q.held.take k, q.held.drop k⟩

def all (q : Fifo α) : List α := q.out ++ q.held

@[simp] theorem all_push (q : Fifo α) (l : List α) : (q.push l).all = q.all ++ l := by simp [push, all]

@[simp] theorem all_take (q : Fifo α) (k : Nat) : (q.take k).all = q.all := by simp [take, all]

/-- Once the same things have left two queues, only what they hold can differ. -/
theorem all_inj {q r : Fifo α} (h : q.out = r.out) : q.all = r.all ↔ q = r := by
  obtain ⟨qo, qh⟩ := q
  obtain ⟨ro, rh⟩ := r
  subst h
  simp [all]

inductive Op (α : Type) where
  | push (x : α)
  | pop

/-- A push waits for room, a pop for an element. -/
def bounded (size : Nat) (q : Fifo α) : Op α → Option (Fifo α)
  | .push x => if q.held.length < size then some (q.push [x]) else none
  | .pop => if 0 < q.held.length then some (q.take 1) else none

theorem bounded_push {size : Nat} {q : Fifo α} (x : α) (h : q.held.length < size) :
    run (bounded size) q [.push x] = some (q.push [x]) := by
  simp [run, bounded, h]

theorem bounded_pop {size : Nat} {q : Fifo α} (h : 0 < q.held.length) :
    run (bounded size) q [.pop] = some (q.take 1) := by
  simp [run, bounded, h]

end Fifo

end GroupeChat.Base
