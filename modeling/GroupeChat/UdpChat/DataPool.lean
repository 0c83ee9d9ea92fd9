/-
  GroupeChat.UdpChat.DataPool — the message queue of the UDP chat server (`DataPool`).

  A ring of `_capacity` slots between two semaphores. One thread puts, one gets; each
  call is a wait, the use of a slot, two stores to its step (advanced, then taken modulo
  the capacity), a post. `Threads` is the ring with both threads' places in their calls,
  and every interleaving of the statements is a run.

  Built with a size, it is a first-in-first-out queue that holds at most that many
  messages, and each of its two threads only uses slots that the other is done with
  (`refines_fifo`). The invariant ties the two semaphores, the two steps and the two
  places to what has been written and read so far (`Inv`).
-/

import GroupeChat.Base.Fifo
import GroupeChat.Base.LittleEndian

namespace GroupeChat.UdpChat

open Base

/-- What a `std::string` holds. -/
abbrev Text : Type := List UInt8

structure DataPool where
  pool : List Text
  capacity : Int
  consumeStep : Int
  productStep : Int
  blankSem : Nat
  dataSem : Nat

namespace DataPool

def sized (size : Int) : DataPool := ⟨List.replicate size.toNat [], size, 0, 0, size.toNat, 0⟩

/-- `DataPool()`: an empty vector, and `junk` in the other fields. -/
def unsized (junk : DataPool) : DataPool := { junk with pool := [] }

def Inside (p : DataPool) (step : Int) : Prop := 0 ≤ step ∧ step < p.pool.length

instance (p : DataPool) (step : Int) : Decidable (p.Inside step) := inferInstanceAs (Decidable (_ ∧ _))

end DataPool

inductive Place where
  | out
  /-- At its `sem_wait`. -/
  | called
  /-- Past it. -/
  | entered
  /-- The slot written or read. -/
  | copied
  /-- The step incremented. -/
  | advanced
  /-- The step taken modulo the capacity. -/
  | wrapped
  deriving DecidableEq

structure Threads where
  dataPool : DataPool
  producer : Place
  /-- The argument of the `putMessage` under way. -/
  putMessage : Text
  consumer : Place
  inMessage : Text
  /-- A slot outside the vector, or a remainder by 0. -/
  fault : Bool
  /-- What `putMessage` was called with so far. -/
  received : List Text
  /-- What it has stored. -/
  written : List Text
  /-- Where. -/
  slots : List Int
  /-- What `getMessage` has copied out. -/
  read : List Text
  /-- What it has returned. -/
  returned : List Text

namespace Threads

inductive Ev where
  | put (message : Text)
  /-- The next statement of `putMessage`. -/
  | produce
  | get
  /-- The next statement of `getMessage`. -/
  | consume

def init (p : DataPool) : Threads := ⟨p, .out, [], .out, [], false, [], [], [], [], []⟩

def produce (s : Threads) : Option Threads :=
  let p := s.dataPool
  match s.producer with
  | .out => none
  | .called =>
    if 0 < p.blankSem then some { s with dataPool := { p with blankSem := p.blankSem - 1 }, producer := .entered }
    else none
  | .entered =>
    if p.Inside p.productStep then some { s with
      dataPool := { p with pool := p.pool.set p.productStep.toNat s.putMessage }
      producer := .copied
      written := s.written ++ [s.putMessage]
      slots := s.slots ++ [p.productStep] }
    else some { s with fault := true }
  | .copied => some { s with dataPool := { p with productStep := wrap 4 (p.productStep + 1) }, producer := .advanced }
  | .advanced =>
    if p.capacity = 0 then some { s with fault := true }
    else some { s with dataPool := { p with productStep := p.productStep.tmod p.capacity }, producer := .wrapped }
  | .wrapped => some { s with dataPool := { p with dataSem := p.dataSem + 1 }, producer := .out }

def consume (s : Threads) : Option Threads :=
  let p := s.dataPool
  match s.consumer with
  | .out => none
  | .called =>
    if 0 < p.dataSem then some { s with dataPool := { p with dataSem := p.dataSem - 1 }, consumer := .entered }
    else none
  | .entered =>
    if p.Inside p.consumeStep then
      let message := p.pool.getD p.consumeStep.toNat []
      some { s with consumer := .copied, inMessage := message, read := s.read ++ [message] }
    else some { s with fault := true }
  | .copied => some { s with dataPool := { p with consumeStep := wrap 4 (p.consumeStep + 1) }, consumer := .advanced }
  | .advanced =>
    if p.capacity = 0 then some { s with fault := true }
    else some { s with dataPool := { p with consumeStep := p.consumeStep.tmod p.capacity }, consumer := .wrapped }
  | .wrapped => some { s with
      dataPool := { p with blankSem := p.blankSem + 1 }
      consumer := .out
      returned := s.returned ++ [s.inMessage] }

def next (s : Threads) : Ev → Option Threads
  | .put message =>
    if s.producer = .out then some { s with
      producer := .called
      putMessage := message
      received := s.received ++ [message] }
    else none
  | .produce => s.produce
  | .get => if s.consumer = .out then some { s with consumer := .called } else none
  | .consume => s.consume

def step (s : Threads) (e : Ev) : Option Threads := if s.fault then none else s.next e

/-- Messages are read in the order they were written, at most `size` of them are unread. -/
structure Bounded (size : Nat) (s : Threads) : Prop where
  fault : s.fault = false
  inOrder : s.read <+: s.written
  unread : s.written.length ≤ s.read.length + size

/-- A slot is written only when no unread message is in it, and read only when the next
    unread one is. -/
def Clear (s : Threads) : Ev → Prop
  | .produce => s.producer = .entered → ∀ k < s.written.length, s.read.length ≤ k →
      s.slots[k]? ≠ some s.dataPool.productStep
  | .consume => s.consumer = .entered → s.read.length < s.written.length ∧
      s.slots[s.read.length]? = some s.dataPool.consumeStep
  | _ => True

def view (s : Threads) : Fifo Text := ⟨s.read, s.written.drop s.read.length⟩

/-! ## The invariant -/

def entering (p : Place) : Nat := if p = .entered then 1 else 0

def leaving (p : Place) : Nat := if p = .copied ∨ p = .advanced ∨ p = .wrapped then 1 else 0

def stepAt (n k : Nat) : Place → Int
  | .copied => ((k - 1) % n : Nat)
  | .advanced => ((k - 1) % n + 1 : Nat)
  | _ => (k % n : Nat)

structure At (n k : Nat) (place : Place) (step : Int) : Prop where
  step : step = stepAt n k place
  used : leaving place = 1 → 0 < k

structure Inv (n : Nat) (s : Threads) : Prop where
  fault : s.fault = false
  size : s.dataPool.pool.length = n
  capacity : s.dataPool.capacity = n
  producer : At n s.written.length s.producer s.dataPool.productStep
  consumer : At n s.read.length s.consumer s.dataPool.consumeStep
  /-- An unread message has its token in `_dataSem`, or a thread holds it. -/
  data : s.read.length + s.dataPool.dataSem + entering s.consumer + leaving s.producer = s.written.length
  /-- So has a free slot in `_blankSem`. -/
  blank : s.written.length + s.dataPool.blankSem + entering s.producer + leaving s.consumer = s.read.length + n
  /-- The unread messages are in their slots. -/
  stored : ∀ k < s.written.length, s.read.length ≤ k → s.dataPool.pool[k % n]? = s.written[k]?
  inOrder : s.read <+: s.written
  slots : s.slots = (List.range s.written.length).map fun k => ((k % n : Nat) : Int)

theorem Inv.bounded {n : Nat} {s : Threads} (hi : Inv n s) : Bounded n s := by
  refine ⟨hi.fault, hi.inOrder, ?_⟩
  have := hi.blank
  omega

/-- Within one round of the ring, different messages have different slots. -/
theorem slot_ne {n k w : Nat} (h : k < w) (h' : w < k + n) : k % n ≠ w % n := by
  intro heq
  have hsub : (w - k) % n = 0 := Nat.sub_mod_eq_zero_of_mod_eq heq.symm
  rw [Nat.mod_eq_of_lt (by omega)] at hsub
  omega

theorem getElem?_slots {n w k : Nat} (h : k < w) :
    ((List.range w).map fun k => ((k % n : Nat) : Int))[k]? = some ((k % n : Nat) : Int) := by
  simp [h]

theorem At.idle {n k : Nat} {place : Place} {step : Int} (hp : place = .out ∨ place = .called ∨ place = .entered)
    (h : step = (k % n : Nat)) : At n k place step := by
  rcases hp with rfl | rfl | rfl
  · exact ⟨h, by simp [leaving]⟩
  · exact ⟨h, by simp [leaving]⟩
  · exact ⟨h, by simp [leaving]⟩

theorem At.advance {n k : Nat} {step : Int} (h : At n k .copied step) (hn : 0 < n) (hlt : n < 2147483648) :
    At n k .advanced (wrap 4 (step + 1)) := by
  refine ⟨?_, fun _ => h.used rfl⟩
  have hmod := Nat.mod_lt (k - 1) hn
  rw [h.step]
  simp only [stepAt]
  rw [wrap_four (by omega) (by omega)]
  rfl

theorem At.wrap {n k : Nat} {step : Int} (h : At n k .advanced step) : At n k .wrapped (step.tmod n) := by
  refine ⟨?_, fun _ => h.used rfl⟩
  have hk := h.used rfl
  rw [h.step]
  simp only [stepAt]
  rw [← Int.ofNat_tmod, Nat.mod_add_mod, Nat.sub_add_cancel hk]

theorem init_inv {size : Int} (h : 0 < size) : Inv size.toNat (init (.sized size)) where
  fault := rfl
  size := by simp [init, DataPool.sized]
  capacity := by simp only [init, DataPool.sized]; omega
  producer := .idle (by simp [init]) (by simp [init, DataPool.sized])
  consumer := .idle (by simp [init]) (by simp [init, DataPool.sized])
  data := by simp [init, DataPool.sized, entering, leaving]
  blank := by simp [init, DataPool.sized, entering, leaving]
  stored k hk := by simp [init] at hk
  inOrder := List.prefix_refl []
  slots := rfl

/-! ## The steps -/

/-- A message is put where no unread one is. -/
theorem Inv.room {n : Nat} {s : Threads} (hi : Inv n s) (hp : s.producer = .entered) :
    s.written.length < s.read.length + n ∧ s.dataPool.productStep = (s.written.length % n : Nat) := by
  have hblank := hi.blank
  have hstep := hi.producer.step
  rw [hp] at hblank hstep
  refine ⟨?_, hstep⟩
  simp only [entering, if_true] at hblank
  omega

/-- A message is read out of the slot of the first unread one. -/
theorem Inv.ready {n : Nat} {s : Threads} (hi : Inv n s) (hc : s.consumer = .entered) :
    s.read.length < s.written.length ∧ s.dataPool.consumeStep = (s.read.length % n : Nat) := by
  have hdata := hi.data
  have hstep := hi.consumer.step
  rw [hc] at hdata hstep
  refine ⟨?_, hstep⟩
  simp only [entering, if_true] at hdata
  omega

/-- What it finds there is that message. -/
theorem Inv.front {n : Nat} {s : Threads} (hi : Inv n s) (hc : s.consumer = .entered) :
    s.written.drop s.read.length =
      s.dataPool.pool.getD s.dataPool.consumeStep.toNat [] :: s.written.drop (s.read.length + 1) := by
  obtain ⟨hlt, hstep⟩ := hi.ready hc
  rw [List.drop_eq_getElem_cons hlt, List.getD_eq_getElem?_getD, hstep, Int.toNat_natCast,
    hi.stored _ hlt (Nat.le_refl _), List.getElem?_eq_getElem hlt]
  rfl

theorem inv_clear {n : Nat} {s : Threads} (hi : Inv n s) (e : Ev) : Clear s e := by
  cases e with
  | produce =>
    intro hp k hk hle heq
    obtain ⟨hroom, hstep⟩ := hi.room hp
    rw [hi.slots, getElem?_slots hk, hstep] at heq
    have := slot_ne (n := n) hk (by omega)
    simp only [Option.some.injEq, Int.ofNat_inj] at heq
    exact this heq
  | consume =>
    intro hc
    obtain ⟨hlt, hstep⟩ := hi.ready hc
    refine ⟨hlt, ?_⟩
    rw [hi.slots, getElem?_slots hlt, hstep]
  | put message => trivial
  | get => trivial

/-- What a statement of `putMessage` does. -/
theorem produce_cases {s s' : Threads} (h : s.produce = some s') :
    (s.producer = .called ∧ 0 < s.dataPool.blankSem ∧
      s' = { s with dataPool := { s.dataPool with blankSem := s.dataPool.blankSem - 1 }, producer := .entered }) ∨
    (s.producer = .entered ∧ s.dataPool.Inside s.dataPool.productStep ∧
      s' = { s with
        dataPool := { s.dataPool with pool := s.dataPool.pool.set s.dataPool.productStep.toNat s.putMessage }
        producer := .copied
        written := s.written ++ [s.putMessage]
        slots := s.slots ++ [s.dataPool.productStep] }) ∨
    (s.producer = .copied ∧
      s' = { s with
        dataPool := { s.dataPool with productStep := wrap 4 (s.dataPool.productStep + 1) }
        producer := .advanced }) ∨
    (s.producer = .advanced ∧ s.dataPool.capacity ≠ 0 ∧
      s' = { s with
        dataPool := { s.dataPool with productStep := s.dataPool.productStep.tmod s.dataPool.capacity }
        producer := .wrapped }) ∨
    (s.producer = .wrapped ∧
      s' = { s with dataPool := { s.dataPool with dataSem := s.dataPool.dataSem + 1 }, producer := .out }) ∨
    (s.producer = .entered ∧ ¬ s.dataPool.Inside s.dataPool.productStep ∨
        s.producer = .advanced ∧ s.dataPool.capacity = 0) ∧
      s' = { s with fault := true } := by
  unfold produce at h
  dsimp only at h
  cases hplace : s.producer with
  | out =>
    rw [hplace] at h
    cases h
  | called =>
    rw [hplace] at h
    dsimp only at h
    split at h
    · rename_i hsem
      obtain rfl := Option.some.inj h
      exact Or.inl ⟨rfl, hsem, rfl⟩
    · cases h
  | entered =>
    rw [hplace] at h
    dsimp only at h
    split at h
    · rename_i hin
      obtain rfl := Option.some.inj h
      exact Or.inr (Or.inl ⟨rfl, hin, rfl⟩)
    · rename_i hout
      obtain rfl := Option.some.inj h
      simp [hout]
  | copied =>
    rw [hplace] at h
    obtain rfl := Option.some.inj h
    simp
  | advanced =>
    rw [hplace] at h
    dsimp only at h
    split at h
    · rename_i h0
      obtain rfl := Option.some.inj h
      simp [h0]
    · rename_i h0
      obtain rfl := Option.some.inj h
      simp [h0]
  | wrapped =>
    rw [hplace] at h
    obtain rfl := Option.some.inj h
    simp

/-- What a statement of `getMessage` does. -/
theorem consume_cases {s s' : Threads} (h : s.consume = some s') :
    (s.consumer = .called ∧ 0 < s.dataPool.dataSem ∧
      s' = { s with dataPool := { s.dataPool with dataSem := s.dataPool.dataSem - 1 }, consumer := .entered }) ∨
    (s.consumer = .entered ∧ s.dataPool.Inside s.dataPool.consumeStep ∧
      s' = { s with
        consumer := .copied
        inMessage := s.dataPool.pool.getD s.dataPool.consumeStep.toNat []
        read := s.read ++ [s.dataPool.pool.getD s.dataPool.consumeStep.toNat []] }) ∨
    (s.consumer = .copied ∧
      s' = { s with
        dataPool := { s.dataPool with consumeStep := wrap 4 (s.dataPool.consumeStep + 1) }
        consumer := .advanced }) ∨
    (s.consumer = .advanced ∧ s.dataPool.capacity ≠ 0 ∧
      s' = { s with
        dataPool := { s.dataPool with consumeStep := s.dataPool.consumeStep.tmod s.dataPool.capacity }
        consumer := .wrapped }) ∨
    (s.consumer = .wrapped ∧
      s' = { s with
        dataPool := { s.dataPool with blankSem := s.dataPool.blankSem + 1 }
        consumer := .out
        returned := s.returned ++ [s.inMessage] }) ∨
    (s.consumer = .entered ∧ ¬ s.dataPool.Inside s.dataPool.consumeStep ∨
        s.consumer = .advanced ∧ s.dataPool.capacity = 0) ∧
      s' = { s with fault := true } := by
  unfold consume at h
  dsimp only at h
  cases hplace : s.consumer with
  | out =>
    rw [hplace] at h
    cases h
  | called =>
    rw [hplace] at h
    dsimp only at h
    split at h
    · rename_i hsem
      obtain rfl := Option.some.inj h
      exact Or.inl ⟨rfl, hsem, rfl⟩
    · cases h
  | entered =>
    rw [hplace] at h
    dsimp only at h
    split at h
    · rename_i hin
      obtain rfl := Option.some.inj h
      exact Or.inr (Or.inl ⟨rfl, hin, rfl⟩)
    · rename_i hout
      obtain rfl := Option.some.inj h
      simp [hout]
  | copied =>
    rw [hplace] at h
    obtain rfl := Option.some.inj h
    simp
  | advanced =>
    rw [hplace] at h
    dsimp only at h
    split at h
    · rename_i h0
      obtain rfl := Option.some.inj h
      simp [h0]
    · rename_i h0
      obtain rfl := Option.some.inj h
      simp [h0]
  | wrapped =>
    rw [hplace] at h
    obtain rfl := Option.some.inj h
    simp

/-- In a ring of some slots neither thread faults. -/
theorem Inv.produce_no_fault {n : Nat} {s : Threads} (hi : Inv n s) (hn : 0 < n)
    (h : s.producer = .entered ∧ ¬ s.dataPool.Inside s.dataPool.productStep ∨
      s.producer = .advanced ∧ s.dataPool.capacity = 0) : False := by
  rcases h with ⟨hplace, hout⟩ | ⟨-, h0⟩
  · obtain ⟨-, hstep⟩ := hi.room hplace
    have hmod := Nat.mod_lt s.written.length hn
    have hsize := hi.size
    exact hout ⟨by omega, by omega⟩
  · have hcap := hi.capacity
    omega

theorem Inv.consume_no_fault {n : Nat} {s : Threads} (hi : Inv n s) (hn : 0 < n)
    (h : s.consumer = .entered ∧ ¬ s.dataPool.Inside s.dataPool.consumeStep ∨
      s.consumer = .advanced ∧ s.dataPool.capacity = 0) : False := by
  rcases h with ⟨hplace, hout⟩ | ⟨-, h0⟩
  · obtain ⟨-, hstep⟩ := hi.ready hplace
    have hmod := Nat.mod_lt s.read.length hn
    have hsize := hi.size
    exact hout ⟨by omega, by omega⟩
  · have hcap := hi.capacity
    omega

theorem produce_inv {n : Nat} {s s' : Threads} (hi : Inv n s) (hn : 0 < n) (hlt : n < 2147483648)
    (h : s.produce = some s') : Inv n s' := by
  have hp := hi.producer
  have hdata := hi.data
  have hblank := hi.blank
  -- the statements in their order, a fault last
  rcases produce_cases h with ⟨hplace, hsem, rfl⟩ | ⟨hplace, -, rfl⟩ | ⟨hplace, rfl⟩ | ⟨hplace, -, rfl⟩ |
    ⟨hplace, rfl⟩ | ⟨hfault, -⟩
  · rw [hplace] at hp hdata hblank
    refine { hi with producer := .idle (by simp) hp.step, data := ?_, blank := ?_ }
    · simpa [leaving] using hdata
    · simp only [entering, reduceCtorEq, if_true, if_false] at hblank ⊢
      omega
  · obtain ⟨hroom, hstep⟩ := hi.room hplace
    rw [hplace] at hdata hblank
    have hmod := Nat.mod_lt s.written.length hn
    have hsize := hi.size
    refine { hi with
      size := by simpa using hsize
      producer := ⟨?_, fun _ => by simp⟩
      data := ?_
      blank := ?_
      stored := ?_
      inOrder := hi.inOrder.trans (List.prefix_append _ _)
      slots := ?_ }
    · simpa [stepAt] using hstep
    · simp only [leaving, reduceCtorEq, or_self, if_false, List.length_append, List.length_singleton] at hdata ⊢
      simp only [true_or, if_true]
      omega
    · simp only [entering, reduceCtorEq, if_true, if_false, List.length_append, List.length_singleton] at hblank ⊢
      omega
    · intro k hk hle'
      simp only [List.length_append, List.length_singleton] at hk
      dsimp only
      rw [hstep, Int.toNat_natCast]
      by_cases hlast : k = s.written.length
      · rw [hlast, List.getElem?_set_self (by rw [hsize]; exact hmod), List.getElem?_concat_length]
      · -- the slot of a message that is still unread stays as it is
        have hne := slot_ne (n := n) (k := k) (w := s.written.length) (by omega) (by dsimp only at hle'; omega)
        rw [List.getElem?_set_ne (Ne.symm hne), List.getElem?_append_left (by omega)]
        exact hi.stored k (by omega) hle'
    · simp only [hi.slots, hstep, List.length_append, List.length_singleton, List.range_succ, List.map_append,
        List.map_cons, List.map_nil]
  · rw [hplace] at hp hdata hblank
    exact { hi with producer := hp.advance hn hlt, data := hdata, blank := hblank }
  · rw [hplace] at hp hdata hblank
    rw [hi.capacity]
    exact { hi with producer := hp.wrap, data := hdata, blank := hblank }
  · rw [hplace] at hp hdata hblank
    refine { hi with producer := .idle (by simp) hp.step, data := ?_, blank := hblank }
    simp only [leaving, reduceCtorEq, or_self, or_true, if_true, if_false] at hdata ⊢
    omega
  · exact (hi.produce_no_fault hn hfault).elim

theorem consume_inv {n : Nat} {s s' : Threads} (hi : Inv n s) (hn : 0 < n) (hlt : n < 2147483648)
    (h : s.consume = some s') : Inv n s' := by
  have hc := hi.consumer
  have hdata := hi.data
  have hblank := hi.blank
  rcases consume_cases h with ⟨hplace, hsem, rfl⟩ | ⟨hplace, -, rfl⟩ | ⟨hplace, rfl⟩ | ⟨hplace, -, rfl⟩ |
    ⟨hplace, rfl⟩ | ⟨hfault, -⟩
  · rw [hplace] at hc hdata hblank
    refine { hi with consumer := .idle (by simp) hc.step, data := ?_, blank := ?_ }
    · simp only [entering, reduceCtorEq, if_true, if_false] at hdata ⊢
      omega
    · simpa [leaving] using hblank
  · obtain ⟨hready, hstep⟩ := hi.ready hplace
    have hdrop := hi.front hplace
    rw [hplace] at hdata hblank
    refine { hi with
      consumer := ⟨?_, fun _ => by simp⟩
      data := ?_
      blank := ?_
      stored := ?_
      inOrder := ?_ }
    · simpa [stepAt] using hstep
    · simp only [entering, reduceCtorEq, if_true, if_false, List.length_append, List.length_singleton] at hdata ⊢
      omega
    · simp only [leaving, reduceCtorEq, or_self, if_false, List.length_append, List.length_singleton] at hblank ⊢
      simp only [true_or, if_true]
      omega
    · intro k hk hle
      simp only [List.length_append, List.length_singleton] at hle
      exact hi.stored k hk (by omega)
    · obtain ⟨rest, hrest⟩ := hi.inOrder
      rw [← hrest, List.drop_left] at hdrop
      rw [← hrest, hdrop]
      simp
  · rw [hplace] at hc hdata hblank
    exact { hi with consumer := hc.advance hn hlt, data := hdata, blank := hblank }
  · rw [hplace] at hc hdata hblank
    rw [hi.capacity]
    exact { hi with consumer := hc.wrap, data := hdata, blank := hblank }
  · rw [hplace] at hc hdata hblank
    refine { hi with consumer := .idle (by simp) hc.step, data := hdata, blank := ?_ }
    simp only [leaving, reduceCtorEq, or_self, or_true, if_true, if_false] at hblank ⊢
    omega
  · exact (hi.consume_no_fault hn hfault).elim

theorem step_inv {n : Nat} {s s' : Threads} {e : Ev} (hi : Inv n s) (hn : 0 < n) (hlt : n < 2147483648)
    (h : s.step e = some s') : Inv n s' := by
  have hp := hi.producer
  have hc := hi.consumer
  have hdata := hi.data
  have hblank := hi.blank
  unfold step at h
  rw [hi.fault] at h
  simp only [Bool.false_eq_true, if_false] at h
  cases e with
  | put message =>
    simp only [next] at h
    split at h
    · rename_i hout
      rw [hout] at hp hdata hblank
      obtain rfl := Option.some.inj h
      exact { hi with producer := .idle (by simp) hp.step, data := hdata, blank := hblank }
    · cases h
  | get =>
    simp only [next] at h
    split at h
    · rename_i hout
      rw [hout] at hc hdata hblank
      obtain rfl := Option.some.inj h
      exact { hi with consumer := .idle (by simp) hc.step, data := hdata, blank := hblank }
    · cases h
  | produce => exact produce_inv hi hn hlt h
  | consume => exact consume_inv hi hn hlt h

/-! ## What was asked for and what was returned -/

structure Logged (s : Threads) : Prop where
  received : s.received = s.written ++ if s.producer = .called ∨ s.producer = .entered then [s.putMessage] else []
  returned : s.read = s.returned ++ if leaving s.consumer = 1 then [s.inMessage] else []

theorem init_logged (p : DataPool) : Logged (init p) := ⟨by simp [init], by simp [init, leaving]⟩

theorem produce_logged {s s' : Threads} (hi : Logged s) (h : s.produce = some s') : Logged s' := by
  have hrec := hi.received
  rcases produce_cases h with ⟨hplace, -, rfl⟩ | ⟨hplace, -, rfl⟩ | ⟨hplace, rfl⟩ | ⟨hplace, -, rfl⟩ | ⟨hplace, rfl⟩ |
    ⟨-, rfl⟩
  · rw [hplace] at hrec
    exact ⟨by simpa using hrec, hi.returned⟩
  · rw [hplace] at hrec
    exact ⟨by simpa using hrec, hi.returned⟩
  · rw [hplace] at hrec
    exact ⟨hrec, hi.returned⟩
  · rw [hplace] at hrec
    exact ⟨hrec, hi.returned⟩
  · rw [hplace] at hrec
    exact ⟨hrec, hi.returned⟩
  · exact ⟨hrec, hi.returned⟩

theorem consume_logged {s s' : Threads} (hi : Logged s) (h : s.consume = some s') : Logged s' := by
  have hret := hi.returned
  rcases consume_cases h with ⟨hplace, -, rfl⟩ | ⟨hplace, -, rfl⟩ | ⟨hplace, rfl⟩ | ⟨hplace, -, rfl⟩ | ⟨hplace, rfl⟩ |
    ⟨-, rfl⟩
  · rw [hplace] at hret
    exact ⟨hi.received, hret⟩
  · rw [hplace] at hret
    refine ⟨hi.received, ?_⟩
    simp only [leaving, reduceCtorEq, or_self, if_false, Nat.zero_ne_one, List.append_nil] at hret
    simp [leaving, hret]
  · rw [hplace] at hret
    exact ⟨hi.received, hret⟩
  · rw [hplace] at hret
    exact ⟨hi.received, hret⟩
  · rw [hplace] at hret
    refine ⟨hi.received, ?_⟩
    simpa [leaving] using hret
  · exact ⟨hi.received, hret⟩

theorem step_logged {s s' : Threads} {e : Ev} (hi : Logged s) (h : s.step e = some s') : Logged s' := by
  have hrec := hi.received
  have hret := hi.returned
  unfold step at h
  split at h
  · cases h
  · cases e with
    | put message =>
      simp only [next] at h
      split at h
      · rename_i hout
        obtain rfl := Option.some.inj h
        rw [hout] at hrec
        exact ⟨by simpa using hrec, hret⟩
      · cases h
    | get =>
      simp only [next] at h
      split at h
      · rename_i hout
        obtain rfl := Option.some.inj h
        rw [hout] at hret
        exact ⟨hrec, hret⟩
      · cases h
    | produce => exact produce_logged hi h
    | consume => exact consume_logged hi h

/-- Messages are returned in the order in which they were received. -/
theorem Inv.returned {n : Nat} {s : Threads} (hi : Inv n s) (hl : Logged s) : s.returned <+: s.received := by
  have hread : s.returned <+: s.read := by
    rw [hl.returned]
    exact List.prefix_append _ _
  have hwritten : s.written <+: s.received := by
    rw [hl.received]
    exact List.prefix_append _ _
  exact (hread.trans hi.inOrder).trans hwritten

/-! ## Refinement -/

/-- The copy of a message is a push. -/
theorem produce_view {n : Nat} {s s' : Threads} (hi : Inv n s) (hn : 0 < n) (h : s.produce = some s') :
    ∃ ops, run (Fifo.bounded n) s.view ops = some s'.view := by
  rcases produce_cases h with ⟨-, -, rfl⟩ | ⟨hplace, -, rfl⟩ | ⟨-, rfl⟩ | ⟨-, -, rfl⟩ | ⟨-, rfl⟩ | ⟨hfault, -⟩
  · exact ⟨[], rfl⟩
  · obtain ⟨hroom, -⟩ := hi.room hplace
    have hle := hi.inOrder.length_le
    refine ⟨[.push s.putMessage], ?_⟩
    rw [Fifo.bounded_push]
    · simp [view, Fifo.push, List.drop_append_of_le_length hle]
    · simp only [view, List.length_drop]
      omega
  · exact ⟨[], rfl⟩
  · exact ⟨[], rfl⟩
  · exact ⟨[], rfl⟩
  · exact (hi.produce_no_fault hn hfault).elim

/-- The copy out of a slot is a pop. -/
theorem consume_view {n : Nat} {s s' : Threads} (hi : Inv n s) (hn : 0 < n) (h : s.consume = some s') :
    ∃ ops, run (Fifo.bounded n) s.view ops = some s'.view := by
  rcases consume_cases h with ⟨-, -, rfl⟩ | ⟨hplace, -, rfl⟩ | ⟨-, rfl⟩ | ⟨-, -, rfl⟩ | ⟨-, rfl⟩ | ⟨hfault, -⟩
  · exact ⟨[], rfl⟩
  · obtain ⟨hready, -⟩ := hi.ready hplace
    refine ⟨[.pop], ?_⟩
    rw [Fifo.bounded_pop]
    · simp only [view, Fifo.take, hi.front hplace, List.take_succ_cons, List.take_zero, List.drop_succ_cons,
        List.drop_zero, List.length_append, List.length_singleton]
    · simp only [view, List.length_drop]
      omega
  · exact ⟨[], rfl⟩
  · exact ⟨[], rfl⟩
  · exact ⟨[], rfl⟩
  · exact (hi.consume_no_fault hn hfault).elim

/-- A step of either thread is a push, a pop, or nothing to the queue. -/
theorem step_view {n : Nat} {s s' : Threads} {e : Ev} (hi : Inv n s) (hn : 0 < n) (h : s.step e = some s') :
    ∃ ops, run (Fifo.bounded n) s.view ops = some s'.view := by
  unfold step at h
  rw [hi.fault] at h
  simp only [Bool.false_eq_true, if_false] at h
  cases e with
  | put message =>
    simp only [next] at h
    split at h
    · obtain rfl := Option.some.inj h
      exact ⟨[], rfl⟩
    · cases h
  | get =>
    simp only [next] at h
    split at h
    · obtain rfl := Option.some.inj h
      exact ⟨[], rfl⟩
    · cases h
  | produce => exact produce_view hi hn h
  | consume => exact consume_view hi hn h

/-- Built with a size, the ring is a queue that holds at most that many messages: over any
    interleaving of the two threads what is read is what was written, in order, no thread
    uses a slot that the other is not done with, and the run is one of the queue. -/
theorem refines_fifo {size : Int} (h : 0 < size) (h' : size < 2147483648) (es : List Ev) :
    Always step (Bounded size.toNat) (init (.sized size)) es ∧
      Along step Clear (init (.sized size)) es ∧
      ∀ s, run step (init (.sized size)) es = some s →
        ∃ ops, run (Fifo.bounded size.toNat) ⟨[], []⟩ ops = some s.view := by
  have hn : 0 < size.toNat := by omega
  have hlt : size.toNat < 2147483648 := by omega
  have hstep : ∀ (s : Threads) (e : Ev) (s' : Threads), Inv size.toNat s → s.step e = some s' → Inv size.toNat s' :=
    fun s e s' hi hs => step_inv hi hn hlt hs
  have hall : Always step (Inv size.toNat) (init (.sized size)) es := always_of_inv hstep (init_inv h)
  refine ⟨hall.mono fun s hi => hi.bounded, hall.along fun s e _ hi _ => inv_clear hi e, fun s hs => ?_⟩
  obtain ⟨ops, q, hq, -, rfl⟩ := run_simulates (R := fun s q => Inv size.toNat s ∧ q = s.view)
    (fun s q e s' hR hs => by
      obtain ⟨hi, rfl⟩ := hR
      obtain ⟨ops, hops⟩ := step_view hi hn hs
      exact ⟨ops, _, hops, hstep s e s' hi hs, rfl⟩)
    ⟨init_inv h, rfl⟩ hs
  exact ⟨ops, hq⟩

def twoMessages : List Ev :=
  [.put [1], .produce, .produce, .produce, .produce, .produce, .put [2], .get, .consume, .consume, .consume, .consume,
    .consume, .produce, .produce]

theorem a_ring_of_one :
    Always step (Bounded (Int.toNat 1)) (init (.sized 1)) twoMessages ∧ Along step Clear (init (.sized 1)) twoMessages ∧
      ∀ s, run step (init (.sized 1)) twoMessages = some s →
        ∃ ops, run (Fifo.bounded (Int.toNat 1)) ⟨[], []⟩ ops = some s.view :=
  refines_fifo (by decide) (by decide) _

end Threads

end GroupeChat.UdpChat
