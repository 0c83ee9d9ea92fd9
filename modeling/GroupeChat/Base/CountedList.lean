/-
  GroupeChat.Base.CountedList — a list and, beside it, a counter of its length.

  A push adds an element and one to the counter, a pop takes one off both; nothing else
  ties the two, and a new list has the counter it is given. No push or pop changes `base`,
  what the counter held with nothing queued, so the size that the counter reports is the
  length exactly when that was 0 and the counter, a signed one of `w` bits, can hold the
  length (`agrees_iff`).

  `guarded` is a program that pops only behind a positive size. `QueueOf` says that
  three functions of a class are the push, the size and the pop of one of its counted
  lists and leave the rest of the class alone:
  - `QueueOf.step`: from a list that agrees, a step leaves one that does exactly if the
    counter has room.
  - `QueueOf.always_sound_iff`: so the list agrees all along exactly the runs that start
    so and whose pushes find room.
  - `QueueOf.run_bounded`: such a run is one of the plain queue, whose pop waits for an
    element.
  - `QueueOf.pop_drained`, `QueueOf.left_behind`: what a counter that started above or
    below 0 does.
-/

import GroupeChat.Base.Fifo
import Mathlib.Data.BitVec

namespace GroupeChat.Base

structure CountedList (w : Nat) (α : Type) where
  count : BitVec w
  list : List α

namespace CountedList

variable {w : Nat} {α : Type}

def new (junk : BitVec w) : CountedList w α := ⟨junk, []⟩

def size (q : CountedList w α) : Int := q.count.toInt

def push (q : CountedList w α) (x : α) : CountedList w α := ⟨q.count + 1, q.list ++ [x]⟩

/-- `none`: there is no front to take. -/
def pop (q : CountedList w α) : Option (α × CountedList w α) :=
  match q.list with
  | [] => none
  | x :: rest => some (x, ⟨q.count - 1, rest⟩)

@[simp] theorem list_new (junk : BitVec w) : (new junk : CountedList w α).list = [] := rfl
@[simp] theorem count_new (junk : BitVec w) : (new junk : CountedList w α).count = junk := rfl
@[simp] theorem list_push (q : CountedList w α) (x : α) : (q.push x).list = q.list ++ [x] := rfl
@[simp] theorem count_push (q : CountedList w α) (x : α) : (q.push x).count = q.count + 1 := rfl

theorem pop_some {q q' : CountedList w α} {x : α} (h : q.pop = some (x, q')) :
    q.list = x :: q'.list ∧ q'.count = q.count - 1 := by
  unfold pop at h
  split at h
  · cases h
  · rename_i y rest hl
    cases h
    exact ⟨hl, rfl⟩

theorem pop_of_ne_nil {q : CountedList w α} (h : q.list ≠ []) : ∃ x q', q.pop = some (x, q') := by
  rcases hl : q.list with _ | ⟨x, rest⟩
  · exact absurd hl h
  · exact ⟨x, ⟨q.count - 1, rest⟩, by simp [pop, hl]⟩

/-! ## What no push or pop changes -/

def base (q : CountedList w α) : BitVec w := q.count - BitVec.ofNat w q.list.length

@[simp] theorem base_new (junk : BitVec w) : (new junk : CountedList w α).base = junk := by simp [base]

theorem base_push (q : CountedList w α) (x : α) : (q.push x).base = q.base := by
  simp only [base, count_push, list_push, List.length_append, List.length_singleton, BitVec.ofNat_add]
  exact add_sub_add_right_eq_sub q.count _ 1

theorem base_pop {q q' : CountedList w α} {x : α} (h : q.pop = some (x, q')) : q'.base = q.base := by
  obtain ⟨hl, hc⟩ := pop_some h
  simp only [base, hc, hl, List.length_cons, BitVec.ofNat_add]
  rw [sub_sub, add_comm]
  rfl

theorem count_eq (q : CountedList w α) : q.count = q.base + BitVec.ofNat w q.list.length := by
  simp [base]

/-! ## When the size is the length -/

structure Reports {σ : Type} (view : σ → CountedList w α) (size : σ → Int) (pop : σ → Option (α × σ)) (s : σ) :
    Prop where
  length : size s = (view s).list.length
  /-- A pop behind a positive size takes from a list with an element. -/
  pop : 0 < size s → (pop s).isSome
  /-- A list with an element is not reported empty. -/
  pos : (view s).list ≠ [] → 0 < size s

def Agrees (q : CountedList w α) : Prop := Reports id size pop q

theorem agrees_of_length {q : CountedList w α} (h : q.size = q.list.length) : q.Agrees := by
  refine ⟨h, ?_, ?_⟩
  · intro hpos
    have hne : q.list ≠ [] := by
      intro hl
      simp [h, hl] at hpos
    obtain ⟨x, q', hp⟩ := pop_of_ne_nil hne
    simp [hp]
  · intro hne
    have hlen : 0 < q.list.length := List.length_pos_of_ne_nil hne
    omega

/-- Up to what the counter can hold, the size is off by what it started with. -/
theorem size_eq {q : CountedList w α} (h : q.base.toInt + q.list.length < 2 ^ (w - 1)) :
    q.size = q.base.toInt + q.list.length := by
  have hlow : -2 ^ (w - 1) ≤ q.base.toInt := BitVec.le_toInt _
  have hcount : q.count = BitVec.ofInt w (q.base.toInt + q.list.length) := by
    rw [BitVec.ofInt_add, BitVec.ofInt_toInt, BitVec.ofInt_natCast]
    exact q.count_eq
  rcases Nat.eq_zero_or_pos w with rfl | hw
  · simp only [size, BitVec.toInt_zero_length] at h ⊢
    omega
  · rw [size, hcount, BitVec.toInt_ofInt_eq_self hw (by omega) h]

theorem agrees_iff {q : CountedList w α} : q.Agrees ↔ q.base = 0 ∧ q.list.length < 2 ^ (w - 1) := by
  refine ⟨?_, ?_⟩
  · intro h
    have hcount : q.count = BitVec.ofNat w q.list.length := by
      calc q.count = BitVec.ofInt w q.size := BitVec.ofInt_toInt.symm
        _ = BitVec.ofNat w q.list.length := by rw [h.length, id, BitVec.ofInt_natCast]
    refine ⟨by simp [base, hcount], ?_⟩
    have hlt : q.size < 2 ^ (w - 1) := BitVec.toInt_lt
    rw [h.length] at hlt
    exact_mod_cast hlt
  · rintro ⟨hbase, hlen⟩
    apply agrees_of_length
    have hzero : q.base.toInt = 0 := by simp [hbase]
    have hsum : q.base.toInt + q.list.length < 2 ^ (w - 1) := by
      rw [hzero, zero_add]
      exact_mod_cast hlen
    rw [size_eq hsum, hzero, zero_add]

theorem agrees_new (junk : BitVec w) : (new junk : CountedList w α).Agrees ↔ junk = 0 := by
  rw [agrees_iff, base_new, list_new, List.length_nil]
  exact and_iff_left (Nat.two_pow_pos _)

/-- A push leaves the counter one more to hold. -/
theorem Agrees.push_iff {q : CountedList w α} (h : q.Agrees) (x : α) :
    (q.push x).Agrees ↔ q.list.length + 1 < 2 ^ (w - 1) := by
  simp [agrees_iff, base_push, (agrees_iff.mp h).1]

theorem Agrees.of_pop {q q' : CountedList w α} {x : α} (h : q.Agrees) (hp : q.pop = some (x, q')) : q'.Agrees := by
  obtain ⟨hbase, hlen⟩ := agrees_iff.mp h
  have hl := congrArg List.length (pop_some hp).1
  rw [agrees_iff, base_pop hp]
  refine ⟨hbase, ?_⟩
  simp only [List.length_cons] at hl
  omega

/-! ## A class that keeps one, and a program that pops behind the size -/

/-- The state after a pop of the empty list is `none`, and nothing follows it. -/
def guarded {σ : Type} (push : σ → α → σ) (size : σ → Int) (pop : σ → Option (α × σ)) :
    Option σ → Fifo.Op α → Option (Option σ)
  | none, _ => none
  | some s, .push x => some (some (push s x))
  | some s, .pop => if 0 < size s then some ((pop s).map Prod.snd) else none

variable {σ τ : Type}

def Sound (view : σ → CountedList w α) (size : σ → Int) (pop : σ → Option (α × σ)) (s : Option σ) : Prop :=
  ∃ t, s = some t ∧ Reports view size pop t

def Room (view : σ → CountedList w α) (s : Option σ) : Fifo.Op α → Prop
  | .push _ => ∀ t, s = some t → (view t).list.length + 1 < 2 ^ (w - 1)
  | .pop => True

/-- `push`, `size` and `pop` are those of the list `view` shows, and leave `rest` alone. -/
structure QueueOf (view : σ → CountedList w α) (rest : σ → τ) (push : σ → α → σ) (size : σ → Int)
    (pop : σ → Option (α × σ)) : Prop where
  view_push : ∀ s x, view (push s x) = (view s).push x
  rest_push : ∀ s x, rest (push s x) = rest s
  size_view : ∀ s, size s = (view s).size
  pop_view : ∀ s, (pop s).map (fun p => (p.1, view p.2, rest p.2)) = (view s).pop.map fun p => (p.1, p.2, rest s)

/-- The operations on the list are operations of the class where it can put the list back. -/
theorem queueOf_set (view : σ → CountedList w α) (rest : σ → τ) (set : σ → CountedList w α → σ)
    (hview : ∀ s q, view (set s q) = q) (hrest : ∀ s q, rest (set s q) = rest s) :
    QueueOf view rest (fun s x => set s ((view s).push x)) (fun s => (view s).size)
      (fun s => (view s).pop.map fun p => (p.1, set s p.2)) := by
  refine ⟨?_, ?_, ?_, ?_⟩
  · intro s x
    exact hview s _
  · intro s x
    exact hrest s _
  · intro s
    rfl
  · intro s
    simp [Function.comp_def, hview, hrest]

namespace QueueOf

variable {view : σ → CountedList w α} {rest : σ → τ} {push : σ → α → σ} {size : σ → Int} {pop : σ → Option (α × σ)}

theorem pop_isSome (Q : QueueOf view rest push size pop) (s : σ) : (pop s).isSome = (view s).pop.isSome := by
  simpa using congrArg Option.isSome (Q.pop_view s)

theorem of_pop (Q : QueueOf view rest push size pop) {s t : σ} {x : α} (h : pop s = some (x, t)) :
    (view s).pop = some (x, view t) ∧ rest t = rest s := by
  have hv := Q.pop_view s
  rw [h, Option.map_some, eq_comm, Option.map_eq_some_iff] at hv
  obtain ⟨⟨y, q⟩, hq, heq⟩ := hv
  simp only [Prod.mk.injEq] at heq
  obtain ⟨rfl, rfl, hr⟩ := heq
  exact ⟨hq, hr.symm⟩

theorem reports_iff (Q : QueueOf view rest push size pop) (s : σ) : Reports view size pop s ↔ (view s).Agrees := by
  refine ⟨?_, ?_⟩
  · rintro ⟨hlen, -, -⟩
    exact agrees_of_length (by rw [← Q.size_view, hlen])
  · rintro ⟨hlen, hpop, hpos⟩
    refine ⟨?_, ?_, ?_⟩
    · rw [Q.size_view]
      exact hlen
    · rw [Q.size_view, Q.pop_isSome]
      exact hpop
    · rw [Q.size_view]
      exact hpos

theorem sound_iff (Q : QueueOf view rest push size pop) (s : σ) : Sound view size pop (some s) ↔ (view s).Agrees := by
  rw [← Q.reports_iff]
  refine ⟨?_, ?_⟩
  · rintro ⟨t, ht, h⟩
    cases ht
    exact h
  · intro h
    exact ⟨s, rfl, h⟩

/-- A step from a list that agrees pops no empty list, and leaves one that agrees
    exactly if it had room. -/
theorem step (Q : QueueOf view rest push size pop) {s : σ} {s' : Option σ} {e : Fifo.Op α} (hs : (view s).Agrees)
    (h : guarded push size pop (some s) e = some s') :
    ∃ t, s' = some t ∧ rest t = rest s ∧ ((view t).Agrees ↔ Room view (some s) e) := by
  cases e with
  | push x =>
    cases h
    refine ⟨push s x, rfl, Q.rest_push s x, ?_⟩
    rw [Q.view_push, hs.push_iff]
    simp [Room]
  | pop =>
    simp only [guarded, Option.ite_none_right_eq_some, Option.some.injEq] at h
    obtain ⟨hpos, rfl⟩ := h
    obtain ⟨⟨x, t⟩, hp⟩ := Option.isSome_iff_exists.mp (((Q.reports_iff s).mpr hs).pop hpos)
    obtain ⟨hv, hr⟩ := Q.of_pop hp
    refine ⟨t, by simp [hp], hr, ?_⟩
    simp [Room, hs.of_pop hv]

/-- A list agrees all along exactly the runs that it starts so and whose pushes find
    room. -/
theorem always_sound_iff (Q : QueueOf view rest push size pop) (s : σ) (es : List (Fifo.Op α)) :
    Always (guarded push size pop) (Sound view size pop) (some s) es ↔
      (view s).Agrees ∧ Along (guarded push size pop) (Room view) (some s) es := by
  rw [← Q.sound_iff]
  apply always_iff_and_along
  rintro _ e s' ⟨t, rfl, ht⟩ h
  obtain ⟨u, rfl, -, hu⟩ := Q.step ((Q.reports_iff t).mp ht) h
  rw [Q.sound_iff]
  exact hu

/-! ### The plain queue -/

/-- A step with room is one of the queue that a push waits for room in and a pop for an
    element. -/
theorem step_bounded (Q : QueueOf view rest push size pop) {s : σ} {f : Fifo α} (hs : (view s).Agrees)
    (hf : f.held = (view s).list) (e : Fifo.Op α) (l : List α) :
    (∃ g, Fifo.bounded (2 ^ (w - 1) - 1) f e = some g ∧ g.held = l) ↔
      Room view (some s) e ∧ ∃ t, guarded push size pop (some s) e = some (some t) ∧ (view t).list = l := by
  cases e with
  | push x =>
    have hroom : (view s).list.length < 2 ^ (w - 1) - 1 ↔ (view s).list.length + 1 < 2 ^ (w - 1) := by omega
    simp [Fifo.bounded, Fifo.push, guarded, Room, hf, Q.view_push, hroom]
  | pop =>
    have hpos : 0 < size s ↔ 0 < (view s).list.length := by
      rw [((Q.reports_iff s).mpr hs).length]
      exact Int.natCast_pos
    simp only [Fifo.bounded, Fifo.take, guarded, Room, hf, hpos, true_and]
    split
    · rename_i hlen
      obtain ⟨⟨x, t⟩, hp⟩ := Option.isSome_iff_exists.mp (((Q.reports_iff s).mpr hs).pop (hpos.mpr hlen))
      simp [hp, (pop_some (Q.of_pop hp).1).1]
    · simp

/-- So the runs of a list that agrees, with room for every push, are those of that queue. -/
theorem run_bounded (Q : QueueOf view rest push size pop) (l : List α) :
    ∀ {es : List (Fifo.Op α)} {s : σ} {f : Fifo α}, (view s).Agrees → f.held = (view s).list →
      ((∃ g, run (Fifo.bounded (2 ^ (w - 1) - 1)) f es = some g ∧ g.held = l) ↔
        Along (guarded push size pop) (Room view) (some s) es ∧
          ∃ t, run (guarded push size pop) (some s) es = some (some t) ∧ (view t).list = l) := by
  intro es
  induction es with
  | nil =>
    intro s f _ hf
    simp [run, Along, hf]
  | cons e es ih =>
    intro s f hs hf
    refine ⟨?_, ?_⟩
    · rintro ⟨g, hr, hg⟩
      obtain ⟨f', hf', hr⟩ := Option.bind_eq_some_iff.mp hr
      obtain ⟨hroom, u, hu, hl⟩ := (Q.step_bounded hs hf e f'.held).mp ⟨f', hf', rfl⟩
      obtain ⟨_, ⟨⟩, -, hag⟩ := Q.step hs hu
      obtain ⟨halong, t, hrun, ht⟩ := (ih (hag.mpr hroom) hl.symm).mp ⟨g, hr, hg⟩
      refine ⟨?_, t, ?_, ht⟩
      · intro s' hs'
        cases hu.symm.trans hs'
        exact ⟨hroom, halong⟩
      · rw [run_cons hu]
        exact hrun
    · rintro ⟨hroom, t, hr, ht⟩
      obtain ⟨s', hs', hr⟩ := Option.bind_eq_some_iff.mp hr
      obtain ⟨hroom, halong⟩ := hroom s' hs'
      obtain ⟨u, rfl, -, hag⟩ := Q.step hs hs'
      obtain ⟨f', hf', hl⟩ := (Q.step_bounded hs hf e (view u).list).mpr ⟨hroom, u, hs', rfl⟩
      rw [run_cons hf']
      exact (ih (hag.mpr hroom) hl).mpr ⟨halong, t, hr, ht⟩

/-! ### From any counter -/

theorem step_base (Q : QueueOf view rest push size pop) {s t : σ} {e : Fifo.Op α}
    (h : guarded push size pop (some s) e = some (some t)) : (view t).base = (view s).base := by
  cases e with
  | push x =>
    cases h
    rw [Q.view_push, base_push]
  | pop =>
    simp only [guarded, Option.ite_none_right_eq_some, Option.some.injEq, Option.map_eq_some_iff] at h
    obtain ⟨-, ⟨x, u⟩, hp, rfl⟩ := h
    exact base_pop (Q.of_pop hp).1

theorem run_base (Q : QueueOf view rest push size pop) {s t : σ} {es : List (Fifo.Op α)}
    (h : run (guarded push size pop) (some s) es = some (some t)) : (view t).base = (view s).base := by
  have hinv : ∀ u, some t = some u → (view u).base = (view s).base := by
    apply run_inv (I := fun s' => ∀ u, s' = some u → (view u).base = (view s).base) ?_ ?_ h
    · rintro (_ | u) e _ hu hstep v rfl
      · cases hstep
      · rw [Q.step_base hstep, hu u rfl]
    · rintro u ⟨⟩
      rfl
  exact hinv t rfl

/-- A counter that started above 0 has the drained list popped. -/
theorem pop_drained (Q : QueueOf view rest push size pop) {s t : σ} {es : List (Fifo.Op α)}
    (h : run (guarded push size pop) (some s) es = some (some t)) (hpos : 0 < (view s).base.toInt)
    (hnil : (view t).list = []) : guarded push size pop (some t) .pop = some none := by
  rw [← Q.run_base h] at hpos
  have hlt : (view t).base.toInt < 2 ^ (w - 1) := BitVec.toInt_lt
  have hsize : (view t).size = (view t).base.toInt := by
    rw [size_eq (by simpa [hnil] using hlt)]
    simp [hnil]
  have hnone : pop t = none := by
    rw [← Option.isNone_iff_eq_none, ← Option.not_isSome, Q.pop_isSome]
    simp [CountedList.pop, hnil]
  simp [guarded, Q.size_view, hsize, hpos, hnone]

/-- Under one that started below 0, that many elements stay in the list. -/
theorem left_behind (Q : QueueOf view rest push size pop) {s t : σ} {es : List (Fifo.Op α)}
    (h : run (guarded push size pop) (some s) es = some (some t))
    (hlen : (view s).base.toInt + (view t).list.length ≤ 0) : guarded push size pop (some t) .pop = none := by
  rw [← Q.run_base h] at hlen
  have hlt : (0 : Int) < 2 ^ (w - 1) := Int.pow_pos (by decide)
  have hsize := size_eq (q := view t) (by omega)
  have hneg : ¬ 0 < size t := by
    rw [Q.size_view]
    omega
  simp [guarded, hneg]

end QueueOf

end CountedList

end GroupeChat.Base
