/-
  GroupeChat.UdpChat.MessageQueue — the queue that a `Server(port)` has.

  The constructor names only `_port`, so `_dataPool` is built by `DataPool()`, which sets
  nothing: the vector is empty, and capacity, steps and semaphores hold whatever the
  server's memory held. `recvMessage` puts every datagram into that queue, `sendMessage`
  broadcasts what it gets out of it.

  No slot is ever inside the vector, so the queue is sound over every run exactly when
  the memory holds 0 for both semaphores and neither thread ever gets past its wait
  (`sound_iff_stuck`).

  Through a queue that was built with a size, the texts come out as the server's buffer
  has them, in order (`broadcast_received`). That buffer and the client's take 1023
  bytes, so a text comes back as it was sent exactly when it is no longer
  (`transparent_iff`); the JSON of a line that the client's input takes can be
  (`a_long_line_is_cut`).
-/

import GroupeChat.UdpChat.Server
import Mathlib.Data.List.TakeDrop
import Mathlib.Data.List.TakeWhile

namespace GroupeChat.UdpChat

open Base

namespace Threads

inductive ServerEv where
  /-- `recvfrom` returns a datagram. -/
  | recvData (datagram : List UInt8)
  /-- The next statement of its `putMessage`. -/
  | recvMessage
  | broadCast
  /-- The next statement of its `getMessage`. -/
  | sendMessage

/-- An empty datagram is skipped. -/
def serverStep (s : Threads) : ServerEv → Option Threads
  | .recvData datagram =>
    if datagram.length = 0 then (if s.producer = .out then some s else none)
    else s.step (.put (recvBuffer datagram))
  | .recvMessage => s.step .produce
  | .broadCast => s.step .get
  | .sendMessage => s.step .consume

def server (junk : DataPool) : Threads := init (.unsized junk)

/-- The slot and the modulus that the next statement uses, if any. -/
def Usable (s : Threads) : ServerEv → Prop
  | .recvMessage => (s.producer = .entered → s.dataPool.Inside s.dataPool.productStep) ∧
      (s.producer = .advanced → 0 < s.dataPool.capacity)
  | .sendMessage => (s.consumer = .entered → s.dataPool.Inside s.dataPool.consumeStep) ∧
      (s.consumer = .advanced → 0 < s.dataPool.capacity)
  | _ => True

/-- Over the run, slots and moduli are usable whenever they are used, and what has been
    broadcast starts what has been received. -/
def SoundRun (s : Threads) (es : List ServerEv) : Prop :=
  Along serverStep Usable s es ∧ Always serverStep (fun s => s.returned <+: s.received) s es

/-- Neither thread has got past its wait, and neither can. -/
structure Stuck (s : Threads) : Prop where
  fault : s.fault = false
  producer : s.producer = .out ∨ s.producer = .called
  consumer : s.consumer = .out ∨ s.consumer = .called
  blankSem : s.dataPool.blankSem = 0
  dataSem : s.dataPool.dataSem = 0
  returned : s.returned = []

theorem Stuck.usable {s : Threads} (h : Stuck s) (e : ServerEv) : Usable s e := by
  cases e with
  | recvMessage =>
    rcases h.producer with hp | hp <;> simp [Usable, hp]
  | sendMessage =>
    rcases h.consumer with hc | hc <;> simp [Usable, hc]
  | recvData datagram => trivial
  | broadCast => trivial

theorem serverStep_stuck {s s' : Threads} {e : ServerEv} (hi : Stuck s) (h : s.serverStep e = some s') : Stuck s' := by
  cases e with
  | recvData datagram =>
    simp only [serverStep] at h
    split at h
    · split at h
      · obtain rfl := Option.some.inj h
        exact hi
      · cases h
    · simp only [step, hi.fault, Bool.false_eq_true, if_false, next] at h
      split at h
      · obtain rfl := Option.some.inj h
        exact { hi with fault := rfl, producer := Or.inr rfl }
      · cases h
  | broadCast =>
    simp only [serverStep, step, hi.fault, Bool.false_eq_true, if_false, next] at h
    split at h
    · obtain rfl := Option.some.inj h
      exact { hi with fault := rfl, consumer := Or.inr rfl }
    · cases h
  | recvMessage =>
    simp only [serverStep, step, hi.fault, Bool.false_eq_true, if_false, next, produce] at h
    rcases hi.producer with hp | hp
    · rw [hp] at h
      cases h
    · simp [hp, hi.blankSem] at h
  | sendMessage =>
    simp only [serverStep, step, hi.fault, Bool.false_eq_true, if_false, next, consume] at h
    rcases hi.consumer with hc | hc
    · rw [hc] at h
      cases h
    · simp [hc, hi.dataSem] at h

/-- An empty vector has no slot. -/
theorem not_inside_of_empty {p : DataPool} (hp : p.pool = []) (step : Int) : ¬ p.Inside step := by
  intro h
  have hlt := h.2
  have hle := h.1
  simp only [hp, List.length_nil] at hlt
  omega

/-- The producer gets past its wait and writes outside the vector. -/
theorem not_sound_of_blank {junk : DataPool} (h : 0 < junk.blankSem) :
    ¬ SoundRun (server junk) [.recvData [104], .recvMessage, .recvMessage] := by
  intro hs
  let s₁ : Threads := { server junk with producer := .called, putMessage := [104], received := [[104]] }
  let s₂ : Threads := { s₁ with
    dataPool := { s₁.dataPool with blankSem := junk.blankSem - 1 }
    producer := .entered }
  have h₁ : serverStep (server junk) (.recvData [104]) = some s₁ := rfl
  have h₂ : serverStep s₁ .recvMessage = some s₂ := if_pos h
  have h₃ : serverStep s₂ .recvMessage = some { s₂ with fault := true } := if_neg (not_inside_of_empty rfl _)
  have huse := (((hs.1 _ h₁).2 _ h₂).2 _ h₃).1
  exact not_inside_of_empty rfl _ (huse.1 rfl)

/-- The consumer gets past its wait and reads outside the vector. -/
theorem not_sound_of_data {junk : DataPool} (h : 0 < junk.dataSem) :
    ¬ SoundRun (server junk) [.broadCast, .sendMessage, .sendMessage] := by
  intro hs
  let s₁ : Threads := { server junk with consumer := .called }
  let s₂ : Threads := { s₁ with
    dataPool := { s₁.dataPool with dataSem := junk.dataSem - 1 }
    consumer := .entered }
  have h₁ : serverStep (server junk) .broadCast = some s₁ := rfl
  have h₂ : serverStep s₁ .sendMessage = some s₂ := if_pos h
  have h₃ : serverStep s₂ .sendMessage = some { s₂ with fault := true } := if_neg (not_inside_of_empty rfl _)
  have huse := (((hs.1 _ h₁).2 _ h₂).2 _ h₃).1
  exact not_inside_of_empty rfl _ (huse.1 rfl)

/-- The queue is sound over every run exactly when both semaphores happen to be 0, so that
    no message ever gets through. -/
theorem sound_iff_stuck (junk : DataPool) :
    (∀ es, SoundRun (server junk) es) ↔ junk.blankSem = 0 ∧ junk.dataSem = 0 := by
  refine ⟨?_, ?_⟩
  · intro h
    refine ⟨?_, ?_⟩
    · by_contra hb
      exact not_sound_of_blank (Nat.pos_of_ne_zero hb) (h _)
    · by_contra hd
      exact not_sound_of_data (Nat.pos_of_ne_zero hd) (h _)
  · intro h es
    have hinit : Stuck (server junk) := ⟨rfl, Or.inl rfl, Or.inl rfl, h.1, h.2, rfl⟩
    have hall : Always serverStep Stuck (server junk) es := always_of_inv (fun _ _ _ => serverStep_stuck) hinit
    refine ⟨hall.along fun s e _ hi _ => hi.usable e, hall.mono fun s hi => ?_⟩
    rw [hi.returned]
    exact List.nil_prefix

/-- In memory that holds 1 for a semaphore, the first message goes to a slot that is not
    there. -/
theorem a_slot_of_an_empty_vector :
    ¬ SoundRun (server ⟨[], 0, 0, 0, 1, 0⟩) [.recvData [104], .recvMessage, .recvMessage] := by
  intro hs
  have huse := (((hs.1 _ rfl).2 _ rfl).2 _ rfl).1
  exact absurd (huse.1 rfl).2 (by decide)

/-! ## The way of a text -/

/-- `sendto` of `strInfo.c_str()` and `strInfo.size()`, at a client and at the server. -/
def sendData (strInfo : Text) : List UInt8 := strInfo

/-- `Client::recvData`; an empty datagram leaves `strInfo` as it was. -/
def clientRecvData (strInfo : Text) (datagram : List UInt8) : Text :=
  if datagram.length = 0 then strInfo else recvBuffer datagram

def datagrams (es : List ServerEv) : List (List UInt8) :=
  es.filterMap fun e =>
    match e with
    | .recvData datagram => if datagram.length = 0 then none else some datagram
    | _ => none

theorem produce_received {s s' : Threads} (h : s.produce = some s') : s'.received = s.received := by
  rcases produce_cases h with ⟨-, -, rfl⟩ | ⟨-, -, rfl⟩ | ⟨-, rfl⟩ | ⟨-, -, rfl⟩ | ⟨-, rfl⟩ | ⟨-, rfl⟩ <;> rfl

theorem consume_received {s s' : Threads} (h : s.consume = some s') : s'.received = s.received := by
  rcases consume_cases h with ⟨-, -, rfl⟩ | ⟨-, -, rfl⟩ | ⟨-, rfl⟩ | ⟨-, -, rfl⟩ | ⟨-, rfl⟩ | ⟨-, rfl⟩ <;> rfl

/-- A step is one of the queue's threads, or a datagram that is skipped. -/
theorem serverStep_cases {s s' : Threads} {e : ServerEv} (h : s.serverStep e = some s') :
    (∃ e', s.step e' = some s') ∧ s'.received = s.received ++ (datagrams [e]).map recvBuffer ∨
      s' = s ∧ datagrams [e] = [] := by
  cases e with
  | recvData datagram =>
    simp only [serverStep] at h
    by_cases hempty : datagram.length = 0
    · rw [if_pos hempty] at h
      split at h
      · obtain rfl := Option.some.inj h
        exact Or.inr ⟨rfl, by simp [datagrams, List.length_eq_zero_iff.mp hempty]⟩
      · cases h
    · rw [if_neg hempty] at h
      refine Or.inl ⟨⟨_, h⟩, ?_⟩
      unfold step at h
      split at h
      · cases h
      · simp only [next] at h
        split at h
        · obtain rfl := Option.some.inj h
          simp [datagrams, mt List.length_eq_zero_iff.mpr hempty]
        · cases h
  | recvMessage =>
    refine Or.inl ⟨⟨_, h⟩, ?_⟩
    simp only [serverStep, step] at h
    split at h
    · cases h
    · simpa [datagrams] using produce_received h
  | broadCast =>
    refine Or.inl ⟨⟨_, h⟩, ?_⟩
    simp only [serverStep, step] at h
    split at h
    · cases h
    · simp only [next] at h
      split at h
      · obtain rfl := Option.some.inj h
        simp [datagrams]
      · cases h
  | sendMessage =>
    refine Or.inl ⟨⟨_, h⟩, ?_⟩
    simp only [serverStep, step] at h
    split at h
    · cases h
    · simpa [datagrams] using consume_received h

theorem run_received {es : List ServerEv} {s s' : Threads} (h : run serverStep s es = some s') :
    s'.received = s.received ++ (datagrams es).map recvBuffer := by
  induction es generalizing s with
  | nil =>
    cases h
    simp [datagrams]
  | cons e es ih =>
    obtain ⟨t, ht, hr⟩ := Option.bind_eq_some_iff.mp h
    have hcons : datagrams (e :: es) = datagrams [e] ++ datagrams es := by
      rw [datagrams, ← List.singleton_append, List.filterMap_append]
      rfl
    rw [ih hr, hcons]
    rcases serverStep_cases ht with ⟨-, hrec⟩ | ⟨rfl, hnone⟩
    · rw [hrec, List.map_append, List.append_assoc]
    · rw [hnone, List.nil_append]

/-- What is broadcast is, in order, what the datagrams left in the server's buffer. -/
theorem broadcast_received {size : Int} (h : 0 < size) (h' : size < 2147483648) {es : List ServerEv} {s : Threads}
    (hrun : run serverStep (init (.sized size)) es = some s) : s.returned <+: (datagrams es).map recvBuffer := by
  have hinv : Inv size.toNat s ∧ Logged s := by
    refine run_inv (I := fun s => Inv size.toNat s ∧ Logged s) ?_ ⟨init_inv h, init_logged _⟩ hrun
    intro s e s' hi hs
    rcases serverStep_cases hs with ⟨⟨e', he'⟩, -⟩ | ⟨rfl, -⟩
    · exact ⟨step_inv hi.1 (by omega) (by omega) he', step_logged hi.2 he'⟩
    · exact hi
  have hrec := run_received hrun
  rw [init, List.nil_append] at hrec
  rw [← hrec]
  exact hinv.1.returned hinv.2

theorem recvBuffer_of_no_nul {t : Text} (h : 0 ∉ t) : recvBuffer t = t.take (maxLen - 1) := by
  unfold recvBuffer cstr
  rw [List.takeWhile_eq_self_iff]
  intro b hb
  have : b ≠ 0 := fun h0 => h (h0 ▸ List.mem_of_mem_take hb)
  simpa using this

/-- The text that a client gets back is the one that was sent exactly when it is shorter
    than the buffers. -/
theorem transparent_iff {serialize : Info → Text} {d : Info} (hnul : 0 ∉ serialize d)
    (hlong : d.message.length < (serialize d).length) {size : Int} (h : 0 < size) (h' : size < 2147483648)
    {es : List ServerEv} {s : Threads} (hrun : run serverStep (init (.sized size)) es = some s) {k : Nat} {data : Text}
    (hin : (datagrams es)[k]? = some (sendData (serialize d))) (hout : s.returned[k]? = some data) (strInfo : Text) :
    clientRecvData strInfo (sendData data) = serialize d ↔ (serialize d).length < maxLen := by
  have hdata : data = recvBuffer (serialize d) := by
    obtain ⟨rest, hrest⟩ := broadcast_received h h' hrun
    have hk : ((datagrams es).map recvBuffer)[k]? = some data := by
      rw [← hrest, List.getElem?_append_left (List.getElem?_eq_some_iff.mp hout).1]
      exact hout
    rw [List.getElem?_map, hin] at hk
    exact (Option.some.inj hk).symm
  have htake : recvBuffer (serialize d) = (serialize d).take (maxLen - 1) := recvBuffer_of_no_nul hnul
  have hlen : ((serialize d).take (maxLen - 1)).length = min (maxLen - 1) (serialize d).length := List.length_take
  have hnul' : 0 ∉ (serialize d).take (maxLen - 1) := fun hb => hnul (List.mem_of_mem_take hb)
  unfold clientRecvData sendData
  rw [hdata, htake, if_neg, recvBuffer_of_no_nul hnul', List.take_take, Nat.min_self]
  · rw [List.take_eq_self_iff]
    simp only [maxLen]
    omega
  · rw [hlen]
    simp only [maxLen]
    omega

def oneMessage (t : Text) : List ServerEv :=
  [.recvData (sendData t), .recvMessage, .recvMessage, .recvMessage, .recvMessage, .recvMessage, .broadCast,
    .sendMessage, .sendMessage, .sendMessage, .sendMessage, .sendMessage]

theorem run_oneMessage {t : Text} (h : t.length ≠ 0) :
    ∃ s, run serverStep (init (.sized 2)) (oneMessage t) = some s ∧ s.returned = [recvBuffer t] := by
  have hfirst : serverStep (init (.sized 2)) (.recvData (sendData t)) =
      some { init (.sized 2) with producer := .called, putMessage := recvBuffer t, received := [recvBuffer t] } :=
    if_neg h
  rw [oneMessage, run_cons hfirst]
  exact ⟨_, rfl, rfl⟩

theorem a_greeting_comes_back :
    clientRecvData [] (sendData (recvBuffer greeting.json)) = greeting.json ↔ greeting.json.length < maxLen := by
  obtain ⟨s, hrun, hret⟩ := run_oneMessage (t := greeting.json) (by decide +kernel)
  exact @transparent_iff Info.json greeting (by decide +kernel) (by decide +kernel) 2 (by decide) (by decide) _ s hrun 0 _
    rfl (by rw [hret]; rfl) []

def longLine : Info := ⟨ascii "ann", ascii "west", List.replicate 1000 97, ascii "None"⟩

/-- A line that the client's input takes comes back without its end. -/
theorem a_long_line_is_cut :
    ∃ s, run serverStep (init (.sized 2)) (oneMessage longLine.json) = some s ∧
      s.returned.map (fun data => clientRecvData [] (sendData data)) ≠ [longLine.json] := by
  obtain ⟨s, hrun, hret⟩ := run_oneMessage (t := longLine.json) (by decide +kernel)
  refine ⟨s, hrun, ?_⟩
  rw [hret]
  decide +kernel

end Threads

end GroupeChat.UdpChat
