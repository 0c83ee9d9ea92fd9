/-
  GroupeChat.ChatClient.LossReports — how a client asks for the chunks it misses (the
  reporting pass of `CmdModel::StartWriteFile`).

  The pass goes through `m_udpMap` in the order of the numbers and puts ten of them into
  one packet. The packet has one `sayToClientId`, which every entry overwrites with its own
  sender, so a packet about several senders is addressed to the last of them.

  `Covers`: every missing number is asked for once, of its sender, in packets that say how
  many they hold, and no packet is pushed twice or written to once it is pushed. All but
  the addressee holds for every map (`pass_done`); the whole holds exactly when each ten
  numbers in a row, and what is left of them, miss from one sender (`covers_iff_one_sender`).
  Two numbers from two senders are enough to break it (`two_senders_in_one_report`).
-/

import GroupeChat.Base.StdMap
import GroupeChat.ChatServer.LostNumbers

namespace GroupeChat.ChatClient

open Base
open ChatServer (loseNums)

/-- `m_udpMap`, a `map<int, int>`: the missing numbers, with their senders. -/
structure LoseMap where
  entries : StdMap Int Int
  ints : ∀ k v, entries.find? k = some v → wrap 4 k = k ∧ wrap 4 v = v

structure LossReport where
  buf : Buf
  /-- How many entries have been put into it. -/
  filled : Nat

def LossReport.numbers (r : LossReport) : List Int := loseNums r.buf (Proto.num r.buf).toNat

structure LossPass where
  /-- What `new char[220]` has given, in order; `next` of them. -/
  reports : Nat → LossReport
  next : Nat
  /-- The one `tmp` and `loseSend` point to. -/
  tmp : Nat
  i : Nat
  /-- Those pushed on `m_writeList`. -/
  pushed : List Nat
  /-- Those written to after they were pushed. -/
  late : List Nat

namespace LossPass

def init : LossPass := ⟨fun _ => ⟨fun _ => 0, 0⟩, 0, 0, 0, [], []⟩

def alloc (s : LossPass) (junk : Buf) : LossPass :=
  { s with reports := Function.update s.reports s.next ⟨junk, 0⟩, tmp := s.next, next := s.next + 1 }

def store (s : LossPass) (f : LossReport → LossReport) : LossPass :=
  { s with
    reports := Function.update s.reports s.tmp (f (s.reports s.tmp))
    late := if s.tmp ∈ s.pushed then s.late ++ [s.tmp] else s.late }

def packPush (s : LossPass) : LossPass := { s with pushed := s.pushed ++ [s.tmp] }

def fill (userId : Int) (e : Int × Int) (i : Nat) (r : LossReport) : LossReport :=
  { buf := (((((r.buf.putInt 4 12 1).putInt 4 0 CmdId.udpResend.code).putInt 4 4 userId).putInt 4 8 220).putInt 4
      Proto.peerOff e.2).putInt 4 (Proto.loseNumOff + 4 * i) e.1
    filled := r.filled + 1 }

def setNum (n : Nat) (r : LossReport) : LossReport := { r with buf := r.buf.putInt 4 Proto.numOff n }

/-- One turn of the loop over `m_udpMap`. -/
def turn (userId : Int) (junk : Nat → Buf) (s : LossPass) (e : Int × Int) : LossPass :=
  let s := if s.i = 0 then s.alloc (junk s.next) else s
  let s := s.store (fill userId e s.i)
  let s := { s with i := s.i + 1 }
  if s.i = 10 then { (s.store (setNum 10)).packPush with i := 0 } else s

def finish (s : LossPass) : LossPass :=
  if s.i ≠ 0 then { (s.store (setNum s.i)).packPush with i := 0 } else s

/-- The pass; the `n`-th new buffer holds `junk n`. -/
def pass (mUdpMap : StdMap Int Int) (userId : Int) (junk : Nat → Buf) : LossPass :=
  (mUdpMap.ascending.foldl (turn userId junk) .init).finish

end LossPass

namespace LoseMap

def pass (m : LoseMap) (userId : Int) (junk : Nat → Buf) : LossPass := LossPass.pass m.entries userId junk

def pushed (m : LoseMap) (userId : Int) (junk : Nat → Buf) : List LossReport :=
  (m.pass userId junk).pushed.map (m.pass userId junk).reports

/-- The missing numbers, each once and of its sender. -/
structure Covers (m : LoseMap) (userId : Int) (junk : Nat → Buf) : Prop where
  kind : ∀ r ∈ m.pushed userId junk, Proto.cmdId r.buf = CmdId.udpResend.code
  exact : ((m.pushed userId junk).flatMap LossReport.numbers).Perm (m.entries.toList.map Prod.fst)
  addressed : ∀ r ∈ m.pushed userId junk, ∀ n ∈ r.numbers, m.entries.find? n = some (Proto.peerId r.buf)
  counted : ∀ r ∈ m.pushed userId junk,
    Proto.num r.buf = r.filled ∧ 1 ≤ Proto.num r.buf ∧ Proto.num r.buf ≤ 10
  once : (m.pass userId junk).pushed.Nodup
  still : (m.pass userId junk).late = []

/-- The `j`-th ten entries. -/
def batch (es : List (Int × Int)) (j : Nat) : List (Int × Int) := (es.drop (10 * j)).take 10

def OneSender (es : List (Int × Int)) : Prop := ∀ e ∈ es, ∀ e' ∈ es, e.2 = e'.2

end LoseMap

namespace LossPass

open LoseMap (batch)
open ChatServer.UdpResend (loseNums_succ loseNums_congr)

/-! ## One packet -/

structure Asks (es : List (Int × Int)) (r : LossReport) : Prop where
  filled : r.filled = es.length
  numbers : loseNums r.buf es.length = es.map Prod.fst
  addressee : ∀ e, es.getLast? = some e → Proto.peerId r.buf = e.2
  cmdId : es ≠ [] → Proto.cmdId r.buf = CmdId.udpResend.code

theorem asks_nil (junk : Buf) : Asks [] ⟨junk, 0⟩ :=
  ⟨rfl, rfl, fun e he => (by cases he), fun h => absurd rfl h⟩

theorem Asks.fill {es : List (Int × Int)} {r : LossReport} {e : Int × Int} (h : Asks es r) (userId : Int)
    (hint : wrap 4 e.1 = e.1 ∧ wrap 4 e.2 = e.2) : Asks (es ++ [e]) (fill userId e es.length r) := by
  constructor
  case filled => simp [LossPass.fill, h.filled]
  case numbers =>
    have hold : loseNums (LossPass.fill userId e es.length r).buf es.length = loseNums r.buf es.length := by
      apply loseNums_congr
      intro i hi
      simp only [LossPass.fill, Proto.loseNum]
      rw [Mem.getInt_putInt_ne _ _ (Or.inl (by omega))]
      simp only [Proto.loseNumOff, Proto.peerOff]
      rw [Mem.getInt_putInt_ne _ _ (Or.inr (by omega)), Mem.getInt_putInt_ne _ _ (Or.inr (by omega)),
        Mem.getInt_putInt_ne _ _ (Or.inr (by omega)), Mem.getInt_putInt_ne _ _ (Or.inr (by omega)),
        Mem.getInt_putInt_ne _ _ (Or.inr (by omega))]
    have hnew : Proto.loseNum (LossPass.fill userId e es.length r).buf es.length = e.1 := by
      simp only [LossPass.fill, Proto.loseNum]
      rw [Mem.getInt_putInt, hint.1]
    rw [List.length_append, List.length_singleton, loseNums_succ, hold, h.numbers, hnew, List.map_append]
    rfl
  case addressee =>
    intro e' he'
    obtain rfl : e = e' := by simpa using he'
    simp only [LossPass.fill, Proto.peerId]
    rw [Mem.getInt_putInt_ne _ _ (Or.inl (by simp only [Proto.loseNumOff, Proto.peerOff]; omega)),
      Mem.getInt_putInt, hint.2]
  case cmdId =>
    intro _
    simp only [LossPass.fill, Proto.cmdId]
    rw [Mem.getInt_putInt_ne _ _ (Or.inl (by simp only [Proto.loseNumOff]; omega))]
    simp (disch := decide) only [Mem.getInt_putInt_ne, Mem.getInt_putInt]
    decide

/-- The count stands between the addressee and the numbers. -/
theorem Asks.setNum {es : List (Int × Int)} {r : LossReport} (h : Asks es r) (n : Nat) : Asks es (setNum n r) := by
  constructor
  case filled => exact h.filled
  case numbers =>
    rw [← h.numbers]
    apply loseNums_congr
    intro i _
    simp only [LossPass.setNum, Proto.loseNum]
    rw [Mem.getInt_putInt_ne _ _ (Or.inr (by simp only [Proto.loseNumOff, Proto.numOff]; omega))]
  case addressee =>
    intro e he
    rw [← h.addressee e he]
    exact Mem.getInt_putInt_ne _ _ (Or.inl (by decide))
  case cmdId =>
    intro hne
    rw [← h.cmdId hne]
    exact Mem.getInt_putInt_ne _ _ (Or.inl (by decide))

theorem num_setNum (r : LossReport) {n : Nat} (hn : n ≤ 10) : Proto.num (setNum n r).buf = n := by
  simp only [setNum, Proto.num]
  rw [Mem.getInt_putInt, wrap_four (by omega) (by omega)]

/-! ## Ten by ten -/

/-- A turn adds an entry to the packet under way, or pushes it full. -/
theorem turn_count {s : LossPass} (h : s.i < 10) (userId : Int) (junk : Nat → Buf) (e : Int × Int) :
    (s.turn userId junk e).i < 10 ∧
      10 * (s.turn userId junk e).pushed.length + (s.turn userId junk e).i = 10 * s.pushed.length + s.i + 1 := by
  obtain ⟨t, ht⟩ : ∃ t, t = (if s.i = 0 then s.alloc (junk s.next) else s) := ⟨_, rfl⟩
  have hi : t.i = s.i ∧ t.pushed = s.pushed := by
    rw [ht]
    split
    · exact ⟨rfl, rfl⟩
    · exact ⟨rfl, rfl⟩
  simp only [turn, ← ht, store, packPush]
  split
  · simp only [List.length_append, List.length_singleton, hi]
    omega
  · simp only [hi] at *
    omega

theorem foldl_count (userId : Int) (junk : Nat → Buf) (es : List (Int × Int)) :
    (es.foldl (turn userId junk) init).i < 10 ∧ 10 * (es.foldl (turn userId junk) init).pushed.length +
      (es.foldl (turn userId junk) init).i = es.length := by
  induction es using List.reverseRecOn with
  | nil => exact ⟨show 0 < 10 by decide, rfl⟩
  | append_singleton es e ih =>
    rw [List.foldl_append, List.length_append, ← ih.2]
    exact turn_count ih.1 userId junk e

/-- One packet for each ten entries, and one for what is left. -/
theorem pass_pushed (mUdpMap : StdMap Int Int) (userId : Int) (junk : Nat → Buf) :
    (pass mUdpMap userId junk).pushed.length = (mUdpMap.toList.length + 9) / 10 := by
  obtain ⟨hsmall, hcount⟩ := foldl_count userId junk mUdpMap.ascending
  rw [← mUdpMap.ascending_perm.length_eq, ← hcount]
  unfold pass finish
  split
  · simp only [packPush, store, List.length_append, List.length_singleton]
    omega
  · omega

theorem batch_length (es : List (Int × Int)) (j : Nat) : (batch es j).length = min 10 (es.length - 10 * j) := by
  simp [batch]

/-- A batch that is full stays as it is. -/
theorem batch_full {es : List (Int × Int)} {j : Nat} (e : Int × Int) (h : 10 * j + 10 ≤ es.length) :
    batch (es ++ [e]) j = batch es j := by
  unfold batch
  rw [List.drop_append_of_le_length (by omega), List.take_append_of_le_length (by rw [List.length_drop]; omega)]

/-- The one that is not takes the entry. -/
theorem batch_snoc {es : List (Int × Int)} {j : Nat} (e : Int × Int) (h : 10 * j ≤ es.length)
    (h' : es.length < 10 * j + 10) : batch (es ++ [e]) j = batch es j ++ [e] := by
  unfold batch
  rw [List.drop_append_of_le_length h, List.take_of_length_le, List.take_of_length_le]
  · rw [List.length_drop]
    omega
  · rw [List.length_append, List.length_drop, List.length_singleton]
    omega

theorem flatMap_batch (es : List (Int × Int)) (n : Nat) : (List.range n).flatMap (batch es) = es.take (10 * n) := by
  induction n with
  | zero => rfl
  | succ n ih =>
    rw [List.range_succ, List.flatMap_append, ih, Nat.mul_succ, List.take_add]
    simp [batch]

structure Reporting (es : List (Int × Int)) (s : LossPass) : Prop where
  count : 10 * s.pushed.length + s.i = es.length
  small : s.i < 10
  order : s.pushed = List.range s.pushed.length
  still : s.late = []
  next : s.next = s.pushed.length + if s.i = 0 then 0 else 1
  tmp : s.i ≠ 0 → s.tmp = s.pushed.length
  full : ∀ j < s.pushed.length, Asks (batch es j) (s.reports j) ∧ Proto.num (s.reports j).buf = 10
  current : s.i ≠ 0 → Asks (batch es s.pushed.length) (s.reports s.pushed.length)

theorem init_reporting : Reporting [] init :=
  ⟨rfl, by decide, rfl, rfl, rfl, fun h => absurd rfl h, fun j hj => absurd hj (Nat.not_lt_zero j),
    fun h => absurd rfl h⟩

structure Opened (es : List (Int × Int)) (s : LossPass) : Prop where
  count : 10 * s.pushed.length + s.i = es.length
  small : s.i ≤ 10
  order : s.pushed = List.range s.pushed.length
  still : s.late = []
  next : s.next = s.pushed.length + 1
  tmp : s.tmp = s.pushed.length
  full : ∀ j < s.pushed.length, Asks (batch es j) (s.reports j) ∧ Proto.num (s.reports j).buf = 10
  current : Asks (batch es s.pushed.length) (s.reports s.pushed.length)

theorem Reporting.opened {es : List (Int × Int)} {s : LossPass} (h : Reporting es s) (junk : Buf) :
    Opened es (if s.i = 0 then s.alloc junk else s) := by
  have hnext := h.next
  by_cases h0 : s.i = 0
  · rw [if_pos h0, Nat.add_zero] at hnext
    have hempty : batch es s.pushed.length = [] := by
      have hcount := h.count
      rw [← List.length_eq_zero_iff, batch_length]
      omega
    rw [if_pos h0]
    refine ⟨h.count, Nat.le_of_lt h.small, h.order, h.still, congrArg (· + 1) hnext, hnext, fun j hj => ?_, ?_⟩
    · have hne : j ≠ s.next := by
        rw [hnext]
        exact Nat.ne_of_lt hj
      show Asks _ (Function.update s.reports s.next _ j) ∧ _
      simp only [alloc, Function.update_of_ne hne]
      exact h.full j hj
    · show Asks (batch es s.pushed.length) (Function.update s.reports s.next _ s.pushed.length)
      rw [← hnext, Function.update_self, hnext, hempty]
      exact asks_nil junk
  · rw [if_neg h0] at hnext ⊢
    exact ⟨h.count, Nat.le_of_lt h.small, h.order, h.still, hnext, h.tmp h0, h.full, h.current h0⟩

/-- A store into it, which has not been pushed. -/
theorem Opened.store {es : List (Int × Int)} {s : LossPass} (h : Opened es s) (f : LossReport → LossReport) :
    (s.store f).late = [] ∧ (s.store f).reports s.pushed.length = f (s.reports s.pushed.length) ∧
      ∀ j < s.pushed.length, (s.store f).reports j = s.reports j := by
  refine ⟨?_, ?_, fun j hj => ?_⟩
  · have hout : s.tmp ∉ s.pushed := by
      rw [h.order, h.tmp, List.mem_range]
      exact Nat.lt_irrefl _
    simp only [LossPass.store, if_neg hout, h.still]
  · simp only [LossPass.store, h.tmp, Function.update_self]
  · have hne : j ≠ s.tmp := by
      rw [h.tmp]
      exact Nat.ne_of_lt hj
    simp only [LossPass.store, Function.update_of_ne hne]

/-- The packet takes the entry. -/
theorem Opened.filled {es : List (Int × Int)} {s : LossPass} {e : Int × Int} (h : Opened es s) (hroom : s.i < 10)
    (userId : Int) (hint : wrap 4 e.1 = e.1 ∧ wrap 4 e.2 = e.2) :
    Opened (es ++ [e]) { s.store (fill userId e s.i) with i := s.i + 1 } := by
  have hcount := h.count
  obtain ⟨hstill, hself, hothers⟩ := h.store (fill userId e s.i)
  constructor
  case count =>
    show 10 * s.pushed.length + (s.i + 1) = (es ++ [e]).length
    rw [List.length_append, List.length_singleton]
    omega
  case small => exact hroom
  case order => exact h.order
  case still => exact hstill
  case next => exact h.next
  case tmp => exact h.tmp
  case full =>
    intro j (hj : j < s.pushed.length)
    show Asks _ ((s.store (fill userId e s.i)).reports j) ∧ _
    dsimp only
    rw [hothers j hj, batch_full e (by omega)]
    exact h.full j hj
  case current =>
    show Asks (batch (es ++ [e]) s.pushed.length) ((s.store (fill userId e s.i)).reports s.pushed.length)
    have hlen : s.i = (batch es s.pushed.length).length := by
      rw [batch_length]
      omega
    rw [hself, batch_snoc e (by omega) (by omega), hlen]
    exact h.current.fill userId hint

/-- It is pushed, with its count. -/
theorem Opened.flush {es : List (Int × Int)} {s : LossPass} (h : Opened es s) :
    ((s.store (setNum s.i)).packPush.pushed = List.range (s.pushed.length + 1) ∧
      (s.store (setNum s.i)).packPush.late = [] ∧ (s.store (setNum s.i)).packPush.next = s.pushed.length + 1) ∧
    (∀ j < s.pushed.length, Asks (batch es j) ((s.store (setNum s.i)).packPush.reports j) ∧
      Proto.num ((s.store (setNum s.i)).packPush.reports j).buf = 10) ∧
    Asks (batch es s.pushed.length) ((s.store (setNum s.i)).packPush.reports s.pushed.length) ∧
      Proto.num ((s.store (setNum s.i)).packPush.reports s.pushed.length).buf = s.i := by
  obtain ⟨hstill, hself, hothers⟩ := h.store (setNum s.i)
  refine ⟨⟨?_, hstill, h.next⟩, fun j hj => ?_, ?_⟩
  · show s.pushed ++ [s.tmp] = _
    rw [h.tmp, List.range_succ, ← h.order]
  · show Asks _ ((s.store (setNum s.i)).reports j) ∧ Proto.num ((s.store (setNum s.i)).reports j).buf = 10
    rw [hothers j hj]
    exact h.full j hj
  · show Asks _ ((s.store (setNum s.i)).reports s.pushed.length) ∧
      Proto.num ((s.store (setNum s.i)).reports s.pushed.length).buf = s.i
    rw [hself]
    exact ⟨h.current.setNum s.i, num_setNum _ h.small⟩

theorem turn_reporting {es : List (Int × Int)} {s : LossPass} {e : Int × Int} (h : Reporting es s) (userId : Int)
    (junk : Nat → Buf) (hint : wrap 4 e.1 = e.1 ∧ wrap 4 e.2 = e.2) : Reporting (es ++ [e]) (s.turn userId junk e) := by
  obtain ⟨t, ht⟩ : ∃ t, t = if s.i = 0 then s.alloc (junk s.next) else s := ⟨_, rfl⟩
  have hi : t.i = s.i := by
    rw [ht]
    split <;> rfl
  have hopen : Opened es t := ht ▸ h.opened (junk s.next)
  obtain ⟨u, hu⟩ : ∃ u, u = { t.store (fill userId e t.i) with i := t.i + 1 } := ⟨_, rfl⟩
  have hfilled : Opened (es ++ [e]) u := hu ▸ hopen.filled (hi ▸ h.small) userId hint
  have hpos : u.i ≠ 0 := by
    rw [hu]
    exact Nat.succ_ne_zero _
  have hturn : s.turn userId junk e = if u.i = 10 then { (u.store (setNum 10)).packPush with i := 0 } else u := by
    rw [hu, ht]
    rfl
  obtain ⟨hsmall, hcount⟩ := turn_count h.small userId junk e
  rw [h.count] at hcount
  rw [hturn] at hsmall hcount ⊢
  by_cases hten : u.i = 10
  · obtain ⟨⟨hpushed, hlate, hnext⟩, hfull, hcurrent, hnum⟩ := hfilled.flush
    have hlen := congrArg List.length hpushed
    rw [List.length_range] at hlen
    rw [hten] at hpushed hlate hnext hfull hcurrent hnum hlen
    rw [if_pos hten] at hsmall hcount ⊢
    refine ⟨by rw [List.length_append]; exact hcount, hsmall, ?_, hlate, ?_, fun h => absurd rfl h,
      fun j hj => ?_, fun h => absurd rfl h⟩
    · show (u.store (setNum 10)).packPush.pushed = List.range (u.store (setNum 10)).packPush.pushed.length
      rw [hlen]
      exact hpushed
    · show (u.store (setNum 10)).packPush.next = (u.store (setNum 10)).packPush.pushed.length + 0
      rw [hlen]
      exact hnext
    · change j < (u.store (setNum 10)).packPush.pushed.length at hj
      rw [hlen] at hj
      by_cases hlast : j = u.pushed.length
      · rw [hlast]
        exact ⟨hcurrent, hnum⟩
      · exact hfull j (by omega)
  · rw [if_neg hten] at hsmall ⊢
    refine ⟨hfilled.count, hsmall, hfilled.order, hfilled.still, ?_, fun _ => hfilled.tmp, hfilled.full,
      fun _ => hfilled.current⟩
    rw [if_neg hpos]
    exact hfilled.next

/-! ## The pass -/

theorem foldl_reporting {userId : Int} {junk : Nat → Buf} {es : List (Int × Int)}
    (hint : ∀ e ∈ es, wrap 4 e.1 = e.1 ∧ wrap 4 e.2 = e.2) : Reporting es (es.foldl (turn userId junk) init) := by
  induction es using List.reverseRecOn with
  | nil => exact init_reporting
  | append_singleton es e ih =>
    rw [List.foldl_append]
    exact turn_reporting (ih fun e he => hint e (List.mem_append_left _ he)) userId junk
      (hint e (List.mem_append_right _ (List.mem_singleton_self e)))

structure Done (es : List (Int × Int)) (s : LossPass) : Prop where
  pushed : s.pushed = List.range ((es.length + 9) / 10)
  still : s.late = []
  built : ∀ j < (es.length + 9) / 10, Asks (batch es j) (s.reports j) ∧
    Proto.num (s.reports j).buf = (batch es j).length

theorem Reporting.finish {es : List (Int × Int)} {s : LossPass} (h : Reporting es s) : Done es s.finish := by
  have hcount := h.count
  have hsmall := h.small
  have hten : ∀ j < s.pushed.length, (batch es j).length = 10 := by
    intro j hj
    rw [batch_length]
    omega
  unfold LossPass.finish
  by_cases h0 : s.i = 0
  · have hlen : (es.length + 9) / 10 = s.pushed.length := by omega
    rw [if_neg (not_not.mpr h0)]
    refine ⟨by rw [hlen]; exact h.order, h.still, fun j hj => ?_⟩
    rw [hlen] at hj
    rw [hten j hj]
    exact h.full j hj
  · have hlen : (es.length + 9) / 10 = s.pushed.length + 1 := by omega
    have hopen : Opened es s := by
      have := h.opened fun _ => 0
      rwa [if_neg h0] at this
    obtain ⟨⟨hpushed, hlate, -⟩, hfull, hcurrent, hnum⟩ := hopen.flush
    rw [if_pos h0]
    refine ⟨by rw [hlen]; exact hpushed, hlate, fun j hj => ?_⟩
    rw [hlen] at hj
    by_cases hlast : j = s.pushed.length
    · have hlen' : (batch es s.pushed.length).length = s.i := by
        rw [batch_length]
        omega
      rw [hlast, hlen']
      exact ⟨hcurrent, hnum⟩
    · have hj : j < s.pushed.length := by omega
      rw [hten j hj]
      exact hfull j hj

end LossPass

namespace LoseMap

open LossPass (Asks Done)

/-- All that the pass does for every map. -/
theorem pass_done (m : LoseMap) (userId : Int) (junk : Nat → Buf) : Done m.entries.ascending (m.pass userId junk) :=
  (LossPass.foldl_reporting fun e he => m.ints e.1 e.2 (StdMap.mem_ascending.mp he)).finish

/-- A packet pushed is a batch's. -/
theorem mem_pushed {m : LoseMap} {userId : Int} {junk : Nat → Buf} {r : LossReport} (h : r ∈ m.pushed userId junk) :
    ∃ j, batch m.entries.ascending j ≠ [] ∧ r = (m.pass userId junk).reports j ∧
      Asks (batch m.entries.ascending j) r ∧ Proto.num r.buf = (batch m.entries.ascending j).length := by
  obtain ⟨hpushed, -, hbuilt⟩ := m.pass_done userId junk
  obtain ⟨j, hj, rfl⟩ := List.mem_map.mp h
  rw [hpushed, List.mem_range] at hj
  refine ⟨j, ?_, rfl, hbuilt j hj⟩
  rw [← List.length_pos_iff, LossPass.batch_length]
  omega

/-- And every batch has one. -/
theorem pushed_of_batch {m : LoseMap} (userId : Int) (junk : Nat → Buf) {j : Nat}
    (h : batch m.entries.ascending j ≠ []) : (m.pass userId junk).reports j ∈ m.pushed userId junk := by
  obtain ⟨hpushed, -, -⟩ := m.pass_done userId junk
  rw [← List.length_pos_iff, LossPass.batch_length] at h
  refine List.mem_map_of_mem ?_
  rw [hpushed, List.mem_range]
  omega

theorem numbers_of_asks {es : List (Int × Int)} {r : LossReport} (h : Asks es r) (hnum : Proto.num r.buf = es.length) :
    r.numbers = es.map Prod.fst := by
  rw [LossReport.numbers, hnum, Int.toNat_natCast, h.numbers]

theorem flatMap_numbers (m : LoseMap) (userId : Int) (junk : Nat → Buf) :
    (m.pushed userId junk).flatMap LossReport.numbers = m.entries.ascending.map Prod.fst := by
  obtain ⟨hpushed, -, hbuilt⟩ := m.pass_done userId junk
  have hnumbers : ∀ j ∈ List.range ((m.entries.ascending.length + 9) / 10),
      ((m.pass userId junk).reports j).numbers = (batch m.entries.ascending j).map Prod.fst := by
    intro j hj
    obtain ⟨h, hnum⟩ := hbuilt j (List.mem_range.mp hj)
    exact numbers_of_asks h hnum
  calc (m.pushed userId junk).flatMap LossReport.numbers
      = (List.range ((m.entries.ascending.length + 9) / 10)).flatMap fun j =>
          ((m.pass userId junk).reports j).numbers := by rw [pushed, hpushed, List.flatMap_map]
    _ = (List.range ((m.entries.ascending.length + 9) / 10)).flatMap fun j =>
          (batch m.entries.ascending j).map Prod.fst := List.flatMap_congr hnumbers
    _ = ((List.range ((m.entries.ascending.length + 9) / 10)).flatMap (batch m.entries.ascending)).map Prod.fst :=
        (List.map_flatMap ..).symm
    _ = m.entries.ascending.map Prod.fst := by rw [LossPass.flatMap_batch, List.take_of_length_le (by omega)]

/-- A batch's packet is addressed to the senders of its numbers when they are one. -/
theorem addressed_iff {m : LoseMap} {es : List (Int × Int)} {r : LossReport} (hes : ∀ e ∈ es, e ∈ m.entries.ascending)
    (hne : es ≠ []) (h : Asks es r) (hnum : Proto.num r.buf = es.length) :
    (∀ n ∈ r.numbers, m.entries.find? n = some (Proto.peerId r.buf)) ↔ OneSender es := by
  obtain ⟨last, hlast⟩ := List.getLast?_isSome.mpr hne |> Option.isSome_iff_exists.mp
  have hlastMem : last ∈ es := List.mem_of_getLast? hlast
  have hfind : ∀ e ∈ es, m.entries.find? e.1 = some e.2 := fun e he => StdMap.mem_ascending.mp (hes e he)
  rw [numbers_of_asks h hnum, h.addressee last hlast]
  refine ⟨?_, ?_⟩
  · intro hall e he e' he'
    have hone := hall e.1 (List.mem_map_of_mem he)
    have htwo := hall e'.1 (List.mem_map_of_mem he')
    rw [hfind e he] at hone
    rw [hfind e' he'] at htwo
    rw [Option.some.inj hone, Option.some.inj htwo]
  · intro hone n hn
    obtain ⟨e, he, rfl⟩ := List.mem_map.mp hn
    rw [hfind e he, hone e he last hlastMem]

/-- Whatever is missing, it is asked for as it should exactly when each ten numbers in a row,
    and what is left of them, miss from one sender. -/
theorem covers_iff_one_sender (m : LoseMap) (userId : Int) (junk : Nat → Buf) :
    m.Covers userId junk ↔ ∀ j, OneSender (batch m.entries.ascending j) := by
  have hbatch : ∀ j, ∀ e ∈ batch m.entries.ascending j, e ∈ m.entries.ascending :=
    fun j e he => List.mem_of_mem_drop (List.mem_of_mem_take he)
  obtain ⟨hpushed, hstill, hbuilt⟩ := m.pass_done userId junk
  refine ⟨?_, ?_⟩
  · intro h j
    by_cases hne : batch m.entries.ascending j = []
    · rw [hne]
      exact fun e he => absurd he List.not_mem_nil
    · have hmem := pushed_of_batch userId junk hne
      have hj : j < (m.entries.ascending.length + 9) / 10 := by
        rw [← ne_eq, ← List.length_pos_iff, LossPass.batch_length] at hne
        omega
      exact (addressed_iff (hbatch j) hne (hbuilt j hj).1 (hbuilt j hj).2).mp (h.addressed _ hmem)
  · intro h
    constructor
    case kind =>
      intro r hr
      obtain ⟨j, hne, -, hb, -⟩ := mem_pushed hr
      exact hb.cmdId hne
    case exact =>
      rw [flatMap_numbers]
      exact m.entries.ascending_perm.map Prod.fst
    case addressed =>
      intro r hr
      obtain ⟨j, hne, -, hb, hnum⟩ := mem_pushed hr
      exact (addressed_iff (hbatch j) hne hb hnum).mpr (h j)
    case counted =>
      intro r hr
      obtain ⟨j, hne, -, hb, hnum⟩ := mem_pushed hr
      have hlen := LossPass.batch_length m.entries.ascending j
      have hpos := List.length_pos_iff.mpr hne
      rw [hb.filled, hnum]
      omega
    case once =>
      rw [hpushed]
      exact List.nodup_range
    case still => exact hstill

/-- Chunk 1 misses from user 5 and chunk 3 from user 6: user 6 is asked for both. -/
theorem two_senders_in_one_report : ∃ m : LoseMap, ¬ m.Covers 7 fun _ _ => 0 := by
  refine ⟨⟨(StdMap.set (StdMap.set ∅ 1 5) 3 6), fun k v h => ?_⟩, fun h => ?_⟩
  · rcases StdMap.of_find?_set h with ⟨rfl, rfl⟩ | h
    · decide
    · rcases StdMap.of_find?_set h with ⟨rfl, rfl⟩ | h
      · decide
      · cases h
  · have haddressed := h.addressed
    revert haddressed
    decide +kernel

end LoseMap

end GroupeChat.ChatClient
