/-
  GroupeChat.ChatServer.Enqueue — appending a rewritten packet while the I/O thread sends.

  `setWriteSocketFdFlag` queues a packet for a user in three steps: `m_copy`, a store
  through the pointer that `m_copy` returned (the sender's id over the addressee's, or
  the command of a heartbeat), `setPosition`. `m_copy` lets its lock go and the other two
  take none, so the I/O thread's `startSend` can move the buffer under an enqueue: the
  copy is then moved before the store reaches it, or moved only in part.

  `Lane` is a send buffer with the enqueue under way. `finish` is what completing that
  enqueue alone would leave. `Sound` asks that, now and after `finish`, the bytes
  accepted by `send()` and then the bytes buffered are the rewritten packets in enqueue
  order, and that no store left the allocation. `sound_iff_kept` says exactly when a run
  keeps it: every send leaves the queued bytes, and those of the packet under way,
  standing `nread` places lower, the store counted as done (`Kept`). A send between the
  steps that takes nothing is harmless (`kept_of_nothing`); one that takes everything
  after `m_copy` is not (`a_send_between_copy_and_store`).
-/

import GroupeChat.ChatServer.CmdSend

namespace GroupeChat.ChatServer

open Base

/-! ## The store through the returned pointer -/

/-- Offset of the field that the store goes to: `head.cmdId` for the server's own
    heartbeat (a SENDtoONE from user 0), else the client id after the header. -/
def storeField (pack : Buf) : Nat :=
  if Proto.cmdId pack = CmdId.sendToOne.code ∧ Proto.userId pack = 0 then 0 else 16

def storeValue (pack : Buf) : Int :=
  if Proto.cmdId pack = CmdId.sendToOne.code ∧ Proto.userId pack = 0 then CmdId.heartbeat.code
  else Proto.userId pack

/-- `stmp->recvFromWhichClient = tmp->head.userId`, or `stmp->head.cmdId = HEARTBEAT`,
    with `stmp` at `ptr`. -/
def overwrite (buf : Buf) (ptr : Nat) (pack : Buf) : Buf :=
  buf.putInt 4 (ptr + storeField pack) (storeValue pack)

/-- The packet the user is to get. -/
def rewritten (pack : Buf) (length : Nat) : List UInt8 := (overwrite pack 0 pack).read 0 length

theorem overwrite_below (buf pack : Buf) {ptr i : Nat} (h : i < ptr) : overwrite buf ptr pack i = buf i :=
  Mem.putInt_below _ _ _ (by omega)

/-- A copy of the packet with the store done in it is the rewritten packet. -/
theorem read_overwrite {buf pack : Buf} {ptr length : Nat}
    (h : ∀ i < length, buf (ptr + i) = pack i) :
    (overwrite buf ptr pack).read ptr length = rewritten pack length := by
  refine Mem.read_eq_iff.mpr fun i hi => ?_
  rw [Nat.zero_add, overwrite, overwrite, Nat.zero_add, Mem.putInt, Mem.putInt]
  exact Mem.write_shift _ (h i hi)

/-- The queued bytes with a packet copied behind them and the store done in it. -/
theorem read_enqueued (s : CmdSend) (pack : Buf) (length : Nat) :
    (overwrite (s.mSendBuff.write s.mPosition (pack.read 0 length)) s.mPosition pack).read 0 (s.mPosition + length) =
      s.buffered ++ rewritten pack length := by
  set b := s.mSendBuff.write s.mPosition (pack.read 0 length) with hb
  have hnew : ∀ i < length, b (s.mPosition + i) = pack i := by
    intro i hi
    have := Mem.write_at s.mSendBuff (pack.read 0 length) s.mPosition (i := i) (by simpa using hi)
    simpa using this
  have hold : (overwrite b s.mPosition pack).read 0 s.mPosition = s.buffered := by
    rw [CmdSend.buffered, ← Mem.read_write_below s.mSendBuff (pack.read 0 length) (Nat.le_of_eq (Nat.zero_add s.mPosition))]
    exact Mem.read_eq_iff.mpr fun i hi => overwrite_below _ _ (by omega)
  rw [Mem.read_append, hold, Nat.zero_add, read_overwrite hnew]

/-! ## One user's buffer and the enqueue under way -/

structure Flight where
  pack : Buf
  length : Nat
  /-- What `m_copy` returned. -/
  ptr : Nat
  stored : Bool

structure Lane where
  send : CmdSend
  flight : Option Flight
  sent : List UInt8
  /-- The packets whose enqueue ended, rewritten, in order. -/
  done : List (List UInt8)
  /-- The end of the furthest store into `m_sendBuff` so far. -/
  top : Nat

namespace Lane

inductive Ev where
  | mCopy (pack : Buf) (length : Nat)
  | overwrite
  | setPosition
  | startSend (nread : Int)

def init (junk : Buf) : Lane := ⟨.new junk, none, [], [], 0⟩

def step (s : Lane) : Ev → Option Lane
  | .mCopy pack length =>
    match s.flight with
    | none =>
      let c := s.send.mCopy pack length
      some { s with
        send := c.1
        flight := some ⟨pack, length, c.2, false⟩
        top := max s.top (c.2 + length) }
    | some _ => none
  | .overwrite =>
    match s.flight with
    | some f =>
      if f.stored then none
      else some { s with
        send := { s.send with mSendBuff := ChatServer.overwrite s.send.mSendBuff f.ptr f.pack }
        flight := some { f with stored := true }
        top := max s.top (f.ptr + storeField f.pack + 4) }
    | none => none
  | .setPosition =>
    match s.flight with
    | some f =>
      if f.stored then some { s with
        send := s.send.setPosition f.length
        flight := none
        done := s.done ++ [rewritten f.pack f.length] }
      else none
    | none => none
  | .startSend nread =>
    if -1 ≤ nread ∧ nread ≤ s.send.mPosition then
      some { s with send := (s.send.startSend nread).1, sent := s.sent ++ s.send.mSendBuff.read 0 nread.toNat }
    else none

/-- A buffer with the store of the enqueue under way done. -/
def pend (s : Lane) (buf : Buf) : Buf :=
  match s.flight with
  | some f => if f.stored then buf else ChatServer.overwrite buf f.ptr f.pack
  | none => buf

def room (s : Lane) : Nat :=
  match s.flight with
  | some f => f.length
  | none => 0

def coming (s : Lane) : List (List UInt8) :=
  match s.flight with
  | some f => [rewritten f.pack f.length]
  | none => []

/-- The enqueue under way run to its end, with no send in between. -/
def finish (s : Lane) : Lane :=
  { s with
    send := ⟨s.send.mPosition + s.room, s.pend s.send.mSendBuff⟩
    flight := none
    done := s.done ++ s.coming }

/-- Accepted, then buffered, are the enqueued packets, complete and rewritten. -/
def InOrder (s : Lane) : Prop := s.sent ++ s.send.buffered = s.done.flatten

instance : DecidablePred InOrder := fun s => inferInstanceAs (Decidable (_ = s.done.flatten))

/-- The stream is right, stays right when the enqueue under way ends, and no store left
    the allocation. -/
def Sound (s : Lane) : Prop := s.top ≤ CmdSend.sendBuffSize ∧ s.InOrder ∧ s.finish.InOrder

instance : DecidablePred Sound := fun s =>
  inferInstanceAs (Decidable (s.top ≤ CmdSend.sendBuffSize ∧ s.InOrder ∧ s.finish.InOrder))

/-- The steps that keep a lane sound. A copy and a store must end inside the allocation.
    A send of `nread` bytes must leave what is queued and what is under way `nread`
    places lower: its move reaches only the first `nread` bytes, and the store still goes
    to the old place. -/
def Kept (s : Lane) : Ev → Prop
  | .mCopy _ length => s.send.mPosition + length ≤ CmdSend.sendBuffSize
  | .overwrite => ∀ f, s.flight = some f → f.ptr + storeField f.pack + 4 ≤ CmdSend.sendBuffSize
  | .setPosition => True
  | .startSend nread =>
    ∀ i < s.send.mPosition + s.room - nread.toNat,
      s.pend (fun j => if j < nread.toNat then s.send.mSendBuff (nread.toNat + j) else s.send.mSendBuff j) i =
        s.pend s.send.mSendBuff (nread.toNat + i)

/-! ## What each step does -/

def PtrAhead (s : Lane) : Prop := ∀ f, s.flight = some f → s.send.mPosition ≤ f.ptr

theorem pend_below {s : Lane} (hs : s.PtrAhead) (buf : Buf) {i : Nat} (h : i < s.send.mPosition) :
    s.pend buf i = buf i := by
  cases hf : s.flight with
  | none => simp [pend, hf]
  | some f =>
    have := hs f hf
    simp only [pend, hf]
    split
    · rfl
    · exact overwrite_below _ _ (by omega)

/-- An enqueue starts when none is under way. -/
theorem mCopy_cases {s s' : Lane} {pack : Buf} {length : Nat} (h : step s (.mCopy pack length) = some s') :
    s.flight = none ∧ s' = { s with
      send := (s.send.mCopy pack length).1
      flight := some ⟨pack, length, (s.send.mCopy pack length).2, false⟩
      top := max s.top ((s.send.mCopy pack length).2 + length) } := by
  simp only [step] at h
  split at h
  · rename_i hf
    exact ⟨hf, (Option.some.inj h).symm⟩
  · cases h

theorem overwrite_cases {s s' : Lane} (h : step s .overwrite = some s') :
    ∃ f, s.flight = some f ∧ f.stored = false ∧ s' = { s with
      send := { s.send with mSendBuff := ChatServer.overwrite s.send.mSendBuff f.ptr f.pack }
      flight := some { f with stored := true }
      top := max s.top (f.ptr + storeField f.pack + 4) } := by
  simp only [step] at h
  split at h
  · rename_i f hf
    split at h
    · cases h
    · rename_i hst
      exact ⟨f, hf, Bool.eq_false_iff.mpr hst, (Option.some.inj h).symm⟩
  · cases h

theorem setPosition_cases {s s' : Lane} (h : step s .setPosition = some s') :
    ∃ f, s.flight = some f ∧ f.stored = true ∧ s' = { s with
      send := s.send.setPosition f.length
      flight := none
      done := s.done ++ [rewritten f.pack f.length] } := by
  simp only [step] at h
  split at h
  · rename_i f hf
    split at h
    · rename_i hst
      exact ⟨f, hf, hst, (Option.some.inj h).symm⟩
    · cases h
  · cases h

/-- What a send leaves: `nread` bytes less, and the first `nread` cells overwritten with
    the `nread` above them. -/
theorem startSend_cases {s s' : Lane} {nread : Int} (h : step s (.startSend nread) = some s') :
    nread.toNat ≤ s.send.mPosition ∧
      s' = { s with
        send := ⟨s.send.mPosition - nread.toNat, s.send.mSendBuff.move 0 nread.toNat nread.toNat⟩
        sent := s.sent ++ s.send.mSendBuff.read 0 nread.toNat } := by
  simp only [step] at h
  split at h
  · cases h
    refine ⟨by omega, ?_⟩
    simp only [CmdSend.startSend]
    split
    · rename_i hneg
      have hk : nread.toNat = 0 := by omega
      simp [hk, Mem.move]
    · rfl
  · cases h

theorem ptrAhead_step {s s' : Lane} {e : Ev} (hs : s.PtrAhead) (h : step s e = some s') : s'.PtrAhead := by
  cases e with
  | mCopy pack length =>
    obtain ⟨-, rfl⟩ := mCopy_cases h
    intro f hf
    obtain rfl := Option.some.inj hf
    exact Nat.le_refl _
  | overwrite =>
    obtain ⟨f, hf, -, rfl⟩ := overwrite_cases h
    intro g hg
    obtain rfl := Option.some.inj hg
    exact hs f hf
  | setPosition =>
    obtain ⟨f, -, -, rfl⟩ := setPosition_cases h
    intro g hg
    cases hg
  | startSend nread =>
    obtain ⟨-, rfl⟩ := startSend_cases h
    intro f hf
    exact Nat.le_trans (Nat.sub_le _ _) (hs f hf)

/-- `m_copy` puts the packet right after the queued bytes, so completing the enqueue there
    appends it rewritten. -/
theorem mCopy_sound {s s' : Lane} {pack : Buf} {length : Nat} (hs : s.Sound)
    (h : step s (.mCopy pack length) = some s') : s'.Sound ↔ Kept s (.mCopy pack length) := by
  obtain ⟨ho, hin, -⟩ := hs
  obtain ⟨-, rfl⟩ := mCopy_cases h
  set b := s.send.mSendBuff.write s.send.mPosition (pack.read 0 length) with hb
  have hold : b.read 0 s.send.mPosition = s.send.buffered := Mem.read_write_below _ _ (by omega)
  have h1 : s.sent ++ b.read 0 s.send.mPosition = s.done.flatten := by rw [hold]; exact hin
  have h2 : s.sent ++ (ChatServer.overwrite b s.send.mPosition pack).read 0 (s.send.mPosition + length) =
      (s.done ++ [rewritten pack length]).flatten := by
    rw [hb, read_enqueued, ← List.append_assoc, hin]
    simp
  simp only [Sound, InOrder, finish, pend, room, coming, Kept, CmdSend.mCopy, CmdSend.buffered, ← hb,
    Nat.max_le, ho, true_and, Bool.false_eq_true, if_false, h1, h2, and_true]

/-- The store changes nothing of what completing the enqueue leaves. -/
theorem overwrite_sound {s s' : Lane} (hp : s.PtrAhead) (hs : s.Sound) (h : step s .overwrite = some s') :
    s'.Sound ↔ Kept s .overwrite := by
  obtain ⟨ho, hin, hfin⟩ := hs
  obtain ⟨f, hf, hst, rfl⟩ := overwrite_cases h
  have hold : (ChatServer.overwrite s.send.mSendBuff f.ptr f.pack).read 0 s.send.mPosition = s.send.buffered :=
    Mem.read_eq_iff.mpr fun i hi => overwrite_below _ _ (by have := hp f hf; omega)
  have h1 : s.sent ++ (ChatServer.overwrite s.send.mSendBuff f.ptr f.pack).read 0 s.send.mPosition =
      s.done.flatten := by rw [hold]; exact hin
  have h2 : s.sent ++ (ChatServer.overwrite s.send.mSendBuff f.ptr f.pack).read 0 (s.send.mPosition + f.length) =
      (s.done ++ [rewritten f.pack f.length]).flatten := by
    simpa [InOrder, finish, pend, room, coming, hf, hst, CmdSend.buffered] using hfin
  simp only [Sound, InOrder, finish, pend, room, coming, Kept, CmdSend.buffered, Nat.max_le, ho, hf,
    Option.some.injEq, forall_eq', true_and, if_true, h1, h2, and_true]

/-- `setPosition` is the end of the enqueue. -/
theorem setPosition_sound {s s' : Lane} (hs : s.Sound) (h : step s .setPosition = some s') : s'.Sound := by
  obtain ⟨ho, -, hfin⟩ := hs
  obtain ⟨f, hf, hst, rfl⟩ := setPosition_cases h
  have h1 : s.sent ++ s.send.mSendBuff.read 0 (s.send.mPosition + f.length) =
      (s.done ++ [rewritten f.pack f.length]).flatten := by
    simpa [InOrder, finish, pend, room, coming, hf, hst, CmdSend.buffered] using hfin
  refine ⟨ho, h1, ?_⟩
  simpa [InOrder, finish, pend, room, coming, CmdSend.buffered, CmdSend.setPosition] using h1

theorem startSend_sound {s s' : Lane} {nread : Int} (hp : s.PtrAhead) (hs : s.Sound)
    (h : step s (.startSend nread) = some s') : s'.Sound ↔ Kept s (.startSend nread) := by
  obtain ⟨ho, hin, hfin⟩ := hs
  have hp' := ptrAhead_step hp h
  obtain ⟨hk, rfl⟩ := startSend_cases h
  set k := nread.toNat with hkdef
  set b := s.send.mSendBuff with hb
  set p := s.send.mPosition with hpos
  set t : Lane := { s with send := ⟨p - k, b.move 0 k k⟩, sent := s.sent ++ b.read 0 k } with ht
  have hmove : b.move 0 k k = fun j => if j < k then b (k + j) else b j := by
    funext j; exact Mem.move_down b k j
  -- what completing the enqueue leaves, before and after the send
  have hbefore : s.sent ++ (b.read 0 k ++ (s.pend b).read k (p + s.room - k)) = (s.done ++ s.coming).flatten := by
    have hread : (s.pend b).read 0 k = b.read 0 k :=
      Mem.read_eq_iff.mpr fun i hi => pend_below hp b (by omega)
    have hsplit : (s.pend b).read 0 (p + s.room) = b.read 0 k ++ (s.pend b).read k (p + s.room - k) := by
      rw [← hread, ← Nat.zero_add k, Nat.zero_add, ← Nat.add_sub_cancel' (show k ≤ p + s.room by omega),
        Mem.read_append, Nat.zero_add, Nat.add_sub_cancel_left]
    rw [← hsplit]
    exact hfin
  have hafter : t.finish.InOrder ↔ Kept s (.startSend nread) := by
    have hsum : p - k + s.room = p + s.room - k := by omega
    have : t.finish.InOrder ↔ (s.sent ++ b.read 0 k) ++ (s.pend (b.move 0 k k)).read 0 (p + s.room - k) =
        (s.done ++ s.coming).flatten := by rw [← hsum]; rfl
    rw [this, ← hbefore, ← List.append_assoc, List.append_cancel_left_eq, Mem.read_eq_iff, hmove]
    simp only [Nat.zero_add]
    rfl
  have hnow : t.finish.InOrder → t.InOrder := by
    intro hf
    have hlen : (s.sent ++ b.read 0 k).length + (p - k) = s.done.flatten.length := by
      have := congrArg List.length hin
      simp only [List.length_append, CmdSend.buffered, Mem.read_length] at this ⊢
      omega
    have hf' : (s.sent ++ b.read 0 k) ++ (t.pend (b.move 0 k k)).read 0 (p - k + s.room) =
        s.done.flatten ++ s.coming.flatten := by
      rw [← List.flatten_append]; exact hf
    rw [Mem.read_append, ← List.append_assoc] at hf'
    have hcut := List.append_inj_left hf' (by rw [List.length_append, Mem.read_length]; exact hlen)
    have hread : (t.pend (b.move 0 k k)).read 0 (p - k) = (b.move 0 k k).read 0 (p - k) :=
      Mem.read_eq_iff.mpr fun i hi => pend_below hp' _ (by simpa [ht] using hi)
    rw [hread] at hcut
    exact hcut
  rw [← hafter]
  exact ⟨fun hs => hs.2.2, fun hf => ⟨ho, hnow hf, hf⟩⟩

/-! ## Runs -/

theorem step_sound {s s' : Lane} {e : Ev} (hp : s.PtrAhead) (hs : s.Sound) (h : step s e = some s') :
    s'.Sound ↔ Kept s e := by
  cases e with
  | mCopy pack length => exact mCopy_sound hs h
  | overwrite => exact overwrite_sound hp hs h
  | setPosition => exact ⟨fun _ => trivial, fun _ => setPosition_sound hs h⟩
  | startSend nread => exact startSend_sound hp hs h

/-- Over any interleaving of enqueue steps and sends, the stream is the rewritten packets
    in enqueue order at every point exactly when every step of the run is `Kept`. -/
theorem sound_iff_kept (junk : Buf) (es : List Ev) :
    Always step Sound (init junk) es ↔ Along step Kept (init junk) es := by
  refine always_iff_along (I := fun s : Lane => s.PtrAhead ∧ s.Sound) (fun _ h => h.2) ?_ ⟨?_, Nat.zero_le _, rfl, rfl⟩
  · intro s e s' ⟨hp, hs⟩ h
    exact ⟨fun hc => ⟨ptrAhead_step hp h, (step_sound hp hs h).mpr hc⟩, (step_sound hp hs h).mp⟩
  · intro f hf
    cases hf

def hello : Buf := ((Mem.putInt 4 (fun _ => 0) 0 CmdId.sendToOthers.code).putInt 4 4 7).putInt 4 8 20

/-- With 20 bytes queued, `send()` accepts them all between the copy and the store of the
    next packet: the packet is moved to the front, the store goes to the old place, and
    the user gets it with the addressee still in it. -/
theorem a_send_between_copy_and_store :
    ¬ Always step Sound (init fun _ => 0)
      [.mCopy hello 20, .overwrite, .setPosition, .mCopy hello 20, .startSend 20, .overwrite, .setPosition] := by
  decide

/-- A send that accepts nothing is harmless wherever it falls. -/
theorem kept_of_nothing {s : Lane} {nread : Int} (h : nread ≤ 0) : Kept s (.startSend nread) := by
  intro i _
  simp [Int.toNat_of_nonpos h]

/-- With no enqueue under way, a send of at least half of what is buffered is kept. -/
theorem kept_of_half {s : Lane} {nread : Int} (hf : s.flight = none) (h : s.send.mPosition ≤ 2 * nread.toNat) :
    Kept s (.startSend nread) := by
  intro i hi
  have hi' : i < nread.toNat := by simp only [room, hf] at hi; omega
  simp [pend, hf, hi']

end Lane

end GroupeChat.ChatServer
