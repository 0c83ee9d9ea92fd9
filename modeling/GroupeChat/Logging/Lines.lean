/-
  GroupeChat.Logging.Lines — what becomes of the lines of the log.

  While the file takes what it is given, the file and then what is still to be written are
  the lines appended before the last swap, in order and whole, those too long for a buffer
  left out; where buffers were cut, some lines are missing and nothing else is changed
  (`log_in_order`). The rest is in the buffers of the callers.

  `stop` ends the thread after a bounded number of its statements, and the file has nothing
  of what was appended after the last swap (`stop_loses_the_rest`): the thread leaves its
  loop without another one.
-/

import GroupeChat.Base.Drain
import GroupeChat.Logging.AsyncLogging

namespace GroupeChat.Logging.AsyncLogging

open Base

/-- The file takes something whenever it is asked again. -/
def Takes : Ev → Prop
  | .thread takes => ∀ i, 0 < i → 0 < takes i
  | _ => True

/-- The lines that a buffer has room for. -/
def lines (l : List Line) : List Line := l.filter fits

def unwritten (s : AsyncLogging) : List Buffer :=
  match s.place with
  | .swapped => s.buffersToWrite
  | .writing i => s.buffersToWrite.drop i
  | _ => []

def bytes (l : List Buffer) : List UInt8 := l.flatMap fun b => b.data

def current (s : AsyncLogging) : List UInt8 := (s.currentBuffer_.map fun b => b.data).getD []

/-- The file and what is to be written are lines of before the last swap, all of them if no
    buffers were cut; those of after it are in the buffers of the callers. -/
structure Logged (s : AsyncLogging) : Prop where
  fault : s.fault = false
  kept : ∃ kept, List.Sublist kept (lines (s.appended.take s.taken)) ∧
    (s.erased = 0 → kept = lines (s.appended.take s.taken)) ∧
    kept.flatten = s.output.file_.written ++ bytes (unwritten s)
  late : (lines (s.appended.drop s.taken)).flatten = bytes s.buffers_ ++ current s

/-- What a log statement hands over is never too long for a buffer. -/
theorem lines_of_statements {l : List Line}
    (h : ∀ logline ∈ l, ∃ time basename_ line_ statement, Logger.line time basename_ line_ statement = some logline) :
    lines l = l := by
  apply List.filter_eq_self.mpr
  intro logline hmem
  obtain ⟨time, basename_, line_, statement, hline⟩ := h logline hmem
  have hlen : logline.length < kLargeBuffer := Nat.lt_trans (Logger.line_length hline) (by decide)
  exact decide_eq_true hlen

/-! ## Buffers of whole lines -/

def Holds (bs : List Buffer) (ls : List Line) : Prop :=
  ∃ groups : List (List Line), groups.flatten = ls ∧ bs.map (fun b => b.data) = groups.map List.flatten

theorem holds_nil : Holds [] [] := ⟨[], rfl, rfl⟩

theorem Holds.bytes {bs : List Buffer} {ls : List Line} (h : Holds bs ls) : bytes bs = ls.flatten := by
  obtain ⟨groups, rfl, hg⟩ := h
  rw [AsyncLogging.bytes, List.flatMap_def, hg]
  exact List.flatten_flatten.symm

theorem Holds.eq_nil {ls : List Line} (h : Holds [] ls) : ls = [] := by
  obtain ⟨groups, rfl, hg⟩ := h
  have hnil : groups = [] := by simpa using hg.symm
  rw [hnil]
  rfl

theorem Holds.snoc {bs : List Buffer} {ls : List Line} (h : Holds bs ls) {b : Buffer} {g : List Line}
    (hb : b.data = g.flatten) : Holds (bs ++ [b]) (ls ++ g) := by
  obtain ⟨groups, rfl, hg⟩ := h
  exact ⟨groups ++ [g], by simp, by simp [hg, hb]⟩

/-- The first buffer has the first lines. -/
theorem Holds.cons {b : Buffer} {bs : List Buffer} {ls : List Line} (h : Holds (b :: bs) ls) :
    ∃ g ls', ls = g ++ ls' ∧ b.data = g.flatten ∧ Holds bs ls' := by
  obtain ⟨groups, rfl, hg⟩ := h
  cases groups with
  | nil => simp at hg
  | cons g groups =>
    simp only [List.map_cons, List.cons.injEq] at hg
    exact ⟨g, groups.flatten, by simp, hg.1, groups, rfl, hg.2⟩

theorem Holds.take {bs : List Buffer} {ls : List Line} (h : Holds bs ls) (k : Nat) :
    ∃ ls', ls'.Sublist ls ∧ Holds (bs.take k) ls' := by
  obtain ⟨groups, rfl, hg⟩ := h
  refine ⟨(groups.take k).flatten, ?_, groups.take k, rfl, ?_⟩
  · have hsplit : groups.flatten = (groups.take k).flatten ++ (groups.drop k).flatten := by
      rw [← List.flatten_append, List.take_append_drop]
    rw [hsplit]
    exact List.sublist_append_left _ _
  · rw [List.map_take, List.map_take, hg]

/-! ## The invariant -/

structure Contents (s : AsyncLogging) : Prop where
  early : ∃ out pending, List.Sublist (out ++ pending) (lines (s.appended.take s.taken)) ∧
    (s.erased = 0 → out ++ pending = lines (s.appended.take s.taken)) ∧
    s.output.file_.written = out.flatten ∧ Holds (unwritten s) pending
  late : ∃ ls g, lines (s.appended.drop s.taken) = ls ++ g ∧ Holds s.buffers_ ls ∧ current s = g.flatten
  taken : s.taken ≤ s.appended.length
  /-- Between two rounds all that was written is out of the stream's buffer. -/
  flushed : unwritten s = [] → s.place ≠ .swapped → (∀ i, s.place ≠ .writing i) →
    s.output.file_.flushed = s.output.file_.written.length

theorem Contents.logged {s : AsyncLogging} (h : Contents s) (hf : s.fault = false) : Logged s := by
  obtain ⟨out, pending, hsub, hall, hw, hp⟩ := h.early
  obtain ⟨ls, g, hlate, hl, hg⟩ := h.late
  refine ⟨hf, ⟨out ++ pending, hsub, hall, ?_⟩, ?_⟩
  · rw [List.flatten_append, hw, hp.bytes]
  · rw [hlate, List.flatten_append, hl.bytes, hg]

theorem start_contents : Contents start where
  early := ⟨[], [], List.nil_sublist _, fun _ => rfl, rfl, holds_nil⟩
  late := ⟨[], [], rfl, holds_nil, rfl⟩
  taken := Nat.le_refl _
  flushed _ _ _ := rfl

theorem lines_snoc (l : List Line) (logline : Line) :
    lines (l ++ [logline]) = lines l ++ if fits logline then [logline] else [] := by
  simp only [lines, List.filter_append]
  cases hf : fits logline with
  | true => simp [hf]
  | false => simp [hf]

theorem append_contents {s : AsyncLogging} {logline : Line} (hb : Buffers s) (h : Contents s)
    (hint : logline.length < 2147483648) : Contents (s.append logline) := by
  obtain ⟨ls, g, hlate, hl, hg⟩ := h.late
  obtain ⟨current, hcur⟩ := hb.current
  have htake : (s.appended ++ [logline]).take s.taken = s.appended.take s.taken :=
    List.take_append_of_le_length h.taken
  have hdrop : (s.appended ++ [logline]).drop s.taken = s.appended.drop s.taken ++ [logline] :=
    List.drop_append_of_le_length h.taken
  have hcurrent : current.data = g.flatten := by
    rw [← hg, AsyncLogging.current, hcur]
    rfl
  have htaken : s.taken ≤ (s.appended ++ [logline]).length := by
    have hle := h.taken
    rw [List.length_append]
    omega
  rcases append_cases hint hcur hb.next with ⟨b, hdata, hfits, heq⟩ | ⟨b, hdata, heq⟩
  · rw [heq]
    refine ⟨?_, ⟨ls, g ++ [logline], ?_, hl, ?_⟩, htaken, h.flushed⟩
    · show ∃ out pending, List.Sublist (out ++ pending) (lines ((s.appended ++ [logline]).take s.taken)) ∧ _
      rw [htake]
      exact h.early
    · show lines ((s.appended ++ [logline]).drop s.taken) = _
      rw [hdrop, lines_snoc, hfits, if_pos rfl, hlate, List.append_assoc]
    · show b.data = _
      rw [hdata, hcurrent]
      simp
  · rw [heq]
    refine ⟨?_, ⟨ls ++ g, if fits logline then [logline] else [], ?_, hl.snoc hcurrent, ?_⟩, htaken, h.flushed⟩
    · show ∃ out pending, List.Sublist (out ++ pending) (lines ((s.appended ++ [logline]).take s.taken)) ∧ _
      rw [htake]
      exact h.early
    · show lines ((s.appended ++ [logline]).drop s.taken) = _
      rw [hdrop, lines_snoc, hlate]
    · show b.data = _
      rw [hdata]
      split
      · simp
      · rfl

/-- The swap makes all that was appended before the thread's to write. -/
theorem swap_contents {s : AsyncLogging} (hb : Buffers s) (h : Contents s) (hst : Stocked s) (hu : unwritten s = []) :
    Contents s.swap := by
  obtain ⟨out, pending, hsub, hall, hw, hp⟩ := h.early
  obtain ⟨ls, g, hlate, hl, hg⟩ := h.late
  obtain ⟨current, hcur⟩ := hb.current
  obtain ⟨h1, h2, hnone⟩ := hst
  rw [hu] at hp
  obtain rfl := hp.eq_nil
  rw [List.append_nil] at hsub hall
  have hcurrent : current.data = g.flatten := by
    rw [← hg, AsyncLogging.current, hcur]
    rfl
  have hsplit : lines s.appended = lines (s.appended.take s.taken) ++ (ls ++ g) := by
    rw [← hlate, lines, lines, lines, ← List.filter_append, List.take_append_drop]
  rw [swap_of_some hcur]
  refine ⟨⟨out, ls ++ g, ?_, ?_, hw, hl.snoc hcurrent⟩, ⟨[], [], ?_, ?_, ?_⟩, Nat.le_refl _, ?_⟩
  · show List.Sublist _ (lines (s.appended.take s.appended.length))
    rw [List.take_length, hsplit]
    exact hsub.append_right _
  · intro h0
    show _ = lines (s.appended.take s.appended.length)
    rw [List.take_length, hsplit, hall h0]
  · show lines (s.appended.drop s.appended.length) = _
    rw [List.drop_length]
    rfl
  · show Holds s.buffersToWrite []
    rw [hnone]
    exact holds_nil
  · show (s.newBuffer1.map fun b => b.data).getD [] = _
    rw [h1]
    rfl
  · intro _ hne _
    exact absurd rfl hne

theorem thread_contents {s s' : AsyncLogging} {takes : Nat → Nat} (ht : ∀ i, 0 < i → 0 < takes i) (hb : Buffers s)
    (h : Contents s) (hs : s.threadFunc takes = some s') : Contents s' := by
  have hplace := hb.place
  obtain ⟨out, pending, hsub, hall, hw, hp⟩ := h.early
  rcases thread_cases hb hs with ⟨hpl, -, rfl⟩ | ⟨hpl, -, rfl⟩ | ⟨hpl, -, rfl⟩ | ⟨hpl, rfl⟩ | ⟨hpl, -, rfl⟩ |
    ⟨hpl, -, rfl⟩ | ⟨i, b, hpl, hbuf, rfl⟩ | ⟨i, hpl, hge, rfl⟩
  · have hu : unwritten s = [] := by simp [unwritten, hpl]
    rw [hu] at hp
    exact ⟨⟨out, pending, hsub, hall, hw, hp⟩, h.late, h.taken,
      fun _ _ _ => h.flushed hu (by simp [hpl]) (by simp [hpl])⟩
  · have hu : unwritten s = [] := by simp [unwritten, hpl]
    rw [hu] at hp
    exact ⟨⟨out, pending, hsub, hall, hw, hp⟩, h.late, h.taken, fun _ _ _ => rfl⟩
  · have hu : unwritten s = [] := by simp [unwritten, hpl]
    rw [hu] at hp
    exact ⟨⟨out, pending, hsub, hall, hw, hp⟩, h.late, h.taken,
      fun _ _ _ => h.flushed hu (by simp [hpl]) (by simp [hpl])⟩
  · have hu : unwritten s = [] := by
      rcases hpl with hpl | hpl
      · simp [unwritten, hpl]
      · simp [unwritten, hpl]
    refine swap_contents hb h ?_ hu
    rcases hpl with hpl | hpl
    · simpa only [AtPlace, hpl] using hplace
    · simpa only [AtPlace, hpl] using hplace
  · have hu : unwritten s = s.buffersToWrite := by simp [unwritten, hpl]
    rw [hu] at hp
    obtain ⟨pending', hsub', hp'⟩ := hp.take 2
    refine ⟨⟨out, pending', (hsub'.append_left out).trans hsub, fun h0 => absurd h0 (Nat.succ_ne_zero _), hw, ?_⟩,
      h.late, h.taken, fun _ _ hne => absurd rfl (hne 0)⟩
    show Holds ((s.buffersToWrite.take 2).drop 0) pending'
    rwa [List.drop_zero]
  · have hu : unwritten s = s.buffersToWrite := by simp [unwritten, hpl]
    rw [hu] at hp
    refine ⟨⟨out, pending, hsub, hall, hw, ?_⟩, h.late, h.taken, fun _ _ hne => absurd rfl (hne 0)⟩
    show Holds (s.buffersToWrite.drop 0) pending
    rwa [List.drop_zero]
  · have hu : unwritten s = b :: s.buffersToWrite.drop (i + 1) := by
      simp only [unwritten, hpl]
      rw [List.drop_eq_getElem_cons (List.getElem?_eq_some_iff.mp hbuf).1]
      congr 1
      exact (List.getElem?_eq_some_iff.mp hbuf).2
    rw [hu] at hp
    obtain ⟨g, rest, rfl, hg, hp'⟩ := hp.cons
    rw [← List.append_assoc] at hsub hall
    refine ⟨⟨out ++ g, rest, hsub, hall, ?_, hp'⟩, h.late, h.taken, fun _ _ hne => absurd rfl (hne (i + 1))⟩
    show (s.output.append b.data takes).file_.written = _
    rw [LogFile.append_written ht, hw, hg, List.flatten_append]
  · have hu : unwritten s = [] := by
      simp only [unwritten, hpl]
      exact List.drop_eq_nil_of_le hge
    rw [hu] at hp
    exact ⟨⟨out, pending, hsub, hall, hw, hp⟩, h.late, h.taken, fun _ _ _ => rfl⟩

theorem step_contents {s s' : AsyncLogging} {e : Ev} (ht : Takes e) (hb : Buffers s) (h : Contents s)
    (hs : s.step e = some s') : Contents s' := by
  unfold step at hs
  rw [if_neg (by simp [hb.fault])] at hs
  cases e with
  | append logline =>
    dsimp only at hs
    split at hs
    · rename_i hint
      obtain rfl := Option.some.inj hs
      exact append_contents hb h hint
    · cases hs
  | stop =>
    dsimp only at hs
    split at hs
    · obtain rfl := Option.some.inj hs
      exact ⟨h.early, h.late, h.taken, h.flushed⟩
    · cases hs
  | thread takes => exact thread_contents ht hb h hs

theorem step_inv {s s' : AsyncLogging} {e : Ev} (ht : Takes e) (h : Buffers s ∧ Contents s) (hs : s.step e = some s') :
    Buffers s' ∧ Contents s' :=
  ⟨step_buffers h.1 hs, step_contents ht h.1 h.2 hs⟩

/-- Whatever callers and thread do, as long as the file takes what it is given: no assert
    fails and no null pointer is used, the file has whole lines in the order in which they
    were appended, with none missing unless more than 25 buffers had piled up, and what was
    appended since the last swap is in the buffers, in order. -/
theorem log_in_order {es : List Ev} (h : Along step (fun _ e => Takes e) start es) : Always step Logged start es := by
  have hall : Always step (fun s => Buffers s ∧ Contents s) start es :=
    always_of_along (fun _ _ _ hs hC he => step_inv hC hs he) ⟨start_buffers, start_contents⟩ h
  exact hall.mono fun s hs => hs.2.logged hs.1.fault

def oneRound : List Ev :=
  [.append [104, 105, 10], .append [104, 111, 10], .thread fun _ => 2, .thread fun _ => 2, .thread fun _ => 2,
    .thread fun _ => 2, .thread fun _ => 2, .append [98, 121, 101, 10], .thread fun _ => 2]

theorem oneRound_takes : ∀ e ∈ oneRound, Takes e := by
  simp [oneRound, Takes]

theorem along_takes {es : List Ev} (h : ∀ e ∈ es, Takes e) :
    ∀ {s : AsyncLogging}, Along step (fun _ e => Takes e) s es := by
  induction es with
  | nil => intro s; trivial
  | cons e es ih => intro s t _; exact ⟨h e (by simp), ih fun d hd => h d (by simp [hd])⟩

theorem oneRound_in_order : Always step Logged start oneRound := log_in_order (along_takes oneRound_takes)

/-! ## The end of the thread -/

def own : Ev → Prop
  | .thread takes => ∀ i, 0 < i → 0 < takes i
  | _ => False

theorem Takes.of_own {e : Ev} (h : own e) : Takes e := by
  cases e with
  | append logline => trivial
  | stop => trivial
  | thread takes => exact h

structure Stopping (s : AsyncLogging) : Prop where
  buffers : Buffers s
  contents : Contents s
  stopped : s.running_ = false

/-- The statements it still makes: with a round under way it writes what it has. -/
def left (s : AsyncLogging) : Nat :=
  match s.place with
  | .ended => 0
  | .top => 1
  | .writing i => 2 + (s.buffersToWrite.length - i)
  | .swapped => 3 + s.buffersToWrite.length
  | .asleep => 5 + s.buffers_.length
  | .entered => 6 + s.buffers_.length

theorem thread_running {s s' : AsyncLogging} {takes : Nat → Nat} (hb : Buffers s) (hs : s.threadFunc takes = some s') :
    s'.running_ = s.running_ := by
  rcases thread_cases hb hs with ⟨-, -, rfl⟩ | ⟨-, -, rfl⟩ | ⟨-, -, rfl⟩ | ⟨-, rfl⟩ | ⟨-, -, rfl⟩ | ⟨-, -, rfl⟩ |
    ⟨i, b, -, -, rfl⟩ | ⟨i, -, -, rfl⟩
  · rfl
  · rfl
  · rfl
  · obtain ⟨current, hcur⟩ := hb.current
    rw [swap_of_some hcur]
  · rfl
  · rfl
  · rfl
  · rfl

theorem thread_less {s s' : AsyncLogging} {takes : Nat → Nat} (h : Stopping s) (hs : s.threadFunc takes = some s') :
    left s' < left s := by
  rcases thread_cases h.buffers hs with ⟨-, hr, -⟩ | ⟨hp, -, rfl⟩ | ⟨hp, -, rfl⟩ | ⟨hp, rfl⟩ | ⟨hp, hlt, rfl⟩ |
    ⟨hp, -, rfl⟩ | ⟨i, b, hp, hb, rfl⟩ | ⟨i, hp, -, rfl⟩
  · rw [h.stopped] at hr
    cases hr
  · simp [left, hp]
  · simp [left, hp]
  · obtain ⟨current, hcur⟩ := h.buffers.current
    rw [swap_of_some hcur]
    rcases hp with hp | hp
    · simp only [left, hp, List.length_append, List.length_singleton]
      omega
    · simp only [left, hp, List.length_append, List.length_singleton]
      omega
  · simp only [left, hp, List.length_take]
    omega
  · simp only [left, hp]
    omega
  · have hlt := (List.getElem?_eq_some_iff.mp hb).1
    simp only [left, hp]
    omega
  · simp only [left, hp]
    omega

theorem step_thread {s : AsyncLogging} (h : s.fault = false) (takes : Nat → Nat) :
    s.step (.thread takes) = s.threadFunc takes := by
  simp [step, h]

theorem Stopping.own_step {s s' : AsyncLogging} {e : Ev} (h : Stopping s) (ho : own e) (hs : s.step e = some s') :
    Stopping s' ∧ left s' < left s := by
  obtain ⟨hb, hc⟩ := step_inv (.of_own ho) ⟨h.buffers, h.contents⟩ hs
  cases e with
  | append logline => exact ho.elim
  | stop => exact ho.elim
  | thread takes =>
    rw [step_thread h.buffers.fault] at hs
    exact ⟨⟨hb, hc, (thread_running h.buffers hs).trans h.stopped⟩, thread_less h hs⟩

/-- Only at its end does the thread have no next statement. -/
theorem Stopping.moves {s : AsyncLogging} (h : Stopping s) (hp : s.place ≠ .ended) :
    ∃ e s', own e ∧ s.step e = some s' := by
  have hsome : (s.threadFunc fun _ => 1).isSome := by
    unfold threadFunc
    cases hplace : s.place with
    | ended => exact absurd hplace hp
    | top => simp [h.stopped]
    | entered => dsimp only; split <;> rfl
    | asleep => rfl
    | swapped => dsimp only; split <;> (try split) <;> rfl
    | writing i => dsimp only; split <;> rfl
  obtain ⟨s', hs'⟩ := Option.isSome_iff_exists.mp hsome
  exact ⟨.thread fun _ => 1, s', fun _ _ => Nat.one_pos, by rw [step_thread h.buffers.fault, hs']⟩

theorem drains : Drains step own Stopping (fun s => s.place = .ended) left where
  good _ _ _ h ho hs := (h.own_step ho hs).1
  less _ _ _ h ho hs := (h.own_step ho hs).2
  moves _ h hp := h.moves hp

/-- The file of an ended thread: lines of before the last swap, as in `Logged`, all of them
    out of the stream's buffer, and none of those appended after it. -/
structure Closed (s : AsyncLogging) : Prop where
  ended : s.place = .ended
  written : ∃ kept, List.Sublist kept (lines (s.appended.take s.taken)) ∧
    (s.erased = 0 → kept = lines (s.appended.take s.taken)) ∧ s.output.file_.written = kept.flatten
  flushed : s.output.file_.flushed = s.output.file_.written.length

theorem Stopping.closed {s : AsyncLogging} (h : Stopping s) (hp : s.place = .ended) : Closed s := by
  have hu : unwritten s = [] := by simp [unwritten, hp]
  obtain ⟨out, pending, hsub, hall, hw, hpend⟩ := h.contents.early
  rw [hu] at hpend
  obtain rfl := hpend.eq_nil
  rw [List.append_nil] at hsub hall
  exact ⟨hp, ⟨out, hsub, hall, hw⟩, h.contents.flushed hu (by simp [hp]) (by simp [hp])⟩

/-- After `stop` the thread ends within a bounded number of its own statements; then the
    file has the lines appended before its last swap and those appended later are lost. -/
theorem stop_loses_the_rest {es : List Ev} (h : Along step (fun _ e => Takes e) start es) {s : AsyncLogging}
    (hr : run step start es = some s) (hstop : s.running_ = false) :
    (∀ fs t, (∀ e ∈ fs, own e) → run step s fs = some t →
      fs.length ≤ left s ∧ ((∀ e, own e → t.step e = none) → Closed t)) ∧
      ∃ fs t, (∀ e ∈ fs, own e) ∧ run step s fs = some t ∧ Closed t := by
  have hall : Always step (fun s => Buffers s ∧ Contents s) start es :=
    always_of_along (fun _ _ _ hs hC he => step_inv hC hs he) ⟨start_buffers, start_contents⟩ h
  obtain ⟨hb, hc⟩ := hall.last hr
  have hgood : Stopping s := ⟨hb, hc, hstop⟩
  refine ⟨?_, ?_⟩
  · intro fs t hown hrun
    have hle := drains.length_le hgood hown hrun
    refine ⟨by omega, ?_⟩
    intro hstuck
    exact (drains.run_good hgood hown hrun).closed (drains.final_of_stuck hgood hown hrun hstuck)
  · obtain ⟨fs, t, hown, hrun, ht, hp⟩ := drains.exists_run hgood
    exact ⟨fs, t, hown, hrun, ht.closed hp⟩

def stoppedAtOnce : List Ev := [.append [104, 105, 10], .stop]

theorem stoppedAtOnce_takes : ∀ e ∈ stoppedAtOnce, Takes e := by
  simp [stoppedAtOnce, Takes]

def stopped : AsyncLogging := (run step start stoppedAtOnce).getD start

theorem the_line_is_lost :
    (∀ fs t, (∀ e ∈ fs, own e) → run step stopped fs = some t →
      fs.length ≤ left stopped ∧ ((∀ e, own e → t.step e = none) → Closed t)) ∧
      ∃ fs t, (∀ e ∈ fs, own e) ∧ run step stopped fs = some t ∧ Closed t :=
  stop_loses_the_rest (along_takes stoppedAtOnce_takes) (by rfl) (by rfl)

end GroupeChat.Logging.AsyncLogging
