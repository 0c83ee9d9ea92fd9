/-
  GroupeChat.Base.FdTable — a map of the C++ library from file descriptors to pointers,
  together with the descriptors that an epoll instance watches for its owner.

  Records are reached through `operator[]`, which gives a descriptor that is not there a
  null entry; going through it is a fault, and nothing happens after one (`look`). An
  event is handled from `begin` on. Every lookup is noted, with what it found and whether
  the same handling had erased the descriptor before (`Lookup`).

  The handling of an event starts `Open` at its descriptor (`Sound.opened`), and each
  operation has one rule: it stays open until the entry is erased, is `Torn` from there
  on, and the next lookup breaks the table for good.
-/

import GroupeChat.Base.StdMap

namespace GroupeChat.Base

structure Lookup where
  fd : Int
  /-- The entry had been erased while the same event was handled. -/
  torn : Bool
  /-- A record was found. -/
  live : Bool
  deriving DecidableEq

/-- `ρ` is the type of the records, `ω` of what is handed on. -/
structure FdTable (ρ ω : Type) where
  /-- `none` is a null pointer. -/
  entries : StdMap Int (Option ρ)
  watched : List Int
  /-- What has been erased while the event at hand was handled. -/
  torn : List Int
  lookups : List Lookup
  out : List ω
  fault : Bool

namespace FdTable

variable {ρ ω : Type}

def empty : FdTable ρ ω := ⟨∅, [], [], [], [], false⟩

/-! ## Operations -/

def begin (t : FdTable ρ ω) : FdTable ρ ω := { t with torn := [] }

def note (t : FdTable ρ ω) (fd : Int) (live : Bool) : FdTable ρ ω :=
  { t with lookups := t.lookups ++ [⟨fd, decide (fd ∈ t.torn), live⟩] }

/-- `map[fd]->`: what follows is done with the record found. -/
def look (t : FdTable ρ ω) (fd : Int) (k : ρ → FdTable ρ ω → FdTable ρ ω) : FdTable ρ ω :=
  if t.fault then t
  else
    match t.entries.find? fd with
    | some (some r) => k r (t.note fd true)
    | some none => { t.note fd false with fault := true }
    | none => { t.note fd false with entries := t.entries.set fd none, fault := true }

def update (t : FdTable ρ ω) (fd : Int) (f : ρ → ρ) : FdTable ρ ω :=
  t.look fd fun r t => { t with entries := t.entries.set fd (some (f r)) }

def insert (t : FdTable ρ ω) (fd : Int) (r : ρ) : FdTable ρ ω := { t with entries := t.entries.insertNew fd (some r) }

def watch (t : FdTable ρ ω) (fd : Int) : FdTable ρ ω := { t with watched := t.watched ++ [fd] }

def unwatch (t : FdTable ρ ω) (fd : Int) : FdTable ρ ω :=
  if t.fault then t else { t with watched := t.watched.filter (· ≠ fd) }

def erase (t : FdTable ρ ω) (fd : Int) : FdTable ρ ω :=
  if t.fault then t else { t with entries := t.entries.remove fd, torn := t.torn ++ [fd] }

def emit (t : FdTable ρ ω) (w : ω) : FdTable ρ ω := if t.fault then t else { t with out := t.out ++ [w] }

/-! ## Where the handling of an event is -/

/-- Every lookup has found a record, before its entry was erased; no entry is null. -/
structure Clean (t : FdTable ρ ω) : Prop where
  lookups : ∀ l ∈ t.lookups, l.torn = false ∧ l.live = true
  entries : ∀ fd, t.entries.find? fd ≠ some none

structure Sound (t : FdTable ρ ω) : Prop where
  clean : t.Clean
  running : t.fault = false
  watched : ∀ fd ∈ t.watched, ∃ r, t.entries.find? fd = some (some r)

structure Open (fd : Int) (r : ρ) (t : FdTable ρ ω) : Prop where
  sound : t.Sound
  found : t.entries.find? fd = some (some r)
  untorn : fd ∉ t.torn

structure Torn (fd : Int) (t : FdTable ρ ω) : Prop where
  sound : t.Sound
  gone : t.entries.find? fd = none
  torn : fd ∈ t.torn

structure Broken (t : FdTable ρ ω) : Prop where
  fault : t.fault = true
  late : ∃ l ∈ t.lookups, l.torn = true

def Breaks (C : Prop) (t : FdTable ρ ω) : Prop := (C → t.Broken) ∧ (¬ C → t.Sound)

variable {fd : Int} {r : ρ} {t : FdTable ρ ω}

theorem empty_sound : (empty : FdTable ρ ω).Sound := ⟨⟨nofun, nofun⟩, rfl, nofun⟩

theorem Broken.not_clean (h : t.Broken) : ¬ t.Clean := by
  intro hc
  obtain ⟨l, hl, htorn⟩ := h.late
  rw [(hc.lookups l hl).1] at htorn
  cases htorn

theorem Broken.breaks {C : Prop} (h : t.Broken) (hC : C) : Breaks C t := ⟨fun _ => h, fun hn => absurd hC hn⟩

theorem Sound.breaks {C : Prop} (h : t.Sound) (hC : ¬ C) : Breaks C t := ⟨fun hc => absurd hc hC, fun _ => h⟩

theorem Breaks.congr {C D : Prop} (h : Breaks C t) (hCD : C ↔ D) : Breaks D t := by
  rw [← propext hCD]
  exact h

theorem Breaks.clean {C : Prop} (h : Breaks C t) (hc : t.Clean) : ¬ C := fun hC => (h.1 hC).not_clean hc

theorem Sound.begin (h : t.Sound) : t.begin.Sound := ⟨⟨h.clean.lookups, h.clean.entries⟩, h.running, h.watched⟩

/-- An event comes for a descriptor that is watched. -/
theorem Sound.opened (h : t.Sound) (hfd : fd ∈ t.watched) : ∃ r, Open fd r t.begin := by
  obtain ⟨r, hr⟩ := h.watched fd hfd
  exact ⟨r, h.begin, hr, List.not_mem_nil⟩

theorem Sound.inserted (h : t.Sound) (fd : Int) (r : ρ) : ((t.insert fd r).watch fd).Sound := by
  have hentries : ∀ fd' o, (t.entries.insertNew fd (some r)).find? fd' = some o → o ≠ none := by
    intro fd' o ho hnone
    rcases StdMap.of_find?_insertNew ho with hold | ⟨-, hnew⟩
    · rw [hnone] at hold
      exact h.clean.entries fd' hold
    · rw [hnone] at hnew
      cases hnew
  refine ⟨⟨h.clean.lookups, fun fd' hnull => hentries fd' none hnull rfl⟩, h.running, fun fd' hfd' => ?_⟩
  show ∃ r', (t.entries.insertNew fd (some r)).find? fd' = some (some r')
  have hsome : ∃ o, (t.entries.insertNew fd (some r)).find? fd' = some o := by
    rw [StdMap.find?_insertNew]
    by_cases hk : fd' = fd
    · rw [if_pos hk]
      exact ⟨_, rfl⟩
    · rw [if_neg hk]
      have hold := (List.mem_append.mp hfd').resolve_right fun hin => hk (List.mem_singleton.mp hin)
      obtain ⟨r', hr'⟩ := h.watched fd' hold
      exact ⟨_, hr'⟩
  obtain ⟨o, ho⟩ := hsome
  cases o with
  | none => exact absurd rfl (hentries fd' none ho)
  | some r' => exact ⟨r', ho⟩

/-- A descriptor that is not in the map gets the record. -/
theorem Sound.inserted_open (h : t.Sound) (hnew : t.entries.find? fd = none) (r : ρ) :
    Open fd r ((t.insert fd r).watch fd).begin := by
  refine ⟨(h.inserted fd r).begin, ?_, List.not_mem_nil⟩
  show (t.entries.insertNew fd (some r)).find? fd = some (some r)
  rw [StdMap.find?_insertNew, if_pos rfl, hnew]
  rfl

/-- An assignment to a record that is there. -/
theorem Sound.assign (h : t.Sound) (fd : Int) (r : ρ) : Sound { t with entries := t.entries.set fd (some r) } := by
  refine ⟨⟨h.clean.lookups, fun fd' hnull => ?_⟩, h.running, fun fd' hfd' => ?_⟩
  · rcases StdMap.of_find?_set hnull with ⟨-, hnew⟩ | hold
    · cases hnew
    · exact h.clean.entries fd' hold
  · show ∃ r', (t.entries.set fd (some r)).find? fd' = some (some r')
    rw [StdMap.find?_set]
    by_cases hk : fd' = fd
    · rw [if_pos hk]
      exact ⟨r, rfl⟩
    · rw [if_neg hk]
      exact h.watched fd' hfd'

/-! ### An open entry -/

theorem Open.note (h : Open fd r t) : Open fd r (t.note fd true) := by
  refine ⟨⟨⟨fun l hl => ?_, h.sound.clean.entries⟩, h.sound.running, h.sound.watched⟩, h.found, h.untorn⟩
  rcases List.mem_append.mp hl with hl | hl
  · exact h.sound.clean.lookups l hl
  · rw [List.mem_singleton.mp hl]
    exact ⟨decide_eq_false h.untorn, rfl⟩

theorem Open.look (h : Open fd r t) (k : ρ → FdTable ρ ω → FdTable ρ ω) : t.look fd k = k r (t.note fd true) := by
  unfold FdTable.look
  rw [h.sound.running, h.found]
  rfl

theorem Open.update (h : Open fd r t) (f : ρ → ρ) : Open fd (f r) (t.update fd f) := by
  unfold FdTable.update
  rw [h.look]
  refine ⟨h.note.sound.assign fd (f r), ?_, h.untorn⟩
  show (t.entries.set fd (some (f r))).find? fd = _
  rw [StdMap.find?_set, if_pos rfl]

theorem Open.update_watched (h : Open fd r t) (f : ρ → ρ) : (t.update fd f).watched = t.watched := by
  unfold FdTable.update
  rw [h.look]
  rfl

theorem Open.emit_watched (h : Open fd r t) (w : ω) : (t.emit w).watched = t.watched := by
  unfold FdTable.emit
  rw [h.sound.running]
  rfl

theorem Open.begin (h : Open fd r t) : Open fd r t.begin := ⟨h.sound.begin, h.found, List.not_mem_nil⟩

theorem Open.unwatch (h : Open fd r t) (fd' : Int) : Open fd r (t.unwatch fd') := by
  unfold FdTable.unwatch
  rw [h.sound.running]
  refine ⟨⟨⟨h.sound.clean.lookups, h.sound.clean.entries⟩, rfl, fun i hi => ?_⟩, h.found, h.untorn⟩
  exact h.sound.watched i (List.mem_of_mem_filter hi)

theorem Open.unwatched (h : Open fd r t) : fd ∉ (t.unwatch fd).watched := by
  unfold FdTable.unwatch
  rw [h.sound.running]
  simp

theorem Open.emit (h : Open fd r t) (w : ω) : Open fd r (t.emit w) := by
  unfold FdTable.emit
  rw [h.sound.running]
  exact ⟨⟨⟨h.sound.clean.lookups, h.sound.clean.entries⟩, rfl, h.sound.watched⟩, h.found, h.untorn⟩

theorem Open.erase (h : Open fd r t) (hfd : fd ∉ t.watched) : Torn fd (t.erase fd) := by
  unfold FdTable.erase
  rw [h.sound.running]
  refine ⟨⟨⟨h.sound.clean.lookups, fun i hnull => ?_⟩, rfl, fun i hi => ?_⟩, ?_, ?_⟩
  · exact h.sound.clean.entries i (StdMap.of_find?_remove hnull).2
  · have hne : i ≠ fd := fun heq => hfd (heq ▸ hi)
    show ∃ r', (t.entries.remove fd).find? i = some (some r')
    rw [StdMap.find?_remove, if_neg hne]
    exact h.sound.watched i hi
  · show (t.entries.remove fd).find? fd = none
    rw [StdMap.find?_remove, if_pos rfl]
  · exact List.mem_append_right _ (List.mem_singleton_self fd)

/-! ### What is handed on -/

@[simp] theorem note_out (t : FdTable ρ ω) (fd : Int) (live : Bool) : (t.note fd live).out = t.out := rfl

@[simp] theorem note_watched (t : FdTable ρ ω) (fd : Int) (live : Bool) : (t.note fd live).watched = t.watched := rfl

@[simp] theorem unwatch_out (t : FdTable ρ ω) (fd : Int) : (t.unwatch fd).out = t.out := by
  unfold FdTable.unwatch
  split
  · rfl
  · rfl

@[simp] theorem erase_out (t : FdTable ρ ω) (fd : Int) : (t.erase fd).out = t.out := by
  unfold FdTable.erase
  split
  · rfl
  · rfl

theorem Open.update_out (h : Open fd r t) (f : ρ → ρ) : (t.update fd f).out = t.out := by
  unfold FdTable.update
  rw [h.look]
  rfl

theorem Open.emit_out (h : Open fd r t) (w : ω) : (t.emit w).out = t.out ++ [w] := by
  unfold FdTable.emit
  rw [h.sound.running]
  rfl

/-! ### A torn one, and a broken table -/

theorem Torn.look (h : Torn fd t) (k : ρ → FdTable ρ ω → FdTable ρ ω) : (t.look fd k).Broken := by
  unfold FdTable.look
  rw [h.sound.running, h.gone]
  refine ⟨rfl, _, List.mem_append_right _ (List.mem_singleton_self _), ?_⟩
  exact decide_eq_true h.torn

theorem Torn.update (h : Torn fd t) (f : ρ → ρ) : (t.update fd f).Broken := h.look _

theorem Broken.look (h : t.Broken) (fd : Int) (k : ρ → FdTable ρ ω → FdTable ρ ω) : (t.look fd k).Broken := by
  unfold FdTable.look
  rw [if_pos h.fault]
  exact h

end FdTable

end GroupeChat.Base
