/-
  GroupeChat.Base.MapSweep — a loop over a map of the C++ library that takes entries out as
  it goes.

  The iterator stands at a key. `deref`, `store`, `erase` and `next` are undefined once
  the entry under it is gone (`Stop.undefined`): an iterator is invalid from the moment
  its entry is erased, whoever erased it. `loop` is `while (iter != end) { body; iter++; }`.

  `Acts` says of a body that it leaves an entry where it is, or else leaves the iterator
  invalid. Such a loop visits all entries once and changes none but through `g` when
  there is none to remove (`loop_kept`), and is undefined as soon as there is one
  (`loop_removes`). So it is `Sound` exactly when it has nothing to do (`sound_iff`).
-/

import GroupeChat.Base.StdMap

namespace GroupeChat.Base

inductive Stop where
  | undefined
  /-- The loop has not ended in the rounds it was given. -/
  | unfinished
  deriving DecidableEq

/-- A map in the middle of a loop over it, and what else the loop works on. -/
structure MapSweep (σ κ ν : Type) where
  env : σ
  entries : List (κ × ν)
  /-- `none` is `end()`. -/
  iter : Option κ
  /-- The keys at which a round of the loop began. -/
  visited : List κ

namespace MapSweep

/-- What a round of the loop does before `iter++`. -/
abbrev Body (σ κ ν : Type) : Type := MapSweep σ κ ν → Except Stop (MapSweep σ κ ν)

variable {σ κ ν : Type} [DecidableEq κ]

/-! ## Iterators -/

def start (env : σ) (m : StdMap κ ν) : MapSweep σ κ ν := ⟨env, m.toList, m.toList.head?.map Prod.fst, []⟩

def current (s : MapSweep σ κ ν) : Option (κ × ν) := s.iter.bind fun k => s.entries.find? fun e => e.1 = k

def deref (s : MapSweep σ κ ν) : Except Stop (κ × ν) :=
  match s.current with
  | some e => .ok e
  | none => .error .undefined

def store (s : MapSweep σ κ ν) (v : ν) : Except Stop (MapSweep σ κ ν) :=
  match s.current with
  | some e => .ok { s with entries := s.entries.map fun e' => if e'.1 = e.1 then (e.1, v) else e' }
  | none => .error .undefined

def mapEnv (s : MapSweep σ κ ν) (f : σ → σ) : MapSweep σ κ ν := { s with env := f s.env }

def eraseKey (s : MapSweep σ κ ν) (k : κ) : MapSweep σ κ ν :=
  { s with entries := s.entries.filter fun e => e.1 ≠ k }

def erase (s : MapSweep σ κ ν) : Except Stop (MapSweep σ κ ν) :=
  match s.current with
  | some e => .ok (s.eraseKey e.1)
  | none => .error .undefined

def following (k : κ) : List (κ × ν) → Option (Option κ)
  | [] => none
  | e :: es => if e.1 = k then some (es.head?.map Prod.fst) else following k es

def next (s : MapSweep σ κ ν) : Except Stop (MapSweep σ κ ν) :=
  match s.iter.bind (following · s.entries) with
  | some iter => .ok { s with iter := iter }
  | none => .error .undefined

def loop (body : Body σ κ ν) : Nat → MapSweep σ κ ν → Except Stop (MapSweep σ κ ν)
  | 0, s => if s.iter.isNone then .ok s else .error .unfinished
  | n + 1, s =>
    match s.iter with
    | none => .ok s
    | some k => do
      let s ← body { s with visited := s.visited ++ [k] }
      let s ← s.next
      loop body n s

/-- The loop over all of `m`; each round takes it one entry on. -/
def sweep (body : Body σ κ ν) (env : σ) (m : StdMap κ ν) : Except Stop (MapSweep σ κ ν) :=
  loop body m.toList.length (start env m)

/-! ## At an entry -/

structure At (done : List (κ × ν)) (k : κ) (v : ν) (rest : List (κ × ν)) (s : MapSweep σ κ ν) : Prop where
  entries : s.entries = done ++ (k, v) :: rest
  iter : s.iter = some k
  nodup : (s.entries.map Prod.fst).Nodup

variable {done rest : List (κ × ν)} {k : κ} {v : ν} {s : MapSweep σ κ ν}

omit [DecidableEq κ] in
theorem At.mapEnv (h : At done k v rest s) (f : σ → σ) : At done k v rest (s.mapEnv f) := ⟨h.entries, h.iter, h.nodup⟩

omit [DecidableEq κ] in
theorem At.other (h : At done k v rest s) : ∀ e, e ∈ done ∨ e ∈ rest → e.1 ≠ k := by
  intro e he hk
  have hn := h.nodup
  rw [h.entries, List.map_append, List.map_cons, List.nodup_append] at hn
  obtain ⟨-, hrest, hdone⟩ := hn
  rcases he with he | he
  · exact hdone e.1 (List.mem_map_of_mem he) k List.mem_cons_self hk
  · subst hk
    exact (List.nodup_cons.mp hrest).1 (List.mem_map.mpr ⟨e, he, rfl⟩)

theorem At.current (h : At done k v rest s) : s.current = some (k, v) := by
  have hdone : done.find? (fun e => e.1 = k) = none := by
    rw [List.find?_eq_none]
    intro e he
    simpa using h.other e (Or.inl he)
  unfold MapSweep.current
  rw [h.iter, h.entries]
  simp [List.find?_append, hdone]

theorem At.deref (h : At done k v rest s) : s.deref = .ok (k, v) := by
  unfold MapSweep.deref
  rw [h.current]

theorem At.next (h : At done k v rest s) : s.next = .ok { s with iter := rest.head?.map Prod.fst } := by
  have hfollow : ∀ l : List (κ × ν), (∀ e ∈ l, e.1 ≠ k) →
      following k (l ++ (k, v) :: rest) = some (rest.head?.map Prod.fst) := by
    intro l
    induction l with
    | nil =>
      intro _
      simp [following]
    | cons e l ih =>
      intro hl
      rw [List.cons_append, following, if_neg (hl e List.mem_cons_self)]
      exact ih fun e' he' => hl e' (List.mem_cons_of_mem e he')
  unfold MapSweep.next
  rw [h.iter, h.entries]
  simp only [Option.bind_some]
  rw [hfollow done fun e he => h.other e (Or.inl he)]

theorem At.store (h : At done k v rest s) (w : ν) :
    ∃ s', s.store w = .ok s' ∧ At done k w rest s' ∧ s'.env = s.env ∧ s'.visited = s.visited := by
  have hsame : ∀ l : List (κ × ν), (∀ e ∈ l, e.1 ≠ k) →
      l.map (fun e => if e.1 = k then (k, w) else e) = l := by
    intro l hl
    conv_rhs => rw [← List.map_id l]
    exact List.map_congr_left fun e he => if_neg (hl e he)
  have hentries : s.entries.map (fun e => if e.1 = k then (k, w) else e) = done ++ (k, w) :: rest := by
    rw [h.entries, List.map_append, List.map_cons, hsame done fun e he => h.other e (Or.inl he),
      hsame rest fun e he => h.other e (Or.inr he), if_pos rfl]
  have hn := h.nodup
  refine ⟨{ s with entries := done ++ (k, w) :: rest }, ?_, ⟨rfl, h.iter, ?_⟩, rfl, rfl⟩
  · unfold MapSweep.store
    rw [h.current]
    dsimp only
    rw [hentries]
  · rw [h.entries] at hn
    simpa using hn

def Gone (s : MapSweep σ κ ν) : Prop := ∃ k, s.iter = some k ∧ ∀ e ∈ s.entries, e.1 ≠ k

theorem At.eraseKey (h : At done k v rest s) : Gone (s.eraseKey k) := by
  refine ⟨k, h.iter, fun e he => ?_⟩
  simpa using (List.mem_filter.mp he).2

theorem At.erase (h : At done k v rest s) : s.erase = .ok (s.eraseKey k) := by
  unfold MapSweep.erase
  rw [h.current]

/-- A key that is not there has nothing behind it. -/
theorem following_none {l : List (κ × ν)} (h : ∀ e ∈ l, e.1 ≠ k) : following k l = none := by
  induction l with
  | nil => rfl
  | cons e l ih =>
    rw [following, if_neg (h e List.mem_cons_self)]
    exact ih fun e' he' => h e' (List.mem_cons_of_mem e he')

theorem Gone.next (h : Gone s) : s.next = .error .undefined := by
  obtain ⟨k, hk, hnone⟩ := h
  unfold MapSweep.next
  rw [hk]
  simp only [Option.bind_some]
  rw [following_none hnone]

theorem Gone.deref (h : Gone s) : s.deref = .error .undefined := by
  obtain ⟨k, hk, hnone⟩ := h
  have hfind : s.entries.find? (fun e => e.1 = k) = none := by
    rw [List.find?_eq_none]
    intro e he
    simpa using hnone e he
  unfold MapSweep.deref MapSweep.current
  rw [hk]
  simp only [Option.bind_some]
  rw [hfind]

/-! ## The loop -/

/-- The body leaves an entry there, with `g` done to its record, or the iterator is
    invalid afterwards. -/
structure Acts (body : Body σ κ ν) (remove : σ → κ × ν → Bool) (g : ν → ν) : Prop where
  kept : ∀ {done rest k v s}, At done k v rest s → remove s.env (k, v) = false →
    ∃ s', body s = .ok s' ∧ At done k (g v) rest s' ∧ s'.env = s.env ∧ s'.visited = s.visited
  removed : ∀ {done rest k v s}, At done k v rest s → remove s.env (k, v) = true →
    body s = .error .undefined ∨ ∃ s', body s = .ok s' ∧ Gone s'

variable {body : Body σ κ ν} {remove : σ → κ × ν → Bool} {g : ν → ν}

structure Before (done rest : List (κ × ν)) (s : MapSweep σ κ ν) : Prop where
  entries : s.entries = done ++ rest
  iter : s.iter = rest.head?.map Prod.fst
  nodup : (s.entries.map Prod.fst).Nodup

omit [DecidableEq κ] in
theorem start_before (env : σ) (m : StdMap κ ν) : Before [] m.toList (start env m) := ⟨rfl, rfl, m.keys_nodup⟩

theorem loop_round (h : s.iter = some k) (n : Nat) :
    loop body (n + 1) s = (body { s with visited := s.visited ++ [k] }).bind fun s => s.next.bind (loop body n) := by
  rw [loop]
  split
  · rename_i hend
    rw [h] at hend
    cases hend
  · rename_i k' hk'
    obtain rfl := Option.some.inj (h.symm.trans hk')
    rfl

/-- A round that keeps its entry. -/
theorem Acts.round (hb : Acts body remove g) (h : Before done ((k, v) :: rest) s) (hkeep : remove s.env (k, v) = false)
    (n : Nat) : ∃ s', loop body (n + 1) s = loop body n s' ∧ Before (done ++ [(k, g v)]) rest s' ∧
      s'.env = s.env ∧ s'.visited = s.visited ++ [k] := by
  have hat : At done k v rest { s with visited := s.visited ++ [k] } := ⟨h.entries, h.iter, h.nodup⟩
  obtain ⟨s', hbody, hat', henv, hvisited⟩ := hb.kept hat hkeep
  refine ⟨{ s' with iter := rest.head?.map Prod.fst }, ?_, ⟨?_, rfl, hat'.nodup⟩, henv, hvisited⟩
  · rw [loop_round h.iter, hbody, Except.bind, hat'.next, Except.bind]
  · show s'.entries = _
    rw [hat'.entries, List.append_assoc, List.singleton_append]

theorem loop_kept (hb : Acts body remove g) (h : Before done rest s) (hkeep : ∀ e ∈ rest, remove s.env e = false) :
    loop body rest.length s =
      .ok ⟨s.env, done ++ rest.map fun e => (e.1, g e.2), none, s.visited ++ rest.map Prod.fst⟩ := by
  induction rest generalizing done s with
  | nil =>
    have hiter : s.iter = none := h.iter
    obtain ⟨env, entries, iter, visited⟩ := s
    have hentries : entries = done ++ [] := h.entries
    simp only at hiter
    subst hiter hentries
    simp [loop]
  | cons e rest ih =>
    obtain ⟨k, v⟩ := e
    obtain ⟨s', hloop, hbefore, henv, hvisited⟩ := hb.round h (hkeep _ List.mem_cons_self) rest.length
    have hkeep' : ∀ e ∈ rest, remove s'.env e = false := by
      intro e he
      rw [henv]
      exact hkeep e (List.mem_cons_of_mem _ he)
    rw [List.length_cons, hloop, ih hbefore hkeep', henv, hvisited]
    simp

/-- An entry to remove ends it. -/
theorem loop_removes (hb : Acts body remove g) (h : Before done rest s) (hrem : ∃ e ∈ rest, remove s.env e = true) :
    loop body rest.length s = .error .undefined := by
  induction rest generalizing done s with
  | nil =>
    obtain ⟨e, he, -⟩ := hrem
    cases he
  | cons e rest ih =>
    obtain ⟨k, v⟩ := e
    by_cases hv : remove s.env (k, v) = true
    · have hat : At done k v rest { s with visited := s.visited ++ [k] } := ⟨h.entries, h.iter, h.nodup⟩
      rw [List.length_cons, loop_round h.iter]
      rcases hb.removed hat hv with hbody | ⟨s', hbody, hgone⟩
      · rw [hbody, Except.bind]
      · rw [hbody, Except.bind, hgone.next, Except.bind]
    · obtain ⟨s', hloop, hbefore, henv, -⟩ := hb.round h (Bool.eq_false_iff.mpr hv) rest.length
      rw [List.length_cons, hloop]
      apply ih hbefore
      obtain ⟨e, he, hrem⟩ := hrem
      rw [henv]
      rcases List.mem_cons.mp he with rfl | he
      · exact absurd hrem hv
      · exact ⟨e, he, hrem⟩

/-- The loop ends with the entries to remove gone and all others there, each of which it
    visited once. -/
def Sound (body : Body σ κ ν) (remove : σ → κ × ν → Bool) (g : ν → ν) (env : σ)
    (m : StdMap κ ν) : Prop :=
  ∃ s, sweep body env m = .ok s ∧
    s.entries = (m.toList.filter fun e => !remove env e).map (fun e => (e.1, g e.2)) ∧
    ∀ e ∈ m.toList, remove env e = false → s.visited.count e.1 = 1

theorem sound_iff (hb : Acts body remove g) (env : σ) (m : StdMap κ ν) :
    Sound body remove g env m ↔ ∀ e ∈ m.toList, remove env e = false := by
  refine ⟨?_, ?_⟩
  · rintro ⟨s, hs, -, -⟩ e he
    by_contra hrem
    have hundef : sweep body env m = .error .undefined :=
      loop_removes hb (start_before env m) ⟨e, he, Bool.of_not_eq_false hrem⟩
    rw [hundef] at hs
    cases hs
  · intro hkeep
    refine ⟨_, loop_kept hb (start_before env m) hkeep, ?_, fun e he _ => ?_⟩
    · have hall : m.toList.filter (fun e => !remove env e) = m.toList := by
        apply List.filter_eq_self.mpr
        intro e he
        rw [hkeep e he]
        rfl
      rw [hall]
      rfl
    · exact List.count_eq_one_of_mem m.keys_nodup (List.mem_map_of_mem he)

end MapSweep

end GroupeChat.Base
