/-
  GroupeChat.Base.Run — runs of a guarded step function.

  `step s e` is the state after the event `e`, or `none` when `e` cannot happen in
  `s`; a run is a list of events. `Always` says a property of every state a run passes
  through, `Along` a condition on every step it takes (on the state before the step and
  on the event). The rules for one machine:
  - `run_inv`: what every step preserves holds at the end of a run.
  - `always_of_along`: what every step that meets the condition preserves holds all along
    a run whose steps meet it.
  - `always_iff_along`: when a step preserves the property exactly if it meets the
    condition, the property holds all along exactly the runs whose steps meet it;
    `always_iff_and_along` is that of runs from anywhere.
-/

namespace GroupeChat.Base

variable {σ ε : Type} (step : σ → ε → Option σ)

def run : σ → List ε → Option σ
  | s, [] => some s
  | s, e :: es => (step s e).bind (run · es)

/-- `P` holds in every state the run passes through, its first and last included. -/
def Always (P : σ → Prop) : σ → List ε → Prop
  | s, [] => P s
  | s, e :: es => P s ∧ ∀ s', step s e = some s' → Always P s' es

/-- Every step the run takes meets `C`. -/
def Along (C : σ → ε → Prop) : σ → List ε → Prop
  | _, [] => True
  | s, e :: es => ∀ s', step s e = some s' → C s e ∧ Along C s' es

variable {step}

theorem run_cons {s s' : σ} {e : ε} (h : step s e = some s') (es : List ε) :
    run step s (e :: es) = run step s' es := by
  simp [run, h]

theorem run_append {s s' : σ} {es : List ε} (h : run step s es = some s') (fs : List ε) :
    run step s (es ++ fs) = run step s' fs := by
  induction es generalizing s with
  | nil =>
    cases h
    rfl
  | cons e es ih =>
    obtain ⟨t, ht, hr⟩ := Option.bind_eq_some_iff.mp h
    rw [List.cons_append, run_cons ht]
    exact ih hr

theorem run_inv {I : σ → Prop} (hstep : ∀ s e s', I s → step s e = some s' → I s') :
    ∀ {es : List ε} {s s' : σ}, I s → run step s es = some s' → I s' := by
  intro es
  induction es with
  | nil =>
    intro s s' hs h
    cases h
    exact hs
  | cons e es ih =>
    intro s s' hs h
    obtain ⟨t, ht, hr⟩ := Option.bind_eq_some_iff.mp h
    exact ih (hstep s e t hs ht) hr

/-- A run of a machine whose steps another one matches is matched by a run of that one. -/
theorem run_simulates {τ δ : Type} {abs : τ → δ → Option τ} {R : σ → τ → Prop}
    (hstep : ∀ s t e s', R s t → step s e = some s' → ∃ ds t', run abs t ds = some t' ∧ R s' t') :
    ∀ {es : List ε} {s s' : σ} {t : τ}, R s t → run step s es = some s' → ∃ ds t', run abs t ds = some t' ∧ R s' t' := by
  intro es
  induction es with
  | nil =>
    intro s s' t hR h
    cases h
    exact ⟨[], t, rfl, hR⟩
  | cons e es ih =>
    intro s s' t hR h
    obtain ⟨u, hu, hr⟩ := Option.bind_eq_some_iff.mp h
    obtain ⟨ds, v, hds, hv⟩ := hstep s t e u hR hu
    obtain ⟨fs, t', hfs, ht'⟩ := ih hv hr
    exact ⟨ds ++ fs, t', by rw [run_append hds, hfs], ht'⟩

instance decidableAlways {P : σ → Prop} [DecidablePred P] : ∀ (es : List ε) (s : σ), Decidable (Always step P s es)
  | [], s => inferInstanceAs (Decidable (P s))
  | e :: es, s =>
    match h : step s e with
    | none => decidable_of_iff (P s) (by simp [Always, h])
    | some t =>
      have := decidableAlways (P := P) es t
      decidable_of_iff (P s ∧ Always step P t es) (by simp [Always, h])

instance decidableAlong {C : σ → ε → Prop} [∀ s e, Decidable (C s e)] :
    ∀ (es : List ε) (s : σ), Decidable (Along step C s es)
  | [], _ => inferInstanceAs (Decidable True)
  | e :: es, s =>
    match h : step s e with
    | none => decidable_of_iff True (by simp [Along, h])
    | some t =>
      have := decidableAlong (C := C) es t
      decidable_of_iff (C s e ∧ Along step C t es) (by simp [Along, h])

/-- `Always` in terms of the states that the run's prefixes end in. -/
theorem always_iff {P : σ → Prop} :
    ∀ {es : List ε} {s : σ}, Always step P s es ↔ ∀ n s', run step s (es.take n) = some s' → P s' := by
  intro es
  induction es with
  | nil => intro s; simp [Always, run]
  | cons e es ih =>
    intro s
    refine ⟨?_, ?_⟩
    · intro ⟨hs, h⟩ n s' hr
      cases n with
      | zero => cases hr; exact hs
      | succ n =>
        obtain ⟨t, ht, hr⟩ := Option.bind_eq_some_iff.mp hr
        exact ih.mp (h t ht) n s' hr
    · intro h
      refine ⟨h 0 s rfl, fun t ht => ih.mpr fun n s' hr => h (n + 1) s' ?_⟩
      rw [List.take_succ_cons, run_cons ht]
      exact hr

theorem Always.last {P : σ → Prop} {es : List ε} {s s' : σ} (h : Always step P s es)
    (hr : run step s es = some s') : P s' :=
  always_iff.mp h es.length s' (by rwa [List.take_length])

theorem Always.head {P : σ → Prop} {es : List ε} {s : σ} (h : Always step P s es) : P s :=
  always_iff.mp h 0 s rfl

/-- Two steps that meet `C` and end outside `P`. -/
theorem two_steps {C : σ → ε → Prop} {P : σ → Prop} {s t u : σ} {e₁ e₂ : ε} (h₁ : step s e₁ = some t)
    (h₂ : step t e₂ = some u) (hC₁ : C s e₁) (hC₂ : C t e₂) (hP : ¬ P u) :
    Along step C s [e₁, e₂] ∧ ¬ Always step P s [e₁, e₂] := by
  refine ⟨?_, ?_⟩
  · intro t' ht
    obtain rfl := Option.some.inj (h₁.symm.trans ht)
    exact ⟨hC₁, fun _ _ => ⟨hC₂, trivial⟩⟩
  · intro h
    exact hP ((h.2 t h₁).2 u h₂)

theorem always_of_along {C : σ → ε → Prop} {I : σ → Prop}
    (hstep : ∀ s e s', I s → C s e → step s e = some s' → I s') :
    ∀ {es : List ε} {s : σ}, I s → Along step C s es → Always step I s es := by
  intro es
  induction es with
  | nil => intro s hs _; exact hs
  | cons e es ih =>
    intro s hs h
    exact ⟨hs, fun t ht => ih (hstep s e t hs (h t ht).1 ht) (h t ht).2⟩

/-- What every step preserves holds all along. -/
theorem always_of_inv {I : σ → Prop} (hstep : ∀ s e s', I s → step s e = some s' → I s') :
    ∀ {es : List ε} {s : σ}, I s → Always step I s es := by
  intro es
  induction es with
  | nil => intro s hs; exact hs
  | cons e es ih => intro s hs; exact ⟨hs, fun t ht => ih (hstep s e t hs ht)⟩

/-- Where it holds, so does what it implies of every step taken. -/
theorem Always.along {I : σ → Prop} {D : σ → ε → Prop} (hD : ∀ s e s', I s → step s e = some s' → D s e) :
    ∀ {es : List ε} {s : σ}, Always step I s es → Along step D s es := by
  intro es
  induction es with
  | nil => intro s _; trivial
  | cons e es ih => intro s h t ht; exact ⟨hD s e t h.1 ht, ih (h.2 t ht)⟩

theorem Always.mono {P Q : σ → Prop} (hPQ : ∀ s, P s → Q s) :
    ∀ {es : List ε} {s : σ}, Always step P s es → Always step Q s es := by
  intro es
  induction es with
  | nil => intro s h; exact hPQ s h
  | cons e es ih => intro s h; exact ⟨hPQ s h.1, fun t ht => ih (h.2 t ht)⟩

/-- What an invariant makes equivalent. -/
theorem always_congr {I P Q : σ → Prop} {es : List ε} {s : σ} (hI : Always step I s es)
    (h : ∀ s, I s → (P s ↔ Q s)) : Always step P s es ↔ Always step Q s es := by
  rw [always_iff] at hI
  rw [always_iff, always_iff]
  refine ⟨?_, ?_⟩
  · intro hP n t ht
    exact (h t (hI n t ht)).mp (hP n t ht)
  · intro hQ n t ht
    exact (h t (hI n t ht)).mpr (hQ n t ht)

theorem Along.mono {C D : σ → ε → Prop} (hCD : ∀ s e, C s e → D s e) :
    ∀ {es : List ε} {s : σ}, Along step C s es → Along step D s es := by
  intro es
  induction es with
  | nil => intro s _; trivial
  | cons e es ih => intro s h t ht; exact ⟨hCD s e (h t ht).1, ih (h t ht).2⟩

/-- Steps that meet `C` keep `I` and meet `D`: then so do those of a run that meets `C`. -/
theorem along_of_steps {C D : σ → ε → Prop} {I : σ → Prop}
    (hstep : ∀ s e s', I s → C s e → step s e = some s' → I s' ∧ D s e) :
    ∀ {es : List ε} {s : σ}, I s → Along step C s es → Along step D s es := by
  intro es
  induction es with
  | nil => intro s _ _; trivial
  | cons e es ih =>
    intro s hs h t ht
    obtain ⟨hI, hD⟩ := hstep s e t hs (h t ht).1 ht
    exact ⟨hD, ih hI (h t ht).2⟩

/-- Among steps that meet `W`, those that keep `P` meet `C`: then so do those of a run
    whose steps meet `W` and that keeps `P` all along. -/
theorem along_of_always {W C : σ → ε → Prop} {P I : σ → Prop}
    (hstep : ∀ s e s', I s → W s e → step s e = some s' → (C s e → I s') ∧ (P s' → C s e)) :
    ∀ {es : List ε} {s : σ}, I s → Along step W s es → Always step P s es → Along step C s es := by
  intro es
  induction es with
  | nil => intro s _ _ _; trivial
  | cons e es ih =>
    intro s hs hW ⟨_, h⟩ t ht
    have hC := (hstep s e t hs (hW t ht).1 ht).2 (h t ht).head
    exact ⟨hC, ih ((hstep s e t hs (hW t ht).1 ht).1 hC) (hW t ht).2 (h t ht)⟩

/-- Once a step misses `C` the run is doomed and stays so: then a run that ends otherwise
    meets `C` all along. -/
theorem along_of_last {C : σ → ε → Prop} {I D : σ → Prop}
    (hstep : ∀ s e s', I s → step s e = some s' → (C s e → I s') ∧ (¬ C s e → D s'))
    (hdoom : ∀ s e s', D s → step s e = some s' → D s') :
    ∀ {es : List ε} {s t : σ}, I s → run step s es = some t → ¬ D t → Along step C s es := by
  intro es
  induction es with
  | nil => intro s t _ _ _; trivial
  | cons e es ih =>
    intro s t hs hr hD u hu
    rw [run_cons hu] at hr
    by_cases hC : C s e
    · exact ⟨hC, ih ((hstep s e u hs hu).1 hC) hr hD⟩
    · exact absurd (run_inv hdoom ((hstep s e u hs hu).2 hC) hr) hD

theorem always_iff_along {C : σ → ε → Prop} {P I : σ → Prop} (hP : ∀ s, I s → P s)
    (hstep : ∀ s e s', I s → step s e = some s' → (C s e → I s') ∧ (P s' → C s e)) :
    ∀ {es : List ε} {s : σ}, I s → (Always step P s es ↔ Along step C s es) := by
  intro es
  induction es with
  | nil => intro s hs; exact ⟨fun _ => trivial, fun _ => hP s hs⟩
  | cons e es ih =>
    intro s hs
    refine ⟨?_, ?_⟩
    · intro ⟨_, h⟩ t ht
      have hC := (hstep s e t hs ht).2 (h t ht).head
      exact ⟨hC, (ih ((hstep s e t hs ht).1 hC)).mp (h t ht)⟩
    · intro h
      refine ⟨hP s hs, fun t ht => ?_⟩
      exact (ih ((hstep s e t hs ht).1 (h t ht).1)).mpr (h t ht).2

/-- From states of which nothing is known: the property has to hold at the start too. -/
theorem always_iff_and_along {C : σ → ε → Prop} {P : σ → Prop}
    (hstep : ∀ s e s', P s → step s e = some s' → (P s' ↔ C s e)) {es : List ε} {s : σ} :
    Always step P s es ↔ P s ∧ Along step C s es := by
  have hiff : P s → (Always step P s es ↔ Along step C s es) :=
    always_iff_along (fun _ h => h) fun s e s' hs h => ⟨(hstep s e s' hs h).mpr, (hstep s e s' hs h).mp⟩
  refine ⟨?_, ?_⟩
  · intro h
    exact ⟨h.head, (hiff h.head).mp h⟩
  · rintro ⟨hs, h⟩
    exact (hiff hs).mpr h

end GroupeChat.Base
