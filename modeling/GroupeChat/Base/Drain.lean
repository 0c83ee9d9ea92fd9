/-
  GroupeChat.Base.Drain — a machine that comes to an end by its own steps.

  `Drains own Good Final work`: from a `Good` state the events in `own` lead to `Good`
  states and each uses up some of `work`, and only a `Final` state allows none of them.
  Then no run of such events is longer than the work there was (`length_le`), one that
  cannot go on has ended in a `Final` state (`final_of_stuck`), and there is one that
  ends (`exists_run`).
-/

import GroupeChat.Base.Run

namespace GroupeChat.Base

variable {σ ε : Type}

structure Drains (step : σ → ε → Option σ) (own : ε → Prop) (Good Final : σ → Prop) (work : σ → Nat) : Prop where
  good : ∀ s e s', Good s → own e → step s e = some s' → Good s'
  less : ∀ s e s', Good s → own e → step s e = some s' → work s' < work s
  moves : ∀ s, Good s → ¬ Final s → ∃ e s', own e ∧ step s e = some s'

namespace Drains

variable {step : σ → ε → Option σ} {own : ε → Prop} {Good Final : σ → Prop} {work : σ → Nat}

theorem run_good (h : Drains step own Good Final work) : ∀ {es : List ε} {s t : σ}, Good s →
    (∀ e ∈ es, own e) → run step s es = some t → Good t := by
  intro es
  induction es with
  | nil =>
    intro s t hs _ hr
    cases hr
    exact hs
  | cons e es ih =>
    intro s t hs hown hr
    obtain ⟨u, hu, hr⟩ := Option.bind_eq_some_iff.mp hr
    exact ih (h.good s e u hs (hown e (by simp)) hu) (fun e he => hown e (by simp [he])) hr

theorem length_le (h : Drains step own Good Final work) : ∀ {es : List ε} {s t : σ}, Good s →
    (∀ e ∈ es, own e) → run step s es = some t → es.length + work t ≤ work s := by
  intro es
  induction es with
  | nil =>
    intro s t _ _ hr
    cases hr
    simp
  | cons e es ih =>
    intro s t hs hown hr
    obtain ⟨u, hu, hr⟩ := Option.bind_eq_some_iff.mp hr
    have he : own e := hown e (by simp)
    have hlt := h.less s e u hs he hu
    have hle := ih (h.good s e u hs he hu) (fun e he => hown e (by simp [he])) hr
    simp only [List.length_cons]
    omega

theorem final_of_stuck (h : Drains step own Good Final work) {es : List ε} {s t : σ} (hs : Good s)
    (hown : ∀ e ∈ es, own e) (hr : run step s es = some t) (hstuck : ∀ e, own e → step t e = none) : Final t := by
  apply Classical.byContradiction
  intro hfinal
  obtain ⟨e, u, he, hu⟩ := h.moves t (h.run_good hs hown hr) hfinal
  rw [hstuck e he] at hu
  cases hu

theorem exists_run (h : Drains step own Good Final work) : ∀ {s : σ}, Good s →
    ∃ es t, (∀ e ∈ es, own e) ∧ run step s es = some t ∧ Good t ∧ Final t := by
  intro s
  induction hw : work s using Nat.strongRecOn generalizing s with
  | ind n ih =>
    intro hs
    by_cases hfinal : Final s
    · exact ⟨[], s, by simp, rfl, hs, hfinal⟩
    · obtain ⟨e, u, he, hu⟩ := h.moves s hs hfinal
      have hlt := h.less s e u hs he hu
      obtain ⟨es, t, hown, hr, hgood, ht⟩ := ih (work u) (by omega) rfl (h.good s e u hs he hu)
      refine ⟨e :: es, t, ?_, ?_, hgood, ht⟩
      · intro d hd
        rcases List.mem_cons.mp hd with rfl | hd
        · exact he
        · exact hown d hd
      · rw [run_cons hu, hr]

end Drains

end GroupeChat.Base
