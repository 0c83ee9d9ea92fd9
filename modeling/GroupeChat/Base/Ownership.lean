/-
  GroupeChat.Base.Ownership — resources that each have one owner.

  `live` says which resources are there to be released, `holds` which owner has which.
  `Exclusive` is kept when a new resource is granted to an owner that had none (`grant`),
  when an owner is dropped with its resource released (`release`), and when one hands its
  resource to another (`transfer`); it is lost when an owner is dropped and its resource
  is not released (`not_of_drop`).
-/

namespace GroupeChat.Base

variable {α ρ : Type} {live live' : α → Prop} {holds holds' : α → ρ → Prop}

/-- Every live resource has exactly one owner, and what an owner has is one resource,
    and live. -/
structure Exclusive (live : α → Prop) (holds : α → ρ → Prop) : Prop where
  owner : ∀ a, live a → ∃ r, holds a r
  unique : ∀ a r r', holds a r → holds a r' → r = r'
  single : ∀ a a' r, holds a r → holds a' r → a = a'
  live : ∀ a r, holds a r → live a

namespace Exclusive

theorem congr (h : Exclusive live holds) (hl : ∀ a, live' a ↔ live a) (hh : ∀ a r, holds' a r ↔ holds a r) :
    Exclusive live' holds' := by
  constructor
  · intro a ha
    obtain ⟨r, hr⟩ := h.owner a ((hl a).mp ha)
    exact ⟨r, (hh a r).mpr hr⟩
  · intro a r r' hr hr'
    exact h.unique a r r' ((hh a r).mp hr) ((hh a r').mp hr')
  · intro a a' r hr hr'
    exact h.single a a' r ((hh a r).mp hr) ((hh a' r).mp hr')
  · intro a r hr
    exact (hl a).mpr (h.live a r ((hh a r).mp hr))

theorem grant {a₀ : α} (r₀ : ρ) (h : Exclusive live holds) (ha : ¬ live a₀) (hr₀ : ∀ a, ¬ holds a r₀)
    (hl : ∀ a, live' a ↔ live a ∨ a = a₀) (hh : ∀ a r, holds' a r ↔ holds a r ∨ a = a₀ ∧ r = r₀) :
    Exclusive live' holds' := by
  constructor
  · intro a hlive
    rcases (hl a).mp hlive with hlive | rfl
    · obtain ⟨r, hr⟩ := h.owner a hlive
      exact ⟨r, (hh a r).mpr (Or.inl hr)⟩
    · exact ⟨r₀, (hh a r₀).mpr (Or.inr ⟨rfl, rfl⟩)⟩
  · intro a r r' hr hr'
    rcases (hh a r).mp hr with hold | ⟨rfl, rfl⟩
    · rcases (hh a r').mp hr' with hold' | ⟨rfl, -⟩
      · exact h.unique a r r' hold hold'
      · exact absurd (h.live a r hold) ha
    · rcases (hh a r').mp hr' with hold' | ⟨-, rfl⟩
      · exact absurd (h.live a r' hold') ha
      · rfl
  · intro a a' r hr hr'
    rcases (hh a r).mp hr with hold | ⟨rfl, rfl⟩
    · rcases (hh a' r).mp hr' with hold' | ⟨-, rfl⟩
      · exact h.single a a' r hold hold'
      · exact absurd hold (hr₀ a)
    · rcases (hh a' r).mp hr' with hold' | ⟨rfl, -⟩
      · exact absurd hold' (hr₀ a')
      · rfl
  · intro a r hr
    rcases (hh a r).mp hr with hold | ⟨rfl, -⟩
    · exact (hl a).mpr (Or.inl (h.live a r hold))
    · exact (hl a).mpr (Or.inr rfl)

theorem release {a₀ : α} {r₀ : ρ} (h : Exclusive live holds) (h₀ : holds a₀ r₀) (hl : ∀ a, live' a ↔ live a ∧ a ≠ a₀)
    (hh : ∀ a r, holds' a r ↔ holds a r ∧ r ≠ r₀) : Exclusive live' holds' := by
  constructor
  · intro a hlive
    obtain ⟨hlive, hne⟩ := (hl a).mp hlive
    obtain ⟨r, hr⟩ := h.owner a hlive
    refine ⟨r, (hh a r).mpr ⟨hr, fun heq => ?_⟩⟩
    rw [heq] at hr
    exact hne (h.single a a₀ r₀ hr h₀)
  · intro a r r' hr hr'
    exact h.unique a r r' ((hh a r).mp hr).1 ((hh a r').mp hr').1
  · intro a a' r hr hr'
    exact h.single a a' r ((hh a r).mp hr).1 ((hh a' r).mp hr').1
  · intro a r hr
    obtain ⟨hold, hne⟩ := (hh a r).mp hr
    refine (hl a).mpr ⟨h.live a r hold, fun heq => ?_⟩
    rw [heq] at hold
    exact hne (h.unique a₀ r r₀ hold h₀)

theorem transfer {a₀ : α} {r₀ : ρ} (r₁ : ρ) (h : Exclusive live holds) (h₀ : holds a₀ r₀) (hr₁ : ∀ a, ¬ holds a r₁)
    (hl : ∀ a, live' a ↔ live a) (hh : ∀ a r, holds' a r ↔ holds a r ∧ r ≠ r₀ ∨ a = a₀ ∧ r = r₁) :
    Exclusive live' holds' := by
  constructor
  · intro a hlive
    obtain ⟨r, hr⟩ := h.owner a ((hl a).mp hlive)
    by_cases hne : r = r₀
    · rw [hne] at hr
      exact ⟨r₁, (hh a r₁).mpr (Or.inr ⟨h.single a a₀ r₀ hr h₀, rfl⟩)⟩
    · exact ⟨r, (hh a r).mpr (Or.inl ⟨hr, hne⟩)⟩
  · intro a r r' hr hr'
    rcases (hh a r).mp hr with ⟨hold, hne⟩ | ⟨rfl, rfl⟩
    · rcases (hh a r').mp hr' with ⟨hold', -⟩ | ⟨rfl, -⟩
      · exact h.unique a r r' hold hold'
      · exact absurd (h.unique a r r₀ hold h₀) hne
    · rcases (hh a r').mp hr' with ⟨hold', hne⟩ | ⟨-, rfl⟩
      · exact absurd (h.unique a r' r₀ hold' h₀) hne
      · rfl
  · intro a a' r hr hr'
    rcases (hh a r).mp hr with ⟨hold, -⟩ | ⟨rfl, rfl⟩
    · rcases (hh a' r).mp hr' with ⟨hold', -⟩ | ⟨-, rfl⟩
      · exact h.single a a' r hold hold'
      · exact absurd hold (hr₁ a)
    · rcases (hh a' r).mp hr' with ⟨hold', -⟩ | ⟨rfl, -⟩
      · exact absurd hold' (hr₁ a')
      · rfl
  · intro a r hr
    rcases (hh a r).mp hr with ⟨hold, -⟩ | ⟨rfl, -⟩
    · exact (hl a).mpr (h.live a r hold)
    · exact (hl a).mpr (h.live a r₀ h₀)

/-- The resource of an owner that is dropped is no one's. -/
theorem not_of_drop {a₀ : α} {r₀ : ρ} (h : Exclusive live holds) (h₀ : holds a₀ r₀) (hl : live' a₀)
    (hh : ∀ r, holds' a₀ r → holds a₀ r ∧ r ≠ r₀) : ¬ Exclusive live' holds' := by
  intro h'
  obtain ⟨r, hr⟩ := h'.owner a₀ hl
  obtain ⟨hold, hne⟩ := hh r hr
  exact hne (h.unique a₀ r r₀ hold h₀)

end Exclusive

end GroupeChat.Base
