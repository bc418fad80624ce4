import Mathlib

/-!
# Lock discipline

A lock has at most one holder; the threads inside its critical sections are known
from where they stand. `Guards` says that the holder is exactly the thread inside.
Entering and leaving keep it, and a thread that leaves without unlocking breaks it for
good: the lock has a holder that is not inside.
-/

namespace Foundation

universe u

variable {τ : Type u} {holder : Option τ} {inside inside' : τ → Prop} {t : τ}

/-- The holder of the lock is the thread inside, if any. -/
def Guards (holder : Option τ) (inside : τ → Prop) : Prop := ∀ t, holder = some t ↔ inside t

namespace Guards

theorem congr (h : Guards holder inside) (same : ∀ u, inside' u ↔ inside u) :
    Guards holder inside' := fun u => (h u).trans (same u).symm

/-- At most one thread is inside. -/
theorem unique (h : Guards holder inside) {u : τ} (ht : inside t) (hu : inside u) : t = u :=
  Option.some.inj (((h t).mpr ht).symm.trans ((h u).mpr hu))

/-- A thread takes the free lock and enters. -/
theorem acquire (h : Guards none inside) (enters : ∀ u, inside' u ↔ u = t ∨ inside u) :
    Guards (some t) inside' := by
  intro u
  have hnone : ¬ inside u := fun hu => by cases (h u).mpr hu
  rw [enters, Option.some.injEq]
  exact ⟨fun heq => .inl heq.symm, fun hor => (hor.resolve_right hnone).symm⟩

/-- The thread inside releases the lock and leaves. -/
theorem release (h : Guards holder inside) (ht : inside t)
    (leaves : ∀ u, inside' u ↔ inside u ∧ u ≠ t) : Guards none inside' := by
  intro u
  constructor
  · intro hnone
    cases hnone
  · intro hu
    obtain ⟨hu, hne⟩ := (leaves u).mp hu
    exact absurd (h.unique hu ht) hne

/-- Only the thread `t` moves, and it stays inside or outside. -/
theorem stay (h : Guards holder inside) (self : inside' t ↔ inside t)
    (other : ∀ u, u ≠ t → (inside' u ↔ inside u)) : Guards holder inside' := by
  refine h.congr fun u => ?_
  by_cases hu : u = t
  · rw [hu, self]
  · exact other u hu

/-- Only the thread `t` moves: it takes the free lock. -/
theorem enter (h : Guards none inside) (self : inside' t)
    (other : ∀ u, u ≠ t → (inside' u ↔ inside u)) : Guards (some t) inside' := by
  refine h.acquire fun u => ?_
  by_cases hu : u = t
  · simp [hu, self]
  · simp [hu, other u hu]

/-- Only the thread `t` moves: it releases the lock. -/
theorem leave (h : Guards holder inside) (ht : inside t) (self : ¬ inside' t)
    (other : ∀ u, u ≠ t → (inside' u ↔ inside u)) : Guards none inside' := by
  refine h.release ht fun u => ?_
  by_cases hu : u = t
  · simp [hu, self]
  · simp [hu, other u hu]

/-- A thread that leaves with the lock stays its holder. -/
theorem leak (h : Guards holder inside) (ht : inside t) (gone : ¬ inside' t) :
    ¬ ∀ u, holder = some u → inside' u := fun hall => gone (hall t ((h t).mpr ht))

end Guards

end Foundation
