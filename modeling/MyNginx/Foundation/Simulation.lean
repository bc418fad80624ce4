import MyNginx.Foundation.Transition

/-!
# Simulation

One system is an abstraction of another one if each step of the other is matched by a run
between the images of its states. Then so is each run.
-/

namespace Foundation

universe u v w x

variable {σ : Type u} {α : Type v} {τ : Type w} {β : Type x} {step : σ → α → Option σ}
  {step' : τ → β → Option τ} {image : σ → τ} {I : σ → Prop} {s t : σ} {labels : List α}

theorem run_simulated (preserved : ∀ s a s', I s → step s a = some s' → I s')
    (simulates : ∀ s a s', I s → step s a = some s' →
      ∃ labels, run step' (image s) labels = some (image s'))
    (initial : I s) (hr : run step s labels = some t) :
    ∃ labels', run step' (image s) labels' = some (image t) := by
  induction labels generalizing s with
  | nil =>
      obtain rfl := Option.some.inj hr
      exact ⟨[], rfl⟩
  | cons a labels ih =>
      obtain ⟨s', hs, rest⟩ := run_cons_eq_some.mp hr
      obtain ⟨front, hfront⟩ := simulates s a s' initial hs
      obtain ⟨back, hback⟩ := ih (preserved s a s' initial hs) rest
      refine ⟨front ++ back, ?_⟩
      rw [run_append, hfront, Option.bind_some, hback]

end Foundation
