import Mathlib

/-!
# Runs of labelled partial step functions

A label carries every choice the environment makes, so one step is a partial
function `step : σ → α → Option σ`: `none` means that the label is not a
possible step of that state. `run` performs a list of labels.

`Along C` says that every step actually taken satisfies a condition on the
state before it and its label; `Throughout P` says that every state reached,
the first one included, satisfies `P`. An invariant is proved once per step and
transported to runs by the lemmas below, with the condition available where the
step preserves the invariant only under it. `watched` adds an observer.
-/

namespace Foundation

universe u v w

variable {σ : Type u} {α : Type v} {τ : Type w} {step : σ → α → Option σ}

/-- Perform the labels from left to right; `none` as soon as one is not enabled. -/
def run (step : σ → α → Option σ) : σ → List α → Option σ
  | s, [] => some s
  | s, a :: labels => (step s a).bind fun s' => run step s' labels

@[simp] theorem run_nil (s : σ) : run step s [] = some s := rfl

@[simp] theorem run_cons (s : σ) (a : α) (labels : List α) :
    run step s (a :: labels) = (step s a).bind fun s' => run step s' labels := rfl

theorem run_cons_eq_some {s t : σ} {a : α} {labels : List α} :
    run step s (a :: labels) = some t ↔
      ∃ s', step s a = some s' ∧ run step s' labels = some t := by
  simp only [run_cons, Option.bind_eq_some_iff]

theorem run_append (s : σ) (labels more : List α) :
    run step s (labels ++ more) = (run step s labels).bind fun s' => run step s' more := by
  induction labels generalizing s with
  | nil => rfl
  | cons a labels ih =>
      cases h : step s a with
      | none => simp [h]
      | some s' => simp [h, ih]

/-- Every step taken satisfies `C` at the state before it. -/
def Along (step : σ → α → Option σ) (C : σ → α → Prop) : σ → List α → Prop
  | _, [] => True
  | s, a :: labels => ∀ s', step s a = some s' → C s a ∧ Along step C s' labels

/-- Every state reached, the first one included, satisfies `P`. -/
def Throughout (step : σ → α → Option σ) (P : σ → Prop) : σ → List α → Prop
  | s, [] => P s
  | s, a :: labels => P s ∧ ∀ s', step s a = some s' → Throughout step P s' labels

variable {C D : σ → α → Prop} {I P : σ → Prop} {s t : σ} {labels : List α}

theorem along_cons_of_some {a : α} {s' : σ} (hs : step s a = some s') :
    Along step C s (a :: labels) ↔ C s a ∧ Along step C s' labels :=
  ⟨fun h => h s' hs, fun h _ ht => Option.some.inj (hs.symm.trans ht) ▸ h⟩

theorem throughout_cons_of_some {a : α} {s' : σ} (hs : step s a = some s') :
    Throughout step P s (a :: labels) ↔ P s ∧ Throughout step P s' labels :=
  ⟨fun h => ⟨h.1, h.2 s' hs⟩,
    fun h => ⟨h.1, fun _ ht => Option.some.inj (hs.symm.trans ht) ▸ h.2⟩⟩

instance decidableAlong [∀ s a, Decidable (C s a)] :
    ∀ (s : σ) (labels : List α), Decidable (Along step C s labels)
  | _, [] => isTrue trivial
  | s, a :: labels =>
      match hs : step s a with
      | none => isTrue fun s' hs' => by rw [hs] at hs'; cases hs'
      | some s' =>
          have := decidableAlong s' labels
          decidable_of_iff _ (along_cons_of_some hs).symm

instance decidableThroughout [DecidablePred P] :
    ∀ (s : σ) (labels : List α), Decidable (Throughout step P s labels)
  | s, [] => inferInstanceAs (Decidable (P s))
  | s, a :: labels =>
      match hs : step s a with
      | none => decidable_of_iff (P s) ⟨fun h => ⟨h, fun s' hs' => by rw [hs] at hs'; cases hs'⟩,
          fun h => h.1⟩
      | some s' =>
          have := decidableThroughout s' labels
          decidable_of_iff _ (throughout_cons_of_some hs).symm

theorem Throughout.first (h : Throughout step P s labels) : P s := by
  cases labels with
  | nil => exact h
  | cons => exact h.1

theorem Throughout.last (h : Throughout step P s labels) (hr : run step s labels = some t) :
    P t := by
  induction labels generalizing s with
  | nil =>
      obtain rfl := Option.some.inj hr
      exact h
  | cons a labels ih =>
      obtain ⟨s', hs, rest⟩ := run_cons_eq_some.mp hr
      exact ih (h.2 s' hs) rest

theorem Throughout.mono {Q : σ → Prop} (h : Throughout step P s labels)
    (imp : ∀ t, P t → Q t) : Throughout step Q s labels := by
  induction labels generalizing s with
  | nil => exact imp s h
  | cons a labels ih => exact ⟨imp s h.1, fun s' hs => ih (h.2 s' hs)⟩

theorem Along.mono (h : Along step C s labels) (imp : ∀ t a, C t a → D t a) :
    Along step D s labels := by
  induction labels generalizing s with
  | nil => trivial
  | cons a labels ih =>
      exact fun s' hs => ⟨imp s a (h s' hs).1, ih (h s' hs).2⟩

theorem Along.and (h : Along step C s labels) (h' : Along step D s labels) :
    Along step (fun t a => C t a ∧ D t a) s labels := by
  induction labels generalizing s with
  | nil => trivial
  | cons a labels ih =>
      intro s' hs
      obtain ⟨hc, rest⟩ := h s' hs
      obtain ⟨hd, rest'⟩ := h' s' hs
      exact ⟨⟨hc, hd⟩, ih rest rest'⟩

theorem Along.append_right {more : List α} (h : Along step C s (labels ++ more))
    (hr : run step s labels = some t) : Along step C t more := by
  induction labels generalizing s with
  | nil =>
      obtain rfl := Option.some.inj hr
      exact h
  | cons a labels ih =>
      obtain ⟨s', hs, rest⟩ := run_cons_eq_some.mp hr
      exact ih (h s' hs).2 rest

/-- What holds throughout holds before every step. -/
theorem Throughout.along (h : Throughout step P s labels) :
    Along step (fun s _ => P s) s labels := by
  induction labels generalizing s with
  | nil => trivial
  | cons a labels ih => exact fun s' hs => ⟨h.1, ih (h.2 s' hs)⟩

/-- A condition on labels alone may be checked on the list. -/
theorem along_of_forall {Q : α → Prop} (h : ∀ a ∈ labels, Q a) :
    Along step (fun _ a => Q a) s labels := by
  induction labels generalizing s with
  | nil => trivial
  | cons a labels ih =>
      exact fun s' _ => ⟨h a (by simp), ih fun b hb => h b (by simp [hb])⟩

/-- The invariant rule: initially true and preserved by every step. -/
theorem run_invariant (preserved : ∀ s a s', I s → step s a = some s' → I s')
    (initial : I s) (hr : run step s labels = some t) : I t := by
  induction labels generalizing s with
  | nil =>
      obtain rfl := Option.some.inj hr
      exact initial
  | cons a labels ih =>
      obtain ⟨s', hs, rest⟩ := run_cons_eq_some.mp hr
      exact ih (preserved s a s' initial hs) rest

/-- The invariant rule for runs whose steps meet a condition. -/
theorem throughout_of_along
    (preserved : ∀ s a s', I s → C s a → step s a = some s' → I s')
    (initial : I s) (h : Along step C s labels) : Throughout step I s labels := by
  induction labels generalizing s with
  | nil => exact initial
  | cons a labels ih =>
      exact ⟨initial, fun s' hs =>
        ih (preserved s a s' initial (h s' hs).1 hs) (h s' hs).2⟩

/-- Under an invariant kept by the conditioned steps, a fact about each step
holds along the whole run. -/
theorem along_of_along
    (preserved : ∀ s a s', I s → C s a → step s a = some s' → I s')
    (local_ : ∀ s a s', I s → C s a → step s a = some s' → D s a)
    (initial : I s) (h : Along step C s labels) : Along step D s labels := by
  induction labels generalizing s with
  | nil => trivial
  | cons a labels ih =>
      intro s' hs
      have hc := (h s' hs).1
      exact ⟨local_ s a s' initial hc hs, ih (preserved s a s' initial hc hs) (h s' hs).2⟩

/-- Two conditions that agree where an invariant holds. -/
theorem along_congr (preserved : ∀ s a s', I s → step s a = some s' → I s')
    (agree : ∀ s a s', I s → step s a = some s' → (C s a ↔ D s a)) (initial : I s) :
    Along step C s labels ↔ Along step D s labels :=
  ⟨along_of_along (fun s a s' hi _ => preserved s a s' hi)
      (fun s a s' hi hc hs => (agree s a s' hi hs).mp hc) initial,
    along_of_along (fun s a s' hi _ => preserved s a s' hi)
      (fun s a s' hi hd hs => (agree s a s' hi hs).mpr hd) initial⟩

/-- Exactness: if from a good state a step leads to a good state precisely when
it meets the condition, then a run stays good precisely when all its steps do. -/
theorem throughout_iff_along
    (preserved : ∀ s a s', I s → P s → C s a → step s a = some s' → I s')
    (exact_ : ∀ s a s', I s → P s → step s a = some s' → (P s' ↔ C s a))
    (initial : I s) (good : P s) :
    Throughout step P s labels ↔ Along step C s labels := by
  induction labels generalizing s with
  | nil => exact ⟨fun _ => trivial, fun _ => good⟩
  | cons a labels ih =>
      constructor
      · intro h s' hs
        have hc := (exact_ s a s' initial good hs).mp (h.2 s' hs).first
        have hp := (exact_ s a s' initial good hs).mpr hc
        exact ⟨hc, (ih (preserved s a s' initial good hc hs) hp).mp (h.2 s' hs)⟩
      · intro h
        refine ⟨good, fun s' hs => ?_⟩
        obtain ⟨hc, rest⟩ := h s' hs
        have hp := (exact_ s a s' initial good hs).mpr hc
        exact (ih (preserved s a s' initial good hc hs) hp).mpr rest

/-- Exactness at the end: if the steps that meet the condition keep `I`, the first one that
does not leads to `J`, which stays, and only `I` allows the outcome, then the outcome says
that all steps met the condition. -/
theorem outcome_iff_along {J : σ → Prop} {O : Prop}
    (preserved : ∀ s a s', I s → C s a → step s a = some s' → I s')
    (spoils : ∀ s a s', I s → ¬ C s a → step s a = some s' → J s')
    (spoiled : ∀ s a s', J s → step s a = some s' → J s')
    (initial : I s) (hr : run step s labels = some t) (good : I t → O) (bad : J t → ¬ O) :
    O ↔ Along step C s labels := by
  induction labels generalizing s with
  | nil =>
      obtain rfl := Option.some.inj hr
      exact ⟨fun _ => trivial, fun _ => good initial⟩
  | cons a labels ih =>
      obtain ⟨s', hs, rest⟩ := run_cons_eq_some.mp hr
      rw [along_cons_of_some hs]
      by_cases hc : C s a
      · rw [ih (preserved s a s' initial hc hs) rest, and_iff_right hc]
      · have hj : J t := run_invariant spoiled (spoils s a s' initial hc hs) rest
        exact ⟨fun ho => absurd ho (bad hj), fun h => absurd h.1 hc⟩

/-- Exactness by counting: if a quantity stays where a step meets the condition and
grows where it does not, then a run ends where it began precisely when all its steps
meet the condition. -/
theorem measure_eq_iff_along {m : σ → Int}
    (preserved : ∀ s a s', I s → step s a = some s' → I s')
    (stays : ∀ s a s', I s → C s a → step s a = some s' → m s' = m s)
    (grows : ∀ s a s', I s → ¬ C s a → step s a = some s' → m s < m s')
    (initial : I s) (hr : run step s labels = some t) :
    m t = m s ↔ Along step C s labels := by
  have hmono : ∀ s a s', I s → step s a = some s' → m s ≤ m s' := by
    intro s a s' hi hs
    by_cases hc : C s a
    · exact Int.le_of_eq (stays s a s' hi hc hs).symm
    · exact Int.le_of_lt (grows s a s' hi hc hs)
  have hle : ∀ {s}, I s → ∀ {labels}, run step s labels = some t → m s ≤ m t := by
    intro s hi labels hr
    have hboth : I t ∧ m s ≤ m t :=
      run_invariant (I := fun u => I u ∧ m s ≤ m u)
        (fun u a u' hu hs => ⟨preserved u a u' hu.1 hs, Int.le_trans hu.2 (hmono u a u' hu.1 hs)⟩)
        ⟨hi, Int.le_refl _⟩ hr
    exact hboth.2
  induction labels generalizing s with
  | nil =>
      obtain rfl := Option.some.inj hr
      exact ⟨fun _ => trivial, fun _ => rfl⟩
  | cons a labels ih =>
      obtain ⟨s', hs, rest⟩ := run_cons_eq_some.mp hr
      have hnext := preserved s a s' initial hs
      rw [along_cons_of_some hs]
      by_cases hc : C s a
      · rw [← stays s a s' initial hc hs]
        exact (ih hnext rest).trans ⟨fun h => ⟨hc, h⟩, fun h => h.2⟩
      · have hlt := grows s a s' initial hc hs
        have hend := hle hnext rest
        exact ⟨fun h => absurd h (by omega), fun h => absurd h.1 hc⟩

section Monitor

variable {γ : Type w} {update : σ → α → σ → γ → γ}

/-- The system with an observer, which sees every step and has no influence. -/
def watched (step : σ → α → Option σ) (update : σ → α → σ → γ → γ) (w : σ × γ) (a : α) :
    Option (σ × γ) :=
  (step w.1 a).map fun s' => (s', update w.1 a s' w.2)

theorem watched_eq_some {w w' : σ × γ} {a : α} :
    watched step update w a = some w' ↔
      ∃ s', step w.1 a = some s' ∧ w' = (s', update w.1 a s' w.2) := by
  simp only [watched, Option.map_eq_some_iff]
  exact ⟨fun ⟨s', hs, heq⟩ => ⟨s', hs, heq.symm⟩, fun ⟨s', hs, heq⟩ => ⟨s', hs, heq.symm⟩⟩

/-- A condition that does not look at the observer. -/
theorem along_watched (update : σ → α → σ → γ → γ) (w : σ × γ) :
    Along (watched step update) (fun w a => C w.1 a) w labels ↔ Along step C w.1 labels := by
  induction labels generalizing w with
  | nil => exact Iff.rfl
  | cons a labels ih =>
      constructor
      · intro h s' hs
        obtain ⟨hc, rest⟩ := h _ (watched_eq_some.mpr ⟨s', hs, rfl⟩)
        exact ⟨hc, (ih _).mp rest⟩
      · intro h w' hw
        obtain ⟨s', hs, rfl⟩ := watched_eq_some.mp hw
        obtain ⟨hc, rest⟩ := h s' hs
        exact ⟨hc, (ih _).mpr rest⟩

end Monitor

end Foundation
