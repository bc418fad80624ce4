import MyNginx.Foundation.Transition

/-!
# Systems that settle

Some of the labels are the system's own steps; the others are the choices of its
environment. If each own step lowers an effort, then a run of own steps is no longer than
the effort of its first state, and every such run can be continued to a state in which the
system has nothing left to do.
-/

namespace Foundation

universe u v

variable {σ : Type u} {α : Type v} {step : σ → α → Option σ} {own : α → Prop} {effort : σ → Nat}
  {I : σ → Prop} {s t : σ} {labels : List α}

/-- No own step is possible. -/
def Settled (step : σ → α → Option σ) (own : α → Prop) (s : σ) : Prop :=
  ∀ a, own a → step s a = none

/-- A run of own steps leads from one state to the other. -/
def Leads (step : σ → α → Option σ) (own : α → Prop) (s t : σ) : Prop :=
  ∃ labels, (∀ a ∈ labels, own a) ∧ run step s labels = some t

theorem Leads.refl (s : σ) : Leads step own s s := ⟨[], by simp, rfl⟩

theorem Leads.single {a : α} (ha : own a) (h : step s a = some t) : Leads step own s t :=
  ⟨[a], by simpa using ha, run_cons_eq_some.mpr ⟨t, h, rfl⟩⟩

theorem Leads.trans {u : σ} (first : Leads step own s t) (second : Leads step own t u) :
    Leads step own s u := by
  obtain ⟨labels, howned, hr⟩ := first
  obtain ⟨more, howned', hr'⟩ := second
  refine ⟨labels ++ more, List.forall_mem_append.mpr ⟨howned, howned'⟩, ?_⟩
  rw [run_append, hr, Option.bind_some, hr']

/-- A run of own steps keeps what they keep. -/
theorem run_own (preserved : ∀ s a s', I s → own a → step s a = some s' → I s') (initial : I s)
    (owned : ∀ a ∈ labels, own a) (hr : run step s labels = some t) : I t := by
  induction labels generalizing s with
  | nil =>
      obtain rfl := Option.some.inj hr
      exact initial
  | cons a labels ih =>
      obtain ⟨s', hs, rest⟩ := run_cons_eq_some.mp hr
      exact ih (preserved s a s' initial (owned a List.mem_cons_self) hs)
        (fun b hb => owned b (List.mem_cons_of_mem _ hb)) rest

/-- A run of own steps uses up effort. -/
theorem length_add_effort_le (preserved : ∀ s a s', I s → own a → step s a = some s' → I s')
    (lowers : ∀ s a s', I s → own a → step s a = some s' → effort s' < effort s) (initial : I s)
    (owned : ∀ a ∈ labels, own a) (hr : run step s labels = some t) :
    labels.length + effort t ≤ effort s := by
  induction labels generalizing s with
  | nil =>
      obtain rfl := Option.some.inj hr
      simp
  | cons a labels ih =>
      obtain ⟨s', hs, rest⟩ := run_cons_eq_some.mp hr
      have hown := owned a List.mem_cons_self
      have hlower := lowers s a s' initial hown hs
      have hrest := ih (preserved s a s' initial hown hs)
        (fun b hb => owned b (List.mem_cons_of_mem _ hb)) rest
      rw [List.length_cons]
      omega

/-- Left to itself the system settles. -/
theorem exists_settled (preserved : ∀ s a s', I s → own a → step s a = some s' → I s')
    (lowers : ∀ s a s', I s → own a → step s a = some s' → effort s' < effort s) (initial : I s) :
    ∃ labels t, (∀ a ∈ labels, own a) ∧ run step s labels = some t ∧ Settled step own t := by
  induction h : effort s using Nat.strong_induction_on generalizing s with
  | h n ih =>
      by_cases hsettled : Settled step own s
      · exact ⟨[], s, by simp, rfl, hsettled⟩
      · obtain ⟨a, ha⟩ := not_forall.mp hsettled
        obtain ⟨hown, hs⟩ := Classical.not_imp.mp ha
        obtain ⟨s', hs'⟩ := Option.ne_none_iff_exists'.mp hs
        have hlower := lowers s a s' initial hown hs'
        obtain ⟨labels, t, howned, hr, hsettled⟩ :=
          ih (effort s') (h ▸ hlower) (preserved s a s' initial hown hs') rfl
        refine ⟨a :: labels, t, ?_, run_cons_eq_some.mpr ⟨s', hs', hr⟩, hsettled⟩
        exact List.forall_mem_cons.mpr ⟨hown, howned⟩

/-- One summand of a sum changes. -/
theorem sum_update_add {ι : Type*} {α : Type*} [Fintype ι] [DecidableEq ι] (f : ι → α) (i : ι)
    (a : α) (g : α → Nat) :
    ∑ j, g (Function.update f i a j) + g (f i) = ∑ j, g (f j) + g a := by
  have hnew := Finset.add_sum_erase Finset.univ (fun j => g (Function.update f i a j))
    (Finset.mem_univ i)
  have hold := Finset.add_sum_erase Finset.univ (fun j => g (f j)) (Finset.mem_univ i)
  have hsame : ∑ j ∈ Finset.univ.erase i, g (Function.update f i a j) =
      ∑ j ∈ Finset.univ.erase i, g (f j) := by
    refine Finset.sum_congr rfl fun j hj => ?_
    rw [Function.update_of_ne (Finset.ne_of_mem_erase hj)]
  rw [Function.update_self, hsame] at hnew
  omega

end Foundation
