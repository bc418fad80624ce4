import MyNginx.ThreadPool.Joining

/-!
# `StopAll` can return, or join a thread twice

As long as no thread has been joined and the next broadcast is still to come, `Create` and
`StopAll` are not stuck: if the threads are left to themselves in front of the broadcast and
behind it, then they have all ended, and a single pass joins them. But with two threads or
more `StopAll` may as well join the first one twice.
-/

namespace MyNginx

open Foundation

namespace ThreadPool

variable {n m : Nat} {c c' t : Control n m} {k : Config n m} {w : Fin n} {i : Nat}

/-- No new message comes, and no thread wakes up without a signal. -/
def ControlAction.Own : ControlAction n m → Prop
  | .pool action => ThreadPool.Own action
  | .control => True

namespace Control

/-- A run in which no new message comes. -/
abbrev Leads (c t : Control n m) : Prop := Foundation.Leads Control.step ControlAction.Own c t

theorem leads_control (h : controlStep c = some c') : c.Leads c' :=
  .single (a := .control) trivial h

theorem leads_pool {actions : List (Action n m)} (owned : ∀ action ∈ actions, Own action)
    (hr : run ThreadPool.step c.pool actions = some k) : c.Leads { c with pool := k } := by
  induction actions generalizing c with
  | nil =>
      obtain rfl := Option.some.inj hr
      exact .refl c
  | cons action actions ih =>
      obtain ⟨k', hk, rest⟩ := run_cons_eq_some.mp hr
      have hown := owned action List.mem_cons_self
      have hstep : Control.step c (.pool action) = some { c with pool := k' } := by
        rw [Control.step, hown.orders, if_neg Bool.false_ne_true, hk, Option.map_some]
      have hlater := ih (c := { c with pool := k' })
        (fun a ha => owned a (List.mem_cons_of_mem _ ha)) rest
      exact (Foundation.Leads.single (a := .pool action) hown hstep).trans hlater

theorem inv_of_leads (leads : c.Leads t) (inv : c.Inv) : t.Inv := by
  obtain ⟨labels, -, hr⟩ := leads
  exact run_invariant (fun _ _ _ inv hs => Control.step_inv inv hs) inv hr

/-- The threads are left to themselves. -/
theorem exists_rest (inv : c.Inv) :
    ∃ k, c.Leads { c with pool := k } ∧ k.AtRest ∧
      ((∀ w, c.pool.ifshutdown w = true ∧ c.pool.thread w ≠ .parking ∧
        c.pool.thread w ≠ .waiting) → ∀ w, k.thread w = .ended) := by
  obtain ⟨actions, k, howned, hr, -, hrest⟩ := ThreadPool.exists_rest inv.sound
  refine ⟨k, leads_pool howned hr, hrest, fun hawake w => ?_⟩
  have hkept : ∀ w, k.ifshutdown w = true ∧ k.thread w ≠ .parking ∧ k.thread w ≠ .waiting :=
    run_own (I := fun k => ∀ w, k.ifshutdown w = true ∧ k.thread w ≠ .parking ∧
        k.thread w ≠ .waiting)
      (fun k action k' hk hown hs w => ⟨by rw [step_ifshutdown hown.orders hs]; exact (hk w).1,
        (step_onward hs w).awake (hk w).1 (hk w).2⟩) hawake howned hr
  exact (hrest.threads w).resolve_left (hkept w).2.2

/-- `WaitRunning`, if all threads run. -/
theorem leads_serving (running : ∀ w, c.pool.running w = true) (pc : c.pc = .watching i) :
    c.Leads { c with pc := .serving } := by
  induction h : n - i generalizing i c with
  | zero =>
      refine leads_control ?_
      rw [controlStep, pc]
      exact dif_neg (by omega)
  | succ d ih =>
      have hi : i < n := by omega
      have hstep : controlStep c = some { c with pc := .watching (i + 1) } := by
        rw [controlStep, pc]
        exact (dif_pos hi).trans (if_pos (running ⟨i, hi⟩))
      exact (leads_control hstep).trans
        (ih (c := { c with pc := .watching (i + 1) }) running rfl (by omega))

/-- The orders to stop. -/
theorem leads_broadcasting (pc : c.pc = .ordering i) :
    ∃ k, c.Leads { c with pool := k, pc := .broadcasting } ∧ k.thread = c.pool.thread ∧
      k.caller = c.pool.caller := by
  induction h : n - i generalizing i c with
  | zero =>
      refine ⟨c.pool, leads_control ?_, rfl, rfl⟩
      rw [controlStep, pc]
      exact dif_neg (by omega)
  | succ d ih =>
      have hi : i < n := by omega
      have hstep : controlStep c = (ThreadPool.step c.pool (.stop ⟨i, hi⟩)).map
          fun pool => { c with pool, pc := .ordering (i + 1) } := by
        rw [controlStep, pc]
        exact dif_pos hi
      obtain ⟨k, hleads, hthread, hcaller⟩ := ih (c := { c with
        pool := { c.pool with ifshutdown := Function.update c.pool.ifshutdown ⟨i, hi⟩ true }
        pc := .ordering (i + 1) }) rfl (by omega)
      exact ⟨k, (leads_control hstep).trans hleads, hthread, hcaller⟩

/-- A pass, if all threads have ended. -/
theorem leads_stopped (ended : ∀ w, c.pool.thread w = .ended)
    (halted : ∀ w, c.pool.running w = false) (pc : c.pc = .checking i)
    (joined : c.joined = (List.finRange n).take i) : ∃ t, c.Leads t ∧ t.pc = .stopped := by
  induction h : n - i generalizing i c with
  | zero =>
      refine ⟨{ c with pc := .stopped }, leads_control ?_, rfl⟩
      rw [controlStep, pc]
      exact dif_neg (by omega)
  | succ d ih =>
      have hi : i < n := by omega
      have hcheck : controlStep c = some { c with pc := .joining ⟨i, hi⟩ } := by
        rw [controlStep, pc]
        exact (dif_pos hi).trans (if_neg (by simp [halted]))
      have hnew : (⟨i, hi⟩ : Fin n) ∉ c.joined := by
        rw [joined, mem_firsts]
        exact Nat.lt_irrefl i
      have hjoin : controlStep { c with pc := .joining ⟨i, hi⟩ } =
          some { c with joined := c.joined ++ [⟨i, hi⟩], pc := .checking (i + 1) } := by
        rw [controlStep]
        exact (if_pos (ended _)).trans (if_neg hnew)
      obtain ⟨t, hleads, hstopped⟩ := ih
        (c := { c with joined := c.joined ++ [⟨i, hi⟩], pc := .checking (i + 1) }) ended halted rfl
        (by rw [joined]; exact firsts_concat ⟨i, hi⟩) (by omega)
      exact ⟨t, ((leads_control hcheck).trans (leads_control hjoin)).trans hleads, hstopped⟩

/-- The first broadcast is still to come, or the pass that is to follow is the first one. -/
theorem leads_of_broadcasting (inv : c.Inv) (pc : c.pc = .broadcasting) (joined : c.joined = []) :
    ∃ t, c.Leads t ∧ t.pc = .stopped := by
  obtain ⟨k, hrest, hatRest, -⟩ := exists_rest inv
  have hpc : ({ c with pool := k } : Control n m).pc = .broadcasting := pc
  have hbroadcast : controlStep { c with pool := k } =
      some { c with pool := broadcast k, pc := .checking 0 } := by
    rw [controlStep, hpc]
    rfl
  have hchecking := hrest.trans (leads_control hbroadcast)
  have inv' := inv_of_leads hchecking inv
  obtain ⟨k', hrest', -, hall⟩ := exists_rest inv'
  have hended : ∀ w, k'.thread w = .ended := hall fun w => by
    refine ⟨(inv'.ordered w).mpr trivial, ?_⟩
    change (if k.thread w = .waiting then ThreadPc.waking else k.thread w) ≠ .parking ∧
      (if k.thread w = .waiting then ThreadPc.waking else k.thread w) ≠ .waiting
    rcases hatRest.threads w with hw | hw
    · simp [hw]
    · simp [hw]
  have hlast := inv_of_leads hrest' inv'
  obtain ⟨t, hleads, hstopped⟩ := leads_stopped (i := 0) hended
    (fun w => hlast.halted w (.inr (hended w))) rfl joined
  exact ⟨t, (hchecking.trans hrest').trans hleads, hstopped⟩

/-- At rest and without an order to stop, all threads wait, and they run. -/
theorem waiting_of_atRest (inv : c.Inv) (rest : c.pool.AtRest)
    (unordered : ∀ w, ¬ c.pc.ordered w) (w : Fin n) :
    c.pool.thread w = .waiting ∧ c.pool.running w = true := by
  have hwaiting : c.pool.thread w = .waiting := (rest.threads w).resolve_right fun hended =>
    unordered w ((inv.ordered w).mp (inv.sound.fetching.leaving w (.inr hended)))
  exact ⟨hwaiting, inv.sound.fetching.parked w (.inr (.inl hwaiting))⟩

/-- From `Create` on to the orders to stop, with all threads asleep. -/
theorem leads_ordering (inv : c.Inv) (pc : c.pc = .watching i) :
    ∃ k, c.Leads { c with pool := k, pc := .ordering 0 } ∧ k.AtRest ∧
      ∀ w, k.thread w = .waiting := by
  obtain ⟨k, hrest, hatRest, -⟩ := exists_rest inv
  have hpc : ({ c with pool := k } : Control n m).pc = .watching i := pc
  have hall := waiting_of_atRest (inv_of_leads hrest inv) hatRest fun w => by
    rw [hpc]
    exact id
  have hserving := hrest.trans (leads_serving (fun w => (hall w).2) hpc)
  have hordering : controlStep { c with pool := k, pc := .serving } =
      some { c with pool := k, pc := .ordering 0 } := rfl
  exact ⟨k, hserving.trans (leads_control hordering), hatRest, fun w => (hall w).1⟩

end Control

/-- The controlling thread is in front of a broadcast, or in front of `StopAll`. -/
def ControlPc.early : ControlPc n → Bool
  | .watching _ | .serving | .ordering _ | .broadcasting => true
  | .checking _ | .joining _ | .stopped | .undefined => false

/-- From every reachable state in which no thread has been joined and the controlling thread is
in front of a broadcast, it can come to the end of `StopAll`, without a further message and
without a thread that wakes up by itself. -/
theorem stop_all_returns {labels : List (ControlAction n m)}
    (hr : run Control.step (Control.initial n m) labels = some c) (early : c.pc.early = true)
    (joined : c.joined = []) :
    ∃ more t, (∀ action ∈ more, ControlAction.Own action) ∧ run Control.step c more = some t ∧
      t.pc = .stopped := by
  have inv := Control.reachable_inv hr
  have hordering : ∀ {d : Control n m}, d.Inv → d.joined = [] → ∀ {i}, d.pc = .ordering i →
      ∃ t, d.Leads t ∧ t.pc = .stopped := fun {d} inv joined i pc => by
    obtain ⟨k, hleads, -⟩ := Control.leads_broadcasting pc
    obtain ⟨t, hlater, hstopped⟩ :=
      Control.leads_of_broadcasting (Control.inv_of_leads hleads inv) rfl joined
    exact ⟨t, hleads.trans hlater, hstopped⟩
  obtain ⟨t, ⟨more, howned, hmore⟩, hstopped⟩ : ∃ t, c.Leads t ∧ t.pc = .stopped := by
    cases hpc : c.pc with
    | watching i =>
        obtain ⟨k, hleads, -⟩ := Control.leads_ordering inv hpc
        obtain ⟨t, hlater, hstopped⟩ :=
          hordering (Control.inv_of_leads hleads inv) joined rfl
        exact ⟨t, hleads.trans hlater, hstopped⟩
    | serving =>
        have hstep : controlStep c = some { c with pc := .ordering 0 } := by rw [controlStep, hpc]
        have hleads := Control.leads_control hstep
        obtain ⟨t, hlater, hstopped⟩ :=
          hordering (Control.inv_of_leads hleads inv) joined rfl
        exact ⟨t, hleads.trans hlater, hstopped⟩
    | ordering i => exact hordering inv joined hpc
    | broadcasting => exact Control.leads_of_broadcasting inv hpc joined
    | checking | joining | stopped | undefined =>
        rw [hpc] at early
        cases early
  exact ⟨more, t, howned, hmore, hstopped⟩

/-- Three threads are about to begin, and `StopAll` can come to its end. -/
theorem stop_all_returns_three_threads : ∃ more t,
    (∀ action ∈ more, ControlAction.Own action) ∧
      run Control.step (Control.initial 3 1) more = some t ∧ t.pc = .stopped :=
  @stop_all_returns 3 1 (Control.initial 3 1) [] rfl rfl rfl

namespace Control

/-- A thread that has been woken leaves. -/
theorem leads_leaving (pc : c.pool.thread w = .waking) (free : c.pool.pthreadMutex = none)
    (shut : c.pool.ifshutdown w = true) :
    ∃ k, c.Leads { c with pool := k } ∧ k.thread w = .ended ∧
      ∀ v, v ≠ w → k.thread v = c.pool.thread v := by
  let k₁ : Config n m := { c.pool with pthreadMutex := some (.inl w) }.goto w .testing
  let k₂ : Config n m := { k₁ with running := Function.update k₁.running w false }.goto w .leaving
  let k₃ : Config n m := { k₂ with
    pthreadMutex := none, running := Function.update k₂.running w false }.goto w .ended
  have hlock : ThreadPool.step c.pool (.thread w) = some k₁ := by
    rw [ThreadPool.step, pc]
    exact if_pos free
  have hpc₁ : k₁.thread w = .testing := Function.update_self ..
  have htest : ThreadPool.step k₁ (.thread w) = some k₂ := by
    rw [ThreadPool.step, hpc₁]
    have hbusy : ¬(k₁.msgqueue = [] ∧ k₁.ifshutdown w = false) := fun h => by
      have hshut : k₁.ifshutdown w = true := shut
      rw [hshut] at h
      cases h.2
    exact (if_neg hbusy).trans (if_pos shut)
  have hpc₂ : k₂.thread w = .leaving := Function.update_self ..
  have hleave : ThreadPool.step k₂ (.thread w) = some k₃ := by
    rw [ThreadPool.step, hpc₂]
    rfl
  have hrun : run ThreadPool.step c.pool (List.replicate 3 (.thread w)) = some k₃ :=
    run_cons_eq_some.mpr ⟨k₁, hlock, run_cons_eq_some.mpr ⟨k₂, htest,
      run_cons_eq_some.mpr ⟨k₃, hleave, rfl⟩⟩⟩
  refine ⟨k₃, leads_pool (fun action h => ?_) hrun, Function.update_self .., fun v hv => ?_⟩
  · rw [List.eq_of_mem_replicate h]
    trivial
  · simp [k₃, k₂, k₁, Config.goto, hv]

/-- A thread has been joined, and another pass begins. -/
theorem leads_undefined (inv : c.Inv) (pos : 0 < n) (pc : c.pc = .broadcasting)
    (joined : (⟨0, pos⟩ : Fin n) ∈ c.joined) : ∃ t, c.Leads t ∧ t.pc = .undefined := by
  have hbroadcast : controlStep c =
      some { c with pool := broadcast c.pool, pc := .checking 0 } := by
    rw [controlStep, pc]
    rfl
  have hchecking := leads_control hbroadcast
  have inv' := inv_of_leads hchecking inv
  have hended : (broadcast c.pool).thread ⟨0, pos⟩ = .ended := inv'.joined _ joined
  have hhalted : (broadcast c.pool).running ⟨0, pos⟩ = false := inv'.halted _ (.inr hended)
  have hcheck : controlStep { c with pool := broadcast c.pool, pc := .checking 0 } =
      some { c with pool := broadcast c.pool, pc := .joining ⟨0, pos⟩ } := by
    rw [controlStep]
    exact (dif_pos pos).trans (if_neg (by simp [hhalted]))
  have hjoin : controlStep { c with pool := broadcast c.pool, pc := .joining ⟨0, pos⟩ } =
      some { c with
        pool := broadcast c.pool, joined := c.joined ++ [⟨0, pos⟩], pc := .undefined } := by
    rw [controlStep]
    exact (if_pos hended).trans (if_pos joined)
  exact ⟨_, (hchecking.trans (leads_control hcheck)).trans (leads_control hjoin), rfl⟩

/-- One thread leaves in time to be joined, and the others do not. -/
theorem leads_twice (inv : c.Inv) (two : 2 ≤ n) (pc : c.pc = .checking 0) (joined : c.joined = [])
    (waking : ∀ w, c.pool.thread w = .waking) (free : c.pool.pthreadMutex = none) :
    ∃ t, c.Leads t ∧ t.pc = .undefined := by
  have hpos : 0 < n := by omega
  have hshut : c.pool.ifshutdown ⟨0, hpos⟩ = true := by
    rw [inv.ordered, pc]
    trivial
  obtain ⟨k, hleads, hended, hothers⟩ := leads_leaving (waking ⟨0, hpos⟩) free hshut
  have inv' := inv_of_leads hleads inv
  have hpc : ({ c with pool := k } : Control n m).pc = .checking 0 := pc
  have hhalted : k.running ⟨0, hpos⟩ = false := inv'.halted _ (.inr hended)
  have hfirst : controlStep { c with pool := k } =
      some { c with pool := k, pc := .joining ⟨0, hpos⟩ } := by
    rw [controlStep, hpc]
    exact (dif_pos hpos).trans (if_neg (by simp [hhalted]))
  have hnew : (⟨0, hpos⟩ : Fin n) ∉ c.joined := by simp [joined]
  have hjoin : controlStep { c with pool := k, pc := .joining ⟨0, hpos⟩ } =
      some { c with pool := k, joined := c.joined ++ [⟨0, hpos⟩], pc := .checking 1 } := by
    rw [controlStep]
    exact (if_pos hended).trans (if_neg hnew)
  have hruns : k.running ⟨1, two⟩ = true := by
    refine inv'.sound.fetching.parked _ (.inr (.inr ?_))
    exact (hothers _ (by simp)).trans (waking _)
  have hsecond : controlStep
      { c with pool := k, joined := c.joined ++ [⟨0, hpos⟩], pc := .checking 1 } =
      some { c with pool := k, joined := c.joined ++ [⟨0, hpos⟩], pc := .broadcasting } := by
    rw [controlStep]
    exact (dif_pos (show 1 < n from two)).trans (if_pos hruns)
  have hagain := ((hleads.trans (leads_control hfirst)).trans (leads_control hjoin)).trans
    (leads_control hsecond)
  obtain ⟨t, hlater, hundefined⟩ := leads_undefined (inv_of_leads hagain inv) hpos rfl
    (List.mem_append_right _ List.mem_cons_self)
  exact ⟨t, hagain.trans hlater, hundefined⟩

end Control

/-- `StopAll` can join a thread for the second time exactly if there are two threads or more. -/
theorem stop_all_twice_iff :
    (∃ labels c, run Control.step (Control.initial n m) labels = some c ∧ c.pc = .undefined) ↔
      2 ≤ n := by
  constructor
  · rintro ⟨labels, c, hr, hpc⟩
    have hpasses := (Control.reachable_inv hr).passes
    rwa [Control.Passes, hpc] at hpasses
  · intro two
    obtain ⟨k, hordering, hrest, hwaiting⟩ :=
      Control.leads_ordering (Control.initial_inv (n := n) (m := m)) rfl
    obtain ⟨k', horders, hthread, hcaller⟩ := Control.leads_broadcasting
      (c := { Control.initial n m with pool := k, pc := .ordering 0 }) rfl
    have hbroadcasting := hordering.trans horders
    have inv := Control.inv_of_leads hbroadcasting Control.initial_inv
    have hrest' : k'.AtRest :=
      ⟨fun w => hthread ▸ hrest.threads w, fun p => hcaller ▸ hrest.callers p⟩
    have hbroadcast : controlStep { Control.initial n m with pool := k', pc := .broadcasting } =
        some { Control.initial n m with pool := broadcast k', pc := .checking 0 } := rfl
    have hchecking := hbroadcasting.trans (Control.leads_control hbroadcast)
    have hwaking : ∀ w, (broadcast k').thread w = .waking := fun w =>
      if_pos (hthread ▸ hwaiting w)
    obtain ⟨t, hlater, hundefined⟩ := Control.leads_twice
      (Control.inv_of_leads hchecking Control.initial_inv) two rfl rfl hwaking
      (hrest'.free inv.sound.inv)
    obtain ⟨labels, -, hr⟩ := hchecking.trans hlater
    exact ⟨labels, t, hr, hundefined⟩

end ThreadPool

end MyNginx
