import MyNginx.Foundation.Simulation
import MyNginx.Shutdown.System
import MyNginx.ThreadPool.Joining

/-!
# `StopAll` over the flags of its threads

`Shutdown.step` has threads that do nothing but clear their flags. The threads of the pool do
so at the end of `ThreadFunc`, and behind `Create` they all run; so every run of the pool is
one of `Shutdown.step`, with the same calls of `pthread_join`.
-/

namespace MyNginx

open Foundation

namespace ThreadPool

variable {n m : Nat} {c c' : Control n m} {w : Fin n}

/-- The orders to stop have been given. -/
def ControlPc.told : ControlPc n → Bool
  | .watching _ | .serving | .ordering _ => false
  | .broadcasting | .checking _ | .joining _ | .stopped | .undefined => true

def ControlPc.flat : ControlPc n → Shutdown.Pc
  | .watching _ | .serving | .ordering _ => .entry
  | .broadcasting => .label
  | .checking i => .scan i
  | .joining w => .scan w
  | .stopped => .behind
  -- The thread that is joined twice is the first one.
  | .undefined => .scan 1

/-- The thread runs, or `Create` will wait until it does. -/
def Control.runs (c : Control n m) (w : Fin n) : Bool :=
  match c.pc with
  | .watching _ => true
  | _ => c.pool.running w

/-- What `StopAll` sees of a thread. -/
def Control.item (c : Control n m) (w : Fin n) : Shutdown.ThreadItem :=
  ⟨c.runs w, c.pc.told, c.joined.count w⟩

def Control.flat (c : Control n m) : Shutdown.State :=
  ⟨(List.finRange n).map c.item, c.pc.told, c.pc.flat⟩

theorem modify_finRange {α : Type*} (g : Fin n → α) (w : Fin n) (f : α → α) :
    ((List.finRange n).map g).modify w f =
      (List.finRange n).map (Function.update g w (f (g w))) := by
  refine List.ext_getElem (by simp) fun i hi _ => ?_
  rw [List.getElem_modify]
  by_cases hw : (w : Nat) = i
  · subst hw
    simp
  · have hne : (⟨i, by simpa using hi⟩ : Fin n) ≠ w := fun h => hw (congrArg Fin.val h).symm
    simp [hw, Function.update_of_ne hne]

/-- Some of the threads clear their flags. -/
theorem run_clears (ws : List (Fin n)) (g : Fin n → Shutdown.ThreadItem) (shutdown : Bool)
    (pc : Shutdown.Pc) :
    run (Shutdown.step .stopAll) ⟨(List.finRange n).map g, shutdown, pc⟩
        (ws.map fun w : Fin n => Shutdown.Label.clear w) =
      some ⟨(List.finRange n).map fun w => if w ∈ ws then (g w).clear else g w, shutdown, pc⟩ := by
  induction ws generalizing g with
  | nil => simp
  | cons w ws ih =>
      rw [List.map_cons, run_cons, Shutdown.step, Option.bind_some]
      simp only [modify_finRange]
      rw [ih]
      refine congrArg (fun threads => some (Shutdown.State.mk threads shutdown pc))
        (List.map_congr_left fun v _ => ?_)
      by_cases hv : v = w
      · subst hv
        simp [Shutdown.ThreadItem.clear]
      · simp [hv]

theorem Onward.runs {k k' : Config n m} (h : Onward k k' w)
    (up : k.running w = true ∨ k.thread w = .leaving ∨ k.thread w = .ended)
    (hw : k'.running w = true) : k.running w = true := by
  cases h with
  | stays thread running | waits parking thread running | goes before thread running =>
      exact running ▸ hw
  | parks testing => exact up.resolve_right (by simp [testing])
  | leaves testing thread running | ends leaving thread running => simp [running] at hw

namespace Control

/-- One step of the pool, and one or more or none of `Shutdown.step`. -/
def Matches (c c' : Control n m) : Prop :=
  ∃ labels, run (Shutdown.step .stopAll) c.flat labels = some c'.flat

theorem matches_eq (h : c'.flat = c.flat) : c.Matches c' := ⟨[], congrArg some h.symm⟩

theorem matches_advance (h : Shutdown.advance .stopAll c.flat true = some c'.flat) :
    c.Matches c' :=
  ⟨[.advance true], run_cons_eq_some.mpr ⟨c'.flat, h, rfl⟩⟩

theorem flat_congr (items : ∀ w, c'.item w = c.item w) (told : c'.pc.told = c.pc.told)
    (flat : c'.pc.flat = c.pc.flat) : c'.flat = c.flat := by
  rw [Control.flat, Control.flat, told, flat, funext items]

theorem getElem?_flat (w : Fin n) : c.flat.threads[(w : Nat)]? = some (c.item w) := by
  simp [Control.flat]

/-- `pthread_join` is counted. -/
theorem flat_join (w : Fin n) (pc : ControlPc n) (told : pc.told = c.pc.told)
    (runs : Control.runs { c with pc } = c.runs) :
    { c.flat with
      threads := c.flat.threads.modify w Shutdown.ThreadItem.pthreadJoin, pc := pc.flat } =
      Control.flat { c with joined := c.joined ++ [w], pc } := by
  have hitems : Function.update c.item w (c.item w).pthreadJoin =
      Control.item { c with joined := c.joined ++ [w], pc } := by
    funext v
    change _ = (⟨Control.runs { c with pc } v, pc.told, (c.joined ++ [w]).count v⟩ :
      Shutdown.ThreadItem)
    rw [runs, told]
    by_cases hv : v = w
    · subst hv
      simp [Control.item, Shutdown.ThreadItem.pthreadJoin]
    · simp [Control.item, Function.update_of_ne hv, Ne.symm hv]
  simp only [Control.flat, modify_finRange, hitems, told]

/-- Behind `Create`, a step of the pool may clear flags. -/
theorem matches_pool {k : Config n m} {action : Action n m} (inv : c.Inv)
    (h : ThreadPool.step c.pool action = some k) : c.Matches { c with pool := k } := by
  by_cases hpc : ∃ i, c.pc = .watching i
  · obtain ⟨i, hpc⟩ := hpc
    refine matches_eq (flat_congr (fun w => ?_) rfl rfl)
    simp [Control.item, Control.runs, hpc]
  · have hruns : ∀ d : Control n m, d.pc = c.pc → d.runs = d.pool.running := fun d hd => by
      funext w
      rw [Control.runs, hd]
      split
      next i hi => exact absurd ⟨i, hi⟩ hpc
      next => rfl
    have hseen : ∀ w, c.pc.seen w := fun w => by
      cases hc : c.pc with
      | watching i => exact absurd ⟨i, hc⟩ hpc
      | serving | ordering | broadcasting | checking | joining | stopped | undefined => trivial
    refine ⟨((List.finRange n).filter fun w => c.pool.running w && !k.running w).map
      fun w : Fin n => .clear w, (run_clears _ c.item _ _).trans ?_⟩
    refine congrArg (fun threads => some (Shutdown.State.mk threads c.pc.told c.pc.flat))
      (List.map_congr_left fun w _ => ?_)
    have hback := (step_onward h w).runs (inv.up w (hseen w))
    simp only [Control.item, hruns c rfl, hruns { c with pool := k } rfl, List.mem_filter,
      List.mem_finRange, true_and, Shutdown.ThreadItem.clear]
    cases hold : c.pool.running w <;> cases hnew : k.running w <;> simp_all

/-- Until `StopAll` gives its orders, no thread that `Create` has seen leaves. -/
theorem running_of_seen (inv : c.Inv) (hw : c.pc.seen w) (unordered : ¬ c.pc.ordered w) :
    c.pool.running w = true :=
  (inv.up w hw).resolve_right fun hout =>
    unordered ((inv.ordered w).mp (inv.sound.fetching.leaving w hout))

end Control

theorem controlStep_matches (inv : c.Inv) (h : controlStep c = some c') : c.Matches c' := by
  have hpasses := inv.passes
  cases hpc : c.pc with
  | watching i =>
      simp only [controlStep, hpc] at h
      split at h
      next hi =>
        split at h
        · obtain rfl := Option.some.inj h
          refine Control.matches_eq (Control.flat_congr (fun w => ?_) ?_ ?_)
          · simp [Control.item, Control.runs, ControlPc.told, hpc]
          · simp [ControlPc.told, hpc]
          · simp [ControlPc.flat, hpc]
        · obtain rfl := Option.some.inj h
          refine Control.matches_eq (Control.flat_congr (fun w => ?_) ?_ ?_)
          · simp [Control.item, Control.runs, ControlPc.told, hpc]
          · simp [ControlPc.told, hpc]
          · simp [ControlPc.flat, hpc]
      next hi =>
        obtain rfl := Option.some.inj h
        refine Control.matches_eq (Control.flat_congr (fun w => ?_) ?_ ?_)
        · have hruns : c.pool.running w = true := by
            refine Control.running_of_seen inv ?_ ?_
            · rw [hpc]
              exact Nat.lt_of_lt_of_le w.isLt (Nat.not_lt.mp hi)
            · rw [hpc]
              exact id
          simp [Control.item, Control.runs, ControlPc.told, hpc, hruns]
        · simp [ControlPc.told, hpc]
        · simp [ControlPc.flat, hpc]
  | serving =>
      simp only [controlStep, hpc] at h
      obtain rfl := Option.some.inj h
      refine Control.matches_eq (Control.flat_congr (fun w => ?_) ?_ ?_)
      · simp [Control.item, Control.runs, ControlPc.told, hpc]
      · simp [ControlPc.told, hpc]
      · simp [ControlPc.flat, hpc]
  | ordering i =>
      simp only [controlStep, hpc] at h
      split at h
      next hi =>
        obtain ⟨k, hk, rfl⟩ := Option.map_eq_some_iff.mp h
        have hrunning : k.running = c.pool.running := by rw [← Option.some.inj hk]
        refine Control.matches_eq (Control.flat_congr (fun w => ?_) ?_ ?_)
        · simp [Control.item, Control.runs, ControlPc.told, hpc, hrunning]
        · simp [ControlPc.told, hpc]
        · simp [ControlPc.flat, hpc]
      next hi =>
        obtain rfl := Option.some.inj h
        refine Control.matches_advance ?_
        simp [Shutdown.advance, Control.flat, Control.item, Control.runs, ControlPc.told,
          ControlPc.flat, hpc, Function.comp_def, Shutdown.ThreadItem.askToStop]
  | broadcasting =>
      simp only [controlStep, hpc] at h
      obtain ⟨k, hk, rfl⟩ := Option.map_eq_some_iff.mp h
      have hrunning : k.running = c.pool.running := by
        rw [← Option.some.inj hk]
        rfl
      refine Control.matches_advance ?_
      simp [Shutdown.advance, Control.flat, Control.item, Control.runs, ControlPc.told,
        ControlPc.flat, hpc, hrunning]
  | checking i =>
      simp only [controlStep, hpc] at h
      have hflat : c.flat.pc = .scan i := by simp [Control.flat, ControlPc.flat, hpc]
      split at h
      next hi =>
        have hitem := Control.getElem?_flat (c := c) ⟨i, hi⟩
        split at h
        next hruns =>
          obtain rfl := Option.some.inj h
          have hitemRuns : (c.item ⟨i, hi⟩).running = true := by
            simp [Control.item, Control.runs, hpc, hruns]
          refine ⟨[.advance true, .advance true], run_cons_eq_some.mpr
            ⟨{ c.flat with pc := .asleep }, ?_, run_cons_eq_some.mpr ⟨_, rfl, ?_⟩⟩⟩
          · rw [Shutdown.step, Shutdown.advance, hflat]
            simp only [hitem, hitemRuns, if_true]
          · simp [Control.flat, Control.item, Control.runs, ControlPc.told, ControlPc.flat, hpc]
        next hstopped =>
          obtain rfl := Option.some.inj h
          refine Control.matches_eq (Control.flat_congr (fun w => ?_) ?_ ?_)
          · simp [Control.item, Control.runs, ControlPc.told, hpc]
          · simp [ControlPc.told, hpc]
          · simp [ControlPc.flat, hpc]
      next hi =>
        obtain rfl := Option.some.inj h
        refine Control.matches_advance ?_
        have hnone : c.flat.threads[i]? = none := by
          simp [Control.flat, Nat.not_lt.mp hi]
        rw [Shutdown.advance, hflat]
        simp only [hnone]
        simp [Control.flat, Control.item, Control.runs, ControlPc.told, ControlPc.flat, hpc]
  | joining w =>
      simp only [Control.Passes, hpc] at hpasses
      simp only [controlStep, hpc] at h
      have hflat : c.flat.pc = .scan w := by simp [Control.flat, ControlPc.flat, hpc]
      have hhalted : c.pool.running w = false := inv.halted w (inv.joining w hpc)
      have hitemRuns : (c.item w).running = false := by
        simp [Control.item, Control.runs, hpc, hhalted]
      have hadvance : Shutdown.advance .stopAll c.flat true =
          some { c.flat with
            threads := c.flat.threads.modify w Shutdown.ThreadItem.pthreadJoin
            pc := .scan (w + 1) } := by
        rw [Shutdown.advance, hflat]
        simp only [Control.getElem?_flat, hitemRuns, Bool.false_eq_true, if_false]
      split at h
      next hended =>
        split at h
        next hmem =>
          obtain rfl := Option.some.inj h
          refine Control.matches_advance ?_
          have hzero : (w : Nat) = 0 := by
            rcases hpasses with hfirsts | ⟨hzero, -⟩
            · rw [hfirsts, mem_firsts] at hmem
              exact absurd hmem (Nat.lt_irrefl _)
            · exact hzero
          have hjoin := Control.flat_join (c := c) w .undefined
            (by simp [ControlPc.told, hpc]) (by simp [funext_iff, Control.runs, hpc])
          rw [← hjoin, hadvance, hzero]
          rfl
        next hmem =>
          obtain rfl := Option.some.inj h
          refine Control.matches_advance ?_
          have hjoin := Control.flat_join (c := c) w (.checking (w + 1))
            (by simp [ControlPc.told, hpc]) (by simp [funext_iff, Control.runs, hpc])
          rw [← hjoin, hadvance]
          rfl
      next => cases h
  | stopped | undefined =>
      simp only [controlStep, hpc] at h
      cases h

theorem Control.step_matches (inv : c.Inv) {action : ControlAction n m}
    (h : c.step action = some c') : c.Matches c' := by
  cases action with
  | pool action =>
      simp only [Control.step] at h
      split at h
      · cases h
      · obtain ⟨k, hk, rfl⟩ := Option.map_eq_some_iff.mp h
        exact Control.matches_pool inv hk
  | control => exact controlStep_matches inv h

/-- Every run of `Create`, the pool and `StopAll` is a run of `StopAll` over threads that all
run at first and do nothing but clear their flags; the threads are joined as often. -/
theorem stop_all_refines {labels : List (ControlAction n m)}
    (hr : run Control.step (Control.initial n m) labels = some c) :
    ∃ labels', run (Shutdown.step .stopAll) (Shutdown.start (List.replicate n true)) labels' =
      some c.flat := by
  have hitem : (Control.initial n m).item = fun _ => ⟨true, false, 0⟩ := rfl
  have hstart : (Control.initial n m).flat = Shutdown.start (List.replicate n true) := by
    rw [Control.flat, hitem]
    simp [Control.initial, ControlPc.told, ControlPc.flat, Shutdown.start, List.map_const']
  rw [← hstart]
  exact run_simulated (fun _ _ _ inv hs => Control.step_inv inv hs)
    (fun _ _ _ inv hs => Control.step_matches inv hs) Control.initial_inv hr

/-- A thread is told to stop while it sleeps, and joined. -/
theorem stop_all_refines_one_thread : ∃ c : Control 1 0,
    run Control.step (Control.initial 1 0) (List.replicate 3 (.pool (.thread 0)) ++
      List.replicate 6 .control ++ List.replicate 3 (.pool (.thread 0)) ++
      List.replicate 3 .control) = some c ∧
    ∃ labels, run (Shutdown.step .stopAll) (Shutdown.start [true]) labels = some c.flat := by
  have hrun : (run Control.step (Control.initial 1 0) (List.replicate 3 (.pool (.thread 0)) ++
      List.replicate 6 .control ++ List.replicate 3 (.pool (.thread 0)) ++
      List.replicate 3 .control)).isSome := by decide
  obtain ⟨c, hr⟩ := Option.isSome_iff_exists.mp hrun
  exact ⟨c, hr, stop_all_refines hr⟩

end ThreadPool

end MyNginx
