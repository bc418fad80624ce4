import MyNginx.ThreadPool.StopAll

/-!
# Every thread is joined once, or one of them twice

In a pass of `StopAll` the threads are joined in their order, from the first one on. If a pass
ends with a thread that still runs, the threads in front of it are joined already, so that the
next pass joins the first one again. When `StopAll` returns, all threads have ended with
nothing in their hands.
-/

namespace MyNginx

open Foundation

namespace ThreadPool

variable {n m : Nat} {c c' : Control n m} {k : Config n m} {w : Fin n} {i j : Nat}

theorem mem_firsts : w ∈ (List.finRange n).take i ↔ (w : Nat) < i := by
  rw [List.mem_take_iff_getElem]
  constructor
  · rintro ⟨a, ha, rfl⟩
    have hbound : a < i := by omega
    simpa using hbound
  · intro hw
    exact ⟨w, by simp; omega, by simp⟩

theorem firsts_concat (w : Fin n) :
    (List.finRange n).take w ++ [w] = (List.finRange n).take (w + 1) := by
  rw [List.take_add_one]
  simp

/-- The thread has been told to stop. -/
def ControlPc.ordered : ControlPc n → Fin n → Prop
  | .watching _, _ | .serving, _ => False
  | .ordering i, w => w < i
  | .broadcasting, _ | .checking _, _ | .joining _, _ | .stopped, _ | .undefined, _ => True

/-- `Create` has seen the thread run. -/
def ControlPc.seen : ControlPc n → Fin n → Prop
  | .watching i, w => w < i
  | .serving, _ | .ordering _, _ | .broadcasting, _ | .checking _, _ | .joining _, _
  | .stopped, _ | .undefined, _ => True

/-- The threads that are joined: the ones in front of the thread at hand; or, from a thread
that was found running on, some of them before the first one comes again. -/
def Control.Passes (c : Control n m) : Prop :=
  match c.pc with
  | .watching _ | .serving | .ordering _ => c.joined = []
  | .broadcasting => c.joined = [] ∨ ∃ j, 0 < j ∧ j < n ∧ c.joined = (List.finRange n).take j
  | .checking i => i ≤ n ∧ c.joined = (List.finRange n).take i ∨
      i = 0 ∧ ∃ j, 0 < j ∧ j < n ∧ c.joined = (List.finRange n).take j
  | .joining w => c.joined = (List.finRange n).take w ∨
      (w : Nat) = 0 ∧ ∃ j, 0 < j ∧ j < n ∧ c.joined = (List.finRange n).take j
  | .stopped => c.joined = List.finRange n
  | .undefined => 2 ≤ n

structure Control.Inv (c : Control n m) : Prop where
  sound : c.pool.Sound
  ordered : ∀ w, c.pool.ifshutdown w = true ↔ c.pc.ordered w
  up : ∀ w, c.pc.seen w → c.pool.running w = true ∨ c.pool.thread w = .leaving ∨
    c.pool.thread w = .ended
  halted : ∀ w, c.pool.thread w = .leaving ∨ c.pool.thread w = .ended → c.pool.running w = false
  joining : ∀ w, c.pc = .joining w → c.pool.thread w = .leaving ∨ c.pool.thread w = .ended
  joined : ∀ w ∈ c.joined, c.pool.thread w = .ended
  passes : c.Passes

namespace Control.Inv

/-- The pool makes a step, and the orders to stop stay. -/
theorem pool (inv : c.Inv) {action : Action n m} (h : ThreadPool.step c.pool action = some k)
    (shut : k.ifshutdown = c.pool.ifshutdown) : Control.Inv { c with pool := k } where
  sound := inv.sound.next h
  ordered w := by rw [shut]; exact inv.ordered w
  up w hw := (step_onward h w).up (inv.up w hw)
  halted w := (step_onward h w).halted (inv.halted w)
  joining w hw := (step_onward h w).out (inv.joining w hw)
  joined w hw := (step_onward h w).ended (inv.joined w hw)
  passes := inv.passes

/-- The controlling thread goes on without touching the pool. -/
theorem goes (inv : c.Inv) {pc : ControlPc n} (ordered : ∀ w, pc.ordered w ↔ c.pc.ordered w)
    (seen : ∀ w, pc.seen w → c.pc.seen w ∨ c.pool.running w = true)
    (joining : ∀ w, pc = .joining w → c.pool.thread w = .leaving ∨ c.pool.thread w = .ended)
    (passes : Control.Passes { c with pc }) : Control.Inv { c with pc } where
  sound := inv.sound
  ordered w := (inv.ordered w).trans (ordered w).symm
  up w hw := (seen w hw).elim (inv.up w) .inl
  halted := inv.halted
  joining := joining
  joined := inv.joined
  passes := passes

end Control.Inv

theorem controlStep_inv (inv : c.Inv) (h : controlStep c = some c') : c'.Inv := by
  have hpasses := inv.passes
  cases hpc : c.pc with
  | watching i =>
      simp only [Control.Passes, hpc] at hpasses
      simp only [controlStep, hpc] at h
      split at h
      next hi =>
        split at h
        next hruns =>
          obtain rfl := Option.some.inj h
          refine inv.goes (by simp [hpc, ControlPc.ordered]) (fun w hw => ?_) (by simp) hpasses
          rcases Nat.lt_succ_iff_lt_or_eq.mp hw with hlt | heq
          · exact .inl (by rwa [hpc])
          · exact .inr ((Fin.ext heq : w = ⟨i, hi⟩) ▸ hruns)
        next =>
          obtain rfl := Option.some.inj h
          exact inv.goes (by simp [hpc, ControlPc.ordered]) (by simp [ControlPc.seen]) (by simp)
            hpasses
      next hi =>
        obtain rfl := Option.some.inj h
        refine inv.goes (by simp [hpc, ControlPc.ordered]) (fun w _ => .inl ?_) (by simp) hpasses
        rw [hpc]
        exact Nat.lt_of_lt_of_le w.isLt (Nat.not_lt.mp hi)
  | serving =>
      simp only [Control.Passes, hpc] at hpasses
      simp only [controlStep, hpc] at h
      obtain rfl := Option.some.inj h
      exact inv.goes (by simp [hpc, ControlPc.ordered]) (by simp [hpc, ControlPc.seen]) (by simp)
        hpasses
  | ordering i =>
      simp only [Control.Passes, hpc] at hpasses
      simp only [controlStep, hpc] at h
      split at h
      next hi =>
        obtain ⟨k, hk, rfl⟩ := Option.map_eq_some_iff.mp h
        have hstop := Option.some.inj hk
        have hsound : k.Sound := inv.sound.next hk
        refine ⟨hsound, fun w => ?_, fun w _ => ?_, fun w => ?_, by simp, fun w hw => ?_, hpasses⟩
        · rw [← hstop]
          change Function.update c.pool.ifshutdown ⟨i, hi⟩ true w = true ↔ (w : Nat) < i + 1
          have hold := inv.ordered w
          rw [hpc] at hold
          by_cases hw : w = ⟨i, hi⟩
          · simp [hw]
          · have hne : (w : Nat) ≠ i := fun heq => hw (Fin.ext heq)
            rw [Function.update_of_ne hw, hold, ControlPc.ordered]
            omega
        · exact (step_onward hk w).up (inv.up w (by simp [hpc, ControlPc.seen]))
        · exact (step_onward hk w).halted (inv.halted w)
        · exact (step_onward hk w).ended (inv.joined w hw)
      next hi =>
        obtain rfl := Option.some.inj h
        refine inv.goes (fun w => ?_) (by simp [hpc, ControlPc.seen]) (by simp) (.inl hpasses)
        rw [hpc]
        exact ⟨fun _ => Nat.lt_of_lt_of_le w.isLt (Nat.not_lt.mp hi), fun _ => trivial⟩
  | broadcasting =>
      simp only [Control.Passes, hpc] at hpasses
      simp only [controlStep, hpc] at h
      obtain ⟨k, hk, rfl⟩ := Option.map_eq_some_iff.mp h
      have hpool := inv.pool hk (by rw [← Option.some.inj hk]; rfl)
      refine hpool.goes (by simp [hpc, ControlPc.ordered]) (by simp [hpc, ControlPc.seen])
        (by simp) ?_
      exact hpasses.imp (fun hnil => ⟨Nat.zero_le n, hnil⟩) fun hj => ⟨rfl, hj⟩
  | checking i =>
      simp only [Control.Passes, hpc] at hpasses
      simp only [controlStep, hpc] at h
      split at h
      next hi =>
        split at h
        next hruns =>
          obtain rfl := Option.some.inj h
          refine inv.goes (by simp [hpc, ControlPc.ordered]) (by simp [hpc, ControlPc.seen])
            (by simp) ?_
          rcases hpasses with ⟨-, hfirsts⟩ | ⟨-, hagain⟩
          · rcases Nat.eq_zero_or_pos i with rfl | hpos
            · exact .inl hfirsts
            · exact .inr ⟨i, hpos, hi, hfirsts⟩
          · exact .inr hagain
        next hstopped =>
          obtain rfl := Option.some.inj h
          refine inv.goes (by simp [hpc, ControlPc.ordered]) (by simp [hpc, ControlPc.seen])
            (fun w hw => ?_) (hpasses.imp And.right id)
          obtain rfl := ControlPc.joining.inj hw
          exact (inv.up ⟨i, hi⟩ (by simp [hpc, ControlPc.seen])).resolve_left hstopped
      next hi =>
        obtain rfl := Option.some.inj h
        refine inv.goes (by simp [hpc, ControlPc.ordered]) (by simp [hpc, ControlPc.seen])
          (by simp) ?_
        rcases hpasses with ⟨hle, hfirsts⟩ | ⟨rfl, j, hpos, hj, -⟩
        · have hlength : (List.finRange n).length ≤ i := by simpa using Nat.not_lt.mp hi
          exact hfirsts.trans (List.take_of_length_le hlength)
        · omega
  | joining w =>
      simp only [Control.Passes, hpc] at hpasses
      simp only [controlStep, hpc] at h
      split at h
      next hended =>
        have hordered : ∀ v, c.pool.ifshutdown v = true ↔ True := fun v => by
          rw [inv.ordered v, hpc]
          exact Iff.rfl
        have hup : ∀ v, True → c.pool.running v = true ∨ c.pool.thread v = .leaving ∨
            c.pool.thread v = .ended := fun v _ => inv.up v (by simp [hpc, ControlPc.seen])
        have hjoined : ∀ v ∈ c.joined ++ [w], c.pool.thread v = .ended := fun v hv => by
          rcases List.mem_append.mp hv with hold | hnew
          · exact inv.joined v hold
          · rw [List.mem_singleton.mp hnew]
            exact hended
        split at h
        next hmem =>
          obtain rfl := Option.some.inj h
          refine ⟨inv.sound, hordered, hup, inv.halted, by simp, hjoined, ?_⟩
          rcases hpasses with hfirsts | ⟨hzero, j, hpos, hj, -⟩
          · rw [hfirsts, mem_firsts] at hmem
            exact absurd hmem (Nat.lt_irrefl _)
          · change 2 ≤ n
            omega
        next hmem =>
          obtain rfl := Option.some.inj h
          refine ⟨inv.sound, hordered, hup, inv.halted, by simp, hjoined, ?_⟩
          rcases hpasses with hfirsts | ⟨hzero, j, hpos, hj, hfirsts⟩
          · refine .inl ⟨w.isLt, ?_⟩
            change c.joined ++ [w] = _
            rw [hfirsts, firsts_concat]
          · rw [hfirsts, mem_firsts] at hmem
            omega
      next => cases h
  | stopped | undefined =>
      simp only [controlStep, hpc] at h
      cases h

theorem Control.step_inv (inv : c.Inv) {action : ControlAction n m}
    (h : c.step action = some c') : c'.Inv := by
  cases action with
  | pool action =>
      simp only [Control.step] at h
      split at h
      · cases h
      next hfree =>
        obtain ⟨k, hk, rfl⟩ := Option.map_eq_some_iff.mp h
        exact inv.pool hk (step_ifshutdown (Bool.eq_false_iff.mpr hfree) hk)
  | control => exact controlStep_inv inv h

theorem Control.initial_inv : (Control.initial n m).Inv where
  sound := initial_sound
  ordered w := by simp [Control.initial, ThreadPool.initial, ControlPc.ordered]
  up w hw := absurd hw (Nat.not_lt_zero _)
  halted w hw := rfl
  joining w hw := by cases hw
  joined w hw := absurd hw List.not_mem_nil
  passes := rfl

theorem Control.reachable_inv {labels : List (ControlAction n m)}
    (hr : run Control.step (Control.initial n m) labels = some c) : c.Inv :=
  run_invariant (fun _ _ _ inv hs => Control.step_inv inv hs) Control.initial_inv hr

/-- When `StopAll` returns, it has joined every thread once, in their order; they have all
ended, and every message that was taken off the queue has been processed by its taker. What
was pushed and not taken is still in the queue. A run that comes to join a thread again is
undefined from there on, and is no run in which `StopAll` returns. -/
theorem stop_all_joins {labels : List (ControlAction n m)}
    (hr : run Control.step (Control.initial n m) labels = some c) (returned : c.pc = .stopped) :
    c.joined = List.finRange n ∧ (∀ w, c.pool.thread w = .ended) ∧
      (∀ w, c.pool.history.takenBy w = c.pool.history.processedBy w) ∧
      c.pool.history.pushed = c.pool.history.taken.map Prod.snd ++ c.pool.msgqueue := by
  have inv := Control.reachable_inv hr
  have hjoined : c.joined = List.finRange n := by
    have hpasses := inv.passes
    rwa [Control.Passes, returned] at hpasses
  have hended : ∀ w, c.pool.thread w = .ended := fun w =>
    inv.joined w (hjoined ▸ List.mem_finRange w)
  refine ⟨hjoined, hended, fun w => ?_, inv.sound.inv.fifo⟩
  rw [inv.sound.inv.once w, hended w]
  exact List.append_nil _

/-- Two threads run, sleep, are told to stop and leave one behind the other. -/
theorem stop_all_joins_two_threads : ∃ c : Control 2 0,
    run Control.step (Control.initial 2 0) (List.replicate 3 (.pool (.thread 0)) ++
      List.replicate 3 (.pool (.thread 1)) ++ List.replicate 8 .control ++
      List.replicate 3 (.pool (.thread 0)) ++ List.replicate 3 (.pool (.thread 1)) ++
      List.replicate 5 .control) = some c ∧ c.joined = [0, 1] := by
  have hrun : (run Control.step (Control.initial 2 0) (List.replicate 3 (.pool (.thread 0)) ++
      List.replicate 3 (.pool (.thread 1)) ++ List.replicate 8 .control ++
      List.replicate 3 (.pool (.thread 0)) ++ List.replicate 3 (.pool (.thread 1)) ++
      List.replicate 5 .control)).map (fun c => c.pc) = some .stopped := by decide
  obtain ⟨c, hr, hpc⟩ := Option.map_eq_some_iff.mp hrun
  exact ⟨c, hr, (stop_all_joins hr hpc).1⟩

end ThreadPool

end MyNginx
