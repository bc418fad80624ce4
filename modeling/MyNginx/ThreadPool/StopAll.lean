import MyNginx.ThreadPool.Settling

/-!
# `Create` and `StopAll`

The thread that controls the pool waits in `Create` until every thread runs, and in `StopAll`
until every thread has stopped. It reads `running` without the mutex, again and again. A
thread that it finds stopped is joined; if it finds one that still runs, it begins once more
with the broadcast and the first thread. Joining a thread for the second time is undefined.
-/

namespace MyNginx

open Foundation

namespace ThreadPool

variable {n m : Nat}

/-- Where the controlling thread stands: in `WaitRunning` in front of the test of a thread,
behind `Create`, in `StopAll` in front of an order to stop, of the broadcast, of the test of a
thread and in `pthread_join`, and behind `StopAll`. -/
inductive ControlPc (n : Nat) where
  | watching (i : Nat)
  | serving
  | ordering (i : Nat)
  | broadcasting
  | checking (i : Nat)
  | joining (w : Fin n)
  | stopped
  | undefined
  deriving DecidableEq

structure Control (n m : Nat) where
  pool : Config n m
  pc : ControlPc n
  joined : List (Fin n)

/-- The steps of the pool but for the orders and the broadcast, and those of the controlling
thread. -/
inductive ControlAction (n m : Nat) where
  | pool (action : Action n m)
  | control

/-- The next statement of `Create` or `StopAll`. -/
def controlStep (c : Control n m) : Option (Control n m) :=
  match c.pc with
  | .watching i =>
      if h : i < n then
        if c.pool.running ⟨i, h⟩ then some { c with pc := .watching (i + 1) }
        else some { c with pc := .watching 0 }
      else some { c with pc := .serving }
  | .serving => some { c with pc := .ordering 0 }
  | .ordering i =>
      if h : i < n then
        (step c.pool (.stop ⟨i, h⟩)).map fun pool => { c with pool, pc := .ordering (i + 1) }
      else some { c with pc := .broadcasting }
  | .broadcasting => (step c.pool .broadcast).map fun pool => { c with pool, pc := .checking 0 }
  | .checking i =>
      if h : i < n then
        if c.pool.running ⟨i, h⟩ then some { c with pc := .broadcasting }
        else some { c with pc := .joining ⟨i, h⟩ }
      else some { c with pc := .stopped }
  | .joining w =>
      if c.pool.thread w = .ended then
        let joined := c.joined ++ [w]
        if w ∈ c.joined then some { c with joined, pc := .undefined }
        else some { c with joined, pc := .checking (w + 1) }
      else none
  | .stopped => none
  | .undefined => none

namespace Control

def step (c : Control n m) : ControlAction n m → Option (Control n m)
  | .pool action =>
      if action.orders then none
      else (ThreadPool.step c.pool action).map fun pool => { c with pool }
  | .control => controlStep c

/-- The threads have been created. -/
def initial (n m : Nat) : Control n m where
  pool := ThreadPool.initial n m
  pc := .watching 0
  joined := []

end Control

variable {k k' : Config n m} {w : Fin n} {action : Action n m}

/-- What a step of the pool does to a thread. -/
inductive Onward (k k' : Config n m) (w : Fin n) : Prop
  | stays (thread : k'.thread w = k.thread w) (running : k'.running w = k.running w)
  | parks (testing : k.thread w = .testing) (going : k.ifshutdown w = false)
      (thread : k'.thread w = .parking) (running : k'.running w = true)
  | waits (parking : k.thread w = .parking) (thread : k'.thread w = .waiting)
      (running : k'.running w = k.running w)
  | leaves (testing : k.thread w = .testing) (thread : k'.thread w = .leaving)
      (running : k'.running w = false)
  | ends (leaving : k.thread w = .leaving) (thread : k'.thread w = .ended)
      (running : k'.running w = false)
  | goes (before : k.thread w ≠ .leaving ∧ k.thread w ≠ .ended)
      (thread : k'.thread w ≠ .parking ∧ k'.thread w ≠ .waiting ∧ k'.thread w ≠ .leaving ∧
        k'.thread w ≠ .ended) (running : k'.running w = k.running w)

/-- A thread goes on behind a lock or an unlock. -/
theorem onward_goto {v : Fin n} {pc : ThreadPc} {toReceiveQueue : ReceiveQueue}
    {pthreadMutex : Option (Fin n ⊕ Fin m)} {iRunningThread : Int} {caller : Fin m → CallerPc}
    {history : History n} (before : k.thread v ≠ .leaving ∧ k.thread v ≠ .ended)
    (after : pc ≠ .parking ∧ pc ≠ .waiting ∧ pc ≠ .leaving ∧ pc ≠ .ended) (w : Fin n) :
    Onward k ({ k with
      toReceiveQueue, pthreadMutex, iRunningThread, caller, history }.goto v pc) w := by
  by_cases hw : w = v
  · subst hw
    refine .goes before ?_ rfl
    simpa [Config.goto] using after
  · exact .stays (Function.update_of_ne hw ..) rfl

theorem threadStep_onward {v : Fin n} (h : threadStep k v (k.thread v) = some k') (w : Fin n) :
    Onward k k' w := by
  cases hpc : k.thread v with
  | locking | waking =>
      rw [hpc] at h
      simp only [threadStep] at h
      split at h
      · obtain rfl := Option.some.inj h
        exact onward_goto (by simp [hpc]) (by simp) w
      · cases h
  | testing =>
      rw [hpc] at h
      simp only [threadStep] at h
      by_cases hw : w = v
      · subst hw
        split at h
        next hidle =>
          obtain rfl := Option.some.inj h
          exact .parks hpc hidle.2 (Function.update_self ..) (Function.update_self ..)
        next =>
          split at h
          · obtain rfl := Option.some.inj h
            exact .leaves hpc (Function.update_self ..) (Function.update_self ..)
          · obtain rfl := Option.some.inj h
            exact onward_goto (by simp [hpc]) (by simp) w
      · split at h
        · obtain rfl := Option.some.inj h
          exact .stays (Function.update_of_ne hw ..) (Function.update_of_ne hw ..)
        · split at h
          · obtain rfl := Option.some.inj h
            exact .stays (Function.update_of_ne hw ..) (Function.update_of_ne hw ..)
          · obtain rfl := Option.some.inj h
            exact .stays (Function.update_of_ne hw ..) rfl
  | parking =>
      rw [hpc] at h
      obtain rfl := Option.some.inj h
      by_cases hw : w = v
      · subst hw
        exact .waits hpc (Function.update_self ..) rfl
      · exact .stays (Function.update_of_ne hw ..) rfl
  | waiting | ended =>
      rw [hpc] at h
      cases h
  | getting =>
      rw [hpc] at h
      obtain rfl := Option.some.inj h
      exact onward_goto (by simp [hpc]) (by simp) w
  | processing msg =>
      rw [hpc] at h
      obtain rfl := Option.some.inj h
      exact onward_goto (by simp [hpc]) (by simp) w
  | got msgPtr =>
      rw [hpc] at h
      cases msgPtr with
      | none =>
          obtain rfl := Option.some.inj h
          exact onward_goto (by simp [hpc]) (by simp) w
      | some msg =>
          obtain rfl := Option.some.inj h
          exact onward_goto (by simp [hpc]) (by simp) w
  | leaving =>
      rw [hpc] at h
      obtain rfl := Option.some.inj h
      by_cases hw : w = v
      · subst hw
        exact .ends hpc (Function.update_self ..) (Function.update_self ..)
      · exact .stays (Function.update_of_ne hw ..) (Function.update_of_ne hw ..)

theorem onward_wake {v : Fin n} (hv : k.thread v = .waiting) (w : Fin n) :
    Onward k (k.goto v .waking) w :=
  onward_goto (by simp [hv]) (by simp) w

/-- The callers leave the threads alone, but for a signal. -/
theorem step_onward (h : step k action = some k') (w : Fin n) : Onward k k' w := by
  cases action with
  | thread v => exact threadStep_onward h w
  | wake v =>
      simp only [step] at h
      split at h
      next hv => exact Option.some.inj h ▸ onward_wake hv w
      next => cases h
  | inMsgRecv p msg =>
      simp only [step] at h
      split at h
      · exact Option.some.inj h ▸ .stays rfl rfl
      · cases h
  | caller p =>
      simp only [step] at h
      cases hpc : k.caller p with
      | outside | calling =>
          rw [hpc] at h
          cases h
      | locking msg =>
          rw [hpc] at h
          simp only [callerStep] at h
          split at h
          · exact Option.some.inj h ▸ .stays rfl rfl
          · cases h
      | pushing | counting | unlocking =>
          rw [hpc] at h
          exact Option.some.inj h ▸ .stays rfl rfl
  | signal p woken =>
      simp only [step] at h
      split at h
      · cases woken with
        | none =>
            simp only [signal] at h
            split at h
            · exact Option.some.inj h ▸ .stays rfl rfl
            · cases h
        | some v =>
            simp only [signal] at h
            split at h
            next hv =>
              obtain rfl := Option.some.inj h
              have hwaiting : k.thread v = .waiting := hv
              exact onward_goto (by simp [hwaiting]) (by simp) w
            next => cases h
      · cases h
  | stop v => exact Option.some.inj h ▸ .stays rfl rfl
  | broadcast =>
      obtain rfl := Option.some.inj h
      by_cases hw : k.thread w = .waiting
      · have hwoken : (broadcast k).thread w = .waking := if_pos hw
        exact .goes (by simp [hw]) (by simp [hwoken]) rfl
      · exact .stays (if_neg hw) rfl

namespace Onward

/-- A thread that has ended stays so. -/
theorem ended (h : Onward k k' w) (hw : k.thread w = .ended) : k'.thread w = .ended := by
  cases h with
  | stays thread => rw [thread, hw]
  | parks testing | leaves testing => simp [hw] at testing
  | waits parking => simp [hw] at parking
  | ends leaving => simp [hw] at leaving
  | goes before => exact absurd hw before.2

/-- A thread on its way out goes on. -/
theorem out (h : Onward k k' w) (hw : k.thread w = .leaving ∨ k.thread w = .ended) :
    k'.thread w = .leaving ∨ k'.thread w = .ended := by
  cases h with
  | stays thread => rwa [thread]
  | parks testing | leaves testing => simp [testing] at hw
  | waits parking => simp [parking] at hw
  | ends leaving thread => exact .inr thread
  | goes before =>
      rcases hw with hw | hw
      · exact absurd hw before.1
      · exact absurd hw before.2

/-- A thread that runs does so until it is on its way out. -/
theorem up (h : Onward k k' w)
    (hw : k.running w = true ∨ k.thread w = .leaving ∨ k.thread w = .ended) :
    k'.running w = true ∨ k'.thread w = .leaving ∨ k'.thread w = .ended := by
  rcases hw with hruns | hout
  · cases h with
    | stays thread running | waits parking thread running | goes before thread running =>
        exact .inl (running.trans hruns)
    | parks testing going thread running => exact .inl running
    | leaves testing thread => exact .inr (.inl thread)
    | ends leaving thread => exact .inr (.inr thread)
  · exact .inr (h.out hout)

/-- A thread on its way out does not run. -/
theorem halted (h : Onward k k' w)
    (hw : k.thread w = .leaving ∨ k.thread w = .ended → k.running w = false)
    (out : k'.thread w = .leaving ∨ k'.thread w = .ended) : k'.running w = false := by
  cases h with
  | stays thread running => rw [running, hw (thread ▸ out)]
  | parks testing going thread => simp [thread] at out
  | waits parking thread => simp [thread] at out
  | leaves testing thread running | ends leaving thread running => exact running
  | goes before thread => simp [thread] at out

/-- A thread that is told to stop does not go to sleep any more. -/
theorem awake (h : Onward k k' w) (shut : k.ifshutdown w = true)
    (hw : k.thread w ≠ .parking ∧ k.thread w ≠ .waiting) :
    k'.thread w ≠ .parking ∧ k'.thread w ≠ .waiting := by
  cases h with
  | stays thread => rwa [thread]
  | parks testing going => simp [shut] at going
  | waits parking => exact absurd parking hw.1
  | leaves testing thread | ends leaving thread => simp [thread]
  | goes before thread => exact ⟨thread.1, thread.2.1⟩

end Onward

end ThreadPool

end MyNginx
