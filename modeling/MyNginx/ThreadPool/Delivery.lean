import MyNginx.Foundation.Lock
import MyNginx.ThreadPool.System

/-!
# Messages are handed out once, in order

Under the mutex the queue is a FIFO: what was pushed is what was taken, followed by what
is still in the queue, and each thread has passed on what it took, up to the message in
its hands. The counter lags behind the queue only between `push_back` and the increment.
-/

namespace MyNginx

open Foundation

namespace ThreadPool

variable {n m : Nat} {k k' : Config n m}

/-- The threads and callers between a lock and an unlock. -/
def Config.Inside (k : Config n m) : Fin n ⊕ Fin m → Prop
  | .inl w => (k.thread w).holds = true
  | .inr p => (k.caller p).holds = true

/-- The messages a thread took off the queue, in order. -/
def History.takenBy (h : History n) (w : Fin n) : List Message :=
  h.taken.filterMap fun entry => if entry.1 = w then entry.2 else none

/-- The messages a thread passed to `ThreadRecvProc`, in order. -/
def History.processedBy (h : History n) (w : Fin n) : List Message :=
  h.processed.filterMap fun entry => if entry.1 = w then some entry.2 else none

/-- Every message pushed is taken by one thread, in the order of the pushes, or still in
the queue; every thread passes what it took to `ThreadRecvProc` once; and the counter is
the length of the queue when the mutex is free. -/
structure Config.Delivered (k : Config n m) : Prop where
  fifo : k.history.pushed = k.history.taken.map Prod.snd ++ k.msgqueue
  once : ∀ w, k.history.takenBy w = k.history.processedBy w ++ (k.thread w).hand.toList
  size : k.pthreadMutex = none → k.msgqueueSize = k.msgqueue.length

/-- The queue and its history, under the mutex. -/
structure Config.Inv (k : Config n m) : Prop where
  locked : Guards k.pthreadMutex k.Inside
  fifo : k.history.pushed = k.history.taken.map Prod.snd ++ k.msgqueue
  once : ∀ w, k.history.takenBy w = k.history.processedBy w ++ (k.thread w).hand.toList
  counted : (∀ p, k.caller p ≠ .counting) → k.msgqueueSize = k.msgqueue.length
  uncounted : ∀ p, k.caller p = .counting → k.msgqueueSize + 1 = k.msgqueue.length

theorem Config.Inv.delivered (inv : k.Inv) : k.Delivered where
  fifo := inv.fifo
  once := inv.once
  size hfree := inv.counted fun p hp => by
    have hholder := (inv.locked (.inr p)).mpr (by rw [Config.Inside, hp]; rfl)
    rw [hfree] at hholder
    cases hholder

/-- A thread moves and keeps what it has in its hands. -/
theorem Config.Inv.threadMoves (inv : k.Inv) {w : Fin n} {pc : ThreadPc}
    {pthreadMutex : Option (Fin n ⊕ Fin m)} {running : Fin n → Bool} {iRunningThread : Int}
    (hand : pc.hand = (k.thread w).hand)
    (locked : Guards pthreadMutex (k.goto w pc).Inside) :
    ({ k with pthreadMutex, running, iRunningThread }.goto w pc).Inv where
  locked := locked
  fifo := inv.fifo
  once v := by
    by_cases hv : v = w
    · subst hv
      simpa [goto, hand] using inv.once v
    · simpa [goto, hv] using inv.once v
  counted := inv.counted
  uncounted := inv.uncounted

theorem inside_goto {w : Fin n} {pc : ThreadPc} (t : Fin n ⊕ Fin m) (ht : t ≠ .inl w) :
    (k.goto w pc).Inside t ↔ k.Inside t := by
  cases t with
  | inl v =>
      have hv : v ≠ w := fun h => ht (congrArg Sum.inl h)
      simp [Config.Inside, Config.goto, hv]
  | inr p => exact Iff.rfl

theorem inside_callerGoto {p : Fin m} {pc : CallerPc} (t : Fin n ⊕ Fin m) (ht : t ≠ .inr p) :
    (k.callerGoto p pc).Inside t ↔ k.Inside t := by
  cases t with
  | inl w => exact Iff.rfl
  | inr q =>
      have hq : q ≠ p := fun h => ht (congrArg Sum.inr h)
      simp [Config.Inside, Config.callerGoto, hq]

@[simp] theorem inside_goto_self {w : Fin n} {pc : ThreadPc} :
    (k.goto w pc).Inside (.inl w) ↔ pc.holds = true := by
  simp [Config.Inside, Config.goto]

@[simp] theorem inside_callerGoto_self {p : Fin m} {pc : CallerPc} :
    (k.callerGoto p pc).Inside (.inr p) ↔ pc.holds = true := by
  simp [Config.Inside, Config.callerGoto]

/-- A thread moves without passing a lock or an unlock. -/
theorem Config.Inv.stays (inv : k.Inv) {w : Fin n} {pc : ThreadPc}
    (holds : pc.holds = (k.thread w).holds) : Guards k.pthreadMutex (k.goto w pc).Inside :=
  inv.locked.stay (t := .inl w) (by rw [inside_goto_self, holds]; rfl) inside_goto

theorem Config.Inv.locks (inv : k.Inv) {w : Fin n} {pc : ThreadPc} (free : k.pthreadMutex = none)
    (holds : pc.holds = true) : Guards (some (.inl w)) (k.goto w pc).Inside := by
  have hlocked := inv.locked
  rw [free] at hlocked
  exact hlocked.enter (inside_goto_self.mpr holds) inside_goto

theorem Config.Inv.unlocks (inv : k.Inv) {w : Fin n} {pc : ThreadPc}
    (held : (k.thread w).holds = true) (holds : pc.holds = false) :
    Guards none (k.goto w pc).Inside :=
  inv.locked.leave (t := .inl w) held (by simp [holds]) inside_goto

/-- `get_msg_item` moves the front of the queue into the hands of the thread. -/
theorem Config.Inv.getting (inv : k.Inv) {w : Fin n} (hpc : k.thread w = .getting)
    (h : threadStep k w .getting = some k') : k'.Inv := by
  have hnobody : ∀ p, k.caller p ≠ .counting := by
    intro p hp
    have hcaller := inv.locked.unique (t := .inl w) (u := .inr p)
      (by rw [Config.Inside, hpc]; rfl) (by rw [Config.Inside, hp]; rfl)
    cases hcaller
  have hsize := inv.counted hnobody
  simp only [threadStep, getMsgItem] at h
  obtain rfl := Option.some.inj h
  have hhand : ∀ msgPtr, Guards k.pthreadMutex (k.goto w (.got msgPtr)).Inside := fun msgPtr =>
    inv.stays (by rw [hpc]; rfl)
  cases hqueue : k.msgqueue with
  | nil =>
      rw [hqueue] at hsize
      refine ⟨hhand none, ?_, fun v => ?_, fun _ => ?_, fun p hp => absurd hp (hnobody p)⟩
      · simpa [goto, hqueue] using inv.fifo
      · by_cases hv : v = w
        · subst hv
          simpa [goto, ThreadPc.hand, hpc] using inv.once v
        · simpa [goto, hv] using inv.once v
      · simpa [goto, hqueue] using hsize
  | cons msg rest =>
      rw [hqueue, List.length_cons] at hsize
      refine ⟨hhand msg, ?_, fun v => ?_, fun _ => ?_, fun p hp => absurd hp (hnobody p)⟩
      · simpa [goto, hqueue] using inv.fifo
      · have honce := inv.once v
        by_cases hv : v = w
        · subst hv
          simp only [hpc, ThreadPc.hand, Option.toList_none, List.append_nil] at honce
          simp only [goto, Function.update_self, ThreadPc.hand, List.take_succ_cons,
            List.take_zero, List.map_cons, List.map_nil, History.takenBy, List.filterMap_append]
          rw [← History.takenBy, honce]
          cases msg <;> simp [History.processedBy]
        · simpa [goto, hv, History.takenBy, History.processedBy, Ne.symm hv] using honce
      · simp only [goto]
        omega

/-- A message that was handled leaves the hands of the thread. -/
theorem Config.Inv.processing (inv : k.Inv) {w : Fin n} {msg : Message}
    (hpc : k.thread w = .processing msg)
    (h : threadStep k w (.processing msg) = some k') : k'.Inv := by
  obtain rfl := Option.some.inj h
  refine ⟨inv.stays (by rw [hpc]; rfl), inv.fifo, fun v => ?_, inv.counted, inv.uncounted⟩
  have honce := inv.once v
  by_cases hv : v = w
  · subst hv
    rw [hpc] at honce
    simpa [goto, ThreadPc.hand, History.processedBy, History.takenBy] using honce
  · simpa [goto, hv, History.processedBy, History.takenBy, Ne.symm hv] using honce

theorem threadStep_inv (inv : k.Inv) {w : Fin n} (h : threadStep k w (k.thread w) = some k') :
    k'.Inv := by
  cases hpc : k.thread w with
  | locking | waking =>
      rw [hpc] at h
      simp only [threadStep] at h
      split at h
      next hfree =>
        obtain rfl := Option.some.inj h
        exact inv.threadMoves (by rw [hpc]; rfl) (inv.locks hfree rfl)
      next => cases h
  | testing =>
      rw [hpc] at h
      simp only [threadStep] at h
      split at h
      · obtain rfl := Option.some.inj h
        exact inv.threadMoves (by rw [hpc]; rfl) (inv.stays (by rw [hpc]; rfl))
      split at h
      · obtain rfl := Option.some.inj h
        exact inv.threadMoves (by rw [hpc]; rfl) (inv.stays (by rw [hpc]; rfl))
      · obtain rfl := Option.some.inj h
        exact inv.threadMoves (by rw [hpc]; rfl) (inv.stays (by rw [hpc]; rfl))
  | parking =>
      rw [hpc] at h
      obtain rfl := Option.some.inj h
      exact inv.threadMoves (by rw [hpc]; rfl) (inv.unlocks (by rw [hpc]; rfl) rfl)
  | waiting =>
      rw [hpc] at h
      cases h
  | getting =>
      rw [hpc] at h
      exact inv.getting hpc h
  | got msgPtr =>
      rw [hpc] at h
      cases msgPtr with
      | none =>
          obtain rfl := Option.some.inj h
          exact inv.threadMoves (by rw [hpc]; rfl) (inv.unlocks (by rw [hpc]; rfl) rfl)
      | some msg =>
          obtain rfl := Option.some.inj h
          exact inv.threadMoves (by rw [hpc]; rfl) (inv.unlocks (by rw [hpc]; rfl) rfl)
  | processing msg =>
      rw [hpc] at h
      exact inv.processing hpc h
  | leaving =>
      rw [hpc] at h
      obtain rfl := Option.some.inj h
      exact inv.threadMoves (by rw [hpc]; rfl) (inv.unlocks (by rw [hpc]; rfl) rfl)
  | ended =>
      rw [hpc] at h
      cases h

/-- A caller moves, and no other one is between `push_back` and the increment. -/
theorem Config.Inv.callerMoves (inv : k.Inv) {p : Fin m} {pc : CallerPc}
    {pthreadMutex : Option (Fin n ⊕ Fin m)} (before : k.caller p ≠ .counting)
    (after : pc ≠ .counting) (locked : Guards pthreadMutex (k.callerGoto p pc).Inside) :
    ({ k with pthreadMutex }.callerGoto p pc).Inv where
  locked := locked
  fifo := inv.fifo
  once := inv.once
  counted hnone := inv.counted fun q => by
    by_cases hq : q = p
    · rwa [hq]
    · simpa [Config.callerGoto, hq] using hnone q
  uncounted q hcounting := by
    by_cases hq : q = p
    · subst hq
      simp only [Config.callerGoto, Function.update_self] at hcounting
      exact absurd hcounting after
    · simp only [Config.callerGoto, Function.update_of_ne hq] at hcounting
      exact inv.uncounted q hcounting

theorem callerStep_inv (inv : k.Inv) {p : Fin m} (h : callerStep k p (k.caller p) = some k') :
    k'.Inv := by
  have hlocked := inv.locked
  -- The caller holding the mutex is the only one that can be counting.
  have hothers : (k.caller p).holds = true → ∀ q, q ≠ p → k.caller q ≠ .counting := by
    intro hin q hq hcounting
    have hsame : Sum.inr p = Sum.inr q :=
      hlocked.unique (show k.Inside (.inr p) from hin) (by rw [Config.Inside, hcounting]; rfl)
    exact hq (Sum.inr.inj hsame).symm
  cases hpc : k.caller p with
  | outside =>
      rw [hpc] at h
      cases h
  | locking msg =>
      rw [hpc] at h
      simp only [callerStep] at h
      split at h
      next hfree =>
        obtain rfl := Option.some.inj h
        rw [hfree] at hlocked
        exact inv.callerMoves (by rw [hpc]; exact nofun) nofun
          (hlocked.enter (inside_callerGoto_self.mpr rfl) inside_callerGoto)
      next => cases h
  | pushing msg =>
      rw [hpc] at h hothers
      obtain rfl := Option.some.inj h
      have hothers := hothers rfl
      have hsize := inv.counted fun q => by
        by_cases hq : q = p
        · rw [hq, hpc]
          exact nofun
        · exact hothers q hq
      refine ⟨hlocked.stay (t := .inr p) ?_ inside_callerGoto, ?_, inv.once, fun hnone => ?_,
        fun q hcounting => ?_⟩
      · rw [inside_callerGoto_self, Config.Inside, hpc]
        exact Iff.rfl
      · simp [Config.callerGoto, inv.fifo]
      · exact absurd (by simp [Config.callerGoto]) (hnone p)
      · simp only [Config.callerGoto, List.length_append, List.length_singleton]
        omega
  | counting =>
      rw [hpc] at h hothers
      obtain rfl := Option.some.inj h
      have hothers := hothers rfl
      have hsize := inv.uncounted p hpc
      refine ⟨hlocked.stay (t := .inr p) ?_ inside_callerGoto, inv.fifo, inv.once, fun _ => hsize,
        fun q hcounting => ?_⟩
      · rw [inside_callerGoto_self, Config.Inside, hpc]
        exact Iff.rfl
      · by_cases hq : q = p
        · subst hq
          simp [Config.callerGoto] at hcounting
        · simp only [Config.callerGoto, Function.update_of_ne hq] at hcounting
          exact absurd hcounting (hothers q hq)
  | unlocking =>
      rw [hpc] at h
      obtain rfl := Option.some.inj h
      exact inv.callerMoves (by rw [hpc]; exact nofun) nofun
        (hlocked.leave (t := .inr p) (by rw [Config.Inside, hpc]; rfl)
          (by rw [inside_callerGoto_self]; exact nofun) inside_callerGoto)
  | calling =>
      rw [hpc] at h
      cases h

/-- A waiting thread is woken. -/
theorem Config.Inv.wakes (inv : k.Inv) {w : Fin n} (hpc : k.thread w = .waiting) :
    (k.goto w .waking).Inv :=
  inv.threadMoves (by rw [hpc]; rfl) (inv.stays (by rw [hpc]; rfl))

theorem step_inv {action : Action n m} (inv : k.Inv) (h : step k action = some k') : k'.Inv := by
  cases action with
  | thread w => exact threadStep_inv inv h
  | wake w =>
      simp only [step] at h
      split at h
      next hpc =>
        obtain rfl := Option.some.inj h
        exact inv.wakes hpc
      next => cases h
  | inMsgRecv p msg =>
      simp only [step] at h
      split at h
      next hpc =>
        obtain rfl := Option.some.inj h
        refine inv.callerMoves (by rw [hpc]; exact nofun) nofun
          (inv.locked.stay (t := .inr p) ?_ inside_callerGoto)
        rw [inside_callerGoto_self, Config.Inside, hpc]
        exact Iff.rfl
      next => cases h
  | caller p => exact callerStep_inv inv h
  | signal p woken =>
      simp only [step] at h
      split at h
      next hpc =>
        have hleft : (k.callerGoto p .outside).Inv := by
          refine inv.callerMoves (by rw [hpc]; exact nofun) nofun
            (inv.locked.stay (t := .inr p) ?_ inside_callerGoto)
          rw [inside_callerGoto_self, Config.Inside, hpc]
          exact Iff.rfl
        cases woken with
        | none =>
            simp only [signal] at h
            split at h
            · exact Option.some.inj h ▸ hleft
            · cases h
        | some w =>
            simp only [signal] at h
            split at h
            next hwaiting => exact Option.some.inj h ▸ hleft.wakes hwaiting
            next => cases h
      next => cases h
  | stop w =>
      obtain rfl := Option.some.inj h
      exact ⟨inv.locked, inv.fifo, inv.once, inv.counted, inv.uncounted⟩
  | broadcast =>
      obtain rfl := Option.some.inj h
      have hpc : ∀ w, ((broadcast k).thread w).holds = (k.thread w).holds ∧
          ((broadcast k).thread w).hand = (k.thread w).hand := by
        intro w
        by_cases hw : k.thread w = .waiting
        · simp [broadcast, hw, ThreadPc.holds, ThreadPc.hand]
        · simp [broadcast, hw]
      refine ⟨inv.locked.congr fun t => ?_, inv.fifo, fun w => ?_, inv.counted, inv.uncounted⟩
      · cases t with
        | inl w => rw [Config.Inside, Config.Inside, (hpc w).1]
        | inr p => exact Iff.rfl
      · rw [(hpc w).2]
        exact inv.once w

theorem initial_inv : (initial n m).Inv where
  locked t := by
    cases t with
    | inl w => exact ⟨nofun, nofun⟩
    | inr p => exact ⟨nofun, nofun⟩
  fifo := rfl
  once _ := rfl
  counted _ := rfl
  uncounted _ := nofun

end ThreadPool

end MyNginx
