import MyNginx.ThreadPool.Delivery

/-!
# No wake-up of the threads is lost

A thread goes to sleep only in front of an empty queue, and whoever puts a message into
the queue still owes a signal. So a message in the queue is known to a thread that is
not asleep, or to a caller whose signal is to come; a signal that finds nobody asleep
finds all threads awake.
-/

namespace MyNginx

open Foundation

namespace ThreadPool

variable {n m : Nat} {k k' : Config n m}

/-- A message is in the queue, all threads sleep, and no signal is to come. -/
def Config.Stranded (k : Config n m) : Prop :=
  k.msgqueue ≠ [] ∧ (∀ w, k.thread w = .waiting) ∧ ∀ p, (k.caller p).owes = false

/-- A thread that is about to sleep has seen an empty queue; somebody looks after a
message in the queue. -/
structure Config.Watched (k : Config n m) : Prop where
  parked : ∀ w, k.thread w = .parking → k.msgqueue = []
  awake : k.msgqueue ≠ [] → (∃ w, k.thread w ≠ .waiting) ∨ ∃ p, (k.caller p).owes = true

theorem Config.Watched.not_stranded (watched : k.Watched) : ¬ k.Stranded := by
  rintro ⟨hqueue, hasleep, hsilent⟩
  rcases watched.awake hqueue with ⟨w, hw⟩ | ⟨p, hp⟩
  · exact hw (hasleep w)
  · rw [hsilent p] at hp
    cases hp

/-- A thread that stays awake goes on, and the queue does not grow. -/
theorem Config.Watched.threadGoes (watched : k.Watched) {w : Fin n} {pc : ThreadPc}
    (thread : k'.thread = Function.update k.thread w pc) (pc_ne : pc ≠ .waiting)
    (queue : k.msgqueue = [] → k'.msgqueue = []) (parks : pc = .parking → k.msgqueue = []) :
    k'.Watched where
  parked v hv := by
    apply queue
    by_cases hvw : v = w
    · subst hvw
      rw [thread, Function.update_self] at hv
      exact parks hv
    · rw [thread, Function.update_of_ne hvw] at hv
      exact watched.parked v hv
  awake _ := .inl ⟨w, by rwa [thread, Function.update_self]⟩

theorem threadStep_watched (watched : k.Watched) {w : Fin n}
    (h : threadStep k w (k.thread w) = some k') : k'.Watched := by
  cases hpc : k.thread w with
  | locking | waking =>
      rw [hpc] at h
      simp only [threadStep] at h
      split at h
      · obtain rfl := Option.some.inj h
        exact watched.threadGoes rfl (by simp) id (by simp)
      · cases h
  | testing =>
      rw [hpc] at h
      simp only [threadStep] at h
      split at h
      next hempty =>
        obtain rfl := Option.some.inj h
        exact watched.threadGoes rfl (by simp) id fun _ => hempty.1
      split at h
      · obtain rfl := Option.some.inj h
        exact watched.threadGoes rfl (by simp) id (by simp)
      · obtain rfl := Option.some.inj h
        exact watched.threadGoes rfl (by simp) id (by simp)
  | parking =>
      have hempty := watched.parked w hpc
      rw [hpc] at h
      obtain rfl := Option.some.inj h
      exact ⟨fun _ _ => hempty, fun hqueue => absurd hempty hqueue⟩
  | waiting =>
      rw [hpc] at h
      cases h
  | getting =>
      rw [hpc] at h
      obtain rfl := Option.some.inj h
      refine watched.threadGoes rfl (by simp) (fun hempty => ?_) (by simp)
      simp [Config.goto, hempty]
  | got msgPtr =>
      rw [hpc] at h
      cases msgPtr with
      | none =>
          obtain rfl := Option.some.inj h
          exact watched.threadGoes rfl (by simp) id (by simp)
      | some msg =>
          obtain rfl := Option.some.inj h
          exact watched.threadGoes rfl (by simp) id (by simp)
  | processing msg =>
      rw [hpc] at h
      obtain rfl := Option.some.inj h
      exact watched.threadGoes rfl (by simp) id (by simp)
  | leaving =>
      rw [hpc] at h
      obtain rfl := Option.some.inj h
      exact watched.threadGoes rfl (by simp) id (by simp)
  | ended =>
      rw [hpc] at h
      cases h

/-- A caller goes on without losing the signal it owes, and the queue stays. -/
theorem Config.Watched.callerGoes (watched : k.Watched) {p : Fin m} {pc : CallerPc}
    {pthreadMutex : Option (Fin n ⊕ Fin m)} {msgqueueSize : Int}
    (owes : (k.caller p).owes = true → pc.owes = true) :
    ({ k with pthreadMutex, msgqueueSize }.callerGoto p pc).Watched where
  parked := watched.parked
  awake hqueue := by
    refine (watched.awake hqueue).imp id fun ⟨q, hq⟩ => ?_
    by_cases hqp : q = p
    · subst hqp
      exact ⟨q, by simpa [Config.callerGoto] using owes hq⟩
    · exact ⟨q, by simpa [Config.callerGoto, hqp] using hq⟩

theorem callerStep_watched (inv : k.Inv) (watched : k.Watched) {p : Fin m}
    (h : callerStep k p (k.caller p) = some k') : k'.Watched := by
  cases hpc : k.caller p with
  | outside | calling =>
      rw [hpc] at h
      cases h
  | locking msg =>
      rw [hpc] at h
      simp only [callerStep] at h
      split at h
      · obtain rfl := Option.some.inj h
        exact watched.callerGoes (by simp [hpc, CallerPc.owes])
      · cases h
  | pushing msg =>
      rw [hpc] at h
      obtain rfl := Option.some.inj h
      refine ⟨fun w hw => ?_, fun _ => .inr ⟨p, by simp [Config.callerGoto, CallerPc.owes]⟩⟩
      -- A thread in front of `pthread_cond_wait` has the mutex, which the caller holds.
      have hsame : Sum.inl w = Sum.inr p :=
        inv.locked.unique (show k.Inside (.inl w) by
          rw [Config.Inside, show k.thread w = .parking from hw]; rfl)
          (by rw [Config.Inside, hpc]; rfl)
      cases hsame
  | counting | unlocking =>
      rw [hpc] at h
      obtain rfl := Option.some.inj h
      exact watched.callerGoes fun _ => rfl

theorem Config.Watched.wakes (watched : k.Watched) {w : Fin n} : (k.goto w .waking).Watched :=
  watched.threadGoes rfl nofun id nofun

theorem step_watched (pos : 0 < n) (inv : k.Inv) (watched : k.Watched) {action : Action n m}
    (h : step k action = some k') : k'.Watched := by
  cases action with
  | thread w => exact threadStep_watched watched h
  | wake w =>
      simp only [step] at h
      split at h
      · exact Option.some.inj h ▸ watched.wakes
      · cases h
  | inMsgRecv p msg =>
      simp only [step] at h
      split at h
      next hpc =>
        obtain rfl := Option.some.inj h
        exact watched.callerGoes (by simp [hpc, CallerPc.owes])
      next => cases h
  | caller p => exact callerStep_watched inv watched h
  | signal p woken =>
      simp only [step] at h
      split at h
      · cases woken with
        | none =>
            simp only [signal] at h
            split at h
            next hnobody =>
              obtain rfl := Option.some.inj h
              exact ⟨watched.parked, fun _ => .inl ⟨⟨0, pos⟩, hnobody _⟩⟩
            next => cases h
        | some w =>
            simp only [signal] at h
            split at h
            · obtain rfl := Option.some.inj h
              have hparked : ∀ v, k.thread v = .parking → k.msgqueue = [] := watched.parked
              refine ⟨fun v hv => ?_, fun _ => .inl ⟨w, by simp [Config.goto]⟩⟩
              by_cases hvw : v = w
              · simp [Config.goto, hvw] at hv
              · simp only [Config.goto, Function.update_of_ne hvw] at hv
                exact hparked v hv
            · cases h
      · cases h
  | stop w =>
      obtain rfl := Option.some.inj h
      exact ⟨watched.parked, watched.awake⟩
  | broadcast =>
      obtain rfl := Option.some.inj h
      refine ⟨fun w hw => ?_, fun _ => .inl ⟨⟨0, pos⟩, ?_⟩⟩
      · by_cases hwaiting : k.thread w = .waiting
        · simp [broadcast, hwaiting] at hw
        · simp only [broadcast, if_neg hwaiting] at hw
          exact watched.parked w hw
      · by_cases hwaiting : k.thread ⟨0, pos⟩ = .waiting
        · simp [broadcast, hwaiting]
        · simp [broadcast, hwaiting]

/-- With at least one thread in the pool, no schedule strands a message. -/
theorem never_stranded (pos : 0 < n) (actions : List (Action n m)) :
    Throughout step (fun k => ¬ k.Stranded) (initial n m) actions := by
  have hinv : Throughout step (fun k => k.Inv ∧ k.Watched) (initial n m) actions :=
    throughout_of_along (C := fun _ _ => True)
      (fun _ _ _ hk _ hs => ⟨step_inv hk.1 hs, step_watched pos hk.1 hk.2 hs⟩)
      ⟨initial_inv, ⟨nofun, fun hqueue => absurd rfl hqueue⟩⟩ (along_of_forall fun _ _ => trivial)
  exact hinv.mono fun _ hk => hk.2.not_stranded

/-- One thread sleeps when a message comes, and the other one steals it. -/
theorem never_stranded_stolen :
    Throughout step (fun k => ¬ k.Stranded) (initial 2 1)
      (List.replicate 3 (.thread 0) ++ [.inMsgRecv 0 (some ⟨⟨1, 1⟩, 1, [0, 8, 0, 0, 0, 0, 0, 0, 0]⟩)] ++
        List.replicate 4 (.caller 0) ++ [.signal 0 (some 0)] ++
        List.replicate 4 (.thread 1) ++ List.replicate 3 (.thread 0)) :=
  never_stranded (by decide) _

end ThreadPool

end MyNginx
