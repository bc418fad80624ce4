import MyNginx.Foundation.Settling
import MyNginx.ThreadPool.Wakeup

/-!
# The pool empties its queue

If no message comes any more, the threads and the callers that are still inside their
functions have only so much to do, whatever the schedule: a message in the queue costs its
taker a fixed number of statements, and a signal wakes one thread. In the end every thread
waits, and every message that came has been passed to `ThreadRecvProc`. That function is taken to
return, and no thread is taken to wake up without a signal in the meantime.
-/

namespace MyNginx

open Foundation

namespace ThreadPool

variable {n m : Nat} {k k' t : Config n m} {action : Action n m} {actions : List (Action n m)}

/-- The actions that are those of `StopAll`. -/
def Action.orders : Action n m → Bool
  | .stop _ | .broadcast => true
  | .thread _ | .wake _ | .inMsgRecv _ _ | .caller _ | .signal _ _ => false

/-- The steps of the threads, and of the callers that are inside `InMsgRecv`. -/
def Own : Action n m → Prop
  | .thread _ | .caller _ | .signal _ _ => True
  | .wake _ | .inMsgRecv _ _ | .stop _ | .broadcast => False

def ThreadPc.effort : ThreadPc → Nat
  | .waiting | .ended => 0
  | .parking | .leaving | .getting => 1
  | .testing => 2
  | .locking | .waking => 3
  | .got none | .processing _ => 4
  | .got (some _) => 5

/-- The message of a caller that is not yet in the queue counts, and so does its signal. -/
def CallerPc.effort : CallerPc → Nat
  | .outside => 0
  | .calling => 4
  | .unlocking => 5
  | .counting => 6
  | .pushing _ => 12
  | .locking _ => 13

/-- What the threads and callers have to do. -/
def Config.effort (k : Config n m) : Nat :=
  5 * k.msgqueue.length + ∑ w, (k.thread w).effort + ∑ p, (k.caller p).effort

/-- A thread that is about to take a message finds one, and only a thread that is told to stop
leaves. -/
structure Config.Fetching (k : Config n m) : Prop where
  getting : ∀ w, k.thread w = .getting → k.msgqueue ≠ []
  leaving : ∀ w, k.thread w = .leaving ∨ k.thread w = .ended → k.ifshutdown w = true
  parked : ∀ w, k.thread w = .parking ∨ k.thread w = .waiting ∨ k.thread w = .waking →
    k.running w = true

/-- A thread goes on, and the others stand where they stood. -/
theorem Config.Fetching.threadGoes (fetching : k.Fetching) {w : Fin n} {pc : ThreadPc}
    (thread : k'.thread = Function.update k.thread w pc)
    (queue : ∀ v, v ≠ w → k.thread v = .getting → k'.msgqueue ≠ [])
    (shut : k'.ifshutdown = k.ifshutdown) (runs : ∀ v, v ≠ w → k'.running v = k.running v)
    (getting : pc = .getting → k'.msgqueue ≠ [])
    (leaving : pc = .leaving ∨ pc = .ended → k.ifshutdown w = true)
    (parked : pc = .parking ∨ pc = .waiting ∨ pc = .waking → k'.running w = true) :
    k'.Fetching where
  getting v hv := by
    by_cases hvw : v = w
    · subst hvw
      rw [thread, Function.update_self] at hv
      exact getting hv
    · rw [thread, Function.update_of_ne hvw] at hv
      exact queue v hvw hv
  leaving v hv := by
    rw [shut]
    by_cases hvw : v = w
    · subst hvw
      rw [thread, Function.update_self] at hv
      exact leaving hv
    · rw [thread, Function.update_of_ne hvw] at hv
      exact fetching.leaving v hv
  parked v hv := by
    by_cases hvw : v = w
    · subst hvw
      rw [thread, Function.update_self] at hv
      exact parked hv
    · rw [thread, Function.update_of_ne hvw] at hv
      rw [runs v hvw]
      exact fetching.parked v hv

theorem threadStep_fetching (inv : k.Inv) (fetching : k.Fetching) {w : Fin n}
    (h : threadStep k w (k.thread w) = some k') : k'.Fetching := by
  have hothers : ∀ v, v ≠ w → k.thread v = .getting → k.msgqueue ≠ [] :=
    fun v _ hv => fetching.getting v hv
  cases hpc : k.thread w with
  | locking | waking =>
      rw [hpc] at h
      simp only [threadStep] at h
      split at h
      · obtain rfl := Option.some.inj h
        exact fetching.threadGoes rfl hothers rfl (fun _ _ => rfl) (by simp) (by simp) (by simp)
      · cases h
  | testing =>
      rw [hpc] at h
      simp only [threadStep] at h
      split at h
      next hempty =>
        obtain rfl := Option.some.inj h
        exact fetching.threadGoes rfl hothers rfl (fun v hv => Function.update_of_ne hv _ _)
          (by simp) (by simp) fun _ => Function.update_self ..
      next hbusy =>
        split at h
        next hshut =>
          obtain rfl := Option.some.inj h
          exact fetching.threadGoes rfl hothers rfl (fun v hv => Function.update_of_ne hv _ _)
            (by simp) (fun _ => hshut) (by simp)
        next hopen =>
          obtain rfl := Option.some.inj h
          have hsome : k.msgqueue ≠ [] := fun hnil => hbusy ⟨hnil, by simpa using hopen⟩
          exact fetching.threadGoes rfl hothers rfl (fun _ _ => rfl) (fun _ => hsome) (by simp)
            (by simp)
  | parking =>
      have hruns := fetching.parked w (.inl hpc)
      rw [hpc] at h
      obtain rfl := Option.some.inj h
      exact fetching.threadGoes rfl hothers rfl (fun _ _ => rfl) (by simp) (by simp) fun _ => hruns
  | waiting =>
      rw [hpc] at h
      cases h
  | getting =>
      rw [hpc] at h
      obtain rfl := Option.some.inj h
      refine fetching.threadGoes rfl (fun v hv hget => ?_) rfl (fun _ _ => rfl) (by simp) (by simp)
        (by simp)
      -- The mutex has one holder.
      have hsame : Sum.inl v = Sum.inl w := inv.locked.unique
        (show k.Inside (.inl v) by rw [Config.Inside, hget]; rfl)
        (show k.Inside (.inl w) by rw [Config.Inside, hpc]; rfl)
      exact absurd (Sum.inl.inj hsame) hv
  | got msgPtr =>
      rw [hpc] at h
      cases msgPtr with
      | none =>
          obtain rfl := Option.some.inj h
          exact fetching.threadGoes rfl hothers rfl (fun _ _ => rfl) (by simp) (by simp) (by simp)
      | some msg =>
          obtain rfl := Option.some.inj h
          exact fetching.threadGoes rfl hothers rfl (fun _ _ => rfl) (by simp) (by simp) (by simp)
  | processing msg =>
      rw [hpc] at h
      obtain rfl := Option.some.inj h
      exact fetching.threadGoes rfl hothers rfl (fun _ _ => rfl) (by simp) (by simp) (by simp)
  | leaving =>
      have hshut := fetching.leaving w (.inl hpc)
      rw [hpc] at h
      obtain rfl := Option.some.inj h
      exact fetching.threadGoes rfl hothers rfl (fun v hv => Function.update_of_ne hv _ _)
        (by simp) (fun _ => hshut) (by simp)
  | ended =>
      rw [hpc] at h
      cases h

/-- Nothing changes for the threads, and the queue does not lose its last message. -/
theorem Config.Fetching.keeps (fetching : k.Fetching) (thread : k'.thread = k.thread)
    (queue : k.msgqueue ≠ [] → k'.msgqueue ≠ [])
    (shut : ∀ w, k.ifshutdown w = true → k'.ifshutdown w = true)
    (running : k'.running = k.running) : k'.Fetching where
  getting w hw := queue (fetching.getting w (thread ▸ hw))
  leaving w hw := shut w (fetching.leaving w (thread ▸ hw))
  parked w hw := running ▸ fetching.parked w (thread ▸ hw)

theorem Config.Fetching.wakes (fetching : k.Fetching) {w : Fin n} (hpc : k.thread w = .waiting) :
    (k.goto w .waking).Fetching :=
  fetching.threadGoes rfl (fun v _ hv => fetching.getting v hv) rfl (fun _ _ => rfl) (by simp)
    (by simp) fun _ => fetching.parked w (.inr (.inl hpc))

theorem step_fetching (inv : k.Inv) (fetching : k.Fetching) (h : step k action = some k') :
    k'.Fetching := by
  cases action with
  | thread w => exact threadStep_fetching inv fetching h
  | wake w =>
      simp only [step] at h
      split at h
      next hpc => exact Option.some.inj h ▸ fetching.wakes hpc
      next => cases h
  | inMsgRecv p msg =>
      simp only [step] at h
      split at h
      · exact Option.some.inj h ▸ fetching.keeps rfl id (fun _ => id) rfl
      · cases h
  | caller p =>
      simp only [step] at h
      cases hpc : k.caller p with
      | outside | calling =>
          rw [hpc] at h
          cases h
      | locking msg =>
          rw [hpc] at h
          simp only [callerStep] at h
          split at h
          · exact Option.some.inj h ▸ fetching.keeps rfl id (fun _ => id) rfl
          · cases h
      | pushing msg =>
          rw [hpc] at h
          exact Option.some.inj h ▸ fetching.keeps rfl (by simp [Config.callerGoto])
            (fun _ => id) rfl
      | counting | unlocking =>
          rw [hpc] at h
          exact Option.some.inj h ▸ fetching.keeps rfl id (fun _ => id) rfl
  | signal p woken =>
      simp only [step] at h
      split at h
      · have hleft : (k.callerGoto p .outside).Fetching :=
          fetching.keeps rfl id (fun _ => id) rfl
        cases woken with
        | none =>
            simp only [signal] at h
            split at h
            · exact Option.some.inj h ▸ hleft
            · cases h
        | some w =>
            simp only [signal] at h
            split at h
            next hwaiting => exact Option.some.inj h ▸ hleft.wakes hwaiting
            next => cases h
      · cases h
  | stop w =>
      obtain rfl := Option.some.inj h
      refine fetching.keeps rfl id (fun v hv => ?_) rfl
      by_cases hvw : v = w
      · exact hvw ▸ Function.update_self ..
      · exact (Function.update_of_ne hvw ..).trans hv
  | broadcast =>
      obtain rfl := Option.some.inj h
      have hpc : ∀ w, k.thread w ≠ .waiting → (broadcast k).thread w = k.thread w :=
        fun w hw => if_neg hw
      have hwoken : ∀ w, k.thread w = .waiting → (broadcast k).thread w = .waking :=
        fun w hw => if_pos hw
      refine ⟨fun w hw => ?_, fun w hw => ?_, fun w hw => ?_⟩
      · by_cases hwaiting : k.thread w = .waiting
        · simp [hwoken w hwaiting] at hw
        · exact fetching.getting w (hpc w hwaiting ▸ hw)
      · by_cases hwaiting : k.thread w = .waiting
        · simp [hwoken w hwaiting] at hw
        · exact fetching.leaving w (hpc w hwaiting ▸ hw)
      · by_cases hwaiting : k.thread w = .waiting
        · exact fetching.parked w (.inr (.inl hwaiting))
        · exact fetching.parked w (hpc w hwaiting ▸ hw)

theorem initial_fetching : (initial n m).Fetching :=
  ⟨fun _ hw => ThreadPc.noConfusion hw, fun _ hw => by simp [initial] at hw,
    fun _ hw => by simp [initial] at hw⟩

/-- A thread that goes on to a place with less to do. -/
theorem effort_goto {w : Fin n} {pc : ThreadPc} (thread : k'.thread = Function.update k.thread w pc)
    (caller : k'.caller = k.caller)
    (less : 5 * k'.msgqueue.length + pc.effort < 5 * k.msgqueue.length + (k.thread w).effort) :
    k'.effort < k.effort := by
  have hsum := sum_update_add k.thread w pc ThreadPc.effort
  rw [← thread] at hsum
  rw [Config.effort, Config.effort, caller]
  omega

/-- A caller that goes on to a place with less to do. -/
theorem effort_callerGoto {p : Fin m} {pc : CallerPc} (thread : k'.thread = k.thread)
    (caller : k'.caller = Function.update k.caller p pc)
    (less : 5 * k'.msgqueue.length + pc.effort < 5 * k.msgqueue.length + (k.caller p).effort) :
    k'.effort < k.effort := by
  have hsum := sum_update_add k.caller p pc CallerPc.effort
  rw [← caller] at hsum
  rw [Config.effort, Config.effort, thread]
  omega

theorem threadStep_effort (fetching : k.Fetching) {w : Fin n}
    (h : threadStep k w (k.thread w) = some k') : k'.effort < k.effort := by
  cases hpc : k.thread w with
  | locking | waking =>
      rw [hpc] at h
      simp only [threadStep] at h
      split at h
      · obtain rfl := Option.some.inj h
        exact effort_goto rfl rfl (by simp [hpc, ThreadPc.effort, Config.goto])
      · cases h
  | testing =>
      rw [hpc] at h
      simp only [threadStep] at h
      split at h
      · obtain rfl := Option.some.inj h
        exact effort_goto rfl rfl (by simp [hpc, ThreadPc.effort, Config.goto])
      split at h
      · obtain rfl := Option.some.inj h
        exact effort_goto rfl rfl (by simp [hpc, ThreadPc.effort, Config.goto])
      · obtain rfl := Option.some.inj h
        exact effort_goto rfl rfl (by simp [hpc, ThreadPc.effort, Config.goto])
  | parking | leaving | processing msg =>
      rw [hpc] at h
      obtain rfl := Option.some.inj h
      exact effort_goto rfl rfl (by simp [hpc, ThreadPc.effort, Config.goto])
  | waiting | ended =>
      rw [hpc] at h
      cases h
  | getting =>
      obtain ⟨msg, rest, hqueue⟩ := List.exists_cons_of_ne_nil (fetching.getting w hpc)
      rw [hpc] at h
      obtain rfl := Option.some.inj h
      refine effort_goto rfl rfl ?_
      cases msg <;> simp [hpc, hqueue, ThreadPc.effort, Config.goto] <;> omega
  | got msgPtr =>
      rw [hpc] at h
      cases msgPtr with
      | none | some msg =>
          obtain rfl := Option.some.inj h
          exact effort_goto rfl rfl (by simp [hpc, ThreadPc.effort, Config.goto])

/-- Every own step lowers the effort. -/
theorem step_effort (fetching : k.Fetching) (own : Own action) (h : step k action = some k') :
    k'.effort < k.effort := by
  cases action with
  | thread w => exact threadStep_effort fetching h
  | wake | inMsgRecv | stop | broadcast => exact own.elim
  | caller p =>
      simp only [step] at h
      cases hpc : k.caller p with
      | outside | calling =>
          rw [hpc] at h
          cases h
      | locking msg =>
          rw [hpc] at h
          simp only [callerStep] at h
          split at h
          · obtain rfl := Option.some.inj h
            exact effort_callerGoto rfl rfl (by simp [hpc, CallerPc.effort, Config.callerGoto])
          · cases h
      | pushing msg =>
          rw [hpc] at h
          obtain rfl := Option.some.inj h
          refine effort_callerGoto rfl rfl ?_
          simp only [hpc, CallerPc.effort, Config.callerGoto, List.length_append,
            List.length_singleton]
          omega
      | counting | unlocking =>
          rw [hpc] at h
          obtain rfl := Option.some.inj h
          exact effort_callerGoto rfl rfl (by simp [hpc, CallerPc.effort, Config.callerGoto])
  | signal p woken =>
      simp only [step] at h
      split at h
      next hpc =>
        have hleft : (k.callerGoto p .outside).effort + 4 = k.effort := by
          have hsum := sum_update_add k.caller p .outside CallerPc.effort
          have hweights : CallerPc.effort .calling = 4 ∧ CallerPc.effort .outside = 0 := ⟨rfl, rfl⟩
          rw [hpc] at hsum
          simp only [Config.effort, Config.callerGoto]
          omega
        cases woken with
        | none =>
            simp only [signal] at h
            split at h
            · obtain rfl := Option.some.inj h
              omega
            · cases h
        | some w =>
            simp only [signal] at h
            split at h
            next hwaiting =>
              obtain rfl := Option.some.inj h
              have hsum := sum_update_add (k.callerGoto p .outside).thread w .waking
                ThreadPc.effort
              have hweights : ThreadPc.effort .waiting = 0 ∧ ThreadPc.effort .waking = 3 :=
                ⟨rfl, rfl⟩
              rw [hwaiting] at hsum
              have hwoken : ((k.callerGoto p .outside).goto w .waking).effort =
                  (k.callerGoto p .outside).effort + 3 := by
                simp only [Config.effort, Config.goto]
                omega
              omega
            next => cases h
      next => cases h

/-- Every thread waits or has ended, and no caller is inside `InMsgRecv`. -/
structure Config.AtRest (k : Config n m) : Prop where
  threads : ∀ w, k.thread w = .waiting ∨ k.thread w = .ended
  callers : ∀ p, k.caller p = .outside

theorem Config.AtRest.free (rest : k.AtRest) (inv : k.Inv) : k.pthreadMutex = none := by
  refine Option.eq_none_iff_forall_ne_some.mpr fun holder hholder => ?_
  have hinside := (inv.locked holder).mp hholder
  cases holder with
  | inl w =>
      rcases rest.threads w with hpc | hpc
      · simp [Config.Inside, hpc, ThreadPc.holds] at hinside
      · simp [Config.Inside, hpc, ThreadPc.holds] at hinside
  | inr p => simp [Config.Inside, rest.callers p, CallerPc.holds] at hinside

/-- Whoever has the mutex goes on, and so does everybody else if nobody has it. -/
theorem atRest_of_settled (settled : Settled step Own k) (inv : k.Inv) : k.AtRest := by
  have hthread : ∀ w, threadStep k w (k.thread w) = none := fun w => settled (.thread w) trivial
  have hcaller : ∀ p, callerStep k p (k.caller p) = none := fun p => settled (.caller p) trivial
  have hfree : k.pthreadMutex = none := by
    refine Option.eq_none_iff_forall_ne_some.mpr fun holder hholder => ?_
    have hinside := (inv.locked holder).mp hholder
    cases holder with
    | inl w =>
        have hnone := hthread w
        cases hpc : k.thread w with
        | testing =>
            rw [hpc, threadStep] at hnone
            split at hnone
            · cases hnone
            · split at hnone <;> cases hnone
        | got msgPtr =>
            rw [hpc] at hnone
            cases msgPtr <;> cases hnone
        | parking | getting | leaving =>
            rw [hpc] at hnone
            cases hnone
        | locking | waking | waiting | processing | ended =>
            simp [Config.Inside, hpc, ThreadPc.holds] at hinside
    | inr p =>
        have hnone := hcaller p
        cases hpc : k.caller p with
        | pushing | counting | unlocking =>
            rw [hpc] at hnone
            cases hnone
        | outside | locking | calling => simp [Config.Inside, hpc, CallerPc.holds] at hinside
  have hunlocked : ∀ t, ¬ k.Inside t := fun t ht => by
    have hholder := (inv.locked t).mpr ht
    rw [hfree] at hholder
    cases hholder
  constructor
  · intro w
    have hnone := hthread w
    have hout := hunlocked (.inl w)
    cases hpc : k.thread w with
    | waiting => exact .inl rfl
    | ended => exact .inr rfl
    | locking | waking | processing => simp [hpc, threadStep, hfree] at hnone
    | testing | parking | getting | got | leaving =>
        simp [Config.Inside, hpc, ThreadPc.holds] at hout
  · intro p
    have hnone := hcaller p
    have hout := hunlocked (.inr p)
    cases hpc : k.caller p with
    | outside => rfl
    | locking => simp [hpc, callerStep, hfree] at hnone
    | pushing | counting | unlocking => simp [Config.Inside, hpc, CallerPc.holds] at hout
    | calling =>
        -- The signal finds somebody waiting, or nobody.
        exfalso
        by_cases hsome : ∃ w, k.thread w = .waiting
        · obtain ⟨w, hw⟩ := hsome
          have hnone := settled (.signal p (some w)) trivial
          simp [step, hpc, signal, Config.callerGoto, hw] at hnone
        · have hnone := settled (.signal p none) trivial
          have hnobody : ∀ w, k.thread w ≠ .waiting := not_exists.mp hsome
          simp [step, hpc, signal, Config.callerGoto, hnobody] at hnone

theorem Own.orders (own : Own action) : action.orders = false := by
  cases action with
  | thread | caller | signal => rfl
  | wake | inMsgRecv | stop | broadcast => exact own.elim

/-- The threads and callers tell nobody to stop. -/
theorem step_ifshutdown (free : action.orders = false) (h : step k action = some k') :
    k'.ifshutdown = k.ifshutdown := by
  cases action with
  | thread w =>
      simp only [step] at h
      cases hpc : k.thread w with
      | got msgPtr =>
          rw [hpc] at h
          cases msgPtr with
          | none | some msg =>
              obtain rfl := Option.some.inj h
              rfl
      | waiting | ended =>
          rw [hpc] at h
          cases h
      | parking | processing | leaving | getting =>
          rw [hpc] at h
          obtain rfl := Option.some.inj h
          rfl
      | locking | waking =>
          rw [hpc] at h
          simp only [threadStep] at h
          split at h
          · obtain rfl := Option.some.inj h
            rfl
          · cases h
      | testing =>
          rw [hpc] at h
          simp only [threadStep] at h
          split at h
          · obtain rfl := Option.some.inj h
            rfl
          · split at h
            · obtain rfl := Option.some.inj h
              rfl
            · obtain rfl := Option.some.inj h
              rfl
  | caller p =>
      simp only [step] at h
      cases hpc : k.caller p with
      | outside | calling =>
          rw [hpc] at h
          cases h
      | locking msg =>
          rw [hpc] at h
          simp only [callerStep] at h
          split at h
          · obtain rfl := Option.some.inj h
            rfl
          · cases h
      | pushing | counting | unlocking =>
          rw [hpc] at h
          obtain rfl := Option.some.inj h
          rfl
  | signal p woken =>
      simp only [step] at h
      split at h
      · cases woken with
        | none =>
            simp only [signal] at h
            split at h
            · obtain rfl := Option.some.inj h
              rfl
            · cases h
        | some w =>
            simp only [signal] at h
            split at h
            · obtain rfl := Option.some.inj h
              rfl
            · cases h
      · cases h
  | wake w =>
      simp only [step] at h
      split at h
      · obtain rfl := Option.some.inj h
        rfl
      · cases h
  | inMsgRecv p msg =>
      simp only [step] at h
      split at h
      · obtain rfl := Option.some.inj h
        rfl
      · cases h
  | stop | broadcast => cases free

/-- What every schedule keeps. -/
structure Config.Sound (k : Config n m) : Prop where
  inv : k.Inv
  fetching : k.Fetching

theorem Config.Sound.next (sound : k.Sound) (h : step k action = some k') : k'.Sound :=
  ⟨step_inv sound.inv h, step_fetching sound.inv sound.fetching h⟩

theorem initial_sound : (initial n m).Sound := ⟨initial_inv, initial_fetching⟩

/-- A pool with the same orders to stop. -/
def Config.Left (k t : Config n m) : Prop := t.Sound ∧ t.ifshutdown = k.ifshutdown

theorem Config.Left.next (left : k.Left t) (own : Own action) (h : step t action = some k') :
    k.Left k' :=
  ⟨left.1.next h, (step_ifshutdown own.orders h).trans left.2⟩

/-- The pool, left to itself, comes to rest. -/
theorem exists_rest (sound : k.Sound) :
    ∃ actions t, (∀ action ∈ actions, Own action) ∧ run step k actions = some t ∧ k.Left t ∧
      t.AtRest := by
  have hpreserved : ∀ t action t', k.Left t → Own action → step t action = some t' → k.Left t' :=
    fun t action t' ht hown hs => ht.next hown hs
  obtain ⟨actions, t, howned, hr, hsettled⟩ := exists_settled hpreserved
    (fun t action t' ht hown hs => step_effort ht.1.fetching hown hs) ⟨sound, rfl⟩
  have hleft : k.Left t := run_own hpreserved ⟨sound, rfl⟩ howned hr
  exact ⟨actions, t, howned, hr, hleft, atRest_of_settled hsettled hleft.1.inv⟩

/-- With at least one thread and no shutdown, every message that is handed to the pool is
processed: if no further message comes, then whatever the schedule, the threads and callers
have only as many steps to do as the effort says, and in every state in which they have none
left all threads wait, the queue is empty, and each message that was ever pushed was passed to
`ThreadRecvProc` by the thread that took it. That function is taken to return; and spurious
wake-ups, which may come in the schedule so far, are left out of the steps that are counted. -/
theorem messages_processed (pos : 0 < n) (hr : run step (initial n m) actions = some k)
    (running : ∀ w, k.ifshutdown w = false) :
    (∀ rest t, (∀ action ∈ rest, Own action) → run step k rest = some t →
        rest.length ≤ k.effort) ∧
      (∃ rest t, (∀ action ∈ rest, Own action) ∧ run step k rest = some t ∧
        Settled step Own t) ∧
      ∀ rest t, (∀ action ∈ rest, Own action) → run step k rest = some t →
        Settled step Own t → (∀ w, t.thread w = .waiting) ∧ t.msgqueue = [] ∧
          t.history.pushed = t.history.taken.map Prod.snd ∧
          ∀ w, t.history.takenBy w = t.history.processedBy w := by
  have hkept : ∀ (t : Config n m) action t', t.Sound ∧ t.Watched → step t action = some t' →
      t'.Sound ∧ t'.Watched := fun t action t' ht hs =>
    ⟨ht.1.next hs, step_watched pos ht.1.inv ht.2 hs⟩
  have hbegin : (initial n m).Watched := ⟨fun _ hw => ThreadPc.noConfusion hw,
    fun hqueue => absurd rfl hqueue⟩
  have hsound : k.Sound ∧ k.Watched :=
    run_invariant (I := fun t => t.Sound ∧ t.Watched) hkept ⟨initial_sound, hbegin⟩ hr
  have hpreserved : ∀ t action t', k.Left t → Own action → step t action = some t' → k.Left t' :=
    fun t action t' ht hown hs => ht.next hown hs
  have hlowers : ∀ t action t', k.Left t → Own action → step t action = some t' →
      t'.effort < t.effort := fun t action t' ht hown hs => step_effort ht.1.fetching hown hs
  have hleft : k.Left k := ⟨hsound.1, rfl⟩
  refine ⟨fun rest t howned hrest => ?_, exists_settled hpreserved hlowers hleft,
    fun rest t howned hrest hsettled => ?_⟩
  · have hlength := length_add_effort_le hpreserved hlowers hleft howned hrest
    omega
  · obtain ⟨ht, hshut⟩ : k.Left t := run_own hpreserved hleft howned hrest
    have hwatched : t.Watched :=
      (run_invariant (I := fun t => t.Sound ∧ t.Watched) hkept hsound hrest).2
    have hatRest := atRest_of_settled hsettled ht.inv
    have hwaiting : ∀ w, t.thread w = .waiting := fun w =>
      (hatRest.threads w).resolve_right fun hended => by
        have hstop := ht.fetching.leaving w (.inr hended)
        rw [hshut, running w] at hstop
        cases hstop
    have hempty : t.msgqueue = [] := by
      by_contra hqueue
      rcases hwatched.awake hqueue with ⟨w, hw⟩ | ⟨p, hp⟩
      · exact hw (hwaiting w)
      · rw [hatRest.callers p] at hp
        cases hp
    refine ⟨hwaiting, hempty, ?_, fun w => ?_⟩
    · rw [ht.inv.fifo, hempty, List.append_nil]
    · rw [ht.inv.once w, hwaiting w]
      exact List.append_nil _

/-- A message is about to be pushed, and two threads are there to take it. -/
theorem messages_processed_two_threads : ∃ (msg : Message) (k : Config 2 1),
    run step (initial 2 1) [.inMsgRecv 0 (some msg)] = some k ∧ k.effort = 19 ∧
      ∃ rest t, (∀ action ∈ rest, Own action) ∧ run step k rest = some t ∧
        Settled step Own t := by
  let msg : Message := ⟨⟨1, 1⟩, 1, [0, 8, 0, 0, 0, 0, 0, 0, 0]⟩
  have hr : run step (initial 2 1) [.inMsgRecv 0 (some msg)] =
    some ((initial 2 1).callerGoto 0 (.locking (some msg))) := rfl
  exact ⟨msg, _, hr, rfl, (messages_processed (by decide) hr fun _ => rfl).2.1⟩

end ThreadPool

end MyNginx
