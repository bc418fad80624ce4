import Mathlib
import MyNginx.Sending.Mutex

/-!
# The backlog counter

`m_msgtosend_count` follows the length of `m_send_msgList`: it is counted up behind the
unlock of `MsgSendInQueue` and counted down where the send thread takes an element. An
element that the send thread discards because its connection is outdated is erased
without being counted down, so every discard leaves the counter one too high for good.
-/

namespace MyNginx

open Foundation

namespace Sending

open State

variable {n : Nat} {boot : Boot} {k k' : Config n} {action : Action n}

/-- The replies in the list that are not counted yet. -/
def Config.owed (k : Config n) : Int := ∑ w, if (k.workers w).owes then 1 else 0

/-- How far the counter is ahead of the list, with the increments to come. -/
def Config.surplus (k : Config n) : Int :=
  k.server.msgtosendCount + k.owed - k.server.sendMsgList.length

/-- The next element the send thread handles is not discarded. -/
def Kept (k : Config n) : Action n → Prop
  | .send _ =>
      match k.sender with
      | .scanning i =>
          match k.server.sendMsgList[i]? with
          | some reply =>
              (k.server.conn reply.head.lpCurconn).judgeOutdate reply.head.msgCursequence = true
          | none => True
      | _ => True
  | _ => True

instance : DecidableRel (Kept (n := n)) := fun k action => by
  unfold Kept
  rcases action with _ | _
  case send =>
    dsimp only
    rcases k.sender with _ | _
    case scanning i =>
      dsimp only
      rcases k.server.sendMsgList[i]? with _ | _ <;> infer_instance
    all_goals infer_instance
  all_goals infer_instance

/-- No thread is inside `MsgSendInQueue` or in the middle of a pass. -/
def Config.Quiescent (k : Config n) : Prop :=
  (∀ w, k.workers w = .idle) ∧ k.sender.holds = false

instance : DecidablePred (Config.Quiescent (n := n)) := fun k =>
  inferInstanceAs (Decidable ((∀ w, k.workers w = .idle) ∧ k.sender.holds = false))

theorem owed_update {w : Fin n} {pc : WorkerPc} {s : State} :
    Config.owed { k with server := s, workers := Function.update k.workers w pc } =
      k.owed + (if pc.owes then 1 else 0) - (if (k.workers w).owes then 1 else 0) := by
  have hterm : (fun v => if (Function.update k.workers w pc v).owes then (1 : Int) else 0) =
      Function.update (fun v => if (k.workers v).owes then (1 : Int) else 0) w
        (if pc.owes then 1 else 0) := by
    funext v
    by_cases hv : v = w
    · rw [hv, Function.update_self, Function.update_self]
    · rw [Function.update_of_ne hv, Function.update_of_ne hv]
  have hsum := Finset.sum_update_of_mem (Finset.mem_univ w)
    (fun v => if (k.workers v).owes then (1 : Int) else 0) (if pc.owes then 1 else 0)
  have hold := Finset.add_sum_erase Finset.univ
    (fun v => if (k.workers v).owes then (1 : Int) else 0) (Finset.mem_univ w)
  simp only [Config.owed, hterm, hsum, ← hold, Finset.sdiff_singleton_eq_erase]
  omega

@[simp] theorem owed_handled {w : Fin n} {made : State × Option Reply}
    (idle : k.workers w = .idle) : (k.handled w made).owed = k.owed := by
  obtain ⟨s, r⟩ := made
  cases r with
  | none => rfl
  | some reply =>
      rw [Config.handled, owed_update, idle]
      simp [WorkerPc.owes]

theorem Config.Quiescent.surplus (h : k.Quiescent) :
    k.surplus = k.server.msgtosendCount - k.server.sendMsgList.length := by
  have howed : k.owed = 0 := by
    simp [Config.owed, h.1, WorkerPc.owes]
  rw [Config.surplus, howed]
  omega

/-- A statement of `MsgSendInQueue` counts what it owes. -/
theorem advance_surplus {w : Fin n} {s' : State} {pc : WorkerPc}
    (h : k.server.msgSendStep (.worker w) (k.workers w) = some (s', pc)) :
    Config.surplus { k with server := s', workers := Function.update k.workers w pc } =
      k.surplus := by
  simp only [Config.surplus, owed_update]
  cases hpc : k.workers w with
  | idle => simp [hpc, msgSendStep] at h
  | entering reply =>
      rw [hpc] at h
      simp only [msgSendStep] at h
      split at h
      · obtain ⟨rfl, rfl⟩ := Prod.mk.inj (Option.some.inj h)
        simp [WorkerPc.owes]
      · cases h
  | locked reply =>
      rw [hpc] at h
      simp only [msgSendStep] at h
      split at h
      · obtain ⟨rfl, rfl⟩ := Prod.mk.inj (Option.some.inj h)
        simp [WorkerPc.owes]
      · obtain ⟨rfl, rfl⟩ := Prod.mk.inj (Option.some.inj h)
        simp only [pushSend, WorkerPc.owes, List.length_append, List.length_singleton]
        simp only [if_true, Bool.false_eq_true, if_false]
        omega
  | pushed reply =>
      rw [hpc] at h
      obtain ⟨rfl, rfl⟩ := Prod.mk.inj (Option.some.inj h)
      simp [WorkerPc.owes]
  | unlocked reply =>
      rw [hpc] at h
      obtain ⟨rfl, rfl⟩ := Prod.mk.inj (Option.some.inj h)
      simp [WorkerPc.owes, countConn]
  | counted =>
      rw [hpc] at h
      obtain ⟨rfl, rfl⟩ := Prod.mk.inj (Option.some.inj h)
      simp only [countTotal, WorkerPc.owes, if_true, Bool.false_eq_true, if_false]
      omega
  | posting =>
      rw [hpc] at h
      obtain ⟨rfl, rfl⟩ := Prod.mk.inj (Option.some.inj h)
      simp [WorkerPc.owes, semPost]

/-- An element that is counted off keeps the surplus, a discarded one adds to it. -/
theorem Entry.surplus {env : Env} {i : Nat} {reply : Reply} {s' : State} {next : SendNext}
    {pc : SenderPc} (hreply : k.server.sendMsgList[i]? = some reply)
    (h : Entry k.server i reply reply.head.lpCurconn env s' next) :
    Config.surplus { k with server := s', sender := pc } = k.surplus +
      if (k.server.conn reply.head.lpCurconn).judgeOutdate reply.head.msgCursequence then 0
      else 1 := by
  have hlt : i < k.server.sendMsgList.length := (List.getElem?_eq_some_iff.mp hreply).1
  have hlength : (k.server.sendMsgList.eraseIdx i).length = k.server.sendMsgList.length - 1 :=
    List.length_eraseIdx_of_lt hlt
  have howed : Config.owed { k with server := s', sender := pc } = k.owed := rfl
  simp only [Config.surplus, howed]
  rcases h.sendQueue with ⟨houtdated, hqueue⟩ | ⟨hcurrent, rfl | hqueue⟩
  · rw [congrArg SendQueue.msgtosendCount hqueue, congrArg SendQueue.sendMsgList hqueue, houtdated]
    simp only [SendQueue.erase, hlength, Bool.false_eq_true, if_false]
    omega
  · rw [hcurrent]
    simp
  · rw [congrArg SendQueue.msgtosendCount hqueue, congrArg SendQueue.sendMsgList hqueue, hcurrent]
    simp only [SendQueue.dequeue, SendQueue.erase, hlength, if_true]
    omega

theorem Does.surplus (h : Does k action k') (inv : k.Inv) :
    k'.surplus = k.surplus + if Kept k action then 0 else 1 := by
  cases h with
  | loop moves =>
      obtain ⟨sendsem, hqueue⟩ := moves_queue moves inv.server inv.cleared
      simp [Config.surplus, Config.owed, Kept, congrArg SendQueue.msgtosendCount hqueue,
        congrArg SendQueue.sendMsgList hqueue]
  | take idle handles makes =>
      simp [Config.surplus, Kept, owed_handled idle, handles.queue]
  | call idle handles =>
      simp [Config.surplus, Kept, owed_handled idle, handles.queue]
  | advance advances => simp [advance_surplus advances, Kept]
  | send sends =>
      rcases senderStep_cases inv.server sends with
        ⟨i, reply, next, hpc, hreply, hentry, -⟩ | ⟨-, hnone, sendmutex, sendsem, rfl⟩
      · rw [Entry.surplus hreply hentry]
        simp only [Kept, hpc, hreply]
      · have hkept : ∀ env, Kept k (.send env) := by
          intro env
          simp only [Kept]
          split
          next i hpc => rw [hnone i hpc]; trivial
          next => trivial
        rw [if_pos (hkept _), Int.add_zero]
        rfl
  | interrupt waiting => simp [Config.surplus, Config.owed, Kept]

theorem Starts.surplus (h : Starts boot k) : k.surplus = 0 := by
  obtain ⟨⟨all, htaking⟩, -⟩ := h.1.spec
  have howed : k.owed = 0 := by simp [Config.owed, h.2.1, WorkerPc.owes]
  simp [Config.surplus, howed, congrArg SendQueue.msgtosendCount htaking.sends,
    congrArg SendQueue.sendMsgList htaking.sends, Boot.state]

/-- In a run up to a quiescent moment, the counter is the length of the list precisely if
no element was discarded. -/
theorem backlog_iff_kept (hstart : Starts boot k) {actions : List (Action n)}
    (hr : run step k actions = some k') (quiet : k'.Quiescent) :
    k'.server.msgtosendCount = k'.server.sendMsgList.length ↔ Along step Kept k actions := by
  have hcount : k'.surplus = k.surplus ↔ Along step Kept k actions := by
    refine measure_eq_iff_along (I := Config.Inv) (fun k a k' inv => step_inv inv) ?_ ?_
      hstart.inv hr
    · intro k action k' inv kept hs
      rw [(step_does inv hs).surplus inv, if_pos kept, Int.add_zero]
    · intro k action k' inv discarded hs
      rw [(step_does inv hs).surplus inv, if_neg discarded]
      exact Int.lt_succ _
  rw [← hcount, hstart.surplus, quiet.surplus]
  omega

/-- A reply is sent in two pieces, the second one at a writable event. -/
def twoPieces : List (Action 1) :=
  acceptOn 5 100 ++ requestOn onlyWorker pingPacket ++ enqueueBy onlyWorker ++
    List.replicate 6 (.send { send := [.sent 3] }) ++ eventOn 5 epollout { send := [.sent 5] }

theorem backlog_iff_kept_two_pieces : ∃ k k' : Config 1, Starts Boot.small k ∧
    run step k twoPieces = some k' ∧
    k'.server.msgtosendCount = k'.server.sendMsgList.length := by
  have hrun : ((Boot.small.state.epollEventInit [true]).bind fun s =>
      (run step (⟨s, fun _ => .idle, .looping⟩ : Config 1) twoPieces).map fun k' =>
        decide (k'.Quiescent ∧ Along step Kept ⟨s, fun _ => .idle, .looping⟩ twoPieces)) =
      some true := by decide
  obtain ⟨s, hstart, hrun⟩ := Option.bind_eq_some_iff.mp hrun
  obtain ⟨k', hr, hdecide⟩ := Option.map_eq_some_iff.mp hrun
  obtain ⟨hquiet, hkept⟩ := of_decide_eq_true hdecide
  have hstarts : Starts Boot.small (⟨s, fun _ => .idle, .looping⟩ : Config 1) :=
    ⟨⟨_, hstart⟩, rfl, rfl⟩
  exact ⟨_, k', hstarts, hr, (backlog_iff_kept hstarts hr hquiet).mpr hkept⟩

/-- A client makes a request and closes its connection before the send thread runs: the
list is empty afterwards, and the counter is one. -/
theorem discard_not_counted : ¬ ∀ (n : Nat) (boot : Boot) (k k' : Config n)
    (actions : List (Action n)), Starts boot k → run step k actions = some k' → k'.Quiescent →
      k'.server.msgtosendCount = k'.server.sendMsgList.length := by
  intro hclaim
  have hrun : (launch (n := 1) Boot.small [true] (acceptOn 5 100 ++ requestOn 0 pingPacket ++
      enqueueBy 0 ++ eventOn 5 epollin { recv := .zero .econnreset } ++
      List.replicate 6 (.send {}))).map (fun k =>
        (decide k.Quiescent, k.server.msgtosendCount, k.server.sendMsgList.length)) =
      some (true, 1, 0) := by decide
  obtain ⟨k', hlaunch, heq⟩ := Option.map_eq_some_iff.mp hrun
  obtain ⟨k, hstarts, hr⟩ := starts_of_launch hlaunch
  simp only [Prod.mk.injEq] at heq
  have hexact := hclaim 1 _ k k' _ hstarts hr (of_decide_eq_true heq.1)
  rw [heq.2.1, heq.2.2] at hexact
  exact absurd hexact (by decide)

theorem owed_le (k : Config n) : k.owed ≤ n := by
  have hle : k.owed ≤ ∑ _w : Fin n, (1 : Int) := by
    apply Finset.sum_le_sum
    intro w _
    split
    · exact Int.le_refl 1
    · exact Int.zero_le_ofNat 1
  simpa [Finset.card_univ] using hle

/-- Only a `push_back` makes the list longer, and the counter was at most 1000 then. -/
theorem Does.length (h : Does k action k') (inv : k.Inv) :
    k'.server.sendMsgList.length ≤ k.server.sendMsgList.length ∨
      k'.server.msgtosendCount ≤ 1000 := by
  cases h with
  | loop moves =>
      obtain ⟨sendsem, hqueue⟩ := moves_queue moves inv.server inv.cleared
      exact .inl (Nat.le_of_eq (congrArg (fun q => q.sendMsgList.length) hqueue))
  | take idle handles makes =>
      rw [handled_server]
      exact .inl (Nat.le_of_eq (congrArg (fun q => q.sendMsgList.length) handles.queue))
  | call idle handles =>
      rw [handled_server]
      exact .inl (Nat.le_of_eq (congrArg (fun q => q.sendMsgList.length) handles.queue))
  | advance advances =>
      rcases msgSendStep_advances (inv.hands _) advances with
        ⟨reply, hlocked, -, hroom, -⟩ | ⟨-, hsame⟩
      · rw [hlocked, msgSendStep, hroom] at advances
        obtain ⟨rfl, -⟩ := Prod.mk.inj (Option.some.inj advances)
        simp only [overloaded, Bool.or_eq_false_iff, decide_eq_false_iff_not] at hroom
        exact .inr (Int.not_lt.mp hroom.1)
      · exact .inl (Nat.le_of_eq (by rw [hsame.list, List.append_nil]))
  | send sends =>
      rcases senderStep_cases inv.server sends with
        ⟨i, reply, next, -, -, hentry, -⟩ | ⟨-, -, sendmutex, sendsem, rfl⟩
      · have herase := List.length_eraseIdx_le k.server.sendMsgList i
        rcases hentry.sendQueue with ⟨-, hqueue⟩ | ⟨-, rfl | hqueue⟩
        · exact .inl (Nat.le_trans
            (Nat.le_of_eq (congrArg (fun q => q.sendMsgList.length) hqueue)) herase)
        · exact .inl (Nat.le_refl _)
        · exact .inl (Nat.le_trans
            (Nat.le_of_eq (congrArg (fun q => q.sendMsgList.length) hqueue)) herase)
      · exact .inl (Nat.le_refl _)
  | interrupt waiting => exact .inl (Nat.le_refl _)

/-- The list is never longer than 1000 and the number of threads: what the counter does
not know of is in the hands of a thread each. -/
theorem sendMsgList_le (hstart : Starts boot k) {actions : List (Action n)}
    (hr : run step k actions = some k') : k'.server.sendMsgList.length ≤ 1000 + n := by
  have hstep : ∀ (t : Config n) a t', (t.Inv ∧ 0 ≤ t.surplus ∧ t.server.sendMsgList.length ≤ 1000 + n) →
      step t a = some t' →
      t'.Inv ∧ 0 ≤ t'.surplus ∧ t'.server.sendMsgList.length ≤ 1000 + n := by
    rintro t a t' ⟨inv, hsurplus, hlength⟩ hs
    have hdoes := step_does inv hs
    have hahead : 0 ≤ t'.surplus := by
      have hgrows := hdoes.surplus inv
      split at hgrows <;> omega
    refine ⟨hdoes.inv inv, hahead, ?_⟩
    rcases hdoes.length inv with hshorter | hroom
    · exact Nat.le_trans hshorter hlength
    · have howed := owed_le t'
      rw [Config.surplus] at hahead
      omega
  have hfirst : k.server.sendMsgList.length = 0 := by
    obtain ⟨⟨all, htaking⟩, -⟩ := hstart.1.spec
    rw [congrArg SendQueue.sendMsgList htaking.sends]
    rfl
  exact (run_invariant hstep ⟨hstart.inv, by rw [hstart.surplus], by omega⟩ hr).2.2

/-- The run in which one reply is sent in two pieces. -/
theorem sendMsgList_le_two_pieces : ∃ k k' : Config 1, Starts Boot.small k ∧
    run step k twoPieces = some k' ∧ k'.server.sendMsgList.length ≤ 1000 + 1 := by
  have hlaunch : (launch (n := 1) Boot.small [true] twoPieces).isSome = true := by decide
  obtain ⟨k', hk'⟩ := Option.isSome_iff_exists.mp hlaunch
  obtain ⟨k, hstarts, hr⟩ := starts_of_launch hk'
  exact ⟨k, k', hstarts, hr, sendMsgList_le hstarts hr⟩

end Sending

end MyNginx
