import MyNginx.Sending.System
import MyNginx.Server.Keeps

/-!
# What a step of the send subsystem does

`Does` lists the steps of a configuration with what each of them changes. Every step
keeps the invariant of the server, free objects without a reply in progress, and the
message headers of the replies in the hands of the workers.
-/

namespace MyNginx

open Foundation

namespace State

variable {s s' t : State} {c d : ConnId} {env : Env} {reply : Reply} {r : Option Reply}

/-- A handler makes the reply `r`, if any: it sets `sendlen_suppose` and touches
nothing else that sending depends on. -/
structure Handles (s : State) (r : Option Reply) (s' : State) : Prop where
  neutral : Neutral s s'
  queue : s'.toSendQueue = s.toSendQueue
  queued : s'.history.queued = s.history.queued
  wire : s'.history.wire = s.history.wire
  istimeout : ∀ c, (s'.conn c).istimeout = (s.conn c).istimeout
  outgoing : ∀ c, (s'.conn c).toOutgoing =
    { (s.conn c).toOutgoing with sendlenSuppose := (s'.conn c).sendlenSuppose }
  self : ∀ reply, r = some reply →
    (s'.conn reply.head.lpCurconn).sendlenSuppose = pkgLen reply.buf
  other : ∀ c, (∀ reply, r = some reply → c ≠ reply.head.lpCurconn) →
    (s'.conn c).sendlenSuppose = (s.conn c).sendlenSuppose
  answers : ∀ reply, r = some reply → Sending.Answers s reply

theorem Handles.of_none (h : Steady s s') (queue : s'.toSendQueue = s.toSendQueue)
    (queued : s'.history.queued = s.history.queued) (wire : s'.history.wire = s.history.wire)
    (outgoing : ∀ c, (s'.conn c).toOutgoing = (s.conn c).toOutgoing) : Handles s none s' where
  neutral := h.toNeutral
  queue := queue
  queued := queued
  wire := wire
  istimeout c := congrArg Prod.snd (h.life c)
  outgoing c := by rw [congrArg Outgoing.sendlenSuppose (outgoing c), outgoing c]
  self _ hr := by cases hr
  other c _ := congrArg Outgoing.sendlenSuppose (outgoing c)
  answers _ hr := by cases hr

/-- `sendlen_suppose` is set when the reply is made. -/
theorem handles_supposeSend (neutral : Neutral s t) (queue : t.toSendQueue = s.toSendQueue)
    (queued : t.history.queued = s.history.queued) (wire : t.history.wire = s.history.wire)
    (istimeout : ∀ c, (t.conn c).istimeout = (s.conn c).istimeout)
    (outgoing : ∀ c, (t.conn c).toOutgoing = (s.conn c).toOutgoing)
    (answers : Sending.Answers s reply) : Handles s (some reply) (t.supposeSend reply) where
  neutral := neutral.trans steady_supposeSend.toNeutral
  queue := queue
  queued := queued
  wire := wire
  istimeout c := by
    rw [← istimeout c]
    by_cases hc : c = reply.head.lpCurconn <;> simp [supposeSend, hc]
  outgoing c := by
    rw [← outgoing c]
    by_cases hc : c = reply.head.lpCurconn <;> simp [supposeSend, hc]
  self r hr := by
    obtain rfl := Option.some.inj hr
    simp [supposeSend]
  other c hc := by
    rw [← congrArg Outgoing.sendlenSuppose (outgoing c)]
    simp [supposeSend, hc reply rfl]
  answers r hr := Option.some.inj hr ▸ answers

theorem Took.handles {now : Time} (h : Took s now s' r) (inv : s.Inv) : Handles s r s' := by
  have hneutral := h.neutral
  cases h with
  | null queue =>
      refine .of_none (steady_behind fun msg hm => ?_) rfl rfl rfl fun _ => rfl
      rw [queue]
      exact List.mem_cons_of_mem _ hm
  | message queue processed =>
      rename_i msg rest
      have hbehind : Steady s (s.behind rest) := steady_behind fun msg hm => by
        rw [queue]
        exact List.mem_cons_of_mem _ hm
      have hanswers : ∀ reply : Reply, reply.head = msg.head ∧ reply.origin = msg.origin →
          ((s.behind rest).conn msg.head.lpCurconn).judgeOutdate msg.head.msgCursequence = true →
          Sending.Answers s reply := by
        rintro reply ⟨hhead, horigin⟩ hcurrent
        rw [Sending.Answers, hhead, horigin]
        exact ⟨inv.flight.queue msg (by simp [queue]), hcurrent⟩
      cases processed with
      | dropped silent => exact .of_none hbehind rfl rfl rfl fun _ => rfl
      | heartbeat current beat answers =>
          have hping : Neutral (s.behind rest) ((s.behind rest).modifyConn msg.head.lpCurconn
              fun conn => { conn with pingUpdateTime := now }) := neutral_modifyConn fun _ => rfl
          refine handles_supposeSend (hbehind.toNeutral.trans hping) rfl rfl rfl (fun c => ?_)
            (fun c => ?_) (hanswers _ answers current)
          · by_cases hc : c = msg.head.lpCurconn <;> simp [hc]
          · by_cases hc : c = msg.head.lpCurconn <;> simp [hc]
      | answered current code answers =>
          exact handles_supposeSend hbehind.toNeutral rfl rfl rfl (fun _ => rfl) (fun _ => rfl)
            (hanswers _ answers current)

theorem Handles.live (h : Handles s r s') (c : ConnId) : s'.Live c ↔ s.Live c := by
  rw [Live, Live, h.neutral.used_iff, (link_eq (h.neutral.link c)).1, h.istimeout]

theorem Handles.pSendbuf (h : Handles s r s') (c : ConnId) :
    (s'.conn c).pSendbuf = (s.conn c).pSendbuf := by
  have heq := congrArg Outgoing.pSendbuf (h.outgoing c)
  exact heq

theorem Handles.cleared (h : Handles s r s') (cleared : s.Cleared) : s'.Cleared := by
  intro c hfree
  have hlist : s'.freeConnectionList = s.freeConnectionList :=
    congrArg ObjectPool.free h.neutral.view
  rw [h.pSendbuf c]
  exact cleared c (hlist ▸ hfree)

/-- A statement of `MsgSendInQueue` appends `added` to the list, and touches nothing
else of the sending side but counters, semaphore and mutex. -/
structure Advances (s : State) (added : List Reply) (s' : State) : Prop where
  steady : Steady s s'
  list : s'.sendMsgList = s.sendMsgList ++ added
  queued : s'.history.queued = s.history.queued ++ added
  wire : s'.history.wire = s.history.wire
  outgoing : ∀ c, (s'.conn c).toOutgoing =
    { (s.conn c).toOutgoing with isendCount := (s'.conn c).isendCount }

theorem Advances.of_queue {queue : SendQueue} (list : queue.sendMsgList = s.sendMsgList) :
    Advances s [] { s with toSendQueue := queue } where
  steady := steady_sendQueue _ fun _ hr => list ▸ hr
  list := by simp [list]
  queued := (List.append_nil _).symm
  wire := rfl
  outgoing _ := rfl

theorem Advances.cleared {added : List Reply} (h : Advances s added s')
    (cleared : s.Cleared) : s'.Cleared := by
  intro c hfree
  have hlist : s'.freeConnectionList = s.freeConnectionList := congrArg ObjectPool.free h.steady.view
  have hbuf := congrArg Outgoing.pSendbuf (h.outgoing c)
  exact hbuf.trans (cleared c (hlist ▸ hfree))

theorem msgSendStep_advances {thread : Thread} {pc pc' : WorkerPc}
    (stamped : ∀ reply, pc.pending = some reply → s.Stamped reply.head reply.origin)
    (h : s.msgSendStep thread pc = some (s', pc')) :
    (∃ reply, pc = .locked reply ∧ pc' = .pushed reply ∧ s.overloaded reply = false ∧
        Advances s [reply] s') ∨
      (pc'.pending = pc.pending ∨ pc'.pending = none) ∧ Advances s [] s' := by
  cases pc with
  | idle => cases h
  | entering reply =>
      simp only [msgSendStep] at h
      split at h
      · obtain ⟨rfl, rfl⟩ := Prod.mk.inj (Option.some.inj h)
        exact .inr ⟨.inl rfl, .of_queue rfl⟩
      · cases h
  | locked reply =>
      simp only [msgSendStep] at h
      split at h
      · obtain ⟨rfl, rfl⟩ := Prod.mk.inj (Option.some.inj h)
        exact .inr ⟨.inr rfl, .of_queue rfl⟩
      next hroom =>
        obtain ⟨rfl, rfl⟩ := Prod.mk.inj (Option.some.inj h)
        exact .inl ⟨reply, rfl, rfl, by simpa using hroom,
          steady_pushSend (stamped reply rfl), rfl, rfl, rfl, fun _ => rfl⟩
  | pushed reply =>
      obtain ⟨rfl, rfl⟩ := Prod.mk.inj (Option.some.inj h)
      exact .inr ⟨.inl rfl, .of_queue rfl⟩
  | unlocked reply =>
      obtain ⟨rfl, rfl⟩ := Prod.mk.inj (Option.some.inj h)
      refine .inr ⟨.inl rfl, steady_countConn, (List.append_nil _).symm, (List.append_nil _).symm,
        rfl, fun c => ?_⟩
      by_cases hc : c = reply.head.lpCurconn <;> simp [countConn, hc]
  | counted =>
      obtain ⟨rfl, rfl⟩ := Prod.mk.inj (Option.some.inj h)
      exact .inr ⟨.inl rfl, .of_queue rfl⟩
  | posting =>
      obtain ⟨rfl, rfl⟩ := Prod.mk.inj (Option.some.inj h)
      exact .inr ⟨.inl rfl, .of_queue rfl⟩

/-- Where the send thread goes from the element `i`. -/
def SendNext.pc (i : Nat) : SendNext → SenderPc
  | .erased => .scanning i
  | .skipped => .scanning (i + 1)
  | .returned => .returned

/-- The send thread handles an element, or it changes the semaphore and the mutex at most. -/
theorem senderStep_cases (inv : s.Inv) {pc pc' : SenderPc}
    (h : s.senderStep env pc = some (s', pc')) :
    (∃ i reply next, pc = .scanning i ∧ s.sendMsgList[i]? = some reply ∧
        Entry s i reply reply.head.lpCurconn env s' next ∧ pc' = next.pc i) ∨
      pc' ≠ .returned ∧ (∀ i, pc = .scanning i → s.sendMsgList[i]? = none) ∧
        ∃ sendmutex sendsem, s' = { s with sendmutex, sendsem } := by
  cases pc with
  | looping =>
      obtain ⟨rfl, rfl⟩ := Prod.mk.inj (Option.some.inj h)
      refine .inr ⟨?_, nofun, _, _, rfl⟩
      split <;> simp
  | waiting =>
      simp only [senderStep] at h
      split at h
      · cases h
      · obtain ⟨rfl, rfl⟩ := Prod.mk.inj (Option.some.inj h)
        exact .inr ⟨nofun, nofun, _, _, rfl⟩
  | woken =>
      simp only [senderStep] at h
      split at h
      · obtain ⟨rfl, rfl⟩ := Prod.mk.inj (Option.some.inj h)
        exact .inr ⟨nofun, nofun, _, _, rfl⟩
      · obtain ⟨rfl, rfl⟩ := Prod.mk.inj (Option.some.inj h)
        refine .inr ⟨?_, nofun, _, _, rfl⟩
        split <;> simp
  | locking =>
      simp only [senderStep] at h
      split at h
      · obtain ⟨rfl, rfl⟩ := Prod.mk.inj (Option.some.inj h)
        exact .inr ⟨nofun, nofun, _, _, rfl⟩
      · cases h
  | scanning i =>
      simp only [senderStep] at h
      split at h
      · obtain ⟨⟨t, next⟩, hsend, heq⟩ := Option.map_eq_some_iff.mp h
        obtain ⟨reply, hreply, hentry⟩ := sendEntry_entry inv hsend
        refine .inl ⟨i, reply, next, rfl, hreply, ?_⟩
        cases next with
        | erased | skipped | returned =>
            obtain ⟨rfl, rfl⟩ := Prod.mk.inj heq
            exact ⟨hentry, rfl⟩
      next hend =>
        obtain ⟨rfl, rfl⟩ := Prod.mk.inj (Option.some.inj h)
        refine .inr ⟨nofun, fun j hj => ?_, _, _, rfl⟩
        obtain rfl := SenderPc.scanning.inj hj
        exact List.getElem?_eq_none (Nat.not_lt.mp hend)
  | stopped => cases h
  | returned => cases h

end State

namespace Sending

open State

variable {n : Nat} {boot : Boot} {k k' : Config n} {action : Action n}

/-- What every step keeps. -/
structure Config.Inv (k : Config n) : Prop where
  server : k.server.Inv
  cleared : k.server.Cleared
  hands : ∀ w reply, (k.workers w).pending = some reply →
    k.server.Stamped reply.head reply.origin

/-- The steps of a configuration. -/
inductive Does (k : Config n) : Action n → Config n → Prop
  | loop {action : LoopAction} {s' : State} (moves : Moves action.env k.server s') :
      Does k (.loop action) { k with server := s' }
  | take {w : Fin n} {now : Time} {r : Option Reply} {s' : State} (idle : k.workers w = .idle)
      (handles : Handles k.server r s') (makes : k.server.takeMessage now = some (s', r)) :
      Does k (.take w now) (k.handled w (s', r))
  | call {w : Fin n} {reply : Reply} {s' : State} (idle : k.workers w = .idle)
      (handles : Handles k.server (some reply) s') :
      Does k (.call w reply) (k.handled w (s', some reply))
  | advance {w : Fin n} {s' : State} {pc : WorkerPc}
      (advances : k.server.msgSendStep (.worker w) (k.workers w) = some (s', pc)) :
      Does k (.advance w) { k with server := s', workers := Function.update k.workers w pc }
  | send {env : Env} {s' : State} {pc : SenderPc}
      (sends : k.server.senderStep env k.sender = some (s', pc)) :
      Does k (.send env) { k with server := s', sender := pc }
  | interrupt (waiting : k.sender = .waiting) : Does k .interrupt { k with sender := .stopped }

theorem step_does (inv : k.Inv) (h : step k action = some k') : Does k action k' := by
  cases action with
  | loop action =>
      obtain ⟨s', hs, rfl⟩ := Option.map_eq_some_iff.mp h
      exact .loop (loopStep_moves inv.server hs)
  | take w now =>
      simp only [step] at h
      split at h
      next hidle =>
        obtain ⟨⟨s', r⟩, hs, rfl⟩ := Option.map_eq_some_iff.mp h
        exact .take hidle ((takeMessage_took hs).handles inv.server) hs
      next => cases h
  | call w reply =>
      simp only [step] at h
      split at h
      next hcall =>
        obtain rfl := Option.some.inj h
        exact .call hcall.1 (handles_supposeSend (.refl _) rfl rfl rfl (fun _ => rfl)
          (fun _ => rfl) hcall.2)
      next => cases h
  | advance w =>
      obtain ⟨⟨s', pc⟩, hs, rfl⟩ := Option.map_eq_some_iff.mp h
      exact .advance hs
  | send env =>
      obtain ⟨⟨s', pc⟩, hs, rfl⟩ := Option.map_eq_some_iff.mp h
      exact .send hs
  | interrupt =>
      simp only [step] at h
      split at h
      next hwaiting =>
        obtain rfl := Option.some.inj h
        exact .interrupt hwaiting
      next => cases h

/-- The replies in hand stay stamped when the server ages. -/
theorem Config.Inv.of_aged (inv : k.Inv) (aged : Aged k.server k'.server)
    (server : k'.server.Inv) (cleared : k'.server.Cleared)
    (hands : ∀ w reply, (k'.workers w).pending = some reply →
      (∃ v, (k.workers v).pending = some reply) ∨ k.server.Stamped reply.head reply.origin) :
    k'.Inv where
  server := server
  cleared := cleared
  hands w reply hr := by
    rcases hands w reply hr with ⟨v, hv⟩ | hstamped
    · exact (inv.hands v reply hv).aged aged
    · exact hstamped.aged aged

@[simp] theorem handled_server (w : Fin n) (made : State × Option Reply) :
    (k.handled w made).server = made.1 := by
  obtain ⟨s, r⟩ := made
  cases r <;> rfl

@[simp] theorem handled_sender (w : Fin n) (made : State × Option Reply) :
    (k.handled w made).sender = k.sender := by
  obtain ⟨s, r⟩ := made
  cases r <;> rfl

theorem pending_handled {w v : Fin n} {made : State × Option Reply} {reply : Reply}
    (h : ((k.handled w made).workers v).pending = some reply) :
    (k.workers v).pending = some reply ∨ made.2 = some reply := by
  obtain ⟨s, r⟩ := made
  cases r with
  | none => exact .inl h
  | some made =>
      by_cases hv : v = w
      · subst hv
        simp only [Config.handled, Function.update_self, WorkerPc.pending] at h
        exact .inr h
      · simp only [Config.handled, Function.update_of_ne hv] at h
        exact .inl h

theorem pending_update {w v : Fin n} {pc : WorkerPc} {reply : Reply}
    (hpc : pc.pending = some reply → (k.workers w).pending = some reply)
    (h : (Function.update k.workers w pc v).pending = some reply) :
    (k.workers v).pending = some reply := by
  by_cases hv : v = w
  · subst hv
    rw [Function.update_self] at h
    exact hpc h
  · rwa [Function.update_of_ne hv] at h

/-- Making a reply keeps the invariant. -/
theorem Config.Inv.handled (inv : k.Inv) {w : Fin n} {s' : State} {r : Option Reply}
    (handles : Handles k.server r s') : (k.handled w (s', r)).Inv := by
  refine inv.of_aged ?_ ?_ ?_ fun v reply hr => ?_
  · simpa using handles.neutral.aged
  · simpa using handles.neutral.inv inv.server
  · simpa using handles.cleared inv.cleared
  · rcases pending_handled hr with hold | hnew
    · exact .inl ⟨v, hold⟩
    · exact .inr (handles.answers reply hnew).1

/-- A steady step of the server in which no worker gets a new reply. -/
theorem Config.Inv.of_steady (inv : k.Inv) (steady : Steady k.server k'.server)
    (cleared : k'.server.Cleared)
    (hands : ∀ w reply, (k'.workers w).pending = some reply →
      (k.workers w).pending = some reply) : k'.Inv :=
  inv.of_aged steady.aged (steady.inv inv.server) cleared
    fun w reply hr => .inl ⟨w, hands w reply hr⟩

theorem Does.inv (h : Does k action k') (inv : k.Inv) : k'.Inv := by
  cases h with
  | loop moves =>
      have hevolves := Moves.evolves moves inv.server
      exact inv.of_aged hevolves.aged hevolves.inv (Moves.cleared moves inv.server inv.cleared)
        fun w reply hr => .inl ⟨w, hr⟩
  | take idle handles makes => exact inv.handled handles
  | call idle handles => exact inv.handled handles
  | advance advances =>
      have hadvances := msgSendStep_advances (inv.hands _) advances
      rcases hadvances with ⟨reply, -, rfl, -, hadded⟩ | ⟨hpc, hadded⟩
      · exact inv.of_steady hadded.steady (hadded.cleared inv.cleared) fun v made =>
          pending_update (by simp [WorkerPc.pending])
      · exact inv.of_steady hadded.steady (hadded.cleared inv.cleared) fun v made =>
          pending_update (hpc.elim (fun h hr => h ▸ hr) fun h hr => by rw [h] at hr; cases hr)
  | send sends =>
      rcases senderStep_cases inv.server sends with
        ⟨i, reply, next, -, -, hentry, -⟩ | ⟨-, -, sendmutex, sendsem, rfl⟩
      · exact inv.of_steady hentry.steady (hentry.cleared inv.server inv.cleared) fun _ _ => id
      · have hsteady : Steady k.server { k.server with sendmutex, sendsem } :=
          steady_sendQueue { k.server.toSendQueue with sendmutex, sendsem } fun _ hr => hr
        exact inv.of_steady hsteady inv.cleared fun _ _ => id
  | interrupt waiting => exact inv.of_steady (.refl _) inv.cleared fun _ _ => id

/-- The loop and the threads beside it leave the send queue alone, up to the semaphore. -/
theorem moves_queue {env : Env} {s s' : State} (h : Moves env s s') (inv : s.Inv)
    (cleared : s.Cleared) :
    ∃ sendsem, s'.toSendQueue = { s.toSendQueue with sendsem } := by
  induction h with
  | refl => exact ⟨_, rfl⟩
  | @tail t u hs hmove ih =>
      obtain ⟨sendsem, hqueue⟩ := ih
      have hpost : u.toSendQueue = t.toSendQueue ∨ u.toSendQueue = t.toSendQueue.post := by
        rcases hmove.keeps (Moves.evolves hs inv).inv (Moves.cleared hs inv cleared) with
          hkeeps | ⟨c, -, hwrites⟩
        · exact .inl hkeeps.queue
        · cases hwrites with
          | failed fails sends => exact .inr sends.queue
          | part lt puts sends => exact .inl sends.queue
          | mismatch le puts differs sends => exact .inl sends.queue
          | finished le puts equal sends => exact .inr sends.queue
      rcases hpost with hsame | hposted
      · exact ⟨sendsem, hsame.trans hqueue⟩
      · exact ⟨sendsem + 1, by rw [hposted, hqueue]; rfl⟩

theorem Starts.inv (h : Starts boot k) : k.Inv where
  server := h.1.inv
  cleared := h.1.cleared
  hands w reply hr := by
    rw [h.2.1] at hr
    cases hr

theorem step_inv (inv : k.Inv) (h : step k action = some k') : k'.Inv :=
  (step_does inv h).inv inv

end Sending

end MyNginx
