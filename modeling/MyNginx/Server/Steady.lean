import MyNginx.Server.Quiet

/-!
# Sending, handling and timing out

Writing replies is steady: it changes the sending part of a connection, its
registration and the send queue. Handling a message is neutral, since a heartbeat
writes the time the timer thread looks at. The timer thread is quiet except where it
marks a connection.
-/

namespace MyNginx

open Foundation

namespace State

variable {s s' t : State} {c d : ConnId} {env : Env} {msg : Message} {reply : Reply}

/-- Changing members that neither the pool nor the timer thread looks at. -/
theorem steady_modifyConn {f : Connection → Connection}
    (hf : ∀ conn, (f conn).link = conn.link ∧ (f conn).life = conn.life) :
    Steady s (s.modifyConn c f) := by
  refine ⟨neutral_modifyConn fun conn => (hf conn).1, fun d => ?_⟩
  by_cases hd : d = c
  · simp [hd, (hf (s.conn c)).2]
  · simp [hd]

/-- Taking replies off the send queue, and its counters. -/
theorem steady_sendQueue (queue : SendQueue)
    (h : ∀ reply ∈ queue.sendMsgList, reply ∈ s.sendMsgList) :
    Steady s { s with toSendQueue := queue } :=
  ⟨.of_same rfl rfl rfl (fun _ => rfl) rfl (fun h => h.blocks) (fun h => h.queue)
    (fun hf reply hr => hf.replies reply (h reply hr)) id, fun _ => rfl⟩

theorem steady_semPost : Steady s s.semPost := steady_sendQueue _ fun _ h => h

/-- Two objects of the pool never share a descriptor. -/
theorem Inv.owner_unique (inv : s.Inv) (hc : c ∈ s.connectionList) (hd : d ∈ s.connectionList)
    {fd : Fd} (hfd : fd ≠ -1) (hcfd : (s.conn c).fd = fd) (hdfd : (s.conn d).fd = fd) : c = d := by
  have hhandle : ∀ a, (s.conn a).fd = fd → s.handle a = some fd := by
    intro a ha
    rw [handle, if_neg (by rwa [ha]), ha]
  exact inv.pool.injective c hc d hd fd (hhandle c hcfd) (hhandle d hdfd)

/-- Modifying the registration of a connection that has been accepted. -/
theorem steady_epollMod (inv : s.Inv) (used : s.Used c) {eventType : Mask} {bcaction : Int}
    {ok : Bool} : Steady s (s.epollOperEvent (s.conn c).fd .mod eventType bcaction c ok).1 := by
  have hmodify : Steady s (s.modifyConn c fun conn => { conn with
      events := operMask (s.conn c).events .mod eventType bcaction }) :=
    steady_modifyConn fun _ => ⟨rfl, rfl⟩
  simp only [epollOperEvent, reduceCtorEq, if_false]
  split
  next s'' hctl =>
    simp only [epollCtl] at hctl
    split at hctl
    next hok =>
      obtain rfl := Option.some.inj hctl
      simp only [Bool.and_eq_true, modifyConn_toKernel] at hok
      obtain ⟨⟨-, hopen⟩, hregistered⟩ := hok
      refine hmodify.trans ⟨⟨rfl, rfl, rfl, rfl, rfl, fun _ => rfl, ?_, fun h => ⟨h.blocks,
        h.queue, h.replies⟩, id⟩, fun _ => rfl⟩
      intro fd m d hm
      by_cases hfd : fd = (s.conn c).fd
      · subst hfd
        simp only [reduceCtorEq, if_false, Function.update_self, Option.some.injEq,
          Prod.mk.injEq] at hm
        obtain ⟨-, rfl⟩ := hm
        have hfd : (s.conn c).fd ≠ -1 := fun he => by
          have hnonneg := inv.wired.nonneg _ hopen
          rw [he] at hnonneg
          exact absurd hnonneg (by decide)
        cases hold : s.interest (s.conn c).fd with
        | none => simp [hold] at hregistered
        | some owner =>
            obtain ⟨m', c'⟩ := owner
            obtain ⟨hfd', hobject, -⟩ := inv.wired.interest _ _ _ hold
            obtain rfl := inv.owner_unique (inv.wired.used c used).1 hobject hfd rfl hfd'
            exact ⟨m', hold, .inr used⟩
      · simp only [Function.update_of_ne hfd] at hm
        exact ⟨m, hm, .inl rfl⟩
    next => cases hctl
  next => exact hmodify

/-- Sending writes to the wire and to nothing else. -/
theorem steady_sendproc {buf : Option SendBuf} {len : Nat} {answers : List SendAnswer}
    {r : Option Nat} (h : s.sendproc c buf len answers = some (s', r)) : Steady s s' := by
  induction answers with
  | nil => cases h
  | cons answer answers ih =>
      simp only [sendproc] at h
      split at h
      · split at h
        · obtain ⟨p, -, h⟩ := Option.bind_eq_some_iff.mp h
          split at h
          · obtain ⟨rfl, -⟩ := Prod.mk.inj (Option.some.inj h)
            exact ⟨.of_same rfl rfl rfl (fun _ => rfl) rfl (fun h => h.blocks)
              (fun h => h.queue) (fun h => h.replies) id, fun _ => rfl⟩
          · cases h
        · obtain ⟨rfl, -⟩ := Prod.mk.inj (Option.some.inj h)
          exact .refl s
        · exact ih h
        · obtain ⟨rfl, -⟩ := Prod.mk.inj (Option.some.inj h)
          exact .refl s
        · obtain ⟨rfl, -⟩ := Prod.mk.inj (Option.some.inj h)
          exact .refl s
      · obtain ⟨rfl, -⟩ := Prod.mk.inj (Option.some.inj h)
        exact .refl s

/-- A well-formed packet without a body and with the command code `code`. -/
def Heartbeat (code : Nat) (msg : Message) : Prop :=
  pkgLen msg.buf = pkgHeaderLen ∧ msgCode msg.buf = code ∧ crc32 msg.buf = 0

instance (code : Nat) (msg : Message) : Decidable (Heartbeat code msg) :=
  inferInstanceAs (Decidable (_ ∧ _ ∧ _))

/-- What handling a message comes to: at most the handler of its code answers it,
and only while its connection is current. -/
inductive Processed (s : State) (msg : Message) (now : Time) : State × Option Reply → Prop
  | dropped (silent : (s.conn msg.head.lpCurconn).judgeOutdate msg.head.msgCursequence = true →
      ¬ Heartbeat 0 msg) : Processed s msg now (s, none)
  | heartbeat {reply : Reply}
      (current : (s.conn msg.head.lpCurconn).judgeOutdate msg.head.msgCursequence = true)
      (beat : Heartbeat 0 msg) (answers : reply.head = msg.head ∧ reply.origin = msg.origin) :
      Processed s msg now ((s.modifyConn msg.head.lpCurconn fun conn =>
        { conn with pingUpdateTime := now }).supposeSend reply, some reply)
  | answered {reply : Reply}
      (current : (s.conn msg.head.lpCurconn).judgeOutdate msg.head.msgCursequence = true)
      (code : msgCode msg.buf = 5 ∨ msgCode msg.buf = 6)
      (answers : reply.head = msg.head ∧ reply.origin = msg.origin) :
      Processed s msg now (s.supposeSend reply, some reply)

/-- The entries of the dispatch table. -/
theorem mem_statusHandleset {handler : State → Message → Time → State × Option Reply} {code : Nat}
    (h : statusHandleset[code]? = some (some handler)) :
    code = 0 ∧ handler = handlePing ∨ code = 5 ∧ handler = handleRegister ∨
      code = 6 ∧ handler = handleLogin := by
  match code with
  | 0 => exact .inl ⟨rfl, (Option.some.inj (Option.some.inj h)).symm⟩
  | 1 | 2 | 3 | 4 => cases h
  | 5 => exact .inr (.inl ⟨rfl, (Option.some.inj (Option.some.inj h)).symm⟩)
  | 6 => exact .inr (.inr ⟨rfl, (Option.some.inj (Option.some.inj h)).symm⟩)
  | n + 7 => cases h

/-- A structure is answered with a reply that has the message header of the request. -/
theorem handleStruct_cases {lenStruct : Nat} (cmd : Nat) (hlen : lenStruct < 65528) (now : Time)
    (s : State) (msg : Message) :
    handleStruct lenStruct cmd hlen s msg now = (s, none) ∨
      ∃ reply : Reply, (reply.head = msg.head ∧ reply.origin = msg.origin) ∧
        handleStruct lenStruct cmd hlen s msg now = (s.supposeSend reply, some reply) := by
  simp only [handleStruct]
  split
  · exact .inl rfl
  split
  · exact .inl rfl
  · exact .inr ⟨_, ⟨rfl, rfl⟩, rfl⟩

theorem handlePing_processed {now : Time}
    (current : (s.conn msg.head.lpCurconn).judgeOutdate msg.head.msgCursequence = true)
    (code : msgCode msg.buf = 0)
    (crc : ¬ ((pkgLen msg.buf + 65536 - pkgHeaderLen) % 65536 = 0 ∧ crc32 msg.buf ≠ 0)) :
    Processed s msg now (handlePing s msg now) := by
  simp only [handlePing]
  split
  next hnot =>
    refine .dropped fun _ hbeat => hnot ?_
    rw [hbeat.1]
    decide
  next hping =>
    have hempty : pkgLen msg.buf = pkgHeaderLen := by
      simp only [lenStructPing, not_not] at hping
      omega
    have hzero : crc32 msg.buf = 0 := by
      by_contra hne
      refine crc ⟨?_, hne⟩
      rw [hempty]
      decide
    exact .heartbeat current ⟨hempty, code, hzero⟩ ⟨rfl, rfl⟩

theorem handleStruct_processed {lenStruct cmd : Nat} (hlen : lenStruct < 65528) {now : Time}
    (current : (s.conn msg.head.lpCurconn).judgeOutdate msg.head.msgCursequence = true)
    (code : msgCode msg.buf = 5 ∨ msgCode msg.buf = 6) :
    Processed s msg now (handleStruct lenStruct cmd hlen s msg now) := by
  have hsilent : ¬ Heartbeat 0 msg := fun hbeat => by
    have hcode := hbeat.2.1
    omega
  rcases handleStruct_cases cmd hlen now s msg
    with hnone | ⟨reply, hanswers, hsome⟩
  · rw [hnone]
    exact .dropped fun _ => hsilent
  · rw [hsome]
    exact .answered current code hanswers

theorem threadRecvProc_processed (s : State) (msg : Message) (now : Time) :
    Processed s msg now (s.threadRecvProc msg now) := by
  have hlen := pkgLen_lt msg.buf
  simp only [threadRecvProc]
  split
  next houtdated =>
    refine .dropped fun hcurrent => ?_
    rw [houtdated] at hcurrent
    cases hcurrent
  next hcurrent =>
  have hcurrent : (s.conn msg.head.lpCurconn).judgeOutdate msg.head.msgCursequence = true := by
    simpa using hcurrent
  split
  next hcrc => exact .dropped fun _ hbeat => hcrc.2 hbeat.2.2
  next hcrc =>
  split
  next hbody =>
    refine .dropped fun _ hbeat => hbody.1 ?_
    rw [hbeat.1]
    decide
  next hbody =>
  split
  next handler hget =>
    rcases mem_statusHandleset hget with ⟨hcode, rfl⟩ | ⟨hcode, rfl⟩ | ⟨hcode, rfl⟩
    · exact handlePing_processed hcurrent hcode hcrc
    · exact handleStruct_processed _ hcurrent (.inl hcode)
    · exact handleStruct_processed _ hcurrent (.inr hcode)
  next hnone =>
    refine .dropped fun _ hbeat => hnone handlePing ?_
    rw [hbeat.2.1]
    rfl

/-- The receive queue without its first message. -/
@[simps toBlocks toPool toSendQueue toTimerQueue toKernel conf conn history]
def behind (s : State) (rest : List (Option Message)) : State :=
  { s with msgqueue := rest, msgqueueSize := s.msgqueueSize - 1 }

/-- What taking and handling one message comes to. -/
inductive Took (s : State) (now : Time) : State → Option Reply → Prop
  | null {rest : List (Option Message)} (queue : s.msgqueue = none :: rest) :
      Took s now (s.behind rest) none
  | message {msg : Message} {rest : List (Option Message)} {s' : State} {r : Option Reply}
      (queue : s.msgqueue = some msg :: rest)
      (processed : Processed (s.behind rest) msg now (s', r)) : Took s now s' r

theorem takeMessage_took {now : Time} {r : Option Reply}
    (h : s.takeMessage now = some (s', r)) : Took s now s' r := by
  simp only [takeMessage, getMsgItem] at h
  split at h
  · cases h
  cases hqueue : s.msgqueue with
  | nil => contradiction
  | cons first rest =>
      cases first with
      | none =>
          simp only [hqueue, Option.some.injEq, Prod.mk.injEq] at h
          obtain ⟨rfl, rfl⟩ := h
          exact .null hqueue
      | some msg =>
          simp only [hqueue, Option.some.injEq] at h
          refine .message hqueue ?_
          rw [← h]
          exact threadRecvProc_processed _ _ _

theorem steady_behind {rest : List (Option Message)} (h : ∀ msg ∈ rest, msg ∈ s.msgqueue) :
    Steady s (s.behind rest) :=
  ⟨.of_same rfl rfl rfl (fun _ => rfl) rfl (fun h => h.blocks)
    (fun hf msg hm => hf.queue msg (h _ hm)) (fun h => h.replies) id, fun _ => rfl⟩

theorem steady_supposeSend : Steady s (s.supposeSend reply) := steady_modifyConn fun _ => ⟨rfl, rfl⟩

theorem Processed.neutral {now : Time} {r : Option Reply} (h : Processed s msg now (s', r)) :
    Neutral s s' := by
  cases h with
  | dropped silent => exact .refl s
  | heartbeat current beat answers =>
      have hping : Neutral s (s.modifyConn msg.head.lpCurconn fun conn =>
          { conn with pingUpdateTime := now }) := neutral_modifyConn fun _ => rfl
      exact hping.trans steady_supposeSend.toNeutral
  | answered current code answers => exact steady_supposeSend.toNeutral

theorem Processed.answers {now : Time} (h : Processed s msg now (s', some reply)) :
    reply.head = msg.head ∧ reply.origin = msg.origin := by
  cases h with
  | heartbeat current beat answers => exact answers
  | answered current code answers => exact answers

theorem Took.neutral {now : Time} {r : Option Reply} (h : Took s now s' r) : Neutral s s' := by
  have hbehind : ∀ {first rest}, s.msgqueue = first :: rest → Neutral s (s.behind rest) := by
    intro first rest hqueue
    refine (steady_behind fun msg hm => ?_).toNeutral
    rw [hqueue]
    exact List.mem_cons_of_mem _ hm
  cases h with
  | null queue => exact hbehind queue
  | message queue processed => exact (hbehind queue).trans processed.neutral

/-- A worker's reply answers a message of the receive queue. -/
theorem Took.stamped {now : Time} (h : Took s now s' (some reply)) (inv : s.Inv) :
    s.Stamped reply.head reply.origin := by
  cases h with
  | message queue processed =>
      rename_i msg rest
      obtain ⟨hhead, horigin⟩ := processed.answers
      rw [hhead, horigin]
      exact inv.flight.queue msg (by simp [queue])

/-- Queueing a stamped reply. -/
theorem steady_pushSend (stamped : s.Stamped reply.head reply.origin) :
    Steady s (s.pushSend reply) := by
  refine ⟨.of_same rfl rfl rfl (fun _ => rfl) rfl (fun h => h.blocks) (fun h => h.queue) ?_ id,
    fun _ => rfl⟩
  intro hf r hr
  rcases List.mem_append.mp hr with hr | hr
  · exact hf.replies r hr
  · obtain rfl := List.mem_singleton.mp hr
    exact stamped

theorem steady_lockSend {thread : Thread} : Steady s (s.lockSend thread) :=
  steady_sendQueue { s.toSendQueue with sendmutex := some thread } fun _ h => h

theorem steady_unlockSend : Steady s s.unlockSend :=
  steady_sendQueue { s.toSendQueue with sendmutex := none } fun _ h => h

theorem steady_countConn : Steady s (s.countConn reply) := steady_modifyConn fun _ => ⟨rfl, rfl⟩

theorem steady_countTotal : Steady s s.countTotal :=
  steady_sendQueue { s.toSendQueue with msgtosendCount := s.msgtosendCount + 1 }
    fun _ h => h

/-- `MsgSendInQueue` drops a reply with the mutex held, or it queues the reply. -/
theorem eq_of_msgSendInQueue {thread : Thread} (h : s.msgSendInQueue thread reply = some s') :
    s' = s.lockSend thread ∨
      s' = (((s.lockSend thread).pushSend reply).unlockSend.countConn reply).countTotal.semPost := by
  simp only [msgSendInQueue] at h
  split at h
  · cases h
  split at h
  · exact .inl (Option.some.inj h).symm
  · exact .inr (Option.some.inj h).symm

theorem steady_msgSendInQueue {thread : Thread} (stamped : s.Stamped reply.head reply.origin)
    (h : s.msgSendInQueue thread reply = some s') : Steady s s' := by
  obtain rfl | rfl := eq_of_msgSendInQueue h
  · exact steady_lockSend
  · exact ((((steady_lockSend.trans (steady_pushSend stamped)).trans steady_unlockSend).trans
      steady_countConn).trans steady_countTotal).trans steady_semPost

/-- Changing the timer queue, with entries and headers that were there before. -/
theorem quiet_timerQueue (queue : TimerQueue)
    (entries : ∀ entry ∈ queue.timermap, ∃ old ∈ s.timermap, old.2 = entry.2)
    (heads : ∀ head ∈ timerHeads queue.timer,
      (∃ old ∈ s.timermap, old.2 = head) ∨ head ∈ timerHeads s.timer) :
    Quiet s { s with toTimerQueue := queue } := by
  refine ⟨⟨.of_same rfl rfl rfl (fun _ => rfl) rfl (fun h => h.blocks) (fun h => h.queue)
    (fun h => h.replies) ?_, fun _ => rfl⟩, fun _ => rfl, rfl, rfl, rfl⟩
  rintro ⟨hmap, hheads⟩
  constructor
  · intro entry hentry
    obtain ⟨old, hold, he⟩ := entries entry hentry
    rw [← he]
    exact hmap old hold
  · intro head hhead
    rcases heads head hhead with ⟨old, hold, rfl⟩ | hold
    · exact hmap old hold
    · exact hheads head hold

/-- Entries of a timer queue with headers that were in another one before. -/
def TimersFrom (q q' : TimerQueue) : Prop :=
  q'.timer = q.timer ∧ ∀ entry ∈ q'.timermap, ∃ old ∈ q.timermap, old.2 = entry.2

theorem TimersFrom.refl (q : TimerQueue) : TimersFrom q q := ⟨rfl, fun entry h => ⟨entry, h, rfl⟩⟩

theorem TimersFrom.trans {q q' q'' : TimerQueue} (h : TimersFrom q q') (h' : TimersFrom q' q'') :
    TimersFrom q q'' := by
  refine ⟨h'.1.trans h.1, fun entry hentry => ?_⟩
  obtain ⟨mid, hmid, hme⟩ := h'.2 entry hentry
  obtain ⟨old, hold, hom⟩ := h.2 mid hmid
  exact ⟨old, hold, hom.trans hme⟩

@[simp] theorem setTimerValue_timermap (q : TimerQueue) :
    q.setTimerValue.timermap = q.timermap := by
  simp only [TimerQueue.setTimerValue]
  split <;> rfl

@[simp] theorem setTimerValue_timer (q : TimerQueue) : q.setTimerValue.timer = q.timer := by
  simp only [TimerQueue.setTimerValue]
  split <;> rfl

@[simp] theorem refreshTimerValue_timermap (q : TimerQueue) :
    q.refreshTimerValue.timermap = q.timermap := by
  simp only [TimerQueue.refreshTimerValue]
  split <;> simp

@[simp] theorem refreshTimerValue_timer (q : TimerQueue) : q.refreshTimerValue.timer = q.timer := by
  simp only [TimerQueue.refreshTimerValue]
  split <;> simp

theorem getOverTime_spec (q : TimerQueue) (waittime : Int) (time : Time) :
    TimersFrom q (q.getOverTime waittime time).1 ∧
      ∀ head, (q.getOverTime waittime time).2 = some head → ∃ old ∈ q.timermap, old.2 = head := by
  simp only [TimerQueue.getOverTime]
  split
  · exact ⟨.refl q, fun _ h => by cases h⟩
  next entry rest hmap =>
    split
    · exact ⟨.refl q, fun _ h => by cases h⟩
    split
    · refine ⟨⟨by simp [TimerQueue.removeTimerFrist], fun e he => ?_⟩, fun head hhead => ?_⟩
      · simp only [refreshTimerValue_timermap, TimerQueue.mem_insertTimer,
          TimerQueue.removeTimerFrist] at he
        rcases he with rfl | he
        · exact ⟨entry, by simp [hmap], rfl⟩
        · exact ⟨e, by simp [hmap, he], rfl⟩
      · obtain rfl := Option.some.inj hhead
        exact ⟨entry, by simp [hmap], rfl⟩
    · exact ⟨.refl q, fun _ h => by cases h⟩

theorem collectOverTime_spec {q q' : TimerQueue} {waittime : Int} {curTime : Time} {fuel : Nat}
    {due : List MsgHeader} (h : q.collectOverTime waittime curTime fuel = some (q', due)) :
    TimersFrom q q' ∧ ∀ head ∈ due, ∃ old ∈ q.timermap, old.2 = head := by
  induction fuel generalizing q due with
  | zero => cases h
  | succ fuel ih =>
      simp only [TimerQueue.collectOverTime] at h
      have hspec := getOverTime_spec q waittime curTime
      cases hget : q.getOverTime waittime curTime with
      | mk next r =>
          rw [hget] at h hspec
          cases r with
          | none =>
              obtain ⟨rfl, rfl⟩ := Prod.mk.inj (Option.some.inj h)
              exact ⟨hspec.1, fun _ h => by cases h⟩
          | some head =>
              obtain ⟨⟨last, later⟩, hrest, heq⟩ := Option.map_eq_some_iff.mp h
              obtain ⟨rfl, rfl⟩ := Prod.mk.inj heq
              obtain ⟨hfrom, hdue⟩ := ih hrest
              refine ⟨hspec.1.trans hfrom, fun a ha => ?_⟩
              rcases List.mem_cons.mp ha with rfl | ha
              · exact hspec.2 a rfl
              · obtain ⟨mid, hmid, rfl⟩ := hdue a ha
                exact hspec.1.2 mid hmid

theorem deleteFromTimerQueue_spec (q : TimerQueue) (head : MsgHeader) :
    TimersFrom q (q.deleteFromTimerQueue head) := by
  simp only [TimerQueue.deleteFromTimerQueue]
  split
  · exact .refl q
  · refine ⟨by simp, fun entry hentry => ⟨entry, ?_, rfl⟩⟩
    simp only [refreshTimerValue_timermap, List.mem_filter] at hentry
    exact hentry.1

theorem quiet_setTimer {queue : TimerQueue} {timer : TimerPc}
    (entries : TimersFrom s.toTimerQueue queue)
    (heads : ∀ head ∈ timerHeads timer,
      (∃ old ∈ s.timermap, old.2 = head) ∨ head ∈ timerHeads s.timer) :
    Quiet s (s.setTimer queue timer) :=
  quiet_timerQueue { queue with timer } entries.2 heads

/-! What the steps of the timer thread come to. -/

theorem timerBegin_cases {curTime : Time} (h : s.timerBegin curTime = some s') :
    s.timer = .idle ∧ (s' = s ∨ ∃ queue due,
      s.toTimerQueue.collectOverTime s.conf.waittime curTime (s.timermap.length + 1) =
        some (queue, due) ∧ s' = s.setTimer queue (.examining due curTime)) := by
  simp only [timerBegin] at h
  split at h
  · cases h
  next hready =>
    have hidle : s.timer = .idle := by
      by_contra hne
      exact hready (.inl hne)
    split at h
    · obtain rfl := Option.some.inj h
      exact ⟨hidle, .inl rfl⟩
    · obtain ⟨⟨queue, due⟩, hcollect, rfl⟩ := Option.map_eq_some_iff.mp h
      exact ⟨hidle, .inr ⟨queue, due, hcollect, rfl⟩⟩

/-- The next collected entry is outdated, silent for too long, or neither. -/
inductive Inspects (s : State) : State → Prop
  | finished {curTime : Time} (timer : s.timer = .examining [] curTime) :
      Inspects s (s.setTimer s.toTimerQueue .idle)
  | outdated {head : MsgHeader} {due : List MsgHeader} {curTime : Time}
      (timer : s.timer = .examining (head :: due) curTime)
      (outdated : (s.conn head.lpCurconn).judgeOutdate head.msgCursequence = false) :
      Inspects s (s.setTimer (s.toTimerQueue.deleteFromTimerQueue head) (.examining due curTime))
  | silent {head : MsgHeader} {due : List MsgHeader} {curTime : Time}
      (timer : s.timer = .examining (head :: due) curTime)
      (current : (s.conn head.lpCurconn).judgeOutdate head.msgCursequence = true)
      (silent : curTime - (s.conn head.lpCurconn).pingUpdateTime > 3 * s.conf.waittime) :
      Inspects s ((s.modifyConn head.lpCurconn fun conn =>
        { conn with istimeout := true }).setTimer s.toTimerQueue (.marked head due curTime))
  | heard {head : MsgHeader} {due : List MsgHeader} {curTime : Time}
      (timer : s.timer = .examining (head :: due) curTime)
      (current : (s.conn head.lpCurconn).judgeOutdate head.msgCursequence = true) :
      Inspects s (s.setTimer s.toTimerQueue (.examining due curTime))

theorem timeCheckingProc_cases (h : s.timeCheckingProc = some s') : Inspects s s' := by
  simp only [timeCheckingProc] at h
  split at h
  next curTime htimer =>
    obtain rfl := Option.some.inj h
    exact .finished htimer
  next head due curTime htimer =>
    split at h
    next houtdated =>
      obtain rfl := Option.some.inj h
      exact .outdated htimer houtdated
    next hcurrent =>
    split at h
    · cases h
    split at h
    next hsilent =>
      obtain rfl := Option.some.inj h
      exact .silent htimer (by simpa using hcurrent) hsilent
    next =>
      obtain rfl := Option.some.inj h
      exact .heard htimer (by simpa using hcurrent)
  next => cases h

theorem timeOutDelete_cases (h : s.timeOutDelete = some s') :
    ∃ head due curTime, s.timer = .marked head due curTime ∧
      s' = s.setTimer (s.toTimerQueue.deleteFromTimerQueue head) (.deleted head due curTime) := by
  simp only [timeOutDelete] at h
  split at h
  next head due curTime htimer =>
    obtain rfl := Option.some.inj h
    exact ⟨head, due, curTime, htimer, rfl⟩
  next => cases h

theorem quiet_timerBegin {curTime : Time} (h : s.timerBegin curTime = some s') :
    Quiet s s' := by
  rcases (timerBegin_cases h).2 with rfl | ⟨queue, due, hcollect, rfl⟩
  · exact .refl s'
  · obtain ⟨hfrom, hdue⟩ := collectOverTime_spec hcollect
    exact quiet_setTimer hfrom fun head hhead => .inl (hdue head hhead)

/-- An examination is quiet, or it marks a current connection that was silent for
too long. -/
inductive Checks (s : State) : State → Prop
  | quiet {s' : State} (h : Quiet s s') : Checks s s'
  | mark {head : MsgHeader} {due : List MsgHeader} {curTime : Time}
      (timer : s.timer = .examining (head :: due) curTime)
      (current : (s.conn head.lpCurconn).judgeOutdate head.msgCursequence = true)
      (silent : curTime - (s.conn head.lpCurconn).pingUpdateTime > 3 * s.conf.waittime) :
      Checks s ((s.modifyConn head.lpCurconn fun conn => { conn with istimeout := true }).setTimer
        s.toTimerQueue (.marked head due curTime))

theorem timeCheckingProc_checks (h : s.timeCheckingProc = some s') : Checks s s' := by
  have hheads : ∀ {head due curTime}, s.timer = .examining (head :: due) curTime →
      ∀ a ∈ due, a ∈ timerHeads s.timer := by
    intro head due curTime htimer a ha
    rw [htimer]
    exact List.mem_cons_of_mem _ ha
  cases timeCheckingProc_cases h with
  | finished => exact .quiet (quiet_setTimer (.refl _) fun _ h => by cases h)
  | outdated htimer =>
      exact .quiet (quiet_setTimer (deleteFromTimerQueue_spec _ _) fun a ha =>
        .inr (hheads htimer a ha))
  | silent htimer hcurrent hsilent => exact .mark htimer hcurrent hsilent
  | heard htimer =>
      exact .quiet (quiet_setTimer (.refl _) fun a ha => .inr (hheads htimer a ha))

theorem Checks.neutral (h : Checks s s') : Neutral s s' := by
  cases h with
  | quiet h => exact h.toNeutral
  | mark timer current silent =>
      rename_i head due curTime
      have hmark : Neutral s (s.modifyConn head.lpCurconn fun conn =>
          { conn with istimeout := true }) := neutral_modifyConn fun _ => rfl
      refine hmark.trans (quiet_setTimer (.refl _) fun a ha => .inr ?_).toNeutral
      rw [modifyConn_toTimerQueue, timer]
      exact ha

theorem quiet_timeOutDelete (h : s.timeOutDelete = some s') : Quiet s s' := by
  obtain ⟨head, due, curTime, htimer, rfl⟩ := timeOutDelete_cases h
  refine quiet_setTimer (deleteFromTimerQueue_spec _ _) fun a ha => .inr ?_
  rw [htimer]
  exact ha

end State

end MyNginx
