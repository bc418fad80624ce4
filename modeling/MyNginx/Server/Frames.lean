import MyNginx.Server.Boot

/-!
# Footprints

What a handler may change, as one equation: the state afterwards is the state before
with other values in the members listed. Everything that is not listed is unchanged,
which `simp` reads off the equation.
-/

namespace MyNginx

open Foundation

namespace State

variable {s s' t : State} {c d : ConnId} {env : Env}

/-- Only the receive part of `c`, blocks and the receive queue differ. -/
def ReceiveOnly (c : ConnId) (s s' : State) : Prop :=
  ∃ (blocks : Blocks) (queue : ReceiveQueue) (incoming : Incoming), s' =
    { s with
      toBlocks := blocks
      toReceiveQueue := queue
      conn := Function.update s.conn c { s.conn c with toIncoming := incoming } }

theorem ReceiveOnly.refl (c : ConnId) (s : State) : ReceiveOnly c s s :=
  ⟨s.toBlocks, s.toReceiveQueue, (s.conn c).toIncoming, by rw [Function.update_eq_self]⟩

theorem ReceiveOnly.trans (h : ReceiveOnly c s t) (h' : ReceiveOnly c t s') :
    ReceiveOnly c s s' := by
  obtain ⟨blocks, queue, incoming, rfl⟩ := h
  obtain ⟨blocks', queue', incoming', rfl⟩ := h'
  exact ⟨blocks', queue', incoming', by simp [Function.update_idem]⟩

theorem receiveOnly_blocks {blocks : Blocks} : ReceiveOnly c s { s with toBlocks := blocks } :=
  ⟨blocks, s.toReceiveQueue, (s.conn c).toIncoming, by rw [Function.update_eq_self]⟩

theorem receiveOnly_modifyConn {f : Connection → Connection}
    (hf : ∀ conn, ∃ incoming, f conn = { conn with toIncoming := incoming }) :
    ReceiveOnly c s (s.modifyConn c f) := by
  obtain ⟨incoming, hincoming⟩ := hf (s.conn c)
  exact ⟨s.toBlocks, s.toReceiveQueue, incoming, by rw [modifyConn, hincoming]⟩

theorem receiveOnly_forgetMsgrecv : ReceiveOnly c s (s.forgetMsgrecv c) := ⟨_, _, _, rfl⟩

theorem receiveOnly_store {buf : RecvBuf} {bytes : List UInt8}
    (h : s.store buf bytes = some s') : ReceiveOnly c s s' := by
  cases buf with
  | null => cases h
  | header p =>
      obtain ⟨memory, -, rfl⟩ := Option.map_eq_some_iff.mp h
      exact receiveOnly_blocks
  | message p =>
      obtain ⟨messages, -, rfl⟩ := Option.map_eq_some_iff.mp h
      exact receiveOnly_blocks

theorem receiveOnly_freeMemory {b : Option Nat} (h : s.freeMemory b = some s') :
    ReceiveOnly c s s' := by
  cases b with
  | none =>
      obtain rfl := Option.some.inj h
      exact .refl c s
  | some b =>
      obtain ⟨memory, -, rfl⟩ := Option.map_eq_some_iff.mp h
      exact receiveOnly_blocks

theorem receiveOnly_inMsgRecv (msg : Option Message) : ReceiveOnly c s (s.inMsgRecv msg) :=
  ⟨_, _, (s.conn c).toIncoming, by rw [Function.update_eq_self]; rfl⟩

theorem receiveOnly_pkgBodyProc (h : s.pkgBodyProc c = some s') : ReceiveOnly c s s' := by
  simp only [pkgBodyProc] at h
  obtain ⟨t, ht, rfl⟩ := Option.map_eq_some_iff.mp h
  have hqueue := receiveOnly_inMsgRecv (c := c) (s := s) ((s.conn c).pMsgrecv.bind s.messages.get)
  have hmodify := hqueue.trans (receiveOnly_modifyConn (c := c)
    (f := fun conn => { conn with pRecvbuf := .null }) fun _ => ⟨_, rfl⟩)
  have hfree := (hmodify.trans receiveOnly_forgetMsgrecv).trans (receiveOnly_freeMemory ht)
  exact hfree.trans ⟨_, _, _, rfl⟩

theorem receiveOnly_pkgHeaderProc (h : s.pkgHeaderProc c = some s') : ReceiveOnly c s s' := by
  simp only [pkgHeaderProc] at h
  obtain ⟨b, -, h⟩ := Option.bind_eq_some_iff.mp h
  obtain ⟨header, -, h⟩ := Option.bind_eq_some_iff.mp h
  have halloc : ∀ n, ReceiveOnly c s (s.allocMessage c header n) := fun n => ⟨_, _, _, rfl⟩
  split at h
  · obtain ⟨t, ht, rfl⟩ := Option.map_eq_some_iff.mp h
    exact (receiveOnly_freeMemory ht).trans (receiveOnly_modifyConn fun _ => ⟨_, rfl⟩)
  · split at h
    · exact (halloc _).trans (receiveOnly_pkgBodyProc h)
    · obtain rfl := Option.some.inj h
      exact (halloc _).trans (receiveOnly_modifyConn fun _ => ⟨_, rfl⟩)

/-- Closing commutes with changes of the receive part. -/
theorem ReceiveOnly.afterClose (h : ReceiveOnly c s t) (now : Time) :
    ReceiveOnly c (s.afterClose c now) (t.afterClose c now) := by
  obtain ⟨blocks, queue, incoming, rfl⟩ := h
  exact ⟨blocks, queue, incoming, by simp [State.afterClose, closeFd, retire, enqueueRecy]⟩

/-- A read changes the receive part, or it closes the connection as well. -/
inductive ReadFrame (c : ConnId) (now : Time) (s s' : State) : Prop
  | stays (h : ReceiveOnly c s s')
  | closes (opened : (s.conn c).fd ≠ -1) (h : ReceiveOnly c (s.afterClose c now) s')

namespace ReadFrame

variable {now : Time}

theorem after (h : ReadFrame c now s s') (hr : ReceiveOnly c s' t) : ReadFrame c now s t := by
  cases h with
  | stays h => exact .stays (h.trans hr)
  | closes opened h => exact .closes opened (h.trans hr)

theorem before (hr : ReceiveOnly c s t) (h : ReadFrame c now t s') : ReadFrame c now s s' := by
  cases h with
  | stays h => exact .stays (hr.trans h)
  | closes opened h =>
      refine .closes ?_ ((hr.afterClose now).trans h)
      obtain ⟨blocks, queue, incoming, rfl⟩ := hr
      simpa using opened

end ReadFrame

/-- The object is in no list of the pool while it is open. -/
def Idle (s : State) (c : ConnId) : Prop :=
  (s.conn c).fd ≠ -1 → (s.conn c).inrecyList = 0 ∧ c ∉ s.recyConnectionList

theorem Idle.receiveOnly (idle : s.Idle c) (h : ReceiveOnly c s t) : t.Idle c := by
  obtain ⟨blocks, queue, incoming, rfl⟩ := h
  simpa [Idle] using idle

theorem closeAcceptedConnection_frame {istimeoutClose : Bool} (idle : s.Idle c)
    (h : s.closeAcceptedConnection c istimeoutClose env = some s') :
    ReadFrame c env.now s s' := by
  rcases closeAcceptedConnection_cases idle h with ⟨rfl, -⟩ | ⟨hfd, rfl⟩
  · exact .stays (.refl c s')
  · exact .closes hfd (.refl c _)

theorem recvproc_frame (idle : s.Idle c) {buf : RecvBuf} {len : Nat} {r : Option Nat}
    (h : s.recvproc c buf len env = some (s', r)) : ReadFrame c env.now s s' := by
  simp only [recvproc] at h
  split at h
  · cases h
  · obtain ⟨t, ht, heq⟩ := Option.map_eq_some_iff.mp h
    obtain ⟨rfl, -⟩ := Prod.mk.inj heq
    exact .stays (receiveOnly_store ht)
  · obtain ⟨rfl, -⟩ := Prod.mk.inj (Option.some.inj h)
    exact .stays (.refl c s)
  · obtain ⟨rfl, -⟩ := Prod.mk.inj (Option.some.inj h)
    exact .stays (.refl c s)
  · obtain ⟨t, ht, heq⟩ := Option.map_eq_some_iff.mp h
    obtain ⟨rfl, -⟩ := Prod.mk.inj heq
    exact closeAcceptedConnection_frame idle ht
  · obtain ⟨rfl, -⟩ := Prod.mk.inj (Option.some.inj h)
    exact .stays (.refl c s)
  · obtain ⟨rfl, -⟩ := Prod.mk.inj (Option.some.inj h)
    exact .stays (.refl c s)
  · obtain ⟨t, ht, heq⟩ := Option.map_eq_some_iff.mp h
    obtain ⟨rfl, -⟩ := Prod.mk.inj heq
    exact closeAcceptedConnection_frame idle ht

theorem pkgHeaderRecv_frame (idle : s.Idle c) {r : Option Nat}
    (h : s.pkgHeaderRecv c env = some (s', r)) : ReadFrame c env.now s s' := by
  simp only [pkgHeaderRecv] at h
  split at h
  · obtain ⟨rfl, -⟩ := Prod.mk.inj (Option.some.inj h)
    exact .stays (.refl c s)
  · split at h
    · cases h
    next hrecv =>
      obtain ⟨rfl, -⟩ := Prod.mk.inj (Option.some.inj h)
      exact recvproc_frame idle hrecv
    next hrecv =>
      obtain ⟨rfl, -⟩ := Prod.mk.inj (Option.some.inj h)
      exact (recvproc_frame idle hrecv).after (receiveOnly_modifyConn fun _ => ⟨_, rfl⟩)

theorem pkgBodyRecv_frame (idle : s.Idle c) {r : Option Nat}
    (h : s.pkgBodyRecv c env = some (s', r)) : ReadFrame c env.now s s' := by
  simp only [pkgBodyRecv] at h
  split at h
  · obtain ⟨t, ht, heq⟩ := Option.map_eq_some_iff.mp h
    obtain ⟨rfl, -⟩ := Prod.mk.inj heq
    exact .stays (receiveOnly_forgetMsgrecv.trans (receiveOnly_freeMemory ht))
  · split at h
    · cases h
    next hrecv =>
      obtain ⟨rfl, -⟩ := Prod.mk.inj (Option.some.inj h)
      exact (recvproc_frame idle hrecv).after receiveOnly_forgetMsgrecv
    next hrecv =>
      obtain ⟨rfl, -⟩ := Prod.mk.inj (Option.some.inj h)
      exact (recvproc_frame idle hrecv).after (receiveOnly_modifyConn fun _ => ⟨_, rfl⟩)

theorem receiveHeader_frame (idle : s.Idle c) (h : s.receiveHeader c env = some s') :
    ReadFrame c env.now s s' := by
  simp only [receiveHeader] at h
  split at h
  · cases h
  next hrecv =>
    obtain rfl := Option.some.inj h
    exact pkgHeaderRecv_frame idle hrecv
  next hrecv =>
    have hframe := pkgHeaderRecv_frame idle hrecv
    split at h
    · exact hframe.after (receiveOnly_pkgHeaderProc h)
    · obtain rfl := Option.some.inj h
      exact hframe.after (receiveOnly_modifyConn fun _ => ⟨_, rfl⟩)

theorem receiveBody_frame (idle : s.Idle c) (h : s.receiveBody c env = some s') :
    ReadFrame c env.now s s' := by
  simp only [receiveBody] at h
  split at h
  · cases h
  next hrecv =>
    obtain rfl := Option.some.inj h
    exact pkgBodyRecv_frame idle hrecv
  next hrecv =>
    have hframe := pkgBodyRecv_frame idle hrecv
    split at h
    · exact hframe.after (receiveOnly_pkgBodyProc h)
    · obtain rfl := Option.some.inj h
      exact hframe.after (receiveOnly_modifyConn fun _ => ⟨_, rfl⟩)

/-- A readable event changes the receive part of its connection, or closes it as well. -/
theorem readable_frame (idle : s.Idle c) (h : s.eventReadableRequestHandler c env = some s') :
    ReadFrame c env.now s s' := by
  simp only [eventReadableRequestHandler] at h
  split at h
  · have halloc : ReceiveOnly c s (s.allocHeader c) := ⟨_, _, _, rfl⟩
    exact .before halloc (receiveHeader_frame (idle.receiveOnly halloc) h)
  · split at h
    · obtain rfl := Option.some.inj h
      exact .stays (.refl c s)
    · exact receiveHeader_frame idle h
  · split at h
    · obtain rfl := Option.some.inj h
      exact .stays (.refl c s)
    · exact receiveBody_frame idle h
  · split at h
    · obtain rfl := Option.some.inj h
      exact .stays (.refl c s)
    · exact receiveBody_frame idle h

theorem ReadFrame.untouched {now : Time} (h : ReadFrame c now s s') :
    s'.toTimerQueue = s.toTimerQueue ∧ s'.history.use = s.history.use := by
  cases h with
  | stays h =>
      obtain ⟨blocks, queue, incoming, rfl⟩ := h
      exact ⟨rfl, rfl⟩
  | closes opened h =>
      obtain ⟨blocks, queue, incoming, rfl⟩ := h
      exact ⟨rfl, rfl⟩

/-- Only the sending part of `c`, registrations, the send queue and the wire differ. -/
def SendOnly (c : ConnId) (s s' : State) : Prop :=
  ∃ (queue : SendQueue) (interest : Fd → Option (Mask × ConnId)) (wire : List Written)
    (out : Outgoing) (events : Mask), s' =
    { s with
      toSendQueue := queue
      interest := interest
      history := { s.history with wire }
      conn := Function.update s.conn c { s.conn c with toOutgoing := out, events := events } }

theorem SendOnly.refl (c : ConnId) (s : State) : SendOnly c s s :=
  ⟨s.toSendQueue, s.interest, s.history.wire, (s.conn c).toOutgoing, (s.conn c).events, by
    rw [Function.update_eq_self]⟩

theorem SendOnly.trans (h : SendOnly c s t) (h' : SendOnly c t s') : SendOnly c s s' := by
  obtain ⟨queue, interest, wire, out, events, rfl⟩ := h
  obtain ⟨queue', interest', wire', out', events', rfl⟩ := h'
  exact ⟨queue', interest', wire', out', events', by simp [Function.update_idem]⟩

theorem sendOnly_queue (s : State) (queue : SendQueue) : SendOnly c s { s with toSendQueue := queue } :=
  ⟨queue, s.interest, s.history.wire, (s.conn c).toOutgoing, (s.conn c).events, by
    rw [Function.update_eq_self]⟩

theorem sendOnly_modifyConn {f : Connection → Connection}
    (hf : ∀ conn, ∃ out events, f conn = { conn with toOutgoing := out, events := events }) :
    SendOnly c s (s.modifyConn c f) := by
  obtain ⟨out, events, heq⟩ := hf (s.conn c)
  exact ⟨s.toSendQueue, s.interest, s.history.wire, out, events, by rw [modifyConn, heq]⟩

theorem sendOnly_epollMod {fd : Fd} {m : Mask} {k : Int} {ok : Bool} :
    SendOnly c s (s.epollOperEvent fd .mod m k c ok).1 := by
  have hmodify : SendOnly c s (s.modifyConn c fun conn =>
      { conn with events := operMask (s.conn c).events .mod m k }) :=
    sendOnly_modifyConn fun _ => ⟨_, _, rfl⟩
  simp only [epollOperEvent, reduceCtorEq, if_false]
  split
  next u hctl =>
    simp only [epollCtl] at hctl
    split at hctl
    · obtain rfl := Option.some.inj hctl
      exact ⟨_, _, _, _, _, rfl⟩
    · cases hctl
  next => exact hmodify

theorem sendOnly_sendproc {buf : Option SendBuf} {len : Nat} {answers : List SendAnswer}
    {r : Option Nat} (h : s.sendproc c buf len answers = some (s', r)) : SendOnly c s s' := by
  induction answers with
  | nil => cases h
  | cons answer answers ih =>
      simp only [sendproc] at h
      split at h
      · split at h
        · obtain ⟨p, -, h⟩ := Option.bind_eq_some_iff.mp h
          split at h
          · obtain ⟨rfl, -⟩ := Prod.mk.inj (Option.some.inj h)
            exact ⟨_, _, _, (s.conn c).toOutgoing, (s.conn c).events, by
              rw [Function.update_eq_self]⟩
          · cases h
        · obtain ⟨rfl, -⟩ := Prod.mk.inj (Option.some.inj h)
          exact .refl c s
        · exact ih h
        · obtain ⟨rfl, -⟩ := Prod.mk.inj (Option.some.inj h)
          exact .refl c s
        · obtain ⟨rfl, -⟩ := Prod.mk.inj (Option.some.inj h)
          exact .refl c s
      · obtain ⟨rfl, -⟩ := Prod.mk.inj (Option.some.inj h)
        exact .refl c s

theorem sendOnly_clearSend : SendOnly c s (s.clearSend c) :=
  sendOnly_modifyConn fun _ => ⟨_, _, rfl⟩

theorem sendOnly_finishWritable : SendOnly c s (s.finishWritable c) :=
  ((sendOnly_queue s s.semPost.toSendQueue).trans sendOnly_clearSend).trans
    (sendOnly_modifyConn fun _ => ⟨_, _, rfl⟩)

theorem writable_frame (h : s.eventWritableRequestHandler c env = some s') : SendOnly c s s' := by
  simp only [eventWritableRequestHandler] at h
  split at h
  · cases h
  next hsend =>
    obtain rfl := Option.some.inj h
    exact (sendOnly_sendproc hsend).trans sendOnly_finishWritable
  next hsend =>
    have hfirst := sendOnly_sendproc hsend
    split at h
    · obtain rfl := Option.some.inj h
      exact hfirst.trans (sendOnly_modifyConn fun _ => ⟨_, _, rfl⟩)
    · split at h
      · obtain rfl := Option.some.inj h
        exact hfirst.trans (sendOnly_modifyConn fun _ => ⟨_, _, rfl⟩)
      · obtain rfl := Option.some.inj h
        exact ((hfirst.trans (sendOnly_modifyConn fun _ => ⟨_, _, rfl⟩)).trans
          sendOnly_epollMod).trans sendOnly_finishWritable

theorem sendEntry_frame {i : Nat} {next : SendNext} (h : s.sendEntry i env = some (s', next)) :
    ∃ reply, s.sendMsgList[i]? = some reply ∧ SendOnly reply.head.lpCurconn s s' := by
  simp only [sendEntry] at h
  obtain ⟨reply, hreply, h⟩ := Option.bind_eq_some_iff.mp h
  refine ⟨reply, hreply, ?_⟩
  have hbegin : SendOnly reply.head.lpCurconn s (s.beginSend i reply) :=
    (sendOnly_queue _ _).trans (sendOnly_modifyConn fun _ => ⟨_, _, rfl⟩)
  generalize reply.head.lpCurconn = c at h hbegin ⊢
  split at h
  · obtain ⟨rfl, -⟩ := Prod.mk.inj (Option.some.inj h)
    exact sendOnly_clearSend.trans (sendOnly_queue (s.clearSend c)
      { s.toSendQueue with sendMsgList := s.sendMsgList.eraseIdx i })
  split at h
  · obtain ⟨rfl, -⟩ := Prod.mk.inj (Option.some.inj h)
    exact .refl c s
  split at h
  · cases h
  next hsend =>
    obtain ⟨rfl, -⟩ := Prod.mk.inj (Option.some.inj h)
    exact ((hbegin.trans (sendOnly_sendproc hsend)).trans sendOnly_clearSend).trans
      (sendOnly_modifyConn fun _ => ⟨_, _, rfl⟩)
  next t n hsend =>
    have hsent := hbegin.trans (sendOnly_sendproc hsend)
    split at h
    · obtain ⟨rfl, -⟩ := Prod.mk.inj (Option.some.inj h)
      exact (hsent.trans (sendOnly_modifyConn fun _ => ⟨_, _, rfl⟩)).trans sendOnly_epollMod
    · have hcount : SendOnly c s (t.modifyConn c fun conn =>
          { conn with sendlenAlready := conn.sendlenAlready + n }) :=
        hsent.trans (sendOnly_modifyConn fun _ => ⟨_, _, rfl⟩)
      split at h
      · obtain ⟨rfl, -⟩ := Prod.mk.inj (Option.some.inj h)
        exact hcount
      · obtain ⟨rfl, -⟩ := Prod.mk.inj (Option.some.inj h)
        exact (hcount.trans sendOnly_clearSend).trans (sendOnly_modifyConn fun _ => ⟨_, _, rfl⟩)

/-- Only the sending part of `c`, its last heartbeat, the two queues and the record of
queued replies differ. -/
def WorkOnly (c : ConnId) (s s' : State) : Prop :=
  ∃ (receive : ReceiveQueue) (send : SendQueue) (queued : List Reply) (out : Outgoing)
    (ping : Time), s' =
    { s with
      toReceiveQueue := receive
      toSendQueue := send
      history := { s.history with queued }
      conn := Function.update s.conn c
        { s.conn c with toOutgoing := out, pingUpdateTime := ping } }

theorem WorkOnly.trans (h : WorkOnly c s t) (h' : WorkOnly c t s') : WorkOnly c s s' := by
  obtain ⟨receive, send, queued, out, ping, rfl⟩ := h
  obtain ⟨receive', send', queued', out', ping', rfl⟩ := h'
  exact ⟨receive', send', queued', out', ping', by simp [Function.update_idem]⟩

theorem workOnly_queues {receive : ReceiveQueue} {send : SendQueue} {queued : List Reply} :
    WorkOnly c s { s with
      toReceiveQueue := receive
      toSendQueue := send
      history := { s.history with queued } } :=
  ⟨receive, send, queued, (s.conn c).toOutgoing, (s.conn c).pingUpdateTime, by
    rw [Function.update_eq_self]⟩

theorem workOnly_modifyConn {f : Connection → Connection}
    (hf : ∀ conn, ∃ out ping, f conn = { conn with toOutgoing := out, pingUpdateTime := ping }) :
    WorkOnly c s (s.modifyConn c f) := by
  obtain ⟨out, ping, heq⟩ := hf (s.conn c)
  exact ⟨s.toReceiveQueue, s.toSendQueue, s.history.queued, out, ping, by rw [modifyConn, heq]⟩

theorem Processed.frame {msg : Message} {now : Time} {r : Option Reply}
    (h : Processed s msg now (s', r)) : WorkOnly msg.head.lpCurconn s s' := by
  cases h with
  | dropped silent => exact workOnly_queues
  | heartbeat current beat answers =>
      rw [supposeSend, answers.1]
      exact (workOnly_modifyConn fun _ => ⟨_, _, rfl⟩).trans
        (workOnly_modifyConn fun _ => ⟨_, _, rfl⟩)
  | answered current code answers =>
      rw [supposeSend, answers.1]
      exact workOnly_modifyConn fun _ => ⟨_, _, rfl⟩

/-- Handling a message touches at most the connection a reply is made for. -/
theorem Took.frame {now : Time} {r : Option Reply} (h : Took s now s' r) :
    ∃ c, WorkOnly c s s' ∧ ∀ reply, r = some reply → reply.head.lpCurconn = c := by
  cases h with
  | null hqueue => exact ⟨0, workOnly_queues, fun _ h => by cases h⟩
  | message hqueue hprocessed =>
      rename_i msg rest
      refine ⟨msg.head.lpCurconn, workOnly_queues.trans hprocessed.frame, ?_⟩
      rintro reply rfl
      exact congrArg MsgHeader.lpCurconn hprocessed.answers.1

theorem msgSendInQueue_frame {thread : Thread} {reply : Reply}
    (h : s.msgSendInQueue thread reply = some s') : WorkOnly reply.head.lpCurconn s s' := by
  obtain rfl | rfl := eq_of_msgSendInQueue h
  · exact workOnly_queues
  · have hpush : WorkOnly reply.head.lpCurconn s ((s.lockSend thread).pushSend reply).unlockSend :=
      workOnly_queues
    have hcount : WorkOnly reply.head.lpCurconn s
        (((s.lockSend thread).pushSend reply).unlockSend.countConn reply) :=
      hpush.trans (workOnly_modifyConn fun _ => ⟨_, _, rfl⟩)
    exact hcount.trans workOnly_queues

/-- The loop of `event_accept_handler` admits at most one connection, after it may have
given up `accept4`. -/
theorem acceptLoop_cases (inv : s.Inv) {standby : ConnId} {answers : List AcceptAnswer}
    (h : s.acceptLoop standby env answers = some s') :
    ∃ useAccept4, s' = { s with useAccept4 } ∨
      ∃ connfd, 0 ≤ connfd ∧ s.openFds connfd = false ∧
        Admits { s with useAccept4 } connfd env s' := by
  obtain ⟨useAccept4, haccepts⟩ := acceptLoop_accepts h
  have hquiet : Quiet s { s with useAccept4 } :=
    quiet_of_view rfl rfl rfl rfl rfl rfl rfl rfl rfl rfl
  rcases haccepts with rfl | ⟨connfd, hfd, hclosed, haccept⟩
  · exact ⟨useAccept4, .inl rfl⟩
  · have hadmits := admit_cases (hquiet.toNeutral.inv inv) hclosed haccept
    exact ⟨useAccept4, .inr ⟨connfd, hfd, hclosed, hadmits⟩⟩

/-- The entries of the recycle list whose time has come when the clock shows `times`. -/
def overdue (s : State) (ahead : List ConnId) (times : List Time) : List ConnId :=
  ((ahead.zip times).filter fun entry =>
    s.conf.delayTime + (s.conn entry.1).inrevyTime < entry.2).map Prod.fst

theorem overdue_cons_of_due {ahead : List ConnId} {times : List Time}
    (due : s.conf.delayTime + (s.conn c).inrevyTime < now) :
    s.overdue (c :: ahead) (now :: times) = c :: s.overdue ahead times := by
  simp only [overdue, List.zip_cons_cons]
  rw [List.filter_cons_of_pos (by simpa using due), List.map_cons]

theorem overdue_cons_of_not {ahead : List ConnId} {times : List Time}
    (early : ¬ s.conf.delayTime + (s.conn c).inrevyTime < now) :
    s.overdue (c :: ahead) (now :: times) = s.overdue ahead times := by
  simp only [overdue, List.zip_cons_cons]
  rw [List.filter_cons_of_neg (by simpa using early)]

@[simp] theorem inrevyTime_recycle (s : State) (c : ConnId) (others : List ConnId) (d : ConnId) :
    ((s.recycle c others).conn d).inrevyTime = (s.conn d).inrevyTime := by
  by_cases hd : d = c <;> simp [recycle, hd]

@[simp] theorem overdue_recycle (c : ConnId) (others ahead : List ConnId) (times : List Time) :
    (s.recycle c others).overdue ahead times = s.overdue ahead times := by
  simp only [overdue, inrevyTime_recycle]
  rfl

/-- What a pass of the recycle thread returns to the free queue. -/
def returned (s : State) (times : List Time) : List ConnId :=
  if s.recyConnectionCount > 0 then
    if s.stopEvent then s.recyConnectionList else s.overdue s.recyConnectionList times
  else []

/-- The objects `due` go back to the free queue, with what their `p_headerinfo` holds. -/
structure Returns (due : List ConnId) (s s' : State) : Prop where
  memory : s'.memory = s.memory
  timers : s'.toTimerQueue = s.toTimerQueue
  use : s'.history.use = s.history.use
  free : ∀ c, c ∈ s'.freeConnectionList ↔ c ∈ s.freeConnectionList ∨ c ∈ due
  kept : ∀ c, (s'.conn c).curstat = (s.conn c).curstat ∧
    (s'.conn c).pHeaderinfo = (s.conn c).pHeaderinfo ∧ (s'.conn c).fd = (s.conn c).fd
  other : ∀ c, c ∉ due → s'.conn c = s.conn c

theorem Returns.refl (s : State) : Returns [] s s :=
  ⟨rfl, rfl, rfl, fun _ => by simp, fun _ => ⟨rfl, rfl, rfl⟩, fun _ _ => rfl⟩

theorem Returns.cons {due : List ConnId} (first : Returns [c] s t) (rest : Returns due t s') :
    Returns (c :: due) s s' where
  memory := rest.memory.trans first.memory
  timers := rest.timers.trans first.timers
  use := rest.use.trans first.use
  free d := by
    rw [rest.free d, first.free d, List.mem_singleton, List.mem_cons, or_assoc]
  kept d := by
    obtain ⟨hstate, hinfo, hfd⟩ := first.kept d
    obtain ⟨hstate', hinfo', hfd'⟩ := rest.kept d
    exact ⟨hstate'.trans hstate, hinfo'.trans hinfo, hfd'.trans hfd⟩
  other d hd := by
    rw [List.mem_cons, not_or] at hd
    exact (rest.other d hd.2).trans (first.other d (by simpa using hd.1))

theorem returns_recycle (c : ConnId) (others : List ConnId) (count : Int) :
    Returns [c] s { s.recycle c others with recyConnectionCount := count } where
  memory := rfl
  timers := rfl
  use := rfl
  free d := by simp [recycle]
  kept d := by by_cases hd : d = c <;> simp [recycle, hd]
  other d hd := by
    rw [List.mem_singleton] at hd
    simp [recycle, hd]

theorem recyLoop_returns {kept ahead : List ConnId} {times : List Time}
    (running : s.stopEvent = false) (h : s.recyLoop kept ahead times = some s') :
    Returns (s.overdue ahead times) s s' := by
  induction ahead generalizing s kept times with
  | nil =>
      obtain rfl := Option.some.inj h
      exact .refl s
  | cons c ahead ih =>
      cases times with
      | nil => cases h
      | cons curTime times =>
          simp only [recyLoop] at h
          split at h
          next hdue =>
            have hrest := ih (by exact running) h
            rw [overdue_recycle] at hrest
            rw [overdue_cons_of_due hdue.1]
            exact (returns_recycle c (kept ++ ahead) _).cons hrest
          next hnot =>
            rw [overdue_cons_of_not fun hdue => hnot ⟨hdue, running⟩]
            exact ih running h

theorem recyDrain_returns (s : State) (ahead : List ConnId) : Returns ahead s (s.recyDrain ahead) := by
  induction ahead generalizing s with
  | nil => exact .refl s
  | cons c ahead ih => exact (returns_recycle c ahead s.recyConnectionCount).cons (ih _)

theorem recyConnThreadFunc_returns {times : List Time}
    (h : s.recyConnThreadFunc times = some s') : Returns (s.returned times) s s' := by
  simp only [recyConnThreadFunc] at h
  rw [returned]
  split at h
  · cases h
  split at h
  next hcount =>
    rw [if_pos hcount]
    split at h
    next hstop =>
      rw [if_pos hstop]
      obtain rfl := Option.some.inj h
      have hdrain := recyDrain_returns s s.recyConnectionList
      exact { hdrain with }
    next hstop =>
      rw [if_neg hstop]
      exact recyLoop_returns (by simpa using hstop) h
  next hcount =>
    rw [if_neg hcount]
    obtain rfl := Option.some.inj h
    exact .refl s

theorem mem_recyList_of_returned {times : List Time} (h : c ∈ s.returned times) :
    c ∈ s.recyConnectionList := by
  rw [returned] at h
  split at h
  · split at h
    · exact h
    · obtain ⟨entry, hentry, rfl⟩ := List.mem_map.mp h
      exact (List.of_mem_zip (List.mem_of_mem_filter hentry)).1
  · cases h

/-- The object has been accepted and is open. -/
def Open (s : State) (c : ConnId) : Prop := s.Used c ∧ (s.conn c).fd ≠ -1

instance : DecidablePred s.Open := fun c =>
  inferInstanceAs (Decidable (0 < s.history.use c ∧ _))

theorem Inv.idle_of_used (inv : s.Inv) (used : s.Used c) : s.Idle c := inv.idle used

theorem Open.congr (use : s'.history.use c = s.history.use c)
    (link : (s'.conn c).link = (s.conn c).link) : s'.Open c ↔ s.Open c := by
  rw [Open, Open, Used, Used, use, (link_eq link).1]

theorem Neutral.isOpen (h : Neutral s s') : s'.Open c ↔ s.Open c :=
  Open.congr (congrFun h.use_eq c) (h.link c)

theorem Admits.begun {connfd : Fd} (h : Admits s connfd env s') (inv : s.Inv) (hfd : 0 ≤ connfd)
    (hclosed : s.openFds connfd = false) : s' = s ∨ ∃ c, Begun s c s' := by
  cases h with
  | refused => exact .inl rfl
  | opened taken room timer =>
      rename_i t w c
      have hbegun := begun_registered (epollin ||| epollrdhup) env.now inv hfd
        taken.takes
      rcases timer with ⟨-, rfl⟩ | ⟨-, rfl⟩
      · exact .inr ⟨c, { hbegun with }⟩
      · exact .inr ⟨c, { hbegun.addToTimerQueue env.later with }⟩
  | rejected taken => exact .inr ⟨_, begun_rejected _ _ inv hclosed taken.takes⟩

/-- A move opens a connection only where a new use of its object begins, and changes neither the
descriptor nor the sequence of one that stays open. -/
theorem Move.open_or_fresh (h : Move env s s') (inv : s.Inv) (hopen : s'.Open c) :
    (s.Open c ∧ (s'.conn c).link = (s.conn c).link) ∨ s.history.use c < s'.history.use c := by
  have hsame : s'.history.use = s.history.use → (s'.conn c).link = (s.conn c).link →
      (s.Open c ∧ (s'.conn c).link = (s.conn c).link) ∨ s.history.use c < s'.history.use c :=
    fun use link => .inl ⟨(Open.congr (congrFun use c) link).mp hopen, link⟩
  cases h with
  | quiet h => exact hsame h.use_eq (h.link c)
  | mark timer current silent =>
      rename_i head due curTime
      exact hsame rfl (by by_cases hc : c = head.lpCurconn <;> simp [Connection.link, hc])
  | report ok => exact hsame rfl rfl
  | stop => exact hsame rfl rfl
  | hangup gone => exact hsame rfl (neutral_hangup.link c)
  | close used opened counted =>
      rename_i t d
      have hne : c ≠ d := by
        rintro rfl
        exact hopen.2 (by simp [afterClose])
      refine hsame ?_ ?_
      · rcases counted with rfl | rfl <;> rfl
      · rcases counted with rfl | rfl <;> simp [afterClose, State.hangup, hne]
  | recycle list counted =>
      rename_i d front back count
      have hfd : (s.conn d).fd = -1 := inv.delayed_closed (by simp [list])
      have hne : c ≠ d := by
        rintro rfl
        exact hopen.2 (by simp [State.recycle, hfd])
      exact hsame rfl (by simp [State.recycle, hne])
  | admits nonneg fresh h =>
      rcases h.begun inv nonneg fresh with rfl | ⟨d, hbegun⟩
      · exact hsame rfl rfl
      · by_cases hc : c = d
        · subst hc
          refine .inr ?_
          rw [hbegun.use, Function.update_self]
          exact Nat.lt_succ_self _
        · refine .inl ⟨?_, by rw [hbegun.other c hc]⟩
          refine (Open.congr (hbegun.use_ne hc) ?_).mp hopen
          rw [hbegun.other c hc]
  | write used h =>
      have hsteady := h.steady
      exact hsame hsteady.use_eq (hsteady.link c)

theorem Moves.open_or_fresh (h : Moves env s s') (inv : s.Inv) (hopen : s'.Open c) :
    (s.Open c ∧ (s'.conn c).link = (s.conn c).link) ∨ s.history.use c < s'.history.use c := by
  induction h with
  | refl => exact .inl ⟨hopen, rfl⟩
  | tail hs hmove ih =>
      have hmid := Moves.evolves hs inv
      rcases hmove.open_or_fresh hmid.inv hopen with ⟨hopen', hlink⟩ | hlt
      · rcases ih hopen' with ⟨hfirst, hlink'⟩ | hlt
        · exact .inl ⟨hfirst, hlink.trans hlink'⟩
        · exact .inr (Nat.lt_of_lt_of_le hlt ((hmove.evolves hmid.inv).use_le c))
      · exact .inr (Nat.lt_of_le_of_lt (hmid.use_le c) hlt)

theorem getConnectionItem_frame :
    s.getConnectionItem.1.toBlocks = s.toBlocks ∧
      s.getConnectionItem.1.toTimerQueue = s.toTimerQueue := by
  simp only [getConnectionItem]
  split <;> exact ⟨rfl, rfl⟩

/-- Opening the listening sockets uses neither memory blocks nor the timer queue. -/
theorem listenLoop_frame {ready rest : List Listening} {oks : List Bool}
    (h : s.listenLoop ready rest oks = some s') :
    s'.toBlocks = s.toBlocks ∧ s'.toTimerQueue = s.toTimerQueue := by
  induction rest generalizing s ready oks with
  | nil =>
      obtain rfl := Option.some.inj h
      exact ⟨rfl, rfl⟩
  | cons pos rest ih =>
      cases oks with
      | nil => cases h
      | cons ok oks =>
          have hitem := getConnectionItem_frame (s := s)
          cases hget : s.getConnectionItem with
          | mk t c =>
              rw [hget] at hitem
              simp only [listenLoop, hget] at h
              split at h
              next u hctl =>
                have hadd := epollAdd_cases hctl
                rcases hadd with ⟨-, -, -, rfl⟩ | ⟨hfail, -⟩
                · obtain ⟨hblocks, htimers⟩ := ih h
                  exact ⟨hblocks.trans hitem.1, htimers.trans hitem.2⟩
                · cases hfail
              next => cases h

theorem createConnections_frame (n : Nat) :
    (s.createConnections n).toBlocks = s.toBlocks ∧
      (s.createConnections n).toTimerQueue = s.toTimerQueue := by
  induction n generalizing s with
  | zero => exact ⟨rfl, rfl⟩
  | succ n ih =>
      rw [createConnections]
      exact ih

end State

/-- A worker process starts with no blocks and an empty timer queue. -/
theorem Boot.Starts.frame {boot : Boot} {s : State} (h : boot.Starts s) :
    s.toBlocks = boot.state.toBlocks ∧ s.toTimerQueue = boot.state.toTimerQueue := by
  obtain ⟨ctl, hs⟩ := h
  simp only [State.epollEventInit] at hs
  split at hs
  · cases hs
  · have hcreate := State.createConnections_frame (s := boot.state)
      boot.state.conf.createConnectionsCount.toNat
    have hlisten := State.listenLoop_frame hs
    exact ⟨hlisten.1.trans hcreate.1, hlisten.2.trans hcreate.2⟩

end MyNginx
