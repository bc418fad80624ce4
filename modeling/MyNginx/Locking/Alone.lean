import MyNginx.Locking.Order

/-!
# The programs of the threads without interruption

Run alone, a program of `Locking.System` does what the function of the same name does in
the systems where it is one step. While no mutex is taken, a thread can run like that:
the event loop handles an event, and a worker a message, as one step of `Server.System`.
-/

namespace MyNginx

open Foundation

namespace Locking

variable {s : State} {c : ConnId} {input : Input}

@[simp] theorem freeConnectionItem_alone :
    (freeConnectionItem c).alone input s = some (s.freeConnectionItem c, false) := rfl

@[simp] theorem closeConnection_alone :
    (closeConnection c).alone input s = (s.closeConnection c input.env).map fun s => (s, false) := by
  simp only [closeConnection, State.closeConnection]
  by_cases hfd : (s.conn c).fd = -1
  · simp [hfd]
  · by_cases hout : (s.conn c).istimeout
    · simp [hout]
    · cases hclose : input.env.close && s.openFds (s.conn c).fd <;> simp_all

@[simp] theorem inRecyConnQueue_alone :
    (inRecyConnQueue c).alone input s = some (s.inRecyConnQueue c input.env.now, false) := by
  simp only [inRecyConnQueue, State.inRecyConnQueue]
  by_cases hin : (s.conn c).inrecyList = 1
  · simp [hin]
  · by_cases hmem : c ∈ s.recyConnectionList <;> simp [hin, hmem]

theorem closeAcceptedConnection_eq (istimeoutClose : Bool) (env : Env) :
    s.closeAcceptedConnection c istimeoutClose env =
      if (s.conn c).fd = -1 then some s
      else if !istimeoutClose && (s.conn c).istimeout then some s
      else (closing s c (s.conn c).fd env).map fun s => s.inRecyConnQueue c env.now := by
  simp only [State.closeAcceptedConnection, closing]
  split
  · rfl
  · split
    · rfl
    · split <;> rfl

@[simp] theorem closeAcceptedConnection_alone {istimeoutClose : Bool} :
    (closeAcceptedConnection c istimeoutClose).alone input s =
      (s.closeAcceptedConnection c istimeoutClose input.env).map fun s => (s, false) := by
  rw [closeAcceptedConnection_eq]
  by_cases hfd : (s.conn c).fd = -1
  · simp [closeAcceptedConnection, hfd]
  · by_cases hout : istimeoutClose = false ∧ (s.conn c).istimeout = true
    · simp [closeAcceptedConnection, hfd, hout]
    · cases hclosing : closing s c (s.conn c).fd input.env <;>
        simp [closeAcceptedConnection, hfd, hout, hclosing]

@[simp] theorem addToTimerQueue_alone :
    (addToTimerQueue c).alone input s = some (s.addToTimerQueue c input.env.later, false) := rfl

@[simp] theorem inMsgRecv_alone {msg : Option Message} :
    (inMsgRecv msg).alone input s = some (s.inMsgRecv msg, false) := rfl

theorem recvproc_alone {buf : RecvBuf} {recvLen : Nat} {next : Option Nat → Program} :
    (recvproc c buf recvLen next).alone input s =
      (s.recvproc c buf recvLen input.env).bind fun r => (next r.2).alone input r.1 := by
  simp only [recvproc, State.recvproc, Code.alone_atom]
  cases s.sysRecv (s.conn c).fd recvLen input.env.recv with
  | none => rfl
  | some answer =>
      match answer with
      | .data bytes => cases hstore : s.store buf bytes <;> simp [received, hstore]
      | .zero .ok | .zero .eagain | .failed .eintr | .failed .eagain => rfl
      | .zero .eintr | .zero .econnreset | .zero .enosys | .zero .other
      | .failed .ok | .failed .econnreset | .failed .enosys | .failed .other =>
          cases hclose : s.closeAcceptedConnection c false input.env <;> simp [received, hclose]

theorem pkgHeaderRecv_alone {next : Option Nat → Program} :
    (pkgHeaderRecv c next).alone input s =
      (s.pkgHeaderRecv c input.env).bind fun r => (next r.2).alone input r.1 := by
  simp only [pkgHeaderRecv, State.pkgHeaderRecv, Code.alone_read]
  split
  · rfl
  · rw [recvproc_alone]
    rcases s.recvproc c (s.conn c).pRecvbuf (s.conn c).recvlen input.env with _ | ⟨t, _ | n⟩
    · rfl
    · rfl
    · rfl

theorem pkgBodyRecv_alone {next : Option Nat → Program} :
    (pkgBodyRecv c next).alone input s =
      (s.pkgBodyRecv c input.env).bind fun r => (next r.2).alone input r.1 := by
  simp only [pkgBodyRecv, State.pkgBodyRecv, Code.alone_read]
  split
  · cases hfree : (s.forgetMsgrecv c).freeMemory (s.conn c).pHeaderinfo <;> simp [hfree]
  · rw [recvproc_alone]
    rcases s.recvproc c (s.conn c).pRecvbuf (s.conn c).recvlen input.env with _ | ⟨t, _ | n⟩
    · rfl
    · rfl
    · rfl

theorem pkgBodyProc_eq :
    s.pkgBodyProc c =
      startAgain (s.inMsgRecv ((s.conn c).pMsgrecv.bind s.messages.get)) c := rfl

@[simp] theorem pkgBodyProc_alone :
    (pkgBodyProc c).alone input s = (s.pkgBodyProc c).map fun s => (s, false) := by
  rw [pkgBodyProc_eq]
  cases hstart : startAgain (s.inMsgRecv ((s.conn c).pMsgrecv.bind s.messages.get)) c <;>
    simp [pkgBodyProc, hstart]

theorem pkgHeaderProc_eq :
    s.pkgHeaderProc c = (judgeHeader s c).bind fun r =>
      if r.2 then r.1.pkgBodyProc c else some r.1 := by
  simp only [State.pkgHeaderProc, judgeHeader]
  cases (s.conn c).pHeaderinfo with
  | none => rfl
  | some headerinfo =>
      cases hget : s.memory.get headerinfo with
      | none => simp [hget]
      | some header =>
          simp only [Option.bind_some, hget]
          split
          · cases s.freeMemory (some headerinfo) <;> rfl
          · split <;> rfl

@[simp] theorem pkgHeaderProc_alone :
    (pkgHeaderProc c).alone input s = (s.pkgHeaderProc c).map fun s => (s, false) := by
  rw [pkgHeaderProc_eq]
  rcases hjudge : judgeHeader s c with _ | ⟨t, _ | _⟩ <;>
    simp [pkgHeaderProc, hjudge, Function.comp_def]

theorem receiveHeader_alone :
    ((receiveHeader c).alone input s).map Prod.fst = s.receiveHeader c input.env := by
  simp only [receiveHeader, receive, State.receiveHeader, Code.alone_read, pkgHeaderRecv_alone]
  rcases s.pkgHeaderRecv c input.env with _ | ⟨t, _ | n⟩
  · rfl
  · rfl
  · simp only [Option.bind_some]
    split <;> simp [Function.comp_def]

theorem receiveBody_alone :
    ((receiveBody c).alone input s).map Prod.fst = s.receiveBody c input.env := by
  simp only [receiveBody, receive, State.receiveBody, Code.alone_read, pkgBodyRecv_alone]
  rcases s.pkgBodyRecv c input.env with _ | ⟨t, _ | n⟩
  · rfl
  · rfl
  · simp only [Option.bind_some]
    split <;> simp [Function.comp_def]

/-- Run alone, the handler of a readable event is that of the other systems. -/
@[simp] theorem eventReadableRequestHandler_alone :
    (eventReadableRequestHandler c).alone input s =
      (s.eventReadableRequestHandler c input.env).map fun s => (s, false) := by
  simp only [eventReadableRequestHandler, State.eventReadableRequestHandler, Code.alone_call,
    Code.alone_read]
  cases (s.conn c).curstat with
  | hdInit =>
      rw [← receiveHeader_alone]
      simp [Function.comp_def]
  | hdRecving =>
      by_cases hlen : (s.conn c).recvlen = 0 <;>
        simp [hlen, ← receiveHeader_alone, Function.comp_def]
  | bdInit =>
      by_cases hlen : (s.conn c).recvlen = 0 <;>
        simp [hlen, ← receiveBody_alone, Function.comp_def]
  | bdRecving =>
      by_cases hlen : (s.conn c).recvlen = 0 <;>
        simp [hlen, ← receiveBody_alone, Function.comp_def]

theorem acceptLoop_eq {standby : ConnId} {answers : List AcceptAnswer} (env : Env) :
    s.acceptLoop standby env answers = (acceptLoop s standby answers).bind fun
      | (s, none) => some s
      | (s, some connfd) => s.acceptClient connfd env := by
  induction answers generalizing s with
  | nil => rfl
  | cons answer answers ih =>
      cases answer with
      | accepted connfd =>
          simp only [State.acceptLoop, acceptLoop]
          split <;> rfl
      | failed errno =>
          simp only [State.acceptLoop, acceptLoop]
          split
          · rfl
          · split
            · exact ih
            · rfl

theorem epollOperEvent_result {fd : Fd} {flag : EpollOp} {eventType : Mask} {bcaction : Int}
    {ok : Bool} {t : State} {result : Int}
    (h : s.epollOperEvent fd flag eventType bcaction c ok = (t, result)) :
    result = 0 ∨ result = -1 := by
  simp only [State.epollOperEvent] at h
  split at h
  · exact .inl (congrArg Prod.snd h).symm
  · exact .inr (congrArg Prod.snd h).symm

theorem welcome_alone {connfd : Fd} {t : State} {result : Int}
    (hblock : ¬ (s.useAccept4 = false ∧ input.env.nonblock = false))
    (hadd : ((s.getOneToUse c input.env.now).modifyConn c fun conn =>
      { conn with fd := connfd, rhandler := some .readable, whandler := some .writable }).epollOperEvent
        connfd .add (epollin ||| epollrdhup) 0 c input.env.ctl = (t, result)) :
    ((welcome connfd c).alone input s).map Prod.fst =
      if result = -1 then t.closeConnection c input.env
      else
        let t := if t.conf.timeEnable = 1 then t.addToTimerQueue c input.env.later else t
        some { t with onlineCount := t.onlineCount + 1 } := by
  rw [welcome, Code.alone_passed (by simpa using hblock)]
  simp only [Code.alone_block_cons, Code.alone_perform, Option.map_some, Option.bind_some,
    Bool.false_eq_true, if_false, Code.alone_atom, hadd]
  by_cases hresult : result = -1
  · cases hclose : t.closeConnection c input.env <;> simp [hresult, hclose]
  · by_cases htime : t.conf.timeEnable = 1 <;> simp [hresult, htime]

theorem admit_alone {connfd : Fd} :
    ((acceptClient connfd).alone input s).map Prod.fst = s.acceptClient connfd input.env := by
  simp only [acceptClient, State.acceptClient]
  by_cases hfull : s.onlineCount ≥ s.conf.workerConnections
  · rw [Code.alone_left (t := s.closeFd connfd) (by simpa using hfull) rfl, if_pos hfull]
    rfl
  rw [Code.alone_passed (by simpa using hfull), if_neg hfull]
  by_cases hover : s.conf.workerConnections * 5 < -2 ^ 31 ∨ 2 ^ 31 ≤ s.conf.workerConnections * 5
  · rw [Code.alone_ended (by simpa using hover) rfl, if_pos hover]
    rfl
  rw [Code.alone_passed (by simpa using hover), if_neg hover]
  by_cases hpool : s.poolExhausted
  · rw [Code.alone_left (t := s.closeFd connfd) hpool rfl, if_pos hpool]
    rfl
  rw [Code.alone_passed (by simpa using hpool), if_neg hpool]
  simp only [Code.alone_block_singleton, getConnectionItem, Code.alone_seq, Code.alone_lock,
    Code.alone_atom, Code.alone_unlock, Option.bind_some, Bool.false_eq_true, if_false]
  generalize s.getConnectionItem = r
  obtain ⟨t, c⟩ := r
  by_cases hblock : t.useAccept4 = false ∧ input.env.nonblock = false
  · rw [if_pos hblock, welcome, Code.alone_ended (by simpa using hblock)]
    · rfl
    · cases hclose : t.closeConnection c input.env <;> simp [hclose]
  rw [if_neg hblock]
  generalize hadd : State.epollOperEvent _ _ _ _ _ _ _ = r
  obtain ⟨u, result⟩ := r
  rw [welcome_alone hblock hadd]
  rcases epollOperEvent_result hadd with rfl | rfl <;> rfl

@[simp] theorem eventAcceptHandler_alone :
    (eventAcceptHandler c).alone input s =
      (s.eventAcceptHandler c input.env).map fun s => (s, false) := by
  simp only [eventAcceptHandler, State.eventAcceptHandler, acceptLoop_eq, Code.alone_call,
    Code.alone_atom]
  rcases acceptLoop s c input.env.accept with _ | ⟨t, _ | connfd⟩
  · rfl
  · rfl
  · simp [← admit_alone, Function.comp_def]

@[simp] theorem callHandler_alone {handler : Option EventHandler} :
    (callHandler c handler).alone input s =
      (s.callHandler handler c input.env).map fun s => (s, false) := by
  match handler with
  | none => rfl
  | some .accept => exact eventAcceptHandler_alone
  | some .readable => exact eventReadableRequestHandler_alone
  | some .writable => simp [callHandler, State.callHandler, eventWritableRequestHandler]

/-- Run alone, the body of the loop in `epoll_process_events` is a step of the loop. -/
theorem handleEvent_alone {events : Mask} :
    (handleEvent c events).alone input s =
      ((s.handleIn c events input.env).bind fun s => s.handleOut c events input.env).map
        fun s => (s, false) := by
  have hout : ∀ t : State, Code.alone input
      (if events.has epollout then
        if events.has (epollrdhup ||| epollerr ||| epollhup) then
          .seq
            (.act fun s => s.modifyConn c fun conn =>
              { conn with iThrowsendCount := conn.iThrowsendCount - 1 })
            (closeAcceptedConnection c false)
        else .read (fun _ s => (s.conn c).whandler) (callHandler c)
      else .skip) t = (t.handleOut c events input.env).map fun s => (s, false) := by
    intro t
    simp only [State.handleOut]
    split
    · split
      · simp
      · simp
    · rfl
  simp only [handleEvent, State.handleIn, Code.alone_seq]
  split
  · cases hin : s.callHandler (s.conn c).rhandler c input.env <;> simp [hin, hout]
  · simp [hout]

/-! ## The workers -/

variable (input) (thread : Thread) {reply : Reply} {msg : Message}

/-- A reply is queued in the same way, unless it is dropped. -/
theorem msgSendInQueue_alone (hfree : s.sendmutex = none) (hroom : s.overloaded reply = false) :
    (msgSendInQueue reply).alone input s =
      (s.msgSendInQueue thread reply).map fun s => (s, false) := by
  have hunlock : ((s.lockSend thread).pushSend reply).unlockSend = s.pushSend reply := by
    simp [State.lockSend, State.pushSend, State.unlockSend, ← hfree]
  have hroom' : (s.lockSend thread).overloaded reply = false := hroom
  simp [msgSendInQueue, State.msgSendInQueue, hfree, hroom, hroom', hunlock]

/-- What `ThreadRecvProc` does with the outcome of the tests and of a handler. -/
def answered : State × Option Reply → Option State
  | (s, none) => some s
  | (s, some reply) => s.msgSendInQueue thread reply

theorem handleStruct_alone {lenStruct cmd : Nat} {hlen : lenStruct < 65528} {now : Time}
    (hfree : s.sendmutex = none)
    (hroom : ∀ t reply, State.handleStruct lenStruct cmd hlen s msg now = (t, some reply) →
      t.overloaded reply = false) :
    (handleStruct lenStruct cmd hlen msg).alone input s =
      (answered thread (State.handleStruct lenStruct cmd hlen s msg now)).map fun s => (s, false) := by
  simp only [State.handleStruct] at hroom ⊢
  simp only [handleStruct, Code.alone_call]
  by_cases hsize : (pkgLen msg.buf : Int) - pkgHeaderLen ≠ lenStruct
  · rw [if_pos hsize, Code.alone_left (t := s) (by simpa using hsize) rfl]
    rfl
  rw [if_neg hsize, Code.alone_passed (by simpa using hsize)]
  by_cases hjudge : (s.conn msg.head.lpCurconn).judgeOutdate msg.head.msgCursequence = false
  · rw [if_pos hjudge]
    simp [hjudge, answered]
  rw [if_neg hsize, if_neg hjudge] at hroom
  rw [if_neg hjudge]
  have hqueue := msgSendInQueue_alone input thread
    (by simpa [State.supposeSend] using hfree) (hroom _ _ rfl)
  simp [hjudge, answered, hqueue, Function.comp_def]

theorem handlePing_alone (hfree : s.sendmutex = none)
    (hroom : ∀ t reply, State.handlePing s msg input.env.now = (t, some reply) →
      t.overloaded reply = false) :
    (handlePing msg).alone input s =
      (answered thread (State.handlePing s msg input.env.now)).map fun s => (s, false) := by
  simp only [State.handlePing] at hroom ⊢
  simp only [handlePing, Code.alone_call]
  by_cases hsize : (pkgLen msg.buf : Int) - pkgHeaderLen ≠ lenStructPing
  · rw [if_pos hsize, Code.alone_left (t := s) (by simpa using hsize) rfl]
    rfl
  rw [if_neg hsize, Code.alone_passed (by simpa using hsize)]
  rw [if_neg hsize] at hroom
  have hqueue := msgSendInQueue_alone input thread
    (by simpa [State.supposeSend] using hfree) (hroom _ _ rfl)
  simp [answered, hqueue, Function.comp_def]

/-- The two tables have handlers at the same places, and these do the same. -/
theorem statusHandleset_alone (code : Nat) (hfree : s.sendmutex = none)
    (hroom : ∀ t reply, (match State.statusHandleset[code]? with
        | some (some handler) => handler s msg input.env.now
        | _ => (s, none)) = (t, some reply) → t.overloaded reply = false) :
    ((match statusHandleset[code]? with
        | some (some handler) => handler msg
        | _ => .ret : Program).alone input s).map Prod.fst =
      answered thread (match State.statusHandleset[code]? with
        | some (some handler) => handler s msg input.env.now
        | _ => (s, none)) := by
  match code with
  | 0 =>
      refine (congrArg (Option.map Prod.fst) (handlePing_alone input thread hfree hroom)).trans ?_
      simp [State.statusHandleset, Function.comp_def]
  | 5 | 6 =>
      refine (congrArg (Option.map Prod.fst) (handleStruct_alone input thread hfree hroom)).trans ?_
      simp [State.statusHandleset, State.handleRegister, State.handleLogin, Function.comp_def]
  | 1 | 2 | 3 | 4 | n + 7 => rfl

/-- Run alone, a worker does with a message what it does in the system where that is one
step, unless the reply is dropped. -/
theorem threadRecvProc_alone (hfree : s.sendmutex = none)
    (hroom : ∀ t reply, s.threadRecvProc msg input.env.now = (t, some reply) →
      t.overloaded reply = false) :
    (threadRecvProc msg).alone input s =
      (answered thread (s.threadRecvProc msg input.env.now)).map fun s => (s, false) := by
  simp only [State.threadRecvProc] at hroom ⊢
  simp only [threadRecvProc, Code.alone_call]
  by_cases hjudge : (s.conn msg.head.lpCurconn).judgeOutdate msg.head.msgCursequence = false
  · rw [if_pos hjudge, Code.alone_left (t := s) (by simpa using hjudge) rfl]
    rfl
  rw [if_neg hjudge, Code.alone_passed (by simpa using hjudge)]
  rw [if_neg hjudge] at hroom
  generalize (pkgLen msg.buf + 65536 - pkgHeaderLen) % 65536 = bodyLen at hroom ⊢
  by_cases hempty : bodyLen = 0 ∧ crc32 msg.buf ≠ 0
  · rw [if_pos hempty, Code.alone_left (t := s) (by simpa using hempty) rfl]
    rfl
  rw [if_neg hempty, Code.alone_passed (by simpa using hempty)]
  rw [if_neg hempty] at hroom
  by_cases hcrc : bodyLen ≠ 0 ∧ Crc32.getCrc ((msg.buf.drop pkgHeaderLen).take bodyLen) ≠
      BitVec.ofNat 32 (crc32 msg.buf)
  · rw [if_pos hcrc, Code.alone_left (t := s) (by simpa using hcrc) rfl]
    rfl
  rw [if_neg hcrc, Code.alone_passed (by simpa using hcrc)]
  rw [if_neg hcrc] at hroom
  have hcall := statusHandleset_alone input thread (msgCode msg.buf) hfree hroom
  refine Eq.trans ?_ (congrArg (Option.map fun s => (s, false)) hcall)
  rw [Code.alone_block_singleton]
  exact (Option.map_map (fun s => (s, false)) Prod.fst _).symm

/-! ## Single steps -/

variable {input thread} {n : Nat} {k : Process n} {rest : List (Frame State Input Note Mutex)}

/-- While no mutex is taken, the event loop can handle an event as in one step. -/
theorem handleEvent_arrives {events : Mask} {t : State}
    (hcontrol : k.control .eventLoop = ⟨false, .todo (handleEvent c events) :: rest⟩)
    (free : ∀ m, k.holder m = none)
    (h : ((k.memory.handleIn c events input.env).bind fun s => s.handleOut c events input.env) =
      some t) :
    ∃ k', Arrives Before k .eventLoop input t [] false rest k' :=
  have keeps : Keeps (handleEvent c events) [] [] := handleEvent_keeps
  arrives_of_alone Before.irrefl keeps hcontrol ⟨.nil, by simpa using free⟩
    (by rw [handleEvent_alone, h]; rfl)

/-- While no mutex is taken, a worker can handle a message as in one step. -/
theorem threadRecvProc_arrives {w : Fin n} {t : State}
    (hcontrol : k.control (.worker w) = ⟨false, .todo (threadRecvProc msg) :: rest⟩)
    (free : ∀ m, k.holder m = none) (hfree : k.memory.sendmutex = none)
    (hroom : ∀ t reply, k.memory.threadRecvProc msg input.env.now = (t, some reply) →
      t.overloaded reply = false)
    (h : answered thread (k.memory.threadRecvProc msg input.env.now) = some t) :
    ∃ k', Arrives Before k (.worker w) input t [] false rest k' :=
  have keeps : Keeps (threadRecvProc msg) [] [] := threadRecvProc_keeps
  arrives_of_alone Before.irrefl keeps hcontrol ⟨.nil, by simpa using free⟩
    (by rw [threadRecvProc_alone input thread hfree hroom, h]; rfl)

end Locking

end MyNginx
