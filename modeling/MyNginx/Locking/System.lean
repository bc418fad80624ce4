import Mathlib
import MyNginx.EventLoop
import MyNginx.Logic
import MyNginx.Server.System
import MyNginx.Foundation.Threads

/-!
# The threads of a worker process and their mutexes

The functions of the event loop, the workers, the send thread, the timer thread and the
recycle thread as programs over the state of the server. A thread is interrupted at every
lock and unlock and at every test and statement around them. What a thread does without a
mutex operation in it is one step, which reads and writes the state as the functions of
the other systems do; its input holds the answers of the system calls, the clock and the
`ifshutdown` of the thread. A waiting thread may wake up at any time, as POSIX allows.

`getConnectionItem` and the functions under it that return a value take the rest of their
caller as an argument.
-/

namespace MyNginx

open Foundation

namespace Locking

inductive Mutex where
  | timerMutex
  | connMutex (c : ConnId)
  | recymutex
  | socketmutex
  | sendmutex
  | pthreadMutex
  deriving DecidableEq, Repr

/-- The two statements behind which a mutex stays locked. -/
inductive Note where
  | replyDropped
  | lengthMismatch
  deriving DecidableEq, Repr

inductive ThreadName (n : Nat) where
  | eventLoop
  | worker (w : Fin n)
  | sender
  | timer
  | recycle
  deriving DecidableEq

/-- What a step may depend on besides the state. -/
structure Input where
  env : Env := {}
  fds : List (Fd × Mask) := []
  ctl : Bool := true
  ifshutdown : Bool := false
  semFails : Bool := false

abbrev Program := Code State Input Note Mutex

open Code (block)

/-! ## The connection pool -/

/-- `get_connection_item`; the lock goes when it returns. -/
def getConnectionItem (next : ConnId → Program) : Program :=
  .seq (.lock .socketmutex) <|
    .atom (fun _ s => some s.getConnectionItem) fun c => .seq (.unlock .socketmutex) (next c)

def freeConnectionItem (c : ConnId) : Program :=
  .call <| .guarded .socketmutex <| .act fun s => s.freeConnectionItem c

def closeConnection (c : ConnId) : Program :=
  .call <| .guarded (.connMutex c) <| .read (fun _ s => (s.conn c).fd) fun fdClose => block
    [.when (fun _ s => fdClose = -1 || (s.conn c).istimeout) .exit,
      .perform fun input s =>
        if input.env.close && s.openFds fdClose then some ((s.closeFd fdClose).release c) else none,
      freeConnectionItem c]

def inRecyConnQueue (c : ConnId) : Program :=
  .call <| block
    [.when (fun _ s => (s.conn c).inrecyList = 1) .ret,
      .guarded .recymutex <| block
        [.when (fun _ s => c ∈ s.recyConnectionList) .ret,
          .perform fun input s => some (s.enqueueRecy c input.env.now)]]

/-- `close_accepted_connection` between its tests and `InRecyConnQueue`. -/
def closing (s : State) (c : ConnId) (fdToclose : Fd) (env : Env) : Option State :=
  let s := (s.epollOperEvent fdToclose .del 0 0 c env.ctl).1
  if env.close && s.openFds fdToclose then some ((s.closeFd fdToclose).retire c) else none

def closeAcceptedConnection (c : ConnId) (istimeoutClose : Bool) : Program :=
  .call <| .guarded (.connMutex c) <| .read (fun _ s => (s.conn c).fd) fun fdToclose => block
    [.when (fun _ _ => fdToclose = -1) .ret,
      .when (fun _ s => !istimeoutClose && (s.conn c).istimeout) .ret,
      .perform fun input s => closing s c fdToclose input.env,
      inRecyConnQueue c]

/-- The test of the entry at the iterator in `RecyConnThreadFunc`: it stays and the
iterator moves on, or it leaves the list and is returned. -/
def recyTest (s : State) (i : Nat) (curTime : Time) : Option (State × Option (Nat × Option ConnId)) :=
  match s.recyConnectionList[i]? with
  | none => some (s, none)
  | some c =>
      if s.conf.delayTime + (s.conn c).inrevyTime < curTime ∧ s.stopEvent = false then
        let s := { s with
          recyConnectionList := s.recyConnectionList.eraseIdx i
          recyConnectionCount := s.recyConnectionCount - 1 }
        some (s.putOneToFree c, some (i, some c))
      else some (s, some (i + 1, none))

/-- The first entry leaves the recycle list when the thread is about to stop. -/
def recyPop (s : State) : State × Option (Unit × ConnId) :=
  match s.recyConnectionList with
  | [] => (s, none)
  | c :: rest => ({ s with recyConnectionList := rest }.putOneToFree c, some ((), c))

/-- `free_connection_item` for the object that left the list, if one did. -/
def freeRecycled : Option ConnId → Program
  | none => .skip
  | some c => freeConnectionItem c

def recyConnThreadFunc : Program :=
  .loopWhile (fun input s => !s.stopEvent && !input.ifshutdown) <|
    .when (fun _ s => s.recyConnectionCount > 0) <| block
      [.lock .recymutex,
        .test (fun input s => s.stopEvent || input.ifshutdown)
          (block
            [.loop () (fun _ _ s => some (recyPop s)) freeConnectionItem,
              .unlock .recymutex,
              .ret])
          (.seq
            (.loop 0 (fun input i s => recyTest s i input.env.now) freeRecycled)
            (.unlock .recymutex))]

/-! ## The timer queue -/

def addToTimerQueue (c : ConnId) : Program :=
  .call <| .read (fun input _ => input.env.later) fun curTime => block
    [.act fun s => s.modifyConn c fun conn => { conn with pingUpdateTime := curTime },
      .guarded .timerMutex <| .act fun s =>
        { s with
          toTimerQueue :=
            s.toTimerQueue.addTimer (curTime + s.conf.waittime) ⟨c, (s.conn c).sequence⟩ }]

def deleteFromTimerQueue (head : MsgHeader) : Program :=
  .act fun s => { s with toTimerQueue := s.toTimerQueue.deleteFromTimerQueue head }

def timeOutProc (head : MsgHeader) : Program :=
  .call <| block [deleteFromTimerQueue head, closeAcceptedConnection head.lpCurconn true]

def timeCheckingProc (head : MsgHeader) (curTime : Time) : Program :=
  let c := head.lpCurconn
  .call <| .seq (.lock (.connMutex c)) <|
    .test (fun _ s => (s.conn c).judgeOutdate head.msgCursequence = false)
      (block [.unlock (.connMutex c), deleteFromTimerQueue head, .ret]) <|
    .test (fun _ s => curTime - (s.conn c).pingUpdateTime > 3 * s.conf.waittime)
      (block
        [.act fun s => s.modifyConn c fun conn => { conn with istimeout := true },
          .unlock (.connMutex c),
          timeOutProc head])
      (.unlock (.connMutex c))

/-- The next entry of `list_toexam`. -/
def nextDue : List MsgHeader → Option (List MsgHeader × MsgHeader)
  | [] => none
  | head :: due => some (due, head)

def serverTimerQueueThreadFunc : Program :=
  .loopWhile (fun input s => !s.stopEvent && !input.ifshutdown && s.conf.timeEnable != 0) <|
    .read (fun input s => (input.env.now, s.timerValue > input.env.now || s.timermapSize = 0))
      fun (curTime, idle) =>
        if idle then .skip
        else block
          [.lock .timerMutex,
            .atom (fun _ s =>
                (s.toTimerQueue.collectOverTime s.conf.waittime curTime (s.timermap.length + 1)).map
                  fun (queue, due) => ({ s with toTimerQueue := queue }, due))
              fun listToexam =>
                .loop listToexam (fun _ due s => some (s, nextDue due)) fun head =>
                  timeCheckingProc head curTime,
            .unlock .timerMutex]

/-! ## The receive queue and the send queue -/

/-- `InMsgRecv`; `Call` takes no mutex. -/
def inMsgRecv (msg : Option Message) : Program :=
  .call <| block [.lock .pthreadMutex, .act fun s => s.inMsgRecv msg, .unlock .pthreadMutex]

/-- `MsgSendInQueue`, which returns with the mutex locked when it drops the reply. -/
def msgSendInQueue (reply : Reply) : Program :=
  .call <| block
    [.lock .sendmutex,
      .when (fun _ s => s.overloaded reply) (block [.note .replyDropped, .ret]),
      .act fun s => s.pushSend reply,
      .unlock .sendmutex,
      .act fun s => ((s.countConn reply).countTotal).semPost]

/-- The element of `m_send_msgList` at the iterator, and whether the thread returns there. -/
def sendElement (s : State) (i : Nat) (env : Env) : Option (State × Option (Nat × Bool)) :=
  if i < s.sendMsgList.length then
    (s.sendEntry i env).map fun
      | (s, .erased) => (s, some (i, false))
      | (s, .skipped) => (s, some (i + 1, false))
      | (s, .returned) => (s, some (i, true))
  else some (s, none)

/-- The `return` in the middle of a pass of the send thread. -/
def returnInPass : Bool → Program
  | false => .skip
  | true => block [.note .lengthMismatch, .ret]

def sendMsgThreadFunc : Program :=
  .loopWhile (fun input s => !s.stopEvent && !input.ifshutdown) <|
    .atom (fun input s =>
        if input.semFails then some (s, false)
        else if s.sendsem = 0 then none
        else some ({ s with sendsem := s.sendsem - 1 }, true)) fun woken =>
      if woken then block
        [.when (fun input s => s.stopEvent || input.ifshutdown) .ret,
          .when (fun _ s => s.msgtosendCount > 0) <| block
            [.lock .sendmutex,
              .loop 0 (fun input i s => sendElement s i input.env) returnInPass,
              .unlock .sendmutex]]
      else .ret

/-! ## The workers -/

/-- `_HandleRegister` and `_HandleLogin`. -/
def handleStruct (lenStruct cmd : Nat) (hlen : lenStruct < 65528) (msg : Message) : Program :=
  let c := msg.head.lpCurconn
  let body := List.replicate lenStruct 0
  let reply := replyTo msg cmd (Crc32.getCrc body).toNat body (length_zeros_lt hlen)
  .call <| block
    [.when (fun _ _ => (pkgLen msg.buf : Int) - pkgHeaderLen ≠ lenStruct) .ret,
      .test (fun _ s => (s.conn c).judgeOutdate msg.head.msgCursequence = false) .ret
        (.guarded (.connMutex c) .skip),
      .when (fun _ s => (s.conn c).judgeOutdate msg.head.msgCursequence = false) .ret,
      .act fun s => s.supposeSend reply,
      msgSendInQueue reply]

def handleRegister (msg : Message) : Program :=
  handleStruct lenStructRegister cmdRegister lenStructRegister_lt msg

def handleLogin (msg : Message) : Program :=
  handleStruct lenStructLogin cmdLogin lenStructLogin_lt msg

def handlePing (msg : Message) : Program :=
  let c := msg.head.lpCurconn
  let reply := replyTo msg cmdPing 0 [] length_noBody_lt
  .call <| block
    [.when (fun _ _ => (pkgLen msg.buf : Int) - pkgHeaderLen ≠ lenStructPing) .ret,
      .guarded (.connMutex c) <| block
        [.perform fun input s =>
            some (s.modifyConn c fun conn => { conn with pingUpdateTime := input.env.now }),
          .act fun s => s.supposeSend reply,
          msgSendInQueue reply]]

/-- `status_handleset`. -/
def statusHandleset : List (Option (Message → Program)) :=
  [some handlePing, none, none, none, none, some handleRegister, some handleLogin]

def threadRecvProc (msg : Message) : Program :=
  let bodyLen := (pkgLen msg.buf + 65536 - pkgHeaderLen) % 65536
  let body := (msg.buf.drop pkgHeaderLen).take bodyLen
  .call <| block
    [.when (fun _ s => (s.conn msg.head.lpCurconn).judgeOutdate msg.head.msgCursequence = false)
        .ret,
      .when (fun _ _ => bodyLen = 0 && crc32 msg.buf ≠ 0) .ret,
      .when (fun _ _ => bodyLen ≠ 0 && Crc32.getCrc body ≠ BitVec.ofNat 32 (crc32 msg.buf)) .ret,
      match statusHandleset[msgCode msg.buf]? with
      | some (some handler) => handler msg
      | _ => .ret]

/-- `pthread_cond_wait` on `m_pthreadMutex`. -/
def condWait : Program := .seq (.unlock .pthreadMutex) (.lock .pthreadMutex)

/-- `ThreadFunc`, which only ends by its `break`. -/
def threadFunc : Program :=
  .loopWhile (fun _ _ => true) <| block
    [.lock .pthreadMutex,
      .loopWhile (fun input s => s.msgqueue.isEmpty && !input.ifshutdown) condWait,
      .when (fun input _ => input.ifshutdown) (block [.unlock .pthreadMutex, .ret]),
      .atom (fun _ s => some s.getMsgItem) fun
        | none => .unlock .pthreadMutex
        | some msg => .seq (.unlock .pthreadMutex) (threadRecvProc msg)]

/-! ## The event loop -/

/-- What `recvproc` does about the answer of `recv`: `none` when it closes the connection. -/
def received (s : State) (buf : RecvBuf) : RecvAnswer → Option (State × Option (Option Nat))
  | .data bytes => (s.store buf bytes).map fun s => (s, some (some bytes.length))
  | .zero .ok => some (s, some (some 0))
  | .zero .eagain => some (s, some none)
  | .zero _ => some (s, none)
  | .failed .eintr => some (s, some (some 0))
  | .failed .eagain => some (s, some none)
  | .failed _ => some (s, none)

def recvproc (c : ConnId) (buf : RecvBuf) (recvLen : Nat) (next : Option Nat → Program) :
    Program :=
  .atom (fun input s => (s.sysRecv (s.conn c).fd recvLen input.env.recv).bind (received s buf)) fun
    | some result => next result
    | none => .seq (closeAcceptedConnection c false) (next none)

def pkgHeaderRecv (c : ConnId) (next : Option Nat → Program) : Program :=
  .read (fun _ s => s.conn c) fun conn =>
    if conn.curstat ≠ .hdInit ∧ conn.curstat ≠ .hdRecving then next none
    else recvproc c conn.pRecvbuf conn.recvlen fun
      | none => next none
      | some realSize => .seq (.act fun s => s.advance c realSize) (next (some realSize))

def pkgBodyRecv (c : ConnId) (next : Option Nat → Program) : Program :=
  .read (fun _ s => s.conn c) fun conn =>
    if conn.curstat ≠ .bdInit ∧ conn.curstat ≠ .bdRecving then
      .seq (.perform fun _ s => (s.forgetMsgrecv c).freeMemory conn.pHeaderinfo) (next none)
    else recvproc c conn.pRecvbuf conn.recvlen fun
      | none => .seq (.act fun s => s.forgetMsgrecv c) (next none)
      | some realSize => .seq (.act fun s => s.advance c realSize) (next (some realSize))

/-- `pkg_body_proc` behind `InMsgRecv`. -/
def startAgain (s : State) (c : ConnId) : Option State :=
  let s := (s.modifyConn c fun conn => { conn with pRecvbuf := .null }).forgetMsgrecv c
  (s.freeMemory (s.conn c).pHeaderinfo).map fun s => s.putToStateMach c

def pkgBodyProc (c : ConnId) : Program :=
  .call <| .read (fun _ s => (s.conn c).pMsgrecv.bind s.messages.get) fun msg =>
    .seq (inMsgRecv msg) (.perform fun _ s => startAgain s c)

/-- `pkg_header_proc` up to its end or to the call of `pkg_body_proc`, and whether it
makes that call. -/
def judgeHeader (s : State) (c : ConnId) : Option (State × Bool) :=
  (s.conn c).pHeaderinfo.bind fun headerinfo =>
  (s.memory.get headerinfo).bind fun header =>
  let pkgSize := pkgLen header
  if pkgSize < pkgHeaderLen ∨ pkgSize > pkgMaxLength - 1000 then
    (s.freeMemory headerinfo).map fun s =>
      (s.modifyConn c fun conn => { conn with curstat := .hdInit }, false)
  else
    let pkgBodySize := pkgSize - pkgHeaderLen
    let s := s.allocMessage c header pkgBodySize
    if pkgBodySize = 0 then some (s, true)
    else some (s.modifyConn c fun conn => { conn with curstat := .bdInit }, false)

def pkgHeaderProc (c : ConnId) : Program :=
  .call <| .atom (fun _ s => judgeHeader s c) fun whole =>
    if whole then pkgBodyProc c else .skip

/-- Receive with `recv`, then process with `proc` or go on in the state `going`. -/
def receive (c : ConnId) (recv : (Option Nat → Program) → Program) (proc : Program)
    (going : CurStat) : Program :=
  .read (fun _ s => (s.conn c).recvlen) fun supposeSize =>
    recv fun
      | none => .ret
      | some recvSize =>
          if recvSize = supposeSize then proc
          else .act fun s => s.modifyConn c fun conn => { conn with curstat := going }

def receiveHeader (c : ConnId) : Program :=
  receive c (pkgHeaderRecv c) (pkgHeaderProc c) .hdRecving

def receiveBody (c : ConnId) : Program :=
  receive c (pkgBodyRecv c) (pkgBodyProc c) .bdRecving

def eventReadableRequestHandler (c : ConnId) : Program :=
  .call <| .read (fun _ s => (s.conn c).curstat) fun
    | .hdInit => .seq (.act fun s => s.allocHeader c) (receiveHeader c)
    | .hdRecving => .test (fun _ s => (s.conn c).recvlen = 0) .ret (receiveHeader c)
    | .bdInit => .test (fun _ s => (s.conn c).recvlen = 0) .ret (receiveBody c)
    | .bdRecving => .test (fun _ s => (s.conn c).recvlen = 0) .ret (receiveBody c)

/-- `event_writable_request_handler` takes no mutex. -/
def eventWritableRequestHandler (c : ConnId) : Program :=
  .perform fun input s => s.eventWritableRequestHandler c input.env

/-- The loop of `event_accept_handler`, up to the descriptor it gets. -/
def acceptLoop (s : State) (standby : ConnId) : List AcceptAnswer → Option (State × Option Fd)
  | [] => none
  | .failed errno :: answers =>
      if errno = .eagain then some (s, none)
      else if s.useAccept4 ∧ errno = .enosys then
        acceptLoop { s with useAccept4 := false } standby answers
      else some (s, none)
  | .accepted connfd :: _ =>
      if 0 ≤ connfd ∧ s.openFds connfd = false ∧ s.openFds (s.conn standby).fd then
        some ({ s with openFds := Function.update s.openFds connfd true }, some connfd)
      else none

/-- `event_accept_handler` with a new descriptor and an object for it. -/
def welcome (connfd : Fd) (c : ConnId) : Program :=
  block
    [.when (fun input s => s.useAccept4 = false ∧ input.env.nonblock = false)
        (block [closeConnection c, .exit]),
      .perform fun input s =>
        some ((s.getOneToUse c input.env.now).modifyConn c fun conn =>
          { conn with fd := connfd, rhandler := some .readable, whandler := some .writable }),
      .atom (fun input s =>
          some (s.epollOperEvent connfd .add (epollin ||| epollrdhup) 0 c input.env.ctl))
        fun result => if result = -1 then block [closeConnection c, .ret] else .skip,
      .when (fun _ s => s.conf.timeEnable = 1) (addToTimerQueue c),
      .act fun s => { s with onlineCount := s.onlineCount + 1 }]

/-- `event_accept_handler` with a new descriptor. -/
def acceptClient (connfd : Fd) : Program :=
  block
    [.when (fun _ s => s.onlineCount ≥ s.conf.workerConnections)
        (block [.act fun s => s.closeFd connfd, .ret]),
      .when (fun _ s =>
        s.conf.workerConnections * 5 < -2 ^ 31 ∨ 2 ^ 31 ≤ s.conf.workerConnections * 5) .exit,
      .when (fun _ s => s.poolExhausted) (block [.act fun s => s.closeFd connfd, .ret]),
      getConnectionItem (welcome connfd)]

def eventAcceptHandler (standby : ConnId) : Program :=
  .call <| .atom (fun input s => acceptLoop s standby input.env.accept) fun
    | none => .ret
    | some connfd => acceptClient connfd

def callHandler (c : ConnId) : Option EventHandler → Program
  | none => .exit
  | some .accept => eventAcceptHandler c
  | some .readable => eventReadableRequestHandler c
  | some .writable => eventWritableRequestHandler c

/-- The body of the loop in `epoll_process_events`. -/
def handleEvent (c : ConnId) (events : Mask) : Program :=
  .seq
    (if events.has epollin then .read (fun _ s => (s.conn c).rhandler) (callHandler c) else .skip)
    (if events.has epollout then
      if events.has (epollrdhup ||| epollerr ||| epollhup) then
        .seq
          (.act fun s => s.modifyConn c fun conn =>
            { conn with iThrowsendCount := conn.iThrowsendCount - 1 })
          (closeAcceptedConnection c false)
      else .read (fun _ s => (s.conn c).whandler) (callHandler c)
    else .skip)

/-- The next event of the batch. -/
def nextEvent (s : State) : State × Option (Unit × ConnId × Mask) :=
  match s.events with
  | [] => (s, none)
  | event :: rest => ({ s with events := rest }, some ((), event))

/-- `epoll_process_events`; a failed `epoll_wait` is a batch without events. -/
def epollProcessEvents : Program :=
  .call <| .seq (.perform fun input s => s.epollWait input.fds) <|
    .loop () (fun _ _ s => some (nextEvent s)) fun (c, events) => handleEvent c events

/-- The next listening socket of `epoll_event_init`. -/
def nextListening (s : State) (i : Nat) : Option (Nat × Nat × Listening) :=
  s.listenSocketList[i]?.map fun pos => (i + 1, i, pos)

def epollEventInit : Program :=
  .seq (.perform fun _ s =>
      if s.conf.createConnectionsCount ≤ 0 then none else some s.connectpoolInit) <|
    .loop 0 (fun _ i s => some (s, nextListening s i)) fun (i, pos) =>
      getConnectionItem fun c => .perform fun input s =>
        let s := s.modifyConn c fun conn => { conn with fd := pos.fd, rhandler := some .accept }
        let s := { s with
          listenSocketList := s.listenSocketList.set i { pos with pConnitem := some c } }
        match s.epollOperEvent pos.fd .add (epollin ||| epollrdhup) 0 c input.ctl with
        | (s, 0) => some s
        | (_, _) => none

/-- `worker_process_cycle`, once its threads have been created. -/
def workerProcessCycle : Program :=
  .seq epollEventInit (.loopWhile (fun _ _ => true) epollProcessEvents)

/-! ## The process -/

/-- What each thread runs. -/
def program {n : Nat} : ThreadName n → Program
  | .eventLoop => workerProcessCycle
  | .worker _ => threadFunc
  | .sender => sendMsgThreadFunc
  | .timer => serverTimerQueueThreadFunc
  | .recycle => recyConnThreadFunc

/-- A worker process with `n` threads in its pool. -/
abbrev Process (n : Nat) := Threads (ThreadName n) State Input Note Mutex

/-- The process when its threads have been created. -/
def start (n : Nat) (boot : Boot) : Process n where
  memory := boot.state
  holder _ := none
  control t := ⟨false, [.todo (program t)]⟩

end Locking

end MyNginx
