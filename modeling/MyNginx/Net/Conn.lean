import MyNginx.State

/-!
# The connection pool

The functions of `socket_conn.cxx` and the pool part of `c_socket.cxx`: taking
objects out of the pool, returning them at once or through the delayed-recycle
list, and the passes of the recycle thread.
-/

namespace MyNginx

open Foundation

namespace State

/-- The message blocks without the one `p_msgrecv` owns, which goes when that
pointer becomes null. -/
def withoutMsgrecv (s : State) (c : ConnId) : Heap Message :=
  match (s.conn c).pMsgrecv with
  | some b => s.messages.release b
  | none => s.messages

/-- The receive state machine at its beginning. -/
def Incoming.start : Incoming where
  curstat := .hdInit
  pHeaderinfo := none
  pMsgrecv := none
  recvStr := none
  pRecvbuf := .null
  recvlen := pkgHeaderLen
  recvlenAlready := 0

@[simps toBlocks toPool toSendQueue toTimerQueue toReceiveQueue toKernel conf conn history]
def putToStateMach (s : State) (c : ConnId) : State :=
  { s with
    messages := s.withoutMsgrecv c
    conn := Function.update s.conn c { s.conn c with toIncoming := Incoming.start } }

/-- The part of `GetOneToUse` before `PutToStateMach`; a new use of the object begins. -/
@[simps toBlocks toPool toSendQueue toTimerQueue toReceiveQueue toKernel conf conn history]
def beginUse (s : State) (c : ConnId) (now : Time) : State :=
  { s with
    conn := Function.update s.conn c
      { s.conn c with
        sequence := (s.conn c).sequence + 1
        fd := -1
        events := 0
        iThrowsendCount := 0
        sendlenAlready := 0
        isendCount := 0
        inrecyList := 0
        istimeout := false
        pingUpdateTime := now }
    history := { s.history with
      use := Function.update s.history.use c (s.history.use c + 1) } }

def getOneToUse (s : State) (c : ConnId) (now : Time) : State :=
  (s.beginUse c now).putToStateMach c

@[simps toBlocks toPool toSendQueue toTimerQueue toReceiveQueue toKernel conf conn history]
def putOneToFree (s : State) (c : ConnId) : State :=
  { s with
    messages := s.withoutMsgrecv c
    conn := Function.update s.conn c
      { s.conn c with
        sequence := (s.conn c).sequence + 1
        pRecvbuf := .null
        recvStr := none
        pMsgrecv := none
        pSendbuf := none
        sendStr := none
        pMsgsend := none
        iThrowsendCount := 0 } }

/-- `new connection_t(-1)` at the next unused number, pushed to `m_connectionList`.
The indeterminate `p_sendbuf` of a new object is a position in no reply. -/
@[simps toBlocks toPool toSendQueue toTimerQueue toReceiveQueue toKernel conf conn history]
def newConnection (s : State) : State :=
  { s with
    connectionList := s.connectionList ++ [s.connectionList.length]
    conn := Function.update s.conn s.connectionList.length
      { s.conn s.connectionList.length with
        fd := -1
        sequence := 0
        pMsgrecv := none
        pMsgsend := none
        pSendbuf := none } }

def getConnectionItem (s : State) : State × ConnId :=
  match s.freeConnectionList with
  | c :: rest =>
      ({ s with
        freeConnectionList := rest
        freeConnectionCount := s.freeConnectionCount - 1 }, c)
  | [] =>
      ({ s.newConnection with totalConnectionCount := s.totalConnectionCount + 1 },
        s.connectionList.length)

@[simps toBlocks toPool toSendQueue toTimerQueue toReceiveQueue toKernel conf conn history]
def freeConnectionItem (s : State) (c : ConnId) : State :=
  { s with
    freeConnectionList := s.freeConnectionList ++ [c]
    freeConnectionCount := s.freeConnectionCount + 1 }

/-- What `close_connection` does behind `close`. -/
@[simps toBlocks toPool toSendQueue toTimerQueue toReceiveQueue toKernel conf conn history]
def release (s : State) (c : ConnId) : State :=
  { s with
    conn := Function.update s.conn c
      { s.conn c with fd := -1, sequence := (s.conn c).sequence + 1 }
    history := { s.history with
      rejected := s.history.rejected ++ [(c, s.history.use c)] } }

/-- `close_connection`: immediate return of an object that is not on the
listening tree; the failures exit. -/
def closeConnection (s : State) (c : ConnId) (env : Env) : Option State :=
  let fdClose := (s.conn c).fd
  if fdClose = -1 ∨ (s.conn c).istimeout then none
  else if env.close && s.openFds fdClose then
    some (((s.closeFd fdClose).release c).freeConnectionItem c)
  else none

/-- What `InRecyConnQueue` does with an object it accepts. -/
@[simps toBlocks toPool toSendQueue toTimerQueue toReceiveQueue toKernel conf conn history]
def enqueueRecy (s : State) (c : ConnId) (now : Time) : State :=
  { s with
    conn := Function.update s.conn c { s.conn c with inrecyList := 1, inrevyTime := now }
    recyConnectionCount := s.recyConnectionCount + 1
    recyConnectionList := s.recyConnectionList ++ [c]
    history := { s.history with
      recycled := s.history.recycled ++ [(c, s.history.use c)] } }

def inRecyConnQueue (s : State) (c : ConnId) (now : Time) : State :=
  if (s.conn c).inrecyList = 1 then s
  else if c ∈ s.recyConnectionList then s
  else s.enqueueRecy c now

/-- What `close_accepted_connection` does behind `close`, before `InRecyConnQueue`. -/
@[simps toBlocks toPool toSendQueue toTimerQueue toReceiveQueue toKernel conf conn history]
def retire (s : State) (c : ConnId) : State :=
  { s with
    conn := Function.update s.conn c
      { s.conn c with
        fd := -1
        iThrowsendCount :=
          if (s.conn c).iThrowsendCount > 0 then (s.conn c).iThrowsendCount - 1
          else (s.conn c).iThrowsendCount }
    onlineCount := s.onlineCount - 1
    history := { s.history with
      closes := s.history.closes ++ [(c, s.history.use c)]
      uncounted := s.history.uncounted ++ [(c, s.history.use c)] } }

/-- `close_accepted_connection`, as a whole under `conn_mutex`. A `close` that
fails exits. -/
def closeAcceptedConnection (s : State) (c : ConnId) (istimeoutClose : Bool) (env : Env) :
    Option State :=
  let fdToclose := (s.conn c).fd
  if fdToclose = -1 then some s
  else if !istimeoutClose && (s.conn c).istimeout then some s
  else
    let s := (s.epollOperEvent fdToclose .del 0 0 c env.ctl).1
    if env.close && s.openFds fdToclose then
      some (((s.closeFd fdToclose).retire c).inRecyConnQueue c env.now)
    else none

/-- One entry leaves the recycle list, of which `others` remains, for the free queue. -/
def recycle (s : State) (c : ConnId) (others : List ConnId) : State :=
  ({ s with recyConnectionList := others }.putOneToFree c).freeConnectionItem c

/-- The `for` loop of a recycle pass: `kept` is behind the iterator, every
entry ahead of it reads the clock once. -/
def recyLoop (s : State) (kept : List ConnId) : List ConnId → List Time → Option State
  | [], _ => some s
  | _ :: _, [] => none
  | c :: ahead, curTime :: times =>
      if s.conf.delayTime + (s.conn c).inrevyTime < curTime ∧ s.stopEvent = false then
        let s := { s with recyConnectionCount := s.recyConnectionCount - 1 }
        recyLoop (s.recycle c (kept ++ ahead)) kept ahead times
      else recyLoop s (kept ++ [c]) ahead times

/-- The loop that empties the recycle list when the process is about to stop. -/
def recyDrain (s : State) : List ConnId → State
  | [] => s
  | c :: ahead => recyDrain (s.recycle c ahead) ahead

/-- One round of `RecyConnThreadFunc`. -/
def recyConnThreadFunc (s : State) (times : List Time) : Option State :=
  if s.recyThread = false then none
  else if s.recyConnectionCount > 0 then
    if s.stopEvent then
      some { s.recyDrain s.recyConnectionList with recyThread := false }
    else s.recyLoop [] s.recyConnectionList times
  else some s

/-- The `for` loop of `connectpool_init`. -/
def createConnections (s : State) : Nat → State
  | 0 => s
  | n + 1 =>
      createConnections { s.newConnection with
        freeConnectionList := s.freeConnectionList ++ [s.connectionList.length] } n

def connectpoolInit (s : State) : State :=
  { s.createConnections s.conf.createConnectionsCount.toNat with
    totalConnectionCount := s.conf.createConnectionsCount
    freeConnectionCount := s.conf.createConnectionsCount }

/-- The loop over `m_ListenSocketList`: `ready` has its standby connections. A
failed registration exits. -/
def listenLoop (s : State) (ready : List Listening) : List Listening → List Bool → Option State
  | [], _ => some s
  | _ :: _, [] => none
  | pos :: rest, ok :: oks =>
      let (s, c) := s.getConnectionItem
      let s := s.modifyConn c fun conn =>
        { conn with fd := pos.fd, rhandler := some .accept }
      let ready := ready ++ [{ pos with pConnitem := some c }]
      let s := { s with listenSocketList := ready ++ rest }
      match s.epollOperEvent pos.fd .add (epollin ||| epollrdhup) 0 c ok with
      | (s, 0) => listenLoop s ready rest oks
      | (_, _) => none

/-- `epoll_event_init`. `epoll_create` refuses a size that is not positive. -/
def epollEventInit (s : State) (ctl : List Bool) : Option State :=
  if s.conf.createConnectionsCount ≤ 0 then none
  else s.connectpoolInit.listenLoop [] s.listenSocketList ctl

end State

end MyNginx
