import Mathlib
import MyNginx.Comm
import MyNginx.Foundation.Heap

/-!
# The state of a worker process

`State` holds the connection objects, the members of `CSocket` and of the
thread pool, and the parts of the kernel the program talks to: open descriptors
and the epoll interest list. An `Env` holds what the system calls of one step
answer. Step functions return `none` when the step is impossible in the given
state: the program would block or exit, its behaviour would be undefined, or
the kernel cannot answer like that.

`History` is proof-only. It counts the uses of each object and records, by object
and use, what was closed, uncounted, put in the recycle list or returned to the
pool at once; it also records queued replies and bytes written. No function of
the server reads it.
-/

namespace MyNginx

open Foundation

/-- The threads that take `m_sendmutex`. -/
inductive Thread where
  | worker (w : Nat)
  | sender
  deriving DecidableEq, Repr

inductive Errno where
  | ok
  | eintr
  | eagain
  | econnreset
  | enosys
  | other
  deriving DecidableEq, Repr

/-- What `recv` does: store bytes, return 0, or return -1; the last two with the
value `errno` has afterwards, which `recv` does not set when it returns 0. -/
inductive RecvAnswer where
  | data (bytes : List UInt8)
  | zero (errno : Errno)
  | failed (errno : Errno)
  deriving DecidableEq, Repr

/-- What `send` does: accept `n` bytes, return 0, or return -1 with `errno`. -/
inductive SendAnswer where
  | sent (n : Nat)
  | zero
  | failed (errno : Errno)
  deriving DecidableEq, Repr

/-- What `accept4` and `accept` do. -/
inductive AcceptAnswer where
  | accepted (fd : Fd)
  | failed (errno : Errno)
  deriving DecidableEq, Repr

/-- The answers of the environment during one step. `send` and `accept` are
called in loops, so their answers are lists; `later` is the clock reading of
`AddToTimerQueue`, behind the one of `GetOneToUse`. -/
structure Env where
  recv : RecvAnswer := .failed .eagain
  send : List SendAnswer := []
  accept : List AcceptAnswer := []
  nonblock : Bool := true
  ctl : Bool := true
  close : Bool := true
  now : Time := 0
  later : Time := 0

/-- `listening_s`, without the port. -/
structure Listening where
  fd : Fd
  pConnitem : Option ConnId
  deriving DecidableEq, Repr

/-- Where the timer thread stands in `TimeCheckingProc` and `TimeOutProc`. The
lists are the rest of `list_toexam`; `conn_mutex` is free at each of these points. -/
inductive TimerPc where
  | idle
  | examining (due : List MsgHeader) (curTime : Time)
  | marked (head : MsgHeader) (due : List MsgHeader) (curTime : Time)
  | deleted (head : MsgHeader) (due : List MsgHeader) (curTime : Time)
  deriving DecidableEq, Repr

/-- One successful `send`: the bytes went to `fd`, the descriptor of the use
number `use` of the object `conn`, out of the message `reply`. -/
structure Written where
  conn : ConnId
  use : Nat
  fd : Fd
  reply : Reply
  bytes : List UInt8
  deriving DecidableEq

structure History where
  use : ConnId → Nat
  closes : List (ConnId × Nat)
  uncounted : List (ConnId × Nat)
  recycled : List (ConnId × Nat)
  rejected : List (ConnId × Nat)
  queued : List Reply
  wire : List Written

/-- The values `ReadConf` reads. -/
structure Conf where
  workerConnections : Int
  createConnectionsCount : Int
  delayTime : Int
  waittime : Int
  timeEnable : Int
  deriving DecidableEq, Repr

/-- Blocks of packet headers from `p_mem_manager`, and messages being received. -/
structure Blocks where
  memory : Heap (List UInt8)
  messages : Heap Message

/-- The connection pool of `CSocket`. -/
structure Pool where
  connectionList : List ConnId
  freeConnectionList : List ConnId
  totalConnectionCount : Int
  freeConnectionCount : Int
  onlineCount : Int
  recyConnectionList : List ConnId
  recyConnectionCount : Int
  recyThread : Bool
  stopEvent : Bool
  listenSocketList : List Listening
  useAccept4 : Bool

/-- The send queue of `CSocket`. -/
structure SendQueue where
  sendMsgList : List Reply
  sendmutex : Option Thread
  msgtosendCount : Int
  sendsem : Nat

/-- The timer queue of `CSocket`, and where the timer thread stands. -/
structure TimerQueue where
  timermap : List (Time × MsgHeader)
  timerValue : Time
  timermapSize : Int
  timer : TimerPc

/-- The receive queue of the thread pool. -/
structure ReceiveQueue where
  msgqueue : List (Option Message)
  msgqueueSize : Int

/-- Open descriptors, the interest list, and the part of `m_events` not handled yet. -/
structure Kernel where
  openFds : Fd → Bool
  interest : Fd → Option (Mask × ConnId)
  events : List (ConnId × Mask)

structure State extends Blocks, Pool, SendQueue, TimerQueue, ReceiveQueue, Kernel where
  conf : Conf
  conn : ConnId → Connection
  history : History

namespace State

/-- Change one connection object. -/
@[simps toBlocks toPool toSendQueue toTimerQueue toReceiveQueue toKernel conf conn history]
def modifyConn (s : State) (c : ConnId) (f : Connection → Connection) : State :=
  { s with conn := Function.update s.conn c (f (s.conn c)) }

@[simps toBlocks toPool toSendQueue toTimerQueue toReceiveQueue toKernel conf conn history]
def setMemory (s : State) (memory : Heap (List UInt8)) : State := { s with memory }

@[simps toBlocks toPool toSendQueue toTimerQueue toReceiveQueue toKernel conf conn history]
def setMessages (s : State) (messages : Heap Message) : State := { s with messages }

/-- `close(fd)`: the descriptor disappears, also from the interest list. -/
@[simps toBlocks toPool toSendQueue toTimerQueue toReceiveQueue toKernel conf conn history]
def closeFd (s : State) (fd : Fd) : State :=
  { s with
    openFds := Function.update s.openFds fd false
    interest := Function.update s.interest fd none }

end State

/-- The second argument of `epoll_ctl`. -/
inductive EpollOp where
  | add
  | mod
  | del
  deriving DecidableEq, Repr

namespace State

/-- `epoll_ctl`: it fails when the environment says so, when the descriptor is
not open, and when it is registered already (`add`) or not at all (the others). -/
def epollCtl (s : State) (op : EpollOp) (fd : Fd) (events : Mask) (c : ConnId) (ok : Bool) :
    Option State :=
  if ok && s.openFds fd && ((s.interest fd).isNone == (op == .add)) then
    some { s with
      interest := Function.update s.interest fd
        (if op = .del then none else some (events, c)) }
  else none

/-- The mask `epoll_oper_event` registers. -/
def operMask (old : Mask) (op : EpollOp) (eventType : Mask) (bcaction : Int) : Mask :=
  match op with
  | .del => 0
  | .add => eventType
  | .mod =>
      if bcaction = 0 then old ||| eventType
      else if bcaction = 1 then old &&& ~~~eventType
      else eventType

/-- `epoll_oper_event`, with the result it returns. -/
def epollOperEvent (s : State) (fd : Fd) (flag : EpollOp) (eventType : Mask) (bcaction : Int)
    (c : ConnId) (ok : Bool) : State × Int :=
  let mask := operMask (s.conn c).events flag eventType bcaction
  let s' := if flag = .del then s else s.modifyConn c fun conn => { conn with events := mask }
  match s'.epollCtl flag fd mask c ok with
  | some s'' => (s'', 0)
  | none => (s', -1)

end State

end MyNginx
