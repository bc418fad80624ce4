import MyNginx.EventLoop
import MyNginx.Logic
import MyNginx.Foundation.Transition

/-!
# The server as a transition system

A worker process starts from memory of unknown contents and the listening
sockets opened by its parent. In this system a worker handles a message in one
step, and the send thread one element of its list in one step.
-/

namespace MyNginx

open Foundation

/-- What a worker process finds when it starts. The kernel gave different
descriptors to the listening sockets. -/
structure Boot where
  conf : Conf
  raw : ConnId → Connection
  listenFds : List Fd
  nodup : listenFds.Nodup
  nonneg : ∀ fd ∈ listenFds, 0 ≤ fd

namespace Boot

/-- The state behind the constructors and `open_listen_sockets`. -/
def state (boot : Boot) : State where
  conf := boot.conf
  conn := boot.raw
  memory := .empty
  messages := .empty
  connectionList := []
  freeConnectionList := []
  totalConnectionCount := 0
  freeConnectionCount := 0
  onlineCount := 0
  recyConnectionList := []
  recyConnectionCount := 0
  recyThread := true
  stopEvent := false
  listenSocketList := boot.listenFds.map fun fd => ⟨fd, none⟩
  useAccept4 := true
  sendMsgList := []
  sendmutex := none
  msgtosendCount := 0
  sendsem := 0
  timermap := []
  timerValue := 0
  timermapSize := 0
  timer := .idle
  msgqueue := []
  msgqueueSize := 0
  openFds := fun fd => fd ∈ boot.listenFds
  interest := fun _ => none
  events := []
  history := ⟨fun _ => 0, [], [], [], [], [], []⟩

/-- The state in which a worker process enters its loop. -/
def Starts (boot : Boot) (s : State) : Prop :=
  ∃ ctl, boot.state.epollEventInit ctl = some s

/-- A small configuration: two connection objects besides the standby connection
of the listening socket 3, a waiting time of five seconds. -/
def small : Boot where
  conf := ⟨8, 3, 0, 5, 1⟩
  raw _ := {
    curstat := .bdRecving
    pHeaderinfo := none
    pMsgrecv := none
    recvStr := none
    pRecvbuf := .null
    recvlen := 0
    recvlenAlready := 0
    pMsgsend := none
    sendStr := none
    iThrowsendCount := 0
    pSendbuf := none
    sendlen := 0
    sendlenSuppose := 0
    sendlenAlready := 0
    isendCount := 0
    fd := 7
    rhandler := none
    whandler := none
    sequence := 4
    events := 0
    inrevyTime := 0
    inrecyList := 1
    pingUpdateTime := 0
    istimeout := true }
  listenFds := [3]
  nodup := by decide
  nonneg := by decide

end Boot

namespace Server

inductive Action where
  | loop (action : LoopAction)
  | work (w : Nat) (now : Time)
  | sendEntry (i : Nat) (env : Env)

/-- A worker takes one message and handles it, with the call of `MsgSendInQueue`. -/
def work (s : State) (w : Nat) (now : Time) : Option State :=
  (s.takeMessage now).bind fun
    | (s, none) => some s
    | (s, some reply) => s.msgSendInQueue (.worker w) reply

/-- The send thread handles the element at index `i`; on a length mismatch it
ends and keeps the mutex. -/
def sendOne (s : State) (i : Nat) (env : Env) : Option State :=
  if s.sendmutex ≠ none then none
  else
    (s.sendEntry i env).map fun
      | (s, .returned) => s.lockSend .sender
      | (s, _) => s

def step (s : State) : Action → Option State
  | .loop action => s.loopStep action
  | .work w now => work s w now
  | .sendEntry i env => sendOne s i env

/-- The states of a worker process of the server. -/
def Reachable (boot : Boot) (s : State) : Prop :=
  ∃ s₀ actions, boot.Starts s₀ ∧ run step s₀ actions = some s

/-- Start a worker process and run it. -/
def launch (boot : Boot) (ctl : List Bool) (actions : List Action) : Option State :=
  (boot.state.epollEventInit ctl).bind fun s => run step s actions

theorem reachable_of_launch {boot : Boot} {ctl : List Bool} {actions : List Action} {s : State}
    (h : launch boot ctl actions = some s) : Reachable boot s := by
  obtain ⟨s₀, hstart, hr⟩ := Option.bind_eq_some_iff.mp h
  exact ⟨s₀, actions, ⟨ctl, hstart⟩, hr⟩

/-- Wait for the listening socket 3 and accept the descriptor `fd` at time `now`. -/
def acceptOn (fd : Fd) (now : Time) : List Action :=
  [.loop (.epollWait [(3, epollin)]),
    .loop (.handleEvent { accept := [.accepted fd], now, later := now })]

/-- One event on the descriptor `fd`. -/
def eventOn (fd : Fd) (mask : Mask) (env : Env) : List Action :=
  [.loop (.epollWait [(fd, mask)]), .loop (.handleEvent env)]

end Server

end MyNginx
