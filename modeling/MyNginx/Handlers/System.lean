import Mathlib
import MyNginx.Server.System

/-!
# Handlers at the granularity of `conn_mutex`

Here a worker that runs `_HandleRegister` or `_HandleLogin` stops at every test of the
connection and at every lock and unlock of its mutex. The two threads that close
connections take the mutex of a connection some time before they close it and release
it some time afterwards; what they do with a connection takes no other part here, so a
thread may hold it for as long as it likes. The other steps of `Server.System` are as
they were.
-/

namespace MyNginx

open Foundation

/-- The threads that call `close_accepted_connection`. -/
inductive Closer where
  | eventLoop
  | timer
  deriving DecidableEq, Repr

/-- Who runs a step of the loop or beside it, if it is one of these threads. -/
def LoopAction.closer : LoopAction → Option Closer
  | .handleEvent _ => some .eventLoop
  | .timerClose _ => some .timer
  | _ => none

/-- Who holds a `conn_mutex`. -/
inductive Holder (n : Nat) where
  | closer (thread : Closer)
  | worker (w : Fin n)
  deriving DecidableEq

/-- Where a worker stands in `_HandleRegister` or `_HandleLogin`, with the request and
the reply it will make: in front of the first `JudgeOutdate`, of the constructor of
`CLock`, of its destructor at the end of the `else` branch, of the second
`JudgeOutdate`, and of `MsgSendInQueue`. -/
inductive HandlerPc where
  | idle
  | first (request : Message) (reply : Reply)
  | locking (request : Message) (reply : Reply)
  | locked (request : Message) (reply : Reply)
  | second (request : Message) (reply : Reply)
  | sending (request : Message) (reply : Reply)

namespace HandlerPc

/-- The request a handler is working on, and its reply. -/
def handling : HandlerPc → Option (Message × Reply)
  | .idle => none
  | .first request reply | .locking request reply | .locked request reply
  | .second request reply | .sending request reply => some (request, reply)

/-- The request of a handler that is about to execute `MsgSendInQueue`. -/
def answering : HandlerPc → Option Message
  | .sending request _ => some request
  | _ => none

end HandlerPc

namespace State

/-- The test a handler makes of the connection of its request. -/
def judges (s : State) (request : Message) : Bool :=
  (s.conn request.head.lpCurconn).judgeOutdate request.head.msgCursequence

end State

namespace Handlers

/-- The server with `n` threads in its pool and the mutexes of its connections. -/
structure Config (n : Nat) where
  server : State
  connMutex : ConnId → Option (Holder n)
  workers : Fin n → HandlerPc

inductive Action (n : Nat) where
  | loop (action : LoopAction)
  | lock (thread : Closer) (c : ConnId)
  | unlock (thread : Closer) (c : ConnId)
  | take (w : Fin n) (now : Time)
  | advance (w : Fin n)
  | sendEntry (i : Nat) (env : Env)

variable {n : Nat}

/-- Whoever closes a connection holds its mutex. -/
def Guarded (k : Config n) (action : LoopAction) (s : State) : Prop :=
  ∀ c ∈ k.server.connectionList, (k.server.conn c).fd ≠ -1 → (s.conn c).fd = -1 →
    ∃ thread ∈ action.closer, k.connMutex c = some (.closer thread)

instance (k : Config n) (action : LoopAction) (s : State) : Decidable (Guarded k action s) :=
  inferInstanceAs (Decidable (∀ c ∈ k.server.connectionList, _ → _ → _))

/-- The worker stands at `pc`. -/
def Config.goto (k : Config n) (w : Fin n) (pc : HandlerPc) : Config n :=
  { k with workers := Function.update k.workers w pc }

/-- The mutex of the connection `c` changes hands. -/
def Config.setMutex (k : Config n) (c : ConnId) (holder : Option (Holder n)) : Config n :=
  { k with connMutex := Function.update k.connMutex c holder }

/-- A worker takes a message. It stops in front of the first test of `_HandleRegister`
and `_HandleLogin`; `_HandlePing` runs as a whole, with the mutex. -/
def take (k : Config n) (w : Fin n) (now : Time) : Option (Config n) :=
  if k.server.msgqueue = [] then none
  else
    match k.server.getMsgItem with
    | (s, none) => some { k with server := s }
    | (s, some msg) =>
        match s.threadRecvProc msg now with
        | (t, none) => some { k with server := t }
        | (t, some reply) =>
            if msgCode msg.buf = cmdRegister ∨ msgCode msg.buf = cmdLogin then
              some ({ k with server := s }.goto w (.first msg reply))
            else if k.connMutex msg.head.lpCurconn = none then
              (t.msgSendInQueue (.worker w) reply).map fun s => { k with server := s }
            else none

/-- The next statement of a handler. -/
def advance (k : Config n) (w : Fin n) : Option (Config n) :=
  match k.workers w with
  | .idle => none
  | .first request reply =>
      some (k.goto w (if k.server.judges request then .locking request reply else .idle))
  | .locking request reply =>
      if k.connMutex request.head.lpCurconn = none then
        some ((k.setMutex request.head.lpCurconn (some (.worker w))).goto w
          (.locked request reply))
      else none
  -- The scope of `lock` ends with the `else` branch.
  | .locked request reply =>
      some ((k.setMutex request.head.lpCurconn none).goto w (.second request reply))
  | .second request reply =>
      some (k.goto w (if k.server.judges request then .sending request reply else .idle))
  | .sending _ reply =>
      ((k.server.supposeSend reply).msgSendInQueue (.worker w) reply).map fun s =>
        { k with server := s }.goto w .idle

def step (k : Config n) : Action n → Option (Config n)
  | .loop action =>
      (k.server.loopStep action).bind fun s =>
        if Guarded k action s then some { k with server := s } else none
  | .lock thread c =>
      if k.connMutex c = none then some (k.setMutex c (some (.closer thread))) else none
  | .unlock thread c =>
      if k.connMutex c = some (.closer thread) then some (k.setMutex c none) else none
  | .take w now => match k.workers w with
      | .idle => take k w now
      | _ => none
  | .advance w => advance k w
  | .sendEntry i env => (Server.sendOne k.server i env).map fun s => { k with server := s }

/-- A worker process at the start of its threads. -/
def Starts (boot : Boot) (k : Config n) : Prop :=
  boot.Starts k.server ∧ k.connMutex = (fun _ => none) ∧ k.workers = fun _ => .idle

/-- Start a worker process and run it. -/
def launch (boot : Boot) (ctl : List Bool) (actions : List (Action n)) : Option (Config n) :=
  (boot.state.epollEventInit ctl).bind fun s =>
    run step ⟨s, fun _ => none, fun _ => .idle⟩ actions

end Handlers

end MyNginx
