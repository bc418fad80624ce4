import MyNginx.Net.Accept
import MyNginx.Net.Request

/-!
# The event loop and the auxiliary threads

`epoll_process_events` fetches a batch of events and handles them one by one.
Between two of them the timer thread, the recycle thread and the other threads
may run, so the events of a batch can be stale when they are handled.
`LoopAction` lists the steps of these threads; the workers and the send thread
are added by the systems built over them.
-/

namespace MyNginx

namespace State

/-- An event `epoll_wait` can report: the registered bits, and the two error
bits that are always reported. -/
def reportEvent (s : State) (event : Fd × Mask) : Option (ConnId × Mask) :=
  match s.interest event.1 with
  | none => none
  | some (registered, c) =>
      if event.2 &&& ~~~(registered ||| epollerr ||| epollhup) = 0 then some (c, event.2)
      else none

/-- `epoll_wait`, once the previous batch is finished. -/
def epollWait (s : State) (events : List (Fd × Mask)) : Option State :=
  if s.events = [] then
    (events.mapM s.reportEvent).map fun events => { s with events }
  else none

/-- The call through `rhandler` or `whandler`. -/
def callHandler (s : State) (handler : Option EventHandler) (c : ConnId) (env : Env) :
    Option State :=
  match handler with
  | none => none
  | some .accept => s.eventAcceptHandler c env
  | some .readable => s.eventReadableRequestHandler c env
  | some .writable => s.eventWritableRequestHandler c env

/-- The `EPOLLIN` part of the body of the loop in `epoll_process_events`. -/
def handleIn (s : State) (c : ConnId) (events : Mask) (env : Env) : Option State :=
  if events.has epollin then s.callHandler (s.conn c).rhandler c env else some s

/-- The `EPOLLOUT` part. -/
def handleOut (s : State) (c : ConnId) (events : Mask) (env : Env) : Option State :=
  if events.has epollout then
    if events.has (epollrdhup ||| epollerr ||| epollhup) then
      (s.modifyConn c fun conn =>
        { conn with iThrowsendCount := conn.iThrowsendCount - 1 }).closeAcceptedConnection
          c false env
    else s.callHandler (s.conn c).whandler c env
  else some s

/-- The body of the loop, for the next event of the batch. -/
def handleEvent (s : State) (env : Env) : Option State :=
  match s.events with
  | [] => none
  | (c, events) :: rest =>
      ({ s with events := rest }.handleIn c events env).bind fun s => s.handleOut c events env

end State

/-- The steps of the event loop, the timer thread and the recycle thread. -/
inductive LoopAction where
  | epollWait (events : List (Fd × Mask))
  | handleEvent (env : Env)
  | timerBegin (curTime : Time)
  | timerCheck
  | timerDelete
  | timerClose (env : Env)
  | recycle (times : List Time)
  | shutdown

/-- The answers of the system calls in a step that makes some. -/
def LoopAction.env : LoopAction → Env
  | .handleEvent env => env
  | .timerClose env => env
  | _ => {}

namespace State

def loopStep (s : State) : LoopAction → Option State
  | .epollWait events => s.epollWait events
  | .handleEvent env => s.handleEvent env
  | .timerBegin curTime => s.timerBegin curTime
  | .timerCheck => s.timeCheckingProc
  | .timerDelete => s.timeOutDelete
  | .timerClose env => s.timeOutClose env
  | .recycle times => s.recyConnThreadFunc times
  | .shutdown => some { s with stopEvent := true }

end State

end MyNginx
