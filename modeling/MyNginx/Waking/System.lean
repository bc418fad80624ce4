import MyNginx.Sending.Invariant

/-!
# The EPOLLOUT handler step by step

The send subsystem with the event loop cut inside `event_writable_request_handler`: the
send, the `sem_post` behind it, and the reset of the connection's sending part are three
steps. The timer thread, the recycle thread, the workers and the send thread may run
between them; the event loop itself handles no other event meanwhile.
-/

namespace MyNginx

open Foundation

namespace Waking

/-- Where the event loop stands: between two events, or in the `EPOLLOUT` handler of a
connection, in front of its `sem_post` or behind it. -/
inductive LoopPc where
  | between
  | posting (c : ConnId)
  | resetting (c : ConnId)
  deriving DecidableEq

end Waking

namespace State

open Waking

/-- The call through `whandler` in the `EPOLLOUT` part of an event, until the handler of a
connection comes to its `sem_post`. -/
def callWhandler (s : State) (c : ConnId) (env : Env) : Option (State × LoopPc) :=
  if (s.conn c).whandler = some .writable then
    (s.writableSend c env).map fun (s, ends) => (s, if ends then .posting c else .between)
  else (s.callHandler (s.conn c).whandler c env).map fun s => (s, .between)

/-- The `EPOLLOUT` part of an event, until the handler comes to its `sem_post`. -/
def beginOut (s : State) (c : ConnId) (events : Mask) (env : Env) : Option (State × LoopPc) :=
  if events.has epollout ∧ ¬ events.has (epollrdhup ||| epollerr ||| epollhup) then
    s.callWhandler c env
  else (s.handleOut c events env).map fun s => (s, .between)

/-- The body of the loop of `epoll_process_events`, until the `EPOLLOUT` handler comes to
its `sem_post`. -/
def beginEvent (s : State) (env : Env) : Option (State × LoopPc) :=
  match s.events with
  | [] => none
  | (c, events) :: rest =>
      ({ s with events := rest }.handleIn c events env).bind fun s => s.beginOut c events env

/-- What the `EPOLLOUT` handler does behind its `sem_post`. -/
def resetSend (s : State) (c : ConnId) : State :=
  (s.clearSend c).modifyConn c fun conn => { conn with iThrowsendCount := 0 }

/-- The rest of the body of the loop. -/
def finishEvent (s : State) : LoopPc → State
  | .between => s
  | .posting c => s.semPost.resetSend c
  | .resetting c => s.resetSend c

/-- The pieces together are the body of the loop. -/
theorem handleEvent_eq (s : State) (env : Env) :
    s.handleEvent env = (s.beginEvent env).map fun (s, pc) => s.finishEvent pc := by
  have hout : ∀ (s : State) (c : ConnId) (events : Mask), s.handleOut c events env =
      (s.beginOut c events env).map fun (s, pc) => s.finishEvent pc := by
    intro s c events
    simp only [beginOut]
    split
    next hplain =>
      simp only [handleOut, if_pos hplain.1, if_neg hplain.2, callWhandler]
      split
      next hwritable =>
        rw [hwritable, callHandler, eventWritableRequestHandler_eq, Option.map_map]
        refine congrArg (Option.map · _) (funext fun result => ?_)
        obtain ⟨t, ends⟩ := result
        cases ends <;> rfl
      next => simp [Option.map_map, Function.comp_def, finishEvent]
    next => simp [Option.map_map, Function.comp_def, finishEvent]
  cases hevents : s.events with
  | nil => simp [handleEvent, beginEvent, hevents]
  | cons event rest =>
      simp only [handleEvent, beginEvent, hevents, Option.map_bind]
      exact congrArg (Option.bind _) (funext fun t => hout t _ _)

end State

namespace Waking

/-- The send subsystem and the point at which the event loop stands. -/
structure Config (n : Nat) where
  base : Sending.Config n
  loop : LoopPc

inductive Action (n : Nat) where
  | other (action : Sending.Action n)
  | beginEvent (env : Env)
  | post
  | reset

variable {n : Nat}

/-- The next batch is fetched when the last event has been handled; events are handled by
the other actions of this system. -/
def Permitted (loop : LoopPc) : Sending.Action n → Prop
  | .loop (.epollWait _) => loop = .between
  | .loop (.handleEvent _) => False
  | _ => True

instance (loop : LoopPc) : DecidablePred (Permitted (n := n) loop) := fun action => by
  unfold Permitted
  rcases action with (_ | _) | _ <;> infer_instance

/-- The configuration with another state of the server. -/
def Config.serve (k : Config n) (s : State) (loop : LoopPc) : Config n :=
  ⟨{ k.base with server := s }, loop⟩

def step (k : Config n) : Action n → Option (Config n)
  | .other action =>
      if Permitted k.loop action then
        (Sending.step k.base action).map fun base => { k with base }
      else none
  | .beginEvent env =>
      if k.loop = .between then
        (k.base.server.beginEvent env).map fun (s, loop) => k.serve s loop
      else none
  | .post =>
      match k.loop with
      | .posting c => some (k.serve k.base.server.semPost (.resetting c))
      | _ => none
  | .reset =>
      match k.loop with
      | .resetting c => some (k.serve (k.base.server.resetSend c) .between)
      | _ => none

/-- A worker process at the start of its threads. -/
def Starts (boot : Boot) (k : Config n) : Prop := Sending.Starts boot k.base ∧ k.loop = .between

end Waking

end MyNginx
