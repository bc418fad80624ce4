import Mathlib
import MyNginx.Server.Moves

/-!
# The send subsystem at the granularity of its locks

Here the workers and the send thread run in smaller steps than in `Server.System`:
a worker is interrupted at every statement of `MsgSendInQueue` that the other
threads can see, and the send thread between two elements of its list. The loop and
the threads beside it run as before.

Besides the handlers of `CSocketLogic`, a worker may run those of another business:
`call` is the reply of any of them to a message it received. They all judge the
connection and set `sendlen_suppose` before they call `MsgSendInQueue`.
-/

namespace MyNginx

open Foundation

/-- Where a thread of the pool stands: outside `MsgSendInQueue`, or in front of one of
its statements. -/
inductive WorkerPc where
  | idle
  | entering (reply : Reply)
  | locked (reply : Reply)
  | pushed (reply : Reply)
  | unlocked (reply : Reply)
  | counted
  | posting
  deriving DecidableEq

namespace WorkerPc

/-- The thread is between the lock and the unlock. -/
def holds : WorkerPc → Bool
  | .locked _ | .pushed _ => true
  | _ => false

/-- The reply is in the list, and `++m_msgtosend_count` is still to come. -/
def owes : WorkerPc → Bool
  | .pushed _ | .unlocked _ | .counted => true
  | _ => false

/-- The reply the thread has made and not yet put into the list. -/
def pending : WorkerPc → Option Reply
  | .entering reply | .locked reply => some reply
  | _ => none

end WorkerPc

/-- Where the send thread stands: at the test of its loop, in `sem_wait`, behind it,
in front of the lock, or in its pass over the list. It ends behind the loop, or by the
`return` in the middle of a pass. -/
inductive SenderPc where
  | looping
  | waiting
  | woken
  | locking
  | scanning (i : Nat)
  | stopped
  | returned
  deriving DecidableEq, Repr

/-- The send thread is between its lock and its unlock. -/
def SenderPc.holds : SenderPc → Bool
  | .scanning _ => true
  | _ => false

namespace State

/-- The next statement of `MsgSendInQueue` in a worker thread. -/
def msgSendStep (s : State) (thread : Thread) : WorkerPc → Option (State × WorkerPc)
  | .idle => none
  | .entering reply =>
      if s.sendmutex = none then some (s.lockSend thread, .locked reply) else none
  | .locked reply =>
      if s.overloaded reply then some (s, .idle) else some (s.pushSend reply, .pushed reply)
  | .pushed reply => some (s.unlockSend, .unlocked reply)
  | .unlocked reply => some (s.countConn reply, .counted)
  | .counted => some (s.countTotal, .posting)
  | .posting => some (s.semPost, .idle)

/-- The next statement of `SendMsgThreadFunc`; one element of the list is one step. -/
def senderStep (s : State) (env : Env) : SenderPc → Option (State × SenderPc)
  | .looping => some (s, if s.stopEvent then .stopped else .waiting)
  | .waiting => if s.sendsem = 0 then none else some ({ s with sendsem := s.sendsem - 1 }, .woken)
  | .woken =>
      if s.stopEvent then some (s, .stopped)
      else some (s, if s.msgtosendCount > 0 then .locking else .looping)
  | .locking => if s.sendmutex = none then some (s.lockSend .sender, .scanning 0) else none
  | .scanning i =>
      if i < s.sendMsgList.length then
        (s.sendEntry i env).map fun
          | (s, .erased) => (s, .scanning i)
          | (s, .skipped) => (s, .scanning (i + 1))
          | (s, .returned) => (s, .returned)
      else some (s.unlockSend, .looping)
  | .stopped => none
  | .returned => none

end State

namespace Sending

/-- The server with `n` threads in its pool and the send thread. -/
structure Config (n : Nat) where
  server : State
  workers : Fin n → WorkerPc
  sender : SenderPc

inductive Action (n : Nat) where
  | loop (action : LoopAction)
  | take (w : Fin n) (now : Time)
  | call (w : Fin n) (reply : Reply)
  | advance (w : Fin n)
  | send (env : Env)
  | interrupt

variable {n : Nat}

/-- A worker makes a reply and stands in front of `MsgSendInQueue`. -/
def Config.handled (k : Config n) (w : Fin n) : State × Option Reply → Config n
  | (s, none) => { k with server := s }
  | (s, some reply) =>
      { k with server := s, workers := Function.update k.workers w (.entering reply) }

/-- The reply of a handler to a message of a connection that it found current. -/
def Answers (s : State) (reply : Reply) : Prop :=
  s.Stamped reply.head reply.origin ∧
    (s.conn reply.head.lpCurconn).judgeOutdate reply.head.msgCursequence = true

instance (s : State) (reply : Reply) : Decidable (Answers s reply) :=
  inferInstanceAs (Decidable ((_ < _ ∧ _ ≤ _ ∧ _ ≤ _ ∧ (_ → _)) ∧ _))

def step (k : Config n) : Action n → Option (Config n)
  | .loop action => (k.server.loopStep action).map fun s => { k with server := s }
  | .take w now =>
      if k.workers w = .idle then (k.server.takeMessage now).map (k.handled w) else none
  | .call w reply =>
      if k.workers w = .idle ∧ Answers k.server reply then
        some (k.handled w (k.server.supposeSend reply, some reply))
      else none
  | .advance w =>
      (k.server.msgSendStep (.worker w) (k.workers w)).map fun (s, pc) =>
        { k with server := s, workers := Function.update k.workers w pc }
  | .send env =>
      (k.server.senderStep env k.sender).map fun (s, pc) => { k with server := s, sender := pc }
  -- `sem_wait` fails, for instance because of a signal.
  | .interrupt => if k.sender = .waiting then some { k with sender := .stopped } else none

/-- The steps of this server: no handler of another business runs. -/
def Action.own : Action n → Bool
  | .call _ _ => false
  | _ => true

/-- A worker process at the start of its threads. -/
def Starts (boot : Boot) (k : Config n) : Prop :=
  boot.Starts k.server ∧ k.workers = (fun _ => .idle) ∧ k.sender = .looping

/-- Start a worker process and run it. -/
def launch (boot : Boot) (ctl : List Bool) (actions : List (Action n)) : Option (Config n) :=
  (boot.state.epollEventInit ctl).bind fun s =>
    run step ⟨s, fun _ => .idle, .looping⟩ actions

theorem starts_of_launch {boot : Boot} {ctl : List Bool} {actions : List (Action n)}
    {k : Config n} (h : launch boot ctl actions = some k) :
    ∃ k₀ : Config n, Starts boot k₀ ∧ run step k₀ actions = some k := by
  obtain ⟨s, hstart, hr⟩ := Option.bind_eq_some_iff.mp h
  exact ⟨_, ⟨⟨ctl, hstart⟩, rfl, rfl⟩, hr⟩

/-- Wait for the listening socket 3 and accept the descriptor `fd` at time `now`. -/
def acceptOn (fd : Fd) (now : Time) : List (Action n) :=
  [.loop (.epollWait [(3, epollin)]),
    .loop (.handleEvent { accept := [.accepted fd], now, later := now })]

/-- One event on the descriptor `fd`. -/
def eventOn (fd : Fd) (mask : Mask) (env : Env) : List (Action n) :=
  [.loop (.epollWait [(fd, mask)]), .loop (.handleEvent env)]

/-- A packet without a body and with code 0, which `_HandlePing` answers. -/
def pingPacket : List UInt8 := [0, 8, 0, 0, 0, 0, 0, 0]

/-- The worker of a pool of one. -/
def onlyWorker : Fin 1 := ⟨0, Nat.one_pos⟩

/-- The packet `pkg` arrives on the descriptor 5 and makes the worker `w` call
`MsgSendInQueue`. -/
def requestOn (w : Fin n) (pkg : List UInt8) : List (Action n) :=
  eventOn 5 epollin { recv := .data pkg } ++ [.take w 110]

/-- The worker `w` runs the statements of `MsgSendInQueue`. -/
def enqueueBy (w : Fin n) : List (Action n) := List.replicate 6 (.advance w)

end Sending

end MyNginx
