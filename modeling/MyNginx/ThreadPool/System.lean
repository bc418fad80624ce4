import Mathlib
import MyNginx.Foundation.Transition
import MyNginx.Logic

/-!
# The thread pool at the granularity of its mutex

`ThreadFunc` runs in `n` threads and `InMsgRecv` in `m` callers. Each of them stops in
front of every statement that locks, unlocks, waits, signals or uses the queue, so a
schedule is a list of actions. A signal wakes one waiting thread if there is one and is
lost otherwise; a thread may also wake up without a signal. Shutdown is the setting of
`ifshutdown` and the broadcast of `StopAll`.

`History` is proof-only: what was pushed, what each thread took off the queue, and what
it passed to `ThreadRecvProc`.
-/

namespace MyNginx

open Foundation

namespace ThreadPool

/-- Where a thread stands in `ThreadFunc`: in front of the lock, the test of the inner
loop, `pthread_cond_wait`; inside it, or woken and without the mutex yet; in front of
`get_msg_item`, behind it, in `ThreadRecvProc`, in front of the last unlock, at the end. -/
inductive ThreadPc where
  | locking
  | testing
  | parking
  | waiting
  | waking
  | getting
  | got (msgPtr : Option Message)
  | processing (msg : Message)
  | leaving
  | ended
  deriving DecidableEq

/-- Where a caller stands: outside `InMsgRecv`, in front of its lock, of `push_back`, of
`++m_msgqueue_size`, of the unlock, or of the signal in `Call`. -/
inductive CallerPc where
  | outside
  | locking (msg : Option Message)
  | pushing (msg : Option Message)
  | counting
  | unlocking
  | calling
  deriving DecidableEq

/-- The thread has the mutex. -/
def ThreadPc.holds : ThreadPc → Bool
  | .testing | .parking | .getting | .got _ | .leaving => true
  | _ => false

/-- The caller has the mutex. -/
def CallerPc.holds : CallerPc → Bool
  | .pushing _ | .counting | .unlocking => true
  | _ => false

/-- The message is in the queue, and the signal is still to come. -/
def CallerPc.owes : CallerPc → Bool
  | .counting | .unlocking | .calling => true
  | _ => false

/-- The message in the hands of a thread. -/
def ThreadPc.hand : ThreadPc → Option Message
  | .got msgPtr => msgPtr
  | .processing msg => some msg
  | _ => none

structure History (n : Nat) where
  pushed : List (Option Message)
  taken : List (Fin n × Option Message)
  processed : List (Fin n × Message)

/-- `CThreadPool` with its threads and callers. -/
structure Config (n m : Nat) extends ReceiveQueue where
  pthreadMutex : Option (Fin n ⊕ Fin m)
  running : Fin n → Bool
  ifshutdown : Fin n → Bool
  iRunningThread : Int
  thread : Fin n → ThreadPc
  caller : Fin m → CallerPc
  history : History n

inductive Action (n m : Nat) where
  | thread (w : Fin n)
  | wake (w : Fin n)
  | inMsgRecv (p : Fin m) (msg : Option Message)
  | caller (p : Fin m)
  | signal (p : Fin m) (woken : Option (Fin n))
  | stop (w : Fin n)
  | broadcast

variable {n m : Nat}

/-- The thread goes on to `pc`. -/
def Config.goto (k : Config n m) (w : Fin n) (pc : ThreadPc) : Config n m :=
  { k with thread := Function.update k.thread w pc }

/-- The caller goes on to `pc`. -/
def Config.callerGoto (k : Config n m) (p : Fin m) (pc : CallerPc) : Config n m :=
  { k with caller := Function.update k.caller p pc }

/-- `get_msg_item`. -/
def getMsgItem (q : ReceiveQueue) : ReceiveQueue × Option Message :=
  match q.msgqueue with
  | [] => (q, none)
  | msg :: rest => (⟨rest, q.msgqueueSize - 1⟩, msg)

/-- The pool and the server take a message off the queue in the same way. -/
theorem getMsgItem_toReceiveQueue (s : State) :
    getMsgItem s.toReceiveQueue = (s.getMsgItem.1.toReceiveQueue, s.getMsgItem.2) := by
  cases hqueue : s.msgqueue <;> simp [getMsgItem, State.getMsgItem, hqueue]

/-- The next statement of `ThreadFunc`. -/
def threadStep (k : Config n m) (w : Fin n) : ThreadPc → Option (Config n m)
  | .locking | .waking =>
      if k.pthreadMutex = none then
        some ({ k with pthreadMutex := some (.inl w) }.goto w .testing)
      else none
  | .testing =>
      if k.msgqueue = [] ∧ k.ifshutdown w = false then
        some ({ k with running := Function.update k.running w true }.goto w .parking)
      else if k.ifshutdown w then
        some ({ k with running := Function.update k.running w false }.goto w .leaving)
      else some (k.goto w .getting)
  | .parking => some ({ k with pthreadMutex := none }.goto w .waiting)
  | .waiting => none
  | .getting =>
      let (queue, msgPtr) := getMsgItem k.toReceiveQueue
      let history := { k.history with
        taken := k.history.taken ++ (k.msgqueue.take 1).map fun msg => (w, msg) }
      some ({ k with toReceiveQueue := queue, history }.goto w (.got msgPtr))
  | .got none => some ({ k with pthreadMutex := none }.goto w .locking)
  | .got (some msg) =>
      some ({ k with pthreadMutex := none, iRunningThread := k.iRunningThread + 1 }.goto w
        (.processing msg))
  | .processing msg =>
      let history := { k.history with processed := k.history.processed ++ [(w, msg)] }
      some ({ k with iRunningThread := k.iRunningThread - 1, history }.goto w .locking)
  | .leaving =>
      some ({ k with
        pthreadMutex := none, running := Function.update k.running w false }.goto w .ended)
  | .ended => none

/-- The next statement of `InMsgRecv`, up to the signal. -/
def callerStep (k : Config n m) (p : Fin m) : CallerPc → Option (Config n m)
  | .outside => none
  | .locking msg =>
      if k.pthreadMutex = none then
        some ({ k with pthreadMutex := some (.inr p) }.callerGoto p (.pushing msg))
      else none
  | .pushing msg =>
      let history := { k.history with pushed := k.history.pushed ++ [msg] }
      some ({ k with msgqueue := k.msgqueue ++ [msg], history }.callerGoto p .counting)
  | .counting => some ({ k with msgqueueSize := k.msgqueueSize + 1 }.callerGoto p .unlocking)
  | .unlocking => some ({ k with pthreadMutex := none }.callerGoto p .calling)
  | .calling => none

/-- `pthread_cond_signal` wakes one of the waiting threads; with none it has no effect. -/
def signal (k : Config n m) : Option (Fin n) → Option (Config n m)
  | none => if ∀ w, k.thread w ≠ .waiting then some k else none
  | some w => if k.thread w = .waiting then some (k.goto w .waking) else none

/-- `pthread_cond_broadcast`. -/
def broadcast (k : Config n m) : Config n m :=
  { k with thread := fun w => if k.thread w = .waiting then .waking else k.thread w }

def step (k : Config n m) : Action n m → Option (Config n m)
  | .thread w => threadStep k w (k.thread w)
  | .wake w => if k.thread w = .waiting then some (k.goto w .waking) else none
  | .inMsgRecv p msg =>
      if k.caller p = .outside then some (k.callerGoto p (.locking msg)) else none
  | .caller p => callerStep k p (k.caller p)
  | .signal p woken =>
      if k.caller p = .calling then (signal (k.callerGoto p .outside) woken) else none
  | .stop w => some { k with ifshutdown := Function.update k.ifshutdown w true }
  | .broadcast => some (broadcast k)

/-- The pool when its threads have been created. -/
def initial (n m : Nat) : Config n m where
  msgqueue := []
  msgqueueSize := 0
  pthreadMutex := none
  running _ := false
  ifshutdown _ := false
  iRunningThread := 0
  thread _ := .locking
  caller _ := .outside
  history := ⟨[], [], []⟩

end ThreadPool

end MyNginx
