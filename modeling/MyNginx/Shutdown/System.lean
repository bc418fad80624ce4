import MyNginx.Foundation.Transition

/-!
# Stopping the threads

`CThreadPool::StopAll` and `CSocket::Shutdown_SubProc` ask the threads of their vector to
stop and wait for them in the same way: they go through the vector, join each thread that
has cleared its flag, and at the first one that has not they sleep and begin again. The
threads clear their flags whenever they come to it. `joins` counts the calls of
`pthread_join` for each thread.
-/

namespace MyNginx

open Foundation

namespace Shutdown

structure ThreadItem where
  running : Bool
  ifshutdown : Bool
  joins : Nat
  deriving DecidableEq, Repr

inductive Routine where
  | stopAll
  | shutdownSubProc
  deriving DecidableEq, Repr

/-- Where the routine stands: at its beginning, at its label, in front of the thread at an
index of the vector, in front of `goto`, behind the loop, behind the destruction of the
mutexes, or at an early return. -/
inductive Pc where
  | entry
  | label
  | scan (i : Nat)
  | asleep
  | behind
  | destroyed
  | returned
  deriving DecidableEq, Repr

structure State where
  threads : List ThreadItem
  shutdown : Bool
  pc : Pc
  deriving DecidableEq, Repr

/-- A thread clears its flag, or the routine goes on; `ok` is what `sem_post` or
`pthread_cond_broadcast` answers. -/
inductive Label where
  | clear (i : Nat)
  | advance (ok : Bool)

/-- The vector of threads with these flags. -/
def start (flags : List Bool) : State := ⟨flags.map fun running => ⟨running, false, 0⟩, false, .entry⟩

def ThreadItem.clear (item : ThreadItem) : ThreadItem := { item with running := false }

def ThreadItem.askToStop (item : ThreadItem) : ThreadItem := { item with ifshutdown := true }

def ThreadItem.pthreadJoin (item : ThreadItem) : ThreadItem := { item with joins := item.joins + 1 }

/-- The next statement of the routine. -/
def advance (routine : Routine) (s : State) (ok : Bool) : Option State :=
  match s.pc with
  | .entry =>
      match routine with
      | .stopAll =>
          if s.shutdown then some { s with pc := .returned }
          else some ⟨s.threads.map ThreadItem.askToStop, true, .label⟩
      | .shutdownSubProc =>
          some { s with
            threads := s.threads.map ThreadItem.askToStop
            pc := if ok then .label else .returned }
  | .label =>
      match routine with
      | .stopAll => some { s with pc := if ok then .scan 0 else .returned }
      | .shutdownSubProc => some { s with pc := .scan 0 }
  | .scan i =>
      match s.threads[i]? with
      | none => some { s with pc := .behind }
      | some item =>
          if item.running then some { s with pc := .asleep }
          else some { s with threads := s.threads.modify i ThreadItem.pthreadJoin, pc := .scan (i + 1) }
  | .asleep => some { s with pc := .label }
  | .behind => some { s with pc := .destroyed }
  | .destroyed => none
  | .returned => none

def step (routine : Routine) (s : State) : Label → Option State
  | .clear i => some { s with threads := s.threads.modify i ThreadItem.clear }
  | .advance ok => advance routine s ok

end Shutdown

end MyNginx
