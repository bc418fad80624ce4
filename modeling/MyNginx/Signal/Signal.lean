import MyNginx.App.LogFile
import MyNginx.State

/-!
# Signals

The table `signals`, `init_signals`, and what the handler does with the status of a child
that has ended. Signal numbers are those of Linux. The handlers themselves run as part of a
process, see `Proc.ProcCycle`.
-/

namespace MyNginx

open Foundation Log

namespace Signal

abbrev Signo := Nat

def sighup : Signo := 1
def sigint : Signo := 2
def sigquit : Signo := 3
def sigkill : Signo := 9
def sigusr1 : Signo := 10
def sigusr2 : Signo := 12
def sigalrm : Signo := 14
def sigterm : Signo := 15
def sigchld : Signo := 17
def sigwinch : Signo := 28
def sigio : Signo := 29
def sigsys : Signo := 31

/-- `signal_t`; the handler of every entry that has one is `signal_handler`. -/
structure SignalT where
  signo : Signo
  signame : List UInt8
  handler : Bool
  deriving DecidableEq, Repr

/-- The table, without the entry that ends it. -/
def signals : List SignalT :=
  [⟨sighup, bytes "SIGHUP", true⟩, ⟨sigint, bytes "SIGINT", true⟩,
    ⟨sigterm, bytes "SIGTERM", true⟩, ⟨sigchld, bytes "SIGCHLD", true⟩,
    ⟨sigquit, bytes "SIGQUIT", true⟩, ⟨sigio, bytes "SIGIO", true⟩,
    ⟨sigusr1, bytes "SIGUSR1", true⟩, ⟨sigsys, bytes "SIGSYS, SIG_IGN", false⟩]

/-- The loop over the table in front of the handler's `switch`. -/
def findSignal (signo : Signo) : Option SignalT := signals.find? fun sig => sig.signo = signo

/-- What a process does with a signal. -/
inductive Disposition where
  | byDefault
  | ignore
  | handler
  deriving DecidableEq, Repr

/-- What a process does by default. -/
inductive DefaultAction where
  | terminate
  | ignore
  | stop
  deriving DecidableEq, Repr

/-- `SIGCHLD`, `SIGCONT`, `SIGURG` and `SIGWINCH` do nothing, four signals stop the process
and the others end it. -/
def defaultAction (signo : Signo) : DefaultAction :=
  if signo ∈ [17, 18, 23, 28] then .ignore
  else if signo ∈ [19, 20, 21, 22] then .stop
  else .terminate

/-- A signal that has no effect on a process with these dispositions. A process that is
stopped takes no step, which any process may do. -/
def harmless (disposition : Signo → Disposition) (signo : Signo) : Bool :=
  match disposition signo with
  | .handler => false
  | .ignore => true
  | .byDefault => defaultAction signo != .terminate

/-- The loop of `init_signals`, with what each `sigaction` answers. -/
def initSignalsLoop (disposition : Signo → Disposition) :
    List SignalT → List Errno → Option ((Signo → Disposition) × Int)
  | [], _ => some (disposition, 0)
  | _ :: _, [] => none
  | sig :: rest, errno :: answers =>
      if errno = .ok then
        initSignalsLoop (Function.update disposition sig.signo
          (if sig.handler then .handler else .ignore)) rest answers
      else some (disposition, -1)

def initSignals (disposition : Signo → Disposition) (answers : List Errno) :
    Option ((Signo → Disposition) × Int) :=
  initSignalsLoop disposition signals answers

/-- What the handler prints first. -/
def signalReceived (sig : SignalT) (siPid : BitVec 32) : Call :=
  if siPid ≠ 0 then
    ⟨.info, 0, bytes "signal %d (%s) received from %P%s",
      [.word (BitVec.ofNat 32 sig.signo), .str sig.signame, .word siPid, .str []]⟩
  else
    ⟨.info, 0, bytes "signal %d (%s) received %s",
      [.word (BitVec.ofNat 32 sig.signo), .str sig.signame, .str []]⟩

/-- `WTERMSIG`. -/
def wtermsig (status : BitVec 32) : BitVec 32 := status &&& 0x7f

/-- `WEXITSTATUS`. -/
def wexitstatus (status : BitVec 32) : BitVec 32 := (status &&& 0xff00) >>> 8

/-- What `process_get_status` prints of a child. -/
def statusLine (pid status : BitVec 32) : Call :=
  if wtermsig status ≠ 0 then
    ⟨.alert, 0, bytes "pid = %P exited on signal %d!", [.word pid, .word (wtermsig status)]⟩
  else ⟨.notice, 0, bytes "pid = %P exited with code %d!", [.word pid, .word (wexitstatus status)]⟩

def echild : BitVec 32 := 10

/-- What it prints when `waitpid` fails. -/
def waitpidFailed (err : BitVec 32) : Call := ⟨.info, err, bytes "waitpid() failed!", []⟩

/-- How a child ends: by `exit`, or by a signal, of which 0 and 127 are none. -/
inductive ChildEnd where
  | exited (code : BitVec 8)
  | killed (signo : BitVec 7) (core : Bool)
  deriving DecidableEq, Repr

namespace ChildEnd

def Valid : ChildEnd → Prop
  | .exited _ => True
  | .killed signo _ => signo ≠ 0 ∧ signo ≠ 127

instance : DecidablePred Valid
  | .exited _ => inferInstanceAs (Decidable True)
  | .killed _ _ => inferInstanceAs (Decidable (_ ∧ _))

/-- The status that `waitpid` stores. -/
def status : ChildEnd → BitVec 32
  | .exited code => code.setWidth 32 <<< 8
  | .killed signo core => signo.setWidth 32 ||| if core then 0x80 else 0

theorem wtermsig_exited (code : BitVec 8) : wtermsig (ChildEnd.exited code).status = 0 := by
  revert code
  decide +kernel

theorem wexitstatus_exited (code : BitVec 8) :
    wexitstatus (ChildEnd.exited code).status = code.setWidth 32 := by
  revert code
  decide +kernel

theorem wtermsig_killed (signo : BitVec 7) (core : Bool) :
    wtermsig (ChildEnd.killed signo core).status = signo.setWidth 32 := by
  revert signo core
  decide +kernel

end ChildEnd

end Signal

end MyNginx
