import MyNginx.App.Conf
import MyNginx.Foundation.Signals
import MyNginx.Foundation.Transition
import MyNginx.Signal.Signal

/-!
# The master process

`master_process_cycle` of `proc_cycle.cxx`, with the handler of `signal.cxx` that interrupts
it. The master forks its workers and then waits in `sigsuspend`, for good. The steps are
those of the master, of its handlers and of the kernel: a signal arrives or is delivered, a
child ends. `waitpid` answers as the children are, or is interrupted. A signal that stops a
process is left out, since any process may take no step.

A handler whose first line is undefined takes the master into `crashed`; a signal that it
does not handle may take it into `killed`. `forked` and `reaped` are proof-only, and `log`
is what has been written since the start of the cycle.
-/

namespace MyNginx

open Foundation Log Signal

namespace Master

/-- A worker process, with the number it was started with. -/
structure Child where
  procNum : Nat
  pid : BitVec 32
  deriving DecidableEq, Repr

/-- Where the handler stands: at its beginning, in front of `waitpid` with the value of `one`,
or in front of the line about a child. -/
inductive HandlerPc where
  | entered (siPid : BitVec 32)
  | waiting (one : Bool)
  | found (child : Child) (ended : ChildEnd)
  deriving DecidableEq, Repr

/-- Where the master stands: in the loop of `start_worker_process`, in front of `sigsuspend`,
in it with the mask that it restores, behind it with a handler that may still run, or
asleep. -/
inductive Pc where
  | forking (processNum : Nat)
  | suspending
  | suspended (restores : List Signo)
  | woken
  | sleeping
  | crashed
  | killed (signo : Signo)
  deriving DecidableEq, Repr

/-- The master has gone. -/
def Pc.gone : Pc → Bool
  | .crashed | .killed _ => true
  | _ => false

structure State extends Signals Signo (BitVec 32) HandlerPc where
  pc : Pc
  processCount : Int
  disposition : Signo → Disposition
  reap : Bool
  running : List Child
  zombies : List (Child × ChildEnd)
  log : List Call
  logLevel : Int
  curPid : BitVec 32
  strerror : BitVec 32 → List UInt8
  forked : List Child
  reaped : List (Child × ChildEnd)

/-- What `fork` answers in the master. -/
inductive ForkAnswer where
  | child (pid : BitVec 32)
  | failed (errno : BitVec 32)
  deriving DecidableEq, Repr

/-- What `waitpid` answers: a child that has ended, that there is none, or `EINTR`. -/
inductive WaitAnswer where
  | child (procNum : Nat)
  | none
  | interrupted
  deriving DecidableEq, Repr

inductive Label where
  | main (answer : ForkAnswer) (tm : Tm)
  | handler (answer : WaitAnswer) (tm : Tm)
  | deliver (signo : Signo)
  | arrive (signo : Signo) (siPid : BitVec 32)
  | exit (procNum : Nat) (ended : ChildEnd)

namespace State

/-- The call is written if its level is not above the one of the log. -/
def logged (s : State) (call : Call) : State :=
  { s with log := s.log ++ [call].filter fun call => call.written s.logLevel }

/-- What comes behind a call of `log_error_core`, if its record can be composed. -/
def behindCall (s : State) (call : Call) (next : State → State) :
    Except Format.Fault Format.Output → State
  | .error _ => { s with pc := .crashed }
  | .ok _ => next (s.logged call)

def logErrorCore (s : State) (tm : Tm) (call : Call) (next : State → State) : State :=
  s.behindCall call next
    (Log.logErrorCore tm s.curPid s.strerror call.level call.errnum call.fmt call.args)

/-- What `sigprocmask` blocks. -/
def blocked : List Signo :=
  [sigchld, sigalrm, sigio, sigint, sighup, sigusr1, sigusr2, sigwinch, sigterm, sigquit]

/-- The text is not in plain characters. -/
def sigprocmaskFailed (errno : BitVec 32) : Call :=
  ⟨.alert, errno, bytes "ngx_master_process_cycle()" ++ [0xe4, 0xb8, 0xad] ++
    bytes "sigprocmask()" ++ [0xe5, 0xa4, 0xb1, 0xe8, 0xb4, 0xa5] ++ bytes "!", []⟩

def forkFailed (errno : BitVec 32) (procNum : Nat) : Call :=
  ⟨.emerg, errno, bytes "Fork process at porc_num: [%d] has failed",
    [.word (BitVec.ofNat 32 procNum)]⟩

/-- A process id that no child of the master has. -/
def Fresh (s : State) (pid : BitVec 32) : Prop :=
  pid ≠ 0 ∧ (∀ child ∈ s.running, child.pid ≠ pid) ∧ ∀ entry ∈ s.zombies, entry.1.pid ≠ pid

instance (s : State) : DecidablePred s.Fresh := fun _ => inferInstanceAs (Decidable (_ ∧ _ ∧ _))

/-- `spawn_process` in the master; a child does not return from it. -/
def spawnProcess (s : State) (procNum : Nat) (tm : Tm) : ForkAnswer → Option State
  | .failed errno => some (s.logErrorCore tm (forkFailed errno procNum) id)
  | .child pid =>
      if s.Fresh pid then
        some { s with
          running := s.running ++ [⟨procNum, pid⟩]
          forked := s.forked ++ [⟨procNum, pid⟩] }
      else none

/-- The next step of `master_process_cycle` behind `sigprocmask`. -/
def mainStep (s : State) (answer : ForkAnswer) (tm : Tm) : Option State :=
  match s.pc with
  | .forking processNum =>
      if processNum < s.processCount then
        (s.spawnProcess processNum tm answer).map fun s =>
          if s.pc = .crashed then s else { s with pc := .forking (processNum + 1) }
      else some { s with pc := .suspending }
  | .suspending => some { s with mask := [], pc := .suspended s.mask }
  | .suspended _ => none
  | .woken => some { s with pc := .sleeping }
  | .sleeping => some { s with pc := .suspending }
  | .crashed => none
  | .killed _ => none

/-- The return of a handler. -/
def handlerReturn (s : State) : State := { s with toSignals := s.toSignals.resume }

def handlerGoto (s : State) (pc : HandlerPc) : State := { s with toSignals := s.toSignals.goto pc }

/-- `signal_handler`, up to `process_get_status`. -/
def signalHandler (s : State) (signo : Signo) (siPid : BitVec 32) (tm : Tm) : Option State :=
  (findSignal signo).map fun sig =>
    let s := if signo = sigchld then { s with reap := true } else s
    s.logErrorCore tm (signalReceived sig siPid) fun s =>
      if signo = sigchld then s.handlerGoto (.waiting false) else s.handlerReturn

/-- `waitpid` and what follows it in `process_get_status`, up to the line about a child. -/
def processGetStatus (s : State) (one : Bool) (tm : Tm) : WaitAnswer → Option State
  | .child procNum =>
      (s.zombies.find? fun entry => entry.1.procNum = procNum).map fun entry =>
        { s.handlerGoto (.found entry.1 entry.2) with
          zombies := s.zombies.erase entry
          reaped := s.reaped ++ [entry] }
  | .none =>
      if s.zombies ≠ [] then none
      -- There are children, and `waitpid` returns 0; or there are none, and it fails.
      else if s.running ≠ [] ∨ one then some s.handlerReturn
      else some (s.logErrorCore tm (waitpidFailed echild) handlerReturn)
  | .interrupted => some s

/-- The next step of the handler that runs. -/
def handlerStep (s : State) (answer : WaitAnswer) (tm : Tm) : Option State :=
  match s.frames with
  | [] => none
  | frame :: _ =>
      match frame.pc with
      | .entered siPid => s.signalHandler frame.signo siPid tm
      | .waiting one => s.processGetStatus one tm answer
      | .found child ended =>
          some (s.logErrorCore tm (statusLine child.pid ended.status) fun s =>
            s.handlerGoto (.waiting true))

/-- A signal is sent to the master. -/
def arrive (s : State) (signo : Signo) (siPid : BitVec 32) : State :=
  if signo = sigkill then { s with pc := .killed sigkill }
  else if harmless s.disposition signo then s
  else { s with toSignals := s.toSignals.raise signo siPid }

/-- The kernel delivers a pending signal that is not blocked. In `sigsuspend` the handler's
return restores the mask of its caller. -/
def deliverStep (s : State) (signo : Signo) : Option State :=
  match s.info signo with
  | none => none
  | some siPid =>
      if signo ∈ s.mask then none
      else
        match s.disposition signo with
        | .handler =>
            match s.pc with
            | .suspended restores =>
                some { s with
                  toSignals := s.toSignals.deliver signo restores (.entered siPid)
                  pc := .woken }
            | _ => some { s with toSignals := s.toSignals.deliver signo s.mask (.entered siPid) }
        | _ => some { s with toSignals := s.toSignals.take signo, pc := .killed signo }

/-- A child ends: it is left to `waitpid`, and `SIGCHLD` is sent to the master. -/
def exitStep (s : State) (procNum : Nat) (ended : ChildEnd) : Option State :=
  if ended.Valid then
    (s.running.find? fun child => child.procNum = procNum).map fun child =>
      { s with
        running := s.running.erase child
        zombies := s.zombies ++ [(child, ended)] }.arrive sigchld child.pid
  else none

end State

open Master.State

/-- A handler interrupts the master, so that the master goes on behind the last return. -/
def step (s : State) (label : Label) : Option State :=
  if s.pc.gone then none
  else
    match label with
    | .main answer tm => if s.frames = [] then s.mainStep answer tm else none
    | .handler answer tm => s.handlerStep answer tm
    | .deliver signo => s.deliverStep signo
    | .arrive signo siPid => some (s.arrive signo siPid)
    | .exit procNum ended => s.exitStep procNum ended

/-- The values `master_process_cycle` begins with. -/
structure Boot where
  inherited : Signo → Disposition
  unhandled : ∀ signo, inherited signo ≠ .handler
  mask : List Signo
  sigaction : List Errno
  /-- The error of `sigprocmask`, or 0. -/
  sigprocmask : BitVec 32
  tm : Tm
  items : List ConfItem
  logLevel : Int
  curPid : BitVec 32
  strerror : BitVec 32 → List UInt8

/-- `g_worker_process_num`, where it is not configured. -/
def workerProcessNum : Int := 2

/-- The master in front of `start_worker_process`. -/
def Boot.state (boot : Boot) : Option State :=
  match initSignals boot.inherited boot.sigaction with
  | some (disposition, 0) =>
      (CConfig.getInt (bytes "WorkProcesses") workerProcessNum boot.items).map fun processCount =>
        let s : State := {
          mask := boot.mask
          pending := []
          frames := []
          pc := .forking 0
          processCount
          disposition
          reap := false
          running := []
          zombies := []
          log := []
          logLevel := boot.logLevel
          curPid := boot.curPid
          strerror := boot.strerror
          forked := []
          reaped := [] }
        if boot.sigprocmask = 0 then { s with mask := blocked ++ boot.mask }
        else s.logErrorCore boot.tm (sigprocmaskFailed boot.sigprocmask) id
  | _ => none

def Reachable (boot : Boot) (s : State) : Prop :=
  ∃ s₀ labels, boot.state = some s₀ ∧ run step s₀ labels = some s

/-- A start and the labels of a run. -/
def launch (boot : Boot) (labels : List Label) : Option State :=
  boot.state.bind fun s => run step s labels

theorem reachable_of_launch {boot : Boot} {labels : List Label} {s : State}
    (h : launch boot labels = some s) : Reachable boot s := by
  obtain ⟨s₀, hstart, hr⟩ := Option.bind_eq_some_iff.mp h
  exact ⟨s₀, labels, hstart, hr⟩

/-- A start without a configuration, so with two workers. -/
def Boot.small : Boot where
  inherited _ := .byDefault
  unhandled _ := Disposition.noConfusion
  mask := []
  sigaction := List.replicate 8 .ok
  sigprocmask := 0
  tm := ⟨124, 0, 1, 0, 0, 0⟩
  items := []
  logLevel := 8
  curPid := 50
  strerror _ := []

/-- The workers 100 and 101 are started, and the master goes into `sigsuspend`. -/
def startTwo : List Label :=
  [.main (.child 100) Boot.small.tm, .main (.child 101) Boot.small.tm,
    .main (.failed 0) Boot.small.tm, .main (.failed 0) Boot.small.tm]

end Master

end MyNginx
