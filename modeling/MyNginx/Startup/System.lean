import MyNginx.Config.RoundTrip
import MyNginx.Foundation.Descriptors
import MyNginx.Signal.Signal

/-!
# From `main` to the cycle of the master

`main` of `nginx.cxx`, with `init_log`, `init_signals`, `CSocket::Initialize`,
`daemon_process` and `freeresource`. What the system calls answer is a parameter. Behind
`fork` the state is that of the child, or of the parent if that returns from `main`. The
title, the file mode mask and the working directory are left out.

`none` is undefined behaviour: an item that does not fit, a number that is no `int`, or a
record that cannot be composed.
-/

namespace MyNginx

open Foundation Log

namespace Startup

/-- A socket of the kernel. -/
structure Socket where
  reuseaddr : Bool
  reuseport : Bool
  nonblocking : Bool
  port : Option (BitVec 16)
  listening : Bool
  deriving DecidableEq, Repr

def Socket.fresh : Socket := ⟨false, false, false, none, false⟩

/-- What a descriptor refers to. Some are inherited. -/
inductive File where
  | inherited (i : Nat)
  | log
  | socket (socket : Socket)
  | null
  deriving DecidableEq, Repr

def File.onSocket (f : Socket → Socket) : File → File
  | .socket object => .socket (f object)
  | file => file

inductive WriteAnswer where
  | written
  | enospc
  | failed
  deriving DecidableEq, Repr

/-- The error of each system call in a round of `open_listen_sockets`, or 0. `fcntlLogged` is
`errno` behind the line of `setnonblocking`. -/
structure RoundAnswers where
  socket : BitVec 32
  reuseaddr : BitVec 32
  reuseport : BitVec 32
  fcntl : BitVec 32
  fcntlLogged : BitVec 32
  bind : BitVec 32
  listen : BitVec 32

/-- What `fork` answers in `daemon_process`, with the child's `getpid`. -/
inductive ForkAnswer where
  | failed (errno : BitVec 32)
  | parent
  | child (pid : BitVec 32)

/-- What `main` finds, and what the system calls answer: an error, or 0. Each record is
written once, and perhaps `again` to `stderr`. -/
structure Environment where
  files : Descriptors File
  content : Option (List UInt8)
  curPid : BitVec 32
  parentPid : BitVec 32
  tm : Nat → Tm
  strerror : BitVec 32 → List UInt8
  writes : Nat → WriteAnswer
  again : Nat → Bool
  openLog : BitVec 32
  inherited : Signal.Signo → Signal.Disposition
  sigaction : Nat → BitVec 32
  rounds : Nat → RoundAnswers
  fork : ForkAnswer
  setsid : BitVec 32
  openNull : BitVec 32
  dupStdin : BitVec 32
  dupStdout : BitVec 32
  closeNull : BitVec 32

structure LogT where
  logLevel : Int
  fd : Int
  deriving DecidableEq, Repr

structure ListeningT where
  fd : Nat
  port : Int
  deriving DecidableEq, Repr

/-- What `ReadConf` reads. -/
structure SocketConf extends Conf where
  portCount : Int
  deriving DecidableEq, Repr

/-- The constructor of `CSocket`; `m_TimeEnable` is set before it is read. -/
def SocketConf.default : SocketConf where
  workerConnections := 1000
  createConnectionsCount := 20
  delayTime := 60
  waittime := 10
  timeEnable := 0
  portCount := 2

/-- `lines` is proof-only: the calls of `log_error_core`, and where each was written. -/
structure State where
  files : Descriptors File
  logS : LogT
  disposition : Signal.Signo → Signal.Disposition
  conf : SocketConf
  listenSocketList : List ListeningT
  curPid : BitVec 32
  parentPid : BitVec 32
  masterPid : BitVec 32
  gDaemonized : Bool
  lines : List (Call × Option File)

def Environment.state (env : Environment) : State where
  files := env.files
  logS := ⟨0, 0⟩
  disposition := env.inherited
  conf := .default
  listenSocketList := []
  curPid := env.curPid
  parentPid := env.parentPid
  masterPid := 0
  gDaemonized := false
  lines := []

namespace State

variable (env : Environment) (s : State)

/-! ### The log and the signals -/

def file (fd : Int) : Option File := if 0 ≤ fd then s.files.get fd.toNat else none

/-- Where a record goes that has not been written to the log. -/
def fallback : Option File :=
  if s.logS.fd ≠ 2 ∧ env.again s.lines.length = true then s.file 2 else none

/-- The end of `log_error_core`. -/
def writeRecord (call : Call) : Option File :=
  if call.written s.logS.logLevel then
    match s.file s.logS.fd with
    | none => s.fallback env
    | some file =>
        match env.writes s.lines.length with
        | .written => some file
        | .enospc => none
        | .failed => s.fallback env
  else none

/-- A record that cannot be composed is undefined, whatever its level. -/
def logErrorCore (call : Call) : Option State :=
  let record := Log.logErrorCore (env.tm s.lines.length) s.curPid env.strerror call.level
    call.errnum call.fmt call.args
  record.toOption.map fun _ => { s with lines := s.lines ++ [(call, s.writeRecord env call)] }

def errorLogPath : List UInt8 := bytes "logs/error.log"

def openLogFailed (errno : BitVec 32) (plogname : List UInt8) : Call :=
  ⟨.alert, errno, bytes "[alert] could not open error log file: open() \"%s\" failed",
    [.str plogname]⟩

def initLog (items : List ConfItem) : Option State :=
  let plogname := (CConfig.getString (bytes "Log") items).getD errorLogPath
  (CConfig.getInt (bytes "LogLevel") 6 items).bind fun logLevel =>
    if env.openLog = 0 then
      some { s with files := s.files.add .log, logS := ⟨logLevel, s.files.lowest⟩ }
    else
      (logErrorCore env { s with logS := ⟨logLevel, -1⟩ }
        (openLogFailed env.openLog plogname)).map fun s => { s with logS := ⟨logLevel, 2⟩ }

def sigactionFailed (sig : Signal.SignalT) (errno : BitVec 32) : Call :=
  ⟨.emerg, errno, bytes "sigaction(%s) failed", [.str sig.signame]⟩

def sigactionSucced (sig : Signal.SignalT) : Call :=
  ⟨.info, 0, bytes "sigaction(%s) succed!", [.str sig.signame]⟩

/-- The loop of `init_signals`, from entry `i` of the table on. -/
def initSignalsLoop : List Signal.SignalT → Nat → State → Option (Bool × State)
  | [], _, s => some (true, s)
  | sig :: rest, i, s =>
      if env.sigaction i ≠ 0 then
        (s.logErrorCore env (sigactionFailed sig (env.sigaction i))).map fun s => (false, s)
      else
        (logErrorCore env { s with
          disposition := Function.update s.disposition sig.signo
            (if sig.handler then .handler else .ignore) } (sigactionSucced sig)).bind
          (initSignalsLoop rest (i + 1))

def initSignals : Option (Bool × State) := initSignalsLoop env Signal.signals 0 s

/-! ### The listening sockets -/

def readConf (items : List ConfItem) : Option SocketConf := do
  let workerConnections ← CConfig.getInt (bytes "worker_connections") 1000 items
  let portCount ← CConfig.getInt (bytes "ListenPortCount") 2 items
  let createConnectionsCount ← CConfig.getInt (bytes "ConnectionsToCreate") 20 items
  let delayTime ← CConfig.getInt (bytes "Sock_RecyConnectionWaitTime") 60 items
  let timeEnable ← CConfig.getInt (bytes "Sock_WaitTimeEnable") 1 items
  let waittime ←
    if timeEnable = 1 then
      (CConfig.getInt (bytes "Sock_MaxWaitTime") 10 items).map fun waittime =>
        if 5 < waittime then waittime else 5
    else some 10
  some { workerConnections, portCount, createConnectionsCount, delayTime, timeEnable, waittime }

/-- The name of the item with port `i`. -/
def listenPort (i : Nat) : List UInt8 := bytes "ListenPort" ++ CConfig.decimalForm i

def socketFailed (errno : BitVec 32) : Call :=
  ⟨.alert, errno, bytes "Creating socket has failed", []⟩

/-- A line about a call on a new socket. The function it names is an older one. -/
def roundFailed (text : String) (errno : BitVec 32) : Call :=
  ⟨.alert, errno, bytes text ++ bytes " at [%s]", [.str (bytes "CSocket::event_open_listen")]⟩

def setnonblockingFailed (errno : BitVec 32) : Call :=
  ⟨.alert, errno, bytes "Setting NONBLOCK has failed at [%s]", [.str (bytes "setnonblocking")]⟩

/-- The text is not in plain characters. -/
def listenSucceeded (iport : Int) : Call :=
  ⟨.info, 0, [0xe7, 0x9b, 0x91, 0xe5, 0x90, 0xac] ++ bytes " [%d] " ++
    [0xe7, 0xab, 0xaf, 0xe5, 0x8f, 0xa3, 0xe6, 0x88, 0x90, 0xe5, 0x8a, 0x9f],
    [.word (BitVec.ofInt 32 iport)]⟩

/-- A call on a socket that succeeds. -/
def onSocket (fd : Nat) (f : Socket → Socket) : State :=
  { s with files := s.files.modify fd (File.onSocket f) }

/-- The line about a call that has failed, and `close`. -/
def giveUp (fd : Nat) (call : Call) : Option (Bool × State) :=
  (s.logErrorCore env call).map fun s => (false, { s with files := s.files.close fd })

/-- The end of a round, from `bind` on. -/
def bindAndListen (answers : RoundAnswers) (isock : Nat) (iport : Int) : Option (Bool × State) :=
  if answers.bind ≠ 0 then s.giveUp env isock (roundFailed "Binding has failed" answers.bind)
  else
    let s := s.onSocket isock fun socket => { socket with port := some (BitVec.ofInt 16 iport) }
    if answers.listen ≠ 0 then
      s.giveUp env isock (roundFailed "Listening has failed" answers.listen)
    else
      let s := s.onSocket isock fun socket => { socket with listening := true }
      (s.logErrorCore env (listenSucceeded iport)).map fun s =>
        (true, { s with listenSocketList := s.listenSocketList ++ [⟨isock, iport⟩] })

/-- A round, from the first `setsockopt` on. -/
def setOptions (answers : RoundAnswers) (items : List ConfItem) (i isock : Nat) :
    Option (Bool × State) :=
  if answers.reuseaddr ≠ 0 then
    s.giveUp env isock (roundFailed "Setting SO_REUSEADDR has failed" answers.reuseaddr)
  else
    let s := s.onSocket isock fun socket => { socket with reuseaddr := true }
    if answers.reuseport ≠ 0 then
      s.giveUp env isock (roundFailed "Setting SO_REUSEPORT has failed" answers.reuseport)
    else
      let s := s.onSocket isock fun socket => { socket with reuseport := true }
      if answers.fcntl ≠ 0 then
        (s.logErrorCore env (setnonblockingFailed answers.fcntl)).bind fun s =>
          s.giveUp env isock (roundFailed "Setting NONBLOCKING has failed" answers.fcntlLogged)
      else
        let s := s.onSocket isock fun socket => { socket with nonblocking := true }
        (CConfig.getInt (listenPort i) (9000 + i) items).bind fun iport =>
          s.bindAndListen env answers isock iport

def openListenSocket (items : List ConfItem) (i : Nat) : Option (Bool × State) :=
  let answers := env.rounds i
  if answers.socket ≠ 0 then
    (s.logErrorCore env (socketFailed answers.socket)).map fun s => (false, s)
  else
    setOptions env { s with files := s.files.add (.socket .fresh) } answers items i s.files.lowest

/-- The loop of `open_listen_sockets`, from round `i` on. -/
def openListenLoop (items : List ConfItem) : Nat → Nat → State → Option (Bool × State)
  | 0, _, s => some (!s.listenSocketList.isEmpty, s)
  | rounds + 1, i, s =>
      (s.openListenSocket env items i).bind fun result =>
        if result.1 then openListenLoop items rounds (i + 1) result.2 else some result

def openListenSockets (items : List ConfItem) : Option (Bool × State) :=
  openListenLoop env items s.conf.portCount.toNat 0 s

/-- `CSocket::Initialize`. -/
def initSocket (items : List ConfItem) : Option (Bool × State) :=
  (readConf items).bind fun conf => openListenSockets env { s with conf } items

/-! ### The daemon -/

/-- A line of `daemon_process`. -/
def daemonFailed (level : Level) (call : String) (errno : BitVec 32) : Call :=
  ⟨level, errno, bytes "Failed to create daemon process at [%s]", [.str (bytes call)]⟩

/-- The text is not in plain characters. -/
def closeFailed (errno : BitVec 32) : Call :=
  ⟨.emerg, errno, bytes "daemon()" ++ [0xe4, 0xb8, 0xad] ++ bytes "close(fd)" ++
    [0xe5, 0xa4, 0xb1, 0xe8, 0xb4, 0xa5] ++ bytes "!", []⟩

/-- `daemon_process` from the first `dup2` on, with `fd` for `/dev/null`. `close` gives the
descriptor back even where it fails. -/
def redirect (fd : Nat) : Option (Int × State) :=
  if env.dupStdin ≠ 0 then
    (s.logErrorCore env (daemonFailed .emerg "redirect STDIN" env.dupStdin)).map fun s => (-1, s)
  else
    let s := { s with files := s.files.dup fd 0 }
    if env.dupStdout ≠ 0 then
      (s.logErrorCore env (daemonFailed .emerg "redirect STDOUT" env.dupStdout)).map
        fun s => (-1, s)
    else
      let s := { s with files := s.files.dup fd 1 }
      if fd ≤ 2 then some (0, s)
      else
        let s := { s with files := s.files.close fd }
        if env.closeNull ≠ 0 then
          (s.logErrorCore env (closeFailed env.closeNull)).map fun s => (-1, s)
        else some (0, s)

def daemonProcess : Option (Int × State) :=
  match env.fork with
  | .failed errno =>
      (s.logErrorCore env (daemonFailed .stderr "fork" errno)).map fun s => (-1, s)
  | .parent => some (1, s)
  | .child pid =>
      let s := { s with parentPid := s.curPid, masterPid := pid, curPid := pid }
      if env.setsid ≠ 0 then
        (s.logErrorCore env (daemonFailed .emerg "setsid" env.setsid)).map fun s => (-1, s)
      else if env.openNull ≠ 0 then
        (s.logErrorCore env (daemonFailed .emerg "open /dev/null" env.openNull)).map
          fun s => (-1, s)
      else redirect env { s with files := s.files.add .null } s.files.lowest

/-- `freeresource`, but for the title. -/
def freeresource : State :=
  if s.logS.fd ≠ 2 ∧ s.logS.fd ≠ -1 then
    { s with files := s.files.close s.logS.fd.toNat, logS := { s.logS with fd := -1 } }
  else s

end State

/-- How `main` ends: it returns, or enters `master_process_cycle`. -/
inductive Outcome where
  | exit (exitcode : Int) (s : State)
  | cycle (s : State)

def loadFailed : Call :=
  ⟨.alert, 0, bytes "Failed to load the config file [%s], Now exit.",
    [.str (bytes "nginx.conf")]⟩

/-- `main` behind `CSocket::Initialize`. -/
def daemonize (env : Environment) (items : List ConfItem) (s : State) : Option Outcome :=
  (CConfig.getInt (bytes "Daemon") 1 items).bind fun daemon =>
    if daemon = 1 then
      (s.daemonProcess env).map fun result =>
        if result.1 = -1 then .exit 1 result.2.freeresource
        else if result.1 = 1 then .exit 0 result.2.freeresource
        else .cycle { result.2 with gDaemonized := true }
    else some (.cycle s)

/-- `main` behind `Load`. -/
def initServer (env : Environment) (items : List ConfItem) (s : State) : Option Outcome :=
  (s.initLog env items).bind fun s =>
    (s.initSignals env).bind fun result =>
      if result.1 then
        (result.2.initSocket env items).bind fun result =>
          if result.1 then daemonize env items result.2
          else some (.exit 1 result.2.freeresource)
      else some (.exit 1 result.2.freeresource)

def main (env : Environment) : Option Outcome :=
  match CConfig.load [] env.content with
  | some (.ok (true, items)) => initServer env items env.state
  | some (.ok (false, _)) =>
      (env.state.logErrorCore env loadFailed).map fun s => .exit 2 s.freeresource
  | _ => none

end Startup

end MyNginx
