import MyNginx.Config.PhysicalLines
import MyNginx.Proc.Children
import MyNginx.Startup.Workers

/-!
# What is configured is what runs

A file whose lines are read as they stand, with these settings among them, and system calls that
succeed: then `main` enters the cycle of the master with these settings, the master forks so many
workers, and each worker serves these ports.
-/

namespace MyNginx

open Foundation Log

namespace Startup

open CConfig

variable {env : Environment} {s : State} {items : List ConfItem} {content : List UInt8} {i : Nat}
  {name : List UInt8} {byDefault n : Int}

/-- The value in the first line of the file that sets the name. -/
def given (content name : List UInt8) : Option (List UInt8) :=
  (((lines content).flatMap lineSettings).find? fun setting => setting.1 = name).map Prod.snd

/-- The file gives an `int` for the name, or leaves the name out. -/
def Gives (content name : List UInt8) (byDefault n : Int) : Prop :=
  (-2 ^ 31 ≤ n ∧ n < 2 ^ 31) ∧ given content name = some (decimalForm n) ∨
    given content name = none ∧ n = byDefault

structure Settings where
  logLevel : Int
  workerConnections : Int
  connectionsToCreate : Int
  recyConnectionWaitTime : Int
  waitTimeEnable : Int
  maxWaitTime : Int
  daemon : Int
  workProcesses : Int
  ports : List Int

/-- The file has these settings. -/
structure Configures (content : List UInt8) (settings : Settings) : Prop where
  logLevel : Gives content (bytes "LogLevel") 6 settings.logLevel
  workerConnections : Gives content (bytes "worker_connections") 1000 settings.workerConnections
  connectionsToCreate : Gives content (bytes "ConnectionsToCreate") 20 settings.connectionsToCreate
  recyConnectionWaitTime :
    Gives content (bytes "Sock_RecyConnectionWaitTime") 60 settings.recyConnectionWaitTime
  waitTimeEnable : Gives content (bytes "Sock_WaitTimeEnable") 1 settings.waitTimeEnable
  maxWaitTime : Gives content (bytes "Sock_MaxWaitTime") 10 settings.maxWaitTime
  daemon : Gives content (bytes "Daemon") 1 settings.daemon
  workProcesses : Gives content (bytes "WorkProcesses") 2 settings.workProcesses
  portCount : Gives content (bytes "ListenPortCount") 2 settings.ports.length
  ports : ∀ i port, settings.ports[i]? = some port →
    Gives content (State.listenPort i) (9000 + i) port

/-- What the process keeps of them; the waiting time is 5 seconds or more. -/
def Settings.conf (settings : Settings) : SocketConf where
  workerConnections := settings.workerConnections
  createConnectionsCount := settings.connectionsToCreate
  delayTime := settings.recyConnectionWaitTime
  waittime := if settings.waitTimeEnable = 1 then max 5 settings.maxWaitTime else 10
  timeEnable := settings.waitTimeEnable
  portCount := settings.ports.length

/-- All system calls succeed, but for those that write the log, and the process goes on as the
child of `fork`. -/
structure Succeeds (env : Environment) : Prop where
  openLog : env.openLog = 0
  sigaction : ∀ i, env.sigaction i = 0
  rounds : ∀ i, env.rounds i = ⟨0, 0, 0, 0, (env.rounds i).fcntlLogged, 0, 0⟩
  fork : ∃ pid, env.fork = .child pid
  setsid : env.setsid = 0
  openNull : env.openNull = 0
  dupStdin : env.dupStdin = 0
  dupStdout : env.dupStdout = 0
  closeNull : env.closeNull = 0

/-- The items are the settings of the file. -/
def Loaded (items : List ConfItem) (content : List UInt8) : Prop :=
  contents items = (lines content).flatMap lineSettings

theorem getInt_of_gives (loaded : Loaded items content) (gives : Gives content name byDefault n) :
    getInt name byDefault items = some n := by
  have hgiven : getString name items = given content name := by
    rw [getString_eq_find, loaded, given]
  rw [getInt_eq, hgiven]
  rcases gives with ⟨hint, hvalue⟩ | ⟨habsent, rfl⟩
  · rw [hvalue, Option.elim_some, atoi_decimalForm hint]
  · rw [habsent, Option.elim_none]

namespace State

theorem initSignalsLoop_succeeds (succeeds : Succeeds env) {rest : List Signal.SignalT}
    (mem : ∀ sig ∈ rest, sig ∈ Signal.signals) (i : Nat) (s : State) :
    ∃ s', initSignalsLoop env rest i s = some (true, s') ∧ s'.logS = s.logS ∧
      s'.listenSocketList = s.listenSocketList ∧ s'.gDaemonized = s.gDaemonized := by
  induction rest generalizing i s with
  | nil => exact ⟨s, rfl, rfl, rfl, rfl⟩
  | cons sig rest ih =>
      have hsig := mem sig List.mem_cons_self
      rw [initSignalsLoop, if_neg (not_not.mpr (succeeds.sigaction i)),
        logErrorCore_of_composable env _ (composable_sigactionSucced hsig), Option.bind_some]
      exact ih (fun other h => mem other (List.mem_cons_of_mem _ h)) (i + 1) _

theorem openListenSocket_succeeds (succeeds : Succeeds env) (s : State) {port : Int}
    (hport : getInt (listenPort i) (9000 + i) items = some port) :
    ∃ s', s.openListenSocket env items i = some (true, s') ∧ Frame s s' ∧
      ∃ fd, s'.listenSocketList = s.listenSocketList ++ [⟨fd, port⟩] := by
  rw [openListenSocket, succeeds.rounds i]
  simp only [setOptions, ne_eq, not_true_eq_false, if_false, hport, Option.bind_some,
    bindAndListen]
  rw [logErrorCore_of_composable env _ (composable_listenSucceeded port), Option.map_some]
  exact ⟨_, rfl, ⟨rfl, rfl, rfl, rfl⟩, _, rfl⟩

theorem openListenLoop_succeeds (succeeds : Succeeds env) {ports : List Int} (i : Nat) (s : State)
    (hports : ∀ j port, ports[j]? = some port →
      getInt (listenPort (i + j)) (9000 + (i + j : Nat)) items = some port) :
    ∃ s', openListenLoop env items ports.length i s = some (!s'.listenSocketList.isEmpty, s') ∧
      Frame s s' ∧ s'.listenSocketList.map ListeningT.port =
        s.listenSocketList.map ListeningT.port ++ ports := by
  induction ports generalizing i s with
  | nil => exact ⟨s, rfl, .refl s, by simp⟩
  | cons port ports ih =>
      have hfirst : getInt (listenPort i) (9000 + i) items = some port := hports 0 port rfl
      obtain ⟨t, ht, hframe, fd, hlist⟩ := openListenSocket_succeeds succeeds s hfirst
      obtain ⟨s', hs', hframe', hlist'⟩ := ih (i + 1) t fun j other hother => by
        have hindex : i + 1 + j = i + (j + 1) := by omega
        rw [hindex]
        exact hports (j + 1) other hother
      refine ⟨s', ?_, hframe.trans hframe', ?_⟩
      · rw [List.length_cons, openListenLoop, ht, Option.bind_some]
        exact hs'
      · rw [hlist', hlist, List.map_append, List.append_assoc]
        rfl

theorem readConf_of_configures (loaded : Loaded items content) {settings : Settings}
    (configures : Configures content settings) : readConf items = some settings.conf := by
  have hmax : ∀ waittime : Int, (if 5 < waittime then waittime else 5) = max 5 waittime := by
    intro waittime
    rw [max_def]
    split <;> split <;> omega
  simp only [readConf, getInt_of_gives loaded configures.workerConnections,
    getInt_of_gives loaded configures.portCount,
    getInt_of_gives loaded configures.connectionsToCreate,
    getInt_of_gives loaded configures.recyConnectionWaitTime,
    getInt_of_gives loaded configures.waitTimeEnable, getInt_of_gives loaded configures.maxWaitTime,
    Option.bind_eq_bind, Option.bind_some, Option.map_some, hmax, Settings.conf]
  split <;> rfl

theorem daemonProcess_succeeds (succeeds : Succeeds env) (s : State) :
    ∃ s', s.daemonProcess env = some (0, s') ∧ Frame s s' ∧
      s'.listenSocketList = s.listenSocketList := by
  obtain ⟨pid, hfork⟩ := succeeds.fork
  simp only [daemonProcess, hfork, succeeds.setsid, succeeds.openNull, redirect,
    succeeds.dupStdin, succeeds.dupStdout, succeeds.closeNull, ne_eq, not_true_eq_false, if_false]
  split
  · exact ⟨_, rfl, ⟨rfl, rfl, rfl, rfl⟩, rfl⟩
  · exact ⟨_, rfl, ⟨rfl, rfl, rfl, rfl⟩, rfl⟩

end State

/-- `main` behind `CSocket::Initialize`. -/
theorem daemonize_succeeds (succeeds : Succeeds env) (s : State) {daemon : Int}
    (hdaemon : getInt (bytes "Daemon") 1 items = some daemon) (plain : s.gDaemonized = false) :
    ∃ s', daemonize env items s = some (.cycle s') ∧ s'.conf = s.conf ∧ s'.logS = s.logS ∧
      s'.listenSocketList = s.listenSocketList ∧ (s'.gDaemonized = true ↔ daemon = 1) := by
  rw [daemonize, hdaemon, Option.bind_some]
  by_cases hone : daemon = 1
  · obtain ⟨t, ht, hframe, hlist⟩ := State.daemonProcess_succeeds succeeds s
    rw [if_pos hone, ht, Option.map_some]
    exact ⟨{ t with gDaemonized := true }, rfl, hframe.conf, hframe.logS, hlist, by simp [hone]⟩
  · rw [if_neg hone]
    exact ⟨s, rfl, rfl, rfl, rfl, by simp [plain, hone]⟩

/-- `main` comes through all its parts. -/
theorem initServer_succeeds (succeeds : Succeeds env)
    (loaded : Loaded items content) {settings : Settings}
    (configures : Configures content settings) (listens : settings.ports ≠ []) :
    ∃ s, initServer env items env.state = some (.cycle s) ∧ s.conf = settings.conf ∧
      s.logS.logLevel = settings.logLevel ∧
      s.listenSocketList.map ListeningT.port = settings.ports ∧
      (s.gDaemonized = true ↔ settings.daemon = 1) := by
  let s₁ : State := { env.state with
    files := env.files.add .log, logS := ⟨settings.logLevel, env.files.lowest⟩ }
  have hlog : env.state.initLog env items = some s₁ := by
    rw [State.initLog, getInt_of_gives loaded configures.logLevel, Option.bind_some,
      if_pos succeeds.openLog]
    rfl
  obtain ⟨s₂, hsignals, hlogS₂, hlist₂, hplain₂⟩ :=
    State.initSignalsLoop_succeeds succeeds (fun _ h => h) 0 s₁
  have hports : ∀ j port, settings.ports[j]? = some port →
      getInt (State.listenPort (0 + j)) (9000 + (0 + j : Nat)) items = some port :=
    fun j port hport => by
      rw [Nat.zero_add]
      exact getInt_of_gives loaded (configures.ports j port hport)
  obtain ⟨s₃, hopen, hframe₃, hlist₃⟩ :=
    State.openListenLoop_succeeds succeeds 0 { s₂ with conf := settings.conf } hports
  have hnil : s₂.listenSocketList = [] := hlist₂
  simp only [hnil, List.map_nil, List.nil_append] at hlist₃
  have hsome : (!s₃.listenSocketList.isEmpty) = true := by
    cases hempty : s₃.listenSocketList with
    | nil => exact absurd (by rw [← hlist₃, hempty]; rfl) listens
    | cons => rfl
  rw [hsome] at hopen
  obtain ⟨s, hs, hconf, hlogS, hlist, hdaemonized⟩ := daemonize_succeeds succeeds s₃
    (getInt_of_gives loaded configures.daemon) (hframe₃.gDaemonized.trans hplain₂)
  have hread := State.readConf_of_configures loaded configures
  refine ⟨s, ?_, hconf.trans hframe₃.conf, ?_, by rw [hlist, hlist₃], hdaemonized⟩
  · rw [initServer, hlog, Option.bind_some, State.initSignals, hsignals, Option.bind_some,
      if_pos rfl, State.initSocket, hread, Option.bind_some, State.openListenSockets]
    have hcount : settings.conf.portCount.toNat = settings.ports.length := Int.toNat_natCast _
    rw [hcount, hopen, Option.bind_some, if_pos rfl]
    exact hs
  · rw [hlogS, hframe₃.logS]
    exact congrArg LogT.logLevel hlogS₂

/-- If the lines of the file are read as they stand and give these settings, with a port at least,
and the system calls succeed, then the master enters its cycle with the settings, as a daemon or
not, and forks as many workers as they say. Each worker can enter its event loop exactly if it is
to create connection objects, and has at every moment a standby connection for each of the ports,
which alone has the socket bound to it. -/
theorem settings_served (std : Standard env.files) (succeeds : Succeeds env)
    (read : env.content = some content) (cuts : ∀ line ∈ lines content, CutsWell line)
    {settings : Settings} (configures : Configures content settings)
    (listens : settings.ports ≠ []) :
    ∃ s items, main env = some (.cycle s) ∧ s.conf = settings.conf ∧
      s.logS.logLevel = settings.logLevel ∧
      s.listenSocketList.map ListeningT.port = settings.ports ∧
      (s.gDaemonized = true ↔ settings.daemon = 1) ∧
      load [] env.content = some (.ok (true, items)) ∧
      (∀ master : Master.Boot, master.items = items → master.ForksFor settings.workProcesses) ∧
      ∀ raw, ∃ boot : Boot, boot.raw = raw ∧ boot.conf = settings.conf.toConf ∧
        boot.listenFds = s.listenSocketList.map (fun item => (item.fd : Fd)) ∧
        ((∃ t, boot.Starts t) ↔ 0 < settings.connectionsToCreate) ∧
        ∀ t, Server.Reachable boot t → ∀ item ∈ s.listenSocketList, Serves s t item := by
  obtain ⟨items, hload, loaded⟩ := load_settings [] content cuts
  obtain ⟨s, hs, hconf, hlevel, hports, hdaemon⟩ :=
    initServer_succeeds succeeds loaded configures listens
  rw [← read, List.nil_append] at hload
  have hmain : main env = some (.cycle s) := by
    rw [main, hload]
    exact hs
  have hworkers := getInt_of_gives loaded configures.workProcesses
  obtain ⟨items', -, hcycles⟩ := cycles_of_main std hmain
  have hboot : ∀ raw, (hcycles.boot raw).conf = settings.conf.toConf :=
    fun _ => congrArg SocketConf.toConf hconf
  refine ⟨s, items, hmain, hconf, hlevel, hports, hdaemon, hload,
    fun master hitems => Master.Boot.forksFor (by rw [hitems]; exact hworkers), fun raw =>
      ⟨hcycles.boot raw, rfl, hboot raw, rfl, ?_, fun t reached item mem =>
        hcycles.serves reached mem⟩⟩
  rw [Boot.exists_starts, hboot raw]
  rfl

/-- With a byte order mark, a comment behind a value, and blanks. -/
def smallLines : List (List UInt8) :=
  [[0xef, 0xbb, 0xbf, carriageReturn], bytes "# Net", bytes "[Net]",
    bytes "ListenPortCount = 1  # ListenPort0", bytes "  ListenPort0=8080   ",
    bytes "Daemon = 0" ++ [carriageReturn]]

def smallContent : List UInt8 := smallLines.flatMap fun line => line ++ [newline]

theorem lines_smallContent :
    lines smallContent = smallLines.map fun line => line ++ [newline] :=
  lines_flatMap (by decide)

theorem cuts_smallContent : ∀ line ∈ lines smallContent, CutsWell line := by
  have hshort : ∀ line ∈ smallLines.map fun line => line ++ [newline],
      line.length ≤ capacity ∧ (IsSetting line → Fits line) := by decide +kernel
  intro line hline
  have hmem := hline
  rw [lines_smallContent] at hmem
  exact cutsWell_short hline (hshort line hmem).1 (hshort line hmem).2

theorem given_smallContent (name : List UInt8) : given smallContent name =
    ([(bytes "ListenPortCount", bytes "1"), (bytes "ListenPort0", bytes "8080"),
      (bytes "Daemon", bytes "0")].find? fun setting => setting.1 = name).map Prod.snd := by
  have hsettings : (lines smallContent).flatMap lineSettings =
      [(bytes "ListenPortCount", bytes "1"), (bytes "ListenPort0", bytes "8080"),
        (bytes "Daemon", bytes "0")] := by
    rw [lines_smallContent]
    decide +kernel
  rw [given, hsettings]

def Settings.small : Settings := ⟨6, 1000, 20, 60, 1, 10, 0, 2, [8080]⟩

theorem configures_small : Configures smallContent .small := by
  refine ⟨?_, ?_, ?_, ?_, ?_, ?_, ?_, ?_, ?_, fun i port h => ?_⟩ <;>
    simp only [Gives, given_smallContent]
  · exact .inr ⟨by decide, rfl⟩
  · exact .inr ⟨by decide, rfl⟩
  · exact .inr ⟨by decide, rfl⟩
  · exact .inr ⟨by decide, rfl⟩
  · exact .inr ⟨by decide, rfl⟩
  · exact .inr ⟨by decide, rfl⟩
  · exact .inl ⟨by decide, by decide⟩
  · exact .inr ⟨by decide, rfl⟩
  · exact .inl ⟨by decide, by decide⟩
  · cases i with
    | zero =>
        obtain rfl := Option.some.inj h
        exact .inl ⟨by decide, by decide⟩
    | succ i => cases h

def Environment.configured : Environment :=
  { Environment.small with content := some smallContent }

/-- The master listens on 8080, forks two workers, and each of them can be started. -/
theorem settings_served_small : ∃ s items, main .configured = some (.cycle s) ∧
    s.listenSocketList.map ListeningT.port = [8080] ∧ s.gDaemonized = false ∧
    (∀ master : Master.Boot, master.items = items → master.ForksFor 2) ∧
    ∀ raw, ∃ boot : Boot, boot.raw = raw ∧ ∃ t, boot.Starts t := by
  have hsucceeds : Succeeds .configured :=
    ⟨rfl, fun _ => rfl, fun _ => rfl, ⟨70, rfl⟩, rfl, rfl, rfl, rfl, rfl⟩
  obtain ⟨s, items, hmain, -, -, hports, hdaemon, -, hworkers, hboots⟩ :=
    @settings_served .configured smallContent standard_standardFiles hsucceeds rfl
      cuts_smallContent .small configures_small (List.cons_ne_nil _ _)
  refine ⟨s, items, hmain, hports, ?_, hworkers, fun raw => ?_⟩
  · exact Bool.eq_false_iff.mpr fun h => absurd (hdaemon.mp h) (by decide)
  · obtain ⟨boot, hraw, -, -, hstarts, -⟩ := hboots raw
    exact ⟨boot, hraw, hstarts.mpr (by decide)⟩

end Startup

end MyNginx
