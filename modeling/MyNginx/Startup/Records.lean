import MyNginx.Signal.Records
import MyNginx.Startup.System

/-!
# The records of `main`

Every line that `main` and the functions it calls hand to `log_error_core` is defined, so that
`main` is undefined only where `Load` or `GetInt` is.
-/

namespace MyNginx

open Foundation Format Log

namespace Startup

variable {env : Environment} {s : State} {call : Call} {items : List ConfItem}

/-- The call is defined at any time, in any process. -/
def Composable (call : Call) : Prop :=
  ∀ tm curPid strerror, Signal.Composes tm curPid strerror call

/-- A text with one directive is defined, with any error number. -/
theorem composable_piece (level : Level) (errnum : BitVec 32) (piece : Piece)
    (defined : piece.Defined) {front back : List UInt8}
    (hfront : ∀ c ∈ front, c ≠ 0 ∧ c ≠ percent) (hback : ∀ c ∈ back, c ≠ 0 ∧ c ≠ percent)
    (short : front.length + piece.output.length + back.length ≤ 1900) :
    Composable ⟨level, errnum, front ++ (piece.spelling ++ back), piece.arguments⟩ := by
  intro tm curPid strerror
  have hlength :
      (output (literals front hfront ++ piece :: literals back hback)).length ≤ 1900 := by
    rw [Signal.length_append_output, output_cons, List.length_append, Signal.length_literals,
      Signal.length_literals]
    omega
  have hdefined : ∀ other ∈ literals front hfront ++ piece :: literals back hback,
      other.Defined :=
    Signal.defined_append defined_literals (List.forall_mem_cons.mpr ⟨defined, defined_literals⟩)
  obtain ⟨out, hout⟩ : Signal.Composes tm curPid strerror ⟨level, errnum,
      format (literals front hfront ++ piece :: literals back hback),
      arguments (literals front hfront ++ piece :: literals back hback)⟩ :=
    logErrorCore_ok _ hdefined hlength
  have hspelling : format (literals front hfront ++ piece :: literals back hback) =
      front ++ (piece.spelling ++ back) := by
    rw [format, List.flatMap_append, List.flatMap_cons, ← format, ← format,
      Signal.format_literals.1, Signal.format_literals.1]
  have harguments : arguments (literals front hfront ++ piece :: literals back hback) =
      piece.arguments := by
    rw [arguments, List.flatMap_append, List.flatMap_cons, ← arguments, ← arguments,
      Signal.format_literals.2, Signal.format_literals.2, List.nil_append, List.append_nil]
  rw [hspelling, harguments] at hout
  exact ⟨out, hout⟩

theorem composable_string (level : Level) (errnum : BitVec 32) {front back text : List UInt8}
    (hfront : front.all (fun c => c != 0 && c != percent) = true)
    (hback : back.all (fun c => c != 0 && c != percent) = true)
    (short : front.length + text.length + back.length ≤ 1900) :
    Composable ⟨level, errnum, front ++ (bytes "%s" ++ back), [.str text]⟩ := by
  have hcstr := Signal.length_cstr_le text
  have houtput : (Piece.string Log.plain text).output = cstr text := rfl
  refine composable_piece level errnum (.string Log.plain text) trivial
    (plain_of_all hfront) (plain_of_all hback) ?_
  rw [houtput]
  omega

namespace State

theorem logErrorCore_of_composable (env : Environment) (s : State) (h : Composable call) :
    s.logErrorCore env call =
      some { s with lines := s.lines ++ [(call, s.writeRecord env call)] } := by
  obtain ⟨out, hout⟩ := h (env.tm s.lines.length) s.curPid env.strerror
  simp only [logErrorCore, hout]
  rfl

theorem composable_openLogFailed (errno : BitVec 32) {plogname : List UInt8}
    (short : plogname.length ≤ 60) : Composable (openLogFailed errno plogname) :=
  @composable_string .alert errno (bytes "[alert] could not open error log file: open() \"")
    (bytes "\" failed") plogname (by decide) (by decide) (by simp [bytes]; omega)

theorem composable_sigactionFailed {sig : Signal.SignalT} (mem : sig ∈ Signal.signals)
    (errno : BitVec 32) : Composable (sigactionFailed sig errno) := by
  have hname := Signal.length_signame mem
  exact @composable_string .emerg errno (bytes "sigaction(") (bytes ") failed") sig.signame
    (by decide) (by decide) (by simp [bytes]; omega)

theorem composable_sigactionSucced {sig : Signal.SignalT} (mem : sig ∈ Signal.signals) :
    Composable (sigactionSucced sig) := by
  have hname := Signal.length_signame mem
  exact @composable_string .info 0 (bytes "sigaction(") (bytes ") succed!") sig.signame
    (by decide) (by decide) (by simp [bytes]; omega)

theorem composable_socketFailed (errno : BitVec 32) : Composable (socketFailed errno) :=
  fun _ _ _ => Signal.composes_text .alert errno (plain_of_all (by decide)) (by decide)

theorem composable_roundFailed (errno : BitVec 32) {text : String}
    (plain : (bytes text ++ bytes " at [").all (fun c => c != 0 && c != percent) = true)
    (short : (bytes text).length ≤ 100) : Composable (roundFailed text errno) := by
  have hcall := @composable_string .alert errno (bytes text ++ bytes " at [") (bytes "]")
    (bytes "CSocket::event_open_listen") plain (by decide) (by simp [bytes] at short ⊢; omega)
  rw [List.append_assoc] at hcall
  exact hcall

theorem composable_setnonblockingFailed (errno : BitVec 32) :
    Composable (setnonblockingFailed errno) :=
  @composable_string .alert errno (bytes "Setting NONBLOCK has failed at [") (bytes "]")
    (bytes "setnonblocking") (by decide) (by decide) (by decide)

theorem composable_listenSucceeded (iport : Int) : Composable (listenSucceeded iport) := by
  have hword := Signal.length_word (BitVec.ofInt 32 iport)
  refine @composable_piece .info 0 (.int Log.plain (BitVec.ofInt 32 iport)) trivial
    [0xe7, 0x9b, 0x91, 0xe5, 0x90, 0xac, 32, 91]
    [93, 32, 0xe7, 0xab, 0xaf, 0xe5, 0x8f, 0xa3, 0xe6, 0x88, 0x90, 0xe5, 0x8a, 0x9f]
    (plain_of_all (by decide)) (plain_of_all (by decide)) ?_
  simp only [List.length_cons, List.length_nil]
  omega

theorem composable_daemonFailed (level : Level) (errno : BitVec 32) {name : String}
    (short : (bytes name).length ≤ 100) : Composable (daemonFailed level name errno) :=
  @composable_string level errno (bytes "Failed to create daemon process at [") (bytes "]")
    (bytes name) (by decide) (by decide) (by simp [bytes] at short ⊢; omega)

theorem composable_closeFailed (errno : BitVec 32) : Composable (closeFailed errno) :=
  fun _ _ _ => Signal.composes_text .emerg errno (plain_of_all (by decide)) (by decide)

end State

theorem composable_loadFailed : Composable loadFailed :=
  @composable_string .alert 0 (bytes "Failed to load the config file [") (bytes "], Now exit.")
    (bytes "nginx.conf") (by decide) (by decide) (by decide)

/-! ### `main` is defined -/

/-- The names of the items that `main` reads as numbers. -/
def Numeric (name : List UInt8) : Prop :=
  name ∈ [bytes "LogLevel", bytes "worker_connections", bytes "ListenPortCount",
    bytes "ConnectionsToCreate", bytes "Sock_RecyConnectionWaitTime", bytes "Sock_WaitTimeEnable",
    bytes "Sock_MaxWaitTime", bytes "Daemon"] ∨ ∃ i : Nat, name = State.listenPort i

/-- What is configured under these names does not overflow an `int`. -/
def Numbers (items : List ConfItem) : Prop :=
  ∀ name, Numeric name → ∀ value ∈ CConfig.getString name items, (CConfig.atoi value).isSome

theorem exists_getInt (numbers : Numbers items) (name : List UInt8) (numeric : Numeric name)
    (byDefault : Int) : ∃ n, CConfig.getInt name byDefault items = some n := by
  rw [CConfig.getInt_eq]
  cases hstring : CConfig.getString name items with
  | none => exact ⟨byDefault, rfl⟩
  | some value => exact Option.isSome_iff_exists.mp (numbers name numeric value hstring)

theorem length_getString {name value : List UInt8}
    (h : CConfig.getString name items = some value) : value.length ≤ 60 := by
  induction items with
  | nil => cases h
  | cons item items ih =>
      rw [CConfig.getString] at h
      split at h
      · obtain rfl := Option.some.inj h
        exact item.itemvalue.2 ▸ Signal.length_cstr_le _
      · exact ih h

namespace State

/-- A line, and what follows it. -/
theorem isSome_logged {α : Type} (env : Environment) (s : State) (f : State → α)
    (h : Composable call) : ((s.logErrorCore env call).map f).isSome := by
  rw [logErrorCore_of_composable env s h]
  rfl

theorem isSome_giveUp (env : Environment) (s : State) {isock : Nat} (h : Composable call) :
    (s.giveUp env isock call).isSome :=
  isSome_logged env s _ h

theorem isSome_initLog (numbers : Numbers items) (env : Environment) (s : State) :
    (s.initLog env items).isSome := by
  obtain ⟨logLevel, hlevel⟩ :=
    exists_getInt numbers (bytes "LogLevel") (.inl (by decide)) 6
  have hname : ((CConfig.getString (bytes "Log") items).getD errorLogPath).length ≤ 60 := by
    cases hstring : CConfig.getString (bytes "Log") items with
    | none => decide
    | some value => exact length_getString hstring
  rw [initLog, hlevel, Option.bind_some]
  split
  · rfl
  · exact isSome_logged env _ _ (composable_openLogFailed env.openLog hname)

theorem isSome_initSignalsLoop (env : Environment) {rest : List Signal.SignalT}
    (mem : ∀ sig ∈ rest, sig ∈ Signal.signals) (i : Nat) (s : State) :
    (initSignalsLoop env rest i s).isSome := by
  induction rest generalizing i s with
  | nil => rfl
  | cons sig rest ih =>
      have hsig := mem sig List.mem_cons_self
      rw [initSignalsLoop]
      split
      · exact isSome_logged env s _ (composable_sigactionFailed hsig _)
      · rw [logErrorCore_of_composable env _ (composable_sigactionSucced hsig), Option.bind_some]
        exact ih (fun other h => mem other (List.mem_cons_of_mem _ h)) (i + 1) _

theorem isSome_readConf (numbers : Numbers items) : (readConf items).isSome := by
  obtain ⟨workerConnections, h₁⟩ :=
    exists_getInt numbers (bytes "worker_connections") (.inl (by decide)) 1000
  obtain ⟨portCount, h₂⟩ :=
    exists_getInt numbers (bytes "ListenPortCount") (.inl (by decide)) 2
  obtain ⟨createConnectionsCount, h₃⟩ :=
    exists_getInt numbers (bytes "ConnectionsToCreate") (.inl (by decide)) 20
  obtain ⟨delayTime, h₄⟩ :=
    exists_getInt numbers (bytes "Sock_RecyConnectionWaitTime") (.inl (by decide)) 60
  obtain ⟨timeEnable, h₅⟩ :=
    exists_getInt numbers (bytes "Sock_WaitTimeEnable") (.inl (by decide)) 1
  obtain ⟨waittime, h₆⟩ :=
    exists_getInt numbers (bytes "Sock_MaxWaitTime") (.inl (by decide)) 10
  simp only [readConf, h₁, h₂, h₃, h₄, h₅, h₆, Option.bind_eq_bind, Option.bind_some,
    Option.map_some]
  split <;> rfl

theorem isSome_bindAndListen (env : Environment) (s : State) (answers : RoundAnswers)
    (isock : Nat) (iport : Int) : (s.bindAndListen env answers isock iport).isSome := by
  rw [bindAndListen]
  split
  · exact isSome_giveUp env s (composable_roundFailed _ (by decide) (by decide))
  · dsimp only
    split
    · exact isSome_giveUp env _ (composable_roundFailed _ (by decide) (by decide))
    · exact isSome_logged env _ _ (composable_listenSucceeded iport)

theorem isSome_openListenSocket (numbers : Numbers items) (env : Environment) (s : State)
    (i : Nat) : (s.openListenSocket env items i).isSome := by
  obtain ⟨iport, hport⟩ := exists_getInt numbers (listenPort i) (.inr ⟨i, rfl⟩) (9000 + i)
  rw [openListenSocket]
  split
  · exact isSome_logged env s _ (composable_socketFailed _)
  · rw [setOptions]
    split
    · exact isSome_giveUp env _ (composable_roundFailed _ (by decide) (by decide))
    · dsimp only
      split
      · exact isSome_giveUp env _ (composable_roundFailed _ (by decide) (by decide))
      · split
        · rw [logErrorCore_of_composable env _ (composable_setnonblockingFailed _),
            Option.bind_some]
          exact isSome_giveUp env _ (composable_roundFailed _ (by decide) (by decide))
        · rw [hport, Option.bind_some]
          exact isSome_bindAndListen ..

theorem isSome_openListenLoop (numbers : Numbers items) (env : Environment) (rounds i : Nat)
    (s : State) : (openListenLoop env items rounds i s).isSome := by
  induction rounds generalizing i s with
  | zero => rfl
  | succ rounds ih =>
      obtain ⟨result, hresult⟩ :=
        Option.isSome_iff_exists.mp (isSome_openListenSocket numbers env s i)
      rw [openListenLoop, hresult, Option.bind_some]
      split
      · exact ih (i + 1) result.2
      · rfl

theorem isSome_redirect (env : Environment) (s : State) (fd : Nat) :
    (s.redirect env fd).isSome := by
  rw [redirect]
  split
  · exact isSome_logged env s _ (composable_daemonFailed _ _ (by decide))
  · dsimp only
    split
    · exact isSome_logged env _ _ (composable_daemonFailed _ _ (by decide))
    · split
      · rfl
      · split
        · exact isSome_logged env _ _ (composable_closeFailed _)
        · rfl

theorem isSome_daemonProcess (env : Environment) (s : State) : (s.daemonProcess env).isSome := by
  rw [daemonProcess]
  split
  · exact isSome_logged env s _ (composable_daemonFailed _ _ (by decide))
  · rfl
  · dsimp only
    split
    · exact isSome_logged env _ _ (composable_daemonFailed _ _ (by decide))
    · split
      · exact isSome_logged env _ _ (composable_daemonFailed _ _ (by decide))
      · exact isSome_redirect env _ _

end State

theorem isSome_daemonize (numbers : Numbers items) (env : Environment) (s : State) :
    (daemonize env items s).isSome := by
  obtain ⟨daemon, hdaemon⟩ :=
    exists_getInt numbers (bytes "Daemon") (.inl (by decide)) 1
  rw [daemonize, hdaemon, Option.bind_some]
  split
  · rw [Option.isSome_map]
    exact State.isSome_daemonProcess env s
  · rfl

theorem isSome_initServer (numbers : Numbers items) (env : Environment) (s : State) :
    (initServer env items s).isSome := by
  obtain ⟨s₁, h₁⟩ := Option.isSome_iff_exists.mp (State.isSome_initLog numbers env s)
  obtain ⟨result, h₂⟩ := Option.isSome_iff_exists.mp
    (State.isSome_initSignalsLoop env (fun _ h => h) 0 s₁)
  obtain ⟨conf, h₃⟩ := Option.isSome_iff_exists.mp (State.isSome_readConf numbers)
  obtain ⟨result', h₄⟩ := Option.isSome_iff_exists.mp
    (State.isSome_openListenLoop numbers env conf.portCount.toNat 0 { result.2 with conf })
  rw [initServer, h₁, Option.bind_some, State.initSignals, h₂, Option.bind_some]
  split
  · rw [State.initSocket, h₃, Option.bind_some, State.openListenSockets, h₄, Option.bind_some]
    split
    · exact isSome_daemonize numbers env result'.2
    · rfl
  · rfl

end Startup

end MyNginx
