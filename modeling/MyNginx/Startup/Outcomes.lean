import MyNginx.Startup.Descriptors
import MyNginx.Startup.Records

/-!
# How `main` ends

It returns with 2 if the configuration cannot be loaded; the log has no descriptor then, and
`freeresource` closes 0 in its place. It returns with 1 or 0 without the log, or goes on with
the log, the listening sockets and nothing else.
-/

namespace MyNginx

open Foundation Log

namespace Startup

variable {env : Environment} {s s' : State} {items : List ConfItem} {i : Nat} {ok : Bool}
  {outcome : Outcome}

/-- The lines have gone to the log, to `stderr` or nowhere. -/
def Written (files : Descriptors File) (s : State) : Prop :=
  ∀ line ∈ s.lines, line.2 = none ∨ line.2 = some .log ∨ line.2 = files.get 2

namespace State

@[simp] theorem freeresource_lines (s : State) : s.freeresource.lines = s.lines := by
  rw [freeresource]
  split <;> rfl

@[simp] theorem freeresource_sockets (s : State) : s.freeresource.sockets = s.sockets := by
  rw [sockets, freeresource]
  split <;> rfl

theorem toNull_stderr (files : Descriptors File) {n : Nat} (hn : n ≤ 2) :
    (toNull files n).get 2 = files.get 2 := by
  induction n with
  | zero => rfl
  | succ n ih =>
      have hne : 2 ≠ n := by omega
      rw [toNull, Descriptors.get_set_of_ne _ hne, ih (by omega)]

end State

/-- The process returns behind `init_log`: the log is closed, and some descriptors may have been
redirected. -/
structure Exits (env : Environment) (exitcode : Int) (s : State) : Prop where
  code : exitcode = 0 ∨ exitcode = 1
  adds : ∃ n ≤ 2, ∃ left, (left = [] ∨ ∃ fd, left = [(fd, File.null)]) ∧
    Adds (toNull env.files n) s.files (s.sockets ++ left) ∧ (exitcode = 0 → n = 0 ∧ left = [])
  written : Written env.files s

/-- The process enters the cycle of the master. -/
structure Cycles (env : Environment) (items : List ConfItem) (s : State) : Prop where
  adds : Adds (toNull env.files (if s.gDaemonized then 2 else 0)) s.files s.held
  written : Written env.files s
  conf : State.readConf items = some s.conf
  opened : s.listenSocketList ≠ []
  length : s.listenSocketList.length = s.conf.portCount.toNat
  ports : State.Ports items 0 s.listenSocketList

theorem exits_freeresource {n : Nat} {left : List (Nat × File)} {exitcode : Int}
    (hleft : left = [] ∨ ∃ fd, left = [(fd, File.null)]) (h : s.Holds (toNull env.files n) left)
    (hn : n ≤ 2) (code : exitcode = 0 ∨ exitcode = 1) (zero : exitcode = 0 → n = 0 ∧ left = []) :
    Exits env exitcode s.freeresource := by
  refine ⟨code, ⟨n, hn, left, hleft, ?_, zero⟩, ?_⟩
  · rw [State.freeresource_sockets]
    exact State.freeresource_adds h
  · rw [Written, State.freeresource_lines, ← State.toNull_stderr env.files hn]
    exact h.lines

/-- `main` behind `CSocket::Initialize`. -/
theorem daemonize_cases (h : s.Holds env.files []) (std : Standard env.files)
    (hs : daemonize env items s = some outcome) (plain : s.gDaemonized = false) :
    (∃ exitcode t, outcome = .exit exitcode t ∧ Exits env exitcode t) ∨
      ∃ t, outcome = .cycle t ∧ t.Holds (toNull env.files (if t.gDaemonized then 2 else 0)) [] ∧
        t.conf = s.conf ∧ t.listenSocketList = s.listenSocketList ∧ t.logS = s.logS ∧
        t.disposition = s.disposition := by
  obtain ⟨daemon, -, hdaemon⟩ := Option.bind_eq_some_iff.mp hs
  split at hdaemon
  · obtain ⟨⟨code, t⟩, ht, rfl⟩ := Option.map_eq_some_iff.mp hdaemon
    have hprocess := State.daemon_daemonProcess h std ht
    obtain ⟨n, hn, left, hleft, hholds, hzero, hone⟩ := hprocess.holds
    obtain ⟨hlogS, hconf, hdisposition, -⟩ := hprocess.frame
    rcases hprocess.code with rfl | rfl | rfl
    · exact .inl ⟨1, _, rfl, exits_freeresource hleft hholds hn (.inr rfl) (by simp)⟩
    · obtain ⟨rfl, rfl⟩ := hzero rfl
      exact .inr ⟨_, rfl, ⟨hholds.adds, hholds.log, hholds.lines⟩, hconf, hprocess.sockets, hlogS,
        hdisposition⟩
    · exact .inl ⟨0, _, rfl, exits_freeresource hleft hholds hn (.inl rfl) fun _ => hone rfl⟩
  · obtain rfl := Option.some.inj hdaemon
    refine .inr ⟨s, rfl, ?_, rfl, rfl, rfl, rfl⟩
    rw [plain]
    exact h

/-- `main` behind `Load`. -/
theorem initServer_cases (std : Standard env.files)
    (hs : initServer env items env.state = some outcome) :
    (∃ exitcode s, outcome = .exit exitcode s ∧ Exits env exitcode s) ∨
      ∃ s, outcome = .cycle s ∧ Cycles env items s := by
  obtain ⟨s₁, hlog, hrest⟩ := Option.bind_eq_some_iff.mp hs
  obtain ⟨hholds₁, hlist₁, hplain₁⟩ := State.initLog_holds std hlog
  obtain ⟨⟨ok, s₂⟩, hsignals, hrest⟩ := Option.bind_eq_some_iff.mp hrest
  obtain ⟨hholds₂, hlist₂, hplain₂⟩ := State.initSignalsLoop_holds hholds₁ std hsignals
  cases ok with
  | false =>
      obtain rfl := Option.some.inj hrest
      exact .inl ⟨1, _, rfl, exits_freeresource (n := 0) (.inl rfl) hholds₂ (by omega) (.inr rfl)
        (by simp)⟩
  | true =>
      obtain ⟨⟨ok, s₃⟩, hsocket, hrest⟩ := Option.bind_eq_some_iff.mp hrest
      obtain ⟨conf, hconf, hopen⟩ := Option.bind_eq_some_iff.mp hsocket
      have hread : State.Holds env.files { s₂ with conf } [] :=
        ⟨hholds₂.adds, hholds₂.log, hholds₂.lines⟩
      obtain ⟨hholds₃, hframe, hsockets⟩ :=
        State.openListenSockets_holds hread std hopen (hlist₂.trans hlist₁)
      cases ok with
      | false =>
          obtain rfl := Option.some.inj hrest
          exact .inl ⟨1, _, rfl, exits_freeresource (n := 0) (.inl rfl) hholds₃ (by omega)
            (.inr rfl) (by simp)⟩
      | true =>
          obtain ⟨hopened, hlength, hports⟩ := hsockets rfl
          have hplain₃ : s₃.gDaemonized = false :=
            hframe.gDaemonized.trans (hplain₂.trans hplain₁)
          refine (daemonize_cases hholds₃ std hrest hplain₃).imp id ?_
          rintro ⟨s, rfl, hholds, hconf', hlist, -, -⟩
          have hsame : s.conf = conf := hconf'.trans hframe.conf
          have hadds := hholds.adds
          rw [List.append_nil] at hadds
          refine ⟨s, rfl, hadds, ?_, hsame ▸ hconf, hlist ▸ hopened, ?_, hlist ▸ hports⟩
          · rw [Written, ← State.toNull_stderr env.files (n := if s.gDaemonized then 2 else 0)
              (by split <;> omega)]
            exact hholds.lines
          · rw [hlist, hlength, hsame]

/-- If `Load` is defined and no number overflows, then so is `main`. It returns with 2 exactly if
the file is missing: it writes nothing then, and closes 0. Else it returns with 1 or 0, or
goes on, and in each case it is known what is open and where the lines have gone. -/
theorem main_outcomes {loaded : Bool} (std : Standard env.files)
    (load : CConfig.load [] env.content = some (.ok (loaded, items))) (numbers : Numbers items) :
    (loaded = false ∧ ∃ s, main env = some (.exit 2 s) ∧
      (∀ fd, s.files.get fd = (env.files.close 0).get fd) ∧ ∀ line ∈ s.lines, line.2 = none) ∨
    loaded = true ∧ ((∃ exitcode s, main env = some (.exit exitcode s) ∧ Exits env exitcode s) ∨
      ∃ s, main env = some (.cycle s) ∧ Cycles env items s) := by
  cases loaded with
  | false =>
      have hfails := State.logErrorCore_of_composable env env.state composable_loadFailed
      have hlevel : env.state.logS.logLevel = 0 := rfl
      have hunwritten : env.state.writeRecord env loadFailed = none := by
        rw [State.writeRecord, hlevel]
        exact if_neg (by decide)
      rw [hunwritten] at hfails
      have hmain : main env = some (.exit 2
          (State.freeresource { env.state with lines := [(loadFailed, none)] })) := by
        rw [main, load]
        simp only [hfails, Option.map_some]
        rfl
      refine .inl ⟨rfl, _, hmain, fun fd => rfl, ?_⟩
      rw [State.freeresource_lines]
      simp
  | true =>
      obtain ⟨outcome, houtcome⟩ :=
        Option.isSome_iff_exists.mp (isSome_initServer numbers env env.state)
      have hmain : main env = some outcome := by
        rw [main, load]
        exact houtcome
      refine .inr ⟨rfl, (initServer_cases std houtcome).imp ?_ ?_⟩
      · rintro ⟨exitcode, s, rfl, hexits⟩
        exact ⟨exitcode, s, hmain, hexits⟩
      · rintro ⟨s, rfl, hcycles⟩
        exact ⟨s, hmain, hcycles⟩

/-- Nothing but 0, 1 and 2 is open. -/
def standardFiles : Descriptors File where
  get fd := if fd < 3 then some (.inherited fd) else none
  bound := 3
  closed _ h := if_neg (Nat.not_lt.mpr h)

theorem standard_standardFiles : Standard standardFiles := fun fd hfd => by
  have hget : standardFiles.get fd = some (.inherited fd) := if_pos (by omega)
  rw [hget]
  exact Option.some_ne_none _

/-- An empty file, and every call succeeds. -/
def Environment.small : Environment where
  files := standardFiles
  content := some []
  curPid := 50
  parentPid := 1
  tm _ := ⟨124, 0, 1, 0, 0, 0⟩
  strerror _ := []
  writes _ := .written
  again _ := true
  openLog := 0
  inherited _ := .byDefault
  sigaction _ := 0
  rounds _ := ⟨0, 0, 0, 0, 0, 0, 0⟩
  fork := .child 70
  setsid := 0
  openNull := 0
  dupStdin := 0
  dupStdout := 0
  closeNull := 0

def Outcome.returns : Outcome → Bool
  | .exit .. => true
  | .cycle _ => false

theorem goes_small : (main .small).map Outcome.returns = some false := by decide +kernel

/-- The process becomes a daemon that listens on two ports. -/
theorem main_outcomes_small : ∃ s, main .small = some (.cycle s) ∧ Cycles .small [] s := by
  have hgoes := goes_small
  have houtcomes := @main_outcomes .small [] true standard_standardFiles rfl
    (fun _ _ _ h => by cases h)
  rcases houtcomes with ⟨hfalse, -⟩ | ⟨-, ⟨exitcode, s, hmain, -⟩ | hcycle⟩
  · cases hfalse
  · rw [hmain] at hgoes
    cases hgoes
  · exact hcycle

end Startup

end MyNginx
