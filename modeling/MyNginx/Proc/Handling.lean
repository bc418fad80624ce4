import MyNginx.Proc.ProcCycle
import MyNginx.Signal.Records

/-!
# What a step of the master does

`Does` lists the steps of the master, of its handlers and of the kernel. Of the lines that
they print only the first one of the handler can be undefined, and it is exactly for a signal
with a sender: `crashes`. The steps keep the signals nested and known to the table, and a
child that has ended is not forgotten.
-/

namespace MyNginx

open Foundation Log Signal

namespace Master

namespace State

variable {s s' : State} {tm : Tm} {call : Call}

/-- A call that is defined. -/
theorem logErrorCore_eq (h : Composes tm s.curPid s.strerror call) (next : State → State) :
    s.logErrorCore tm call next = next (s.logged call) := by
  obtain ⟨out, hout⟩ := h
  rw [State.logErrorCore, hout, behindCall]

/-- A call that is not. -/
theorem logErrorCore_crashes (h : ¬Composes tm s.curPid s.strerror call) (next : State → State) :
    s.logErrorCore tm call next = { s with pc := .crashed } := by
  rw [State.logErrorCore]
  generalize hresult : Log.logErrorCore tm s.curPid s.strerror call.level call.errnum call.fmt
    call.args = result
  cases result with
  | error fault => rfl
  | ok out => exact absurd ⟨out, hresult⟩ h

/-- What is printed when a fork has failed. -/
def forkPieces (procNum : Nat) : List Format.Piece :=
  Format.literals (bytes "Fork process at porc_num: [") (Format.plain_of_all (by decide)) ++
    .int Log.plain (BitVec.ofNat 32 procNum) ::
      Format.literals (bytes "] has failed") (Format.plain_of_all (by decide))

theorem composes_forkFailed (errno : BitVec 32) (procNum : Nat) :
    Composes tm s.curPid s.strerror (forkFailed errno procNum) := by
  have hword := length_word (BitVec.ofNat 32 procNum)
  have htexts : (bytes "Fork process at porc_num: [").length = 27 ∧
      (bytes "] has failed").length = 12 := ⟨rfl, rfl⟩
  refine Log.logErrorCore_ok (forkPieces procNum) ?_ ?_
  · refine defined_append Format.defined_literals (List.forall_mem_cons.mpr ⟨trivial, ?_⟩)
    exact Format.defined_literals
  · simp only [forkPieces, length_append_output, Format.output_cons, List.length_append,
      length_literals, htexts]
    omega

/-- The steps of the master, of its handlers and of the kernel. -/
inductive Does (s : State) : Label → State → Prop
  | forkFails {i : Nat} {errno : BitVec 32} {tm : Tm} (idle : s.frames = [])
      (pc : s.pc = .forking i) (more : i < s.processCount) :
      Does s (.main (.failed errno) tm)
        { s.logged (forkFailed errno i) with pc := .forking (i + 1) }
  | forks {i : Nat} {pid : BitVec 32} {tm : Tm} (idle : s.frames = [])
      (pc : s.pc = .forking i) (more : i < s.processCount) (fresh : s.Fresh pid) :
      Does s (.main (.child pid) tm) { s with
        running := s.running ++ [⟨i, pid⟩]
        forked := s.forked ++ [⟨i, pid⟩]
        pc := .forking (i + 1) }
  | forked {i : Nat} {answer : ForkAnswer} {tm : Tm} (idle : s.frames = [])
      (pc : s.pc = .forking i) (none : ¬i < s.processCount) :
      Does s (.main answer tm) { s with pc := .suspending }
  | suspends {answer : ForkAnswer} {tm : Tm} (idle : s.frames = []) (pc : s.pc = .suspending) :
      Does s (.main answer tm) { s with mask := [], pc := .suspended s.mask }
  | sleeps {answer : ForkAnswer} {tm : Tm} (idle : s.frames = []) (pc : s.pc = .woken) :
      Does s (.main answer tm) { s with pc := .sleeping }
  | rises {answer : ForkAnswer} {tm : Tm} (idle : s.frames = []) (pc : s.pc = .sleeping) :
      Does s (.main answer tm) { s with pc := .suspending }
  | crashes {frame : SignalFrame Signo HandlerPc} {rest : List (SignalFrame Signo HandlerPc)}
      {siPid : BitVec 32} {answer : WaitAnswer} {tm : Tm} {reap : Bool}
      (frames : s.frames = frame :: rest) (entered : frame.pc = .entered siPid)
      (sender : siPid ≠ 0) : Does s (.handler answer tm) { s with reap, pc := .crashed }
  | receives {frame : SignalFrame Signo HandlerPc} {rest : List (SignalFrame Signo HandlerPc)}
      {sig : SignalT} {answer : WaitAnswer} {tm : Tm} (frames : s.frames = frame :: rest)
      (entered : frame.pc = .entered 0) (other : frame.signo ≠ sigchld) :
      Does s (.handler answer tm) (s.logged (signalReceived sig 0)).handlerReturn
  | receivesChild {frame : SignalFrame Signo HandlerPc}
      {rest : List (SignalFrame Signo HandlerPc)} {sig : SignalT} {answer : WaitAnswer} {tm : Tm}
      (frames : s.frames = frame :: rest) (entered : frame.pc = .entered 0)
      (child : frame.signo = sigchld) :
      Does s (.handler answer tm)
        ((State.logged { s with reap := true } (signalReceived sig 0)).handlerGoto (.waiting false))
  | finds {frame : SignalFrame Signo HandlerPc} {rest : List (SignalFrame Signo HandlerPc)}
      {one : Bool} {entry : Child × ChildEnd} {procNum : Nat} {tm : Tm}
      (frames : s.frames = frame :: rest) (waiting : frame.pc = .waiting one)
      (mem : entry ∈ s.zombies) :
      Does s (.handler (.child procNum) tm) { s.handlerGoto (.found entry.1 entry.2) with
        zombies := s.zombies.erase entry
        reaped := s.reaped ++ [entry] }
  | returns {frame : SignalFrame Signo HandlerPc} {rest : List (SignalFrame Signo HandlerPc)}
      {one : Bool} {tm : Tm} (frames : s.frames = frame :: rest)
      (waiting : frame.pc = .waiting one) (none : s.zombies = []) :
      Does s (.handler .none tm) s.handlerReturn
  | fails {frame : SignalFrame Signo HandlerPc} {rest : List (SignalFrame Signo HandlerPc)}
      {one : Bool} {tm : Tm} (frames : s.frames = frame :: rest)
      (waiting : frame.pc = .waiting one) (none : s.zombies = []) :
      Does s (.handler .none tm) (s.logged (waitpidFailed echild)).handlerReturn
  | interrupted {tm : Tm} : Does s (.handler .interrupted tm) s
  | prints {frame : SignalFrame Signo HandlerPc} {rest : List (SignalFrame Signo HandlerPc)}
      {child : Child} {ended : ChildEnd} {answer : WaitAnswer} {tm : Tm}
      (frames : s.frames = frame :: rest) (found : frame.pc = .found child ended) :
      Does s (.handler answer tm)
        ((s.logged (statusLine child.pid ended.status)).handlerGoto (.waiting true))
  | interrupts {signo : Signo} {siPid : BitVec 32} (pending : s.info signo = some siPid)
      (free : signo ∉ s.mask) (handler : s.disposition signo = .handler)
      (running : ∀ restores, s.pc ≠ .suspended restores) :
      Does s (.deliver signo)
        { s with toSignals := s.toSignals.deliver signo s.mask (.entered siPid) }
  | wakes {signo : Signo} {siPid : BitVec 32} {restores : List Signo}
      (pending : s.info signo = some siPid) (free : signo ∉ s.mask)
      (handler : s.disposition signo = .handler) (pc : s.pc = .suspended restores) :
      Does s (.deliver signo) { s with
        toSignals := s.toSignals.deliver signo restores (.entered siPid)
        pc := .woken }
  | dies {signo : Signo} {siPid : BitVec 32} (pending : s.info signo = some siPid)
      (free : signo ∉ s.mask) (unhandled : s.disposition signo ≠ .handler) :
      Does s (.deliver signo) { s with toSignals := s.toSignals.take signo, pc := .killed signo }
  | killed {siPid : BitVec 32} : Does s (.arrive sigkill siPid) { s with pc := .killed sigkill }
  | ignored {signo : Signo} {siPid : BitVec 32} : Does s (.arrive signo siPid) s
  | raises {signo : Signo} {siPid : BitVec 32} (harmful : harmless s.disposition signo = false) :
      Does s (.arrive signo siPid) { s with toSignals := s.toSignals.raise signo siPid }
  | exits {child : Child} {procNum : Nat} {ended : ChildEnd} (valid : ended.Valid)
      (mem : child ∈ s.running) :
      Does s (.exit procNum ended) { s with
        toSignals := s.toSignals.raise sigchld child.pid
        running := s.running.erase child
        zombies := s.zombies ++ [(child, ended)] }

end State

open Master.State

variable {s s' : State} {label : Label} {boot : Boot}

theorem handlerStep_does {answer : WaitAnswer} {tm : Tm}
    (h : s.handlerStep answer tm = some s') : Does s (.handler answer tm) s' := by
  simp only [handlerStep] at h
  split at h
  · cases h
  next frame rest hframes =>
  split at h
  next siPid hpc =>
    obtain ⟨sig, hfind, rfl⟩ := Option.map_eq_some_iff.mp h
    have hmem := List.mem_of_find?_eq_some hfind
    by_cases hsender : siPid = 0
    · subst hsender
      have hcomposes : Composes tm s.curPid s.strerror (signalReceived sig 0) :=
        (composes_signalReceived hmem 0).mpr rfl
      split
      next hchild =>
        rw [State.logErrorCore_eq (s := { s with reap := true }) hcomposes]
        exact .receivesChild hframes hpc hchild
      next hother =>
        rw [State.logErrorCore_eq hcomposes]
        exact .receives hframes hpc hother
    · have hcrashes : ¬Composes tm s.curPid s.strerror (signalReceived sig siPid) :=
        mt (composes_signalReceived hmem siPid).mp hsender
      split
      next hchild =>
        rw [State.logErrorCore_crashes (s := { s with reap := true }) hcrashes]
        exact .crashes hframes hpc hsender
      next hother =>
        rw [State.logErrorCore_crashes hcrashes]
        exact .crashes hframes hpc hsender
  next one hpc =>
    cases answer with
    | child procNum =>
        obtain ⟨entry, hfind, rfl⟩ := Option.map_eq_some_iff.mp h
        exact .finds hframes hpc (List.mem_of_find?_eq_some hfind)
    | none =>
        simp only [processGetStatus] at h
        split at h
        · cases h
        next hzombies =>
        have hnone : s.zombies = [] := not_not.mp hzombies
        split at h
        · obtain rfl := Option.some.inj h
          exact .returns hframes hpc hnone
        · obtain rfl := Option.some.inj h
          rw [State.logErrorCore_eq (composes_waitpidFailed echild)]
          exact .fails hframes hpc hnone
    | interrupted =>
        obtain rfl := Option.some.inj h
        exact .interrupted
  next child ended hpc =>
    obtain rfl := Option.some.inj h
    rw [State.logErrorCore_eq (composes_statusLine child.pid ended.status)]
    exact .prints hframes hpc

theorem mainStep_does {answer : ForkAnswer} {tm : Tm} (idle : s.frames = [])
    (h : s.mainStep answer tm = some s') : Does s (.main answer tm) s' := by
  simp only [mainStep] at h
  split at h
  next i hpc =>
    split at h
    next hmore =>
      obtain ⟨t, hspawn, rfl⟩ := Option.map_eq_some_iff.mp h
      cases answer with
      | failed errno =>
          obtain rfl := Option.some.inj hspawn
          rw [State.logErrorCore_eq (composes_forkFailed errno i), id, if_neg]
          · exact .forkFails idle hpc hmore
          · simp [logged, hpc]
      | child pid =>
          simp only [spawnProcess] at hspawn
          split at hspawn
          next hfresh =>
            obtain rfl := Option.some.inj hspawn
            rw [if_neg (by simp [hpc])]
            exact .forks idle hpc hmore hfresh
          next => cases hspawn
    next hnone =>
      obtain rfl := Option.some.inj h
      exact .forked idle hpc hnone
  next hpc =>
    obtain rfl := Option.some.inj h
    exact .suspends idle hpc
  next => cases h
  next hpc =>
    obtain rfl := Option.some.inj h
    exact .sleeps idle hpc
  next hpc =>
    obtain rfl := Option.some.inj h
    exact .rises idle hpc
  next => cases h
  next => cases h

theorem deliverStep_does {signo : Signo} (h : s.deliverStep signo = some s') :
    Does s (.deliver signo) s' := by
  simp only [deliverStep] at h
  split at h
  · cases h
  next siPid hpending =>
  split at h
  · cases h
  next hfree =>
  split at h
  next hhandler =>
    split at h
    next restores hpc =>
      obtain rfl := Option.some.inj h
      exact .wakes hpending hfree hhandler hpc
    next hpc =>
      obtain rfl := Option.some.inj h
      exact .interrupts hpending hfree hhandler fun restores he => hpc restores he
  next hother =>
    obtain rfl := Option.some.inj h
    exact .dies hpending hfree hother

/-- The steps are those of the list; the exit of a child is one of them as long as `SIGCHLD`
has its handler. -/
theorem step_does (child : s.disposition sigchld = .handler) (h : step s label = some s') :
    s.pc.gone = false ∧ Does s label s' := by
  simp only [step] at h
  split at h
  · cases h
  next hgone =>
  refine ⟨by simpa using hgone, ?_⟩
  cases label with
  | main answer tm =>
      dsimp only at h
      split at h
      next hidle => exact mainStep_does hidle h
      next => cases h
  | handler answer tm => exact handlerStep_does h
  | deliver signo => exact deliverStep_does h
  | arrive signo siPid =>
      obtain rfl := Option.some.inj h
      rw [State.arrive]
      split
      next hkill =>
        subst hkill
        exact .killed
      next =>
        split
        next => exact .ignored
        next hharmful => exact .raises (by simpa using hharmful)
  | exit procNum ended =>
      simp only [exitStep] at h
      split at h
      next hvalid =>
        obtain ⟨found, hfind, rfl⟩ := Option.map_eq_some_iff.mp h
        have hharmful : harmless s.disposition sigchld = false := by rw [harmless, child]
        rw [State.arrive, if_neg (by decide), if_neg (by simp [hharmful])]
        exact .exits hvalid (List.mem_of_find?_eq_some hfind)
      next => cases h

end Master

end MyNginx
