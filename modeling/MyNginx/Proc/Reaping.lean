import MyNginx.Foundation.Settling
import MyNginx.Proc.Children

/-!
# Children that have ended

A child that has ended is never forgotten: as long as it has not been waited for, `SIGCHLD` is
pending or its handler will call `waitpid` again. So the master, left to itself, soon is in
`sigsuspend` with nothing to wait for, or it is gone. And it is gone whenever a child ends
while no `SIGCHLD` is pending: the first line of the handler is undefined for a signal that
has a sender.
-/

namespace MyNginx

open Foundation Log Signal

namespace Master

open Master.State

variable {s s' t : State} {label : Label} {labels : List Label} {boot : Boot} {mask : List Signo}

/-- A child that has ended will be waited for. -/
def Watched (s : State) : Prop :=
  s.pc.gone = false → s.zombies ≠ [] →
    s.info sigchld ≠ none ∨ ∃ frame ∈ s.frames, frame.signo = sigchld

theorem Watched.of_frames (h : Watched s) (pc : s'.pc.gone = s.pc.gone)
    (zombies : s'.zombies = s.zombies) (pending : s'.pending = s.pending)
    (frames : ∀ frame ∈ s.frames, frame.signo = sigchld →
      ∃ frame' ∈ s'.frames, frame'.signo = sigchld) : Watched s' := by
  intro halive hzombies
  have hinfo : s'.info sigchld = s.info sigchld := by rw [Signals.info, Signals.info, pending]
  rcases h (pc ▸ halive) (zombies ▸ hzombies) with hpending | ⟨frame, hframe, hsigno⟩
  · exact .inl (hinfo ▸ hpending)
  · exact .inr (frames frame hframe hsigno)

theorem Watched.of_handler {frame : SignalFrame Signo HandlerPc}
    {rest : List (SignalFrame Signo HandlerPc)} (frames : s'.frames = frame :: rest)
    (child : frame.signo = sigchld) : Watched s' :=
  fun _ _ => .inr ⟨frame, frames ▸ List.mem_cons_self, child⟩

theorem Watched.of_gone (h : s'.pc.gone = true) : Watched s' := fun halive => by
  rw [h] at halive
  cases halive

/-- The handler of a signal that interrupts takes the place of the pending signal. -/
theorem Watched.deliver (h : Watched s) {signo : Signo} {saved : List Signo} {pc : HandlerPc}
    (alive : s.pc.gone = false) (zombies : s'.zombies = s.zombies)
    (signals : s'.toSignals = s.toSignals.deliver signo saved pc) : Watched s' := by
  intro _ hzombies
  rw [signals]
  by_cases hsigno : signo = sigchld
  · exact .inr ⟨_, List.mem_cons_self, hsigno⟩
  · rcases h alive (zombies ▸ hzombies) with hpending | ⟨frame, hframe, hchild⟩
    · refine .inl ?_
      rw [← Signals.info_take (q := s.toSignals) (Ne.symm hsigno)] at hpending
      exact hpending
    · exact .inr ⟨frame, List.mem_cons_of_mem _ hframe, hchild⟩

theorem State.Does.watched (h : Does s label s') (alive : s.pc.gone = false) (inv : Inv mask s)
    (watched : Watched s) : Watched s' := by
  cases h with
  | forkFails idle pc | forks idle pc | forked idle pc | sleeps idle pc | rises idle pc =>
      exact watched.of_frames (by rw [alive]; rfl) rfl rfl fun frame h hs => ⟨frame, h, hs⟩
  | suspends idle pc =>
      exact watched.of_frames (by rw [alive]; rfl) rfl rfl fun frame h hs => ⟨frame, h, hs⟩
  | crashes => exact .of_gone rfl
  | receives frames entered other =>
      refine watched.of_frames rfl rfl ?_ fun frame hframe hs => ?_
      · simp only [handlerReturn, logged, Signals.resume_eq frames]
      · rw [frames] at hframe
        simp only [handlerReturn, logged, Signals.resume_eq frames]
        rcases List.mem_cons.mp hframe with rfl | hrest
        · exact absurd hs other
        · exact ⟨frame, hrest, hs⟩
  | receivesChild frames entered child => exact .of_handler (Signals.goto_frames frames _) child
  | finds frames waiting mem =>
      have hchild := inv.behind_child frames (by simp [waiting])
      exact .of_handler (Signals.goto_frames frames _) hchild
  | prints frames found =>
      have hchild := inv.behind_child frames (by simp [found])
      exact .of_handler (Signals.goto_frames frames _) hchild
  | returns frames waiting none | fails frames waiting none =>
      exact fun _ hzombies => absurd none hzombies
  | interrupted | ignored => exact watched
  | interrupts | wakes => exact watched.deliver alive rfl rfl
  | dies | killed => exact .of_gone rfl
  | raises harmful =>
      intro _ hzombies
      rw [Signals.info_raise, Signals.raise_frames]
      refine (watched alive hzombies).imp_left fun hpending => ?_
      split
      · simp
      · exact hpending
  | exits valid mem =>
      intro _ _
      rw [Signals.info_raise, if_pos rfl]
      exact .inl (Option.some_ne_none _)

/-- The steps of others: a signal comes, or a child ends. -/
def Foreign : Label → Prop
  | .main _ _ | .handler _ _ | .deliver _ => False
  | .arrive _ _ | .exit _ _ => True

/-- The steps of the master, of its handlers and of the delivery of signals, if `waitpid` is
not interrupted. -/
def Own (label : Label) : Prop := ¬Foreign label ∧ ∀ tm, label ≠ .handler .interrupted tm

def HandlerPc.effort : HandlerPc → Nat
  | .entered _ => 2
  | .waiting _ => 1
  | .found _ _ => 2

def Pc.effort (processCount : Int) : Pc → Nat
  | .forking processNum => (processCount - processNum).toNat + 2
  | .suspending => 1
  | .suspended _ => 0
  | .woken => 3
  | .sleeping => 2
  | .crashed => 0
  | .killed _ => 0

/-- What the master has to do. -/
def State.effort (s : State) : Nat :=
  6 * s.pending.length + (s.frames.map fun frame => frame.pc.effort).sum + 2 * s.zombies.length +
    s.pc.effort s.processCount

/-- Every own step lowers it. -/
theorem State.Does.effort_lt (h : Does s label s') (own : Own label) (alive : s.pc.gone = false)
    (inv : Inv mask s) : s'.effort < s.effort := by
  cases h with
  | forkFails idle pc more | forks idle pc more fresh =>
      simp only [State.effort, logged, pc, Pc.effort]
      omega
  | forked idle pc | suspends idle pc | sleeps idle pc | rises idle pc =>
      simp only [State.effort, pc, Pc.effort]
      omega
  | crashes frames entered sender =>
      have hpos : 0 < s.pc.effort s.processCount := by
        cases hpc : s.pc with
        | suspended restores =>
            have hidle := (inv.suspended restores hpc).1
            rw [frames] at hidle
            cases hidle
        | crashed | killed => simp [hpc, Pc.gone] at alive
        | forking | suspending | woken | sleeping => simp [Pc.effort]
      have hzero : Pc.effort s.processCount .crashed = 0 := rfl
      simp only [State.effort, hzero]
      omega
  | receives frames entered other =>
      simp only [State.effort, handlerReturn, logged, Signals.resume_eq frames, frames,
        List.map_cons, List.sum_cons, entered, HandlerPc.effort]
      omega
  | receivesChild frames entered child =>
      simp only [State.effort, handlerGoto, logged, Signals.goto, frames,
        List.modifyHead_cons, List.map_cons, List.sum_cons, entered, HandlerPc.effort]
      omega
  | finds frames waiting mem =>
      have hlength := List.length_erase_of_mem mem
      have hpos := List.length_pos_of_mem mem
      simp only [State.effort, handlerGoto, Signals.goto, frames, List.modifyHead_cons,
        List.map_cons, List.sum_cons, waiting, HandlerPc.effort]
      omega
  | returns frames waiting none | fails frames waiting none =>
      simp only [State.effort, handlerReturn, logged, Signals.resume_eq frames, frames,
        List.map_cons, List.sum_cons, waiting, HandlerPc.effort]
      omega
  | interrupted => exact absurd rfl (own.2 _)
  | prints frames found =>
      simp only [State.effort, handlerGoto, logged, Signals.goto, frames, List.modifyHead_cons,
        List.map_cons, List.sum_cons, found, HandlerPc.effort]
      omega
  | interrupts pending free handler running =>
      have hlength := Signals.length_take pending
      simp only [State.effort, Signals.deliver, List.map_cons, List.sum_cons, HandlerPc.effort]
      omega
  | wakes pending free handler pc =>
      have hlength := Signals.length_take pending
      simp only [State.effort, Signals.deliver, List.map_cons, List.sum_cons, HandlerPc.effort,
        pc, Pc.effort]
      omega
  | dies pending free unhandled =>
      have hlength := Signals.length_take pending
      simp only [State.effort, Signals.take, Pc.effort] at hlength ⊢
      omega
  | killed | ignored | raises | exits => exact absurd trivial own.1

/-- The master waits in `sigsuspend`, with nothing to wait for. -/
structure AtRest (s : State) : Prop where
  pc : ∃ restores, s.pc = .suspended restores
  frames : s.frames = []
  pending : s.pending = []
  zombies : s.zombies = []

/-- A handler that runs has a next step. -/
theorem frames_eq_nil (settled : Settled step Own s) (alive : s.pc.gone = false)
    (inv : Inv mask s) (tm : Tm) : s.frames = [] := by
  have hstep : ∀ answer, answer ≠ .interrupted → s.handlerStep answer tm = none :=
    fun answer hanswer => by
      have hnone := settled (.handler answer tm) ⟨id, by simpa using hanswer⟩
      rwa [step, alive] at hnone
  cases hframes : s.frames with
  | nil => rfl
  | cons frame rest =>
      exfalso
      cases hpc : frame.pc with
      | entered siPid =>
          have hnone := hstep .none (by simp)
          have hknown := inv.known frame (hframes ▸ List.mem_cons_self)
          have hfind : ∀ signo ∈ handledSignals, findSignal signo ≠ none := by decide
          simp only [handlerStep, hframes, hpc, signalHandler, Option.map_eq_none_iff] at hnone
          exact hfind _ hknown hnone
      | waiting one =>
          by_cases hzombies : s.zombies = []
          · have hnone := hstep .none (by simp)
            simp only [handlerStep, hframes, hpc, processGetStatus, hzombies] at hnone
            split at hnone
            · contradiction
            · split at hnone <;> cases hnone
          · obtain ⟨entry, hentry⟩ := List.exists_mem_of_ne_nil _ hzombies
            have hnone := hstep (.child entry.1.procNum) (by simp)
            simp only [handlerStep, hframes, hpc, processGetStatus, Option.map_eq_none_iff,
              List.find?_eq_none] at hnone
            exact hnone entry hentry (by simp)
      | found child ended =>
          have hnone := hstep .none (by simp)
          simp [handlerStep, hframes, hpc] at hnone

/-- A master that has nothing to do is at rest, unless it is gone. -/
theorem atRest (settled : Settled step Own s) (alive : s.pc.gone = false) (inv : Inv mask s)
    (watched : Watched s) (tm : Tm) : AtRest s := by
  have hframes := frames_eq_nil settled alive inv tm
  have hmain : s.mainStep (.failed 0) tm = none := by
    have hnone := settled (.main (.failed 0) tm) ⟨id, by simp⟩
    rwa [step, alive, if_neg Bool.false_ne_true, if_pos hframes] at hnone
  obtain ⟨restores, hpc⟩ : ∃ restores, s.pc = .suspended restores := by
    cases hpc : s.pc with
    | suspended restores => exact ⟨restores, rfl⟩
    | forking processNum =>
        simp only [mainStep, hpc, spawnProcess] at hmain
        split at hmain <;> cases hmain
    | suspending | woken | sleeping => simp [mainStep, hpc] at hmain
    | crashed | killed => simp [hpc, Pc.gone] at alive
  have hpending : ∀ signo, s.info signo = none := fun signo => by
    have hnone := settled (.deliver signo) ⟨id, by simp⟩
    rw [step, alive, if_neg Bool.false_ne_true] at hnone
    cases hinfo : s.info signo with
    | none => rfl
    | some siPid =>
        exfalso
        simp only [deliverStep, hinfo, (inv.suspended restores hpc).2, List.not_mem_nil,
          if_false, hpc] at hnone
        split at hnone <;> cases hnone
  refine ⟨⟨restores, hpc⟩, hframes, Signals.pending_eq_nil hpending, ?_⟩
  by_contra hzombies
  rcases watched alive hzombies with hinfo | ⟨frame, hframe, -⟩
  · exact hinfo (hpending sigchld)
  · rw [hframes] at hframe
    cases hframe

/-- The master survives what has come so far: the signals that it has still to handle have no
sender, and it has a handler for each of them. -/
structure Spared (s : State) : Prop where
  alive : s.pc.gone = false
  pending : ∀ entry ∈ s.pending, entry.1 ∈ handledSignals ∧ entry.2 = 0
  entered : ∀ frame ∈ s.frames, ∀ siPid, frame.pc = .entered siPid → siPid = 0

theorem AtRest.spared (h : AtRest s) : Spared s where
  alive := by
    obtain ⟨restores, hpc⟩ := h.pc
    rw [hpc]
    rfl
  pending := by simp [h.pending]
  entered := by simp [h.frames]

theorem spared_congr (pc : s'.pc.gone = s.pc.gone) (pending : s'.pending = s.pending)
    (frames : s'.frames = s.frames) : Spared s' ↔ Spared s := by
  constructor
  · exact fun h => ⟨pc ▸ h.alive, pending ▸ h.pending, frames ▸ h.entered⟩
  · exact fun h => ⟨pc ▸ h.alive, pending ▸ h.pending, frames ▸ h.entered⟩

/-- A handler whose first line is defined changes nothing. -/
theorem spared_handles {frame : SignalFrame Signo HandlerPc}
    {rest : List (SignalFrame Signo HandlerPc)} (frames : s.frames = frame :: rest)
    (first : ∀ siPid, frame.pc = .entered siPid → siPid = 0) (pc : s'.pc = s.pc)
    (pending : s'.pending = s.pending)
    (next : s'.frames = rest ∨ ∃ pc, s'.frames = { frame with pc } :: rest ∧
      ∀ siPid, pc ≠ .entered siPid) : Spared s' ↔ Spared s := by
  have hentered : (∀ other ∈ s.frames, ∀ siPid, other.pc = .entered siPid → siPid = 0) ↔
      ∀ other ∈ rest, ∀ siPid, other.pc = .entered siPid → siPid = 0 := by
    rw [frames, List.forall_mem_cons]
    exact and_iff_right first
  have hentered' : (∀ other ∈ s'.frames, ∀ siPid, other.pc = .entered siPid → siPid = 0) ↔
      ∀ other ∈ rest, ∀ siPid, other.pc = .entered siPid → siPid = 0 := by
    rcases next with hrest | ⟨pc, hgoto, hbehind⟩
    · rw [hrest]
    · rw [hgoto, List.forall_mem_cons]
      exact and_iff_right fun siPid h => absurd h (hbehind siPid)
  constructor
  · exact fun h => ⟨pc ▸ h.alive, pending ▸ h.pending, hentered.mpr (hentered'.mp h.entered)⟩
  · exact fun h => ⟨pc ▸ h.alive, pending ▸ h.pending, hentered'.mpr (hentered.mp h.entered)⟩

/-- The delivery of a signal to its handler changes nothing. -/
theorem spared_delivers {signo : Signo} {siPid : BitVec 32} {saved : List Signo}
    (info : s.info signo = some siPid) (handled : signo ∈ handledSignals)
    (pc : s'.pc.gone = s.pc.gone)
    (signals : s'.toSignals = s.toSignals.deliver signo saved (.entered siPid)) :
    Spared s' ↔ Spared s := by
  have hpending : s'.pending = (s.toSignals.take signo).pending := by rw [signals]; rfl
  have hframes : s'.frames = ⟨signo, saved, .entered siPid⟩ :: s.frames := by rw [signals]; rfl
  constructor
  · intro h
    have hsiPid : siPid = 0 := h.entered _ (hframes ▸ List.mem_cons_self) siPid rfl
    refine ⟨pc ▸ h.alive, fun entry hentry => ?_, fun frame hframe =>
      h.entered frame (hframes ▸ List.mem_cons_of_mem _ hframe)⟩
    rcases (Signals.mem_take info).mp hentry with htake | rfl
    · exact h.pending entry (hpending ▸ htake)
    · exact ⟨handled, hsiPid⟩
  · intro h
    have hmem : (signo, siPid) ∈ s.pending := (Signals.mem_take info).mpr (.inr rfl)
    refine ⟨pc ▸ h.alive, fun entry hentry => ?_, ?_⟩
    · exact h.pending entry ((Signals.mem_take info).mpr (.inl (hpending ▸ hentry)))
    · rw [hframes, List.forall_mem_cons]
      refine ⟨fun other he => ?_, h.entered⟩
      rw [← HandlerPc.entered.inj he]
      exact (h.pending _ hmem).2

theorem Spared.of_raise (h : Spared s') {signo : Signo} {siPid : BitVec 32}
    (pc : s'.pc = s.pc) (signals : s'.toSignals = s.toSignals.raise signo siPid) : Spared s := by
  have hframes : s'.frames = s.frames := by rw [signals, Signals.raise_frames]
  refine ⟨pc ▸ h.alive, fun entry hentry => h.pending entry ?_, hframes ▸ h.entered⟩
  rw [signals]
  exact Signals.mem_raise hentry

/-- No step but those of others saves or dooms the master. -/
theorem State.Does.spares (h : Does s label s') (own : ¬Foreign label) (alive : s.pc.gone = false)
    (inv : Inv mask s) : Spared s' ↔ Spared s := by
  cases h with
  | forkFails idle pc | forks idle pc | forked idle pc | sleeps idle pc | rises idle pc =>
      exact spared_congr alive.symm rfl rfl
  | suspends idle pc => exact spared_congr alive.symm rfl rfl
  | crashes frames entered sender =>
      constructor
      · exact fun h => absurd h.alive (by simp [Pc.gone])
      · exact fun h => absurd (h.entered _ (frames ▸ List.mem_cons_self) _ entered) sender
  | receives frames entered other =>
      refine spared_handles frames (by simp [entered]) rfl ?_ (.inl ?_)
      · simp only [handlerReturn, logged, Signals.resume_eq frames]
      · simp only [handlerReturn, logged, Signals.resume_eq frames]
  | returns frames waiting none | fails frames waiting none =>
      refine spared_handles frames (by simp [waiting]) rfl ?_ (.inl ?_)
      · simp only [handlerReturn, logged, Signals.resume_eq frames]
      · simp only [handlerReturn, logged, Signals.resume_eq frames]
  | receivesChild frames entered child =>
      exact spared_handles frames (by simp [entered]) rfl rfl
        (.inr ⟨_, Signals.goto_frames frames _, by simp⟩)
  | finds frames waiting mem | prints frames waiting =>
      exact spared_handles frames (by simp [waiting]) rfl rfl
        (.inr ⟨_, Signals.goto_frames frames _, by simp⟩)
  | interrupted => rfl
  | interrupts pending free handler running =>
      exact spared_delivers pending ((inv.handled _).mp handler) rfl rfl
  | wakes pending free handler pc =>
      exact spared_delivers pending ((inv.handled _).mp handler) (by rw [alive]; rfl) rfl
  | dies pending free unhandled =>
      have hmem := (Signals.mem_take pending).mpr (.inr rfl)
      constructor
      · exact fun h => absurd h.alive (by simp [Pc.gone])
      · exact fun h => absurd ((inv.handled _).mpr (h.pending _ hmem).1) unhandled
  | killed | ignored | raises | exits => exact absurd trivial own

/-- What has come to the master stays until it is handled, whatever else comes. -/
theorem State.Does.spared_before (h : Does s label s') (alive : s.pc.gone = false)
    (inv : Inv mask s) (spared : Spared s') : Spared s := by
  by_cases hforeign : Foreign label
  · cases h with
    | killed => exact absurd spared.alive (by simp [Pc.gone])
    | ignored => exact spared
    | raises harmful => exact spared.of_raise rfl rfl
    | exits valid mem => exact spared.of_raise rfl rfl
    | _ => exact hforeign.elim
  · exact (h.spares hforeign alive inv).mp spared

/-- The invariants, with the children watched. -/
structure Tended (mask : List Signo) (s : State) : Prop where
  kept : Kept mask s
  watched : Watched s

theorem Tended.does (h : Tended mask s) (hs : step s label = some s') :
    s.pc.gone = false ∧ Does s label s' :=
  h.kept.1.does hs

theorem Tended.next (h : Tended mask s) (hs : step s label = some s') : Tended mask s' := by
  obtain ⟨halive, hdoes⟩ := h.does hs
  exact ⟨h.kept.next hs, hdoes.watched halive h.kept.1 h.watched⟩

theorem Tended.effort_lt (h : Tended mask s) (own : Own label) (hs : step s label = some s') :
    s'.effort < s.effort := by
  obtain ⟨halive, hdoes⟩ := h.does hs
  exact hdoes.effort_lt own halive h.kept.1

theorem Reachable.tended (hr : Reachable boot s) : ∃ mask, Tended mask s := by
  obtain ⟨s₀, labels, hstart, hrun⟩ := hr
  have hbegins := Boot.begins hstart
  have hwatched : Watched s₀ := fun _ hzombies => absurd hbegins.children.2.1 hzombies
  have htended : Tended s₀.mask s₀ := ⟨⟨hbegins.inv, hbegins.accounted⟩, hwatched⟩
  exact ⟨s₀.mask, run_invariant (fun t a t' ht hs => ht.next hs) htended hrun⟩

/-- A run of own steps leads from the spared to the spared, and only from them. -/
theorem Tended.spares (h : Tended mask s) (own : ∀ label ∈ labels, Own label)
    (hr : run step s labels = some t) : Tended mask t ∧ (Spared t ↔ Spared s) := by
  induction labels generalizing s with
  | nil =>
      obtain rfl := Option.some.inj hr
      exact ⟨h, Iff.rfl⟩
  | cons label labels ih =>
      obtain ⟨s', hs, rest⟩ := run_cons_eq_some.mp hr
      obtain ⟨halive, hdoes⟩ := h.does hs
      have hforeign := (own label List.mem_cons_self).1
      obtain ⟨ht, hiff⟩ := ih (h.next hs) (fun a ha => own a (List.mem_cons_of_mem _ ha)) rest
      exact ⟨ht, hiff.trans (hdoes.spares hforeign halive h.kept.1)⟩

/-- A run leads to the spared only from the spared. -/
theorem Tended.spared_of (h : Tended mask s) (hr : run step s labels = some t)
    (spared : Spared t) : Tended mask t ∧ Spared s := by
  induction labels generalizing s with
  | nil =>
      obtain rfl := Option.some.inj hr
      exact ⟨h, spared⟩
  | cons label labels ih =>
      obtain ⟨s', hs, rest⟩ := run_cons_eq_some.mp hr
      obtain ⟨halive, hdoes⟩ := h.does hs
      obtain ⟨ht, hspared⟩ := ih (h.next hs) rest
      exact ⟨ht, hdoes.spared_before halive h.kept.1 hspared⟩

/-- From every reachable state the master, left to itself, settles within its effort: every run
of own steps is as short as that, and some such run ends in a state without an own step. In
every such end the master waits in `sigsuspend` with all ended children waited for, no handler
running and no signal pending, or it is gone; and it is there exactly if it was spared: no
signal that it had still to handle had a sender or lacked a handler. -/
theorem master_settles (hr : Reachable boot s) :
    (∀ labels t, (∀ label ∈ labels, Own label) → run step s labels = some t →
        labels.length ≤ s.effort) ∧
      (∃ labels t, (∀ label ∈ labels, Own label) ∧ run step s labels = some t ∧
        Settled step Own t) ∧
      ∀ labels t, (∀ label ∈ labels, Own label) → run step s labels = some t →
        Settled step Own t → (t.pc.gone = false ↔ Spared s) ∧ (t.pc.gone = false → AtRest t) := by
  obtain ⟨mask, htended⟩ := hr.tended
  obtain ⟨s₀, -, hstart, -⟩ := hr
  have hpreserved : ∀ t label t', Tended mask t → Own label → step t label = some t' →
      Tended mask t' := fun t label t' ht _ hs => ht.next hs
  have hlowers : ∀ t label t', Tended mask t → Own label → step t label = some t' →
      t'.effort < t.effort := fun t label t' ht hown hs => ht.effort_lt hown hs
  refine ⟨fun labels t howned hrun => ?_, exists_settled hpreserved hlowers htended,
    fun labels t howned hrun hsettled => ?_⟩
  · have hlength := length_add_effort_le hpreserved hlowers htended howned hrun
    omega
  · obtain ⟨ht, hiff⟩ := htended.spares howned hrun
    have hrest : t.pc.gone = false → AtRest t := fun halive =>
      atRest hsettled halive ht.kept.1 ht.watched boot.tm
    refine ⟨⟨fun halive => hiff.mp (hrest halive).spared, fun hspared => ?_⟩, hrest⟩
    exact (hiff.mpr hspared).alive

/-- The master starts its workers and goes to rest. -/
theorem master_settles_small : ∃ s, Reachable .small s ∧ s.effort = 4 ∧
    ∃ labels t, (∀ label ∈ labels, Own label) ∧ run step s labels = some t ∧
      Settled step Own t := by
  have hlaunch : (launch .small []).map State.effort = some 4 := by decide
  obtain ⟨s, hs, heffort⟩ := Option.map_eq_some_iff.mp hlaunch
  exact ⟨s, reachable_of_launch hs, heffort, (master_settles (reachable_of_launch hs)).2.1⟩

/-- If a worker ends while no `SIGCHLD` without a sender is pending, then the master does not
survive: in every state that it settles in later it is gone, whatever else has come in the
meantime. -/
theorem worker_end_fatal (hr : Reachable boot s) {procNum : Nat} {ended : ChildEnd}
    (hs : step s (.exit procNum ended) = some s') (first : s.info sigchld ≠ some 0)
    (later : run step s' labels = some t) (settled : Settled step Own t) : t.pc.gone = true := by
  obtain ⟨mask, htended⟩ := hr.tended
  by_contra hgone
  have halive : t.pc.gone = false := Bool.eq_false_iff.mpr hgone
  have ht : Tended mask t :=
    run_invariant (fun t a t' ht hs => ht.next hs) (htended.next hs) later
  have hspared : Spared t := (atRest settled halive ht.kept.1 ht.watched boot.tm).spared
  have hspared' : Spared s' := ((htended.next hs).spared_of later hspared).2
  obtain ⟨halive', hdoes⟩ := htended.does hs
  have hspared₀ : Spared s := hdoes.spared_before halive' htended.kept.1 hspared'
  cases hdoes with
  | @exits child procNum ended valid mem =>
      have hpid : child.pid ≠ 0 := htended.kept.2.pids child <|
        htended.kept.2.forked.mem_iff.mpr (List.mem_append_left _ mem)
      cases hinfo : s.info sigchld with
      | none => exact hpid (hspared'.pending _ (Signals.mem_raise_self hinfo)).2
      | some siPid =>
          have hmem := (Signals.mem_take hinfo).mpr (.inr rfl)
          have hsender : siPid = 0 := (hspared₀.pending _ hmem).2
          exact first (hsender ▸ hinfo)

theorem settled_of_gone (h : s.pc.gone = true) : Settled step Own s := fun label _ => by
  simp [step, h]

/-- A worker exits, and the master crashes in its handler. -/
theorem worker_end_fatal_small : ∃ s t : State, Reachable .small s ∧ s.running.length = 2 ∧
    t.pc = .crashed ∧ t.pc.gone = true := by
  have hlaunch : (launch .small startTwo).map (fun s => (s.running.length, s.info sigchld,
      (step s (.exit 0 (.exited 1))).bind fun s' =>
        (run step s' [.deliver sigchld, .handler .none Boot.small.tm]).map fun t => t.pc)) =
      some (2, none, some .crashed) := by decide +kernel
  obtain ⟨s, hs, heq⟩ := Option.map_eq_some_iff.mp hlaunch
  obtain ⟨hrunning, hrest⟩ := Prod.mk.inj heq
  obtain ⟨hinfo, hrun⟩ := Prod.mk.inj hrest
  obtain ⟨s', hs', hlater⟩ := Option.bind_eq_some_iff.mp hrun
  obtain ⟨t, ht, hpc⟩ := Option.map_eq_some_iff.mp hlater
  have hsettled : Settled step Own t := settled_of_gone (by rw [hpc]; rfl)
  exact ⟨s, t, reachable_of_launch hs, hrunning, hpc,
    worker_end_fatal (reachable_of_launch hs) hs' (by simp [hinfo]) ht hsettled⟩

end Master

end MyNginx
