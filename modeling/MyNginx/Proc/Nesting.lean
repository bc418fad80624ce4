import MyNginx.Proc.Handling

/-!
# The handlers of the master

Handlers nest, but no signal interrupts its own handler, so at most seven of them are in
progress. Behind the last return the master has the mask again that it began with; if that
blocks what the master means to block, then handlers run in `sigsuspend` only.
-/

namespace MyNginx

open Foundation Signal

namespace Signal

variable {disposition disposition' : Signo → Disposition} {signo : Signo}

/-- What a list of entries makes of the dispositions. -/
def install (disposition : Signo → Disposition) (table : List SignalT) : Signo → Disposition :=
  table.foldl (fun disposition sig =>
    Function.update disposition sig.signo (if sig.handler then .handler else .ignore)) disposition

theorem initSignalsLoop_eq {table : List SignalT} {answers : List Errno}
    (h : initSignalsLoop disposition table answers = some (disposition', 0)) :
    disposition' = install disposition table := by
  induction table generalizing disposition answers with
  | nil =>
      obtain ⟨rfl, -⟩ := Prod.mk.inj (Option.some.inj h)
      rfl
  | cons sig rest ih =>
      cases answers with
      | nil => cases h
      | cons errno answers =>
          simp only [initSignalsLoop] at h
          split at h
          · exact ih h
          · cases h

/-- The last entry of a signal counts. -/
theorem install_eq (table : List SignalT) :
    install disposition table signo =
      match table.reverse.find? fun sig => sig.signo = signo with
      | some sig => if sig.handler then .handler else .ignore
      | none => disposition signo := by
  induction table using List.reverseRecOn with
  | nil => rfl
  | append_singleton table sig ih =>
      rw [install, List.foldl_append, List.foldl_cons, List.foldl_nil, ← install,
        List.reverse_append, List.reverse_singleton, List.singleton_append, List.find?_cons]
      by_cases hsig : sig.signo = signo
      · subst hsig
        simp
      · simpa [Function.update_of_ne (Ne.symm hsig), hsig] using ih

/-- The signals of the table that have a handler. -/
def handledSignals : List Signo := (signals.filter SignalT.handler).map SignalT.signo

theorem mem_handledSignals : signo ∈ handledSignals ↔
    ∃ sig ∈ signals, sig.handler = true ∧ sig.signo = signo := by
  simp only [handledSignals, List.mem_map, List.mem_filter, and_assoc]

theorem signals_unique : ∀ sig ∈ signals, ∀ other ∈ signals, sig.signo = other.signo →
    sig = other := by
  decide

/-- When `init_signals` succeeds, the signals of the table that have a handler are handled, and
no others. -/
theorem initSignals_handler (unhandled : ∀ signo, disposition signo ≠ .handler)
    {answers : List Errno} (h : initSignals disposition answers = some (disposition', 0)) :
    disposition' signo = .handler ↔ signo ∈ handledSignals := by
  rw [mem_handledSignals, initSignalsLoop_eq h, install_eq]
  constructor
  · intro heq
    split at heq
    next sig hfind =>
      refine ⟨sig, List.mem_reverse.mp (List.mem_of_find?_eq_some hfind), ?_, ?_⟩
      · by_contra hnot
        rw [if_neg hnot] at heq
        cases heq
      · simpa using List.find?_some hfind
    next => exact absurd heq (unhandled signo)
  · rintro ⟨sig, hmem, hhandler, rfl⟩
    cases hfind : signals.reverse.find? fun other => other.signo = sig.signo with
    | none =>
        have hno := List.find?_eq_none.mp hfind sig (List.mem_reverse.mpr hmem)
        simp at hno
    | some other =>
        have hother := List.mem_reverse.mp (List.mem_of_find?_eq_some hfind)
        have hsame : other.signo = sig.signo := by simpa using List.find?_some hfind
        obtain rfl := signals_unique sig hmem other hother hsame.symm
        exact if_pos hhandler

end Signal

namespace Master

open Master.State

variable {s s' : State} {label : Label} {boot : Boot} {labels : List Label}

/-- The mask the master has outside `sigsuspend` and its handlers. -/
def State.ownMask (s : State) : List Signo :=
  match s.pc with
  | .suspended restores => restores
  | _ => Signals.base s.mask s.frames

/-- What every step keeps, for a master that begins with this mask. -/
structure Inv (mask : List Signo) (s : State) : Prop where
  handled : ∀ signo, s.disposition signo = .handler ↔ signo ∈ handledSignals
  nested : Signals.Nested s.mask s.frames
  known : ∀ frame ∈ s.frames, frame.signo ∈ handledSignals
  child : ∀ frame ∈ s.frames, (∃ siPid, frame.pc = .entered siPid) ∨ frame.signo = sigchld
  harmful : ∀ signo, s.info signo ≠ none → harmless s.disposition signo = false
  suspended : ∀ restores, s.pc = .suspended restores → s.frames = [] ∧ s.mask = []
  own : s.pc.gone = false → s.ownMask = mask
  apart : s.pc.gone = false → blocked ⊆ mask → s.frames ≠ [] → s.pc = .woken

/-- The handler that is behind its first line is the one of `SIGCHLD`. -/
theorem Inv.behind_child {mask : List Signo} (inv : Inv mask s)
    {frame : SignalFrame Signo HandlerPc} {rest : List (SignalFrame Signo HandlerPc)}
    (frames : s.frames = frame :: rest) (behind : ∀ siPid, frame.pc ≠ .entered siPid) :
    frame.signo = sigchld :=
  (inv.child frame (frames ▸ List.mem_cons_self)).resolve_left fun ⟨siPid, h⟩ => behind siPid h

/-- The handler that runs goes on, or returns. -/
theorem Inv.handles {mask : List Signo} (inv : Inv mask s)
    {frame : SignalFrame Signo HandlerPc} {rest : List (SignalFrame Signo HandlerPc)}
    (frames : s.frames = frame :: rest) (disposition : s'.disposition = s.disposition)
    (pending : s'.pending = s.pending) (pc : s'.pc = s.pc)
    (next : (∃ pc, s'.mask = s.mask ∧ s'.frames = { frame with pc } :: rest ∧
        frame.signo = sigchld) ∨ s'.mask = frame.saved ∧ s'.frames = rest) : Inv mask s' := by
  have hnested := inv.nested
  have hown := inv.own
  have hknown := inv.known
  have hchild := inv.child
  rw [frames] at hnested hknown hchild
  have hrunning : ∀ restores, s.pc ≠ .suspended restores := fun restores hpc => by
    have hnil := (inv.suspended restores hpc).1
    rw [frames] at hnil
    cases hnil
  have hbase : Signals.base s'.mask s'.frames = Signals.base s.mask s.frames := by
    rcases next with ⟨pc, hmask, hframes, -⟩ | ⟨hmask, hframes⟩
    · rw [hmask, hframes, frames]
      rfl
    · rw [hmask, hframes, frames]
      rfl
  have hinfo : ∀ signo, s'.info signo = s.info signo := fun signo => by
    rw [Signals.info, Signals.info, pending]
  refine ⟨fun signo => disposition ▸ inv.handled signo, ?_, ?_, ?_, fun signo h => ?_,
    fun restores hpc => absurd (pc ▸ hpc) (hrunning restores), fun hgone => ?_,
    fun hgone hsub _ => ?_⟩
  · rcases next with ⟨pc, hmask, hframes, -⟩ | ⟨hmask, hframes⟩
    · rw [hmask, hframes]
      exact hnested.goto
    · rw [hmask, hframes]
      exact hnested.resume
  · rcases next with ⟨pc, -, hframes, -⟩ | ⟨-, hframes⟩
    · rw [hframes]
      exact List.forall_mem_cons.mpr ⟨hknown frame List.mem_cons_self,
        fun other h => hknown other (List.mem_cons_of_mem _ h)⟩
    · rw [hframes]
      exact fun other h => hknown other (List.mem_cons_of_mem _ h)
  · rcases next with ⟨pc, -, hframes, hsigchld⟩ | ⟨-, hframes⟩
    · rw [hframes]
      exact List.forall_mem_cons.mpr ⟨.inr hsigchld,
        fun other h => hchild other (List.mem_cons_of_mem _ h)⟩
    · rw [hframes]
      exact fun other h => hchild other (List.mem_cons_of_mem _ h)
  · rw [disposition]
    exact inv.harmful signo (hinfo signo ▸ h)
  · have hsame : s'.ownMask = s.ownMask := by
      rw [ownMask, ownMask, pc, hbase]
    exact hsame.trans (hown (pc ▸ hgone))
  · rw [pc]
    exact inv.apart (pc ▸ hgone) hsub (by simp [frames])

/-- The master goes on outside `sigsuspend`, with its mask. -/
theorem Inv.runs {mask : List Signo} (inv : Inv mask s) (idle : s.frames = [])
    (running : ∀ restores, s.pc ≠ .suspended restores) (alive : s.pc.gone = false)
    (signals : s'.toSignals = s.toSignals) (disposition : s'.disposition = s.disposition)
    (pc : ∀ restores, s'.pc ≠ .suspended restores) : Inv mask s' := by
  have hown : ∀ t : State, (∀ restores, t.pc ≠ .suspended restores) →
      t.ownMask = Signals.base t.mask t.frames := fun t ht => by
    rw [ownMask]
    split
    next restores hpc => exact absurd hpc (ht restores)
    next => rfl
  refine ⟨fun signo => disposition ▸ inv.handled signo, signals ▸ inv.nested, signals ▸ inv.known,
    signals ▸ inv.child, fun signo h => disposition ▸ inv.harmful signo (signals ▸ h),
    fun restores hpc => absurd hpc (pc restores), fun _ => ?_, fun _ _ h => ?_⟩
  · rw [hown s' pc, signals, ← hown s running]
    exact inv.own alive
  · rw [signals] at h
    exact absurd idle h

/-- The master is gone. -/
theorem Inv.goes {mask : List Signo} (inv : Inv mask s) (frames : s'.frames = s.frames)
    (smask : s'.mask = s.mask) (disposition : s'.disposition = s.disposition)
    (pending : ∀ signo, s'.info signo ≠ none → s.info signo ≠ none) (gone : s'.pc.gone = true) :
    Inv mask s' where
  handled signo := disposition ▸ inv.handled signo
  nested := smask ▸ frames ▸ inv.nested
  known := frames ▸ inv.known
  child := frames ▸ inv.child
  harmful signo h := disposition ▸ inv.harmful signo (pending signo h)
  suspended restores hpc := by
    rw [hpc] at gone
    cases gone
  own halive := by
    rw [gone] at halive
    cases halive
  apart halive := by
    rw [gone] at halive
    cases halive

/-- A signal becomes pending. -/
theorem Inv.raises {mask : List Signo} (inv : Inv mask s) {signo : Signo} {siPid : BitVec 32}
    (harmful : harmless s.disposition signo = false)
    (signals : s'.toSignals = s.toSignals.raise signo siPid)
    (disposition : s'.disposition = s.disposition) (pc : s'.pc = s.pc) : Inv mask s' := by
  have hmask : s'.mask = s.mask := by rw [signals, Signals.raise_mask]
  have hframes : s'.frames = s.frames := by rw [signals, Signals.raise_frames]
  refine ⟨fun other => disposition ▸ inv.handled other, ?_, hframes ▸ inv.known,
    hframes ▸ inv.child, fun other h => ?_, fun restores hpc => ?_, fun hgone => ?_,
    fun hgone hsub h => ?_⟩
  · rw [hmask, hframes]
    exact inv.nested
  · rw [signals, Signals.info_raise] at h
    rw [disposition]
    split at h
    next heq => exact heq ▸ harmful
    next => exact inv.harmful other h
  · rw [hmask, hframes]
    exact inv.suspended restores (pc ▸ hpc)
  · have hsame : s'.ownMask = s.ownMask := by
      rw [ownMask, ownMask, pc, hmask, hframes]
    exact hsame.trans (inv.own (pc ▸ hgone))
  · rw [pc]
    exact inv.apart (pc ▸ hgone) hsub (hframes ▸ h)

theorem handled_blocked : handledSignals ⊆ blocked := by decide

/-- What is pending behind the delivery of a signal was pending before. -/
theorem info_of_take {signo : Signo} {siPid : BitVec 32} (pending : s.info signo = some siPid)
    {other : Signo} (h : (s.toSignals.take signo).info other ≠ none) : s.info other ≠ none := by
  by_cases heq : other = signo
  · rw [heq, pending]
    exact Option.some_ne_none _
  · rwa [← Signals.info_take (q := s.toSignals) heq]

/-- A handler interrupts what runs outside `sigsuspend`. -/
theorem Inv.interrupts {mask : List Signo} (inv : Inv mask s) {signo : Signo}
    {siPid : BitVec 32} (alive : s.pc.gone = false) (pending : s.info signo = some siPid)
    (free : signo ∉ s.mask) (handler : s.disposition signo = .handler)
    (running : ∀ restores, s.pc ≠ .suspended restores) :
    Inv mask { s with toSignals := s.toSignals.deliver signo s.mask (.entered siPid) } := by
  have hsigno := (inv.handled signo).mp handler
  have hown : s.ownMask = Signals.base s.mask s.frames := by
    rw [ownMask]
    split
    next restores hpc => exact absurd hpc (running restores)
    next => rfl
  refine ⟨inv.handled, inv.nested.deliver free (.inl rfl),
    List.forall_mem_cons.mpr ⟨hsigno, inv.known⟩,
    List.forall_mem_cons.mpr ⟨.inl ⟨siPid, rfl⟩, inv.child⟩,
    fun other h => inv.harmful other (info_of_take pending h),
    fun restores hpc => absurd hpc (running restores), fun hgone => ?_, fun hgone hsub _ => ?_⟩
  · rw [← inv.own alive, hown, ownMask]
    split
    next restores hpc => exact absurd hpc (running restores)
    next => rfl
  · by_cases hidle : s.frames = []
    · have hmask : s.mask = mask := by rw [← inv.own alive, hown, hidle, Signals.base]
      exact absurd (hmask ▸ hsub (handled_blocked hsigno)) free
    · exact inv.apart alive hsub hidle

/-- A handler ends the wait in `sigsuspend`. -/
theorem Inv.wakes {mask : List Signo} (inv : Inv mask s) {signo : Signo} {siPid : BitVec 32}
    {restores : List Signo} (pending : s.info signo = some siPid) (free : signo ∉ s.mask)
    (handler : s.disposition signo = .handler) (pc : s.pc = .suspended restores) :
    Inv mask { s with
      toSignals := s.toSignals.deliver signo restores (.entered siPid)
      pc := .woken } := by
  have hsigno := (inv.handled signo).mp handler
  obtain ⟨hidle, -⟩ := inv.suspended restores pc
  have hown : restores = mask := by
    rw [← inv.own (by rw [pc]; rfl), ownMask, pc]
  refine ⟨inv.handled, inv.nested.deliver free (.inr hidle),
    List.forall_mem_cons.mpr ⟨hsigno, inv.known⟩,
    List.forall_mem_cons.mpr ⟨.inl ⟨siPid, rfl⟩, inv.child⟩,
    fun other h => inv.harmful other (info_of_take pending h), fun _ hpc => Pc.noConfusion hpc,
    fun _ => ?_, fun _ _ _ => rfl⟩
  rw [← hown, ownMask]
  simp only [Signals.deliver, Signals.take, hidle, Signals.base]

theorem State.Does.inv {mask : List Signo} (h : Does s label s') (alive : s.pc.gone = false)
    (inv : Inv mask s) : Inv mask s' := by
  cases h with
  | forkFails idle pc more | forks idle pc more fresh =>
      exact inv.runs idle (by simp [pc]) alive rfl rfl (by simp)
  | forked idle pc | sleeps idle pc | rises idle pc =>
      exact inv.runs idle (by simp [pc]) alive rfl rfl (by simp)
  | suspends idle pc =>
      refine ⟨inv.handled, ?_, inv.known, inv.child, inv.harmful, fun _ _ => ⟨idle, rfl⟩,
        fun _ => ?_, fun _ _ h => absurd idle h⟩
      · rw [idle]
        trivial
      · have hown := inv.own alive
        rw [ownMask, pc, idle, Signals.base] at hown
        exact hown
  | crashes frames entered sender => exact inv.goes rfl rfl rfl (fun _ h => h) rfl
  | receives frames entered other | returns frames waiting none | fails frames waiting none =>
      refine inv.handles frames rfl ?_ rfl (.inr ?_)
      · simp only [handlerReturn, logged, Signals.resume_eq frames]
      · simp only [handlerReturn, logged, Signals.resume_eq frames]
        exact ⟨trivial, trivial⟩
  | receivesChild frames entered child =>
      exact inv.handles frames rfl rfl rfl
        (.inl ⟨_, rfl, Signals.goto_frames frames _, child⟩)
  | finds frames waiting mem | prints frames waiting =>
      exact inv.handles frames rfl rfl rfl (.inl ⟨_, rfl, Signals.goto_frames frames _,
        inv.behind_child frames (by simp [waiting])⟩)
  | interrupted | ignored => exact inv
  | interrupts pending free handler running =>
      exact inv.interrupts alive pending free handler running
  | wakes pending free handler pc => exact inv.wakes pending free handler pc
  | @dies signo siPid pending free unhandled =>
      exact inv.goes rfl rfl rfl (fun other h => info_of_take pending h) rfl
  | killed => exact inv.goes rfl rfl rfl (fun _ h => h) rfl
  | raises harmful => exact inv.raises harmful rfl rfl rfl
  | exits valid mem =>
      have hharmful : harmless s.disposition sigchld = false := by
        rw [harmless, (inv.handled sigchld).mpr (by decide)]
      exact inv.raises hharmful rfl rfl rfl

/-- The state the cycle begins with. -/
structure Begins (boot : Boot) (s : State) : Prop where
  handled : ∀ signo, s.disposition signo = .handler ↔ signo ∈ handledSignals
  pending : s.pending = []
  frames : s.frames = []
  pc : s.pc = .forking 0
  children : s.running = [] ∧ s.zombies = [] ∧ s.forked = [] ∧ s.reaped = []
  lines : ∀ call ∈ s.log, call = sigprocmaskFailed boot.sigprocmask
  mask : boot.sigprocmask = 0 → blocked ⊆ s.mask
  count : CConfig.getInt (Log.bytes "WorkProcesses") workerProcessNum boot.items =
    some s.processCount

theorem Boot.begins (h : boot.state = some s) : Begins boot s := by
  simp only [Boot.state] at h
  split at h
  next disposition hinit =>
    obtain ⟨processCount, hcount, rfl⟩ := Option.map_eq_some_iff.mp h
    have hhandled : ∀ signo, disposition signo = .handler ↔ signo ∈ handledSignals := fun signo =>
      initSignals_handler boot.unhandled hinit
    split
    next hok =>
      exact ⟨hhandled, rfl, rfl, rfl, ⟨rfl, rfl, rfl, rfl⟩, by simp,
        fun _ => List.subset_append_left _ _, hcount⟩
    next hfailed =>
      have hcomposes : ∀ t : State, Composes boot.tm t.curPid t.strerror
          (sigprocmaskFailed boot.sigprocmask) := fun t =>
        composes_text .alert boot.sigprocmask (Format.plain_of_all (by decide)) (by decide)
      rw [State.logErrorCore_eq (hcomposes _)]
      refine ⟨hhandled, rfl, rfl, rfl, ⟨rfl, rfl, rfl, rfl⟩, fun call hcall => ?_,
        fun hok => absurd hok hfailed, hcount⟩
      have hmem : call ∈ [sigprocmaskFailed boot.sigprocmask] :=
        (List.mem_filter.mp (by simpa [logged] using hcall)).1
      exact List.mem_singleton.mp hmem
  next => cases h

theorem Begins.inv (h : Begins boot s) : Inv s.mask s := by
  refine ⟨h.handled, ?_, ?_, ?_, fun signo hinfo => ?_, fun restores hpc => ?_, fun _ => ?_,
    fun _ _ hframes => absurd h.frames hframes⟩
  · rw [h.frames]
    trivial
  · simp [h.frames]
  · simp [h.frames]
  · simp [Signals.info, h.pending] at hinfo
  · rw [h.pc] at hpc
    cases hpc
  · rw [ownMask, h.pc, h.frames, Signals.base]

theorem Inv.does {mask : List Signo} (inv : Inv mask s) (h : step s label = some s') :
    s.pc.gone = false ∧ Does s label s' :=
  step_does ((inv.handled sigchld).mpr (by decide)) h

theorem step_inv {mask : List Signo} (inv : Inv mask s) (h : step s label = some s') :
    Inv mask s' := by
  obtain ⟨halive, hdoes⟩ := inv.does h
  exact hdoes.inv halive inv

/-- In every reachable state the handlers in progress are of different signals, all of them
blocked, and so at most seven. As long as the master is not gone, the last return restores the
mask that it began with; and if `sigprocmask` has succeeded, handlers run in `sigsuspend`
only, so that they interrupt neither `fork` nor anything else. -/
theorem handlers_nested {s₀ : State} (hstart : boot.state = some s₀)
    (hr : run step s₀ labels = some s) :
    (s.frames.map SignalFrame.signo).Nodup ∧ s.frames.length ≤ 7 ∧
      (∀ frame ∈ s.frames, frame.signo ∈ s.mask) ∧ (s.pc.gone = false → s.ownMask = s₀.mask) ∧
      (s.pc.gone = false → boot.sigprocmask = 0 → s.frames ≠ [] → s.pc = .woken) := by
  have hbegins := Boot.begins hstart
  have hinv : Inv s₀.mask s :=
    run_invariant (fun t a t' ht hs => step_inv ht hs) hbegins.inv hr
  refine ⟨hinv.nested.nodup, hinv.nested.length_le hinv.known,
    fun frame hframe => hinv.nested.blocked hframe, hinv.own, fun halive hok hframes => ?_⟩
  exact hinv.apart halive (hbegins.mask hok) hframes

/-- The handler of `SIGINT` interrupts the one of `SIGHUP`. -/
theorem handlers_nested_small : ∃ s, Reachable .small s ∧
    s.frames.map SignalFrame.signo = [sigint, sighup] ∧ s.frames.length ≤ 7 := by
  have hlaunch : (launch .small (startTwo ++
      [.arrive sighup 0, .arrive sigint 0, .deliver sighup, .deliver sigint])).map
      (fun s => s.frames.map SignalFrame.signo) = some [sigint, sighup] := by decide
  obtain ⟨s, hs, hframes⟩ := Option.map_eq_some_iff.mp hlaunch
  obtain ⟨s₀, hstart, hr⟩ := Option.bind_eq_some_iff.mp hs
  exact ⟨s, reachable_of_launch hs, hframes, (handlers_nested hstart hr).2.1⟩

end Master

end MyNginx
