import MyNginx.Proc.Nesting

/-!
# The workers

Each number below the configured count gets at most one worker, which runs, has ended or has
been waited for, and the master calls the log once for each one that it has waited for; what
is written gives the process id in the place of the code or the signal. Behind the
loop of `start_worker_process` there is no further fork: a worker is not replaced.
-/

namespace MyNginx

open Foundation Format Log Signal

namespace Master

open Master.State

variable {s s' t : State} {label : Label} {labels : List Label} {boot : Boot} {mask : List Signo}

/-- What the log says of a child, by the way it has ended. -/
def obituary : Child × ChildEnd → Call
  | (child, .exited code) =>
      ⟨.notice, 0, bytes "pid = %P exited with code %d!",
        [.word child.pid, .word (code.setWidth 32)]⟩
  | (child, .killed signo _) =>
      ⟨.alert, 0, bytes "pid = %P exited on signal %d!",
        [.word child.pid, .word (signo.setWidth 32)]⟩

/-- The record of this call. Only the level and the words tell how the child has ended: the
letter stands for the process id, and the process id for the code or the signal. -/
def obituaryText (tm : Tm) (curPid : BitVec 32) : Child × ChildEnd → List UInt8
  | (child, .exited _) =>
      output (headPieces tm .notice curPid) ++ (bytes "pid = P" ++ (bytes " exited with code " ++
        (signed space .decimal 0 child.pid.toInt ++ bytes "!\n")))
  | (child, .killed _ _) =>
      output (headPieces tm .alert curPid) ++ (bytes "pid = P" ++ (bytes " exited on signal " ++
        (signed space .decimal 0 child.pid.toInt ++ bytes "!\n")))

/-- What `log_error_core` composes for it, at any time and in any process. -/
theorem obituary_composes (tm : Tm) (curPid : BitVec 32) (strerror : BitVec 32 → List UInt8)
    (entry : Child × ChildEnd) :
    logErrorCore tm curPid strerror (obituary entry).level (obituary entry).errnum
        (obituary entry).fmt (obituary entry).args =
      .ok (printed Cells.empty 0 (obituaryText tm curPid entry)) := by
  obtain ⟨child, ended⟩ := entry
  cases ended with
  | exited code =>
      have hfmt : bytes "pid = %P exited with code %d!" =
          bytes "pid = " ++ (percent :: letterBigP :: (bytes " exited with code " ++ bytes "%d!")) :=
        rfl
      rw [obituary, hfmt, childLine_text .notice (plain_of_all (by decide)) (by decide),
        obituaryText]
  | killed signo core =>
      have hfmt : bytes "pid = %P exited on signal %d!" =
          bytes "pid = " ++ (percent :: letterBigP :: (bytes " exited on signal " ++ bytes "%d!")) :=
        rfl
      rw [obituary, hfmt, childLine_text .alert (plain_of_all (by decide)) (by decide),
        obituaryText]

/-- The status is read back as it was stored. -/
theorem statusLine_eq {child : Child} {ended : ChildEnd} (valid : ended.Valid) :
    statusLine child.pid ended.status = obituary (child, ended) := by
  cases ended with
  | exited code =>
      rw [statusLine, ChildEnd.wtermsig_exited, if_neg (by simp), ChildEnd.wexitstatus_exited,
        obituary]
  | killed signo core =>
      have hsigno : signo.setWidth 32 ≠ 0 := fun h => valid.1 <| by
        have hnat := congrArg BitVec.toNat h
        rw [BitVec.toNat_setWidth_of_le (by decide)] at hnat
        exact BitVec.eq_of_toNat_eq hnat
      rw [statusLine, ChildEnd.wtermsig_killed, if_pos hsigno, obituary]

/-- A line about a child. -/
def ofChild (call : Call) : Bool :=
  call.fmt = bytes "pid = %P exited with code %d!" ∨
    call.fmt = bytes "pid = %P exited on signal %d!"

/-- What the handler prints of a child. -/
def line (entry : Child × ChildEnd) : Call := statusLine entry.1.pid entry.2.status

theorem ofChild_line (entry : Child × ChildEnd) : ofChild (line entry) = true := by
  rw [line, statusLine]
  split <;> simp [ofChild]

/-- The child that the handler has just waited for. -/
def HandlerPc.inHand : HandlerPc → List (Child × ChildEnd)
  | .entered _ => []
  | .waiting _ => []
  | .found child ended => [(child, ended)]

/-- What the master has told and is about to tell of the children. -/
def State.told (s : State) : List Call :=
  s.log.filter ofChild ++
    (s.frames.flatMap fun frame => frame.pc.inHand.map line).filter
      fun call => call.written s.logLevel

/-- The children are accounted for. -/
structure Accounted (s : State) : Prop where
  forked : s.forked.Perm (s.running ++ (s.zombies ++ s.reaped).map Prod.fst)
  valid : ∀ entry ∈ s.zombies ++ s.reaped, entry.2.Valid
  increasing : s.forked.Pairwise fun child later => child.procNum < later.procNum
  below : ∀ child ∈ s.forked, child.procNum < s.processCount
  next : ∀ i, s.pc = .forking i → ∀ child ∈ s.forked, child.procNum < i
  pids : ∀ child ∈ s.forked, child.pid ≠ 0
  told : s.told = (s.reaped.map line).filter fun call => call.written s.logLevel

/-- A line that is not about a child. -/
theorem told_logged {call : Call} (other : ofChild call = false) :
    (s.logged call).told = s.told := by
  have hother : ([call].filter fun call => call.written s.logLevel).filter ofChild = [] := by
    rw [List.filter_filter, List.filter_eq_nil_iff]
    intro c hc
    obtain rfl := List.mem_singleton.mp hc
    simp [other]
  simp only [State.told, logged, List.filter_append, hother, List.append_nil]

/-- The frames carry the same children. -/
theorem told_congr (log : s'.log = s.log) (level : s'.logLevel = s.logLevel)
    (inHand : (s'.frames.flatMap fun frame => frame.pc.inHand.map line) =
      s.frames.flatMap fun frame => frame.pc.inHand.map line) : s'.told = s.told := by
  rw [State.told, State.told, log, level, inHand]

theorem told_return {frame : SignalFrame Signo HandlerPc}
    {rest : List (SignalFrame Signo HandlerPc)} (frames : s.frames = frame :: rest)
    (empty : frame.pc.inHand = []) : s.handlerReturn.told = s.told := by
  refine told_congr rfl rfl ?_
  rw [handlerReturn, Signals.resume_eq frames, frames, List.flatMap_cons, empty]
  rfl

theorem told_goto {frame : SignalFrame Signo HandlerPc}
    {rest : List (SignalFrame Signo HandlerPc)} (frames : s.frames = frame :: rest)
    (empty : frame.pc.inHand = []) {pc : HandlerPc} (empty' : pc.inHand = []) :
    (s.handlerGoto pc).told = s.told := by
  have hframes : (s.handlerGoto pc).frames = { frame with pc } :: rest :=
    Signals.goto_frames frames pc
  refine told_congr rfl rfl ?_
  rw [hframes, frames, List.flatMap_cons, List.flatMap_cons, empty, empty']

/-- Nothing changes for the children. -/
theorem Accounted.keeps (h : Accounted s) (running : s'.running = s.running)
    (zombies : s'.zombies = s.zombies) (forked : s'.forked = s.forked)
    (reaped : s'.reaped = s.reaped) (count : s'.processCount = s.processCount)
    (level : s'.logLevel = s.logLevel)
    (next : ∀ i, s'.pc = .forking i → ∃ j, s.pc = .forking j ∧ j ≤ i)
    (told : s'.told = s.told) : Accounted s' where
  forked := by
    rw [running, zombies, forked, reaped]
    exact h.forked
  valid := by
    rw [zombies, reaped]
    exact h.valid
  increasing := forked ▸ h.increasing
  below := by
    rw [forked, count]
    exact h.below
  next i hpc child hchild := by
    obtain ⟨j, hj, hle⟩ := next i hpc
    exact Nat.lt_of_lt_of_le (h.next j hj child (forked ▸ hchild)) hle
  pids := forked ▸ h.pids
  told := by
    rw [told, reaped, level]
    exact h.told

/-- The frames below the one that runs are not those of `SIGCHLD`, if that one is. -/
theorem inHand_rest (inv : Inv mask s) {frame : SignalFrame Signo HandlerPc}
    {rest : List (SignalFrame Signo HandlerPc)} (frames : s.frames = frame :: rest)
    (child : frame.signo = sigchld) :
    (rest.flatMap fun frame => frame.pc.inHand.map line) = [] := by
  have hnodup := inv.nested.nodup
  rw [frames, List.map_cons, List.nodup_cons] at hnodup
  rw [List.flatMap_eq_nil_iff]
  intro other hother
  rcases inv.child other (frames ▸ List.mem_cons_of_mem _ hother) with ⟨siPid, hpc⟩ | hsigno
  · rw [hpc]
    rfl
  · refine absurd (List.mem_map.mpr ⟨other, hother, ?_⟩) hnodup.1
    rw [hsigno, child]

/-- The handler has waited for a child, and will print its line. -/
theorem Accounted.finds (acc : Accounted s) (inv : Inv mask s)
    {frame : SignalFrame Signo HandlerPc} {rest : List (SignalFrame Signo HandlerPc)} {one : Bool}
    {entry : Child × ChildEnd} (frames : s.frames = frame :: rest)
    (waiting : frame.pc = .waiting one) (mem : entry ∈ s.zombies) :
    Accounted { s.handlerGoto (.found entry.1 entry.2) with
      zombies := s.zombies.erase entry
      reaped := s.reaped ++ [entry] } := by
  have hperm : (s.zombies.erase entry ++ (s.reaped ++ [entry])).Perm (s.zombies ++ s.reaped) := by
    rw [← List.append_assoc]
    refine (List.perm_append_singleton entry _).trans ?_
    exact ((List.perm_cons_erase mem).append_right s.reaped).symm
  have hchild := inv.behind_child frames (by simp [waiting])
  have hrest := inHand_rest inv frames hchild
  have hframes : (s.handlerGoto (.found entry.1 entry.2)).frames =
      { frame with pc := .found entry.1 entry.2 } :: rest := Signals.goto_frames frames _
  refine ⟨acc.forked.trans ((hperm.symm.map Prod.fst).append_left s.running), fun other hother =>
    acc.valid other (hperm.mem_iff.mp hother), acc.increasing, acc.below, acc.next, acc.pids, ?_⟩
  have htold := acc.told
  rw [State.told, frames, List.flatMap_cons, hrest, waiting, HandlerPc.inHand, List.map_nil,
    List.append_nil, List.filter_nil, List.append_nil] at htold
  have hgoto : (s.handlerGoto (.found entry.1 entry.2)).told =
      s.log.filter ofChild ++ [line entry].filter fun call => call.written s.logLevel := by
    rw [State.told, hframes, List.flatMap_cons, hrest]
    rfl
  change (s.handlerGoto (.found entry.1 entry.2)).told = _
  rw [hgoto, htold, List.map_append, List.filter_append]
  rfl

/-- The line is printed. -/
theorem told_prints (inv : Inv mask s) {frame : SignalFrame Signo HandlerPc}
    {rest : List (SignalFrame Signo HandlerPc)} {child : Child} {ended : ChildEnd}
    (frames : s.frames = frame :: rest) (found : frame.pc = .found child ended) :
    ((s.logged (statusLine child.pid ended.status)).handlerGoto (.waiting true)).told =
      s.told := by
  have hchild := inv.behind_child frames (by simp [found])
  have hrest := inHand_rest inv frames hchild
  have hline : ([line (child, ended)].filter fun call => call.written s.logLevel).filter ofChild =
      [line (child, ended)].filter fun call => call.written s.logLevel := by
    rw [List.filter_eq_self]
    intro call hcall
    obtain rfl := List.mem_singleton.mp (List.mem_filter.mp hcall).1
    exact ofChild_line _
  have hframes : ((s.logged (line (child, ended))).handlerGoto (.waiting true)).frames =
      { frame with pc := .waiting true } :: rest := Signals.goto_frames frames _
  have hlog : ((s.logged (line (child, ended))).handlerGoto (.waiting true)).log =
      s.log ++ [line (child, ended)].filter fun call => call.written s.logLevel := rfl
  change ((s.logged (line (child, ended))).handlerGoto (.waiting true)).told = s.told
  rw [State.told, State.told, hframes, frames, List.flatMap_cons, List.flatMap_cons, hrest, hlog,
    List.filter_append, hline, found, HandlerPc.inHand, HandlerPc.inHand]
  simp [handlerGoto, logged]

theorem State.Does.accounted (h : Does s label s') (inv : Inv mask s) (acc : Accounted s) :
    Accounted s' := by
  have hnext : ∀ i, s.pc = .forking i → ∃ j, s.pc = .forking j ∧ j ≤ i :=
    fun i hi => ⟨i, hi, Nat.le_refl i⟩
  cases h with
  | @forkFails i errno tm idle pc more =>
      refine acc.keeps rfl rfl rfl rfl rfl rfl (fun j hpc => ⟨i, pc, ?_⟩) (told_logged rfl)
      cases hpc
      exact Nat.le_succ i
  | @forks i pid tm idle pc more fresh =>
      have hnum := acc.next i pc
      refine ⟨?_, acc.valid, ?_, ?_, fun j hpc child hchild => ?_, ?_, acc.told⟩
      · rw [List.append_assoc]
        refine (acc.forked.append_right [⟨i, pid⟩]).trans ?_
        rw [List.append_assoc]
        exact List.perm_append_comm.append_left s.running
      · rw [List.pairwise_append]
        exact ⟨acc.increasing, List.pairwise_singleton _ _, by simpa using hnum⟩
      · rw [List.forall_mem_append]
        exact ⟨acc.below, List.forall_mem_singleton.mpr more⟩
      · cases hpc
        rcases List.mem_append.mp hchild with hold | hnew
        · exact Nat.lt_succ_of_lt (hnum child hold)
        · rw [List.mem_singleton.mp hnew]
          exact Nat.lt_succ_self i
      · rw [List.forall_mem_append]
        exact ⟨acc.pids, List.forall_mem_singleton.mpr fresh.1⟩
  | forked idle pc | suspends idle pc | sleeps idle pc | rises idle pc =>
      exact acc.keeps rfl rfl rfl rfl rfl rfl (by simp) rfl
  | crashes frames entered sender => exact acc.keeps rfl rfl rfl rfl rfl rfl (by simp) rfl
  | receives frames entered other =>
      refine acc.keeps rfl rfl rfl rfl rfl rfl hnext ?_
      exact (told_return (s := s.logged _) frames (by rw [entered]; rfl)).trans (told_logged rfl)
  | receivesChild frames entered child =>
      refine acc.keeps rfl rfl rfl rfl rfl rfl hnext ?_
      exact (told_goto (s := State.logged { s with reap := true } _) frames
        (by rw [entered]; rfl) rfl).trans (told_logged rfl)
  | finds frames waiting mem => exact acc.finds inv frames waiting mem
  | returns frames waiting none =>
      exact acc.keeps rfl rfl rfl rfl rfl rfl hnext (told_return frames (by rw [waiting]; rfl))
  | fails frames waiting none =>
      refine acc.keeps rfl rfl rfl rfl rfl rfl hnext ?_
      exact (told_return (s := s.logged _) frames (by rw [waiting]; rfl)).trans (told_logged rfl)
  | interrupted | ignored => exact acc
  | prints frames found =>
      exact acc.keeps rfl rfl rfl rfl rfl rfl hnext (told_prints inv frames found)
  | interrupts => exact acc.keeps rfl rfl rfl rfl rfl rfl hnext rfl
  | wakes | dies | killed => exact acc.keeps rfl rfl rfl rfl rfl rfl (by simp) rfl
  | raises harmful =>
      refine acc.keeps rfl rfl rfl rfl rfl rfl hnext (told_congr rfl rfl ?_)
      rw [Signals.raise_frames]
  | @exits child procNum ended valid mem =>
      refine ⟨acc.forked.trans ?_, ?_, acc.increasing, acc.below, acc.next, acc.pids, ?_⟩
      · have hmoved : (s.running ++ (s.zombies ++ s.reaped).map Prod.fst).Perm
            (s.running.erase child ++ ((child, ended) :: s.zombies ++ s.reaped).map Prod.fst) := by
          refine ((List.perm_cons_erase mem).append_right _).trans ?_
          exact List.perm_middle.symm
        refine hmoved.trans (List.Perm.append_left _ (List.Perm.map _ ?_))
        exact (List.perm_append_singleton _ _).symm.append_right _
      · intro entry hentry
        rcases List.mem_append.mp hentry with hzombie | hreaped
        · rcases List.mem_append.mp hzombie with hold | hnew
          · exact acc.valid entry (List.mem_append_left _ hold)
          · rw [List.mem_singleton.mp hnew]
            exact valid
        · exact acc.valid entry (List.mem_append_right _ hreaped)
      · have hframes : (s.toSignals.raise sigchld child.pid).frames = s.frames :=
          Signals.raise_frames
        have htold := acc.told
        rw [State.told, ← hframes] at htold
        exact htold

theorem Begins.accounted (h : Begins boot s) : Accounted s := by
  obtain ⟨hrunning, hzombies, hforked, hreaped⟩ := h.children
  have hlog : s.log.filter ofChild = [] := by
    rw [List.filter_eq_nil_iff]
    intro call hcall
    rw [h.lines call hcall]
    exact Bool.false_ne_true
  refine ⟨by simp [hrunning, hzombies, hforked, hreaped], by simp [hzombies, hreaped],
    by simp [hforked], by simp [hforked], by simp [hforked], by simp [hforked], ?_⟩
  rw [State.told, hlog, h.frames, hreaped]
  rfl

/-- The two invariants together. -/
def Kept (mask : List Signo) (s : State) : Prop := Inv mask s ∧ Accounted s

theorem Kept.next (h : Kept mask s) (hs : step s label = some s') : Kept mask s' := by
  obtain ⟨halive, hdoes⟩ := h.1.does hs
  exact ⟨hdoes.inv halive h.1, hdoes.accounted h.1 h.2⟩

theorem Reachable.kept (hr : Reachable boot s) : ∃ mask, Kept mask s := by
  obtain ⟨s₀, labels, hstart, hrun⟩ := hr
  have hbegins := Boot.begins hstart
  have hkept : Kept s₀.mask s₀ := ⟨hbegins.inv, hbegins.accounted⟩
  exact ⟨s₀.mask, run_invariant (fun t a t' ht hs => ht.next hs) hkept hrun⟩

/-- In every reachable state each number below the configured count has been given to at most
one worker, and each worker is running, has ended, or has been waited for once. While no
handler runs, the log has one call for each child that has been waited for, in that order,
and its arguments give the way the child has ended; the level of the log may suppress it. The
record that is composed of the call does not: it has the process id in their place. -/
theorem workers_accounted (hr : Reachable boot s) :
    s.forked.Perm (s.running ++ (s.zombies ++ s.reaped).map Prod.fst) ∧
      (s.forked.Pairwise fun child later => child.procNum < later.procNum) ∧
      (∀ child ∈ s.forked, child.procNum < s.processCount) ∧
      (s.frames = [] → s.log.filter ofChild =
        (s.reaped.map obituary).filter fun call => call.written s.logLevel) ∧
      ∀ entry ∈ s.reaped, ∀ tm,
        logErrorCore tm s.curPid s.strerror (obituary entry).level (obituary entry).errnum
            (obituary entry).fmt (obituary entry).args =
          .ok (printed Cells.empty 0 (obituaryText tm s.curPid entry)) := by
  obtain ⟨mask, -, hacc⟩ := hr.kept
  refine ⟨hacc.forked, hacc.increasing, hacc.below, fun hidle => ?_, fun entry _ tm =>
    obituary_composes tm s.curPid s.strerror entry⟩
  have htold := hacc.told
  rw [State.told, hidle, List.flatMap_nil, List.filter_nil, List.append_nil] at htold
  have hlines : s.reaped.map line = s.reaped.map obituary := List.map_congr_left fun entry h =>
    statusLine_eq (hacc.valid entry (List.mem_append_right _ h))
  rw [htold, hlines]

/-- A worker ends while the handler of an earlier `SIGCHLD` waits, and is reported. -/
theorem workers_accounted_small : ∃ s, Reachable .small s ∧
    s.reaped = [(⟨0, 100⟩, .exited 1)] ∧
      s.log.filter ofChild =
        (s.reaped.map obituary).filter fun call => call.written s.logLevel := by
  have hlaunch : (launch .small (startTwo ++
      [.arrive sigchld 0, .deliver sigchld, .handler .none Boot.small.tm, .exit 0 (.exited 1),
        .handler (.child 0) Boot.small.tm, .handler .none Boot.small.tm,
        .handler .none Boot.small.tm])).map
      (fun s => (s.reaped, s.frames.isEmpty)) = some ([(⟨0, 100⟩, .exited 1)], true) := by
    decide +kernel
  obtain ⟨s, hs, heq⟩ := Option.map_eq_some_iff.mp hlaunch
  obtain ⟨hreaped, hidle⟩ := Prod.mk.inj heq
  exact ⟨s, reachable_of_launch hs, hreaped,
    (workers_accounted (reachable_of_launch hs)).2.2.2.1 (List.isEmpty_iff.mp hidle)⟩

/-- A master that is behind `start_worker_process`. -/
def Started (s : State) : Prop := ∀ processNum, s.pc ≠ .forking processNum

/-- A step of such a master starts no worker. -/
theorem State.Does.started (h : Does s label s') (started : Started s) :
    Started s' ∧ s'.forked = s.forked ∧ s'.running.Sublist s.running := by
  cases h with
  | forkFails idle pc | forks idle pc => exact absurd pc (started _)
  | forked | suspends | sleeps | rises | crashes | wakes | dies | killed =>
      exact ⟨by simp [Started], rfl, List.Sublist.refl _⟩
  | receives | receivesChild | finds | returns | fails | prints =>
      exact ⟨started, rfl, List.Sublist.refl _⟩
  | interrupted | ignored | interrupts | raises => exact ⟨started, rfl, List.Sublist.refl _⟩
  | exits => exact ⟨started, rfl, List.erase_sublist⟩

theorem State.Does.processCount (h : Does s label s') : s'.processCount = s.processCount := by
  cases h <;> rfl

/-- The step is no `fork` that fails. -/
def Forks (s : State) (label : Label) : Prop :=
  ∀ i errno tm, s.pc = .forking i → i < s.processCount → label ≠ .main (.failed errno) tm

/-- Each number that has been passed has its worker. -/
structure AllForked (s : State) : Prop where
  forking : ∀ i, s.pc = .forking i →
    s.forked.map Child.procNum = List.range i ∧ i ≤ s.processCount.toNat
  behind : Started s → s.pc.gone = false →
    s.forked.map Child.procNum = List.range s.processCount.toNat

theorem AllForked.keeps (h : AllForked s) (pc : s'.pc = s.pc) (forked : s'.forked = s.forked)
    (count : s'.processCount = s.processCount) : AllForked s' where
  forking i hpc := by
    rw [forked, count]
    exact h.forking i (pc ▸ hpc)
  behind hstarted halive := by
    rw [forked, count]
    exact h.behind (fun i hpc => hstarted i (pc.trans hpc)) (pc ▸ halive)

/-- The master goes on behind the loop. -/
theorem AllForked.goes (h : AllForked s) (started : Started s) (alive : s.pc.gone = false)
    (pc : Started s') (forked : s'.forked = s.forked) (count : s'.processCount = s.processCount) :
    AllForked s' where
  forking i hpc := absurd hpc (pc i)
  behind _ _ := by
    rw [forked, count]
    exact h.behind started alive

theorem AllForked.gone (started : Started s) (gone : s.pc.gone = true) : AllForked s where
  forking i hpc := absurd hpc (started i)
  behind _ halive := absurd (gone.symm.trans halive) Bool.noConfusion

theorem State.Does.allForked (h : Does s label s') (forks : Forks s label)
    (alive : s.pc.gone = false) (all : AllForked s) : AllForked s' := by
  cases h with
  | @forkFails i errno tm idle pc more => exact absurd rfl (forks i errno tm pc more)
  | @forks i pid tm idle pc more fresh =>
      obtain ⟨hforked, -⟩ := all.forking i pc
      refine ⟨fun j hpc => ?_, fun started => absurd rfl (started (i + 1))⟩
      obtain rfl : i + 1 = j := Pc.forking.inj hpc
      refine ⟨?_, by change i + 1 ≤ s.processCount.toNat; omega⟩
      rw [List.map_append, hforked, List.range_succ]
      rfl
  | @forked i answer tm idle pc none =>
      obtain ⟨hforked, hle⟩ := all.forking i pc
      have hcount : i = s.processCount.toNat := by omega
      exact ⟨fun j hpc => Pc.noConfusion hpc, fun _ _ => hcount ▸ hforked⟩
  | suspends idle pc | sleeps idle pc | rises idle pc =>
      exact all.goes (by simp [Started, pc]) alive (by simp [Started]) rfl rfl
  | wakes pending free handler pc =>
      exact all.goes (by simp [Started, pc]) alive (by simp [Started]) rfl rfl
  | crashes | dies | killed => exact .gone (by simp [Started]) rfl
  | receives | receivesChild | finds | returns | fails | prints => exact all.keeps rfl rfl rfl
  | interrupted | ignored => exact all
  | interrupts | raises | exits => exact all.keeps rfl rfl rfl

/-- The master forks `n` workers: in a run in which each `fork` succeeds, there has been one for
each number when the master is behind the loop. -/
def Boot.ForksFor (boot : Boot) (n : Int) : Prop :=
  ∀ s₀ labels s, boot.state = some s₀ → run step s₀ labels = some s →
    s.processCount = n ∧ (Along step Forks s₀ labels → Started s → s.pc.gone = false →
      s.forked.map Child.procNum = List.range n.toNat)

theorem Begins.allForked (h : Begins boot s) : AllForked s where
  forking i hpc := by
    obtain rfl : 0 = i := Pc.forking.inj (h.pc.symm.trans hpc)
    rw [h.children.2.2.1]
    exact ⟨rfl, Nat.zero_le _⟩
  behind started := absurd h.pc (started 0)

/-- The workers are as many as are configured. -/
theorem Boot.forksFor {n : Int}
    (count : CConfig.getInt (bytes "WorkProcesses") workerProcessNum boot.items = some n) :
    boot.ForksFor n := by
  intro s₀ labels s hstart hr
  have hbegins := Boot.begins hstart
  have hkept : Inv s₀.mask s ∧ s.processCount = s₀.processCount := by
    refine run_invariant (I := fun t => Inv s₀.mask t ∧ t.processCount = s₀.processCount)
      (fun t a t' ht hs => ?_) ⟨hbegins.inv, rfl⟩ hr
    exact ⟨step_inv ht.1 hs, (ht.1.does hs).2.processCount.trans ht.2⟩
  have hcount : s.processCount = n :=
    hkept.2.trans (Option.some.inj (hbegins.count.symm.trans count))
  refine ⟨hcount, fun hforks hstarted halive => ?_⟩
  have hthrough : Throughout step (fun t => Inv s₀.mask t ∧ AllForked t) s₀ labels := by
    refine throughout_of_along ?_ ⟨hbegins.inv, hbegins.allForked⟩ hforks
    intro t a t' ⟨inv, all⟩ hfork hs
    obtain ⟨halive, hdoes⟩ := inv.does hs
    exact ⟨step_inv inv hs, hdoes.allForked hfork halive all⟩
  rw [← hcount]
  exact (hthrough.last hr).2.behind hstarted halive

/-- A master that has started these workers, of which at most these still run. -/
structure Dwindles (mask : List Signo) (s t : State) : Prop where
  kept : Kept mask t
  started : Started t
  forked : t.forked = s.forked
  running : t.running.Sublist s.running

theorem Dwindles.next {u : State} (h : Dwindles mask s t) (hs : step t label = some u) :
    Dwindles mask s u := by
  obtain ⟨-, hdoes⟩ := h.kept.1.does hs
  obtain ⟨hstarted, hforked, hrunning⟩ := hdoes.started h.started
  exact ⟨h.kept.next hs, hstarted, hforked.trans h.forked, hrunning.trans h.running⟩

/-- A worker that ends is not replaced: behind `start_worker_process` the workers become
fewer, and no number is used again. -/
theorem workers_not_replaced (hr : Reachable boot s) (started : Started s)
    (later : run step s labels = some t) :
    t.forked = s.forked ∧ t.running.Sublist s.running ∧
      t.running.length + (t.zombies ++ t.reaped).length = s.forked.length := by
  obtain ⟨mask, hkept⟩ := hr.kept
  have hfirst : Dwindles mask s s := ⟨hkept, started, rfl, List.Sublist.refl _⟩
  have hlast : Dwindles mask s t := run_invariant (fun u a u' hu hs => hu.next hs) hfirst later
  have hlength := hlast.kept.2.forked.length_eq
  rw [List.length_append, List.length_map] at hlength
  exact ⟨hlast.forked, hlast.running, hlength ▸ congrArg List.length hlast.forked⟩

/-- A worker ends, and the other one is left. -/
theorem workers_not_replaced_small : ∃ s t : State, Reachable .small s ∧ s.forked.length = 2 ∧
    t.running = [⟨1, 101⟩] ∧ t.forked = s.forked := by
  have hlaunch : (launch .small startTwo).map (fun s =>
      (s.pc, s.forked.length, (run step s [.exit 0 (.exited 1)]).map fun t => t.running)) =
      some (.suspended blocked, 2, some [⟨1, 101⟩]) := by decide
  obtain ⟨s, hs, heq⟩ := Option.map_eq_some_iff.mp hlaunch
  obtain ⟨hpc, hrest⟩ := Prod.mk.inj heq
  obtain ⟨hforked, hrun⟩ := Prod.mk.inj hrest
  obtain ⟨t, ht, hrunning⟩ := Option.map_eq_some_iff.mp hrun
  have hstarted : Started s := fun processNum h => Pc.noConfusion (hpc.symm.trans h)
  exact ⟨s, t, reachable_of_launch hs, hforked, hrunning,
    (workers_not_replaced (reachable_of_launch hs) hstarted ht).1⟩

end Master

end MyNginx
