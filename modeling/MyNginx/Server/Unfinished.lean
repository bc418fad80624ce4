import MyNginx.Server.Reception
import MyNginx.Server.Registration

/-!
# The counter of unfinished replies

`iThrowsendCount` is one while a reply waits for `EPOLLOUT`, and zero otherwise. Everything
that counts down checks for that or starts from zero again, except the branch for a peer
that is gone: it counts down whatever the counter is. The counter stays in its range exactly
as long as that branch finds a reply counted, which the read part of the same event has not
uncounted before.
-/

namespace MyNginx

open Foundation

namespace State

variable {s s' t : State} {c d : ConnId} {env : Env}

/-- The counter of every accepted connection is 0 or 1. -/
def AtMostOne (s : State) : Prop :=
  ∀ c, s.Used c → (s.conn c).iThrowsendCount = 0 ∨ (s.conn c).iThrowsendCount = 1

/-- A readable event closes the connection. -/
def ReadCloses (s : State) (c : ConnId) (env : Env) : Prop :=
  (s.conn c).fd ≠ -1 ∧ (s.conn c).istimeout = false ∧ env.recv.Closes

instance : Decidable (s.ReadCloses c env) := inferInstanceAs (Decidable (_ ∧ _))

/-- Where the next event is `EPOLLOUT` of a peer that is gone, a reply is counted, and it
still is when the read part of the event has run. -/
def CountedOnce (s : State) (env : Env) : Prop :=
  match s.events with
  | [] => True
  | (c, events) :: _ =>
      events.has epollout = true → events.has (epollrdhup ||| epollerr ||| epollhup) = true →
        (s.conn c).iThrowsendCount = 1 ∧ ¬ (events.has epollin = true ∧ s.ReadCloses c env)

instance : Decidable (s.CountedOnce env) := by
  unfold CountedOnce
  rcases s.events with _ | _ <;> infer_instance

/-! ### Steps that keep the counters in their range -/

/-- What happens to the counter of a connection, apart from that branch. -/
inductive Recount (s s' : State) (c : ConnId) : Prop
  | kept (used : s.Used c) (same : (s'.conn c).iThrowsendCount = (s.conn c).iThrowsendCount)
  | reset (zero : (s'.conn c).iThrowsendCount = 0)
  | counted (used : s.Used c) (idle : (s.conn c).iThrowsendCount ≤ 0)
      (more : (s'.conn c).iThrowsendCount = (s.conn c).iThrowsendCount + 1)
  | uncounted (used : s.Used c) (busy : 0 < (s.conn c).iThrowsendCount)
      (less : (s'.conn c).iThrowsendCount = (s.conn c).iThrowsendCount - 1)

theorem AtMostOne.recount (counted : s.AtMostOne) (h : ∀ c, s'.Used c → Recount s s' c) :
    s'.AtMostOne := by
  intro c hused
  cases h c hused with
  | kept used same =>
      rw [same]
      exact counted c used
  | reset zero => exact .inl zero
  | counted used idle more =>
      rcases counted c used with hzero | hone <;> omega
  | uncounted used busy less =>
      rcases counted c used with hzero | hone <;> omega

/-- No use began, and the counters are as before. -/
theorem AtMostOne.same (counted : s.AtMostOne) (use : s'.history.use = s.history.use)
    (same : ∀ c, (s'.conn c).iThrowsendCount = (s.conn c).iThrowsendCount) : s'.AtMostOne :=
  counted.recount fun c hused => .kept (by rwa [Used, use] at hused) (same c)

theorem AtMostOne.modifyConn {f : Connection → Connection} (counted : s.AtMostOne)
    (hf : ∀ conn, (f conn).iThrowsendCount = conn.iThrowsendCount) :
    (s.modifyConn c f).AtMostOne := by
  refine counted.same rfl fun d => ?_
  by_cases hd : d = c
  · subst hd
    simp [hf]
  · simp [hd]

theorem AtMostOne.quiet (counted : s.AtMostOne) (h : Quiet s s') : s'.AtMostOne :=
  counted.same h.toNeutral.use_eq fun c => congrArg Outgoing.iThrowsendCount (h.outgoing c)

/-- Closing uncounts a reply that is counted. -/
theorem count_afterClose (s : State) (c d : ConnId) (now : Time) :
    ((s.afterClose c now).conn d).iThrowsendCount =
      if d = c ∧ 0 < (s.conn c).iThrowsendCount then (s.conn c).iThrowsendCount - 1
      else (s.conn d).iThrowsendCount := by
  by_cases hd : d = c
  · subst hd
    simp [afterClose]
  · simp [afterClose, hd]

theorem AtMostOne.afterClose (counted : s.AtMostOne) (c : ConnId) (now : Time) :
    (s.afterClose c now).AtMostOne := by
  refine counted.recount fun d hused => ?_
  have hcount := count_afterClose s c d now
  split at hcount
  next h =>
    obtain ⟨rfl, hbusy⟩ := h
    exact .uncounted hused hbusy hcount
  next => exact .kept hused hcount

theorem AtMostOne.closeAcceptedConnection (counted : s.AtMostOne) {istimeoutClose : Bool}
    (inv : s.Inv) (used : s.Used c) (h : s.closeAcceptedConnection c istimeoutClose env = some s') :
    s'.AtMostOne := by
  rcases closeAcceptedConnection_cases (inv.idle used) h with ⟨rfl, -⟩ | ⟨-, rfl⟩
  · exact counted
  · exact counted.afterClose c env.now

theorem AtMostOne.receiveOnly (counted : s.AtMostOne) (h : ReceiveOnly c s s') : s'.AtMostOne := by
  have hsame := h.same
  obtain ⟨blocks, queue, incoming, rfl⟩ := h
  exact counted.same rfl fun d => congrArg Outgoing.iThrowsendCount (hsame d).outgoing

theorem AtMostOne.readable (counted : s.AtMostOne) (inv : s.Inv) (used : s.Used c)
    (h : s.eventReadableRequestHandler c env = some s') : s'.AtMostOne := by
  cases readable_frame (inv.idle_of_used used) h with
  | stays h => exact counted.receiveOnly h
  | closes opened h => exact (counted.afterClose c env.now).receiveOnly h

/-- A use begins with nothing counted. -/
theorem AtMostOne.begun (counted : s.AtMostOne) (begun : Begun s c s')
    (idle : (s'.conn c).iThrowsendCount = 0) : s'.AtMostOne := by
  refine counted.recount fun d hused => ?_
  by_cases hd : d = c
  · subst hd
    exact .reset idle
  · exact .kept (by rwa [Used, begun.use_ne hd] at hused) (by rw [begun.other d hd])

theorem AtMostOne.admits {connfd : Fd} (counted : s.AtMostOne) (inv : s.Inv) (hfd : 0 ≤ connfd)
    (hclosed : s.openFds connfd = false) (h : Admits s connfd env s') : s'.AtMostOne := by
  cases h with
  | refused => exact counted
  | opened taken room timer =>
      have hbegun := begun_registered (epollin ||| epollrdhup) env.now inv hfd taken.takes
      rcases timer with ⟨-, rfl⟩ | ⟨-, rfl⟩
      · exact counted.begun { hbegun with } (by simp [registered, prepared, getOneToUse])
      · exact counted.begun { hbegun.addToTimerQueue env.later with }
          (by simp [addToTimerQueue, registered, prepared, getOneToUse])
  | rejected taken =>
      exact counted.begun (begun_rejected _ _ inv hclosed taken.takes)
        (by simp [State.rejected, prepared, getOneToUse])

theorem AtMostOne.acceptLoop {standby : ConnId} {answers : List AcceptAnswer} (counted : s.AtMostOne)
    (inv : s.Inv) (h : s.acceptLoop standby env answers = some s') : s'.AtMostOne := by
  obtain ⟨useAccept4, rfl | ⟨connfd, hfd, hclosed, hadmits⟩⟩ := acceptLoop_cases inv h
  · exact counted
  · have hquiet : Quiet s { s with useAccept4 } :=
      quiet_of_view rfl rfl rfl rfl rfl rfl rfl rfl rfl rfl
    exact (counted.quiet hquiet).admits (hquiet.toNeutral.inv inv) hfd hclosed hadmits

theorem AtMostOne.handleIn (counted : s.AtMostOne) {events : Mask} (inv : s.Inv)
    (ok : s.EventOk (c, events)) (h : s.handleIn c events env = some s') : s'.AtMostOne := by
  cases handleIn_cases inv ok h with
  | reads _ hused hread => exact counted.readable inv hused hread
  | accepts _ _ haccept => exact counted.acceptLoop inv haccept
  | skips => exact counted

/-- A change of the sending part of one connection. -/
theorem AtMostOne.sends {out : Outgoing} {queue : SendQueue} {written : List Written}
    (counted : s.AtMostOne) (sends : Sends s c out queue written s')
    (h : out.iThrowsendCount = (s.conn c).iThrowsendCount ∨ out.iThrowsendCount = 0 ∨
      (s.conn c).iThrowsendCount ≤ 0 ∧ out.iThrowsendCount = (s.conn c).iThrowsendCount + 1) :
    s'.AtMostOne := by
  refine counted.recount fun d hused => ?_
  have hused : s.Used d := sends.steady.toNeutral.used_iff.mp hused
  by_cases hd : d = c
  · subst hd
    have hcount := congrArg Outgoing.iThrowsendCount sends.self
    rcases h with hsame | hzero | ⟨hidle, hmore⟩
    · exact .kept hused (hcount.trans hsame)
    · exact .reset (hcount.trans hzero)
    · exact .counted hused hidle (hcount.trans hmore)
  · exact .kept hused (congrArg Outgoing.iThrowsendCount (sends.other d hd))

/-- The `EPOLLOUT` handler leaves the counter, or resets it. -/
theorem AtMostOne.writes (counted : s.AtMostOne) (h : Writes s c env s') : s'.AtMostOne := by
  cases h with
  | failed fails sends => exact counted.sends sends (.inr (.inl rfl))
  | part lt puts sends => exact counted.sends sends (.inl rfl)
  | mismatch le puts differs sends => exact counted.sends sends (.inl rfl)
  | finished le puts equal sends => exact counted.sends sends (.inr (.inl rfl))

/-- The send thread counts a reply only where none is counted. -/
theorem AtMostOne.entry {i : Nat} {reply : Reply} {next : SendNext} (counted : s.AtMostOne)
    (h : Entry s i reply c env s' next) : s'.AtMostOne := by
  cases h with
  | discarded outdated sends => exact counted.sends sends (.inl rfl)
  | skipped current busy same => exact same ▸ counted
  | failed current idle fails sends => exact counted.sends sends (.inr (.inl rfl))
  | part current idle lt puts sends => exact counted.sends sends (.inr (.inr ⟨idle, rfl⟩))
  | mismatch current idle puts differs sends => exact counted.sends sends (.inl rfl)
  | finished current idle puts equal sends => exact counted.sends sends (.inr (.inl rfl))

theorem AtMostOne.timeOutClose (counted : s.AtMostOne) (inv : s.Inv)
    (h : s.timeOutClose env = some s') : s'.AtMostOne := by
  obtain ⟨head, due, curTime, t, -, hused, hclose, rfl⟩ := timeOutClose_cases inv h
  exact AtMostOne.same (counted.closeAcceptedConnection inv hused hclose) rfl fun _ => rfl

/-- A returned object has nothing counted. -/
theorem AtMostOne.recycles (counted : s.AtMostOne) (h : Relation.ReflTransGen Recycles s s') :
    s'.AtMostOne := by
  induction h with
  | refl => exact counted
  | tail _ hentry ih =>
      cases hentry with
      | @entry c front back count list counted =>
          refine ih.recount fun d hused => ?_
          by_cases hd : d = c
          · subst hd
            exact .reset (by simp [State.recycle])
          · exact .kept hused (by simp [State.recycle, hd])

/-- A step of the loop that handles no event. -/
theorem AtMostOne.loopStep {action : LoopAction} (counted : s.AtMostOne) (inv : s.Inv)
    (other : ∀ env, action ≠ .handleEvent env) (h : s.loopStep action = some s') :
    s'.AtMostOne := by
  cases action with
  | epollWait events =>
      obtain ⟨reported, -, rfl⟩ := epollWait_reports h
      exact counted
  | handleEvent env => exact absurd rfl (other env)
  | timerBegin curTime => exact counted.quiet (quiet_timerBegin h)
  | timerCheck =>
      cases timeCheckingProc_checks h with
      | quiet h => exact counted.quiet h
      | @mark head due curTime timer current silent =>
          have hmark : (s.modifyConn head.lpCurconn fun conn =>
              { conn with istimeout := true }).AtMostOne := counted.modifyConn fun _ => rfl
          exact hmark
  | timerDelete => exact counted.quiet (quiet_timeOutDelete h)
  | timerClose env => exact counted.timeOutClose inv h
  | recycle times =>
      obtain ⟨t, recyThread, hrecycles, rfl⟩ := recyConnThreadFunc_recycles h
      have hcounted := counted.recycles hrecycles
      exact hcounted
  | shutdown =>
      obtain rfl := Option.some.inj h
      exact counted

/-! ### The branch for a peer that is gone -/

/-- The branch leaves the counters in their range exactly when a reply is counted. -/
theorem hangup_counted_iff (counted : s.AtMostOne) (inv : (s.hangup c).Inv) (used : s.Used c)
    (h : (s.hangup c).closeAcceptedConnection c false env = some s') :
    s'.AtMostOne ↔ (s.conn c).iThrowsendCount = 1 := by
  have hself : ((s.hangup c).conn c).iThrowsendCount = (s.conn c).iThrowsendCount - 1 := by
    simp [hangup]
  have hother : ∀ d, d ≠ c → (s.hangup c).conn d = s.conn d := fun d hd => by simp [hangup, hd]
  have hcounted : (s.hangup c).AtMostOne ↔ (s.conn c).iThrowsendCount = 1 := by
    constructor
    · intro h
      have hc := h c used
      rw [hself] at hc
      rcases counted c used with hzero | hone <;> omega
    · intro hone d hused
      by_cases hd : d = c
      · subst hd
        exact .inl (by rw [hself, hone]; rfl)
      · rw [hother d hd]
        exact counted d hused
  rcases closeAcceptedConnection_cases (inv.idle used) h with ⟨rfl, -⟩ | ⟨-, rfl⟩
  · exact hcounted
  · constructor
    · intro hclosed
      -- What is below zero is not uncounted, so it shows after the close too.
      have hc := hclosed c used
      rw [count_afterClose, hself] at hc
      rcases counted c used with hzero | hone
      · rw [hzero] at hc
        simp at hc
      · exact hone
    · intro hone
      exact (hcounted.mpr hone).afterClose c env.now

/-- Of a counted reply, the read part of an event leaves the count unless it closes. -/
theorem readable_uncounts_iff (counted : s.AtMostOne) (inv : s.Inv) (regular : s.Regular)
    (used : s.Used c) (h : s.eventReadableRequestHandler c env = some s') :
    (s'.conn c).iThrowsendCount = 1 ↔ (s.conn c).iThrowsendCount = 1 ∧ ¬ s.ReadCloses c env := by
  have hkept : ∀ {u : State}, ReceiveOnly c u s' →
      (s'.conn c).iThrowsendCount = (u.conn c).iThrowsendCount :=
    fun hrecv => congrArg Outgoing.iThrowsendCount (hrecv.same c).outgoing
  by_cases hfd : (s.conn c).fd = -1
  · -- Nothing is closed twice.
    have hnone : ¬ s.ReadCloses c env := fun hcloses => hcloses.1 hfd
    cases readable_frame (inv.idle_of_used used) h with
    | stays hrecv => rw [hkept hrecv, and_iff_left hnone]
    | closes opened _ => exact absurd hfd opened
  · have hwanted := regular.wanted ⟨used, hfd⟩
    have hopened := inv.wired.opened c (inv.wired.used c used).1 hfd
    obtain ⟨v, hands, -, hreception, hlast⟩ := readable_reception h
    have hhands := receiveOnly_handOver hlast
    rcases hreception.frame hwanted with ⟨hrecv, hstays⟩ | ⟨hover, t, hclose, hrecv⟩
    · rw [hkept (hrecv.trans hhands), and_iff_left fun hcloses => hstays hcloses.2.2]
    · have hat := receiveOnly_atRecv s c
      have hcloses := hover hopened
      have hlink : ((s.atRecv c).conn c).iThrowsendCount = (s.conn c).iThrowsendCount ∧
          ((s.atRecv c).conn c).fd = (s.conn c).fd ∧
          ((s.atRecv c).conn c).istimeout = (s.conn c).istimeout := by
        obtain ⟨blocks, queue, incoming, heq⟩ := hat
        rw [heq]
        simp
      cases hmarked : (s.conn c).istimeout with
      | true =>
          have hsame := closeAcceptedConnection_marked (hlink.2.2.trans hmarked) hclose
          have hnone : ¬ s.ReadCloses c env := fun hcloses =>
            absurd (hmarked.symm.trans hcloses.2.1) nofun
          rw [hkept (hrecv.trans hhands), hsame, hlink.1, and_iff_left hnone]
      | false =>
          have hidle := (inv.idle_of_used used).receiveOnly hat
          rcases closeAcceptedConnection_cases hidle hclose with ⟨-, hgone⟩ | ⟨-, rfl⟩
          · rw [hlink.2.1, hlink.2.2, hmarked] at hgone
            exact absurd hgone (by simp [hfd])
          · rw [hkept (hrecv.trans hhands), count_afterClose, hlink.1]
            refine iff_of_false (fun hone => ?_) fun hboth => hboth.2 ⟨hfd, hmarked, hcloses⟩
            rcases counted c used with hzero | hcount
            · simp [hzero] at hone
            · simp [hcount] at hone

/-- The `EPOLLOUT` part leaves the counters in their range, unless the peer is gone and no
reply is counted. -/
theorem handleOut_counted_iff {events : Mask} (counted : s.AtMostOne) (inv : s.Inv)
    (ok : s.EventOk (c, events)) (h : s.handleOut c events env = some s') :
    s'.AtMostOne ↔ (events.has epollout = true →
      events.has (epollrdhup ||| epollerr ||| epollhup) = true →
        (s.conn c).iThrowsendCount = 1) := by
  by_cases hout : events.has epollout = true
  · have hused : s.Used c := by
      rcases ok with hused | ⟨-, hnone⟩
      · exact hused
      · exact absurd (hnone.symm.trans hout) nofun
    by_cases hgone : events.has (epollrdhup ||| epollerr ||| epollhup) = true
    · simp only [handleOut, hout, hgone, if_true] at h
      have hneutral : Neutral s (s.hangup c) := neutral_hangup
      rw [hangup_counted_iff counted (hneutral.inv inv) hused h]
      exact ⟨fun hone _ _ => hone, fun hone => hone hout hgone⟩
    · rw [handleOut, if_pos hout, if_neg hgone, (inv.wired.used c hused).2.2] at h
      exact iff_of_true (counted.writes (writable_writes inv hused h))
        fun _ hyes => absurd hyes hgone
  · rw [handleOut, if_neg hout] at h
    obtain rfl := Option.some.inj h
    exact iff_of_true counted fun hyes => absurd hyes hout

theorem handleEvent_counted_iff (counted : s.AtMostOne) (inv : s.Inv) (regular : s.Regular)
    (h : s.handleEvent env = some s') : s'.AtMostOne ↔ s.CountedOnce env := by
  obtain ⟨c, events, rest, t, hevent⟩ := handleEvent_cases inv h
  have hcounted : { s with events := rest }.AtMostOne := counted
  have haside : Intake (fun _ _ _ => False) s { s with events := rest } :=
    .aside (aside_conn rfl rfl ⟨rfl, rfl⟩ rfl fun _ => ⟨rfl, rfl⟩)
  have hregular := haside.regular regular
  have hbetween := hcounted.handleIn hevent.taken.inv hevent.ok hevent.inward
  rw [handleOut_counted_iff hbetween hevent.between.inv hevent.still hevent.outward,
    CountedOnce, hevent.batch]
  refine forall_congr' fun hout => forall_congr' fun _ => ?_
  cases handleIn_cases hevent.taken.inv hevent.ok hevent.inward with
  | reads set used read =>
      have hread := readable_uncounts_iff hcounted hevent.taken.inv hregular used read
      rw [hread]
      exact and_congr_right fun _ => not_congr (and_iff_right set).symm
  | accepts _ standby _ =>
      rcases hevent.ok with hused | ⟨-, hnone⟩
      · exact absurd hused (hevent.taken.inv.wired.standby c standby).2.1
      · exact absurd (hnone.symm.trans hout) nofun
  | skips unset => exact (and_iff_left fun hboth => unset hboth.1).symm

end State

namespace Server

open State

variable {s s' : State}

/-- A worker has nothing to do with the counters. -/
theorem work_counted {w : Nat} {now : Time} (counted : s.AtMostOne) (h : work s w now = some s') :
    s'.AtMostOne := by
  have htook : ∀ {t r}, Took s now t r → t.AtMostOne := by
    intro t r htook
    cases htook with
    | null queue => exact counted
    | @message msg rest _ _ queue processed =>
        have hbehind : (s.behind rest).AtMostOne := counted
        cases processed with
        | dropped silent => exact counted
        | heartbeat current beat answers =>
            have hping : ((s.behind rest).modifyConn msg.head.lpCurconn fun conn =>
                { conn with pingUpdateTime := now }).AtMostOne := hbehind.modifyConn fun _ => rfl
            exact hping.modifyConn fun _ => rfl
        | answered current code answers => exact hbehind.modifyConn fun _ => rfl
  obtain ⟨t, htake, rfl⟩ | ⟨t, reply, htake, hqueue⟩ := work_cases h
  · exact htook htake
  · have ht : t.AtMostOne := htook htake
    obtain rfl | rfl := eq_of_msgSendInQueue hqueue
    · exact ht
    · have hpushed : (((t.lockSend (.worker w)).pushSend reply).unlockSend).AtMostOne := ht
      have hsent : ((((t.lockSend (.worker w)).pushSend reply).unlockSend).countConn
          reply).AtMostOne := hpushed.modifyConn fun _ => rfl
      exact hsent

theorem sendOne_counted {i : Nat} {env : Env} (counted : s.AtMostOne) (inv : s.Inv)
    (h : sendOne s i env = some s') : s'.AtMostOne := by
  obtain ⟨t, next, hentry, hlast⟩ := sendOne_cases h
  obtain ⟨reply, -, hentry⟩ := sendEntry_entry inv hentry
  have hcounted : t.AtMostOne := counted.entry hentry
  rcases hlast with rfl | rfl
  · exact hcounted
  · exact hcounted

/-- The next step uncounts a reply only once. -/
def UncountsOnce (s : State) : Action → Prop
  | .loop (.handleEvent env) => s.CountedOnce env
  | _ => True

instance : DecidableRel UncountsOnce := fun s action => by
  unfold UncountsOnce
  rcases action with (_ | _) | _ <;> infer_instance

/-- One step. -/
theorem step_counted_iff (counted : s.AtMostOne) (inv : s.Inv) (regular : s.Regular)
    {action : Action} (h : step s action = some s') : s'.AtMostOne ↔ UncountsOnce s action := by
  cases action with
  | loop action =>
      have hloop : s.loopStep action = some s' := h
      cases action with
      | handleEvent env => exact handleEvent_counted_iff counted inv regular hloop
      | epollWait | timerBegin | timerCheck | timerDelete | timerClose | recycle | shutdown =>
          exact iff_of_true (counted.loopStep inv (by simp) hloop) trivial
  | work w now => exact iff_of_true (work_counted counted h) trivial
  | sendEntry i env => exact iff_of_true (sendOne_counted counted inv h) trivial

/-- From the start on, the counter of every accepted connection is 0 or 1 after every step,
exactly when in every step the branch for a peer that is gone finds a reply counted, which
the read part of the same event has not uncounted. -/
theorem unfinished_counted_iff {boot : Boot} {actions : List Action} (hstart : boot.Starts s) :
    Throughout step AtMostOne s actions ↔ Along step UncountsOnce s actions := by
  have hunused : s.AtMostOne := by
    obtain ⟨⟨all, htaking⟩, -⟩ := hstart.spec
    intro c hused
    exact absurd (htaking.unused c) (Nat.pos_iff_ne_zero.mp hused)
  exact throughout_iff_along (I := fun s => s.Inv ∧ s.Regular)
    (fun s a s' hi _ _ hs => ⟨(step_evolves hi.1 hs).inv, step_regular hi.1 hi.2 hs⟩)
    (fun s a s' hi hp hs => step_counted_iff hp hi.1 hi.2 hs) ⟨hstart.inv, hstart.regular⟩ hunused

/-- A ping whose answer is sent in part, and a peer that hangs up before the rest of it. -/
theorem unfinished_counted_hangup : ∃ s, Boot.small.Starts s ∧ Throughout step AtMostOne s
    (acceptOn 5 100 ++ eventOn 5 epollin { recv := .data (encodeHeader pkgHeaderLen 0 0) } ++
      [.work 0 101, .sendEntry 0 { send := [.sent 3] }] ++
      eventOn 5 (epollout ||| epollhup) { now := 103 }) := by
  have hrun : (Boot.small.state.epollEventInit [true]).map (fun s =>
      decide (Along step UncountsOnce s
        (acceptOn 5 100 ++ eventOn 5 epollin { recv := .data (encodeHeader pkgHeaderLen 0 0) } ++
          [.work 0 101, .sendEntry 0 { send := [.sent 3] }] ++
          eventOn 5 (epollout ||| epollhup) { now := 103 }))) = some true := by decide +kernel
  obtain ⟨s, hstart, hall⟩ := Option.map_eq_some_iff.mp hrun
  exact ⟨s, ⟨_, hstart⟩, (unfinished_counted_iff ⟨_, hstart⟩).mpr (of_decide_eq_true hall)⟩

/-- The same where the last event is readable too: the read finds the connection reset and
closes it, which uncounts the reply, and the branch for a peer that is gone uncounts it
again. -/
theorem unfinished_uncounted_twice : ¬ ∀ (boot : Boot) (s : State) (actions : List Action),
    boot.Starts s → Throughout step AtMostOne s actions := by
  intro hclaim
  have hrun : (launch .small [true]
      (acceptOn 5 100 ++ eventOn 5 epollin { recv := .data (encodeHeader pkgHeaderLen 0 0) } ++
        [.work 0 101, .sendEntry 0 { send := [.sent 3] }] ++
        eventOn 5 (epollin ||| epollout ||| epollrdhup)
          { recv := .failed .econnreset, now := 103 })).map
      (fun s => (s.history.use 1, (s.conn 1).iThrowsendCount)) = some (1, -1) := by decide +kernel
  obtain ⟨t, hlaunch, hlast⟩ := Option.map_eq_some_iff.mp hrun
  obtain ⟨s, hstart, hr⟩ := Option.bind_eq_some_iff.mp hlaunch
  obtain ⟨huse, hcount⟩ := Prod.mk.inj hlast
  have hused : t.Used 1 := by rw [Used, huse]; decide
  rcases (hclaim .small s _ ⟨_, hstart⟩).last hr 1 hused with hzero | hone
  · rw [hcount] at hzero
    cases hzero
  · rw [hcount] at hone
    cases hone

end Server

end MyNginx
