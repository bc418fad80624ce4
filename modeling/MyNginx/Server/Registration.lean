import MyNginx.Server.Frames

/-!
# Registrations

What happens to the registration and to the sending part of an open connection. Where
nothing is written, both stay as they are, or the connection has just been accepted.
Where something is written, `EPOLLOUT` is added when a reply has begun and is not
finished, and taken away when it is finished; no other mask is changed.
-/

namespace MyNginx

open Foundation

namespace State

variable {s s' t : State} {c d : ConnId} {env : Env}

/-- The use of `c`, its sending part and its registration are as before. -/
structure Same (s s' : State) (c : ConnId) : Prop where
  use : s'.history.use c = s.history.use c
  fd : (s'.conn c).fd = (s.conn c).fd
  events : (s'.conn c).events = (s.conn c).events
  outgoing : (s'.conn c).toOutgoing = (s.conn c).toOutgoing
  registration : s'.interest (s.conn c).fd = s.interest (s.conn c).fd

theorem Same.refl (s : State) (c : ConnId) : Same s s c := ⟨rfl, rfl, rfl, rfl, rfl⟩

theorem Same.trans (h : Same s t c) (h' : Same t s' c) : Same s s' c where
  use := h'.use.trans h.use
  fd := h'.fd.trans h.fd
  events := h'.events.trans h.events
  outgoing := h'.outgoing.trans h.outgoing
  registration := by
    rw [← h.registration, ← h.fd]
    exact h'.registration

/-- The object was not touched. -/
theorem Same.of_conn (use : s'.history.use c = s.history.use c) (conn : s'.conn c = s.conn c)
    (registration : s'.interest (s.conn c).fd = s.interest (s.conn c).fd) : Same s s' c :=
  ⟨use, by rw [conn], by rw [conn], by rw [conn], registration⟩

theorem Same.isOpen (h : Same s s' c) : s'.Open c ↔ s.Open c := by
  rw [Open, Open, Used, Used, h.use, h.fd]

/-- A client has just been accepted with the object `c`. -/
structure Fresh (s s' : State) (c : ConnId) : Prop where
  use : s.history.use c < s'.history.use c
  idle : (s'.conn c).iThrowsendCount = 0
  events : (s'.conn c).events = epollin ||| epollrdhup
  registration : s'.interest (s'.conn c).fd = some (epollin ||| epollrdhup, c)

/-- A step that writes and queues nothing, and leaves the connections alone that stay
open. -/
structure Leaves (s s' : State) : Prop where
  queue : s'.toSendQueue = s.toSendQueue
  queued : s'.history.queued = s.history.queued
  wire : s'.history.wire = s.history.wire
  each : ∀ c, s'.Open c → s.Open c ∧ Same s s' c ∨ Fresh s s' c

theorem Leaves.of_same (queue : s'.toSendQueue = s.toSendQueue)
    (queued : s'.history.queued = s.history.queued) (wire : s'.history.wire = s.history.wire)
    (h : ∀ c, s'.Open c → Same s s' c) : Leaves s s' :=
  ⟨queue, queued, wire, fun c hopen => .inl ⟨(h c hopen).isOpen.mp hopen, h c hopen⟩⟩

theorem Leaves.refl (s : State) : Leaves s s := .of_same rfl rfl rfl fun c _ => .refl s c

/-- Members that no connection depends on may have changed before. -/
theorem Leaves.of_eq (h : Leaves t s') (queue : t.toSendQueue = s.toSendQueue)
    (history : t.history = s.history) (conn : t.conn = s.conn)
    (interest : t.interest = s.interest) : Leaves s s' := by
  refine ⟨h.queue.trans queue, by rw [h.queued, history], by rw [h.wire, history], ?_⟩
  intro c hopen
  rcases h.each c hopen with ⟨hold, hsame⟩ | hfresh
  · refine .inl ⟨?_, ?_, ?_, ?_, ?_, ?_⟩
    · rwa [Open, Used, history, conn] at hold
    · rw [hsame.use, history]
    · rw [hsame.fd, conn]
    · rw [hsame.events, conn]
    · rw [hsame.outgoing, conn]
    · rw [← conn, ← interest, hsame.registration]
  · exact .inr { hfresh with use := history ▸ hfresh.use }

/-- Closing a connection removes its own registration only. -/
theorem same_afterClose (inv : s.Inv) (used : s.Used c) (opened : (s.conn c).fd ≠ -1) {now : Time}
    (hopen : (s.afterClose c now).Open d) : d ≠ c ∧ Same s (s.afterClose c now) d := by
  have hd : d ≠ c := by
    rintro rfl
    exact hopen.2 (by simp [afterClose])
  have hconn : (s.afterClose c now).conn d = s.conn d := by simp [afterClose, hd]
  have hold : s.Open d := by
    rwa [Open, hconn] at hopen
  have hfd : (s.conn d).fd ≠ (s.conn c).fd := fun heq =>
    hd (inv.owner_unique (inv.wired.used d hold.1).1 (inv.wired.used c used).1 opened heq rfl)
  exact ⟨hd, .of_conn rfl hconn (by simp [afterClose, hfd])⟩

theorem ReceiveOnly.same (h : ReceiveOnly c s s') (d : ConnId) : Same s s' d := by
  obtain ⟨blocks, queue, incoming, rfl⟩ := h
  by_cases hd : d = c
  · subst hd
    exact ⟨rfl, by simp, by simp, by simp, rfl⟩
  · exact .of_conn rfl (by simp [hd]) rfl

/-- A readable event leaves every connection alone that is open afterwards. -/
theorem ReadFrame.leaves {now : Time} (h : ReadFrame c now s s') (inv : s.Inv) (used : s.Used c) :
    Leaves s s' := by
  cases h with
  | stays h =>
      have hsame := h.same
      obtain ⟨blocks, queue, incoming, rfl⟩ := h
      exact .of_same rfl rfl rfl fun d _ => hsame d
  | closes opened h =>
      have hsame := h.same
      obtain ⟨blocks, queue, incoming, rfl⟩ := h
      refine .of_same rfl rfl rfl fun d hopen => ?_
      exact (same_afterClose inv used opened ((hsame d).isOpen.mp hopen)).2.trans (hsame d)

/-- An accepted descriptor belonged to nobody. -/
theorem TakenFor.registration {connfd : Fd} (h : TakenFor s connfd c t) (inv : s.Inv)
    (hopen : s.Open d) : d ≠ c ∧ (s.conn d).fd ≠ connfd := by
  have hobject := (inv.wired.used d hopen.1).1
  refine ⟨?_, fun hfd => ?_⟩
  · rintro rfl
    exact hopen.2 (h.idle hobject)
  · refine h.fresh d hobject ?_
    simp [view, handle, ← hfd, hopen.2]

theorem TakenFor.sending {connfd : Fd} (h : TakenFor s connfd c t) :
    t.toSendQueue = s.toSendQueue ∧ t.history.queued = s.history.queued ∧
      t.history.wire = s.history.wire := by
  refine ⟨h.takes.replies, ?_, ?_⟩ <;> rw [h.takes.history] <;> rfl

/-- The other connections do not notice that a use begins. -/
theorem same_begun {connfd : Fd} (inv : s.Inv) (taken : TakenFor s connfd c t)
    (begun : Begun s c s')
    (interest : ∀ fd, fd ≠ connfd → s'.interest fd = t.interest fd) (hd : d ≠ c)
    (hopen : s'.Open d) : s.Open d ∧ Same s s' d := by
  have hconn := begun.other d hd
  have huse := begun.use_ne hd
  have hold : s.Open d := by
    rwa [Open, Used, hconn, huse] at hopen
  refine ⟨hold, .of_conn huse hconn ?_⟩
  rw [interest _ (taken.registration inv hold).2]
  exact congrFun (congrArg Kernel.interest taken.takes.kernel) _

/-- An accepted client is registered for reading. -/
theorem fresh_begun (begun : Begun s c s') (idle : (s'.conn c).iThrowsendCount = 0)
    (events : (s'.conn c).events = epollin ||| epollrdhup)
    (registration : s'.interest (s'.conn c).fd = some (epollin ||| epollrdhup, c)) :
    Fresh s s' c := by
  refine ⟨?_, idle, events, registration⟩
  rw [begun.use, Function.update_self]
  exact Nat.lt_succ_self _

theorem Admits.leaves {connfd : Fd} (h : Admits s connfd env s') (inv : s.Inv) (hfd : 0 ≤ connfd)
    (hclosed : s.openFds connfd = false) : Leaves s s' := by
  cases h with
  | refused => exact .refl s
  | opened taken room timer =>
      rename_i t w c
      have hbegun := begun_registered (epollin ||| epollrdhup) env.now inv hfd
        taken.takes
      obtain ⟨hqueue, hqueued, hwire⟩ := taken.sending
      refine ⟨?_, ?_, ?_, fun d hopen => ?_⟩
      · rcases timer with ⟨-, rfl⟩ | ⟨-, rfl⟩ <;> exact hqueue
      · rcases timer with ⟨-, rfl⟩ | ⟨-, rfl⟩ <;> exact hqueued
      · rcases timer with ⟨-, rfl⟩ | ⟨-, rfl⟩ <;> exact hwire
      by_cases hd : d = c
      · subst hd
        right
        rcases timer with ⟨-, rfl⟩ | ⟨-, rfl⟩
        · refine fresh_begun { hbegun with } ?_ ?_ ?_ <;> simp [registered, prepared, getOneToUse]
        · refine fresh_begun { hbegun.addToTimerQueue env.later with } ?_ ?_ ?_ <;>
            simp [addToTimerQueue, registered, prepared, getOneToUse]
      · left
        rcases timer with ⟨-, rfl⟩ | ⟨-, rfl⟩
        · exact same_begun inv taken { hbegun with }
            (fun fd hne => by simp [registered, hne]) hd hopen
        · exact same_begun inv taken { hbegun.addToTimerQueue env.later with }
            (fun fd hne => by simp [addToTimerQueue, registered, hne]) hd hopen
  | rejected taken =>
      rename_i t c
      obtain ⟨hqueue, hqueued, hwire⟩ := taken.sending
      refine ⟨hqueue, hqueued, hwire, fun d hopen => ?_⟩
      have hd : d ≠ c := by
        rintro rfl
        exact hopen.2 (by simp [State.rejected])
      refine .inl (same_begun inv taken (begun_rejected _ _ inv hclosed taken.takes)
        (fun fd hne => ?_) hd hopen)
      simp [State.rejected, prepared, getOneToUse, closeFd, hne]

theorem acceptLoop_leaves {standby : ConnId} {answers : List AcceptAnswer} (inv : s.Inv)
    (h : s.acceptLoop standby env answers = some s') : Leaves s s' := by
  obtain ⟨useAccept4, hcases⟩ := acceptLoop_cases inv h
  rcases hcases with rfl | ⟨connfd, hfd, hclosed, hadmits⟩
  · exact .of_same rfl rfl rfl fun d _ => .of_conn rfl rfl rfl
  · have hquiet : Quiet s { s with useAccept4 } :=
      quiet_of_view rfl rfl rfl rfl rfl rfl rfl rfl rfl rfl
    exact (hadmits.leaves (hquiet.toNeutral.inv inv) hfd hclosed).of_eq rfl rfl rfl rfl

/-- The `EPOLLIN` part of an event. -/
theorem handleIn_leaves {events : Mask} (inv : s.Inv) (ok : s.EventOk (c, events))
    (h : s.handleIn c events env = some s') : Leaves s s' := by
  cases handleIn_cases inv ok h with
  | reads _ hused hread => exact (readable_frame (inv.idle_of_used hused) hread).leaves inv hused
  | accepts _ _ haccept => exact acceptLoop_leaves inv haccept
  | skips => exact .refl s

/-- A pass of the recycle thread has nothing to do with registrations and sending. -/
def Bystands (s s' : State) : Prop :=
  s'.toKernel = s.toKernel ∧ s'.toSendQueue = s.toSendQueue ∧ s'.history = s.history

theorem recyConnThreadFunc_bystands {times : List Time}
    (h : s.recyConnThreadFunc times = some s') : Bystands s s' := by
  obtain ⟨t, recyThread, hrecycles, rfl⟩ := recyConnThreadFunc_recycles h
  clear h
  show Bystands s t
  induction hrecycles with
  | refl => exact ⟨rfl, rfl, rfl⟩
  | tail _ hentry ih =>
      cases hentry with
      | entry => exact ih

/-- No object that the recycle thread returns is open. -/
theorem recyConnThreadFunc_leaves {times : List Time} (inv : s.Inv)
    (h : s.recyConnThreadFunc times = some s') : Leaves s s' := by
  have hreturns := recyConnThreadFunc_returns h
  obtain ⟨hkernel, hqueue, hhistory⟩ := recyConnThreadFunc_bystands h
  refine .of_same hqueue (by rw [hhistory]) (by rw [hhistory]) fun c hopen => ?_
  have hold : s.Open c := by
    rwa [Open, Used, hreturns.use, (hreturns.kept c).2.2] at hopen
  have hdue : c ∉ s.returned times := fun hmem =>
    (inv.idle hold.1 hold.2).2 (mem_recyList_of_returned hmem)
  exact .of_conn (by rw [hhistory]) (hreturns.other c hdue) (by rw [hkernel])

theorem leaves_setTimer {queue : TimerQueue} {timer : TimerPc} :
    Leaves s (s.setTimer queue timer) := .of_same rfl rfl rfl fun _ _ => .of_conn rfl rfl rfl

theorem timerBegin_leaves {curTime : Time} (h : s.timerBegin curTime = some s') : Leaves s s' := by
  rcases (timerBegin_cases h).2 with rfl | ⟨queue, due, -, rfl⟩
  · exact .refl s'
  · exact leaves_setTimer

/-- The timer thread marks a connection and changes its queue. -/
theorem timeCheckingProc_leaves (h : s.timeCheckingProc = some s') : Leaves s s' := by
  cases timeCheckingProc_cases h with
  | finished | outdated | heard => exact leaves_setTimer
  | @silent head =>
      refine .of_same rfl rfl rfl fun c _ => ?_
      by_cases hc : c = head.lpCurconn <;> constructor <;> simp [hc]

theorem timeOutDelete_leaves (h : s.timeOutDelete = some s') : Leaves s s' := by
  obtain ⟨head, due, curTime, -, rfl⟩ := timeOutDelete_cases h
  exact leaves_setTimer

theorem closeAcceptedConnection_leaves {istimeoutClose : Bool} (inv : s.Inv) (used : s.Used c)
    (h : s.closeAcceptedConnection c istimeoutClose env = some s') : Leaves s s' :=
  (closeAcceptedConnection_frame (inv.idle_of_used used) h).leaves inv used

theorem timeOutClose_leaves (inv : s.Inv) (h : s.timeOutClose env = some s') : Leaves s s' := by
  obtain ⟨head, due, curTime, t, -, hused, hclose, rfl⟩ := timeOutClose_cases inv h
  have hleaves := closeAcceptedConnection_leaves inv hused hclose
  refine ⟨hleaves.queue, hleaves.queued, hleaves.wire, fun c hopen => ?_⟩
  rcases hleaves.each c hopen with ⟨hold, hsame⟩ | hfresh
  · exact .inl ⟨hold, { hsame with }⟩
  · exact .inr { hfresh with }

/-- A peer is gone: its connection is closed, unless the timer thread has marked it. -/
theorem hangup_leaves (inv : s.Inv) (used : s.Used c)
    (unmarked : s.Open c → (s.conn c).istimeout = false)
    (h : (s.hangup c).closeAcceptedConnection c false env = some s') : Leaves s s' := by
  have hneutral : Neutral s (s.hangup c) := neutral_hangup
  have hinv := hneutral.inv inv
  have hused := hneutral.used_iff.mpr used
  have hother : ∀ d, d ≠ c → Same s (s.hangup c) d := fun d hd =>
    .of_conn rfl (by simp [hangup, hd]) rfl
  rcases closeAcceptedConnection_cases (hinv.idle hused) h with ⟨rfl, hgone⟩ | ⟨hopened, rfl⟩
  · refine .of_same rfl rfl rfl fun d hopen => hother d ?_
    rintro rfl
    have hfd : ((s.hangup d).conn d).fd = (s.conn d).fd := (link_eq (hneutral.link d)).1
    rcases hgone with hgone | ⟨-, hgone⟩
    · exact hopen.2 hgone
    · have hmark := unmarked ⟨used, hfd ▸ hopen.2⟩
      simp [hangup, hmark] at hgone
  · refine .of_same rfl rfl rfl fun d hopen => ?_
    obtain ⟨hd, hsame⟩ := same_afterClose hinv hused hopened hopen
    exact (hother d hd).trans hsame

/-- A step of the loop leaves the connections alone, or it ends with the `EPOLLOUT` part
of an event. -/
theorem loopStep_leaves {action : LoopAction} (inv : s.Inv) (h : s.loopStep action = some s') :
    Leaves s s' ∨ ∃ env c events rest t, action = .handleEvent env ∧
      s.events = (c, events) :: rest ∧
      ({ s with events := rest } : State).handleIn c events env = some t ∧
      events.has epollout ∧ t.handleOut c events env = some s' := by
  cases action with
  | epollWait events =>
      obtain ⟨reported, -, rfl⟩ := epollWait_reports h
      exact .inl (.of_same rfl rfl rfl fun _ _ => .of_conn rfl rfl rfl)
  | handleEvent env =>
      obtain ⟨c, events, rest, t, hevent⟩ := handleEvent_cases inv h
      by_cases hhas : events.has epollout
      · exact .inr ⟨env, c, events, rest, t, rfl, hevent.batch, hevent.inward, hhas,
          hevent.outward⟩
      · have hout := hevent.outward
        simp only [handleOut, if_neg hhas] at hout
        obtain rfl := Option.some.inj hout
        have hleaves := handleIn_leaves hevent.taken.inv hevent.ok hevent.inward
        exact .inl (hleaves.of_eq rfl rfl rfl rfl)
  | timerBegin curTime => exact .inl (timerBegin_leaves h)
  | timerCheck => exact .inl (timeCheckingProc_leaves h)
  | timerDelete => exact .inl (timeOutDelete_leaves h)
  | timerClose env => exact .inl (timeOutClose_leaves inv h)
  | recycle times => exact .inl (recyConnThreadFunc_leaves inv h)
  | shutdown =>
      obtain rfl := Option.some.inj h
      exact .inl (.of_same rfl rfl rfl fun _ _ => .of_conn rfl rfl rfl)

/-- An open connection is registered for the mask in its `events`. -/
def Enrolled (s : State) (c : ConnId) : Prop :=
  s.interest (s.conn c).fd = some ((s.conn c).events, c)

/-- `c` is registered for the mask `m` instead. -/
structure Remasks (s : State) (c : ConnId) (m : Mask) (s' : State) : Prop where
  events : (s'.conn c).events = m
  interest : s'.interest = Function.update s.interest (s.conn c).fd (some (m, c))

/-- The registrations of `s` and `s'` are the same. -/
structure KeepsMask (s : State) (c : ConnId) (s' : State) : Prop where
  fd : (s'.conn c).fd = (s.conn c).fd
  events : (s'.conn c).events = (s.conn c).events
  interest : s'.interest = s.interest

theorem KeepsMask.refl (s : State) (c : ConnId) : KeepsMask s c s := ⟨rfl, rfl, rfl⟩

theorem KeepsMask.trans (h : KeepsMask s c t) (h' : KeepsMask t c s') : KeepsMask s c s' :=
  ⟨h'.fd.trans h.fd, h'.events.trans h.events, h'.interest.trans h.interest⟩

theorem keepsMask_modifyConn {f : Connection → Connection}
    (hf : ∀ conn, (f conn).fd = conn.fd ∧ (f conn).events = conn.events) :
    KeepsMask s c (s.modifyConn c f) :=
  ⟨by simp [hf], by simp [hf], rfl⟩

theorem KeepsMask.modify (h : KeepsMask s c t) {f : Connection → Connection}
    (hf : ∀ conn, (f conn).fd = conn.fd ∧ (f conn).events = conn.events) :
    KeepsMask s c (t.modifyConn c f) := h.trans (keepsMask_modifyConn hf)

theorem KeepsMask.remasks {m : Mask} (h : KeepsMask s c t) (h' : Remasks t c m s') :
    Remasks s c m s' :=
  ⟨h'.events, by rw [h'.interest, h.interest, h.fd]⟩

theorem Remasks.keeps {m : Mask} (h : Remasks s c m t) (h' : KeepsMask t c s') :
    Remasks s c m s' :=
  ⟨h'.events.trans h.events, h'.interest.trans h.interest⟩

/-- `epoll_ctl` succeeds on a connection that is open and registered. -/
theorem epollMod_remasks (enrolled : s.Enrolled c) (hopen : s.openFds (s.conn c).fd = true)
    (m : Mask) (k : Int) :
    Remasks s c (operMask (s.conn c).events .mod m k)
      (s.epollOperEvent (s.conn c).fd .mod m k c true).1 := by
  rw [Enrolled] at enrolled
  constructor <;> simp [epollOperEvent, epollCtl, hopen, enrolled]

theorem KeepsMask.epollMod (h : KeepsMask s c t) (enrolled : s.Enrolled c)
    (openFds : t.openFds = s.openFds) (hopen : s.openFds (s.conn c).fd = true)
    (m : Mask) (k : Int) :
    Remasks s c (operMask (s.conn c).events .mod m k)
      (t.epollOperEvent (t.conn c).fd .mod m k c true).1 := by
  have henrolled : t.Enrolled c := by
    rwa [Enrolled, h.interest, h.fd, h.events]
  have hfd : t.openFds (t.conn c).fd = true := by
    rwa [openFds, h.fd]
  rw [← h.events]
  exact h.remasks (epollMod_remasks henrolled hfd m k)

theorem conn_epollOperEvent {fd : Fd} {op : EpollOp} {m : Mask} {k : Int} {ok : Bool} :
    ((s.epollOperEvent fd op m k c ok).1.conn d).toOutgoing = (s.conn d).toOutgoing := by
  have hmodify : ∀ m', ((s.modifyConn c fun conn => { conn with events := m' }).conn d).toOutgoing =
      (s.conn d).toOutgoing := by
    intro m'
    by_cases hd : d = c <;> simp [hd]
  simp only [epollOperEvent]
  split
  next u hctl =>
    rw [(epollCtl_send hctl).2.1]
    split
    · rfl
    · exact hmodify _
  next =>
    split
    · rfl
    · exact hmodify _

theorem sendproc_keepsMask {buf : Option SendBuf} {len : Nat} {answers : List SendAnswer}
    {r : Option Nat} (h : s.sendproc c buf len answers = some (s', r)) :
    KeepsMask s c s' ∧ s'.conn = s.conn ∧ s'.openFds = s.openFds ∧
      ∀ n, r = some n → s.openFds (s.conn c).fd = true := by
  induction answers with
  | nil => cases h
  | cons answer answers ih =>
      simp only [sendproc] at h
      split at h
      next hopen =>
        split at h
        · obtain ⟨p, -, h⟩ := Option.bind_eq_some_iff.mp h
          split at h
          · obtain ⟨rfl, -⟩ := Prod.mk.inj (Option.some.inj h)
            exact ⟨⟨rfl, rfl, rfl⟩, rfl, rfl, fun _ _ => hopen⟩
          · cases h
        · obtain ⟨rfl, -⟩ := Prod.mk.inj (Option.some.inj h)
          exact ⟨.refl s c, rfl, rfl, fun _ _ => hopen⟩
        · exact ih h
        · obtain ⟨rfl, -⟩ := Prod.mk.inj (Option.some.inj h)
          exact ⟨.refl s c, rfl, rfl, fun _ _ => hopen⟩
        · obtain ⟨rfl, -⟩ := Prod.mk.inj (Option.some.inj h)
          exact ⟨.refl s c, rfl, rfl, fun _ _ => hopen⟩
      · obtain ⟨rfl, rfl⟩ := Prod.mk.inj (Option.some.inj h)
        exact ⟨.refl s c, rfl, rfl, by simp⟩

theorem keepsMask_finishWritable : KeepsMask s c (s.finishWritable c) := by
  constructor <;> simp [finishWritable, clearSend]

/-- The `EPOLLOUT` handler takes `EPOLLOUT` away when the reply is finished. -/
theorem writable_mask (ctl : env.ctl = true)
    (enrolled : s.openFds (s.conn c).fd = true → s.Enrolled c)
    (h : s.eventWritableRequestHandler c env = some s') :
    KeepsMask s c s' ∧
        ((s'.conn c).iThrowsendCount = (s.conn c).iThrowsendCount ∨ s.Fails c env) ∨
      s.openFds (s.conn c).fd = true ∧ Remasks s c ((s.conn c).events &&& ~~~epollout) s' ∧
        (s'.conn c).iThrowsendCount = 0 := by
  simp only [eventWritableRequestHandler] at h
  split at h
  · cases h
  next t hproc =>
    obtain rfl := Option.some.inj h
    refine .inl ⟨(sendproc_keepsMask hproc).1.trans keepsMask_finishWritable, .inr ?_⟩
    rcases sendproc_sends hproc with ⟨n, -, hr, -⟩ | ⟨-, -, hfails⟩
    · cases hr
    · exact hfails
  next t n hproc =>
    obtain ⟨hkeeps, hconn, hfds, hopen⟩ := sendproc_keepsMask hproc
    have hopen := hopen n rfl
    split at h
    · obtain rfl := Option.some.inj h
      refine .inl ⟨hkeeps.trans (keepsMask_modifyConn fun _ => ⟨rfl, rfl⟩), .inl ?_⟩
      simp [hconn]
    · have hcount : KeepsMask s c (t.modifyConn c fun conn =>
          { conn with sendlenAlready := conn.sendlenAlready + n }) :=
        hkeeps.trans (keepsMask_modifyConn fun _ => ⟨rfl, rfl⟩)
      split at h
      · obtain rfl := Option.some.inj h
        refine .inl ⟨hcount, .inl ?_⟩
        simp [hconn]
      · obtain rfl := Option.some.inj h
        have hmask := hcount.epollMod (enrolled hopen) hfds hopen epollout 1
        rw [ctl]
        exact .inr ⟨hopen, hmask.keeps keepsMask_finishWritable, by simp [finishWritable]⟩

/-- The send thread adds `EPOLLOUT` when it could not send all of a reply. -/
theorem sendEntry_mask (ctl : env.ctl = true) {i : Nat} {reply : Reply}
    (hreply : s.sendMsgList[i]? = some reply) (hc : reply.head.lpCurconn = c)
    (enrolled : s.openFds (s.conn c).fd = true → s.Enrolled c) {next : SendNext}
    (h : s.sendEntry i env = some (s', next)) :
    KeepsMask s c s' ∧ ((s'.conn c).iThrowsendCount = (s.conn c).iThrowsendCount ∨
        (s'.conn c).iThrowsendCount = 0) ∨
      s.openFds (s.conn c).fd = true ∧ Remasks s c ((s.conn c).events ||| epollout) s' ∧
        (s'.conn c).iThrowsendCount = (s.conn c).iThrowsendCount + 1 := by
  simp only [sendEntry, hreply, Option.bind_some, hc] at h
  split at h
  · obtain ⟨rfl, rfl⟩ := Prod.mk.inj (Option.some.inj h)
    refine .inl ⟨?_, .inl ?_⟩
    · constructor <;> simp [clearSend]
    · simp [clearSend]
  split at h
  · obtain ⟨rfl, rfl⟩ := Prod.mk.inj (Option.some.inj h)
    exact .inl ⟨.refl s c, .inl rfl⟩
  have hbegin : KeepsMask s c (s.beginSend i reply) := by
    constructor <;> simp [beginSend, hc]
  have hcount : ((s.beginSend i reply).conn c).iThrowsendCount = (s.conn c).iThrowsendCount := by
    simp [beginSend, hc]
  have hfds : (s.beginSend i reply).openFds = s.openFds := rfl
  split at h
  · cases h
  next t hproc =>
    obtain ⟨rfl, rfl⟩ := Prod.mk.inj (Option.some.inj h)
    refine .inl ⟨(hbegin.trans (sendproc_keepsMask hproc).1).trans ?_, .inr ?_⟩
    · constructor <;> simp [clearSend]
    · simp
  next t n hproc =>
    obtain ⟨hkeeps, hconn, hsame, hopen⟩ := sendproc_keepsMask hproc
    have hopen := hopen n rfl
    rw [hfds, hbegin.fd] at hopen
    have hsent := hbegin.trans hkeeps
    split at h
    · obtain ⟨rfl, rfl⟩ := Prod.mk.inj (Option.some.inj h)
      have hpart : KeepsMask s c (t.modifyConn c fun conn =>
          { conn with
            iThrowsendCount := conn.iThrowsendCount + 1
            pSendbuf := conn.pSendbuf.map (·.add n)
            sendlen := conn.sendlen - n
            sendlenAlready := conn.sendlenAlready + n }) :=
        hsent.trans (keepsMask_modifyConn fun _ => ⟨rfl, rfl⟩)
      have hmask := hpart.epollMod (enrolled hopen) hsame hopen epollout 0
      rw [ctl]
      refine .inr ⟨hopen, hmask, ?_⟩
      rw [congrArg Outgoing.iThrowsendCount conn_epollOperEvent]
      simp [hconn, hcount]
    · have hall : KeepsMask s c (t.modifyConn c fun conn =>
          { conn with sendlenAlready := conn.sendlenAlready + n }) :=
        hsent.trans (keepsMask_modifyConn fun _ => ⟨rfl, rfl⟩)
      split at h
      · obtain ⟨rfl, rfl⟩ := Prod.mk.inj (Option.some.inj h)
        refine .inl ⟨hall, .inl ?_⟩
        simp [hconn, hcount]
      · obtain ⟨rfl, rfl⟩ := Prod.mk.inj (Option.some.inj h)
        refine .inl ⟨hall.trans ?_, .inr ?_⟩
        · constructor <;> simp [clearSend]
        · simp

end State

end MyNginx
