import MyNginx.Receive.Framing
import MyNginx.Server.Close

/-!
# Accepting connections

A successful `accept` takes an object out of the pool and begins a use of it. The
use stays open, or it ends at once when the registration with epoll fails; both
are steps of the object pool.
-/

namespace MyNginx

open Foundation

namespace State

variable {s s' t : State} {c d : ConnId} {env : Env} {connfd : Fd}

/-- A use of the object `c` began between `s` and `s'`; `fd` of the object is -1
again when it has already ended. -/
structure Begun (s : State) (c : ConnId) (s' : State) : Prop where
  conf : s'.conf = s.conf
  sockets : s'.listenSocketList = s.listenSocketList
  events : s'.events = s.events
  queue : s'.msgqueue = s.msgqueue
  replies : s'.sendMsgList = s.sendMsgList
  timer : s'.timer = s.timer
  other : ∀ d, d ≠ c → s'.conn d = s.conn d
  sequence : s.Used c → (s.conn c).sequence < (s'.conn c).sequence
  ready : (s'.conn c).inrecyList = 0 ∧ (s'.conn c).rhandler = some .readable ∧
    (s'.conn c).whandler = some .writable
  use : s'.history.use = Function.update s.history.use c (s.history.use c + 1)
  objects : ∀ d, d ∈ s'.connectionList ↔ d = c ∨ d ∈ s.connectionList
  interest : ∀ fd m d, s'.interest fd = some (m, d) →
    s.interest fd = some (m, d) ∨ d = c ∧ (s'.conn c).fd = fd ∧ s'.openFds fd = true
  openFds : ∀ fd, s'.openFds fd = true ↔
    s.openFds fd = true ∨ fd = (s'.conn c).fd ∧ 0 ≤ fd
  handle : (s'.conn c).fd ≠ -1 → 0 ≤ (s'.conn c).fd
  blocks : ∀ b msg, s'.messages.get b = some msg → s.messages.get b = some msg
  timermap : ∀ entry ∈ s'.timermap, entry ∈ s.timermap ∨ entry.2.lpCurconn = c

namespace Begun

theorem use_ne (h : Begun s c s') (hd : d ≠ c) : s'.history.use d = s.history.use d := by
  rw [h.use, Function.update_of_ne hd]

theorem used (h : Begun s c s') : s'.Used c := by
  rw [Used, h.use, Function.update_self]
  omega

theorem use_le (h : Begun s c s') (d : ConnId) : s.history.use d ≤ s'.history.use d := by
  by_cases hd : d = c
  · rw [hd, h.use, Function.update_self]
    omega
  · exact Nat.le_of_eq (h.use_ne hd).symm

theorem aged (h : Begun s c s') : Aged s s' := by
  intro d
  refine ⟨h.use_le d, fun hused => ?_⟩
  by_cases hd : d = c
  · subst hd
    exact .inr (h.sequence hused)
  · exact .inl ⟨by rw [h.other d hd], h.use_ne hd⟩

theorem timers (h : Begun s c s') (timers : s.TimerHeads) : s'.TimerHeads := by
  have hmono : ∀ d, s.Used d → s'.Used d := fun d hd => Nat.lt_of_lt_of_le hd (h.use_le d)
  refine ⟨fun entry hentry => ?_, fun head hhead => ?_⟩
  · rcases h.timermap entry hentry with hold | hnew
    · exact hmono _ (timers.1 entry hold)
    · rw [hnew]
      exact h.used
  · rw [h.timer] at hhead
    exact hmono _ (timers.2 head hhead)

/-- The object did not take part in the wiring before. -/
theorem wired (h : Begun s c s') (wired : s.Wired) (standby : c ∉ s.standbys)
    (idle : c ∈ s.connectionList → (s.conn c).fd = -1) : s'.Wired where
  interest fd m d hm := by
    rcases h.interest fd m d hm with hold | ⟨rfl, hfd, -⟩
    · obtain ⟨hfd, hobject, hkind⟩ := wired.interest fd m d hold
      have hopen : s.openFds fd = true := wired.registered fd (by simp [hold])
      have hdc : d ≠ c := by
        rintro rfl
        have hnonneg := wired.nonneg fd hopen
        rw [← hfd, idle hobject] at hnonneg
        exact absurd hnonneg (by decide)
      refine ⟨by rw [h.other d hdc]; exact hfd, (h.objects d).mpr (.inr hobject), ?_⟩
      rw [Used, h.use_ne hdc, standbys, h.sockets]
      exact hkind
    · exact ⟨hfd, (h.objects d).mpr (.inl rfl), .inl h.used⟩
  events event hevent := by
    rw [h.events] at hevent
    rcases wired.events event hevent with hused | hstandby
    · exact .inl (Nat.lt_of_lt_of_le hused (h.use_le _))
    · rw [EventOk, standbys, h.sockets]
      exact .inr hstandby
  sockets pos hpos := by
    rw [h.sockets] at hpos
    obtain ⟨d, hd, hfd⟩ := wired.sockets pos hpos
    have hdc : d ≠ c := by
      rintro rfl
      exact standby (List.mem_filterMap.mpr ⟨pos, hpos, hd⟩)
    exact ⟨d, hd, by rw [h.other d hdc]; exact hfd⟩
  standby d hd := by
    rw [standbys, h.sockets] at hd
    have hdc : d ≠ c := by
      rintro rfl
      exact standby hd
    obtain ⟨hobject, hrest⟩ := wired.standby d hd
    rw [Used, h.use_ne hdc, h.other d hdc]
    exact ⟨(h.objects d).mpr (.inr hobject), hrest⟩
  used d hd := by
    by_cases hdc : d = c
    · subst hdc
      exact ⟨(h.objects d).mpr (.inl rfl), h.ready.2⟩
    · rw [Used, h.use_ne hdc] at hd
      rw [h.other d hdc]
      exact ⟨(h.objects d).mpr (.inr (wired.used d hd).1), (wired.used d hd).2⟩
  idle d hd hopen := by
    by_cases hdc : d = c
    · subst hdc
      exact h.ready.1
    · rw [Used, h.use_ne hdc] at hd
      rw [h.other d hdc] at hopen ⊢
      exact wired.idle d hd hopen
  opened d hd hopen := by
    by_cases hdc : d = c
    · subst hdc
      exact (h.openFds _).mpr (.inr ⟨rfl, h.handle hopen⟩)
    · rw [h.other d hdc] at hopen ⊢
      have hobject := ((h.objects d).mp hd).resolve_left hdc
      exact (h.openFds _).mpr (.inl (wired.opened d hobject hopen))
  registered fd hreg := by
    obtain ⟨⟨m, d⟩, hm⟩ := Option.ne_none_iff_exists'.mp hreg
    rcases h.interest fd m d hm with hold | ⟨-, -, hopen⟩
    · exact (h.openFds fd).mpr (.inl (wired.registered fd (by simp [hold])))
    · exact hopen
  nonneg fd hopen := by
    rcases (h.openFds fd).mp hopen with hold | ⟨-, hnonneg⟩
    · exact wired.nonneg fd hold
    · exact hnonneg

theorem evolves (h : Begun s c s') (inv : s.Inv) (standby : c ∉ s.standbys)
    (idle : c ∈ s.connectionList → (s.conn c).fd = -1)
    (step : ObjectPool.Step s.conf.workerConnections s.view s'.view) : Evolves s s' where
  inv := {
    pool := by
      rw [h.conf]
      exact step.inv inv.pool
    wired := h.wired inv.wired standby idle
    flight := inv.flight.aged h.aged h.blocks h.queue h.replies
    timers := h.timers inv.timers }
  steps := .single step
  conf := h.conf
  aged := h.aged
  sockets := h.sockets

end Begun

/-- What taking an object out of the pool leaves as it was. -/
structure Takes (s : State) (c : ConnId) (t : State) : Prop where
  taken : s.view.Taken c t.view
  other : ∀ d, d ≠ c → t.conn d = s.conn d
  sequence : s.Used c → c ∈ s.connectionList → (t.conn c).sequence = (s.conn c).sequence
  sendbuf : (t.conn c).pSendbuf = none ∨
    c ∈ s.freeConnectionList ∧ (t.conn c).pSendbuf = (s.conn c).pSendbuf
  suppose : (t.conn c).sendlenSuppose = (s.conn c).sendlenSuppose
  blocks : t.toBlocks = s.toBlocks
  listenSocketList : t.listenSocketList = s.listenSocketList
  queue : t.toReceiveQueue = s.toReceiveQueue
  replies : t.toSendQueue = s.toSendQueue
  timers : t.toTimerQueue = s.toTimerQueue
  kernel : t.toKernel = s.toKernel
  conf : t.conf = s.conf
  history : t.history = s.history

theorem getConnectionItem_takes (numbered : s.connectionList = List.range s.connectionList.length)
    (h : s.getConnectionItem = (t, c)) : Takes s c t := by
  simp only [getConnectionItem] at h
  split at h
  next first rest hfree =>
    obtain ⟨rfl, rfl⟩ := Prod.mk.inj h
    exact ⟨.reuse hfree, fun _ _ => rfl, fun _ _ => rfl, .inr ⟨by simp [hfree], rfl⟩, rfl, rfl,
      rfl, rfl, rfl, rfl, rfl, rfl, rfl⟩
  next hfree =>
    obtain ⟨rfl, rfl⟩ := Prod.mk.inj h
    refine ⟨?_, fun d hd => by simp [hd], fun _ hmem => ?_, .inl (by simp), by simp, rfl, rfl,
      rfl, rfl, rfl, rfl, rfl, rfl⟩
    · have hhandle : State.handle { s.newConnection with
          totalConnectionCount := s.totalConnectionCount + 1 } =
          Function.update s.handle s.connectionList.length none := by
        funext d
        by_cases hd : d = s.connectionList.length <;> simp [handle, hd]
      have hcreate := ObjectPool.Taken.create (p := s.view) hfree
      simp only [view, hhandle] at hcreate ⊢
      exact hcreate
    · rw [numbered] at hmem
      simp at hmem

/-- `EPOLL_CTL_ADD` registers a descriptor nobody has registered, or fails. -/
theorem epollAdd_cases {fd : Fd} {m : Mask} {ok : Bool} {r : Int}
    (h : s.epollOperEvent fd .add m 0 c ok = (t, r)) :
    (r = 0 ∧ s.openFds fd = true ∧ s.interest fd = none ∧
      t = { s.modifyConn c fun conn => { conn with events := m } with
        interest := Function.update s.interest fd (some (m, c)) }) ∨
    (r = -1 ∧ t = s.modifyConn c fun conn => { conn with events := m }) := by
  simp only [epollOperEvent, operMask, reduceCtorEq, if_false] at h
  split at h
  next u hctl =>
    obtain ⟨rfl, rfl⟩ := Prod.mk.inj h
    simp only [epollCtl] at hctl
    split at hctl
    next hok =>
      obtain rfl := Option.some.inj hctl
      simp only [Bool.and_eq_true, modifyConn_toKernel] at hok
      obtain ⟨⟨-, hopen⟩, hregistered⟩ := hok
      exact .inl ⟨rfl, hopen, by simpa using hregistered, rfl⟩
    next => cases hctl
  next =>
    obtain ⟨rfl, rfl⟩ := Prod.mk.inj h
    exact .inr ⟨rfl, rfl⟩

/-- The kernel hands out a descriptor. -/
@[simps toBlocks toPool toSendQueue toTimerQueue toReceiveQueue conf conn history]
def openFd (s : State) (fd : Fd) : State :=
  { s with openFds := Function.update s.openFds fd true }

/-- A taken object with the settings of `event_accept_handler` behind `GetOneToUse`. -/
def prepared (t : State) (c : ConnId) (connfd : Fd) (m : Mask) (now : Time) : State :=
  ((t.getOneToUse c now).modifyConn c fun conn =>
    { conn with fd := connfd, rhandler := some .readable, whandler := some .writable }).modifyConn c
      fun conn => { conn with events := m }

/-- The same object, registered. -/
def registered (t : State) (c : ConnId) (connfd : Fd) (m : Mask) (now : Time) : State :=
  { t.prepared c connfd m now with
    interest := Function.update t.interest connfd (some (m, c)) }

variable {m : Mask} {now : Time}

theorem begun_registered (m : Mask) (now : Time) (inv : s.Inv) (hfd : 0 ≤ connfd)
    (takes : Takes (s.openFd connfd) c t) : Begun s c (t.registered c connfd m now) := by
  have hother : ∀ d, d ≠ c → (t.registered c connfd m now).conn d = s.conn d := by
    intro d hd
    simpa [registered, prepared, getOneToUse, hd] using takes.other d hd
  refine {
    conf := takes.conf
    sockets := takes.listenSocketList
    events := show t.events = s.events by rw [takes.kernel, openFd]
    queue := congrArg ReceiveQueue.msgqueue takes.queue
    replies := congrArg SendQueue.sendMsgList takes.replies
    timer := congrArg TimerQueue.timer takes.timers
    other := hother
    sequence := fun hused => ?_
    ready := by simp [registered, prepared, getOneToUse]
    use := by simp [registered, prepared, getOneToUse, takes.history]
    objects := fun d => takes.taken.mem_objects inv.pool
    interest := fun fd m' d hm => ?_
    openFds := fun fd => ?_
    handle := fun _ => by simpa [registered, prepared, getOneToUse] using hfd
    blocks := fun b msg hb => ?_
    timermap := fun entry hentry => .inl ?_ }
  · have hseq := takes.sequence hused (inv.wired.used c hused).1
    simp only [openFd_conn] at hseq
    simp [registered, prepared, getOneToUse, hseq]
  · by_cases hne : fd = connfd
    · subst hne
      simp only [registered, Function.update_self, Option.some.injEq, Prod.mk.injEq] at hm
      obtain ⟨-, rfl⟩ := hm
      refine .inr ⟨rfl, by simp [registered, prepared, getOneToUse], ?_⟩
      show t.openFds fd = true
      rw [takes.kernel]
      simp [openFd]
    · refine .inl ?_
      simp only [registered, Function.update_of_ne hne, takes.kernel] at hm
      exact hm
  · show t.openFds fd = true ↔ _
    rw [takes.kernel]
    by_cases hne : fd = connfd
    · subst hne
      simp [openFd, registered, prepared, getOneToUse, hfd]
    · simp [openFd, registered, prepared, getOneToUse, hne]
  · have hb' : t.messages.get b = some msg := get_withoutMsgrecv (s := t.beginUse c now) hb
    rwa [takes.blocks] at hb'
  · have hentry' : entry ∈ t.timermap := hentry
    rwa [takes.timers] at hentry'

theorem view_registered (m : Mask) (now : Time) (t : State) (c : ConnId) (connfd : Fd) (hfd : 0 ≤ connfd) :
    { (t.registered c connfd m now).view with online := t.onlineCount + 1 } =
      t.view.open_ c connfd := by
  have hhandle : (t.registered c connfd m now).handle =
      Function.update t.handle c (some connfd) := by
    funext d
    by_cases hd : d = c
    · have hne : connfd ≠ -1 := fun he => by
        rw [he] at hfd
        exact absurd hfd (by decide)
      simp [handle, registered, prepared, hd, hne]
    · simp [handle, registered, prepared, getOneToUse, hd]
  simp only [view, hhandle, ObjectPool.open_]
  rfl

/-- The timer entry of a new connection. -/
theorem Begun.addToTimerQueue (h : Begun s c t) (curTime : Time) :
    Begun s c (t.addToTimerQueue c curTime) where
  conf := h.conf
  sockets := h.sockets
  events := h.events
  queue := h.queue
  replies := h.replies
  timer := by simpa [State.addToTimerQueue, TimerQueue.addTimer] using h.timer
  other d hd := by simpa [State.addToTimerQueue, hd] using h.other d hd
  sequence hused := by simpa [State.addToTimerQueue] using h.sequence hused
  ready := by simpa [State.addToTimerQueue] using h.ready
  use := h.use
  objects := h.objects
  interest fd m d hm := by simpa [State.addToTimerQueue] using h.interest fd m d hm
  openFds fd := by simpa [State.addToTimerQueue] using h.openFds fd
  handle := by simpa [State.addToTimerQueue] using h.handle
  blocks := h.blocks
  timermap entry hentry := by
    simp only [State.addToTimerQueue, TimerQueue.addTimer, setTimerValue_timermap,
      TimerQueue.mem_insertTimer] at hentry
    rcases hentry with rfl | hold
    · exact .inr rfl
    · exact h.timermap entry hold

theorem view_addToTimerQueue (t : State) (c : ConnId) (curTime : Time) :
    (t.addToTimerQueue c curTime).view = t.view := by
  have hhandle : (t.addToTimerQueue c curTime).handle = t.handle := by
    funext d
    by_cases hd : d = c <;> simp [handle, addToTimerQueue, hd]
  simp only [view, hhandle]
  rfl

/-- What a failed registration leaves: the use ends with its descriptor. -/
def rejected (t : State) (c : ConnId) (connfd : Fd) (m : Mask) (now : Time) : State :=
  (((t.prepared c connfd m now).closeFd connfd).release c).freeConnectionItem c

theorem begun_rejected (m : Mask) (now : Time) (inv : s.Inv) (hclosed : s.openFds connfd = false)
    (takes : Takes (s.openFd connfd) c t) : Begun s c (t.rejected c connfd m now) := by
  refine {
    conf := takes.conf
    sockets := takes.listenSocketList
    events := show t.events = s.events by rw [takes.kernel, openFd]
    queue := congrArg ReceiveQueue.msgqueue takes.queue
    replies := congrArg SendQueue.sendMsgList takes.replies
    timer := congrArg TimerQueue.timer takes.timers
    other := fun d hd => ?_
    sequence := fun hused => ?_
    ready := by simp [rejected, prepared, getOneToUse]
    use := by simp [rejected, prepared, getOneToUse, takes.history]
    objects := fun d => takes.taken.mem_objects inv.pool
    interest := fun fd m' d hm => .inl ?_
    openFds := fun fd => ?_
    handle := fun hne => ?_
    blocks := fun b msg hb => ?_
    timermap := fun entry hentry => .inl ?_ }
  · simpa [rejected, prepared, getOneToUse, hd] using takes.other d hd
  · have hseq := takes.sequence hused (inv.wired.used c hused).1
    simp only [openFd_conn] at hseq
    have hnow : ((t.rejected c connfd m now).conn c).sequence = (t.conn c).sequence + 2 := by
      simp [rejected, prepared, getOneToUse]
    rw [hnow]
    omega
  · by_cases hne : fd = connfd
    · simp [rejected, hne] at hm
    · simpa [rejected, prepared, getOneToUse, hne, takes.kernel, openFd] using hm
  · by_cases hne : fd = connfd
    · subst hne
      have hfd : fd = -1 → ¬ 0 ≤ fd := by
        rintro rfl
        decide
      simpa [rejected, prepared, hclosed] using hfd
    · have hfd : fd = -1 → ¬ 0 ≤ fd := by
        rintro rfl
        decide
      simpa [rejected, prepared, getOneToUse, hne, takes.kernel, openFd] using
        fun he hle => absurd hle (hfd he)
  · simp [rejected] at hne
  · have hb' : t.messages.get b = some msg := get_withoutMsgrecv (s := t.beginUse c now) hb
    rwa [takes.blocks] at hb'
  · have hentry' : entry ∈ t.timermap := hentry
    rwa [takes.timers] at hentry'

theorem view_rejected (t : State) (c : ConnId) (connfd : Fd) :
    (t.rejected c connfd m now).view = t.view.refuse c := by
  have hhandle : (t.rejected c connfd m now).handle = Function.update t.handle c none := by
    funext d
    by_cases hd : d = c <;> simp [handle, rejected, prepared, getOneToUse, hd]
  simp only [view, hhandle, ObjectPool.refuse, standbys]
  simp only [rejected, prepared, getOneToUse, modifyConn_history, release_history,
    putToStateMach_history, beginUse_history, freeConnectionItem_history, closeFd_history,
    Function.update_self]
  rfl

/-- Closing a descriptor that was handed out for nothing. -/
theorem closeFd_openFd (inv : s.Inv) (hclosed : s.openFds connfd = false) :
    (s.openFd connfd).closeFd connfd = s := by
  have hinterest : s.interest connfd = none := by
    by_contra hreg
    rw [inv.wired.registered connfd hreg] at hclosed
    cases hclosed
  have hfds : Function.update (Function.update s.openFds connfd true) connfd false = s.openFds := by
    rw [Function.update_idem, ← hclosed, Function.update_eq_self]
  have hreg : Function.update s.interest connfd none = s.interest := by
    rw [← hinterest, Function.update_eq_self]
  simp only [closeFd, openFd, hfds, hreg]

/-- What is known of an object taken for a descriptor nobody has. -/
structure TakenFor (s : State) (connfd : Fd) (c : ConnId) (t : State) : Prop where
  takes : Takes (s.openFd connfd) c t
  standby : c ∉ s.standbys
  idle : c ∈ s.connectionList → (s.conn c).fd = -1
  fresh : ∀ d ∈ s.view.objects, s.view.handle d ≠ some connfd
  welcome : s.onlineCount < s.conf.workerConnections ∧ s.conf.workerConnections * 5 < 2 ^ 31 ∧
    s.poolExhausted = false

theorem getConnectionItem_takenFor (inv : s.Inv) (hclosed : s.openFds connfd = false)
    (welcome : s.onlineCount < s.conf.workerConnections ∧ s.conf.workerConnections * 5 < 2 ^ 31 ∧
      s.poolExhausted = false)
    (h : (s.openFd connfd).getConnectionItem = (t, c)) : TakenFor s connfd c t := by
  have htakes : Takes (s.openFd connfd) c t := getConnectionItem_takes inv.pool.numbered h
  have htaken : s.view.Taken c t.view := htakes.taken
  refine ⟨htakes, ?_, ?_, ?_, welcome⟩
  · have hreserved := (htaken.handle_none inv.pool).2.2.1
    rwa [htaken.reserved_eq] at hreserved
  · intro hmem
    simpa [view, handle] using htaken.idle inv.pool hmem
  · intro d hd hhandle
    simp only [view, handle, Option.ite_none_left_eq_some, Option.some.injEq] at hhandle
    have hopen := inv.wired.opened d hd hhandle.1
    rw [hhandle.2, hclosed] at hopen
    cases hopen

/-- A registered use stays open. -/
theorem registered_evolves (inv : s.Inv) (hfd : 0 ≤ connfd) (taken : TakenFor s connfd c t)
    (room : s.onlineCount < s.conf.workerConnections) {w : State} (begun : Begun s c w)
    (view : w.view = (t.registered c connfd m now).view) :
    Evolves s { w with onlineCount := w.onlineCount + 1 } := by
  have hbegun : Begun s c { w with onlineCount := w.onlineCount + 1 } := { begun with }
  refine hbegun.evolves inv taken.standby taken.idle ?_
  have hview : State.view { w with onlineCount := w.onlineCount + 1 } = t.view.open_ c connfd := by
    have honline : w.onlineCount = t.onlineCount := congrArg ObjectPool.online view
    rw [← view_registered m now t c connfd hfd, ← view, ← honline]
    rfl
  rw [hview]
  exact .admits taken.takes.taken room taken.fresh

/-- A use whose registration failed ends at once. -/
theorem rejected_evolves (inv : s.Inv) (hclosed : s.openFds connfd = false)
    (taken : TakenFor s connfd c t) : Evolves s (t.rejected c connfd m now) := by
  refine (begun_rejected _ _ inv hclosed taken.takes).evolves inv taken.standby taken.idle ?_
  rw [view_rejected]
  exact .refuse taken.takes.taken

/-- What accepting a descriptor nobody has can come to. -/
inductive Admits (s : State) (connfd : Fd) (env : Env) : State → Prop
  | refused : Admits s connfd env s
  | opened {t w : State} {c : ConnId} (taken : TakenFor s connfd c t)
      (room : s.onlineCount < s.conf.workerConnections)
      (timer : s.conf.timeEnable ≠ 1 ∧
          w = t.registered c connfd (epollin ||| epollrdhup) env.now ∨
        s.conf.timeEnable = 1 ∧
          w = (t.registered c connfd (epollin ||| epollrdhup) env.now).addToTimerQueue c env.later) :
      Admits s connfd env { w with onlineCount := w.onlineCount + 1 }
  | rejected {t : State} {c : ConnId} (taken : TakenFor s connfd c t) :
      Admits s connfd env (t.rejected c connfd (epollin ||| epollrdhup) env.now)

theorem admit_cases (inv : s.Inv) (hclosed : s.openFds connfd = false)
    (h : (s.openFd connfd).acceptClient connfd env = some s') : Admits s connfd env s' := by
  simp only [acceptClient] at h
  split at h
  · rw [closeFd_openFd inv hclosed] at h
    obtain rfl := Option.some.inj h
    exact .refused
  next hroom =>
  split at h
  · cases h
  next hsmall =>
  split at h
  · rw [closeFd_openFd inv hclosed] at h
    obtain rfl := Option.some.inj h
    exact .refused
  next hspare =>
  have hwelcome : s.onlineCount < s.conf.workerConnections ∧
      s.conf.workerConnections * 5 < 2 ^ 31 ∧ s.poolExhausted = false :=
    ⟨Int.not_le.mp hroom, Int.not_le.mp (not_or.mp hsmall).2, (Bool.not_eq_true _).mp hspare⟩
  cases hget : (s.openFd connfd).getConnectionItem with
  | mk t c =>
      have htaken := getConnectionItem_takenFor inv hclosed hwelcome hget
      simp only [hget] at h
      split at h
      · cases h
      cases hctl : ((t.getOneToUse c env.now).modifyConn c fun conn =>
          { conn with
            fd := connfd
            rhandler := some .readable
            whandler := some .writable }).epollOperEvent connfd .add (epollin ||| epollrdhup) 0 c
            env.ctl with
      | mk u r =>
          rw [hctl] at h
          rcases epollAdd_cases hctl with ⟨rfl, -, -, rfl⟩ | ⟨rfl, rfl⟩
          · obtain rfl := Option.some.inj h
            refine .opened htaken (by simpa using hroom) ?_
            split
            next henable => exact .inr ⟨htaken.takes.conf ▸ henable, rfl⟩
            next henable => exact .inl ⟨htaken.takes.conf ▸ henable, rfl⟩
          · simp only [closeConnection] at h
            split at h
            · cases h
            split at h
            · obtain rfl := Option.some.inj h
              have hrejected : Admits s connfd env
                  (t.rejected c connfd (epollin ||| epollrdhup) env.now) := .rejected htaken
              simpa [rejected, prepared] using hrejected
            · cases h

/-- Accepting begins a use that stays open, or ends at once, or changes nothing. -/
theorem Admits.evolves (h : Admits s connfd env s') (inv : s.Inv) (hfd : 0 ≤ connfd)
    (hclosed : s.openFds connfd = false) : Evolves s s' := by
  cases h with
  | refused => exact .refl inv
  | opened taken room timer =>
      have hbegun := begun_registered (epollin ||| epollrdhup) env.now inv hfd
        taken.takes
      rcases timer with ⟨-, rfl⟩ | ⟨-, rfl⟩
      · exact registered_evolves inv hfd taken room hbegun rfl
      · exact registered_evolves inv hfd taken room (hbegun.addToTimerQueue env.later)
          (view_addToTimerQueue _ _ env.later)
  | rejected taken => exact rejected_evolves inv hclosed taken

/-- An accepted connection has an open descriptor and its receive machine at the
beginning. -/
theorem Admits.accepted (h : Admits s connfd env s') (grew : s.onlineCount < s'.onlineCount) :
    ∃ c, s'.Accepted c ∧ (s'.conn c).fd = connfd ∧ s'.history.use c = s.history.use c + 1 := by
  cases h with
  | refused => exact absurd grew (Int.lt_irrefl _)
  | opened taken room timer =>
      rename_i t w c
      have hopen : t.openFds connfd = true := by
        rw [taken.takes.kernel]
        simp [openFd]
      refine ⟨c, ?_⟩
      rcases timer with ⟨-, rfl⟩ | ⟨-, rfl⟩
      · refine ⟨⟨?_, ?_⟩, ?_, ?_⟩ <;>
          simp [registered, prepared, getOneToUse, hopen, taken.takes.history]
      · refine ⟨⟨?_, ?_⟩, ?_, ?_⟩ <;>
          simp [addToTimerQueue, registered, prepared, getOneToUse, hopen, taken.takes.history]
  | rejected taken =>
      have honline : _ = s.onlineCount := taken.takes.taken.online_eq
      exact absurd grew (Int.not_lt.mpr (Int.le_of_eq honline))

end State

end MyNginx
