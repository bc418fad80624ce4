import MyNginx.Receive.Twins
import MyNginx.Server.Regions

/-!
# Twins over whole runs

Every step of the server leads from twins to twins, with the same receive queue: a header
block that one of them has lost is never missed. What looks at the receive machines are
the functions that receive, those that prepare an object for a new connection, and the
passes of the recycle thread; the rest goes past the parts in which twins differ.
-/

namespace MyNginx

open Foundation

namespace State

variable {s s' t : State} {k : Nat} {known : ConnId → Prop} {c d : ConnId} {env : Env}

/-- Twins in which every accepted connection is known. -/
def Twinned (k : Nat) (s t : State) : Prop :=
  ∃ known : ConnId → Prop, (∀ c, s.Used c → known c) ∧ Twins k known s t

/-- The objects that are new begin at the beginning. -/
theorem Twin.twinned {p q : Option State} (rel : Option.Rel (Twins k known) p q)
    (used : ∀ s', p = some s' → ∀ c, s'.Used c → known c ∨ (s'.conn c).curstat = .hdInit) :
    Option.Rel (Twinned k) p q := by
  cases rel with
  | none => exact .none
  | @some s' t' htwin =>
      refine .some ⟨fun c => known c ∨ s'.Used c, fun c h => .inr h, htwin.mono fun c h => ?_⟩
      obtain ⟨hknown | hused, hmid⟩ := h
      · exact ⟨hknown, hmid⟩
      · exact ⟨(used s' rfl c hused).resolve_right hmid, hmid⟩

/-- No object is new. -/
theorem Twin.sameUses {p q : Option State} (rel : Option.Rel (Twins k known) p q)
    (used : ∀ c, s.Used c → known c)
    (use : ∀ s', p = some s' → s'.history.use = s.history.use) : Option.Rel (Twinned k) p q :=
  Twin.twinned rel fun s' hs' c h => .inl (used c (by rwa [Used, use s' hs'] at h))

/-- A function that does not look at the receive machines and begins no use. -/
theorem Twinned.blind {f : State → Option State}
    (blind : ∀ s blocks incoming,
      f (s.withReceiving blocks incoming) = (f s).map (·.withReceiving blocks incoming))
    (twinned : Twinned k s t) (use : ∀ s', f s = some s' → s'.history.use = s.history.use) :
    Option.Rel (Twinned k) (f s) (f t) := by
  obtain ⟨known, hused, htwin⟩ := twinned
  exact Twin.sameUses (htwin.blind blind) hused use

theorem Twinned.blindly {f : State → State}
    (blind : ∀ s blocks incoming,
      f (s.withReceiving blocks incoming) = (f s).withReceiving blocks incoming)
    (twinned : Twinned k s t) (use : (f s).history.use = s.history.use) :
    Twinned k (f s) (f t) := by
  obtain ⟨known, hused, htwin⟩ := twinned
  refine ⟨known, fun c h => hused c ?_, htwin.blindly blind⟩
  rwa [Used, use] at h

/-- What does not look at the receive machines is the same for both. -/
theorem Twinned.same {β : Type} (f : State → β)
    (blind : ∀ s blocks incoming, f (s.withReceiving blocks incoming) = f s)
    (twinned : Twinned k s t) : f t = f s := by
  obtain ⟨known, -, htwin⟩ := twinned
  rw [eq_withReceiving htwin.rest, blind]

/-! ### Objects of the pool -/

theorem unreceived_newConnection (s : State) :
    s.newConnection.unreceived = s.unreceived.newConnection.unreceived := by
  have hconn : s.newConnection.unreceived.conn = s.unreceived.newConnection.unreceived.conn := by
    funext d
    by_cases hd : d = s.connectionList.length
    · subst hd
      simp [unreceived]
    · simp [unreceived, hd]
  exact (show s.newConnection.unreceived =
    { s.unreceived.newConnection.unreceived with conn := s.newConnection.unreceived.conn }
      from rfl).trans (by rw [hconn])

theorem Twin.newConnection (twin : Twins k known s t) :
    Twins k known s.newConnection t.newConnection where
  rest := by rw [unreceived_newConnection, unreceived_newConnection s, twin.rest]
  messages := twin.messages
  memory := twin.memory
  incoming d := by
    have hlist : t.connectionList = s.connectionList := by
      rw [eq_withReceiving twin.rest]
      rfl
    obtain ⟨curstat, pMsgrecv, recvStr, already, own⟩ := twin.incoming d
    by_cases hd : d = s.connectionList.length
    · subst hd
      simp only [newConnection_conn, hlist, Function.update_self]
      exact ⟨curstat, rfl, recvStr, already, own⟩
    · simp only [newConnection_conn, hlist, Function.update_of_ne hd]
      exact ⟨curstat, pMsgrecv, recvStr, already, own⟩

/-- What is left of accepting a connection when its object has been prepared. -/
def register (s : State) (c : ConnId) (connfd : Fd) (env : Env) : Option State :=
  match (s.modifyConn c fun conn =>
      { conn with
        fd := connfd
        rhandler := some .readable
        whandler := some .writable }).epollOperEvent connfd .add (epollin ||| epollrdhup) 0 c
      env.ctl with
  | (s, 0) =>
      let s := if s.conf.timeEnable = 1 then s.addToTimerQueue c env.later else s
      some { s with onlineCount := s.onlineCount + 1 }
  | (s, _) => s.closeConnection c env

theorem withReceiving_register (connfd : Fd) (env : Env) (blocks : Blocks)
    (incoming : ConnId → Incoming) :
    (s.withReceiving blocks incoming).register c connfd env =
      (s.register c connfd env).map (·.withReceiving blocks incoming) := by
  simp (disch := (unfold Skips; intros; rfl)) only [register, withReceiving_modifyConn,
    withReceiving_epollOperEvent]
  cases (s.modifyConn c fun conn =>
      { conn with
        fd := connfd
        rhandler := some .readable
        whandler := some .writable }).epollOperEvent connfd .add (epollin ||| epollrdhup) 0 c
      env.ctl with
  | mk t result =>
      by_cases hzero : result = 0
      · subst hzero
        simp only [withReceiving_conf, withReceiving_addToTimerQueue]
        split <;> rfl
      · simp only
        exact withReceiving_closeConnection

theorem acceptClient_eq (s : State) (connfd : Fd) (env : Env) :
    s.acceptClient connfd env =
      if s.onlineCount ≥ s.conf.workerConnections then some (s.closeFd connfd)
      else if s.conf.workerConnections * 5 < -2 ^ 31 ∨ 2 ^ 31 ≤ s.conf.workerConnections * 5 then
        none
      else if s.poolExhausted then some (s.closeFd connfd)
      else if s.getConnectionItem.1.useAccept4 = false ∧ env.nonblock = false then none
      else (s.getConnectionItem.1.getOneToUse s.getConnectionItem.2 env.now).register
        s.getConnectionItem.2 connfd env := by
  rfl

/-- The next object of the pool, and its number, are the same for both. -/
theorem Twin.getConnectionItem (twin : Twins k known s t) :
    Twins k known s.getConnectionItem.1 t.getConnectionItem.1 ∧
      t.getConnectionItem.2 = s.getConnectionItem.2 := by
  have hfree : t.freeConnectionList = s.freeConnectionList := by
    rw [eq_withReceiving twin.rest]
    rfl
  have hlist : t.connectionList = s.connectionList := by
    rw [eq_withReceiving twin.rest]
    rfl
  cases hnext : s.freeConnectionList with
  | nil =>
      simp only [State.getConnectionItem, hfree, hnext, hlist]
      exact ⟨Twin.blindly (f := fun s : State =>
        { s with totalConnectionCount := s.totalConnectionCount + 1 }) (fun _ _ _ => rfl)
        twin.newConnection, trivial⟩
  | cons c rest =>
      simp only [State.getConnectionItem, hfree, hnext]
      exact ⟨Twin.blindly (f := fun s : State =>
        { s with
          freeConnectionList := rest
          freeConnectionCount := s.freeConnectionCount - 1 }) (fun _ _ _ => rfl) twin, trivial⟩

theorem withReceiving_beginUse (s : State) (c : ConnId) (now : Time) (blocks : Blocks)
    (incoming : ConnId → Incoming) : (s.withReceiving blocks incoming).beginUse c now =
      (s.beginUse c now).withReceiving blocks incoming := by
  have hconn := withReceiving_conn_update
    (f := fun conn =>
      { conn with
        sequence := conn.sequence + 1
        fd := -1
        events := 0
        iThrowsendCount := 0
        sendlenAlready := 0
        isendCount := 0
        inrecyList := 0
        istimeout := false
        pingUpdateTime := now }) (fun _ _ => rfl) s c blocks incoming
  simp only [beginUse, hconn]
  rfl

theorem Twin.getOneToUse (twin : Twins k known s t) (c : ConnId) (now : Time) :
    Twins k known (s.getOneToUse c now) (t.getOneToUse c now) :=
  Twin.putToStateMach (Twin.blindly (f := fun s => s.beginUse c now)
    (fun _ _ _ => withReceiving_beginUse _ _ _ _ _) twin) c

theorem Twin.acceptClient (twin : Twins k known s t) (connfd : Fd) :
    Option.Rel (Twins k known) (s.acceptClient connfd env) (t.acceptClient connfd env) := by
  have hsame := eq_withReceiving twin.rest
  have hcount : t.onlineCount = s.onlineCount := by rw [hsame]; rfl
  have hconf : t.conf = s.conf := by rw [hsame]; rfl
  have hexhausted : t.poolExhausted = s.poolExhausted := by rw [hsame]; rfl
  obtain ⟨hitem, hnumber⟩ := twin.getConnectionItem
  have haccept4 : t.getConnectionItem.1.useAccept4 = s.getConnectionItem.1.useAccept4 := by
    rw [eq_withReceiving hitem.rest]
    rfl
  have hclose : Twins k known (s.closeFd connfd) (t.closeFd connfd) :=
    Twin.blindly (f := fun s => s.closeFd connfd) (fun _ _ _ => rfl) twin
  rw [acceptClient_eq, acceptClient_eq, hcount, hconf, hexhausted, hnumber, haccept4]
  split
  · exact .some hclose
  split
  · exact .none
  split
  · exact .some hclose
  split
  · exact .none
  · exact Twin.blind (f := fun s => s.register _ connfd env)
      (fun _ _ _ => withReceiving_register _ _ _ _) (Twin.getOneToUse hitem _ _)

theorem Twin.acceptLoop (twin : Twins k known s t) {standby : ConnId}
    (answers : List AcceptAnswer) :
    Option.Rel (Twins k known) (s.acceptLoop standby env answers)
      (t.acceptLoop standby env answers) := by
  induction answers generalizing s t with
  | nil => exact .none
  | cons answer answers ih =>
      have hsame := eq_withReceiving twin.rest
      cases answer with
      | failed errno =>
          have haccept4 : t.useAccept4 = s.useAccept4 := by rw [hsame]; rfl
          simp only [State.acceptLoop, haccept4]
          split
          · exact .some twin
          split
          · exact ih (Twin.blindly (f := fun s : State => { s with useAccept4 := false })
              (fun _ _ _ => rfl) twin)
          · exact .some twin
      | accepted connfd =>
          have hcan : (0 ≤ connfd ∧ t.openFds connfd = false ∧
              t.openFds (t.conn standby).fd = true) = (0 ≤ connfd ∧ s.openFds connfd = false ∧
              s.openFds (s.conn standby).fd = true) := by
            rw [twin.openFds, twin.conn_fd]
          simp only [State.acceptLoop, hcan]
          split
          · exact Twin.acceptClient (Twin.blindly (f := fun s => s.openFd connfd)
              (fun _ _ _ => rfl) twin) connfd
          · exact .none

/-! ### The recycle list -/

/-- What `recycle` does apart from the receive machine. -/
def putBack (s : State) (c : ConnId) (others : List ConnId) : State :=
  ({ s with recyConnectionList := others }.modifyConn c fun conn =>
    { conn with
      sequence := conn.sequence + 1
      pSendbuf := none
      sendStr := none
      pMsgsend := none
      iThrowsendCount := 0 }).freeConnectionItem c

theorem recycle_eq_putBack (s : State) (c : ConnId) (others : List ConnId) :
    s.recycle c others =
      ((s.forgetMsgrecv c).modifyConn c fun conn => { conn with pRecvbuf := .null }).putBack c
        others := by
  simp [State.recycle, putOneToFree, putBack, State.freeConnectionItem, State.forgetMsgrecv,
    State.modifyConn, State.withoutMsgrecv]

theorem withReceiving_putBack (s : State) (c : ConnId) (others : List ConnId) (blocks : Blocks)
    (incoming : ConnId → Incoming) : (s.withReceiving blocks incoming).putBack c others =
      (s.putBack c others).withReceiving blocks incoming := by
  have hconn := withReceiving_modifyConn { s with recyConnectionList := others } c blocks incoming
    (f := fun conn =>
      { conn with
        sequence := conn.sequence + 1
        pSendbuf := none
        sendStr := none
        pMsgsend := none
        iThrowsendCount := 0 }) fun _ _ => rfl
  exact congrArg (·.freeConnectionItem c) hconn

theorem Twin.recycle (twin : Twins k known s t) (c : ConnId) (others : List ConnId) :
    Twins k known (s.recycle c others) (t.recycle c others) := by
  rw [recycle_eq_putBack, recycle_eq_putBack]
  exact Twin.blindly (f := fun s => s.putBack c others)
    (fun _ _ _ => withReceiving_putBack _ _ _ _ _) ((twin.forgetMsgrecv c).clearRecvbuf c)

theorem Twin.recyLoop (twin : Twins k known s t) {kept ahead : List ConnId} (times : List Time) :
    Option.Rel (Twins k known) (s.recyLoop kept ahead times) (t.recyLoop kept ahead times) := by
  induction ahead generalizing s t kept times with
  | nil => exact .some twin
  | cons c ahead ih =>
      cases times with
      | nil => exact .none
      | cons curTime times =>
          have hsame := eq_withReceiving twin.rest
          have hdue : (t.conf.delayTime + (t.conn c).inrevyTime < curTime ∧ t.stopEvent = false) =
              (s.conf.delayTime + (s.conn c).inrevyTime < curTime ∧ s.stopEvent = false) := by
            rw [hsame]
            rfl
          simp only [State.recyLoop, hdue]
          split
          · have hcounted := Twin.blindly (f := fun s : State =>
              { s with recyConnectionCount := s.recyConnectionCount - 1 }) (fun _ _ _ => rfl) twin
            exact ih (Twin.recycle hcounted c (kept ++ ahead)) times
          · exact ih twin times

theorem Twin.recyDrain (twin : Twins k known s t) (ahead : List ConnId) :
    Twins k known (s.recyDrain ahead) (t.recyDrain ahead) := by
  induction ahead generalizing s t with
  | nil => exact twin
  | cons c ahead ih => exact ih (Twin.recycle twin c ahead)

theorem Twin.recyConnThreadFunc (twin : Twins k known s t) (times : List Time) :
    Option.Rel (Twins k known) (s.recyConnThreadFunc times) (t.recyConnThreadFunc times) := by
  have hsame := eq_withReceiving twin.rest
  have hthread : t.recyThread = s.recyThread := by rw [hsame]; rfl
  have hcount : t.recyConnectionCount = s.recyConnectionCount := by rw [hsame]; rfl
  have hstop : t.stopEvent = s.stopEvent := by rw [hsame]; rfl
  have hlist : t.recyConnectionList = s.recyConnectionList := by rw [hsame]; rfl
  simp only [State.recyConnThreadFunc, hthread, hcount, hstop, hlist]
  split
  · exact .none
  split
  · split
    · exact .some (Twin.blindly (f := fun s : State => { s with recyThread := false })
        (fun _ _ _ => rfl) (Twin.recyDrain twin _))
    · exact Twin.recyLoop twin times
  · exact .some twin

/-! ### The steps of the server -/

theorem Twinned.readable (twinned : Twinned k s t) (inv : s.Inv) (used : s.Used c) :
    Option.Rel (Twinned k) (s.eventReadableRequestHandler c env)
      (t.eventReadableRequestHandler c env) := by
  obtain ⟨known, hused, htwin⟩ := twinned
  exact Twin.sameUses (Twin.readable htwin (hused c used)) hused fun s' hread =>
    (readable_frame (inv.idle_of_used used) hread).untouched.2

theorem Twinned.acceptLoop (twinned : Twinned k s t) (inv : s.Inv) {standby : ConnId}
    {answers : List AcceptAnswer} :
    Option.Rel (Twinned k) (s.acceptLoop standby env answers)
      (t.acceptLoop standby env answers) := by
  obtain ⟨known, hused, htwin⟩ := twinned
  refine Twin.twinned (Twin.acceptLoop htwin answers) fun s' haccept d hd => ?_
  obtain ⟨useAccept4, hcases⟩ := acceptLoop_cases inv haccept
  have hquiet : Quiet s { s with useAccept4 } :=
    quiet_of_view rfl rfl rfl rfl rfl rfl rfl rfl rfl rfl
  rcases hcases with rfl | ⟨connfd, hfd, hclosed, hadmits⟩
  · exact .inl (hused d hd)
  · rcases hadmits.renews (hquiet.toNeutral.inv inv) hfd hclosed with rfl | ⟨c, hbegun, hrenews⟩
    · exact .inl (hused d hd)
    · by_cases hdc : d = c
      · subst hdc
        exact .inr (congrArg Incoming.curstat hrenews.incoming)
      · rw [Used, hbegun.use_ne hdc] at hd
        exact .inl (hused d hd)

theorem Twinned.recycle (twinned : Twinned k s t) {times : List Time} :
    Option.Rel (Twinned k) (s.recyConnThreadFunc times) (t.recyConnThreadFunc times) := by
  obtain ⟨known, hused, htwin⟩ := twinned
  exact Twin.sameUses (Twin.recyConnThreadFunc htwin times) hused fun s' hrecycle =>
    (recyConnThreadFunc_returns hrecycle).use

theorem Twinned.handleIn (twinned : Twinned k s t) (inv : s.Inv) {events : Mask}
    (ok : s.EventOk (c, events)) :
    Option.Rel (Twinned k) (s.handleIn c events env) (t.handleIn c events env) := by
  have hhandler := twinned.same (fun s => (s.conn c).rhandler) fun _ _ _ => rfl
  simp only [State.handleIn, hhandler]
  split
  · rcases ok with hused | ⟨hstandby, -⟩
    · rw [(inv.wired.used c hused).2.1]
      exact twinned.readable inv hused
    · rw [(inv.wired.standby c hstandby).2.2]
      exact twinned.acceptLoop inv
  · exact .some twinned

theorem withReceiving_hangup (s : State) (c : ConnId) (blocks : Blocks)
    (incoming : ConnId → Incoming) : (s.withReceiving blocks incoming).hangup c =
      (s.hangup c).withReceiving blocks incoming :=
  withReceiving_modifyConn _ _ _ _ fun _ _ => rfl

theorem Twinned.handleOut (twinned : Twinned k s t) (inv : s.Inv) {events : Mask}
    (ok : s.EventOk (c, events)) :
    Option.Rel (Twinned k) (s.handleOut c events env) (t.handleOut c events env) := by
  have huse : ∀ s', s.handleOut c events env = some s' → s'.history.use = s.history.use :=
    fun s' hout => (handleOut_aside inv ok hout).still.use
  have hhandler := twinned.same (fun s => (s.conn c).whandler) fun _ _ _ => rfl
  simp only [State.handleOut] at huse
  simp only [State.handleOut, hhandler]
  split
  next hset =>
    rw [if_pos hset] at huse
    split
    next hgone =>
      rw [if_pos hgone] at huse
      refine twinned.blind (f := fun s => (s.hangup c).closeAcceptedConnection c false env)
        (fun s blocks incoming => ?_) huse
      rw [withReceiving_hangup, withReceiving_closeAcceptedConnection]
    next hstays =>
      have hused : s.Used c := by
        rcases ok with hused | ⟨-, hnone⟩
        · exact hused
        · rw [hnone] at hset
          cases hset
      have hwritable := (inv.wired.used c hused).2.2
      rw [if_neg hstays, hwritable] at huse
      rw [hwritable]
      exact twinned.blind (f := fun s => s.eventWritableRequestHandler c env)
        (fun _ _ _ => withReceiving_writable) huse
  next => exact .some twinned

/-- The next event, for both. -/
theorem Twinned.handleEvent (twinned : Twinned k s t) (inv : s.Inv) :
    Option.Rel (Twinned k) (s.handleEvent env) (t.handleEvent env) := by
  have hbatch := twinned.same (fun s => s.events) fun _ _ _ => rfl
  have hok := inv.wired.events
  simp only [State.handleEvent, hbatch]
  split
  · exact .none
  next c events rest hevents =>
    rw [hevents] at hok
    have htaken := events_evolves inv fun event hevent => hok event (List.mem_cons_of_mem _ hevent)
    have hfirst := (hok (c, events) List.mem_cons_self).evolves htaken
    have hnext := twinned.blindly (f := fun s : State => { s with events := rest })
      (fun _ _ _ => rfl) rfl
    refine rel_bind (hnext.handleIn htaken.inv hfirst) fun u v hin htwinned => ?_
    have hbetween := (handleIn_moves htaken.inv hfirst hin).evolves htaken.inv
    exact htwinned.handleOut hbetween.inv (hfirst.evolves hbetween)

theorem withReceiving_epollWait (events : List (Fd × Mask)) (blocks : Blocks)
    (incoming : ConnId → Incoming) : (s.withReceiving blocks incoming).epollWait events =
      (s.epollWait events).map (·.withReceiving blocks incoming) := by
  have hreport : (s.withReceiving blocks incoming).reportEvent = s.reportEvent := rfl
  simp only [epollWait, withReceiving_toKernel, hreport]
  split
  · rw [Option.map_map]
    rfl
  · rfl

theorem Twinned.loopStep (twinned : Twinned k s t) (inv : s.Inv) (action : LoopAction) :
    Option.Rel (Twinned k) (s.loopStep action) (t.loopStep action) := by
  cases action with
  | epollWait events =>
      refine twinned.blind (f := fun s => s.epollWait events)
        (fun _ _ _ => withReceiving_epollWait events _ _) fun s' h => ?_
      obtain ⟨reported, -, rfl⟩ := epollWait_reports h
      rfl
  | handleEvent env => exact twinned.handleEvent inv
  | timerBegin curTime =>
      have huse : ∀ s', s.loopStep (.timerBegin curTime) = some s' →
          s'.history.use = s.history.use := fun s' h =>
        (timer_aside inv (.inr (.inr (.inr ⟨curTime, rfl⟩))) h).still.use
      exact twinned.blind (f := fun s => s.timerBegin curTime)
        (fun _ _ _ => withReceiving_timerBegin curTime) huse
  | timerCheck =>
      have huse : ∀ s', s.loopStep .timerCheck = some s' → s'.history.use = s.history.use :=
        fun s' h => (timer_aside inv (.inl rfl) h).still.use
      exact twinned.blind (f := fun s => s.timeCheckingProc)
        (fun _ _ _ => withReceiving_timeCheckingProc) huse
  | timerDelete =>
      have huse : ∀ s', s.loopStep .timerDelete = some s' → s'.history.use = s.history.use :=
        fun s' h => (timer_aside inv (.inr (.inl rfl)) h).still.use
      exact twinned.blind (f := fun s => s.timeOutDelete)
        (fun _ _ _ => withReceiving_timeOutDelete) huse
  | timerClose env =>
      have huse : ∀ s', s.loopStep (.timerClose env) = some s' →
          s'.history.use = s.history.use := fun s' h =>
        (timer_aside inv (.inr (.inr (.inl ⟨env, rfl⟩))) h).still.use
      exact twinned.blind (f := fun s => s.timeOutClose env)
        (fun _ _ _ => withReceiving_timeOutClose) huse
  | recycle times => exact twinned.recycle
  | shutdown =>
      exact .some (twinned.blindly (f := fun s : State => { s with stopEvent := true })
        (fun _ _ _ => rfl) rfl)

end State

namespace Server

open State

variable {s s' t : State} {k : Nat} {c : ConnId} {env : Env}

/-- One step of the server, for both. -/
theorem step_twinned (twinned : Twinned k s t) (inv : s.Inv) (action : Action) :
    Option.Rel (Twinned k) (step s action) (step t action) := by
  cases action with
  | loop action => exact twinned.loopStep inv action
  | work w now =>
      exact twinned.blind (f := fun s => work s w now) (fun _ _ _ => withReceiving_work w now)
        fun s' h => (work_neutral inv h).use_eq
  | sendEntry i env =>
      exact twinned.blind (f := fun s => sendOne s i env) (fun _ _ _ => withReceiving_sendOne i)
        fun s' h => (sendOne_steady inv h).toNeutral.use_eq

end Server

end MyNginx
