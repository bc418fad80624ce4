import MyNginx.Server.Admit
import MyNginx.Server.Sends

/-!
# What a step of the event loop can do

A step of the event loop, the timer thread or the recycle thread is a sequence of
moves. A move says completely what happens, so what such a step preserves is shown
move by move; each of them keeps the invariant and is a step of the object pool or
leaves the pool alone.
-/

namespace MyNginx

open Foundation

namespace State

variable {s s' t : State} {c d : ConnId} {env : Env}

/-- `--iThrowsendCount` of a peer that is gone. -/
def hangup (s : State) (c : ConnId) : State :=
  s.modifyConn c fun conn => { conn with iThrowsendCount := conn.iThrowsendCount - 1 }

/-- The moves of the loop and of the threads beside it, when system calls answer
as `env` says. -/
inductive Move (env : Env) : State → State → Prop
  | quiet {s s' : State} (h : Quiet s s') : Move env s s'
  | mark {s : State} {head : MsgHeader} {due : List MsgHeader} {curTime : Time}
      (timer : s.timer = .examining (head :: due) curTime)
      (current : (s.conn head.lpCurconn).judgeOutdate head.msgCursequence = true)
      (silent : curTime - (s.conn head.lpCurconn).pingUpdateTime > 3 * s.conf.waittime) :
      Move env s
        ((s.modifyConn head.lpCurconn fun conn => { conn with istimeout := true }).setTimer
          s.toTimerQueue (.marked head due curTime))
  | report {s : State} {events : List (ConnId × Mask)} (ok : ∀ event ∈ events, s.EventOk event) :
      Move env s { s with events }
  | stop {s : State} : Move env s { s with stopEvent := true }
  | hangup {s : State} {c : ConnId} (gone : (s.conn c).fd = -1 ∨ (s.conn c).istimeout = true) :
      Move env s (s.hangup c)
  | close {s t : State} {c : ConnId} (used : s.Used c) (opened : (s.conn c).fd ≠ -1)
      (counted : t = s ∨ t = s.hangup c) : Move env s (t.afterClose c env.now)
  | recycle {s : State} {c : ConnId} {front back : List ConnId} {count : Int}
      (list : s.recyConnectionList = front ++ c :: back)
      (counted : count = s.recyConnectionCount - 1 ∨
        s.stopEvent = true ∧ count = s.recyConnectionCount) :
      Move env s { s.recycle c (front ++ back) with recyConnectionCount := count }
  | admits {s s' : State} {connfd : Fd} (nonneg : 0 ≤ connfd) (fresh : s.openFds connfd = false)
      (h : Admits s connfd env s') : Move env s s'
  | write {s s' : State} {c : ConnId} (used : s.Used c) (h : Writes s c env s') : Move env s s'

/-- Any number of moves. -/
abbrev Moves (env : Env) : State → State → Prop := Relation.ReflTransGen (Move env)

theorem neutral_hangup : Neutral s (s.hangup c) := neutral_modifyConn fun _ => rfl

/-- Another rest of the batch. -/
theorem events_evolves (inv : s.Inv) {events : List (ConnId × Mask)}
    (ok : ∀ event ∈ events, s.EventOk event) : Evolves s { s with events } where
  inv := {
    pool := inv.pool
    wired := { inv.wired with events := ok }
    flight := { inv.flight with }
    timers := inv.timers }
  steps := .refl
  conf := rfl
  aged := .refl s
  sockets := rfl

theorem shutdown_evolves (inv : s.Inv) : Evolves s { s with stopEvent := true } where
  inv := {
    pool := ObjectPool.Step.inv .stop inv.pool
    wired := { inv.wired with }
    flight := { inv.flight with }
    timers := inv.timers }
  steps := .single .stop
  conf := rfl
  aged := .refl s
  sockets := rfl

theorem Move.evolves (h : Move env s s') (inv : s.Inv) : Evolves s s' := by
  cases h with
  | quiet h => exact h.toNeutral.evolves inv
  | mark timer current silent => exact (Checks.mark timer current silent).neutral.evolves inv
  | report ok => exact events_evolves inv ok
  | stop => exact shutdown_evolves inv
  | hangup gone => exact neutral_hangup.evolves inv
  | close used opened counted =>
      rename_i t c
      rcases counted with rfl | rfl
      · exact afterClose_evolves inv used opened env.now
      · have hneutral : Neutral s (s.hangup c) := neutral_hangup
        have hfirst := hneutral.evolves inv
        have hopened : ((s.hangup c).conn c).fd ≠ -1 := by
          rw [(link_eq (hneutral.link c)).1]
          exact opened
        exact hfirst.trans (afterClose_evolves hfirst.inv (hfirst.used used) hopened env.now)
  | recycle list counted =>
      rcases counted with rfl | ⟨hstop, rfl⟩
      · exact recycle_evolves inv (.recycle list)
      · exact recycle_evolves inv (.drain hstop list)
  | admits nonneg fresh h => exact h.evolves inv nonneg fresh
  | write used h => exact h.steady.toNeutral.evolves inv

theorem Moves.evolves (h : Moves env s s') (inv : s.Inv) : Evolves s s' := by
  induction h with
  | refl => exact .refl inv
  | tail _ hmove ih => exact ih.trans (hmove.evolves ih.inv)

/-- Closing an accepted connection is at most one move. -/
theorem closeAcceptedConnection_moves {istimeoutClose : Bool} (inv : s.Inv) (used : s.Used c)
    (h : s.closeAcceptedConnection c istimeoutClose env = some s') : Moves env s s' := by
  rcases closeAcceptedConnection_cases (inv.idle used) h with ⟨rfl, -⟩ | ⟨hfd, rfl⟩
  · exact .refl
  · exact .single (.close used hfd (.inl rfl))

/-- A hang-up closes the connection in the same move, or the connection is gone. -/
theorem hangup_moves (inv : s.Inv) (used : s.Used c)
    (h : (s.hangup c).closeAcceptedConnection c false env = some s') : Moves env s s' := by
  have hneutral : Neutral s (s.hangup c) := neutral_hangup
  have hconn : ((s.hangup c).conn c).fd = (s.conn c).fd ∧
      ((s.hangup c).conn c).istimeout = (s.conn c).istimeout := by
    simp [hangup]
  have hidle := (hneutral.inv inv).idle (hneutral.used_iff.mpr used)
  rcases closeAcceptedConnection_cases hidle h with ⟨rfl, hgone⟩ | ⟨hfd, rfl⟩
  · rw [hconn.1, hconn.2] at hgone
    exact .single (.hangup (hgone.imp_right And.right))
  · rw [hconn.1] at hfd
    exact .single (.close used hfd (.inr rfl))

theorem readable_moves (inv : s.Inv) (used : s.Used c)
    (h : s.eventReadableRequestHandler c env = some s') : Moves env s s' := by
  cases readable_reads used h with
  | quiet hq => exact .single (.quiet hq)
  | closed before close after =>
      have hbefore := before.toNeutral.evolves inv
      have hclose := closeAcceptedConnection_moves hbefore.inv (hbefore.used used) close
      exact (hclose.head (.quiet before)).tail (.quiet after)

/-- One entry of the recycle list is returned; the counter is left alone when the process
stops. -/
inductive Recycles : State → State → Prop
  | entry {s : State} {c : ConnId} {front back : List ConnId} {count : Int}
      (list : s.recyConnectionList = front ++ c :: back)
      (counted : count = s.recyConnectionCount - 1 ∨
        s.stopEvent = true ∧ count = s.recyConnectionCount) :
      Recycles s { s.recycle c (front ++ back) with recyConnectionCount := count }

theorem Recycles.moves (h : Relation.ReflTransGen Recycles s s') : Moves env s s' := by
  refine Relation.ReflTransGen.mono (fun s s' hentry => ?_) s s' h
  cases hentry with
  | entry list counted => exact .recycle list counted

/-- A recycle pass returns the entries whose time has come. -/
theorem recyLoop_recycles (kept : List ConnId) {ahead : List ConnId} {times : List Time}
    (list : s.recyConnectionList = kept ++ ahead)
    (h : s.recyLoop kept ahead times = some s') : Relation.ReflTransGen Recycles s s' := by
  induction ahead generalizing s kept times with
  | nil =>
      obtain rfl := Option.some.inj h
      exact .refl
  | cons c ahead ih =>
      cases times with
      | nil => cases h
      | cons curTime times =>
          simp only [recyLoop] at h
          split at h
          · exact (ih _ rfl h).head (.entry list (.inl rfl))
          · exact ih _ (by rw [list, List.append_assoc]; rfl) h

/-- The last pass returns every entry and leaves the counter alone. -/
theorem recyDrain_recycles {ahead : List ConnId} (stopped : s.stopEvent = true)
    (list : s.recyConnectionList = ahead) :
    Relation.ReflTransGen Recycles s (s.recyDrain ahead) := by
  induction ahead generalizing s with
  | nil => exact .refl
  | cons c ahead ih =>
      have hfirst : Recycles s (s.recycle c ahead) :=
        .entry (show s.recyConnectionList = [] ++ c :: ahead from list) (.inr ⟨stopped, rfl⟩)
      exact (ih (s := s.recycle c ahead) stopped rfl).head hfirst

/-- Changing members that no part of the invariant reads. -/
theorem quiet_of_view (view : s'.view = s.view) (sockets : s'.listenSocketList = s.listenSocketList)
    (conf : s'.conf = s.conf) (conn : s'.conn = s.conn) (kernel : s'.toKernel = s.toKernel)
    (blocks : s'.toBlocks = s.toBlocks) (queue : s'.toReceiveQueue = s.toReceiveQueue)
    (replies : s'.toSendQueue = s.toSendQueue) (timers : s'.toTimerQueue = s.toTimerQueue)
    (history : s'.history = s.history) : Quiet s s' := by
  have hstamped : ∀ head origin, s.Stamped head origin → s'.Stamped head origin := by
    intro head origin
    simp only [Stamped, Used, history, conn]
    exact id
  have hneutral : Neutral s s' := by
    refine ⟨view, sockets, conf, by rw [kernel], by rw [kernel], by simp [conn],
      fun _ m _ hm => ⟨m, by rwa [kernel] at hm, .inl rfl⟩, fun hf => ?_, ?_⟩
    · exact ⟨fun b msg hb => hstamped _ _ (hf.blocks b msg (blocks ▸ hb)),
        fun msg hm => hstamped _ _ (hf.queue msg (queue ▸ hm)),
        fun reply hr => hstamped _ _ (hf.replies reply (replies ▸ hr))⟩
    · simp only [TimerHeads, Used, history, timers]
      exact id
  exact ⟨⟨hneutral, by simp [conn]⟩, by simp [conn], replies, by rw [history], by rw [history]⟩

/-- A pass returns entries one by one, and the thread ends with the last pass. -/
theorem recyConnThreadFunc_recycles {times : List Time}
    (h : s.recyConnThreadFunc times = some s') :
    ∃ t recyThread, Relation.ReflTransGen Recycles s t ∧ s' = { t with recyThread } := by
  simp only [recyConnThreadFunc] at h
  split at h
  · cases h
  split at h
  · split at h
    next hstop =>
      obtain rfl := Option.some.inj h
      exact ⟨_, false, recyDrain_recycles hstop rfl, rfl⟩
    · exact ⟨s', s'.recyThread, recyLoop_recycles [] rfl h, rfl⟩
  · obtain rfl := Option.some.inj h
    exact ⟨s, s.recyThread, .refl, rfl⟩

theorem recyConnThreadFunc_moves {times : List Time}
    (h : s.recyConnThreadFunc times = some s') : Moves env s s' := by
  obtain ⟨t, recyThread, hrecycles, rfl⟩ := recyConnThreadFunc_recycles h
  exact (Recycles.moves hrecycles).tail
    (.quiet (quiet_of_view rfl rfl rfl rfl rfl rfl rfl rfl rfl rfl))

/-- `accept` is called until it succeeds, or fails for good. -/
theorem acceptLoop_accepts {standby : ConnId} {answers : List AcceptAnswer}
    (h : s.acceptLoop standby env answers = some s') :
    ∃ useAccept4, s' = { s with useAccept4 } ∨
      ∃ connfd, 0 ≤ connfd ∧ s.openFds connfd = false ∧
        ({ s with useAccept4 }.openFd connfd).acceptClient connfd env = some s' := by
  induction answers generalizing s with
  | nil => cases h
  | cons answer answers ih =>
      cases answer with
      | failed errno =>
          simp only [acceptLoop] at h
          split at h
          · obtain rfl := Option.some.inj h
            exact ⟨s.useAccept4, .inl rfl⟩
          split at h
          · exact ih (s := { s with useAccept4 := false }) h
          · obtain rfl := Option.some.inj h
            exact ⟨s.useAccept4, .inl rfl⟩
      | accepted connfd =>
          simp only [acceptLoop] at h
          split at h
          next hcan => exact ⟨s.useAccept4, .inr ⟨connfd, hcan.1, hcan.2.1, h⟩⟩
          next => cases h

theorem acceptLoop_moves {standby : ConnId} {answers : List AcceptAnswer} (inv : s.Inv)
    (h : s.acceptLoop standby env answers = some s') : Moves env s s' := by
  obtain ⟨useAccept4, haccepts⟩ := acceptLoop_accepts h
  have hquiet : Quiet s { s with useAccept4 } :=
    quiet_of_view rfl rfl rfl rfl rfl rfl rfl rfl rfl rfl
  rcases haccepts with rfl | ⟨connfd, hfd, hclosed, haccept⟩
  · exact .single (.quiet hquiet)
  · have hadmits := admit_cases (hquiet.toNeutral.inv inv) hclosed haccept
    exact .head (.quiet hquiet) (.single (.admits hfd hclosed hadmits))

/-- A standby connection is registered without `EPOLLOUT`, so none is reported. -/
theorem has_epollout_eq_false {m : Mask}
    (h : m &&& ~~~(epollin ||| epollrdhup ||| epollerr ||| epollhup) = 0) :
    m.has epollout = false := by
  have hsub : epollout = ~~~(epollin ||| epollrdhup ||| epollerr ||| epollhup) &&& epollout := by
    decide
  have hand : m &&& epollout = 0 := by
    rw [hsub, ← BitVec.and_assoc, h]
    decide
  simp [Mask.has, hand]

theorem reportEvent_ok (inv : s.Inv) {event : Fd × Mask} {reported : ConnId × Mask}
    (h : s.reportEvent event = some reported) : s.EventOk reported := by
  simp only [reportEvent] at h
  split at h
  · cases h
  next m c hreg =>
    split at h
    next hsub =>
      obtain rfl := Option.some.inj h
      obtain ⟨-, -, hused | ⟨hstandby, rfl⟩⟩ := inv.wired.interest _ _ _ hreg
      · exact .inl hused
      · exact .inr ⟨hstandby, has_epollout_eq_false hsub⟩
    next => cases h

theorem mem_of_mapM {α β : Type*} {f : α → Option β} {l : List α} {l' : List β} {b : β}
    (h : l.mapM f = some l') (hb : b ∈ l') : ∃ a ∈ l, f a = some b := by
  induction l generalizing l' with
  | nil =>
      obtain rfl := Option.some.inj h
      cases hb
  | cons a l ih =>
      rw [List.mapM_cons] at h
      obtain ⟨b', hb', h⟩ := Option.bind_eq_some_iff.mp h
      obtain ⟨rest, hrest, h⟩ := Option.bind_eq_some_iff.mp h
      obtain rfl := Option.some.inj h
      rcases List.mem_cons.mp hb with rfl | hb
      · exact ⟨a, by simp, hb'⟩
      · obtain ⟨x, hx, hfx⟩ := ih hrest hb
        exact ⟨x, by simp [hx], hfx⟩

/-- A batch is fetched, and nothing else happens. -/
theorem epollWait_reports {events : List (Fd × Mask)} (h : s.epollWait events = some s') :
    ∃ reported, events.mapM s.reportEvent = some reported ∧ s' = { s with events := reported } := by
  simp only [epollWait] at h
  split at h
  · obtain ⟨reported, hmap, rfl⟩ := Option.map_eq_some_iff.mp h
    exact ⟨reported, hmap, rfl⟩
  · cases h

theorem epollWait_moves (inv : s.Inv) {events : List (Fd × Mask)}
    (h : s.epollWait events = some s') : Moves env s s' := by
  obtain ⟨reported, hmap, rfl⟩ := epollWait_reports h
  refine .single (.report fun event hevent => ?_)
  obtain ⟨asked, -, hreport⟩ := mem_of_mapM hmap hevent
  exact reportEvent_ok inv hreport

theorem EventOk.evolves {event : ConnId × Mask} (h : s.EventOk event) (hs : Evolves s s') :
    s'.EventOk event := by
  rcases h with hused | hstandby
  · exact .inl (hs.used hused)
  · rw [EventOk, standbys, hs.sockets]
    exact .inr hstandby

/-! What the code that handles an event, or closes for the timer thread, comes to. -/

/-- The `EPOLLIN` part of an event: accept on a standby connection, read on the others. -/
inductive HandlesIn (s : State) (c : ConnId) (events : Mask) (env : Env) : State → Prop
  | reads {s' : State} (set : events.has epollin = true) (used : s.Used c)
      (read : s.eventReadableRequestHandler c env = some s') : HandlesIn s c events env s'
  | accepts {s' : State} (set : events.has epollin = true) (standby : c ∈ s.standbys)
      (accept : s.acceptLoop c env env.accept = some s') : HandlesIn s c events env s'
  | skips (unset : ¬ events.has epollin = true) : HandlesIn s c events env s

theorem handleIn_cases {events : Mask} (inv : s.Inv) (ok : s.EventOk (c, events))
    (h : s.handleIn c events env = some s') : HandlesIn s c events env s' := by
  simp only [handleIn] at h
  split at h
  next hset =>
    rcases ok with hused | ⟨hstandby, -⟩
    · rw [(inv.wired.used c hused).2.1] at h
      exact .reads hset hused h
    · rw [(inv.wired.standby c hstandby).2.2] at h
      exact .accepts hset hstandby h
  next hunset =>
    obtain rfl := Option.some.inj h
    exact .skips hunset

/-- The `EPOLLOUT` part: close a connection that is gone, write on the others. -/
inductive HandlesOut (s : State) (c : ConnId) (events : Mask) (env : Env) : State → Prop
  | closes {s' : State} (set : events.has epollout = true) (used : s.Used c)
      (inv : (s.hangup c).Inv)
      (close : (s.hangup c).closeAcceptedConnection c false env = some s') :
      HandlesOut s c events env s'
  | writes {s' : State} (set : events.has epollout = true) (used : s.Used c)
      (write : s.eventWritableRequestHandler c env = some s') : HandlesOut s c events env s'
  | skips (unset : ¬ events.has epollout = true) : HandlesOut s c events env s

theorem handleOut_cases {events : Mask} (inv : s.Inv) (ok : s.EventOk (c, events))
    (h : s.handleOut c events env = some s') : HandlesOut s c events env s' := by
  simp only [handleOut] at h
  split at h
  next hset =>
    have hused : s.Used c := by
      rcases ok with hused | ⟨-, hnone⟩
      · exact hused
      · rw [hnone] at hset
        cases hset
    split at h
    · have hneutral : Neutral s (s.hangup c) := neutral_hangup
      exact .closes hset hused (hneutral.inv inv) h
    · rw [(inv.wired.used c hused).2.2] at h
      exact .writes hset hused h
  next hunset =>
    obtain rfl := Option.some.inj h
    exact .skips hunset

theorem handleIn_moves (inv : s.Inv) {events : Mask} (ok : s.EventOk (c, events))
    (h : s.handleIn c events env = some s') : Moves env s s' := by
  cases handleIn_cases inv ok h with
  | reads _ hused hread => exact readable_moves inv hused hread
  | accepts _ _ haccept => exact acceptLoop_moves inv haccept
  | skips => exact .refl

theorem handleOut_moves (inv : s.Inv) {events : Mask} (ok : s.EventOk (c, events))
    (h : s.handleOut c events env = some s') : Moves env s s' := by
  cases handleOut_cases inv ok h with
  | closes _ hused _ hclose => exact hangup_moves inv hused hclose
  | writes _ hused hwrite => exact .single (.write hused (writable_writes inv hused hwrite))
  | skips => exact .refl

/-- An event is taken from the batch, and both parts run with the invariant. -/
structure HandlesEvent (s : State) (env : Env) (s' : State) (c : ConnId) (events : Mask)
    (rest : List (ConnId × Mask)) (t : State) : Prop where
  batch : s.events = (c, events) :: rest
  others : ∀ event ∈ rest, s.EventOk event
  taken : Evolves s { s with events := rest }
  ok : { s with events := rest }.EventOk (c, events)
  inward : { s with events := rest }.handleIn c events env = some t
  between : Evolves { s with events := rest } t
  still : t.EventOk (c, events)
  outward : t.handleOut c events env = some s'

theorem handleEvent_cases (inv : s.Inv) (h : s.handleEvent env = some s') :
    ∃ c events rest t, HandlesEvent s env s' c events rest t := by
  simp only [handleEvent] at h
  split at h
  · cases h
  next c events rest hevents =>
    obtain ⟨t, hin, hout⟩ := Option.bind_eq_some_iff.mp h
    have hok : ∀ event ∈ (c, events) :: rest, s.EventOk event := hevents ▸ inv.wired.events
    have hothers : ∀ event ∈ rest, s.EventOk event := fun event hevent =>
      hok event (List.mem_cons_of_mem _ hevent)
    have htaken := events_evolves inv hothers
    have hfirst := (hok (c, events) List.mem_cons_self).evolves htaken
    have hbetween := (handleIn_moves htaken.inv hfirst hin).evolves htaken.inv
    exact ⟨c, events, rest, t, hevents, hothers, htaken, hfirst, hin, hbetween,
      hfirst.evolves hbetween, hout⟩

theorem handleEvent_moves (inv : s.Inv) (h : s.handleEvent env = some s') : Moves env s s' := by
  obtain ⟨c, events, rest, t, hevent⟩ := handleEvent_cases inv h
  have hreport : Move env s { s with events := rest } := .report hevent.others
  have hread := (handleIn_moves hevent.taken.inv hevent.ok hevent.inward).head hreport
  exact hread.trans (handleOut_moves hevent.between.inv hevent.still hevent.outward)

/-- The timer thread closes the connection of the header it has deleted. -/
theorem timeOutClose_cases (inv : s.Inv) (h : s.timeOutClose env = some s') :
    ∃ head due curTime t, s.timer = .deleted head due curTime ∧ s.Used head.lpCurconn ∧
      s.closeAcceptedConnection head.lpCurconn true env = some t ∧
      s' = t.setTimer t.toTimerQueue (.examining due curTime) := by
  simp only [timeOutClose] at h
  split at h
  next head due curTime htimer =>
    obtain ⟨t, hclose, rfl⟩ := Option.map_eq_some_iff.mp h
    have hheads : ∀ a ∈ timerHeads s.timer, s.Used a.lpCurconn := inv.timers.2
    rw [htimer] at hheads
    exact ⟨head, due, curTime, t, htimer, hheads head List.mem_cons_self, hclose, rfl⟩
  next => cases h

theorem timeOutClose_moves (inv : s.Inv) (h : s.timeOutClose env = some s') : Moves env s s' := by
  obtain ⟨head, due, curTime, t, htimer, hused, hclose, rfl⟩ := timeOutClose_cases inv h
  have htimer' : t.timer = .deleted head due curTime := by
    rcases closeAcceptedConnection_cases (inv.idle hused) hclose with ⟨rfl, -⟩ | ⟨-, rfl⟩
    · exact htimer
    · exact htimer
  refine (closeAcceptedConnection_moves inv hused hclose).tail
    (.quiet (quiet_setTimer (.refl _) fun a ha => .inr ?_))
  rw [htimer']
  exact List.mem_cons_of_mem _ ha

/-- What a step of the loop or of a thread beside it comes to. -/
theorem loopStep_moves (inv : s.Inv) {action : LoopAction} (h : s.loopStep action = some s') :
    Moves action.env s s' := by
  cases action with
  | epollWait events => exact epollWait_moves inv h
  | handleEvent env => exact handleEvent_moves inv h
  | timerBegin curTime => exact .single (.quiet (quiet_timerBegin h))
  | timerCheck =>
      cases timeCheckingProc_checks h with
      | quiet h => exact .single (.quiet h)
      | mark timer current silent => exact .single (.mark timer current silent)
  | timerDelete => exact .single (.quiet (quiet_timeOutDelete h))
  | timerClose env => exact timeOutClose_moves inv h
  | recycle times => exact recyConnThreadFunc_moves h
  | shutdown =>
      obtain rfl := Option.some.inj h
      exact .single .stop

end State

namespace Server

open State

variable {s s' : State} {boot : Boot}

/-- A worker takes a message and answers it, or it has nothing to answer. -/
theorem work_cases {w : Nat} {now : Time} (h : work s w now = some s') :
    (∃ t, Took s now t none ∧ s' = t) ∨
      ∃ t reply, Took s now t (some reply) ∧ t.msgSendInQueue (.worker w) reply = some s' := by
  simp only [work] at h
  obtain ⟨⟨t, r⟩, htake, h⟩ := Option.bind_eq_some_iff.mp h
  have htook := takeMessage_took htake
  cases r with
  | none => exact .inl ⟨t, htook, (Option.some.inj h).symm⟩
  | some reply => exact .inr ⟨t, reply, htook, h⟩

/-- The send thread handles an entry; it keeps the mutex where it ends. -/
theorem sendOne_cases {i : Nat} {env : Env} (h : sendOne s i env = some s') :
    ∃ t next, s.sendEntry i env = some (t, next) ∧ (s' = t ∨ s' = t.lockSend .sender) := by
  simp only [sendOne] at h
  split at h
  · cases h
  obtain ⟨⟨t, next⟩, hentry, rfl⟩ := Option.map_eq_some_iff.mp h
  refine ⟨t, next, hentry, ?_⟩
  cases next with
  | returned => exact .inr rfl
  | erased | skipped => exact .inl rfl

theorem work_neutral (inv : s.Inv) {w : Nat} {now : Time} (h : work s w now = some s') :
    Neutral s s' := by
  obtain ⟨t, htook, rfl⟩ | ⟨t, reply, htook, h⟩ := work_cases h
  · exact htook.neutral
  · have hneutral := htook.neutral
    have hseq : ∀ c, (t.conn c).sequence = (s.conn c).sequence := fun c =>
      (link_eq (hneutral.link c)).2.1
    have hstamped := (stamped_congr hseq hneutral.use_eq).mpr (htook.stamped inv)
    exact hneutral.trans (steady_msgSendInQueue hstamped h).toNeutral

theorem sendOne_steady (inv : s.Inv) {i : Nat} {env : Env} (h : sendOne s i env = some s') :
    Steady s s' := by
  obtain ⟨t, next, hentry, hlast⟩ := sendOne_cases h
  obtain ⟨reply, -, hentry⟩ := sendEntry_entry inv hentry
  rcases hlast with rfl | rfl
  · exact hentry.steady
  · exact hentry.steady.trans steady_lockSend

theorem step_evolves (inv : s.Inv) {action : Action} (h : step s action = some s') :
    Evolves s s' := by
  cases action with
  | loop action => exact (loopStep_moves inv h).evolves inv
  | work w now => exact (work_neutral inv h).evolves inv
  | sendEntry i env => exact (sendOne_steady inv h).toNeutral.evolves inv

end Server

end MyNginx
