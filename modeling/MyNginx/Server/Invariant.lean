import MyNginx.Foundation.ObjectPool
import MyNginx.Server.System

/-!
# The invariant of the server

`State.view` is the connection pool of the server as an object pool: a
connection object is open when its `fd` is not -1, and the standby connections
of the listening sockets are reserved. `Wired` ties the pool to the kernel and
to the handlers, `InFlight` says which messages may exist and `TimerHeads` which
timer entries. A step that concerns none of this is `Neutral`; it is `Steady` when
it keeps what the timer thread looks at, and `Quiet` when it sends nothing either.
-/

namespace MyNginx

open Foundation

/-- The members of a connection that the pool and its surroundings look at. -/
def Connection.link (conn : Connection) : Fd × Nat × Int × Option EventHandler × Option EventHandler :=
  (conn.fd, conn.sequence, conn.inrecyList, conn.rhandler, conn.whandler)

/-- The members the timer thread looks at. -/
def Connection.life (conn : Connection) : Time × Bool := (conn.pingUpdateTime, conn.istimeout)

/-- The records of uses and of their ends. -/
def History.uses (h : History) :
    (ConnId → Nat) × List (ConnId × Nat) × List (ConnId × Nat) × List (ConnId × Nat) ×
      List (ConnId × Nat) :=
  (h.use, h.closes, h.uncounted, h.recycled, h.rejected)

namespace State

/-- The connections that wait on the listening sockets. -/
def standbys (s : State) : List ConnId := s.listenSocketList.filterMap Listening.pConnitem

/-- The descriptor of an object, if it has one. -/
def handle (s : State) (c : ConnId) : Option Fd :=
  if (s.conn c).fd = -1 then none else some (s.conn c).fd

/-- The connection pool as an object pool. -/
def view (s : State) : ObjectPool Fd where
  objects := s.connectionList
  free := s.freeConnectionList
  delayed := s.recyConnectionList
  reserved := s.standbys
  handle := s.handle
  total := s.totalConnectionCount
  freeCount := s.freeConnectionCount
  delayedCount := s.recyConnectionCount
  online := s.onlineCount
  use := s.history.use
  closed := s.history.closes
  uncounted := s.history.uncounted
  retired := s.history.recycled
  refused := s.history.rejected
  stopped := s.stopEvent

/-- The object has been accepted at least once. -/
def Used (s : State) (c : ConnId) : Prop := 0 < s.history.use c

/-- An event of a batch belongs to a standby connection, and is then no
`EPOLLOUT`, or to an object that has been accepted. -/
def EventOk (s : State) (event : ConnId × Mask) : Prop :=
  s.Used event.1 ∨ event.1 ∈ s.standbys ∧ event.2.has epollout = false

/-- What holds between the pool, the handlers and the kernel. -/
structure Wired (s : State) : Prop where
  interest : ∀ fd m c, s.interest fd = some (m, c) →
    (s.conn c).fd = fd ∧ c ∈ s.connectionList ∧
      (s.Used c ∨ c ∈ s.standbys ∧ m = epollin ||| epollrdhup)
  events : ∀ event ∈ s.events, s.EventOk event
  sockets : ∀ pos ∈ s.listenSocketList, ∃ c, pos.pConnitem = some c ∧ (s.conn c).fd = pos.fd
  standby : ∀ c ∈ s.standbys, c ∈ s.connectionList ∧ ¬ s.Used c ∧
    (s.conn c).rhandler = some .accept
  used : ∀ c, s.Used c → c ∈ s.connectionList ∧ (s.conn c).rhandler = some .readable ∧
    (s.conn c).whandler = some .writable
  idle : ∀ c, s.Used c → (s.conn c).fd ≠ -1 → (s.conn c).inrecyList = 0
  opened : ∀ c ∈ s.connectionList, (s.conn c).fd ≠ -1 → s.openFds (s.conn c).fd = true
  registered : ∀ fd, s.interest fd ≠ none → s.openFds fd = true
  nonneg : ∀ fd, s.openFds fd = true → 0 ≤ fd

/-- A message header stamped in the past: its connection has been accepted, neither its
sequence nor its use is ahead, and with the current sequence it has the current use. -/
def Stamped (s : State) (head : MsgHeader) (origin : Nat) : Prop :=
  s.Used head.lpCurconn ∧ head.msgCursequence ≤ (s.conn head.lpCurconn).sequence ∧
    origin ≤ s.history.use head.lpCurconn ∧
    (head.msgCursequence = (s.conn head.lpCurconn).sequence →
      origin = s.history.use head.lpCurconn)

/-- Every message in the server is stamped. -/
structure InFlight (s : State) : Prop where
  blocks : ∀ b msg, s.messages.get b = some msg → s.Stamped msg.head msg.origin
  queue : ∀ msg, some msg ∈ s.msgqueue → s.Stamped msg.head msg.origin
  replies : ∀ reply ∈ s.sendMsgList, s.Stamped reply.head reply.origin

/-- The message headers the timer thread holds. -/
def timerHeads : TimerPc → List MsgHeader
  | .idle => []
  | .examining due _ => due
  | .marked head due _ => head :: due
  | .deleted head due _ => head :: due

/-- Timer entries belong to objects that have been accepted. -/
def TimerHeads (s : State) : Prop :=
  (∀ entry ∈ s.timermap, s.Used entry.2.lpCurconn) ∧
    ∀ head ∈ timerHeads s.timer, s.Used head.lpCurconn

structure Inv (s : State) : Prop where
  pool : s.view.Inv s.conf.workerConnections []
  wired : s.Wired
  flight : s.InFlight
  timers : s.TimerHeads

/-- A step that does not concern the pool: registrations keep their owner, and
messages and timer entries come from earlier ones. -/
structure Neutral (s s' : State) : Prop where
  view : s'.view = s.view
  sockets : s'.listenSocketList = s.listenSocketList
  conf : s'.conf = s.conf
  openFds : s'.openFds = s.openFds
  events : s'.events = s.events
  link : ∀ c, (s'.conn c).link = (s.conn c).link
  interest : ∀ fd m c, s'.interest fd = some (m, c) →
    ∃ m', s.interest fd = some (m', c) ∧ (m = m' ∨ s.Used c)
  flight : s.InFlight → s'.InFlight
  timers : s.TimerHeads → s'.TimerHeads

/-- A neutral step that leaves the timer thread's view of the connections alone. -/
structure Steady (s s' : State) : Prop extends Neutral s s' where
  life : ∀ c, (s'.conn c).life = (s.conn c).life

/-- A steady step that does not concern the sending of replies. -/
structure Quiet (s s' : State) : Prop extends Steady s s' where
  outgoing : ∀ c, (s'.conn c).toOutgoing = (s.conn c).toOutgoing
  sendQueue : s'.toSendQueue = s.toSendQueue
  queued : s'.history.queued = s.history.queued
  wire : s'.history.wire = s.history.wire

variable {s s' t : State} {c d : ConnId} {head : MsgHeader} {origin : Nat}

theorem Neutral.refl (s : State) : Neutral s s :=
  ⟨rfl, rfl, rfl, rfl, rfl, fun _ => rfl, fun _ m _ h => ⟨m, h, .inl rfl⟩, id, id⟩

theorem Neutral.use_eq (h : Neutral s s') : s'.history.use = s.history.use :=
  congrArg ObjectPool.use h.view

theorem Neutral.connectionList_eq (h : Neutral s s') : s'.connectionList = s.connectionList :=
  congrArg ObjectPool.objects h.view

theorem Neutral.used_iff (h : Neutral s s') : s'.Used c ↔ s.Used c := by
  simp only [Used, h.use_eq]

theorem Neutral.trans (h : Neutral s s') (h' : Neutral s' t) : Neutral s t where
  view := h'.view.trans h.view
  sockets := h'.sockets.trans h.sockets
  conf := h'.conf.trans h.conf
  openFds := h'.openFds.trans h.openFds
  events := h'.events.trans h.events
  link c := (h'.link c).trans (h.link c)
  interest fd m c hm := by
    obtain ⟨m', hm', hor'⟩ := h'.interest fd m c hm
    obtain ⟨m'', hm'', hor⟩ := h.interest fd m' c hm'
    refine ⟨m'', hm'', ?_⟩
    rcases hor' with rfl | hused
    · exact hor
    · exact .inr (h.used_iff.mp hused)
  flight hf := h'.flight (h.flight hf)
  timers hf := h'.timers (h.timers hf)

theorem Steady.refl (s : State) : Steady s s := ⟨.refl s, fun _ => rfl⟩

theorem Steady.trans (h : Steady s s') (h' : Steady s' t) : Steady s t :=
  ⟨h.toNeutral.trans h'.toNeutral, fun c => (h'.life c).trans (h.life c)⟩

theorem Quiet.refl (s : State) : Quiet s s := ⟨.refl s, fun _ => rfl, rfl, rfl, rfl⟩

theorem Quiet.trans (h : Quiet s s') (h' : Quiet s' t) : Quiet s t :=
  ⟨h.toSteady.trans h'.toSteady, fun c => (h'.outgoing c).trans (h.outgoing c),
    h'.sendQueue.trans h.sendQueue, h'.queued.trans h.queued, h'.wire.trans h.wire⟩

/-- The members `link` shows, one by one. -/
theorem link_eq {conn conn' : Connection} (h : conn'.link = conn.link) :
    conn'.fd = conn.fd ∧ conn'.sequence = conn.sequence ∧ conn'.inrecyList = conn.inrecyList ∧
      conn'.rhandler = conn.rhandler ∧ conn'.whandler = conn.whandler := by
  simpa [Connection.link] using h

theorem eventOk_congr (use : s'.history.use = s.history.use)
    (sockets : s'.listenSocketList = s.listenSocketList) {event : ConnId × Mask} :
    s'.EventOk event ↔ s.EventOk event := by
  simp only [EventOk, Used, standbys, use, sockets]

/-- What the wiring depends on; the sequences do not belong to it. -/
theorem Wired.keep (wired : s.Wired) (use : s'.history.use = s.history.use)
    (sockets : s'.listenSocketList = s.listenSocketList)
    (objects : s'.connectionList = s.connectionList) (openFds : s'.openFds = s.openFds) (events : s'.events = s.events)
    (fd : ∀ c, (s'.conn c).fd = (s.conn c).fd)
    (inrecyList : ∀ c, (s'.conn c).inrecyList = (s.conn c).inrecyList)
    (rhandler : ∀ c, (s'.conn c).rhandler = (s.conn c).rhandler)
    (whandler : ∀ c, (s'.conn c).whandler = (s.conn c).whandler)
    (interest : ∀ fd m c, s'.interest fd = some (m, c) →
      ∃ m', s.interest fd = some (m', c) ∧ (m = m' ∨ s.Used c)) : s'.Wired where
  interest a m c hm := by
    obtain ⟨m', hm', hor⟩ := interest a m c hm
    obtain ⟨hfd, hobject, hkind⟩ := wired.interest a m' c hm'
    refine ⟨(fd c).trans hfd, objects ▸ hobject, ?_⟩
    simp only [Used, standbys, use, sockets]
    rcases hor with rfl | hused
    · exact hkind
    · exact .inl hused
  events event hevent := (eventOk_congr use sockets).mpr (wired.events event (events ▸ hevent))
  sockets pos hpos := by
    rw [sockets] at hpos
    simp only [fd]
    exact wired.sockets pos hpos
  standby c hc := by
    rw [standbys, sockets] at hc
    simp only [Used, use, objects, rhandler]
    exact wired.standby c hc
  used c hc := by
    simp only [Used, use] at hc
    simp only [objects, rhandler, whandler]
    exact wired.used c hc
  idle c hc := by
    simp only [Used, use] at hc
    simp only [fd, inrecyList]
    exact wired.idle c hc
  opened c hc := by
    rw [objects] at hc
    rw [fd, openFds]
    exact wired.opened c hc
  registered a ha := by
    obtain ⟨⟨m, c⟩, hm⟩ := Option.ne_none_iff_exists'.mp ha
    obtain ⟨m', hm', -⟩ := interest a m c hm
    rw [openFds]
    exact wired.registered a (by rw [hm']; exact Option.some_ne_none _)
  nonneg a := by
    rw [openFds]
    exact wired.nonneg a

theorem Neutral.wired (h : Neutral s s') (wired : s.Wired) : s'.Wired :=
  wired.keep h.use_eq h.sockets h.connectionList_eq h.openFds h.events
    (fun c => (link_eq (h.link c)).1) (fun c => (link_eq (h.link c)).2.2.1)
    (fun c => (link_eq (h.link c)).2.2.2.1) (fun c => (link_eq (h.link c)).2.2.2.2) h.interest

theorem Neutral.inv (h : Neutral s s') (inv : s.Inv) : s'.Inv where
  pool := by
    rw [h.view, h.conf]
    exact inv.pool
  wired := h.wired inv.wired
  flight := h.flight inv.flight
  timers := h.timers inv.timers

/-- Sequences only grow where an object changes its user. -/
def Aged (s s' : State) : Prop :=
  ∀ c, s.history.use c ≤ s'.history.use c ∧ (s.Used c →
    (s'.conn c).sequence = (s.conn c).sequence ∧ s'.history.use c = s.history.use c ∨
      (s.conn c).sequence < (s'.conn c).sequence)

theorem Aged.refl (s : State) : Aged s s := fun _ => ⟨Nat.le_refl _, fun _ => .inl ⟨rfl, rfl⟩⟩

theorem Aged.sequence_le (h : Aged s s') (used : s.Used c) :
    (s.conn c).sequence ≤ (s'.conn c).sequence := by
  rcases (h c).2 used with ⟨hsame, -⟩ | hlt
  · exact Nat.le_of_eq hsame.symm
  · exact Nat.le_of_lt hlt

theorem Aged.trans (h : Aged s s') (h' : Aged s' t) : Aged s t := by
  intro c
  refine ⟨Nat.le_trans (h c).1 (h' c).1, fun used => ?_⟩
  have hused : s'.Used c := Nat.lt_of_lt_of_le used (h c).1
  rcases (h c).2 used with ⟨hseq, huse⟩ | hlt
  · rw [← hseq, ← huse]
    exact (h' c).2 hused
  · exact .inr (Nat.lt_of_lt_of_le hlt (h'.sequence_le hused))

theorem Neutral.aged (h : Neutral s s') : Aged s s' := fun c =>
  ⟨Nat.le_of_eq (congrFun h.use_eq c).symm,
    fun _ => .inl ⟨(link_eq (h.link c)).2.1, congrFun h.use_eq c⟩⟩

theorem Stamped.aged (aged : Aged s s') (h : s.Stamped head origin) : s'.Stamped head origin := by
  obtain ⟨hused, hle, horigin, hcurrent⟩ := h
  have huse := (aged head.lpCurconn).1
  refine ⟨Nat.lt_of_lt_of_le hused huse, ?_⟩
  rcases (aged head.lpCurconn).2 hused with ⟨hseq, hsame⟩ | hlt
  · rw [hseq, hsame]
    exact ⟨hle, horigin, hcurrent⟩
  · exact ⟨by omega, Nat.le_trans horigin huse, fun heq => by omega⟩

/-- What an execution preserves and how it moves the pool. -/
structure Evolves (s s' : State) : Prop where
  inv : s'.Inv
  steps : Relation.ReflTransGen (ObjectPool.Step s.conf.workerConnections) s.view s'.view
  conf : s'.conf = s.conf
  aged : Aged s s'
  sockets : s'.listenSocketList = s.listenSocketList

theorem Evolves.refl (inv : s.Inv) : Evolves s s :=
  ⟨inv, .refl, rfl, .refl s, rfl⟩

theorem Evolves.trans (h : Evolves s s') (h' : Evolves s' t) : Evolves s t where
  inv := h'.inv
  steps := h.steps.trans (h.conf ▸ h'.steps)
  conf := h'.conf.trans h.conf
  aged := h.aged.trans h'.aged
  sockets := h'.sockets.trans h.sockets

theorem Evolves.use_le (h : Evolves s s') (c : ConnId) : s.history.use c ≤ s'.history.use c :=
  (h.aged c).1

theorem Evolves.used (h : Evolves s s') (hc : s.Used c) : s'.Used c :=
  Nat.lt_of_lt_of_le hc (h.use_le c)

theorem Neutral.evolves (h : Neutral s s') (inv : s.Inv) : Evolves s s' where
  inv := h.inv inv
  steps := by
    rw [h.view]
  conf := h.conf
  aged := h.aged
  sockets := h.sockets

end State

end MyNginx
