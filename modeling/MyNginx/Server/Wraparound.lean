import MyNginx.Server.Frames

/-!
# A connection object that has served for a long time

Each visit of a client, from its accept until its object is back in the free queue,
adds 2 to the sequence of the object. `JudgeOutdate` takes a sequence as an `int`, so
from 2^31 on, after 2^30 visits, it finds no sequence current. The visits here are those
of a server with a single object, whose clients leave before they send anything.
-/

namespace MyNginx

open Foundation

/-- One free connection object besides the standby connection of the listening socket 3. -/
def Boot.lone : Boot where
  conf := ⟨1, 2, 0, 5, 1⟩
  raw := Boot.small.raw
  listenFds := [3]
  nodup := Boot.small.nodup
  nonneg := Boot.small.nonneg

namespace Server

open State

variable {s : State} {n : Nat} {t : Time} {inbox : List (Option Message)}

/-- The server with the object 1, whose sequence is `n`, between two events. No worker
looks at the receive queue. -/
structure Lone (s : State) (n : Nat) (inbox : List (Option Message)) : Prop where
  conf : s.conf = Boot.lone.conf
  objects : s.connectionList = [0, 1]
  recy : s.recyConnectionList = [] ∧ s.recyConnectionCount = 0 ∧ s.recyThread = true
  running : s.stopEvent = false
  accept4 : s.useAccept4 = true
  registered : s.interest 3 = some (epollin ||| epollrdhup, 0)
  listening : s.openFds 3 = true
  standby : (s.conn 0).fd = 3 ∧ (s.conn 0).rhandler = some .accept
  sequence : (s.conn 1).sequence = n
  timer : s.timer = .idle
  events : s.events = []
  inbox : s.msgqueue = inbox
  outbox : s.sendMsgList = [] ∧ s.msgtosendCount = 0 ∧ s.sendmutex = none

/-- There is no client, and the object is free. -/
structure Resting (s : State) (n : Nat) (inbox : List (Option Message)) : Prop
    extends Lone s n inbox where
  free : s.freeConnectionList = [1]
  online : s.onlineCount = 0
  unregistered : s.interest 5 = none
  unused : s.openFds 5 = false
  timers : s.timermap = [] ∧ s.timermapSize = 0

/-- A client was accepted on the descriptor 5 at time `t` and has not sent anything. -/
structure Visited (s : State) (n : Nat) (t : Time) (inbox : List (Option Message)) : Prop
    extends Lone s n inbox where
  free : s.freeConnectionList = []
  online : s.onlineCount = 1
  client : s.interest 5 = some (epollin ||| epollrdhup, 1)
  used : s.openFds 5 = true
  accepted : s.Used 1
  connected : (s.conn 1).fd = 5 ∧ (s.conn 1).rhandler = some .readable ∧
    (s.conn 1).istimeout = false ∧ (s.conn 1).inrecyList = 0 ∧ (s.conn 1).curstat = .hdInit ∧
    (s.conn 1).isendCount = 0
  timers : s.timermap = [(t + 5, ⟨1, n⟩)] ∧ s.timermapSize = 1 ∧ s.timerValue = t + 5

theorem has_epollin : epollin.has epollin = true ∧ epollin.has epollout = false := by decide

theorem epollWait_one {fd : Fd} {c : ConnId} (events : s.events = [])
    (reg : s.interest fd = some (epollin ||| epollrdhup, c)) :
    s.epollWait [(fd, epollin)] = some { s with events := [(c, epollin)] } := by
  have hmask : epollin &&& ~~~(epollin ||| epollrdhup ||| epollerr ||| epollhup) = 0 := by decide
  simp only [epollWait, reportEvent, events, reg, if_true, hmask, List.mapM_cons, List.mapM_nil,
    Option.pure_def, Option.bind_eq_bind, Option.bind_some, Option.map_some]

/-- A client comes. -/
theorem Resting.visit (h : Resting s n inbox) (t : Time) :
    ∃ s', run step s (acceptOn 5 t) = some s' ∧ Visited s' (n + 1) t inbox := by
  simp only [acceptOn, run, step, loopStep, epollWait_one h.events h.registered, Option.bind_some]
  simp only [handleEvent, handleIn, h.standby, callHandler, eventAcceptHandler, acceptLoop,
    has_epollin, h.unused, h.listening, h.accept4, acceptClient, h.online, h.conf, Boot.lone,
    poolExhausted, h.objects, h.free, getConnectionItem, handleOut]
  simp [toSizeT, epollOperEvent, epollCtl, h.unregistered, getOneToUse, addToTimerQueue,
    TimerQueue.addTimer, TimerQueue.insertTimer, TimerQueue.setTimerValue, h.timers]
  constructor
  · constructor <;>
      simp [h.recy, h.running, h.registered, h.listening, h.standby, h.sequence, h.timer, h.inbox,
        h.outbox, Boot.lone]
  · simp
  · simp
  · simp [operMask]
  · simp
  · simp [Used]
  · simp [Incoming.start]
  · simp [h.sequence]

/-- It shuts down, its object is recycled, and a pass of the timer thread removes its entry. -/
def leaves (t : Time) : List Action :=
  eventOn 5 epollin { recv := .zero .econnreset, now := t } ++
    [.loop (.recycle [t + 1]), .loop (.timerBegin (t + 5)), .loop .timerCheck, .loop .timerCheck]

theorem Visited.leave (h : Visited s n t inbox) :
    ∃ s', run step s (leaves t) = some s' ∧ Resting s' (n + 1) inbox := by
  have hlt : t < t + 1 := Int.lt_succ t
  simp only [leaves, eventOn, List.cons_append, List.nil_append, run, step, loopStep,
    epollWait_one h.events h.client, Option.bind_some]
  simp [handleEvent, handleIn, h.connected, callHandler, eventReadableRequestHandler,
    receiveHeader, pkgHeaderRecv, recvproc, sysRecv, h.used, closeAcceptedConnection,
    inRecyConnQueue, h.recy, has_epollin, handleOut, epollOperEvent, epollCtl, h.client]
  simp [recyConnThreadFunc, h.recy, h.running, h.conf, Boot.lone, recyLoop, recycle, hlt]
  simp [timerBegin, h.timer, h.timers, TimerQueue.collectOverTime, TimerQueue.getOverTime,
    TimerQueue.removeTimerFrist, TimerQueue.insertTimer, TimerQueue.refreshTimerValue,
    TimerQueue.setTimerValue]
  simp [timeCheckingProc, Connection.judgeOutdate, TimerQueue.deleteFromTimerQueue,
    TimerQueue.refreshTimerValue]
  constructor
  · constructor <;>
      simp [h.registered, h.listening, h.standby, h.sequence, h.objects, h.accept4, h.inbox,
        h.outbox, Boot.lone]
  · simp [h.free]
  · simp [h.online]
  · simp
  · simp
  · simp

/-- `k` clients come and leave, ten seconds apart. -/
def visits : Nat → Time → List Action
  | 0, _ => []
  | k + 1, t => acceptOn 5 t ++ leaves t ++ visits k (t + 10)

theorem Resting.visits (h : Resting s n inbox) (k : Nat) (t : Time) :
    ∃ s', run step s (visits k t) = some s' ∧ Resting s' (n + 2 * k) inbox := by
  induction k generalizing s n t with
  | zero => exact ⟨s, rfl, h⟩
  | succ k ih =>
      obtain ⟨s₁, hvisit, hvisited⟩ := h.visit t
      obtain ⟨s₂, hleave, hresting⟩ := hvisited.leave
      obtain ⟨s', hrest, hlast⟩ := ih hresting (t + 10)
      refine ⟨s', ?_, ?_⟩
      · simp only [Server.visits, run_append, hvisit, Option.bind_some, hleave, hrest]
      · have hsum : n + 1 + 1 + 2 * k = n + 2 * (k + 1) := by omega
        exact hsum ▸ hlast

/-- The process after its start. -/
theorem resting_of_launch : ∃ s, Boot.lone.Starts s ∧ Resting s 0 [] := by
  have hinit : (Boot.lone.state.epollEventInit [true]).map (fun s => decide
      ((s.conf = Boot.lone.conf ∧ s.connectionList = [0, 1] ∧
        (s.recyConnectionList = [] ∧ s.recyConnectionCount = 0 ∧ s.recyThread = true) ∧
        s.stopEvent = false ∧ s.useAccept4 = true ∧
        s.interest 3 = some (epollin ||| epollrdhup, 0) ∧ s.openFds 3 = true ∧
        ((s.conn 0).fd = 3 ∧ (s.conn 0).rhandler = some .accept) ∧
        (s.conn 1).sequence = 0 ∧ s.timer = .idle ∧ s.events = [] ∧ s.msgqueue = [] ∧
        s.sendMsgList.isEmpty = true ∧ s.msgtosendCount = 0 ∧ s.sendmutex = none) ∧
      s.freeConnectionList = [1] ∧ s.onlineCount = 0 ∧ s.interest 5 = none ∧
      s.openFds 5 = false ∧ s.timermap = [] ∧ s.timermapSize = 0)) = some true := by decide
  obtain ⟨s, hstart, heq⟩ := Option.map_eq_some_iff.mp hinit
  obtain ⟨⟨hconf, hobjects, hrecy, hstop, haccept, hreg, hlisten, hstandby, hseq, htimer, hevents,
    hinbox, houtbox, hcount, hmutex⟩, hfree, honline, hunreg, hunused, htimers⟩ :=
    of_decide_eq_true heq
  exact ⟨s, ⟨_, hstart⟩, ⟨⟨hconf, hobjects, hrecy, hstop, haccept, hreg, hlisten, hstandby, hseq,
    htimer, hevents, hinbox, List.isEmpty_iff.mp houtbox, hcount, hmutex⟩, hfree, honline, hunreg,
    hunused, htimers⟩⟩

/-- After 2^30 visits a client is accepted with a sequence that is not an `int`. -/
theorem visited_of_launch : ∃ s₀ actions s t, Boot.lone.Starts s₀ ∧
    run step s₀ actions = some s ∧ Visited s (2 ^ 31 + 1) t [] := by
  obtain ⟨s₀, hstart, hfirst⟩ := resting_of_launch
  obtain ⟨s₁, hvisits, hresting⟩ := hfirst.visits (2 ^ 30) 0
  obtain ⟨s, hvisit, hvisited⟩ := hresting.visit (10 * 2 ^ 30)
  refine ⟨s₀, visits (2 ^ 30) 0 ++ acceptOn 5 (10 * 2 ^ 30), s, 10 * 2 ^ 30, hstart, ?_, hvisited⟩
  rw [run_append, hvisits]
  exact hvisit

end Server

end MyNginx
