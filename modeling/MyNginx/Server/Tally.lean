import Mathlib
import MyNginx.Server.Frames
import MyNginx.Server.Lasting
import MyNginx.Server.Wraparound

/-!
# The number of waiting replies of a connection

`isend_count` is reset when a use of an object begins, counted up where a reply is
queued and counted down where it is taken out to be sent. A reply that is discarded as
outdated is not counted down, but then it names no open connection with its sequence
any more. What can go wrong is the comparison itself: `JudgeOutdate` takes a sequence
as an `int`, and a message of an earlier use whose sequence is past 2^31 passes for one
of the present use when the sequence of the object has reached what the conversion
makes of it. Its reply is counted and names a sequence that is not the current one.
-/

namespace MyNginx

open Foundation

namespace State

variable {s s' t : State} {c d : ConnId} {env : Env} {reply : Reply}

/-- The entries of the send queue that name the connection with its current sequence. -/
def backlog (s : State) (c : ConnId) : Nat :=
  (s.sendMsgList.map fun reply => reply.head).count ⟨c, (s.conn c).sequence⟩

/-- Every open accepted connection counts its entries. -/
def Counted (s : State) : Prop := ∀ c, s.Open c → (s.conn c).isendCount = s.backlog c

/-- The counters are right, `JudgeOutdate` reads the sequences of the queue as they are,
and entries with the current sequence of an open connection pass it. -/
structure Tallied (s : State) : Prop where
  inv : s.Inv
  counted : s.Counted
  exact : ∀ reply ∈ s.sendMsgList,
    throughInt reply.head.msgCursequence = reply.head.msgCursequence
  alive : ∀ reply ∈ s.sendMsgList, ∀ c, s.Open c → reply.head = ⟨c, (s.conn c).sequence⟩ →
    0 < (s.conn c).fd

/-- An open connection was open before with the same values, or it is new and no entry
names it. -/
def Carries (s s' : State) (c : ConnId) : Prop :=
  s.Open c ∧ (s'.conn c).fd = (s.conn c).fd ∧ (s'.conn c).sequence = (s.conn c).sequence ∧
      (s'.conn c).isendCount = (s.conn c).isendCount ∨
    (s'.conn c).isendCount = 0 ∧ ∀ reply ∈ s.sendMsgList, reply.head ≠ ⟨c, (s'.conn c).sequence⟩

/-- A step that does not change the list. -/
theorem Tallied.of_carries (tallied : s.Tallied) (inv : s'.Inv)
    (list : s'.sendMsgList = s.sendMsgList) (carries : ∀ c, s'.Open c → Carries s s' c) :
    s'.Tallied where
  inv := inv
  counted c hopen := by
    rcases carries c hopen with ⟨hold, -, hseq, hcount⟩ | ⟨hzero, hnone⟩
    · rw [hcount, tallied.counted c hold, backlog, backlog, list, hseq]
    · have hbacklog : s'.backlog c = 0 := by
        rw [backlog, list, List.count_eq_zero]
        intro hmem
        obtain ⟨reply, hreply, hhead⟩ := List.mem_map.mp hmem
        exact hnone reply hreply hhead
      rw [hzero, hbacklog]
      rfl
  exact reply hreply := tallied.exact reply (list ▸ hreply)
  alive reply hreply c hopen hhead := by
    rw [list] at hreply
    rcases carries c hopen with ⟨hold, hfd, hseq, -⟩ | ⟨-, hnone⟩
    · rw [hfd]
      exact tallied.alive reply hreply c hold (hseq ▸ hhead)
    · exact absurd hhead (hnone reply hreply)

theorem Neutral.carries (h : Neutral s s')
    (count : (s'.conn c).isendCount = (s.conn c).isendCount) (hopen : s'.Open c) :
    Carries s s' c := by
  obtain ⟨hfd, hseq, -⟩ := link_eq (h.link c)
  exact .inl ⟨⟨h.used_iff.mp hopen.1, hfd ▸ hopen.2⟩, hfd, hseq, count⟩

theorem Move.sendMsgList_eq (h : Move env s s') : s'.sendMsgList = s.sendMsgList := by
  cases h with
  | quiet h => exact congrArg SendQueue.sendMsgList h.sendQueue
  | close used opened counted => rcases counted with rfl | rfl <;> rfl
  | admits nonneg fresh h =>
      cases h with
      | refused => rfl
      | opened taken room timer =>
          rcases timer with ⟨-, rfl⟩ | ⟨-, rfl⟩
          · exact congrArg SendQueue.sendMsgList taken.takes.replies
          · exact congrArg SendQueue.sendMsgList taken.takes.replies
      | rejected taken => exact congrArg SendQueue.sendMsgList taken.takes.replies
  | write used h =>
      cases h with
      | failed fails sends => exact (congrArg SendQueue.sendMsgList sends.queue).trans rfl
      | part lt puts sends => exact congrArg SendQueue.sendMsgList sends.queue
      | mismatch le puts differs sends => exact congrArg SendQueue.sendMsgList sends.queue
      | finished le puts equal sends =>
          exact (congrArg SendQueue.sendMsgList sends.queue).trans rfl
  | _ => rfl

theorem Moves.sendMsgList_eq (h : Moves env s s') : s'.sendMsgList = s.sendMsgList := by
  induction h with
  | refl => rfl
  | tail _ hmove ih => exact hmove.sendMsgList_eq.trans ih

/-- The loop and the threads beside it. -/
theorem Tallied.moves (tallied : s.Tallied) (h : Moves env s s') : s'.Tallied := by
  have hevolves := Moves.evolves h tallied.inv
  refine tallied.of_carries hevolves.inv (Moves.sendMsgList_eq h) fun c hopen => ?_
  cases Moves.lasts h tallied.inv hopen.1 hopen.2 with
  | same used opened use link ping count => exact .inl ⟨⟨used, opened⟩, link.1, link.2, count⟩
  | fresh use ping count =>
      refine .inr ⟨count, fun reply hreply hhead => ?_⟩
      obtain ⟨hused, hle, -⟩ := tallied.inv.flight.replies reply hreply
      rw [hhead] at hused hle
      -- A new use has a sequence that nothing was stamped with.
      rcases (hevolves.aged c).2 hused with ⟨-, hsame⟩ | hlt
      · omega
      · exact absurd hle (Nat.not_le.mpr hlt)

/-- `MsgSendInQueue` drops a reply, or queues it and counts it. -/
theorem msgSendInQueue_cases {thread : Thread} (h : s.msgSendInQueue thread reply = some s') :
    s' = s.lockSend thread ∨ s'.sendMsgList = s.sendMsgList ++ [reply] ∧
      ∀ c, (s'.conn c).isendCount =
        (s.conn c).isendCount + if c = reply.head.lpCurconn then 1 else 0 := by
  obtain rfl | rfl := eq_of_msgSendInQueue h
  · exact .inl rfl
  · refine .inr ⟨rfl, fun c => ?_⟩
    by_cases hc : c = reply.head.lpCurconn <;> simp [semPost, countConn, hc]

theorem backlog_append (list : s'.sendMsgList = s.sendMsgList ++ [reply])
    (sequence : (s'.conn c).sequence = (s.conn c).sequence) :
    s'.backlog c = s.backlog c + if reply.head = ⟨c, (s.conn c).sequence⟩ then 1 else 0 := by
  rw [backlog, backlog, list, sequence, List.map_append, List.count_append]
  simp [List.count_singleton]

/-- A reply to a message with the sequence of its connection is queued and counted. -/
theorem Tallied.push (tallied : s.Tallied) {thread : Thread}
    (stamped : s.Stamped reply.head reply.origin)
    (current : (s.conn reply.head.lpCurconn).judgeOutdate reply.head.msgCursequence = true)
    (named : reply.head.msgCursequence = (s.conn reply.head.lpCurconn).sequence)
    (h : s.msgSendInQueue thread reply = some s') : s'.Tallied := by
  have hsteady := steady_msgSendInQueue stamped h
  have hinv := hsteady.inv tallied.inv
  obtain ⟨hfd, -, hthrough⟩ := Connection.judgeOutdate_iff.mp current
  rcases msgSendInQueue_cases h with rfl | ⟨hlist, hcount⟩
  · exact tallied.of_carries hinv rfl fun c hopen => .inl ⟨hopen, rfl, rfl, rfl⟩
  have hopen_iff : ∀ c, s'.Open c → s.Open c := fun c =>
    (Open.congr (congrFun hsteady.use_eq c) (hsteady.link c)).mp
  have hmem : ∀ r, r ∈ s'.sendMsgList → r ∈ s.sendMsgList ∨ r = reply := by simp [hlist]
  -- The reply names a connection with its current sequence if it names it at all.
  have hhead : ∀ c, reply.head = ⟨c, (s.conn c).sequence⟩ ↔ c = reply.head.lpCurconn := by
    intro c
    constructor
    · exact fun he => (congrArg MsgHeader.lpCurconn he).symm
    · rintro rfl
      rw [← named]
  refine {
    inv := hinv
    counted := fun c hopen => ?_
    exact := fun r hr => ?_
    alive := fun r hr c hopen hname => ?_ }
  · have hcounted := tallied.counted c (hopen_iff c hopen)
    have hbacklog := backlog_append (c := c) hlist (link_eq (hsteady.link c)).2.1
    rw [hcount, hbacklog, hcounted]
    simp only [hhead]
    split <;> rfl
  · rcases hmem r hr with hold | rfl
    · exact tallied.exact r hold
    · exact hthrough.symm.trans named.symm
  · obtain ⟨hsamefd, hsameseq, -⟩ := link_eq (hsteady.link c)
    rw [hsameseq] at hname
    rw [hsamefd]
    rcases hmem r hr with hold | rfl
    · exact tallied.alive r hold c (hopen_iff c hopen) hname
    · rw [(hhead c).mp hname]
      exact hfd

/-- Taking out the element `i`. -/
theorem backlog_erase {i : Nat} (element : s.sendMsgList[i]? = some reply)
    (list : s'.sendMsgList = s.sendMsgList.eraseIdx i)
    (sequence : (s'.conn c).sequence = (s.conn c).sequence) :
    s.backlog c = s'.backlog c + if reply.head = ⟨c, (s.conn c).sequence⟩ then 1 else 0 := by
  obtain ⟨hlt, rfl⟩ := List.getElem?_eq_some_iff.mp element
  have hperm := (List.getElem_cons_eraseIdx_perm hlt).map fun reply : Reply => reply.head
  rw [backlog, backlog, list, sequence, ← hperm.count_eq, List.map_cons, List.count_cons]
  simp

/-- What the send thread does to the counters: it discards an element, passes over it, or
takes it out and counts it off. -/
theorem Entry.counts {i : Nat} {next : SendNext}
    (h : Entry s i reply reply.head.lpCurconn env s' next) :
    ((s.conn reply.head.lpCurconn).judgeOutdate reply.head.msgCursequence = false ∧
        s'.sendMsgList = s.sendMsgList.eraseIdx i ∧
        ∀ c, (s'.conn c).isendCount = (s.conn c).isendCount) ∨
      s' = s ∨
      (s.conn reply.head.lpCurconn).judgeOutdate reply.head.msgCursequence = true ∧
        s'.sendMsgList = s.sendMsgList.eraseIdx i ∧
        ∀ c, (s'.conn c).isendCount =
          (s.conn c).isendCount - if c = reply.head.lpCurconn then 1 else 0 := by
  have hcounts : ∀ {out queue written}, Sends s reply.head.lpCurconn out queue written s' →
      ∀ c, (s'.conn c).isendCount =
        if c = reply.head.lpCurconn then out.isendCount else (s.conn c).isendCount := by
    intro out queue written sends c
    split
    next hc => rw [hc, congrArg Outgoing.isendCount sends.self]
    next hc => exact congrArg Outgoing.isendCount (sends.other c hc)
  have htaken : ∀ {out written},
      Sends s reply.head.lpCurconn out (s.toSendQueue.dequeue i) written s' →
      out.isendCount = (s.conn reply.head.lpCurconn).isendCount - 1 →
      s'.sendMsgList = s.sendMsgList.eraseIdx i ∧ ∀ c, (s'.conn c).isendCount =
        (s.conn c).isendCount - if c = reply.head.lpCurconn then 1 else 0 := by
    intro out written sends hout
    refine ⟨congrArg SendQueue.sendMsgList sends.queue, fun c => ?_⟩
    rw [hcounts sends c]
    split
    next hc => rw [hout, hc]
    next hc => exact (Int.sub_zero _).symm
  cases h with
  | discarded outdated sends =>
      refine .inl ⟨outdated, congrArg SendQueue.sendMsgList sends.queue, fun c => ?_⟩
      rw [hcounts sends c]
      split
      next hc => rw [hc]; rfl
      next hc => rfl
  | skipped current busy same => exact .inr (.inl same)
  | failed current idle fails sends => exact .inr (.inr ⟨current, htaken sends rfl⟩)
  | part current idle lt puts sends => exact .inr (.inr ⟨current, htaken sends rfl⟩)
  | mismatch current idle puts differs sends => exact .inr (.inr ⟨current, htaken sends rfl⟩)
  | finished current idle puts equal sends => exact .inr (.inr ⟨current, htaken sends rfl⟩)

/-- The send thread handles an element. -/
theorem Tallied.entry (tallied : s.Tallied) {i : Nat} {next : SendNext}
    (element : s.sendMsgList[i]? = some reply)
    (h : Entry s i reply reply.head.lpCurconn env s' next) : s'.Tallied := by
  have hsteady := h.steady
  have hinv := hsteady.inv tallied.inv
  have hmem : reply ∈ s.sendMsgList := List.mem_of_getElem? element
  have hopen_iff : ∀ c, s'.Open c → s.Open c := fun c =>
    (Open.congr (congrFun hsteady.use_eq c) (hsteady.link c)).mp
  -- What is left of the list was there before.
  have hrest : s'.sendMsgList = s.sendMsgList.eraseIdx i →
      (∀ c, s'.Open c → (s'.conn c).isendCount = s'.backlog c) → s'.Tallied := by
    intro hlist hcounted
    have hold : ∀ r ∈ s'.sendMsgList, r ∈ s.sendMsgList := by
      intro r hr
      rw [hlist] at hr
      exact List.eraseIdx_subset hr
    refine ⟨hinv, hcounted, fun r hr => tallied.exact r (hold r hr), fun r hr c hopen hname => ?_⟩
    obtain ⟨hsamefd, hsameseq, -⟩ := link_eq (hsteady.link c)
    rw [hsameseq] at hname
    rw [hsamefd]
    exact tallied.alive r (hold r hr) c (hopen_iff c hopen) hname
  rcases h.counts with ⟨outdated, hlist, hcount⟩ | rfl | ⟨current, hlist, hcount⟩
  · refine hrest hlist fun c hopen => ?_
    have hopen := hopen_iff c hopen
    have hbacklog := backlog_erase (c := c) element hlist (link_eq (hsteady.link c)).2.1
    have hnot : reply.head ≠ ⟨c, (s.conn c).sequence⟩ := by
      intro hhead
      have hpos := tallied.alive reply hmem c hopen hhead
      have hexact := tallied.exact reply hmem
      have hidle := tallied.inv.wired.idle c hopen.1 hopen.2
      rw [hhead] at outdated hexact
      have hcurrent : (s.conn c).judgeOutdate (s.conn c).sequence = true :=
        Connection.judgeOutdate_iff.mpr ⟨hpos, by rw [hidle]; decide, hexact.symm⟩
      rw [hcurrent] at outdated
      cases outdated
    rw [if_neg hnot] at hbacklog
    rw [hcount, tallied.counted c hopen, hbacklog]
    rfl
  · exact tallied
  · refine hrest hlist fun c hopen => ?_
    have hopen := hopen_iff c hopen
    have hbacklog := backlog_erase (c := c) element hlist (link_eq (hsteady.link c)).2.1
    have hthrough := (Connection.judgeOutdate_iff.mp current).2.2
    have hexact := tallied.exact reply hmem
    have hhead : reply.head = ⟨c, (s.conn c).sequence⟩ ↔ c = reply.head.lpCurconn := by
      constructor
      · exact fun he => (congrArg MsgHeader.lpCurconn he).symm
      · rintro rfl
        rw [hthrough, hexact]
    simp only [hhead] at hbacklog
    rw [hcount, tallied.counted c hopen, hbacklog]
    split <;> omega

/-- Handling a message leaves the counters and the sequences alone. -/
theorem Took.isendCount {now : Time} {r : Option Reply} (h : Took s now s' r) (c : ConnId) :
    (s'.conn c).isendCount = (s.conn c).isendCount ∧ s'.sendMsgList = s.sendMsgList := by
  cases h with
  | null queue => exact ⟨rfl, rfl⟩
  | message queue processed =>
      cases processed with
      | dropped silent => exact ⟨rfl, rfl⟩
      | heartbeat current beat answers =>
          rename_i msg rest reply
          refine ⟨?_, rfl⟩
          by_cases hreply : c = reply.head.lpCurconn <;> by_cases hmsg : c = msg.head.lpCurconn <;>
            simp [supposeSend, modifyConn, hreply, hmsg, answers.1]
      | answered current code answers =>
          rename_i msg rest reply
          refine ⟨?_, rfl⟩
          by_cases hreply : c = reply.head.lpCurconn <;> simp [supposeSend, modifyConn, hreply]

theorem Tallied.took (tallied : s.Tallied) {now : Time} {r : Option Reply}
    (h : Took s now s' r) : s'.Tallied := by
  have hneutral := h.neutral
  exact tallied.of_carries (hneutral.evolves tallied.inv).inv (h.isendCount 0).2
    fun c hopen => hneutral.carries (h.isendCount c).1 hopen

end State

namespace Server

open State

variable {boot : Boot} {s s' : State}

/-- The message that a worker takes has the sequence of its connection, or it is found
to be outdated. -/
def Genuine (s : State) : Action → Prop
  | .work _ _ =>
      match s.msgqueue with
      | some msg :: _ =>
          (s.conn msg.head.lpCurconn).judgeOutdate msg.head.msgCursequence = true →
            msg.head.msgCursequence = (s.conn msg.head.lpCurconn).sequence
      | _ => True
  | _ => True

instance (s : State) (action : Action) : Decidable (Genuine s action) :=
  match action with
  | .work _ _ =>
      match h : s.msgqueue with
      | some msg :: _ => decidable_of_iff
          ((s.conn msg.head.lpCurconn).judgeOutdate msg.head.msgCursequence = true →
            msg.head.msgCursequence = (s.conn msg.head.lpCurconn).sequence)
          (by simp only [Genuine, h])
      | none :: _ => isTrue (by simp only [Genuine, h])
      | [] => isTrue (by simp only [Genuine, h])
  | .loop _ => isTrue trivial
  | .sendEntry _ _ => isTrue trivial

theorem tallied_work (tallied : s.Tallied) {w : Nat} {now : Time}
    (genuine : Genuine s (.work w now)) (h : work s w now = some s') : s'.Tallied := by
  obtain ⟨t, htook, rfl⟩ | ⟨t, reply, htook, h⟩ := work_cases h
  · exact tallied.took htook
  · have hneutral := htook.neutral
    have hlink := fun c => link_eq (hneutral.link c)
    have hstamped := (stamped_congr (fun c => (hlink c).2.1) hneutral.use_eq).mpr
      (htook.stamped tallied.inv)
    -- The reply has the header of the message, which was found to be current.
    have hcurrent : (s.conn reply.head.lpCurconn).judgeOutdate reply.head.msgCursequence = true ∧
        reply.head.msgCursequence = (s.conn reply.head.lpCurconn).sequence := by
      cases htook with
      | message queue processed =>
          simp only [Genuine, queue] at genuine
          have hhead := processed.answers.1
          rw [hhead]
          cases processed with
          | heartbeat current => exact ⟨current, genuine current⟩
          | answered current => exact ⟨current, genuine current⟩
    refine (tallied.took htook).push hstamped ?_ ?_ h
    · have hjudge := Connection.judgeOutdate_iff.mp hcurrent.1
      obtain ⟨hfd, hseq, hrecy, -⟩ := hlink reply.head.lpCurconn
      exact Connection.judgeOutdate_iff.mpr (by rw [hfd, hseq, hrecy]; exact hjudge)
    · rw [(hlink reply.head.lpCurconn).2.1]
      exact hcurrent.2

theorem tallied_sendOne (tallied : s.Tallied) {i : Nat} {env : Env}
    (h : sendOne s i env = some s') : s'.Tallied := by
  obtain ⟨t, next, hentry, hlast⟩ := sendOne_cases h
  obtain ⟨reply, hreply, hentry⟩ := sendEntry_entry tallied.inv hentry
  have htallied := tallied.entry hreply hentry
  rcases hlast with rfl | rfl
  · exact htallied
  · exact htallied.of_carries (steady_lockSend.inv htallied.inv) rfl
      fun c hopen => .inl ⟨hopen, rfl, rfl, rfl⟩

theorem step_tallied (tallied : s.Tallied) {action : Action} (genuine : Genuine s action)
    (h : step s action = some s') : s'.Tallied := by
  cases action with
  | loop action => exact tallied.moves (loopStep_moves tallied.inv h)
  | work w now => exact tallied_work tallied genuine h
  | sendEntry i env => exact tallied_sendOne tallied h

theorem Starts.tallied (hstart : boot.Starts s) : s.Tallied := by
  obtain ⟨⟨all, htaking⟩, -⟩ := hstart.spec
  have hlist : s.sendMsgList = [] := congrArg SendQueue.sendMsgList htaking.sends
  have hnone : ∀ c, ¬ s.Open c := by
    intro c hopen
    exact absurd hopen.1 (by simp [Used, htaking.history, Boot.state])
  exact ⟨hstart.inv, fun c hopen => absurd hopen (hnone c), by simp [hlist], by simp [hlist]⟩

/-- While every message that passes for a current one is current, the counter of every
open connection is the number of its entries. -/
theorem isendCount_eq_backlog (hstart : boot.Starts s) {actions : List Action}
    (genuine : Along step Genuine s actions) : Throughout step Counted s actions :=
  (throughout_of_along (fun _ _ _ tallied hc hs => step_tallied tallied hc hs)
    (Starts.tallied hstart) genuine).mono fun _ tallied => tallied.counted

/-- A client whose ping is answered. -/
theorem isendCount_eq_backlog_ping : ∃ s, Boot.small.Starts s ∧ Throughout step Counted s
    (acceptOn 5 100 ++ eventOn 5 epollin { recv := .data (encodeHeader pkgHeaderLen 0 0) } ++
      [.work 0 101]) := by
  have hrun : (Boot.small.state.epollEventInit [true]).map (fun s =>
      decide (Along step Genuine s (acceptOn 5 100 ++
        eventOn 5 epollin { recv := .data (encodeHeader pkgHeaderLen 0 0) } ++
        [.work 0 101]))) = some true := by decide
  obtain ⟨s, hstart, hgenuine⟩ := Option.map_eq_some_iff.mp hrun
  exact ⟨s, ⟨_, hstart⟩, isendCount_eq_backlog ⟨_, hstart⟩ (of_decide_eq_true hgenuine)⟩

/-- The client sends a ping, which waits in the receive queue. -/
theorem Visited.request {n : Nat} {t : Time} (h : Visited s n t []) :
    ∃ s' msg, run step s (eventOn 5 epollin { recv := .data (encodeHeader pkgHeaderLen 0 0) }) =
        some s' ∧ Visited s' n t [some msg] ∧ msg.head = ⟨1, n⟩ ∧
      msg.buf = encodeHeader pkgHeaderLen 0 0 ++ [0] := by
  have hping : encodeHeader pkgHeaderLen 0 0 = [0, 8, 0, 0, 0, 0, 0, 0] := by decide
  have hlen : pkgLen [0, 8, 0, 0, 0, 0, 0, 0] = pkgHeaderLen := by decide
  have height : pkgHeaderLen = 8 := rfl
  rw [hping]
  simp only [eventOn, run, step, loopStep, epollWait_one h.events h.client, Option.bind_some]
  simp [handleEvent, handleIn, h.connected, callHandler, eventReadableRequestHandler,
    receiveHeader, pkgHeaderRecv, recvproc, sysRecv, h.used, has_epollin, handleOut, height]
  simp [store, Heap.update, overwrite, advance, pkgHeaderProc, setMemory, hlen, height,
    pkgMaxLength, pkgBodyProc, inMsgRecv, freeMemory, Heap.free]
  refine ⟨⟨⟨1, n⟩, s.history.use 1, [0, 8, 0, 0, 0, 0, 0, 0, 0]⟩, ?_, rfl, by simp⟩
  constructor
  · constructor <;>
      simp [h.registered, h.listening, h.standby, h.sequence, h.objects, h.accept4, h.inbox, h.conf,
        h.outbox, h.recy, h.running, h.timer, stampedMessage, putToStateMach, height]
  · simp [h.free]
  · simp [h.online]
  · simp [h.client]
  · simp [h.used]
  · simpa [Used] using h.accepted
  · simp [h.connected, putToStateMach, Incoming.start]
  · simp [h.timers]

/-- The ping of an earlier use is taken for one of the present use. -/
theorem Visited.answered {n m : Nat} {t : Time} {msg : Message}
    (h : Visited s n t [some msg]) (now : Time) (head : msg.head = ⟨1, m⟩) (ne : m ≠ n)
    (through : n = throughInt m) (buf : msg.buf = encodeHeader pkgHeaderLen 0 0 ++ [0]) :
    ∃ s', run step s [.work 0 now] = some s' ∧ ¬ s'.Counted := by
  have hlen : pkgLen msg.buf = pkgHeaderLen := by rw [buf]; decide
  have hcrc : crc32 msg.buf = 0 := by rw [buf]; decide
  have hcode : msgCode msg.buf = 0 := by rw [buf]; decide
  have hcurrent : (s.conn 1).judgeOutdate m = true :=
    Connection.judgeOutdate_iff.mpr ⟨by rw [h.connected.1]; decide,
      by rw [h.connected.2.2.2.1]; decide, h.sequence.trans through⟩
  have hnone : (pkgHeaderLen + 65536 - pkgHeaderLen) % 65536 = 0 := by decide
  simp only [run, step, Server.work, takeMessage, getMsgItem, h.inbox, reduceCtorEq, if_false,
    Option.bind_some, threadRecvProc, hlen, hnone, head, hcurrent, Bool.true_eq_false, hcrc,
    ne_eq, not_true_eq_false, and_false, hcode]
  simp [statusHandleset, handlePing, hlen, lenStructPing, msgSendInQueue, head, supposeSend,
    h.outbox, overloaded, h.connected]
  intro hcounted
  have hone := hcounted 1 ⟨h.accepted, by simp [countConn, head, h.connected]⟩
  simp [countConn, backlog, h.connected, h.outbox, h.sequence, head, ne] at hone

/-- A ping of the use 2^31 + 1 that no worker takes until the object has been used 2^63
times. -/
theorem isendCount_miscounted :
    ¬ ∀ (boot : Boot) (s : State) (actions : List Action), boot.Starts s →
      Throughout step Counted s actions := by
  intro hclaim
  obtain ⟨s₀, actions, s₁, t₁, hstart, hr, hvisited⟩ := visited_of_launch
  obtain ⟨s₂, msg, hrequest, hsent, hhead, hbuf⟩ := hvisited.request
  obtain ⟨s₃, hleave, hresting⟩ := hsent.leave
  obtain ⟨s₄, hvisits, hlast⟩ := hresting.visits (2 ^ 63 - 2 ^ 31 - 1) 0
  obtain ⟨s₅, hvisit, hreturned⟩ := hlast.visit 0
  obtain ⟨s₆, hwork, hwrong⟩ := hreturned.answered 0 hhead (by decide) (by decide) hbuf
  have hrun : run step s₀ (actions ++ (eventOn 5 epollin
      { recv := .data (encodeHeader pkgHeaderLen 0 0) } ++ (leaves t₁ ++
        (visits (2 ^ 63 - 2 ^ 31 - 1) 0 ++ (acceptOn 5 0 ++ [.work 0 0]))))) = some s₆ := by
    simp only [run_append, hr, hrequest, hleave, hvisits, hvisit, Option.bind_some]
    exact hwork
  exact hwrong ((hclaim _ _ _ hstart).last hrun)

end Server

end MyNginx
