import MyNginx.Server.Frames
import MyNginx.Server.Keeps

/-!
# No reply crosses to a later client

The reply in progress on a connection answers a request of its current use, and it
is forgotten before the object becomes free. Every byte written belongs to such a
reply, as long as sequences stay small enough for `JudgeOutdate`, and goes to the descriptor
that the connection has in this use.
-/

namespace MyNginx

open Foundation

namespace State

variable {s s' t : State} {c d : ConnId} {env : Env}

/-- A reply is the business of the current use of the connection it names. -/
def Owns (s : State) (c : ConnId) (reply : Reply) : Prop :=
  reply.head.lpCurconn = c ∧ reply.origin = s.history.use c

instance (s : State) (c : ConnId) : DecidablePred (s.Owns c) := fun _ =>
  inferInstanceAs (Decidable (_ ∧ _))

/-- The replies in progress and the bytes on the wire have the right owners. -/
structure Owned (s : State) : Prop where
  current : ∀ c, s.Used c → ∀ p, (s.conn c).pSendbuf = some p → s.Owns c p.reply
  wire : ∀ w ∈ s.history.wire,
    w.reply.head.lpCurconn = w.conn ∧ w.reply.origin = w.use ∧ w.bytes <:+: w.reply.buf

theorem Owned.keeps (h : s.Owned) (hk : Keeps s s') : s'.Owned where
  current c used p hp := by
    have hold : ∀ q, (s.conn c).pSendbuf = some q → q.reply = p.reply →
        s'.history.use c = s.history.use c → s'.Owns c p.reply := by
      intro q hq hreply huse
      rw [Used, huse] at used
      rw [Owns, huse, ← hreply]
      exact h.current c used q hq
    cases hk.line c used with
    | same use live outgoing =>
        rw [congrArg Outgoing.pSendbuf outgoing] at hp
        exact hold p hp rfl use
    | gone use dead sendbuf => exact hold p (sendbuf p hp).1 rfl use
    | fresh use sendbuf idle =>
        rw [sendbuf] at hp
        cases hp
  wire w hw := h.wire w (hk.wire ▸ hw)

/-- What is put on the wire belongs to the owner of the reply it is read from. -/
theorem Puts.owned {buf : Option SendBuf} {len n : Nat} {written : List Written}
    (h : s.Puts c env buf len n written) (owns : ∀ p, buf = some p → s.Owns c p.reply) :
    ∀ w ∈ written,
      w.reply.head.lpCurconn = w.conn ∧ w.reply.origin = w.use ∧ w.bytes <:+: w.reply.buf := by
  intro w hw
  rcases h with ⟨-, -, rfl⟩ | ⟨p, -, hp, -, rfl⟩
  · cases hw
  · obtain rfl := List.mem_singleton.mp hw
    obtain ⟨hconn, horigin⟩ := owns p hp
    exact ⟨hconn, horigin, (List.take_prefix _ _).isInfix.trans (List.drop_suffix _ _).isInfix⟩

theorem Owned.sends (h : s.Owned) {out : Outgoing} {queue : SendQueue} {written : List Written}
    (hs : Sends s c out queue written s') (hout : ∀ p, out.pSendbuf = some p → s.Owns c p.reply)
    (hwritten : ∀ w ∈ written,
      w.reply.head.lpCurconn = w.conn ∧ w.reply.origin = w.use ∧ w.bytes <:+: w.reply.buf) :
    s'.Owned where
  current d used p hp := by
    rw [hs.steady.used_iff] at used
    rw [Owns, hs.steady.use_eq]
    by_cases hd : d = c
    · subst hd
      rw [congrArg Outgoing.pSendbuf hs.self] at hp
      exact hout p hp
    · rw [congrArg Outgoing.pSendbuf (hs.other d hd)] at hp
      exact h.current d used p hp
  wire w hw := by
    rw [hs.wire] at hw
    exact (List.mem_append.mp hw).elim (h.wire w) (hwritten w)

theorem Owned.writes (h : s.Owned) (used : s.Used c) (hs : Writes s c env s') : s'.Owned := by
  have howns := h.current c used
  cases hs with
  | failed fails sends => exact h.sends sends (fun _ hp => by cases hp) fun _ hw => by cases hw
  | part lt puts sends =>
      refine h.sends sends (fun p hp => ?_) (puts.owned howns)
      obtain ⟨q, hq, rfl⟩ := Option.map_eq_some_iff.mp hp
      exact howns q hq
  | mismatch le puts differs sends => exact h.sends sends howns (puts.owned howns)
  | finished le puts equal sends =>
      exact h.sends sends (fun _ hp => by cases hp) (puts.owned howns)

/-- What the loop and the threads beside it do keeps the owners. -/
theorem Moves.owned (h : Moves env s s') (inv : s.Inv) (cleared : s.Cleared) (owned : s.Owned) :
    s'.Owned := by
  induction h with
  | refl => exact owned
  | tail hs hmove ih =>
      rcases hmove.keeps (Moves.evolves hs inv).inv (Moves.cleared hs inv cleared) with
        hkeeps | ⟨c, used, hwrites⟩
      · exact ih.keeps hkeeps
      · exact ih.writes used hwrites

/-- Sequences small enough for the `int` parameter of `JudgeOutdate`. -/
def Bounded (s : State) : Prop := ∀ c ∈ s.connectionList, (s.conn c).sequence < 2 ^ 31

instance : DecidablePred Bounded := fun s =>
  inferInstanceAs (Decidable (∀ c ∈ s.connectionList, (s.conn c).sequence < 2 ^ 31))

/-- With small sequences, a reply the send thread finds current answers a request
of the current use. -/
theorem owns_of_judgeOutdate {reply : Reply} (inv : s.Inv) (bounded : s.Bounded)
    (stamped : s.Stamped reply.head reply.origin)
    (current : (s.conn reply.head.lpCurconn).judgeOutdate reply.head.msgCursequence = true) :
    s.Owns reply.head.lpCurconn reply := by
  obtain ⟨hused, hle, -, horigin⟩ := stamped
  have hseq := (Connection.judgeOutdate_iff.mp current).2.2
  have hlt : reply.head.msgCursequence < 2 ^ 31 :=
    Nat.lt_of_le_of_lt hle (bounded _ (inv.wired.used _ hused).1)
  rw [throughInt_of_lt hlt] at hseq
  exact ⟨rfl, horigin hseq.symm⟩

theorem Owned.entry (h : s.Owned) (inv : s.Inv) (bounded : s.Bounded) {i : Nat} {reply : Reply}
    {next : SendNext} (hreply : s.sendMsgList[i]? = some reply)
    (hs : Entry s i reply reply.head.lpCurconn env s' next) : s'.Owned := by
  have howns := owns_of_judgeOutdate inv bounded
    (inv.flight.replies reply (List.mem_of_getElem? hreply))
  have hnone : ∀ w ∈ ([] : List Written), w.reply.head.lpCurconn = w.conn ∧
      w.reply.origin = w.use ∧ w.bytes <:+: w.reply.buf := fun _ hw => by cases hw
  have hbegun : ∀ p : SendBuf, some ⟨reply, msgHeaderLen⟩ = some p →
      s.Owns reply.head.lpCurconn reply → s.Owns reply.head.lpCurconn p.reply := by
    intro p hp hown
    obtain rfl := Option.some.inj hp
    exact hown
  cases hs with
  | discarded outdated sends => exact h.sends sends (fun _ hp => by cases hp) hnone
  | skipped current busy same => exact same ▸ h
  | failed current idle fails sends => exact h.sends sends (fun _ hp => by cases hp) hnone
  | part current idle lt puts sends =>
      refine h.sends sends (fun p hp => ?_) (puts.owned fun p hp => hbegun p hp (howns current))
      obtain rfl := Option.some.inj hp
      exact howns current
  | mismatch current idle puts differs sends =>
      exact h.sends sends (fun p hp => hbegun p hp (howns current))
        (puts.owned fun p hp => hbegun p hp (howns current))
  | finished current idle puts equal sends =>
      exact h.sends sends (fun _ hp => by cases hp)
        (puts.owned fun p hp => hbegun p hp (howns current))

/-! ### The descriptor of a use -/

/-- The bytes go to the descriptor of the current use of the connection. -/
def Addressed (s : State) (c : ConnId) (w : Written) : Prop :=
  w.conn = c ∧ w.use = s.history.use c ∧ w.fd = (s.conn c).fd

theorem Puts.addressed {buf : Option SendBuf} {len n : Nat} {written : List Written}
    (h : s.Puts c env buf len n written) : ∀ w ∈ written, s.Addressed c w := by
  intro w hw
  rcases h with ⟨-, -, rfl⟩ | ⟨p, -, -, -, rfl⟩
  · cases hw
  · obtain rfl := List.mem_singleton.mp hw
    exact ⟨rfl, rfl, rfl⟩

theorem Writes.sends (h : Writes s c env s') :
    ∃ out queue written, Sends s c out queue written s' ∧ ∀ w ∈ written, s.Addressed c w := by
  cases h with
  | failed fails sends => exact ⟨_, _, _, sends, by simp⟩
  | part lt puts sends => exact ⟨_, _, _, sends, puts.addressed⟩
  | mismatch le puts differs sends => exact ⟨_, _, _, sends, puts.addressed⟩
  | finished le puts equal sends => exact ⟨_, _, _, sends, puts.addressed⟩

theorem Entry.sends {i : Nat} {reply : Reply} {next : SendNext}
    (h : Entry s i reply c env s' next) :
    ∃ out queue written, Sends s c out queue written s' ∧ ∀ w ∈ written, s.Addressed c w := by
  cases h with
  | discarded outdated sends => exact ⟨_, _, _, sends, by simp⟩
  | skipped current busy same =>
      subst same
      exact ⟨_, _, _, sends_refl, by simp⟩
  | failed current idle fails sends => exact ⟨_, _, _, sends, by simp⟩
  | part current idle lt puts sends => exact ⟨_, _, _, sends, puts.addressed⟩
  | mismatch current idle puts differs sends => exact ⟨_, _, _, sends, puts.addressed⟩
  | finished current idle puts equal sends => exact ⟨_, _, _, sends, puts.addressed⟩

/-- What has been written in the present use of an open connection has gone to its descriptor,
and nothing has been written in a use that is still to come. -/
structure Directed (s : State) : Prop where
  wire : ∀ w ∈ s.history.wire, w.use ≤ s.history.use w.conn
  fds : ∀ w ∈ s.history.wire, s.Open w.conn → w.use = s.history.use w.conn →
    w.fd = (s.conn w.conn).fd

theorem Directed.of_open (h : s.Directed) (hopen : s.Open c) :
    ∀ w ∈ s.history.wire, w.conn = c → w.use = s.history.use c → w.fd = (s.conn c).fd := by
  rintro w hw rfl huse
  exact h.fds w hw hopen huse

/-- Nothing is written, and an object that is opened gets a new use. -/
theorem Directed.keeps (h : s.Directed) (wire : s'.history.wire = s.history.wire)
    (use_le : ∀ c, s.history.use c ≤ s'.history.use c)
    (each : ∀ c, s'.Open c → s.Open c ∧ (s'.conn c).fd = (s.conn c).fd ∨
      s.history.use c < s'.history.use c) : s'.Directed where
  wire w hw := Nat.le_trans (h.wire w (wire ▸ hw)) (use_le w.conn)
  fds w hw hopen huse := by
    rw [wire] at hw
    have hle := h.wire w hw
    have hmono := use_le w.conn
    rcases each w.conn hopen with ⟨hold, hfd⟩ | hlt
    · rw [hfd]
      exact h.fds w hw hold (by omega)
    · omega

theorem Directed.neutral (h : s.Directed) (hs : Neutral s s')
    (wire : s'.history.wire = s.history.wire) : s'.Directed :=
  h.keeps wire (fun c => Nat.le_of_eq (congrFun hs.use_eq c).symm)
    fun c hopen => .inl ⟨hs.isOpen.mp hopen, (link_eq (hs.link c)).1⟩

theorem Directed.sends (h : s.Directed) {out : Outgoing} {queue : SendQueue}
    {written : List Written} (hs : Sends s c out queue written s')
    (addressed : ∀ w ∈ written, s.Addressed c w) : s'.Directed where
  wire w hw := by
    rw [hs.steady.use_eq]
    rw [hs.wire] at hw
    rcases List.mem_append.mp hw with hold | hnew
    · exact h.wire w hold
    · obtain ⟨hconn, huse, -⟩ := addressed w hnew
      rw [hconn, huse]
  fds w hw hopen huse := by
    rw [hs.steady.use_eq] at huse
    rw [(link_eq (hs.steady.link w.conn)).1]
    rw [hs.wire] at hw
    rcases List.mem_append.mp hw with hold | hnew
    · exact h.fds w hold (hs.steady.isOpen.mp hopen) huse
    · obtain ⟨hconn, -, hfd⟩ := addressed w hnew
      rw [hfd, hconn]

theorem Moves.directed (h : Moves env s s') (inv : s.Inv) (cleared : s.Cleared)
    (directed : s.Directed) : s'.Directed := by
  induction h with
  | refl => exact directed
  | tail hs hmove ih =>
      have hmid := (Moves.evolves hs inv).inv
      rcases hmove.keeps hmid (Moves.cleared hs inv cleared) with hkeeps | ⟨c, -, hwrites⟩
      · refine ih.keeps hkeeps.wire (hmove.evolves hmid).use_le fun d hopen => ?_
        exact (hmove.open_or_fresh hmid hopen).imp_left (And.imp_right fun h => (link_eq h).1)
      · obtain ⟨out, queue, written, hsends, haddressed⟩ := hwrites.sends
        exact ih.sends hsends haddressed

/-- Handling a message changes neither what is in progress nor the wire. -/
structure Sendless (s s' : State) : Prop where
  wire : s'.history.wire = s.history.wire
  sendbuf : ∀ c, (s'.conn c).pSendbuf = (s.conn c).pSendbuf

theorem Sendless.supposeSend (h : Sendless s t) {reply : Reply} :
    Sendless s (t.supposeSend reply) := by
  refine ⟨h.wire, fun c => ?_⟩
  rw [← h.sendbuf c]
  by_cases hc : c = reply.head.lpCurconn <;> simp [State.supposeSend, hc]

theorem Sendless.trans (h : Sendless s s') (h' : Sendless s' t) : Sendless s t :=
  ⟨h'.wire.trans h.wire, fun c => (h'.sendbuf c).trans (h.sendbuf c)⟩

theorem Processed.sendless {msg : Message} {now : Time} {r : Option Reply}
    (h : Processed s msg now (s', r)) : Sendless s s' := by
  have hrefl : Sendless s s := ⟨rfl, fun _ => rfl⟩
  cases h with
  | dropped silent => exact hrefl
  | heartbeat current beat answers =>
      have hping : Sendless s (s.modifyConn msg.head.lpCurconn fun conn =>
          { conn with pingUpdateTime := now }) := by
        refine ⟨rfl, fun c => ?_⟩
        by_cases hc : c = msg.head.lpCurconn <;> simp [hc]
      exact hping.supposeSend
  | answered current code answers => exact hrefl.supposeSend

theorem Took.sendless {now : Time} {r : Option Reply} (h : Took s now s' r) : Sendless s s' := by
  have hbehind : ∀ {rest}, Sendless s (s.behind rest) := ⟨rfl, fun _ => rfl⟩
  cases h with
  | null queue => exact hbehind
  | message queue processed => exact hbehind.trans processed.sendless

theorem msgSendInQueue_sendless {thread : Thread} {reply : Reply}
    (h : s.msgSendInQueue thread reply = some s') : Sendless s s' := by
  obtain rfl | rfl := eq_of_msgSendInQueue h
  · exact ⟨rfl, fun _ => rfl⟩
  · refine ⟨rfl, fun c => ?_⟩
    by_cases hc : c = reply.head.lpCurconn <;> simp [countConn, hc]

/-- Handling messages keeps the owners. -/
theorem Sendless.owned (h : Sendless s s') (hneutral : Neutral s s') (cleared : s.Cleared)
    (owned : s.Owned) : s'.Cleared ∧ s'.Owned := by
  refine ⟨fun c hfree => ?_, fun c used p hp => ?_, fun w hw => owned.wire w (h.wire ▸ hw)⟩
  · have hlist : s'.freeConnectionList = s.freeConnectionList :=
      congrArg ObjectPool.free hneutral.view
    rw [h.sendbuf c]
    exact cleared c (hlist ▸ hfree)
  · rw [h.sendbuf c] at hp
    rw [Owns, hneutral.use_eq]
    exact owned.current c (hneutral.used_iff.mp used) p hp

end State

namespace Server

open State

variable {s s₀ s' : State} {boot : Boot} {actions : List Action}

theorem work_sendless {w : Nat} {now : Time} (h : work s w now = some s') : Sendless s s' := by
  obtain ⟨t, htook, rfl⟩ | ⟨t, reply, htook, h⟩ := work_cases h
  · exact htook.sendless
  · exact htook.sendless.trans (msgSendInQueue_sendless h)

theorem step_owned (inv : s.Inv) (bounded : s.Bounded) (cleared : s.Cleared) (owned : s.Owned)
    {action : Action} (h : step s action = some s') : s'.Cleared ∧ s'.Owned := by
  cases action with
  | loop action =>
      have hmoves := loopStep_moves inv h
      exact ⟨Moves.cleared hmoves inv cleared, Moves.owned hmoves inv cleared owned⟩
  | work w now => exact (work_sendless h).owned (work_neutral inv h) cleared owned
  | sendEntry i env =>
      obtain ⟨t, next, hentry, hlast⟩ := sendOne_cases h
      obtain ⟨reply, hreply, hentry⟩ := sendEntry_entry inv hentry
      have hcleared := hentry.cleared inv cleared
      have howned := owned.entry inv bounded hreply hentry
      rcases hlast with rfl | rfl
      · exact ⟨hcleared, howned⟩
      · exact ⟨hcleared, howned.current, howned.wire⟩

theorem step_directed (inv : s.Inv) (cleared : s.Cleared) (directed : s.Directed)
    {action : Action} (h : step s action = some s') : s'.Directed := by
  cases action with
  | loop action => exact Moves.directed (loopStep_moves inv h) inv cleared directed
  | work w now => exact directed.neutral (work_neutral inv h) (work_sendless h).wire
  | sendEntry i env =>
      obtain ⟨t, next, hentry, hlast⟩ := sendOne_cases h
      obtain ⟨reply, -, hentry⟩ := sendEntry_entry inv hentry
      obtain ⟨out, queue, written, hsends, haddressed⟩ := hentry.sends
      have hdirected := directed.sends hsends haddressed
      rcases hlast with rfl | rfl
      · exact hdirected
      · exact ⟨hdirected.wire, hdirected.fds⟩

/-- A worker process starts without accepted connections. -/
theorem owned_of_starts (h : boot.Starts s) : s.Owned ∧ s.Directed := by
  obtain ⟨⟨all, htaking⟩, -⟩ := h.spec
  have hwire : s.history.wire = [] := by rw [htaking.history]; rfl
  refine ⟨⟨fun c used => ?_, by simp [hwire]⟩, by simp [hwire], by simp [hwire]⟩
  simp [Used, htaking.history, Boot.state] at used

/-- Every byte written belongs to a reply to a request that was received in the
same use of the connection object it is written to, and while that use lasts and is open,
the byte has gone to its descriptor. -/
theorem no_cross_reply (hstart : boot.Starts s₀) (hr : run step s₀ actions = some s)
    (bounded : Throughout step Bounded s₀ actions) :
    ∀ w ∈ s.history.wire,
      w.reply.head.lpCurconn = w.conn ∧ w.reply.origin = w.use ∧ w.bytes <:+: w.reply.buf ∧
        (s.Open w.conn → w.use = s.history.use w.conn → w.fd = (s.conn w.conn).fd) := by
  have hthroughout : Throughout step (fun s => s.Inv ∧ s.Cleared ∧ s.Owned ∧ s.Directed)
      s₀ actions := by
    refine throughout_of_along ?_ ⟨hstart.inv, hstart.cleared, owned_of_starts hstart⟩ bounded.along
    intro s a s' ⟨inv, cleared, owned, directed⟩ hbounded hs
    obtain ⟨hcleared, howned⟩ := step_owned inv hbounded cleared owned hs
    exact ⟨(step_evolves inv hs).inv, hcleared, howned, step_directed inv cleared directed hs⟩
  obtain ⟨-, -, howned, hdirected⟩ := hthroughout.last hr
  intro w hw
  obtain ⟨hconn, horigin, hbytes⟩ := howned.wire w hw
  exact ⟨hconn, horigin, hbytes, hdirected.fds w hw⟩

/-- A request with code 0 is answered, on the first use of its connection. -/
theorem no_cross_reply_answered :
    ∃ s : State, s.history.wire.map (fun w => (w.use, w.bytes)) =
      [(1, [0, 8, 0, 1, 0, 0, 0, 0])] ∧ ∀ w ∈ s.history.wire, w.reply.origin = w.use := by
  let actions := acceptOn 5 100 ++
    eventOn 5 epollin { recv := .data [0, 8, 0, 0, 0, 0, 0, 0] } ++
    [.work 0 101, .sendEntry 0 { send := [.sent 8] }]
  have hrun : (Boot.small.state.epollEventInit [true]).bind (fun s₀ =>
      (run step s₀ actions).map fun s => (decide (Throughout step State.Bounded s₀ actions),
        s.history.wire.map fun w => (w.use, w.bytes))) =
      some (true, [(1, [0, 8, 0, 1, 0, 0, 0, 0])]) := by decide
  obtain ⟨s₀, hstart, hs⟩ := Option.bind_eq_some_iff.mp hrun
  obtain ⟨s, hs, heq⟩ := Option.map_eq_some_iff.mp hs
  obtain ⟨hbounded, hwire⟩ := Prod.mk.inj heq
  refine ⟨s, hwire, fun w hw => ?_⟩
  exact (no_cross_reply ⟨[true], hstart⟩ hs (of_decide_eq_true hbounded) w hw).2.1

end Server

end MyNginx
