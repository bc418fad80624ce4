import MyNginx.Sending.Length
import MyNginx.Sending.Stream
import MyNginx.Server.Wraparound

/-!
# The order of the replies

The send thread takes the replies of a connection in the order of the list, since it skips
them while one is in progress. It does not keep that order when the `EPOLLOUT` handler ends
the reply in progress during a pass that has skipped some replies of the connection and still
has others before it: the pass goes on with those. A reply in progress is given up when the
send thread discards one of an earlier use of the connection object.
-/

namespace MyNginx

open Foundation

namespace State

variable {s s' t : State} {c d : ConnId} {env : Env} {reply r : Reply} {i : Nat}
  {out : Outgoing} {queue : SendQueue} {written : List Written}

/-! ### All connections -/

/-- The streams of all connections that are open and unmarked. The list knows no use that is
still to come, and between two replies the send thread does not straddle the replies of a
connection. -/
structure Flows (s : State) (pc : SenderPc) : Prop where
  queued : ∀ r ∈ s.history.queued, r.origin ≤ s.history.use r.head.lpCurconn
  directed : s.Directed
  stream : ∀ c, s.Open c → s.Stream c
  aligned : ∀ c, s.Open c → (s.conn c).iThrowsendCount = 0 → ¬ s.Straddles c pc

variable {pc pc' : SenderPc}

theorem straddles_congr (list : s'.sendMsgList = s.sendMsgList)
    (use : s'.history.use c = s.history.use c) : s'.Straddles c pc ↔ s.Straddles c pc := by
  cases pc with
  | scanning i => simp only [Straddles, list, owns_congr use]
  | looping | waiting | woken | locking | stopped | returned => exact Iff.rfl

/-- A reply of an earlier use is not one of the current use. -/
theorem filter_owns_eq_nil {l : List Reply} (h : ∀ r ∈ l, r.origin ≤ s.history.use r.head.lpCurconn)
    (lt : s.history.use c < s'.history.use c) : (l.filter fun r => s'.Owns c r) = [] := by
  refine List.filter_eq_nil_iff.mpr fun r hr hown => ?_
  obtain ⟨hconn, horigin⟩ := of_decide_eq_true hown
  have hle := h r hr
  rw [hconn] at hle
  omega

theorem Flows.bypasses (h : s.Flows pc) (inv : s.Inv) (hs : Bypasses s s') : s'.Flows pc := by
  have hlist : ∀ r ∈ s.sendMsgList, r.origin ≤ s.history.use r.head.lpCurconn := fun r hr =>
    (inv.flight.replies r hr).2.2.1
  have hwire : ∀ c, s.history.use c < s'.history.use c →
      ∀ w ∈ s.history.wire, ¬ (w.conn = c ∧ w.use = s'.history.use c) := by
    rintro c hlt w hw ⟨rfl, huse⟩
    have hle := h.directed.wire w hw
    omega
  have hdirected : s'.Directed := h.directed.keeps hs.wire hs.use_le fun c hopen =>
    (hs.each c hopen).imp (fun hold => ⟨hold.1, hold.2.2.1⟩) And.left
  refine ⟨fun r hr => ?_, hdirected, fun c hopen => ?_, fun c hopen hidle => ?_⟩
  · exact Nat.le_trans (h.queued r (hs.queued ▸ hr)) (hs.use_le _)
  · rcases hs.each c hopen with ⟨hold, huse, -, hout⟩ | ⟨hlt, hcount, hnone⟩
    · exact (h.stream c hold).congr (entered_congr hs.queued huse) (waiting_congr hs.list huse)
        (sentBytes_congr hs.wire huse) hout
    · refine .between [] hcount hnone ?_ ?_
      · rw [entered, waiting, hs.queued, hs.list, filter_owns_eq_nil h.queued hlt,
          filter_owns_eq_nil hlist hlt]
        rfl
      · rw [sentBytes, hs.wire, List.filter_eq_nil_iff.mpr fun w hw hown =>
          hwire c hlt w hw (of_decide_eq_true hown)]
        rfl
  · rcases hs.each c hopen with ⟨hold, huse, -, hout⟩ | ⟨hlt, -⟩
    · rw [straddles_congr hs.list huse]
      rw [(Outgoing.position_eq hout).2.1] at hidle
      exact h.aligned c hold hidle
    · cases pc with
      | scanning i =>
          rintro ⟨⟨r, hr, hown⟩, -⟩
          rw [hs.list] at hr
          have hnone := filter_owns_eq_nil hlist hlt
          have hmem : r ∈ s.sendMsgList.filter fun r => s'.Owns c r :=
            List.mem_filter.mpr ⟨List.mem_of_mem_take hr, decide_eq_true hown⟩
          rw [hnone] at hmem
          cases hmem
      | looping | waiting | woken | locking | stopped | returned => exact id

/-- The send thread leaves its pass, or begins one. -/
theorem Flows.goes (h : s.Flows pc) (list : s'.sendMsgList = s.sendMsgList)
    (history : s'.history = s.history) (conn : s'.conn = s.conn)
    (aside : ∀ c, ¬ s'.Straddles c pc') : s'.Flows pc' := by
  have huse : ∀ c, s'.history.use c = s.history.use c := fun c => by rw [history]
  have hopens : ∀ c, s'.Open c → s.Open c := fun c hopen => by
    rwa [Open, Used, history, conn] at hopen
  have hdirected : s'.Directed := h.directed.keeps (by rw [history])
    (fun c => Nat.le_of_eq (huse c).symm) fun c hopen => .inl ⟨hopens c hopen, by rw [conn]⟩
  refine ⟨fun r hr => ?_, hdirected, fun c hopen => ?_, fun c _ _ => aside c⟩
  · rw [huse]
    exact h.queued r (history ▸ hr)
  · exact (h.stream c (hopens c hopen)).congr (entered_congr (by rw [history]) (huse c))
      (waiting_congr list (huse c)) (sentBytes_congr (by rw [history]) (huse c)) (by rw [conn])

/-- A step that sends on one connection. -/
theorem Flows.sends (h : s.Flows pc) (hs : Sends s c out queue written s')
    (addressed : ∀ w ∈ written, s.Addressed c w) (self : s.Open c → s'.Stream c)
    (waiting : ∀ d, d ≠ c → s'.waiting d = s.waiting d)
    (aligned : ∀ d, s.Open d → (s'.conn d).iThrowsendCount = 0 → ¬ s'.Straddles d pc') :
    s'.Flows pc' := by
  have huse : ∀ d, s'.history.use d = s.history.use d := fun d => congrFun hs.steady.use_eq d
  have howner : ∀ w ∈ written, w.conn = c ∧ w.use = s.history.use c := fun w hw =>
    ⟨(addressed w hw).1, (addressed w hw).2.1⟩
  refine ⟨fun r hr => ?_, h.directed.sends hs addressed, fun d hopen => ?_,
    fun d hopen => aligned d (hs.steady.isOpen.mp hopen)⟩
  · rw [huse]
    exact h.queued r (hs.queued ▸ hr)
  · by_cases hd : d = c
    · rw [hd] at hopen ⊢
      exact self (hs.steady.isOpen.mp hopen)
    · exact (h.stream d (hs.steady.isOpen.mp hopen)).congr (entered_congr hs.queued (huse d))
        (waiting d hd) (hs.sentBytes_other howner hd) (by rw [hs.other d hd])

/-- The `EPOLLOUT` handler does not end a reply while the send thread straddles the replies of
the connection. -/
theorem Flows.writes (h : s.Flows pc) (inv : s.Inv) (measured : s.Measured) (used : s.Used c)
    (ordinary : ∀ answer ∈ env.send, answer.Ordinary)
    (late : s.Open c → (s.conn c).iThrowsendCount = 1 →
      lastAnswer env = some (.sent (s.conn c).sendlen) → ¬ s.Straddles c pc)
    (hs : Writes s c env s') : s'.Flows pc := by
  obtain ⟨out, queue, written, hsends, haddressed⟩ := hs.sends
  have huse : ∀ d, s'.history.use d = s.history.use d := fun d => congrFun hs.steady.use_eq d
  have hself := fun hopen => (h.stream c hopen).writes (not_fails inv hopen ordinary)
    (measured c used) hs
  refine h.sends hsends haddressed (fun hopen => (hself hopen).1)
    (fun d _ => waiting_congr hs.list (huse d)) fun d hopen hidle => ?_
  rw [straddles_congr hs.list (huse d)]
  by_cases hd : d = c
  · subst hd
    rcases (hself hopen).2 hidle with hzero | ⟨hone, hlast⟩
    · exact h.aligned d hopen hzero
    · exact late hopen hone hlast
  · rw [congrArg Outgoing.iThrowsendCount (hsends.other d hd)] at hidle
    exact h.aligned d hopen hidle

theorem Entry.list_of_erased (h : Entry s i reply c env s' .erased) :
    s'.sendMsgList = s.sendMsgList.eraseIdx i := by
  cases h with
  | discarded outdated sends => exact congrArg SendQueue.sendMsgList sends.queue
  | failed current idle fails sends => exact congrArg SendQueue.sendMsgList sends.queue
  | part current idle lt puts sends => exact congrArg SendQueue.sendMsgList sends.queue
  | finished current idle puts equal sends => exact congrArg SendQueue.sendMsgList sends.queue

/-- The send thread handles an element, and `JudgeOutdate` is right about it. -/
theorem Flows.entry (h : s.Flows (.scanning i)) (inv : s.Inv)
    (ordinary : ∀ answer ∈ env.send, answer.Ordinary) (hreply : s.sendMsgList[i]? = some reply)
    (judges : s.Open reply.head.lpCurconn → s.Judges reply.head.lpCurconn reply) {next : SendNext}
    (goes : next ≠ .returned) (hs : Entry s i reply reply.head.lpCurconn env s' next) :
    s'.Flows (next.pc i) := by
  obtain ⟨out, queue, written, hsends, haddressed⟩ := hs.sends
  have huse : ∀ d, s'.history.use d = s.history.use d := fun d => congrFun hs.steady.use_eq d
  have hself := fun hopen => (h.stream _ hopen).entry (not_fails inv hopen ordinary) hreply
    (judges hopen) (h.aligned _ hopen) goes hs
  have hother : ∀ d, d ≠ reply.head.lpCurconn → ¬ s.Owns d reply := fun d hd hown => hd hown.1.symm
  -- Between two replies afterwards is between two replies before.
  have hidle : ∀ d, s.Open d → (s'.conn d).iThrowsendCount = 0 →
      (s.conn d).iThrowsendCount = 0 := by
    intro d hopen hzero
    by_cases hd : d = reply.head.lpCurconn
    · subst hd
      exact (hself hopen).2 hzero
    · rwa [congrArg Outgoing.iThrowsendCount (hsends.other d hd)] at hzero
  cases next with
  | returned => exact absurd rfl goes
  | erased =>
      have hlist := hs.list_of_erased
      have hlen : (s.sendMsgList.take i).length = i :=
        List.length_take_of_le (Nat.le_of_lt (List.getElem?_eq_some_iff.mp hreply).1)
      refine h.sends hsends haddressed (fun hopen => (hself hopen).1)
        (fun d hd => waiting_eraseIdx hreply (hother d hd) hlist (huse d)) fun d hopen hzero => ?_
      rintro ⟨⟨r, hr, hown⟩, q, hq, hown'⟩
      rw [hlist, List.eraseIdx_eq_take_drop_succ] at hr hq
      refine h.aligned d hopen (hidle d hopen hzero)
        ⟨⟨r, ?_, (owns_congr (huse d)).mp hown⟩, q, ?_, (owns_congr (huse d)).mp hown'⟩
      · rwa [List.take_left' hlen] at hr
      · rw [List.drop_left' hlen] at hq
        exact List.drop_subset_drop_left _ (Nat.le_succ i) hq
  | skipped =>
      cases hs with
      | skipped current busy same =>
          subst same
          refine ⟨h.queued, h.directed, h.stream, fun d hopen hzero => ?_⟩
          rintro ⟨⟨r, hr, hown⟩, q, hq, hown'⟩
          refine h.aligned d hopen hzero ⟨⟨r, ?_, hown⟩, q, ?_, hown'⟩
          · rw [List.take_add_one, hreply] at hr
            rcases List.mem_append.mp hr with hold | hnew
            · exact hold
            · obtain rfl := List.mem_singleton.mp hnew
              rw [hown.1] at busy
              omega
          · exact List.drop_subset_drop_left _ (Nat.le_succ i) hq

/-- A statement of `MsgSendInQueue` puts its replies behind all others. -/
theorem Stream.advances (h : s.Stream c) {added : List Reply} (hs : Advances s added s') :
    s'.Stream c := by
  have huse : s'.history.use c = s.history.use c := congrFun hs.steady.use_eq c
  have hpart : ∀ l : List Reply, l.filter (fun r => s'.Owns c r) = l.filter fun r => s.Owns c r :=
    fun l => List.filter_congr fun r _ => decide_eq_decide.mpr (owns_congr huse)
  have hentered : s'.entered c = s.entered c ++ added.filter fun r => s.Owns c r := by
    rw [entered, hpart, hs.queued, List.filter_append, entered]
  have hwaiting : s'.waiting c = s.waiting c ++ added.filter fun r => s.Owns c r := by
    rw [waiting, hpart, hs.list, List.filter_append, waiting]
  have hsent : s'.sentBytes c = s.sentBytes c := sentBytes_congr hs.wire huse
  have hposition : (s'.conn c).position = (s.conn c).position := by rw [hs.outgoing c]; rfl
  obtain ⟨-, hcount, hsendbuf, -, halready⟩ := Outgoing.position_eq hposition
  cases h with
  | between done count sendbuf order sent =>
      refine .between done (hcount.trans count) (hsendbuf.trans sendbuf) ?_ (hsent.trans sent)
      rw [hentered, hwaiting, order, List.append_assoc]
  | inside done reply count unfinished order sent =>
      refine .inside done reply (hcount.trans count) (unfinished.congr hposition hsent) ?_ ?_
      · rw [hentered, hwaiting, order, List.append_assoc, List.cons_append]
      · rw [hsent, halready, sent]

/-- No reply is put into the list during a pass of the send thread. -/
theorem Flows.advances (h : s.Flows pc) {added : List Reply} (hs : Advances s added s')
    (stamped : ∀ r ∈ added, s.Stamped r.head r.origin) (outside : added ≠ [] → pc.holds = false) :
    s'.Flows pc := by
  have huse : ∀ c, s'.history.use c = s.history.use c := fun c => congrFun hs.steady.use_eq c
  refine ⟨fun r hr => ?_, h.directed.neutral hs.steady.toNeutral hs.wire, fun c hopen => ?_,
    fun c hopen hzero => ?_⟩
  · rw [huse]
    rcases List.mem_append.mp (hs.queued ▸ hr) with hold | hnew
    · exact h.queued r hold
    · exact (stamped r hnew).2.2.1
  · exact (h.stream c (hs.steady.isOpen.mp hopen)).advances hs
  · cases pc with
    | scanning i =>
        by_cases hadded : added = []
        · subst hadded
          have hcount := congrArg Outgoing.iThrowsendCount (hs.outgoing c)
          rw [straddles_congr (by rw [hs.list, List.append_nil]) (huse c)]
          exact h.aligned c (hs.steady.isOpen.mp hopen) (hcount.symm.trans hzero)
        · cases outside hadded
    | looping | waiting | woken | locking | stopped | returned => exact id

/-- The `EPOLLOUT` part of an event: a peer that hung up does not find its connection open
and marked by the timer thread; and it does not end a reply while the send thread straddles
the replies of the connection. -/
def EndsAside (s : State) (c : ConnId) (events : Mask) (env : Env) (pc : SenderPc) : Prop :=
  events.has epollout = true → s.Open c →
    if events.has (epollrdhup ||| epollerr ||| epollhup) then (s.conn c).istimeout = false
    else (s.conn c).iThrowsendCount = 1 → lastAnswer env = some (.sent (s.conn c).sendlen) →
      ¬ s.Straddles c pc

instance {events : Mask} : Decidable (s.EndsAside c events env pc) := by
  unfold EndsAside
  infer_instance

/-- The `EPOLLOUT` part of an event continues the streams. -/
theorem Flows.handleOut (h : s.Flows pc) (inv : s.Inv) (cleared : s.Cleared)
    (measured : s.Measured) {events : Mask} (ok : s.EventOk (c, events))
    (hhas : events.has epollout = true) (ordinary : ∀ answer ∈ env.send, answer.Ordinary)
    (aside : s.EndsAside c events env pc) (hout : s.handleOut c events env = some s') :
    s'.Flows pc := by
  have hmoves := handleOut_moves inv ok hout
  have hused : s.Used c := by
    rcases ok with hused | ⟨-, hnone⟩
    · exact hused
    · rw [hnone] at hhas
      cases hhas
  have haside := aside hhas
  simp only [State.handleOut, if_pos hhas] at hout
  split at hout
  next hgone =>
    simp only [if_pos hgone] at haside
    exact h.bypasses inv ((hangup_leaves inv hused haside hout).bypasses inv cleared hmoves)
  next hgone =>
    simp only [if_neg hgone] at haside
    rw [(inv.wired.used c hused).2.2] at hout
    exact h.writes inv measured hused ordinary haside (writable_writes inv hused hout)

/-- The reply belongs to the current use of the connection it names. -/
def InUse (s : State) (r : Reply) : Prop := s.Owns r.head.lpCurconn r

instance : DecidableRel InUse := fun s r => inferInstanceAs (Decidable (s.Owns _ r))

/-- A reply of an earlier use stays one. -/
theorem fading_inUse : Fading InUse := by
  rintro s s' r aged stamped ⟨-, horigin⟩
  have huse := (aged r.head.lpCurconn).1
  have hle := stamped.2.2.1
  exact ⟨rfl, by omega⟩

end State

namespace Sending

open State

variable {n : Nat} {boot : Boot} {k k' : Config n} {action : Action n}

/-- `send` answers ordinarily, and no call of `MsgSendInQueue` exceeds a limit. -/
def Serves (k : Config n) : Action n → Prop
  | .loop action => ∀ answer ∈ action.env.send, answer.Ordinary
  | .send env => ∀ answer ∈ env.send, answer.Ordinary
  | .advance w =>
      match k.workers w with
      | .locked reply => k.server.overloaded reply = false
      | _ => True
  | _ => True

instance : DecidableRel (Serves (n := n)) := fun k action => by
  unfold Serves
  rcases action with _ | _ | _ | w
  case advance =>
    dsimp only
    rcases k.workers w with _ | _ <;> infer_instance
  all_goals infer_instance

/-- No event ends a reply while the send thread straddles the replies of its connection, and
`JudgeOutdate` is right about the elements of the list that name an open connection. -/
def InOrder (k : Config n) : Action n → Prop
  | .loop (.handleEvent env) =>
      match k.server.events with
      | [] => True
      | (c, events) :: rest =>
          match ({ k.server with events := rest } : State).handleIn c events env with
          | some t => t.EndsAside c events env k.sender
          | none => True
  | .send _ =>
      match k.sender with
      | .scanning i =>
          match k.server.sendMsgList[i]? with
          | some reply =>
              k.server.Open reply.head.lpCurconn → k.server.Judges reply.head.lpCurconn reply
          | none => True
      | _ => True
  | _ => True

instance : DecidableRel (InOrder (n := n)) := fun k action => by
  unfold InOrder
  rcases action with (_ | _) | _
  case loop.handleEvent env =>
    dsimp only
    rcases k.server.events with _ | ⟨⟨c, events⟩, rest⟩
    · infer_instance
    · dsimp only
      rcases ({ k.server with events := rest } : State).handleIn c events env with _ | _ <;>
        infer_instance
  case send =>
    dsimp only
    rcases k.sender with _ | _
    case scanning i =>
      dsimp only
      rcases k.server.sendMsgList[i]? with _ | _ <;> infer_instance
    all_goals infer_instance
  all_goals infer_instance

/-- An element that `JudgeOutdate` finds current belongs to the current use. -/
theorem InOrder.inUse {env : Env} (h : InOrder k (.send env)) (inv : k.Inv) {i : Nat}
    {reply : Reply} (hpc : k.sender = .scanning i) (hreply : k.server.sendMsgList[i]? = some reply)
    (current : (k.server.conn reply.head.lpCurconn).judgeOutdate reply.head.msgCursequence =
      true) : k.server.InUse reply := by
  simp only [InOrder, hpc, hreply] at h
  have hused := (inv.server.flight.replies reply (List.mem_of_getElem? hreply)).1
  have hjudges := h ⟨hused, Connection.fd_ne_of_judgeOutdate current⟩
  rwa [Judges, if_pos current] at hjudges

theorem InOrder.takes (h : InOrder k action) (inv : k.Inv) : Takes InUse k action := by
  cases action with
  | send env => exact fun i reply hpc hreply hcurrent _ => h.inUse inv hpc hreply hcurrent
  | loop | take | call | advance | interrupt => trivial

/-- No element has a wrong length. -/
theorem Serves.lossless (h : Serves k action) (inOrder : InOrder k action) (inv : k.Inv)
    (sized : k.Sized InUse) : Lossless k action := by
  cases action with
  | advance w => exact h
  | send env =>
      simp only [Lossless]
      split
      next i hpc =>
        intro hwrong
        rw [Mismatched] at hwrong
        split at hwrong
        · exact hwrong
        next reply hreply =>
          obtain ⟨hcurrent, -, -, hdiffers⟩ := hwrong
          exact hdiffers (sized.list reply (List.mem_of_getElem? hreply)
            (inOrder.inUse inv hpc hreply hcurrent)).symm
      next => trivial
  | loop | take | call | interrupt => trivial

theorem loop_flows {action : LoopAction} {s : State} (inv : k.Inv) (sized : k.Sized InUse)
    (flows : k.server.Flows k.sender) (serves : Serves k (.loop action))
    (inOrder : InOrder k (.loop action)) (h : k.server.loopStep action = some s) :
    s.Flows k.sender := by
  have hmoves := loopStep_moves inv.server h
  rcases loopStep_leaves inv.server h with
    hleaves | ⟨env, c, events, rest, t, rfl, hevents, hin, hhas, hout⟩
  · exact flows.bypasses inv.server (hleaves.bypasses inv.server inv.cleared hmoves)
  · have hok : ∀ event ∈ (c, events) :: rest, k.server.EventOk event :=
      hevents ▸ inv.server.wired.events
    have hrest := events_evolves inv.server fun event hevent =>
      hok event (List.mem_cons_of_mem _ hevent)
    have hfirst := (hok (c, events) List.mem_cons_self).evolves hrest
    have hinward := handleIn_moves hrest.inv hfirst hin
    have hmid := hinward.evolves hrest.inv
    have htaken : Bypasses k.server { k.server with events := rest } :=
      ⟨rfl, rfl, rfl, fun _ => Nat.le_refl _, fun _ hopen => .inl ⟨hopen, rfl, rfl, rfl⟩⟩
    have hflows : t.Flows k.sender := (flows.bypasses inv.server htaken).bypasses hrest.inv
      ((handleIn_leaves hrest.inv hfirst hin).bypasses hrest.inv inv.cleared hinward)
    simp only [InOrder, hevents, hin] at inOrder
    exact hflows.handleOut hmid.inv (hinward.cleared hrest.inv inv.cleared)
      (moves_measured hinward hrest.inv inv.cleared sized.measured) (hfirst.evolves hmid) hhas
      serves inOrder hout

theorem Handles.bypasses {s s' : State} {r : Option Reply} (h : Handles s r s') :
    Bypasses s s' :=
  .of_position (by rw [h.queue]) h.queued h.wire h.neutral fun c => by rw [h.outgoing c]; rfl

/-- A pass begins at the first element. -/
theorem senderStep_begins {s s' : State} {env : Env} {pc : SenderPc} {i : Nat}
    (h : s.senderStep env pc = some (s', .scanning i))
    (outside : ∀ j, pc = .scanning j → s.sendMsgList[j]? = none) : i = 0 := by
  cases pc with
  | looping =>
      obtain ⟨-, hgoes⟩ := Prod.mk.inj (Option.some.inj h)
      split at hgoes <;> cases hgoes
  | waiting =>
      simp only [senderStep] at h
      split at h <;> cases h
  | woken =>
      simp only [senderStep] at h
      split at h
      · cases h
      · obtain ⟨-, hgoes⟩ := Prod.mk.inj (Option.some.inj h)
        split at hgoes <;> cases hgoes
  | locking =>
      simp only [senderStep] at h
      split at h
      · obtain ⟨-, hgoes⟩ := Prod.mk.inj (Option.some.inj h)
        exact (SenderPc.scanning.inj hgoes).symm
      · cases h
  | scanning j =>
      have hend := List.getElem?_eq_none_iff.mp (outside j rfl)
      simp only [senderStep, if_neg (Nat.not_lt.mpr hend)] at h
      cases h
  | stopped | returned => cases h

theorem Does.flows (h : Does k action k') (inv : k.Inv) (sized : k.Sized InUse)
    (locked : k.Locked) (flows : k.server.Flows k.sender) (serves : Serves k action)
    (inOrder : InOrder k action) (hs : step k action = some k') :
    k'.server.Flows k'.sender := by
  cases h with
  | loop moves =>
      obtain ⟨s, hloop, heq⟩ := Option.map_eq_some_iff.mp hs
      obtain rfl := congrArg Config.server heq
      exact loop_flows (k := k) inv sized flows serves inOrder hloop
  | take idle handles makes =>
      rw [handled_server, handled_sender]
      exact flows.bypasses inv.server (Handles.bypasses handles)
  | call idle handles =>
      rw [handled_server, handled_sender]
      exact flows.bypasses inv.server (Handles.bypasses handles)
  | advance advances =>
      rename_i w s' pc
      rcases msgSendStep_advances (inv.hands _) advances with
        ⟨reply, hpc, -, -, hadded⟩ | ⟨-, hadded⟩
      · refine flows.advances hadded (fun r hr => ?_) fun _ => ?_
        · obtain rfl := List.mem_singleton.mp hr
          exact inv.hands w r (by rw [hpc]; rfl)
        · -- The worker is inside, so the send thread is not.
          cases hholds : k.sender.holds with
          | false => rfl
          | true =>
              have hworker : k.Inside (.worker w) := ⟨w, rfl, by rw [hpc]; rfl⟩
              have hsender : k.Inside .sender := hholds
              cases locked.unique hsender hworker
      · exact flows.advances hadded nofun fun hne => absurd rfl hne
  | send sends =>
      rename_i env s' pc
      rcases senderStep_cases inv.server sends with
        ⟨i, reply, next, hpc, hreply, hentry, rfl⟩ | ⟨-, hlast, sendmutex, sendsem, rfl⟩
      · rw [hpc] at flows
        have htakes := inOrder.takes inv i reply hpc hreply
        have hgoes := (sized.measured.entry hentry fun hcurrent hidle =>
          sized.list reply (List.mem_of_getElem? hreply) (htakes hcurrent hidle)).2
        simp only [InOrder, hpc, hreply] at inOrder
        exact flows.entry inv.server serves hreply inOrder hgoes hentry
      · refine flows.goes rfl rfl rfl fun c hpc => ?_
        cases pc with
        | scanning j =>
            obtain rfl := senderStep_begins sends hlast
            obtain ⟨⟨r, hr, -⟩, -⟩ := hpc
            cases hr
        | looping | waiting | woken | locking | stopped | returned => exact hpc
  | interrupt waiting => exact flows.goes rfl rfl rfl fun c => id

/-- No connection is open when the threads start. -/
theorem Starts.flows (h : Starts boot k) : k.server.Flows k.sender := by
  obtain ⟨⟨all, htaking⟩, -⟩ := h.1.spec
  have hqueued : k.server.history.queued = [] := by rw [htaking.history]; rfl
  have hwire : k.server.history.wire = [] := by rw [htaking.history]; rfl
  have hclosed : ∀ c, ¬ k.server.Open c := fun c hopen => by
    have hused := hopen.1
    rw [Used, htaking.history] at hused
    exact absurd hused (Nat.lt_irrefl 0)
  exact ⟨by simp [hqueued], ⟨by simp [hwire], by simp [hwire]⟩,
    fun c hopen => absurd hopen (hclosed c), fun c hopen => absurd hopen (hclosed c)⟩

/-- What is written to the open connections is a stream of replies in the order of the list. -/
def Config.Streamed (k : Config n) : Prop := ∀ c, k.server.Open c → k.server.Streamed c

/-- The replies of a connection are written in order and without gaps, as long as no event
ends one of them while the send thread straddles the others. -/
theorem streamed_of_inOrder (hstart : Starts boot k) {actions : List (Action n)}
    (uniform : Along step (Uniform InUse) k actions) (serves : Along step Serves k actions)
    (inOrder : Along step InOrder k actions) : Throughout step Config.Streamed k actions := by
  have hall : Throughout step (fun k => k.Inv ∧ k.Sized InUse ∧ k.Locked ∧
      k.server.Flows k.sender) k actions := by
    refine throughout_of_along ?_ ⟨hstart.inv, hstart.sized, hstart.locked, hstart.flows⟩
      ((uniform.and serves).and inOrder)
    intro k action k' ⟨inv, sized, locked, flows⟩ ⟨⟨huniform, hserves⟩, hinOrder⟩ hs
    have hdoes := step_does inv hs
    exact ⟨step_inv inv hs, hdoes.sized fading_inUse inv sized huniform (hinOrder.takes inv),
      hdoes.locked inv locked (hserves.lossless hinOrder inv sized),
      hdoes.flows inv sized locked flows hserves hinOrder hs⟩
  exact hall.mono fun k ⟨_, _, _, flows⟩ c hopen =>
    (flows.stream c hopen).streamed (flows.directed.of_open hopen)

/-- Three heartbeats are answered, and the send thread begins its pass. It cannot send all of
the first reply, and skips the others. -/
def repliesInPass : List (Action 1) :=
  acceptOn 5 100 ++
    (List.replicate 3 (requestOn onlyWorker pingPacket ++ enqueueBy onlyWorker)).flatten ++
    List.replicate 6 (.send { send := [.sent 3] })

/-- The pass ends, then the rest of the first reply is sent, and then the others. -/
def passThenRest : List (Action 1) :=
  repliesInPass ++ List.replicate 2 (.send {}) ++ eventOn 5 epollout { send := [.sent 5] } ++
    List.replicate 6 (.send { send := [.sent 8] })

theorem streamed_of_inOrder_three_replies : ∃ k k' : Config 1, Starts Boot.small k ∧
    run step k passThenRest = some k' ∧ Throughout step Config.Streamed k passThenRest := by
  have hrun : ((Boot.small.state.epollEventInit [true]).bind fun s =>
      (run step (⟨s, fun _ => .idle, .looping⟩ : Config 1) passThenRest).map fun _ =>
        (decide (Along step (Uniform InUse) ⟨s, fun _ => .idle, .looping⟩ passThenRest),
          decide (Along step Serves ⟨s, fun _ => .idle, .looping⟩ passThenRest),
          decide (Along step InOrder ⟨s, fun _ => .idle, .looping⟩ passThenRest))) =
      some (true, true, true) := by decide +kernel
  obtain ⟨s, hstart, hrun⟩ := Option.bind_eq_some_iff.mp hrun
  obtain ⟨k', hr, hdecide⟩ := Option.map_eq_some_iff.mp hrun
  simp only [Prod.mk.injEq, decide_eq_true_eq] at hdecide
  obtain ⟨huniform, hserves, hinOrder⟩ := hdecide
  exact ⟨_, k', ⟨⟨_, hstart⟩, rfl, rfl⟩, hr,
    streamed_of_inOrder ⟨⟨_, hstart⟩, rfl, rfl⟩ huniform hserves hinOrder⟩

/-- A worker has made the reply to a heartbeat when the client leaves. The object is recycled,
and the next client gets it; of the reply to its heartbeat three bytes are sent. Then the late
reply is put into the list, and the send thread discards it. -/
def lateReply : List (Action 2) :=
  acceptOn 5 100 ++ requestOn 0 pingPacket ++
    eventOn 5 epollin { recv := .zero .econnreset, now := 111 } ++ [.loop (.recycle [112])] ++
    acceptOn 5 200 ++ requestOn 1 pingPacket ++ enqueueBy 1 ++
    List.replicate 6 (.send { send := [.sent 3] }) ++ enqueueBy 0 ++ List.replicate 5 (.send {})

/-- With the late reply the one in progress is given up, and its other bytes are lost. -/
theorem reply_cut_short : ¬ ∀ (n : Nat) (boot : Boot) (k : Config n) (actions : List (Action n)),
    Starts boot k → (∀ action ∈ actions, action.own = true) → Along step (Uniform InUse) k actions →
      Along step Serves k actions → Throughout step Config.Streamed k actions := by
  intro hclaim
  have hrun : ((Boot.lone.state.epollEventInit [true]).bind fun s =>
      (run step (⟨s, fun _ => .idle, .looping⟩ : Config 2) lateReply).map fun k =>
        (decide (Along step (Uniform InUse) ⟨s, fun _ => .idle, .looping⟩ lateReply),
          decide (Along step Serves ⟨s, fun _ => .idle, .looping⟩ lateReply),
          decide (k.server.Open 1 ∧ (k.server.conn 1).pSendbuf.isNone ∧
            (k.server.waiting 1).isEmpty ∧
            (k.server.entered 1).map (fun reply => reply.packet.length) = [8] ∧
            k.server.sentBytes 1 = [0, 8, 0]))) = some (true, true, true) := by
    decide +kernel
  obtain ⟨s, hstart, hrun⟩ := Option.bind_eq_some_iff.mp hrun
  obtain ⟨k', hr, heq⟩ := Option.map_eq_some_iff.mp hrun
  simp only [Prod.mk.injEq, decide_eq_true_eq] at heq
  obtain ⟨huniform, hserves, hopen, hsendbuf, hwaiting, hentered, hsent⟩ := heq
  have hstarts : Starts Boot.lone (⟨s, fun _ => .idle, .looping⟩ : Config 2) :=
    ⟨⟨_, hstart⟩, rfl, rfl⟩
  obtain ⟨-, done, sent, hbytes, horder⟩ :=
    (hclaim 2 _ _ _ hstarts (by decide) huniform hserves).last hr 1 hopen
  rw [Option.isNone_iff_eq_none.mp hsendbuf] at horder
  obtain ⟨rfl, hdone⟩ := horder
  rw [List.isEmpty_iff.mp hwaiting, List.append_nil] at hdone
  rw [hsent, List.append_nil, ← hdone] at hbytes
  -- Three bytes are not a whole reply.
  have hlength := congrArg List.length hbytes
  rw [List.length_flatMap, hentered] at hlength
  exact absurd hlength (by decide)

end Sending

end MyNginx
