import MyNginx.Server.Steady

/-!
# What sending does

The send thread, for one element of its list, and the `EPOLLOUT` handler change the
sending part of one connection, the send queue and the wire. `Entry` and `Writes` list
all outcomes, each with the complete change; later proofs look at nothing else.
-/

namespace MyNginx

open Foundation

namespace Outgoing

/-- `send_str`, `p_sendbuf` and `p_msgsend` are null. -/
def cleared (o : Outgoing) : Outgoing :=
  { o with pMsgsend := none, sendStr := none, pSendbuf := none }

/-- No reply is in progress, and the next one may begin. -/
def finished (o : Outgoing) : Outgoing := { o.cleared with iThrowsendCount := 0 }

/-- The reply has become the one in progress. -/
def begun (o : Outgoing) (reply : Reply) : Outgoing :=
  { o with
    pMsgsend := some reply
    sendStr := some reply
    isendCount := o.isendCount - 1
    sendlenAlready := 0
    pSendbuf := some ⟨reply, msgHeaderLen⟩
    sendlen := pkgLen reply.buf }

/-- `n` bytes of the reply in progress were accepted. -/
def progress (o : Outgoing) (n : Nat) : Outgoing :=
  { o with
    pSendbuf := o.pSendbuf.map (·.add n)
    sendlen := o.sendlen - n
    sendlenAlready := o.sendlenAlready + n }

end Outgoing

namespace SendQueue

/-- The list without its element `i`. -/
def erase (q : SendQueue) (i : Nat) : SendQueue :=
  { q with sendMsgList := q.sendMsgList.eraseIdx i }

/-- The same, with the counter. -/
def dequeue (q : SendQueue) (i : Nat) : SendQueue :=
  { q.erase i with msgtosendCount := q.msgtosendCount - 1 }

def post (q : SendQueue) : SendQueue := { q with sendsem := q.sendsem + 1 }

end SendQueue

namespace State

variable {s s' t : State} {c d : ConnId} {env : Env} {out out' : Outgoing}
  {queue queue' : SendQueue} {written written' : List Written}

/-- A step that leaves `out` as the sending part of `c`, `queue` as the send queue and
puts `written` on the wire. -/
structure Sends (s : State) (c : ConnId) (out : Outgoing) (queue : SendQueue)
    (written : List Written) (s' : State) : Prop where
  steady : Steady s s'
  self : (s'.conn c).toOutgoing = out
  other : ∀ d, d ≠ c → (s'.conn d).toOutgoing = (s.conn d).toOutgoing
  queue : s'.toSendQueue = queue
  queued : s'.history.queued = s.history.queued
  wire : s'.history.wire = s.history.wire ++ written

theorem Sends.trans (h : Sends s c out queue written s') (h' : Sends s' c out' queue' written' t) :
    Sends s c out' queue' (written ++ written') t where
  steady := h.steady.trans h'.steady
  self := h'.self
  other d hd := (h'.other d hd).trans (h.other d hd)
  queue := h'.queue
  queued := h'.queued.trans h.queued
  wire := by rw [h'.wire, h.wire, List.append_assoc]

/-- A further step that does not write. -/
theorem Sends.then (h : Sends s c out queue written s') (h' : Sends s' c out' queue' [] t) :
    Sends s c out' queue' written t := by
  simpa using h.trans h'

theorem sends_modifyConn {f : Connection → Connection}
    (hf : ∀ conn, (f conn).link = conn.link ∧ (f conn).life = conn.life) :
    Sends s c (f (s.conn c)).toOutgoing s.toSendQueue [] (s.modifyConn c f) where
  steady := steady_modifyConn hf
  self := by simp
  other d hd := by simp [hd]
  queue := rfl
  queued := rfl
  wire := (List.append_nil _).symm

theorem sends_queue (h : ∀ reply ∈ queue.sendMsgList, reply ∈ s.sendMsgList) :
    Sends s c (s.conn c).toOutgoing queue [] { s with toSendQueue := queue } where
  steady := steady_sendQueue _ h
  self := rfl
  other _ _ := rfl
  queue := rfl
  queued := rfl
  wire := (List.append_nil _).symm

theorem Sends.modify (h : Sends s c out queue written s') {f : Connection → Connection}
    {g : Outgoing → Outgoing} (hf : ∀ conn, (f conn).link = conn.link ∧ (f conn).life = conn.life)
    (hg : ∀ conn, (f conn).toOutgoing = g conn.toOutgoing) :
    Sends s c (g out) queue written (s'.modifyConn c f) := by
  have hstep : Sends s' c (f (s'.conn c)).toOutgoing s'.toSendQueue [] (s'.modifyConn c f) :=
    sends_modifyConn hf
  rw [hg, h.self, h.queue] at hstep
  exact h.then hstep

theorem Sends.post (h : Sends s c out queue written s') :
    Sends s c out queue.post written s'.semPost := by
  have hstep : Sends s' c (s'.conn c).toOutgoing s'.toSendQueue.post [] s'.semPost :=
    sends_queue fun _ h => h
  rw [h.self, h.queue] at hstep
  exact h.then hstep

theorem epollCtl_send {fd : Fd} {op : EpollOp} {m : Mask} {ok : Bool}
    (h : s.epollCtl op fd m c ok = some s') :
    s'.history = s.history ∧ s'.conn = s.conn ∧ s'.toSendQueue = s.toSendQueue := by
  simp only [epollCtl] at h
  split at h
  · obtain rfl := Option.some.inj h
    exact ⟨rfl, rfl, rfl⟩
  · cases h

/-- Changing the registration of a connection that has been accepted. -/
theorem sends_epollMod (inv : s.Inv) (used : s.Used c) {m : Mask} {k : Int} {ok : Bool} :
    Sends s c (s.conn c).toOutgoing s.toSendQueue []
      (s.epollOperEvent (s.conn c).fd .mod m k c ok).1 := by
  have hsteady : Steady s (s.epollOperEvent (s.conn c).fd .mod m k c ok).1 :=
    steady_epollMod inv used
  have hmodify : Sends s c (s.conn c).toOutgoing s.toSendQueue []
      (s.modifyConn c fun conn => { conn with events := operMask (s.conn c).events .mod m k }) :=
    sends_modifyConn (f := fun conn =>
      { conn with events := operMask (s.conn c).events .mod m k }) fun _ => ⟨rfl, rfl⟩
  simp only [epollOperEvent, reduceCtorEq, if_false] at hsteady ⊢
  split
  next u hctl =>
    rw [hctl] at hsteady
    obtain ⟨hhistory, hconn, hqueue⟩ := epollCtl_send hctl
    exact ⟨hsteady, by rw [hconn]; exact hmodify.self, fun d hd => by
      rw [hconn]
      exact hmodify.other d hd, hqueue.trans hmodify.queue, by rw [hhistory]; exact hmodify.queued,
      by rw [hhistory]; exact hmodify.wire⟩
  next => exact hmodify

theorem Sends.epollMod (h : Sends s c out queue written s') (inv : s.Inv) (used : s.Used c)
    {m : Mask} {k : Int} {ok : Bool} : Sends s c out queue written
      (s'.epollOperEvent (s'.conn c).fd .mod m k c ok).1 := by
  have hneutral := h.steady.toNeutral
  have hstep : Sends s' c (s'.conn c).toOutgoing s'.toSendQueue []
      (s'.epollOperEvent (s'.conn c).fd .mod m k c ok).1 :=
    sends_epollMod (hneutral.inv inv) (hneutral.used_iff.mpr used)
  rw [h.self, h.queue] at hstep
  exact h.then hstep

/-- The answer of `send` that ends `sendproc`: the first one that is not `EINTR`. -/
def lastAnswer (env : Env) : Option SendAnswer := env.send.find? (· ≠ .failed .eintr)

/-- `send` accepted `n` bytes behind `buf`, or would have blocked. -/
def Puts (s : State) (c : ConnId) (env : Env) (buf : Option SendBuf) (sendLen n : Nat)
    (written : List Written) : Prop :=
  lastAnswer env = some (.failed .eagain) ∧ n = 0 ∧ written = [] ∨
    ∃ p, lastAnswer env = some (.sent n) ∧ buf = some p ∧ p.CanSend n sendLen ∧
      written = [⟨c, s.history.use c, (s.conn c).fd, p.reply, p.bytes n⟩]

/-- `send` failed for good: the descriptor is not open, or the answer says so. -/
def Fails (s : State) (c : ConnId) (env : Env) : Prop :=
  s.openFds (s.conn c).fd = false ∨ lastAnswer env = some .zero ∨
    ∃ errno, lastAnswer env = some (.failed errno) ∧ errno ≠ .eagain

theorem sends_refl : Sends s c (s.conn c).toOutgoing s.toSendQueue [] s :=
  ⟨.refl s, rfl, fun _ _ => rfl, rfl, rfl, (List.append_nil _).symm⟩

/-- What `sendproc` comes to. -/
theorem sendproc_sends {buf : Option SendBuf} {sendLen : Nat} {r : Option Nat}
    (h : s.sendproc c buf sendLen env.send = some (s', r)) :
    (∃ n written, r = some n ∧ s.Puts c env buf sendLen n written ∧
        Sends s c (s.conn c).toOutgoing s.toSendQueue written s') ∨
      r = none ∧ s' = s ∧ s.Fails c env := by
  obtain ⟨recv, answers, accept, nonblock, ctl, close, now, later⟩ := env
  induction answers with
  | nil => cases h
  | cons answer answers ih =>
      have hsteady := steady_sendproc h
      simp only [sendproc] at h
      split at h
      next hopen =>
        split at h
        next n =>
          obtain ⟨p, hp, h⟩ := Option.bind_eq_some_iff.mp h
          split at h
          next hcan =>
            obtain ⟨rfl, rfl⟩ := Prod.mk.inj (Option.some.inj h)
            exact .inl ⟨n, _, rfl, .inr ⟨p, by simp [lastAnswer], hp, hcan, rfl⟩, hsteady, rfl,
              fun _ _ => rfl, rfl, rfl, rfl⟩
          next => cases h
        · obtain ⟨rfl, rfl⟩ := Prod.mk.inj (Option.some.inj h)
          exact .inr ⟨rfl, rfl, .inr (.inl (by simp [lastAnswer]))⟩
        · have hrest := ih h
          simpa [Puts, Fails, lastAnswer] using hrest
        · obtain ⟨rfl, rfl⟩ := Prod.mk.inj (Option.some.inj h)
          exact .inl ⟨0, [], rfl, .inl ⟨by simp [lastAnswer], rfl, rfl⟩, sends_refl⟩
        next errno hintr hagain =>
          obtain ⟨rfl, rfl⟩ := Prod.mk.inj (Option.some.inj h)
          have hlast : ¬ errno = .eintr := hintr
          exact .inr ⟨rfl, rfl, .inr (.inr ⟨errno, by simp [lastAnswer, hlast], hagain⟩)⟩
      next hclosed =>
        obtain ⟨rfl, rfl⟩ := Prod.mk.inj (Option.some.inj h)
        exact .inr ⟨rfl, rfl, .inl (by simpa using hclosed)⟩

theorem Sends.clearSend (h : Sends s c out queue written s') :
    Sends s c out.cleared queue written (s'.clearSend c) :=
  h.modify (g := Outgoing.cleared) (fun _ => ⟨rfl, rfl⟩) fun _ => rfl

/-- Nothing is in progress any more, and EPOLLOUT is not waited for. -/
theorem Sends.finish (h : Sends s c out queue written s') :
    Sends s c out.finished queue written
      ((s'.clearSend c).modifyConn c fun conn => { conn with iThrowsendCount := 0 }) :=
  h.clearSend.modify (g := fun o => { o with iThrowsendCount := 0 }) (fun _ => ⟨rfl, rfl⟩)
    fun _ => rfl

theorem Sends.count (h : Sends s c out queue written s') (n : Nat) :
    Sends s c { out with sendlenAlready := out.sendlenAlready + n } queue written
      (s'.modifyConn c fun conn => { conn with sendlenAlready := conn.sendlenAlready + n }) :=
  h.modify (g := fun o => { o with sendlenAlready := o.sendlenAlready + n })
    (fun _ => ⟨rfl, rfl⟩) fun _ => rfl

/-- What the `EPOLLOUT` handler comes to. -/
inductive Writes (s : State) (c : ConnId) (env : Env) (s' : State) : Prop
  | failed (fails : s.Fails c env)
      (sends : Sends s c (s.conn c).finished s.toSendQueue.post [] s')
  | part {n : Nat} {written : List Written} (lt : n < (s.conn c).sendlen)
      (puts : s.Puts c env (s.conn c).pSendbuf (s.conn c).sendlen n written)
      (sends : Sends s c ((s.conn c).progress n) s.toSendQueue written s')
  | mismatch {n : Nat} {written : List Written} (le : (s.conn c).sendlen ≤ n)
      (puts : s.Puts c env (s.conn c).pSendbuf (s.conn c).sendlen n written)
      (differs : (s.conn c).sendlenAlready + n ≠ (s.conn c).sendlenSuppose)
      (sends : Sends s c
        { (s.conn c).toOutgoing with sendlenAlready := (s.conn c).sendlenAlready + n }
        s.toSendQueue written s')
  | finished {n : Nat} {written : List Written} (le : (s.conn c).sendlen ≤ n)
      (puts : s.Puts c env (s.conn c).pSendbuf (s.conn c).sendlen n written)
      (equal : (s.conn c).sendlenAlready + n = (s.conn c).sendlenSuppose)
      (sends : Sends s c
        { (s.conn c).toOutgoing with sendlenAlready := (s.conn c).sendlenAlready + n }.finished
        s.toSendQueue.post written s')

theorem writable_writes (inv : s.Inv) (used : s.Used c)
    (h : s.eventWritableRequestHandler c env = some s') : Writes s c env s' := by
  simp only [eventWritableRequestHandler] at h
  cases hsend : s.sendproc c (s.conn c).pSendbuf (s.conn c).sendlen env.send with
  | none => simp [hsend] at h
  | some result =>
      obtain ⟨t, r⟩ := result
      rcases sendproc_sends hsend with
        ⟨n, written, rfl, hputs, hsends⟩ | ⟨rfl, hsame, hfails⟩
      · simp only [hsend] at h
        split at h
        next hlt =>
          obtain rfl := Option.some.inj h
          exact .part hlt hputs (hsends.modify (g := fun o => o.progress n) (fun _ => ⟨rfl, rfl⟩)
            fun _ => rfl)
        next hle =>
          have hcount := hsends.count n
          have hconn := hcount.self
          split at h
          next hdiffers =>
            obtain rfl := Option.some.inj h
            refine .mismatch (Nat.not_lt.mp hle) hputs ?_ hcount
            rwa [hconn] at hdiffers
          next hequal =>
            obtain rfl := Option.some.inj h
            refine .finished (Nat.not_lt.mp hle) hputs ?_ (hcount.epollMod inv used).post.finish
            rw [hconn] at hequal
            exact not_not.mp hequal
      · obtain rfl := hsame.symm
        simp only [hsend, Option.some.injEq] at h
        subst h
        exact .failed hfails sends_refl.post.finish

/-- What the send thread does with the element `i` of its list. -/
inductive Entry (s : State) (i : Nat) (reply : Reply) (c : ConnId) (env : Env) (s' : State) :
    SendNext → Prop
  | discarded (outdated : (s.conn c).judgeOutdate reply.head.msgCursequence = false)
      (sends : Sends s c (s.conn c).cleared (s.toSendQueue.erase i) [] s') :
      Entry s i reply c env s' .erased
  | skipped (current : (s.conn c).judgeOutdate reply.head.msgCursequence = true)
      (busy : 0 < (s.conn c).iThrowsendCount) (same : s' = s) : Entry s i reply c env s' .skipped
  | failed (current : (s.conn c).judgeOutdate reply.head.msgCursequence = true)
      (idle : (s.conn c).iThrowsendCount ≤ 0) (fails : s.Fails c env)
      (sends : Sends s c ((s.conn c).begun reply).finished (s.toSendQueue.dequeue i) [] s') :
      Entry s i reply c env s' .erased
  | part {n : Nat} {written : List Written}
      (current : (s.conn c).judgeOutdate reply.head.msgCursequence = true)
      (idle : (s.conn c).iThrowsendCount ≤ 0) (lt : n < pkgLen reply.buf)
      (puts : s.Puts c env (some ⟨reply, msgHeaderLen⟩) (pkgLen reply.buf) n written)
      (sends : Sends s c
        { ((s.conn c).begun reply).progress n with
          iThrowsendCount := (s.conn c).iThrowsendCount + 1 }
        (s.toSendQueue.dequeue i) written s') :
      Entry s i reply c env s' .erased
  | mismatch {written : List Written}
      (current : (s.conn c).judgeOutdate reply.head.msgCursequence = true)
      (idle : (s.conn c).iThrowsendCount ≤ 0)
      (puts : s.Puts c env (some ⟨reply, msgHeaderLen⟩) (pkgLen reply.buf) (pkgLen reply.buf) written)
      (differs : pkgLen reply.buf ≠ (s.conn c).sendlenSuppose)
      (sends : Sends s c
        { (s.conn c).begun reply with sendlenAlready := pkgLen reply.buf }
        (s.toSendQueue.dequeue i) written s') :
      Entry s i reply c env s' .returned
  | finished {written : List Written}
      (current : (s.conn c).judgeOutdate reply.head.msgCursequence = true)
      (idle : (s.conn c).iThrowsendCount ≤ 0)
      (puts : s.Puts c env (some ⟨reply, msgHeaderLen⟩) (pkgLen reply.buf) (pkgLen reply.buf) written)
      (equal : pkgLen reply.buf = (s.conn c).sendlenSuppose)
      (sends : Sends s c
        { (s.conn c).begun reply with sendlenAlready := pkgLen reply.buf }.finished
        (s.toSendQueue.dequeue i) written s') :
      Entry s i reply c env s' .erased

theorem Puts.le {buf : Option SendBuf} {len n : Nat} (h : s.Puts c env buf len n written) :
    n ≤ len := by
  rcases h with ⟨-, rfl, -⟩ | ⟨p, -, -, hcan, -⟩
  · exact Nat.zero_le _
  · exact hcan.2.1

theorem Puts.of_steady {buf : Option SendBuf} {len n : Nat} (h : Steady s t)
    (puts : t.Puts c env buf len n written) : s.Puts c env buf len n written := by
  rwa [Puts, h.use_eq, (link_eq (h.link c)).1] at puts

theorem Fails.of_steady (h : Steady s t) (fails : t.Fails c env) : s.Fails c env := by
  rwa [Fails, h.openFds, (link_eq (h.link c)).1] at fails

/-- The first settings for an element that may be sent. -/
theorem sends_beginSend {i : Nat} {reply : Reply} (hc : reply.head.lpCurconn = c) :
    Sends s c ((s.conn c).begun reply) (s.toSendQueue.dequeue i) [] (s.beginSend i reply) := by
  subst hc
  have hqueue : Sends s reply.head.lpCurconn (s.conn reply.head.lpCurconn).toOutgoing
      (s.toSendQueue.dequeue i) [] { s with toSendQueue := s.toSendQueue.dequeue i } :=
    sends_queue fun _ hr => List.eraseIdx_subset hr
  exact hqueue.modify (g := fun o => o.begun reply) (fun _ => ⟨rfl, rfl⟩) fun _ => rfl

theorem sendEntry_entry (inv : s.Inv) {i : Nat} {next : SendNext}
    (h : s.sendEntry i env = some (s', next)) :
    ∃ reply, s.sendMsgList[i]? = some reply ∧
      Entry s i reply reply.head.lpCurconn env s' next := by
  simp only [sendEntry] at h
  obtain ⟨reply, hreply, h⟩ := Option.bind_eq_some_iff.mp h
  refine ⟨reply, hreply, ?_⟩
  have hused : s.Used reply.head.lpCurconn :=
    (inv.flight.replies reply (List.mem_of_getElem? hreply)).1
  generalize hc : reply.head.lpCurconn = c at h hused ⊢
  split at h
  next houtdated =>
    obtain ⟨rfl, rfl⟩ := Prod.mk.inj (Option.some.inj h)
    have hclear := (sends_refl (s := s) (c := c)).clearSend
    have herase : Sends (s.clearSend c) c (s.conn c).cleared (s.toSendQueue.erase i) []
        { s.clearSend c with sendMsgList := s.sendMsgList.eraseIdx i } := by
      have hqueue : Sends (s.clearSend c) c ((s.clearSend c).conn c).toOutgoing
          (s.toSendQueue.erase i) []
          { s.clearSend c with toSendQueue := s.toSendQueue.erase i } :=
        sends_queue fun _ hr => List.eraseIdx_subset hr
      rw [hclear.self] at hqueue
      exact hqueue
    exact .discarded houtdated (hclear.then herase)
  next hcurrent =>
  have hcurrent : (s.conn c).judgeOutdate reply.head.msgCursequence = true := by
    simpa using hcurrent
  split at h
  next hbusy =>
    obtain ⟨rfl, rfl⟩ := Prod.mk.inj (Option.some.inj h)
    exact .skipped hcurrent hbusy rfl
  next hidle =>
  have hidle : (s.conn c).iThrowsendCount ≤ 0 := Int.not_lt.mp hidle
  have hbegin : Sends s c ((s.conn c).begun reply) (s.toSendQueue.dequeue i) []
      (s.beginSend i reply) := sends_beginSend hc
  have hlen : ((s.beginSend i reply).conn c).sendlen = pkgLen reply.buf :=
    congrArg Outgoing.sendlen hbegin.self
  have hbuf : ((s.beginSend i reply).conn c).pSendbuf = some ⟨reply, msgHeaderLen⟩ :=
    congrArg Outgoing.pSendbuf hbegin.self
  rw [hlen, hbuf] at h
  cases hsend : (s.beginSend i reply).sendproc c (some ⟨reply, msgHeaderLen⟩) (pkgLen reply.buf)
      env.send with
  | none => simp [hsend] at h
  | some result =>
      obtain ⟨t, r⟩ := result
      rcases sendproc_sends hsend with
        ⟨n, written, rfl, hputs, hsends⟩ | ⟨rfl, hsame, hfails⟩
      · rw [hbegin.self, hbegin.queue] at hsends
        have hsent := hbegin.trans hsends
        have hputs := hputs.of_steady hbegin.steady
        simp only [hsend] at h
        split at h
        next hlt =>
          obtain ⟨rfl, rfl⟩ := Prod.mk.inj (Option.some.inj h)
          refine .part hcurrent hidle hlt hputs (Sends.epollMod ?_ inv hused)
          exact hsent.modify (g := fun o =>
            { o.progress n with iThrowsendCount := o.iThrowsendCount + 1 })
            (fun _ => ⟨rfl, rfl⟩) fun _ => rfl
        next hle =>
          obtain rfl : n = pkgLen reply.buf := Nat.le_antisymm hputs.le (Nat.not_lt.mp hle)
          have hcount := hsent.count (pkgLen reply.buf)
          have halready := congrArg Outgoing.sendlenAlready hcount.self
          have hsuppose := congrArg Outgoing.sendlenSuppose hcount.self
          simp only [Outgoing.begun, Nat.zero_add] at halready hsuppose hcount
          rw [halready, hsuppose] at h
          split at h
          next hdiffers =>
            obtain ⟨rfl, rfl⟩ := Prod.mk.inj (Option.some.inj h)
            exact .mismatch hcurrent hidle hputs hdiffers hcount
          next hequal =>
            obtain ⟨rfl, rfl⟩ := Prod.mk.inj (Option.some.inj h)
            exact .finished hcurrent hidle hputs (not_not.mp hequal) hcount.finish
      · obtain rfl := hsame.symm
        simp only [hsend, Option.some.injEq, Prod.mk.injEq] at h
        obtain ⟨rfl, rfl⟩ := h
        exact .failed hcurrent hidle (hfails.of_steady hbegin.steady) hbegin.finish

theorem Writes.steady (h : Writes s c env s') : Steady s s' := by
  cases h with
  | failed fails sends => exact sends.steady
  | part lt puts sends => exact sends.steady
  | mismatch le puts differs sends => exact sends.steady
  | finished le puts equal sends => exact sends.steady

/-- Sending does not touch the expected length. -/
theorem Sends.suppose (h : Sends s c out queue written s')
    (hout : out.sendlenSuppose = (s.conn c).sendlenSuppose) (d : ConnId) :
    (s'.conn d).sendlenSuppose = (s.conn d).sendlenSuppose := by
  by_cases hd : d = c
  · rw [hd, congrArg Outgoing.sendlenSuppose h.self, hout]
  · exact congrArg Outgoing.sendlenSuppose (h.other d hd)

theorem Writes.suppose (h : Writes s c env s') (d : ConnId) :
    (s'.conn d).sendlenSuppose = (s.conn d).sendlenSuppose := by
  cases h with
  | failed fails sends => exact sends.suppose rfl d
  | part lt puts sends => exact sends.suppose rfl d
  | mismatch le puts differs sends => exact sends.suppose rfl d
  | finished le puts equal sends => exact sends.suppose rfl d

theorem Entry.suppose {i : Nat} {reply : Reply} {next : SendNext}
    (h : Entry s i reply c env s' next) (d : ConnId) :
    (s'.conn d).sendlenSuppose = (s.conn d).sendlenSuppose := by
  cases h with
  | discarded outdated sends => exact sends.suppose rfl d
  | skipped current busy same => rw [same]
  | failed current idle fails sends => exact sends.suppose rfl d
  | part current idle lt puts sends => exact sends.suppose rfl d
  | mismatch current idle puts differs sends => exact sends.suppose rfl d
  | finished current idle puts equal sends => exact sends.suppose rfl d

theorem Entry.steady {i : Nat} {reply : Reply} {next : SendNext}
    (h : Entry s i reply c env s' next) : Steady s s' := by
  cases h with
  | discarded outdated sends => exact sends.steady
  | skipped current busy same => exact same ▸ .refl s
  | failed current idle fails sends => exact sends.steady
  | part current idle lt puts sends => exact sends.steady
  | mismatch current idle puts differs sends => exact sends.steady
  | finished current idle puts equal sends => exact sends.steady

/-- What becomes of the send queue: a discarded element is not counted off. -/
theorem Entry.sendQueue {i : Nat} {reply : Reply} {next : SendNext}
    (h : Entry s i reply c env s' next) :
    (s.conn c).judgeOutdate reply.head.msgCursequence = false ∧
        s'.toSendQueue = s.toSendQueue.erase i ∨
      (s.conn c).judgeOutdate reply.head.msgCursequence = true ∧
        (s' = s ∨ s'.toSendQueue = s.toSendQueue.dequeue i) := by
  cases h with
  | discarded outdated sends => exact .inl ⟨outdated, sends.queue⟩
  | skipped current busy same => exact .inr ⟨current, .inl same⟩
  | failed current idle fails sends => exact .inr ⟨current, .inr sends.queue⟩
  | part current idle lt puts sends => exact .inr ⟨current, .inr sends.queue⟩
  | mismatch current idle puts differs sends => exact .inr ⟨current, .inr sends.queue⟩
  | finished current idle puts equal sends => exact .inr ⟨current, .inr sends.queue⟩

theorem Entry.mem_sendMsgList {i : Nat} {reply r : Reply} {next : SendNext}
    (h : Entry s i reply c env s' next) (hr : r ∈ s'.sendMsgList) : r ∈ s.sendMsgList := by
  rcases h.sendQueue with ⟨-, hqueue⟩ | ⟨-, rfl | hqueue⟩
  · rw [congrArg SendQueue.sendMsgList hqueue] at hr
    exact List.eraseIdx_subset hr
  · exact hr
  · rw [congrArg SendQueue.sendMsgList hqueue] at hr
    exact List.eraseIdx_subset hr

end State

end MyNginx
