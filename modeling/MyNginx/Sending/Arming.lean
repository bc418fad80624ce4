import MyNginx.Sending.Invariant
import MyNginx.Server.Registration

/-!
# Waiting for EPOLLOUT

A reply that the send thread could not send completely is left to the `EPOLLOUT` handler:
`iThrowsendCount` is one, `EPOLLOUT` is in the registered mask, and `p_sendbuf` is the
position of the first byte that is still to be sent. When the handler has sent the last
byte it takes all of this back.

It takes only a part of it back when `send` fails for good: the mask keeps `EPOLLOUT`, and
the loop spins over an event that nobody waits for. Three other steps separate what
belongs together: a reply of another length than the expected one, an outdated element of
the list that names the connection, and the hang-up of a peer whose connection the timer
thread has marked but not closed yet.
-/

namespace MyNginx

open Foundation

/-- The members of the sending part that tell how far the reply in progress is. -/
def Outgoing.position (o : Outgoing) : Option Reply × Int × Option SendBuf × Nat × Nat :=
  (o.pMsgsend, o.iThrowsendCount, o.pSendbuf, o.sendlen, o.sendlenAlready)

theorem Outgoing.position_eq {o o' : Outgoing} (h : o'.position = o.position) :
    o'.pMsgsend = o.pMsgsend ∧ o'.iThrowsendCount = o.iThrowsendCount ∧
      o'.pSendbuf = o.pSendbuf ∧ o'.sendlen = o.sendlen ∧
      o'.sendlenAlready = o.sendlenAlready := by
  simpa [position] using h

namespace State

variable {s s' t : State} {c d : ConnId} {env : Env}

/-- The bytes written to the descriptor of a connection in its current use. -/
def sentBytes (s : State) (c : ConnId) : List UInt8 :=
  (s.history.wire.filter fun w => w.conn = c ∧ w.use = s.history.use c).flatMap Written.bytes

/-- The reply is in progress: its first `sendlen_already` bytes are the last ones written,
and `p_sendbuf` and `sendlen` are the rest, which is not empty. -/
structure Unfinished (s : State) (c : ConnId) (reply : Reply) : Prop where
  msgsend : (s.conn c).pMsgsend = some reply
  sendbuf : (s.conn c).pSendbuf = some ⟨reply, msgHeaderLen + (s.conn c).sendlenAlready⟩
  rest : (s.conn c).sendlenAlready + (s.conn c).sendlen = pkgLen reply.buf
  left : 0 < (s.conn c).sendlen
  sent : ∃ before, s.sentBytes c = before ++ reply.packet.take (s.conn c).sendlenAlready

/-- `EPOLLOUT` is armed exactly while a reply is unfinished. -/
structure Armed (s : State) (c : ConnId) : Prop where
  mask : ∃ m, s.interest (s.conn c).fd = some (m, c) ∧
    (m.has epollout = true ↔ (s.conn c).iThrowsendCount = 1)
  unfinished : (s.conn c).iThrowsendCount = 1 → ∃ reply, s.Unfinished c reply

/-- Where an open connection is: nothing in progress, or a reply left to `EPOLLOUT`. -/
inductive Phase (s : State) (c : ConnId) : Prop
  | idle (count : (s.conn c).iThrowsendCount = 0)
      (disarmed : (s.conn c).events.has epollout = false)
  | busy {reply : Reply} (count : (s.conn c).iThrowsendCount = 1)
      (armed : (s.conn c).events.has epollout = true) (unfinished : s.Unfinished c reply)

/-- The registration of every open connection is the one its phase asks for. -/
def Tuned (s : State) : Prop := ∀ c, s.Open c → s.Enrolled c ∧ s.Phase c

theorem Tuned.armed (h : s.Tuned) (hopen : s.Open c) : s.Armed c := by
  obtain ⟨henrolled, hphase⟩ := h c hopen
  cases hphase with
  | idle count disarmed =>
      refine ⟨⟨_, henrolled, ?_⟩, fun hone => ?_⟩
      · rw [disarmed, count]
        simp
      · rw [count] at hone
        cases hone
  | busy count armed unfinished =>
      exact ⟨⟨_, henrolled, iff_of_true armed count⟩, fun _ => ⟨_, unfinished⟩⟩

theorem has_or (m : Mask) : Mask.has (m ||| epollout) epollout = true := by
  have hand : (m ||| epollout) &&& epollout = epollout := by
    ext i
    simp only [BitVec.getElem_and, BitVec.getElem_or]
    cases epollout[i] <;> simp
  rw [Mask.has, hand]
  decide

theorem has_and_not (m : Mask) : Mask.has (m &&& ~~~epollout) epollout = false := by
  have hand : m &&& ~~~epollout &&& epollout = 0 := by
    ext i
    simp only [BitVec.getElem_and, BitVec.getElem_not]
    cases epollout[i] <;> simp
  simp [Mask.has, hand]

theorem Unfinished.congr {reply : Reply} (h : s.Unfinished c reply)
    (position : (s'.conn c).position = (s.conn c).position)
    (sent : s'.sentBytes c = s.sentBytes c) : s'.Unfinished c reply := by
  obtain ⟨hmsgsend, -, hsendbuf, hsendlen, halready⟩ := Outgoing.position_eq position
  constructor
  · rw [hmsgsend, h.msgsend]
  · rw [hsendbuf, halready, h.sendbuf]
  · rw [halready, hsendlen, h.rest]
  · rw [hsendlen]
    exact h.left
  · rw [halready, sent]
    exact h.sent

theorem Phase.congr (h : s.Phase c) (events : (s'.conn c).events = (s.conn c).events)
    (position : (s'.conn c).position = (s.conn c).position)
    (sent : s'.sentBytes c = s.sentBytes c) : s'.Phase c := by
  have hcount := (Outgoing.position_eq position).2.1
  cases h with
  | idle count disarmed => exact .idle (hcount.trans count) (by rw [events, disarmed])
  | busy count armed unfinished =>
      exact .busy (hcount.trans count) (by rw [events, armed]) (unfinished.congr position sent)

theorem Same.tuned (h : Same s s' c) (sent : s'.sentBytes c = s.sentBytes c)
    (tuned : s.Enrolled c ∧ s.Phase c) : s'.Enrolled c ∧ s'.Phase c := by
  refine ⟨?_, tuned.2.congr h.events (by rw [h.outgoing]) sent⟩
  rw [Enrolled, h.fd, h.registration, h.events]
  exact tuned.1

/-- A step that leaves the connections alone keeps them tuned. -/
theorem Tuned.leaves (h : s.Tuned) (hs : Leaves s s') : s'.Tuned := by
  intro c hopen
  rcases hs.each c hopen with ⟨hold, hsame⟩ | hfresh
  · exact hsame.tuned (by rw [sentBytes, sentBytes, hs.wire, hsame.use]) (h c hold)
  · refine ⟨?_, .idle hfresh.idle ?_⟩
    · rw [Enrolled, hfresh.events]
      exact hfresh.registration
    · rw [hfresh.events]
      decide

variable {out : Outgoing} {queue : SendQueue} {written : List Written}

theorem Puts.owner {buf : Option SendBuf} {len n : Nat} (h : s.Puts c env buf len n written) :
    ∀ w ∈ written, w.conn = c ∧ w.use = s.history.use c := by
  intro w hw
  rcases h with ⟨-, -, rfl⟩ | ⟨p, -, -, -, rfl⟩
  · cases hw
  · obtain rfl := List.mem_singleton.mp hw
    exact ⟨rfl, rfl⟩

theorem Sends.sentBytes_self (h : Sends s c out queue written s')
    (owner : ∀ w ∈ written, w.conn = c ∧ w.use = s.history.use c) :
    s'.sentBytes c = s.sentBytes c ++ written.flatMap Written.bytes := by
  have hall : (written.filter fun w => w.conn = c ∧ w.use = s.history.use c) = written :=
    List.filter_eq_self.mpr fun w hw => decide_eq_true (owner w hw)
  rw [sentBytes, sentBytes, h.wire, h.steady.use_eq, List.filter_append, hall,
    List.flatMap_append]

theorem Sends.sentBytes_other (h : Sends s c out queue written s')
    (owner : ∀ w ∈ written, w.conn = c ∧ w.use = s.history.use c) (hd : d ≠ c) :
    s'.sentBytes d = s.sentBytes d := by
  have hnone : (written.filter fun w => w.conn = d ∧ w.use = s.history.use d) = [] := by
    refine List.filter_eq_nil_iff.mpr fun w hw => ?_
    rw [(owner w hw).1]
    simp [Ne.symm hd]
  rw [sentBytes, sentBytes, h.wire, h.steady.use_eq, List.filter_append, hnone, List.append_nil]

/-- What `send` accepts of a reply follows what it accepted before. -/
theorem Puts.bytes {reply : Reply} (already : Nat) {len n : Nat}
    (h : s.Puts c env (some ⟨reply, msgHeaderLen + already⟩) len n written)
    (fits : already + len = pkgLen reply.buf) :
    reply.packet.take already ++ written.flatMap Written.bytes =
      reply.packet.take (already + n) := by
  have hle := h.le
  rw [Reply.packet, List.take_take, List.take_take, Nat.min_eq_left (by omega),
    Nat.min_eq_left (by omega)]
  rcases h with ⟨-, rfl, rfl⟩ | ⟨p, -, hp, -, rfl⟩
  · simp
  · obtain rfl := Option.some.inj hp
    rw [List.take_add]
    simp [SendBuf.bytes]

/-- Sending on `c` does not concern another connection. -/
theorem SendOnly.same (h : SendOnly c s s') (inv : s.Inv) (used : s.Used c)
    (interest : ∀ fd, fd ≠ (s.conn c).fd → s'.interest fd = s.interest fd) (hd : d ≠ c)
    (hopen : s'.Open d) : s.Open d ∧ Same s s' d := by
  obtain ⟨queue, registrations, wire, out, events, rfl⟩ := h
  have hold : s.Open d := by simpa [Open, Used, hd] using hopen
  refine ⟨hold, .of_conn rfl (by simp [hd]) (interest _ fun hfd => hd ?_)⟩
  exact inv.owner_unique (inv.wired.used d hold.1).1 (inv.wired.used c used).1 hold.2 rfl hfd.symm

/-- A reply of which `n` further bytes were accepted, with more to come. -/
theorem Unfinished.progress {reply : Reply} {n : Nat} (h : s.Unfinished c reply)
    (puts : s.Puts c env (s.conn c).pSendbuf (s.conn c).sendlen n written)
    (lt : n < (s.conn c).sendlen) (sends : Sends s c out queue written s')
    (msgsend : out.pMsgsend = (s.conn c).pMsgsend)
    (sendbuf : out.pSendbuf = (s.conn c).pSendbuf.map (·.add n))
    (sendlen : out.sendlen = (s.conn c).sendlen - n)
    (already : out.sendlenAlready = (s.conn c).sendlenAlready + n) : s'.Unfinished c reply := by
  have hrest := h.rest
  rw [h.sendbuf] at puts
  obtain ⟨before, hsent⟩ := h.sent
  refine ⟨?_, ?_, ?_, ?_, before, ?_⟩
  · rw [congrArg Outgoing.pMsgsend sends.self, msgsend, h.msgsend]
  · rw [congrArg Outgoing.pSendbuf sends.self, congrArg Outgoing.sendlenAlready sends.self,
      sendbuf, already, h.sendbuf]
    simp [SendBuf.add, Nat.add_assoc]
  · rw [congrArg Outgoing.sendlen sends.self, congrArg Outgoing.sendlenAlready sends.self,
      sendlen, already]
    omega
  · rw [congrArg Outgoing.sendlen sends.self, sendlen]
    omega
  · rw [congrArg Outgoing.sendlenAlready sends.self, already,
      sends.sentBytes_self puts.owner, hsent, List.append_assoc, puts.bytes _ hrest]

/-- A reply that was taken from the list, and of which only `n` bytes were accepted. -/
theorem Unfinished.begun {reply : Reply} {n : Nat}
    (puts : s.Puts c env (some ⟨reply, msgHeaderLen⟩) (pkgLen reply.buf) n written)
    (lt : n < pkgLen reply.buf)
    (sends : Sends s c { ((s.conn c).begun reply).progress n with
      iThrowsendCount := (s.conn c).iThrowsendCount + 1 } queue written s') :
    s'.Unfinished c reply := by
  refine ⟨?_, ?_, ?_, ?_, s.sentBytes c, ?_⟩
  · rw [sends.self]
    rfl
  · rw [sends.self]
    simp [Outgoing.progress, Outgoing.begun, SendBuf.add]
  · rw [sends.self]
    simp only [Outgoing.progress, Outgoing.begun]
    omega
  · rw [sends.self]
    exact Nat.sub_pos_of_lt lt
  · have hbytes := Puts.bytes 0 puts (Nat.zero_add _)
    rw [sends.sentBytes_self puts.owner, sends.self, ← List.nil_append (written.flatMap _)]
    exact congrArg _ hbytes

instance : Decidable (s.Fails c env) := by
  unfold Fails
  cases lastAnswer env with
  | none => exact decidable_of_iff (s.openFds (s.conn c).fd = false) (by simp)
  | some answer =>
      cases answer with
      | sent n => exact decidable_of_iff (s.openFds (s.conn c).fd = false) (by simp)
      | zero => exact isTrue (.inr (.inl rfl))
      | failed errno =>
          exact decidable_of_iff (s.openFds (s.conn c).fd = false ∨ errno ≠ .eagain) (by simp)

/-- The `EPOLLOUT` part of an event: a peer that hung up does not find its connection open
and marked by the timer thread; `send` does not fail for good while a reply is in progress;
and when the reply is finished, its length is the expected one. -/
def WritesWell (s : State) (c : ConnId) (events : Mask) (env : Env) : Prop :=
  events.has epollout = true → s.Open c →
    if events.has (epollrdhup ||| epollerr ||| epollhup) then (s.conn c).istimeout = false
    else (s.conn c).iThrowsendCount = 1 →
      ¬ s.Fails c env ∧ (lastAnswer env = some (.sent (s.conn c).sendlen) →
        (s.conn c).sendlenAlready + (s.conn c).sendlen = (s.conn c).sendlenSuppose)

instance {events : Mask} : Decidable (s.WritesWell c events env) := by
  unfold WritesWell
  infer_instance

/-- The outcome of the `EPOLLOUT` handler on an open connection. -/
theorem Writes.tuned (h : Writes s c env s')
    (tuned : s.Enrolled c ∧ s.Phase c) (fd : (s'.conn c).fd = (s.conn c).fd)
    (mask : KeepsMask s c s' ∧
        ((s'.conn c).iThrowsendCount = (s.conn c).iThrowsendCount ∨ s.Fails c env) ∨
      Remasks s c ((s.conn c).events &&& ~~~epollout) s' ∧ (s'.conn c).iThrowsendCount = 0)
    (well : (s.conn c).iThrowsendCount = 1 →
      ¬ s.Fails c env ∧ (lastAnswer env = some (.sent (s.conn c).sendlen) →
        (s.conn c).sendlenAlready + (s.conn c).sendlen = (s.conn c).sendlenSuppose)) :
    s'.Enrolled c ∧ s'.Phase c := by
  obtain ⟨henrolled, hphase⟩ := tuned
  have hcount : (s'.conn c).iThrowsendCount = (s.conn c).iThrowsendCount ∨
      (s'.conn c).iThrowsendCount = 0 := by
    cases h with
    | failed fails sends => exact .inr (by rw [sends.self]; rfl)
    | part lt puts sends => exact .inl (by rw [sends.self]; rfl)
    | mismatch le puts differs sends => exact .inl (by rw [sends.self])
    | finished le puts equal sends => exact .inr (by rw [sends.self]; rfl)
  rcases mask with ⟨hkeeps, hsame⟩ | ⟨hmasks, hzero⟩
  · refine ⟨?_, ?_⟩
    · rw [Enrolled, hkeeps.interest, fd, hkeeps.events]
      exact henrolled
    cases hphase with
    | idle count disarmed =>
        rw [count] at hcount
        exact .idle (hcount.elim id id) (by rw [hkeeps.events, disarmed])
    | busy count armed unfinished =>
        obtain ⟨hworks, hlength⟩ := well count
        have hone := (hsame.resolve_right hworks).trans count
        have harmed : (s'.conn c).events.has epollout = true := by rw [hkeeps.events, armed]
        cases h with
        | failed fails sends => exact absurd fails hworks
        | part lt puts sends =>
            exact .busy hone harmed (unfinished.progress puts lt sends rfl rfl rfl rfl)
        | mismatch le puts differs sends =>
            have hleft := unfinished.left
            rcases puts with ⟨-, rfl, -⟩ | ⟨p, hanswer, -, hcan, -⟩
            · omega
            · obtain rfl := Nat.le_antisymm hcan.2.1 le
              exact absurd (hlength hanswer) differs
        | finished le puts equal sends =>
            rw [congrArg Outgoing.iThrowsendCount sends.self] at hone
            cases hone
  · refine ⟨?_, .idle hzero ?_⟩
    · rw [Enrolled, hmasks.interest, fd, hmasks.events, Function.update_self]
    · rw [hmasks.events, has_and_not]

/-- A writable event keeps the connections tuned. -/
theorem Tuned.writable (tuned : s.Tuned) (inv : s.Inv) (used : s.Used c) (ctl : env.ctl = true)
    (well : s.Open c → (s.conn c).iThrowsendCount = 1 →
      ¬ s.Fails c env ∧ (lastAnswer env = some (.sent (s.conn c).sendlen) →
        (s.conn c).sendlenAlready + (s.conn c).sendlen = (s.conn c).sendlenSuppose))
    (h : s.eventWritableRequestHandler c env = some s') : s'.Tuned := by
  have hframe := writable_frame h
  have hwrites := writable_writes inv used h
  have henrolled : s.openFds (s.conn c).fd = true → s.Enrolled c := by
    intro hfds
    refine (tuned c ⟨used, fun hfd => ?_⟩).1
    rw [inv.closed hfd] at hfds
    cases hfds
  have hmask := writable_mask ctl henrolled h
  have hinterest : ∀ fd, fd ≠ (s.conn c).fd → s'.interest fd = s.interest fd := by
    intro fd hne
    rcases hmask with ⟨hkeeps, -⟩ | ⟨-, hmasks, -⟩
    · rw [hkeeps.interest]
    · rw [hmasks.interest, Function.update_of_ne hne]
  intro d hopen
  by_cases hd : d = c
  · subst hd
    obtain ⟨hfd, -⟩ := link_eq (hwrites.steady.link d)
    have hold : s.Open d := ⟨used, hfd ▸ hopen.2⟩
    exact hwrites.tuned (tuned d hold) hfd (hmask.imp_right And.right) (well hold)
  · obtain ⟨hold, hsame⟩ := hframe.same inv used hinterest hd hopen
    refine hsame.tuned ?_ (tuned d hold)
    cases hwrites with
    | failed fails sends => exact sends.sentBytes_other nofun hd
    | part lt puts sends => exact sends.sentBytes_other puts.owner hd
    | mismatch le puts differs sends => exact sends.sentBytes_other puts.owner hd
    | finished le puts equal sends => exact sends.sentBytes_other puts.owner hd

/-- The `EPOLLOUT` part of an event keeps the connections tuned. -/
theorem Tuned.handleOut (tuned : s.Tuned) (inv : s.Inv) {events : Mask}
    (ok : s.EventOk (c, events)) (hhas : events.has epollout = true) (ctl : env.ctl = true)
    (well : s.WritesWell c events env) (h : s.handleOut c events env = some s') : s'.Tuned := by
  have hused : s.Used c := by
    rcases ok with hused | ⟨-, hnone⟩
    · exact hused
    · rw [hnone] at hhas
      cases hhas
  have hwell := well hhas
  simp only [State.handleOut, if_pos hhas] at h
  split at h
  next hgone =>
    simp only [if_pos hgone] at hwell
    exact tuned.leaves (hangup_leaves inv hused hwell h)
  next hgone =>
    simp only [if_neg hgone] at hwell
    rw [(inv.wired.used c hused).2.2] at h
    exact tuned.writable inv hused ctl hwell h

/-- The outcome of an element of the list for the connection it names. -/
theorem Entry.tuned {i : Nat} {reply : Reply} {next : SendNext}
    (h : Entry s i reply c env s' next) (tuned : s.Enrolled c ∧ s.Phase c)
    (fd : (s'.conn c).fd = (s.conn c).fd)
    (mask : KeepsMask s c s' ∧ ((s'.conn c).iThrowsendCount = (s.conn c).iThrowsendCount ∨
        (s'.conn c).iThrowsendCount = 0) ∨
      Remasks s c ((s.conn c).events ||| epollout) s' ∧
        (s'.conn c).iThrowsendCount = (s.conn c).iThrowsendCount + 1)
    (spared : (s.conn c).judgeOutdate reply.head.msgCursequence = false →
      (s.conn c).iThrowsendCount ≠ 1) : s'.Enrolled c ∧ s'.Phase c := by
  obtain ⟨henrolled, hphase⟩ := tuned
  have hphase' : (s.conn c).iThrowsendCount ≠ 1 → (s.conn c).iThrowsendCount = 0 ∧
      (s.conn c).events.has epollout = false := by
    intro hnot
    cases hphase with
    | idle count disarmed => exact ⟨count, disarmed⟩
    | busy count => exact absurd count hnot
  -- Nothing is in progress afterwards, so `EPOLLOUT` was not added.
  have hidle : (s.conn c).iThrowsendCount ≠ 1 → (s'.conn c).iThrowsendCount = 0 →
      s'.Enrolled c ∧ s'.Phase c := by
    intro hnot hzero
    obtain ⟨hcount, hdisarmed⟩ := hphase' hnot
    rcases mask with ⟨hkeeps, -⟩ | ⟨-, hone⟩
    · refine ⟨?_, .idle hzero (by rw [hkeeps.events, hdisarmed])⟩
      rw [Enrolled, hkeeps.interest, fd, hkeeps.events]
      exact henrolled
    · omega
  cases h with
  | discarded outdated sends =>
      refine hidle (spared outdated) ?_
      rw [sends.self]
      exact (hphase' (spared outdated)).1
  | skipped current busy same => exact same ▸ ⟨henrolled, hphase⟩
  | failed current idle fails sends => exact hidle (by omega) (by rw [sends.self]; rfl)
  | mismatch current idle puts differs sends =>
      refine hidle (by omega) ?_
      rw [sends.self]
      exact (hphase' (by omega)).1
  | finished current idle puts equal sends => exact hidle (by omega) (by rw [sends.self]; rfl)
  | part current idle lt puts sends =>
      obtain ⟨hcount, -⟩ := hphase' (by omega)
      have hone : (s'.conn c).iThrowsendCount = 1 := by
        rw [sends.self]
        show (s.conn c).iThrowsendCount + 1 = 1
        omega
      rcases mask with ⟨-, hsame⟩ | ⟨hmasks, -⟩
      · omega
      · refine ⟨?_, @Phase.busy _ _ reply hone ?_ ?_⟩
        · rw [Enrolled, hmasks.interest, fd, hmasks.events, Function.update_self]
        · rw [hmasks.events, has_or]
        · exact .begun puts lt sends

/-- Handling an element of the list keeps the connections tuned. -/
theorem Tuned.entry (tuned : s.Tuned) (inv : s.Inv) (ctl : env.ctl = true) {i : Nat}
    {reply : Reply} {next : SendNext} (hreply : s.sendMsgList[i]? = some reply)
    (spared : (s.conn reply.head.lpCurconn).judgeOutdate reply.head.msgCursequence = false →
      s.Open reply.head.lpCurconn → (s.conn reply.head.lpCurconn).iThrowsendCount ≠ 1)
    (h : s.sendEntry i env = some (s', next)) : s'.Tuned := by
  obtain ⟨reply', hreply', hentry⟩ := sendEntry_entry inv h
  obtain rfl := Option.some.inj (hreply.symm.trans hreply')
  obtain ⟨reply', hreply', hframe⟩ := sendEntry_frame h
  obtain rfl := Option.some.inj (hreply.symm.trans hreply')
  have hused : s.Used reply.head.lpCurconn :=
    (inv.flight.replies reply (List.mem_of_getElem? hreply)).1
  have henrolled : s.openFds (s.conn reply.head.lpCurconn).fd = true →
      s.Enrolled reply.head.lpCurconn := by
    intro hfds
    refine (tuned _ ⟨hused, fun hfd => ?_⟩).1
    rw [inv.closed hfd] at hfds
    cases hfds
  have hmask := sendEntry_mask ctl hreply rfl henrolled h
  have hinterest : ∀ fd, fd ≠ (s.conn reply.head.lpCurconn).fd →
      s'.interest fd = s.interest fd := by
    intro fd hne
    rcases hmask with ⟨hkeeps, -⟩ | ⟨-, hmasks, -⟩
    · rw [hkeeps.interest]
    · rw [hmasks.interest, Function.update_of_ne hne]
  generalize reply.head.lpCurconn = c at *
  intro d hopen
  by_cases hd : d = c
  · subst hd
    obtain ⟨hfd, -⟩ := link_eq (hentry.steady.link d)
    have hold : s.Open d := ⟨hused, hfd ▸ hopen.2⟩
    exact hentry.tuned (tuned d hold) hfd (hmask.imp_right And.right)
      fun outdated => spared outdated hold
  · obtain ⟨hold, hsame⟩ := hframe.same inv hused hinterest hd hopen
    refine hsame.tuned ?_ (tuned d hold)
    cases hentry with
    | discarded outdated sends => exact sends.sentBytes_other nofun hd
    | skipped current busy same => rw [same]
    | failed current idle fails sends => exact sends.sentBytes_other nofun hd
    | part current idle lt puts sends => exact sends.sentBytes_other puts.owner hd
    | mismatch current idle puts differs sends => exact sends.sentBytes_other puts.owner hd
    | finished current idle puts equal sends => exact sends.sentBytes_other puts.owner hd

/-- The workers leave the registrations alone, and how far a reply in progress is. -/
theorem WorkOnly.tuned (h : WorkOnly c s s')
    (position : ∀ d, (s'.conn d).position = (s.conn d).position) (tuned : s.Tuned) : s'.Tuned := by
  obtain ⟨receive, send, queued, out, ping, rfl⟩ := h
  intro d hopen
  have hsame : ∀ {conn : Connection}, conn = Function.update s.conn c
      { s.conn c with toOutgoing := out, pingUpdateTime := ping } d →
      conn.fd = (s.conn d).fd ∧ conn.events = (s.conn d).events := by
    rintro _ rfl
    by_cases hd : d = c <;> simp [hd]
  obtain ⟨hfd, hevents⟩ := hsame rfl
  have hold : s.Open d := ⟨hopen.1, hfd ▸ hopen.2⟩
  obtain ⟨henrolled, hphase⟩ := tuned d hold
  refine ⟨?_, hphase.congr hevents (position d) rfl⟩
  show s.interest _ = some (_, d)
  rw [hfd, hevents]
  exact henrolled

end State

namespace Sending

open State

variable {n : Nat} {boot : Boot} {k k' : Config n} {action : Action n}

/-- The calls of `epoll_ctl` in a step succeed. -/
def Succeeds : Action n → Prop
  | .loop action => action.env.ctl = true
  | .send env => env.ctl = true
  | _ => True

instance : DecidablePred (Succeeds (n := n)) := fun action => by
  unfold Succeeds
  rcases action with _ | _ <;> infer_instance

/-- Every open connection waits for `EPOLLOUT` exactly while a reply is unfinished. -/
def AllArmed (k : Config n) : Prop := ∀ c, k.server.Open c → k.server.Armed c

/-- The `EPOLLOUT` part of an event writes well, and the send thread discards no element
that names an open connection with a reply in progress. -/
def Careful (k : Config n) : Action n → Prop
  | .loop (.handleEvent env) =>
      match k.server.events with
      | [] => True
      | (c, events) :: rest =>
          match ({ k.server with events := rest } : State).handleIn c events env with
          | some t => t.WritesWell c events env
          | none => True
  | .send _ =>
      match k.sender with
      | .scanning i =>
          match k.server.sendMsgList[i]? with
          | some reply =>
              (k.server.conn reply.head.lpCurconn).judgeOutdate reply.head.msgCursequence =
                false → k.server.Open reply.head.lpCurconn →
                  (k.server.conn reply.head.lpCurconn).iThrowsendCount ≠ 1
          | none => True
      | _ => True
  | _ => True

instance : DecidableRel (Careful (n := n)) := fun k action => by
  unfold Careful
  rcases action with (_ | _) | _
  case loop.handleEvent env =>
    dsimp only
    rcases k.server.events with _ | ⟨⟨c, events⟩, rest⟩
    · infer_instance
    · dsimp only
      rcases ({ k.server with events := rest } : State).handleIn c events env with _ | _ <;>
        infer_instance
  case send =>
    dsimp only
    rcases k.sender with _ | _
    case scanning i =>
      dsimp only
      rcases k.server.sendMsgList[i]? with _ | _ <;> infer_instance
    all_goals infer_instance
  all_goals infer_instance

/-- The statements of `MsgSendInQueue` touch one connection at most. -/
theorem msgSendStep_frame {s s' : State} {thread : Thread} {pc pc' : WorkerPc}
    (h : s.msgSendStep thread pc = some (s', pc')) : ∃ c, WorkOnly c s s' := by
  cases pc with
  | idle => cases h
  | entering reply =>
      simp only [msgSendStep] at h
      split at h
      · obtain ⟨rfl, -⟩ := Prod.mk.inj (Option.some.inj h)
        exact ⟨0, workOnly_queues⟩
      · cases h
  | locked reply =>
      simp only [msgSendStep] at h
      split at h
      · obtain ⟨rfl, -⟩ := Prod.mk.inj (Option.some.inj h)
        exact ⟨0, workOnly_queues⟩
      · obtain ⟨rfl, -⟩ := Prod.mk.inj (Option.some.inj h)
        exact ⟨0, workOnly_queues⟩
  | pushed reply | counted | posting =>
      obtain ⟨rfl, -⟩ := Prod.mk.inj (Option.some.inj h)
      exact ⟨0, workOnly_queues⟩
  | unlocked reply =>
      obtain ⟨rfl, -⟩ := Prod.mk.inj (Option.some.inj h)
      exact ⟨reply.head.lpCurconn, workOnly_modifyConn fun _ => ⟨_, _, rfl⟩⟩

theorem senderStep_scans {s s' : State} {env : Env} {i : Nat} {reply : Reply} {pc : SenderPc}
    (hreply : s.sendMsgList[i]? = some reply)
    (h : s.senderStep env (.scanning i) = some (s', pc)) :
    ∃ next, s.sendEntry i env = some (s', next) := by
  simp only [senderStep, if_pos (List.getElem?_eq_some_iff.mp hreply).1] at h
  obtain ⟨⟨t, next⟩, hsend, heq⟩ := Option.map_eq_some_iff.mp h
  refine ⟨next, ?_⟩
  cases next with
  | erased | skipped | returned =>
      obtain ⟨rfl, -⟩ := Prod.mk.inj heq
      exact hsend

theorem loop_tuned {action : LoopAction} {s : State} (inv : k.server.Inv)
    (tuned : k.server.Tuned) (careful : Careful k (.loop action))
    (succeeds : Succeeds (n := n) (.loop action)) (h : k.server.loopStep action = some s) :
    s.Tuned := by
  rcases loopStep_leaves inv h with hleaves | ⟨env, c, events, rest, t, rfl, hevents, hin, hhas, hout⟩
  · exact tuned.leaves hleaves
  · have hok : ∀ event ∈ (c, events) :: rest, k.server.EventOk event := hevents ▸ inv.wired.events
    have hrest := events_evolves inv fun event hevent => hok event (List.mem_cons_of_mem _ hevent)
    have hfirst := (hok (c, events) List.mem_cons_self).evolves hrest
    have hmid := (handleIn_moves hrest.inv hfirst hin).evolves hrest.inv
    have htuned : t.Tuned :=
      tuned.leaves ((handleIn_leaves hrest.inv hfirst hin).of_eq rfl rfl rfl rfl)
    refine htuned.handleOut hmid.inv (hfirst.evolves hmid) hhas succeeds ?_ hout
    simp only [Careful, hevents, hin] at careful
    exact careful

theorem step_tuned (inv : k.Inv) (tuned : k.server.Tuned) (careful : Careful k action)
    (succeeds : Succeeds action) (h : step k action = some k') : k'.server.Tuned := by
  cases step_does inv h with
  | loop moves =>
      obtain ⟨s, hs, heq⟩ := Option.map_eq_some_iff.mp h
      obtain rfl := congrArg Config.server heq
      exact loop_tuned inv.server tuned careful succeeds hs
  | take idle handles makes =>
      obtain ⟨c, hframe, -⟩ := (takeMessage_took makes).frame
      rw [handled_server]
      refine hframe.tuned (fun d => ?_) tuned
      rw [handles.outgoing d]
      rfl
  | call idle handles =>
      rename_i w reply s'
      simp only [step] at h
      split at h
      · have hsuppose : s' = k.server.supposeSend reply :=
          (congrArg Config.server (Option.some.inj h)).symm
        have hframe : WorkOnly reply.head.lpCurconn k.server (k.server.supposeSend reply) :=
          workOnly_modifyConn fun _ => ⟨_, _, rfl⟩
        rw [handled_server]
        subst hsuppose
        refine hframe.tuned (fun d => ?_) tuned
        rw [handles.outgoing d]
        rfl
      · cases h
  | advance advances =>
      obtain ⟨c, hframe⟩ := msgSendStep_frame advances
      refine hframe.tuned (fun d => ?_) tuned
      rcases msgSendStep_advances (inv.hands _) advances with
        ⟨reply, -, -, -, hadded⟩ | ⟨-, hadded⟩
      · rw [hadded.outgoing d]
        rfl
      · rw [hadded.outgoing d]
        rfl
  | send sends =>
      rcases senderStep_cases inv.server sends with
        ⟨i, reply, next, hpc, hreply, -, -⟩ | ⟨-, -, sendmutex, sendsem, rfl⟩
      · rw [hpc] at sends
        obtain ⟨next, hentry⟩ := senderStep_scans hreply sends
        simp only [Careful, hpc, hreply] at careful
        exact tuned.entry inv.server succeeds hreply careful hentry
      · have hsame : ∀ c, Same k.server { k.server with sendmutex, sendsem } c :=
          fun c => .of_conn rfl rfl rfl
        exact fun c hopen => (hsame c).tuned rfl (tuned c ((hsame c).isOpen.mp hopen))
  | interrupt waiting => exact tuned

/-- No accepted connection is open when the threads start. -/
theorem Starts.tuned (h : Starts boot k) : k.server.Tuned := by
  obtain ⟨⟨all, htaking⟩, -⟩ := h.1.spec
  intro c hopen
  have hused := hopen.1
  rw [Used, htaking.history] at hused
  exact absurd hused (Nat.lt_irrefl 0)

/-- `EPOLLOUT` is armed exactly while a reply is unfinished, as long as every step is
careful. -/
theorem epollout_armed (hstart : Starts boot k) {actions : List (Action n)}
    (succeeds : ∀ action ∈ actions, Succeeds action) (careful : Along step Careful k actions) :
    Throughout step AllArmed k actions := by
  have hboth := careful.and (along_of_forall (s := k) succeeds)
  have htuned : Throughout step (fun k => k.Inv ∧ k.server.Tuned) k actions := by
    refine throughout_of_along (fun k action k' hk hc hs => ?_) ⟨hstart.inv, hstart.tuned⟩ hboth
    exact ⟨step_inv hk.1 hs, step_tuned hk.1 hk.2 hc.1 hc.2 hs⟩
  exact htuned.mono fun k hk c hopen => hk.2.armed hopen

/-- A client makes a request, and the send thread cannot send all of the reply. -/
def requestInPart : List (Action 1) :=
  acceptOn 5 100 ++ requestOn onlyWorker pingPacket ++ enqueueBy onlyWorker ++
    List.replicate 6 (.send { send := [.sent 3] })

set_option maxRecDepth 4000 in
/-- The rest of the reply is accepted in two pieces, with a signal in between. -/
theorem epollout_armed_in_pieces : ∃ k k' : Config 1, Starts Boot.small k ∧
    run step k (requestInPart ++ eventOn 5 epollout { send := [.failed .eintr, .sent 2] } ++
      eventOn 5 epollout { send := [.sent 3] }) = some k' ∧
    Throughout step AllArmed k (requestInPart ++
      eventOn 5 epollout { send := [.failed .eintr, .sent 2] } ++
      eventOn 5 epollout { send := [.sent 3] }) := by
  have hrun : ((Boot.small.state.epollEventInit [true]).bind fun s =>
      (run step (⟨s, fun _ => .idle, .looping⟩ : Config 1) (requestInPart ++
          eventOn 5 epollout { send := [.failed .eintr, .sent 2] } ++
          eventOn 5 epollout { send := [.sent 3] })).map fun _ =>
        decide (Along step Careful (⟨s, fun _ => .idle, .looping⟩ : Config 1) (requestInPart ++
          eventOn 5 epollout { send := [.failed .eintr, .sent 2] } ++
          eventOn 5 epollout { send := [.sent 3] }))) = some true := by decide
  obtain ⟨s, hstart, hrun⟩ := Option.bind_eq_some_iff.mp hrun
  obtain ⟨k', hr, hdecide⟩ := Option.map_eq_some_iff.mp hrun
  exact ⟨_, k', ⟨⟨_, hstart⟩, rfl, rfl⟩, hr,
    epollout_armed ⟨⟨_, hstart⟩, rfl, rfl⟩ (by decide) (of_decide_eq_true hdecide)⟩

/-- The peer resets its connection while the rest of the reply is still to be sent: nothing
is in progress any more, and `EPOLLOUT` stays armed. -/
theorem epollout_left_armed : ¬ ∀ (n : Nat) (boot : Boot) (k : Config n)
    (actions : List (Action n)), Starts boot k → (∀ action ∈ actions, Succeeds action) →
      Throughout step AllArmed k actions := by
  intro hclaim
  have hrun : (launch Boot.small [true] (requestInPart ++
      eventOn 5 epollout { send := [.failed .econnreset] })).map (fun k =>
        (k.server.history.use 1, (k.server.conn 1).fd, k.server.interest 5,
          (k.server.conn 1).iThrowsendCount)) =
      some (1, 5, some (epollin ||| epollrdhup ||| epollout, 1), 0) := by decide
  obtain ⟨k', hlaunch, heq⟩ := Option.map_eq_some_iff.mp hrun
  obtain ⟨k, hstarts, hr⟩ := starts_of_launch hlaunch
  have harmed := (hclaim 1 _ k _ hstarts (by decide)).last hr
  simp only [Prod.mk.injEq] at heq
  obtain ⟨huse, hfd, hinterest, hcount⟩ := heq
  have hopen : k'.server.Open 1 := by
    refine ⟨?_, by rw [hfd]; decide⟩
    rw [Used, huse]
    decide
  obtain ⟨m, hm, hiff⟩ := (harmed 1 hopen).mask
  rw [hfd, hinterest] at hm
  obtain ⟨rfl, -⟩ := Prod.mk.inj (Option.some.inj hm)
  rw [hcount] at hiff
  exact absurd (hiff.mp (by decide)) (by decide)

end Sending

end MyNginx
