import MyNginx.Sending.Arming
import MyNginx.Sending.Length
import MyNginx.Server.Origin

/-!
# The byte stream of a connection

What is written to a connection is the packets of the replies it has finished, in the order
in which they were put into the list, and then the first bytes of the one in progress. Here
are the steps of the send thread and of the `EPOLLOUT` handler that continue such a stream.
-/

namespace MyNginx

open Foundation

/-- `send` takes some bytes, would block, or is interrupted. -/
def SendAnswer.Ordinary : SendAnswer → Prop
  | .sent n => 0 < n
  | .zero => False
  | .failed errno => errno = .eagain ∨ errno = .eintr

instance : DecidablePred SendAnswer.Ordinary
  | .sent _ => inferInstanceAs (Decidable (_ < _))
  | .zero => instDecidableFalse
  | .failed _ => inferInstanceAs (Decidable (_ ∨ _))

section Lists

variable {α : Type} {p : α → Bool} {l : List α} {i : Nat} {a : α}

/-- Taking out an element that does not count. -/
theorem filter_eraseIdx_of_not (ha : l[i]? = some a) (not : p a = false) :
    (l.eraseIdx i).filter p = l.filter p := by
  obtain ⟨hi, rfl⟩ := List.getElem?_eq_some_iff.mp ha
  have hsplit : l.filter p = (l.take i ++ l[i] :: l.drop (i + 1)).filter p := by simp
  rw [hsplit, List.eraseIdx_eq_take_drop_succ, List.filter_append, List.filter_append,
    List.filter_cons_of_neg (by simp [not])]

/-- The first element that counts. -/
theorem filter_eq_cons (ha : l[i]? = some a) (counts : p a = true)
    (first : ∀ b ∈ l.take i, p b = false) : l.filter p = a :: (l.eraseIdx i).filter p := by
  obtain ⟨hi, rfl⟩ := List.getElem?_eq_some_iff.mp ha
  have hsplit : l.filter p = (l.take i ++ l[i] :: l.drop (i + 1)).filter p := by simp
  have hnone : (l.take i).filter p = [] := List.filter_eq_nil_iff.mpr fun b hb => by
    simp [first b hb]
  rw [hsplit, List.eraseIdx_eq_take_drop_succ, List.filter_append, List.filter_append, hnone,
    List.filter_cons_of_pos counts]
  rfl

end Lists

namespace State

variable {s s' t : State} {c d : ConnId} {env : Env} {reply r : Reply} {i : Nat}
  {out : Outgoing} {queue : SendQueue} {written : List Written}

/-- The replies that were put into the list in the current use of the connection. -/
def entered (s : State) (c : ConnId) : List Reply := s.history.queued.filter fun r => s.Owns c r

/-- Those of them that are still in it. -/
def waiting (s : State) (c : ConnId) : List Reply := s.sendMsgList.filter fun r => s.Owns c r

/-- The bytes written to a connection are the packets of the replies it has finished, in the
order of the list, and a part of the one in progress, of which `p_sendbuf` and `sendlen` are
the rest. They went to its descriptor. -/
def Streamed (s : State) (c : ConnId) : Prop :=
  (∀ w ∈ s.history.wire, w.conn = c → w.use = s.history.use c → w.fd = (s.conn c).fd) ∧
    ∃ (done : List Reply) (sent : List UInt8), s.sentBytes c = done.flatMap Reply.packet ++ sent ∧
      match (s.conn c).pSendbuf with
      | none => sent = [] ∧ s.entered c = done ++ s.waiting c
      | some p => sent ++ p.bytes (s.conn c).sendlen = p.reply.packet ∧
          s.entered c = done ++ p.reply :: s.waiting c

/-- Where the stream is: between two replies, or inside one. -/
inductive Stream (s : State) (c : ConnId) : Prop
  | between (done : List Reply) (count : (s.conn c).iThrowsendCount = 0)
      (sendbuf : (s.conn c).pSendbuf = none)
      (order : s.entered c = done ++ s.waiting c)
      (sent : s.sentBytes c = done.flatMap Reply.packet)
  | inside (done : List Reply) (reply : Reply) (count : (s.conn c).iThrowsendCount = 1)
      (unfinished : s.Unfinished c reply)
      (order : s.entered c = done ++ reply :: s.waiting c)
      (sent : s.sentBytes c =
        done.flatMap Reply.packet ++ reply.packet.take (s.conn c).sendlenAlready)

theorem Stream.streamed (h : s.Stream c)
    (fds : ∀ w ∈ s.history.wire, w.conn = c → w.use = s.history.use c → w.fd = (s.conn c).fd) :
    s.Streamed c := by
  refine ⟨fds, ?_⟩
  cases h with
  | between done count sendbuf order sent =>
      refine ⟨done, [], by rw [sent, List.append_nil], ?_⟩
      rw [sendbuf]
      exact ⟨rfl, order⟩
  | inside done reply count unfinished order sent =>
      refine ⟨done, _, sent, ?_⟩
      rw [unfinished.sendbuf]
      refine ⟨?_, order⟩
      have hrest := unfinished.rest
      have hbytes : SendBuf.bytes ⟨reply, msgHeaderLen + (s.conn c).sendlenAlready⟩
          (s.conn c).sendlen = reply.packet.drop (s.conn c).sendlenAlready := by
        rw [SendBuf.bytes, Reply.packet, ← hrest, List.drop_take]
        simp
      rw [hbytes, List.take_append_drop]

theorem owns_congr (use : s'.history.use c = s.history.use c) : s'.Owns c r ↔ s.Owns c r := by
  rw [Owns, Owns, use]

theorem entered_congr (queued : s'.history.queued = s.history.queued)
    (use : s'.history.use c = s.history.use c) : s'.entered c = s.entered c := by
  rw [entered, entered, queued]
  exact List.filter_congr fun r _ => decide_eq_decide.mpr (owns_congr use)

theorem waiting_congr (list : s'.sendMsgList = s.sendMsgList)
    (use : s'.history.use c = s.history.use c) : s'.waiting c = s.waiting c := by
  rw [waiting, waiting, list]
  exact List.filter_congr fun r _ => decide_eq_decide.mpr (owns_congr use)

theorem sentBytes_congr (wire : s'.history.wire = s.history.wire)
    (use : s'.history.use c = s.history.use c) : s'.sentBytes c = s.sentBytes c := by
  simp only [sentBytes, wire, use]

/-- Nothing that the stream consists of has changed. -/
theorem Stream.congr (h : s.Stream c) (entered : s'.entered c = s.entered c)
    (waiting : s'.waiting c = s.waiting c) (sent : s'.sentBytes c = s.sentBytes c)
    (position : (s'.conn c).position = (s.conn c).position) : s'.Stream c := by
  obtain ⟨-, hcount, hsendbuf, -, halready⟩ := Outgoing.position_eq position
  cases h with
  | between done count sendbuf order sentBytes =>
      exact .between done (hcount.trans count) (hsendbuf.trans sendbuf)
        (by rw [entered, waiting, order]) (sent.trans sentBytes)
  | inside done reply count unfinished order sentBytes =>
      refine .inside done reply (hcount.trans count) (unfinished.congr position sent)
        (by rw [entered, waiting, order]) ?_
      rw [sent, halready, sentBytes]

/-! ### Steps that write nothing -/

/-- The handler makes no reply out of nothing. -/
theorem Writes.sendbuf_eq_none (h : Writes s c env s') (hnone : (s.conn d).pSendbuf = none) :
    (s'.conn d).pSendbuf = none := by
  have hself : ∀ {out queue written}, Sends s c out queue written s' →
      ((s.conn c).pSendbuf = none → out.pSendbuf = none) → (s'.conn d).pSendbuf = none := by
    intro out queue written hs hout
    by_cases hd : d = c
    · subst hd
      rw [congrArg Outgoing.pSendbuf hs.self]
      exact hout hnone
    · rw [congrArg Outgoing.pSendbuf (hs.other d hd)]
      exact hnone
  cases h with
  | failed fails sends => exact hself sends fun _ => rfl
  | part lt puts sends => exact hself sends fun hc => by simp [Outgoing.progress, hc]
  | mismatch le puts differs sends => exact hself sends id
  | finished le puts equal sends => exact hself sends fun _ => rfl

/-- A connection is in its old use, or its use is new and nothing is in progress. -/
theorem moves_line (h : Moves env s s') (inv : s.Inv) (cleared : s.Cleared) (used : s'.Used c) :
    s'.history.use c = s.history.use c ∨
      s.history.use c < s'.history.use c ∧ (s'.conn c).pSendbuf = none := by
  induction h with
  | refl => exact .inl rfl
  | @tail t u hs hmove ih =>
      have hinv := (Moves.evolves hs inv).inv
      have hle : s.history.use c ≤ t.history.use c := ((Moves.evolves hs inv).aged c).1
      rcases hmove.keeps hinv (Moves.cleared hs inv cleared) with hkeeps | ⟨d, -, hwrites⟩
      · have hkept : u.history.use c = t.history.use c →
            ((t.conn c).pSendbuf = none → (u.conn c).pSendbuf = none) →
            u.history.use c = s.history.use c ∨
              s.history.use c < u.history.use c ∧ (u.conn c).pSendbuf = none := by
          intro use sendbuf
          rw [Used, use] at used
          exact use ▸ (ih used).imp_right (And.imp_right sendbuf)
        cases hkeeps.line c used with
        | same use live outgoing => exact hkept use (congrArg Outgoing.pSendbuf outgoing).trans
        | gone use dead sendbuf =>
            refine hkept use fun hnone => ?_
            cases hp : (u.conn c).pSendbuf with
            | none => rfl
            | some p =>
                rw [(sendbuf p hp).1] at hnone
                cases hnone
        | fresh use sendbuf idle => exact .inr ⟨Nat.lt_of_le_of_lt hle use, sendbuf⟩
      · have hsteady := hwrites.steady
        have huse : u.history.use c = t.history.use c := congrFun hsteady.use_eq c
        exact huse ▸ (ih (hsteady.used_iff.mp used)).imp_right
          (And.imp_right hwrites.sendbuf_eq_none)

/-- A step that writes and queues nothing, and leaves the sending side of the connections
alone that stay open. -/
structure Bypasses (s s' : State) : Prop where
  list : s'.sendMsgList = s.sendMsgList
  queued : s'.history.queued = s.history.queued
  wire : s'.history.wire = s.history.wire
  use_le : ∀ c, s.history.use c ≤ s'.history.use c
  each : ∀ c, s'.Open c →
    (s.Open c ∧ s'.history.use c = s.history.use c ∧ (s'.conn c).fd = (s.conn c).fd ∧
        (s'.conn c).position = (s.conn c).position) ∨
      s.history.use c < s'.history.use c ∧ (s'.conn c).iThrowsendCount = 0 ∧
        (s'.conn c).pSendbuf = none

theorem Leaves.bypasses (h : Leaves s s') (inv : s.Inv) (cleared : s.Cleared)
    (moves : Moves env s s') : Bypasses s s' where
  list := congrArg SendQueue.sendMsgList h.queue
  queued := h.queued
  wire := h.wire
  use_le c := ((Moves.evolves moves inv).aged c).1
  each c hopen := by
    rcases h.each c hopen with ⟨hold, hsame⟩ | hfresh
    · exact .inl ⟨hold, hsame.use, hsame.fd, by rw [hsame.outgoing]⟩
    · rcases moves_line moves inv cleared hopen.1 with huse | ⟨hlt, hnone⟩
      · exact absurd huse (Nat.ne_of_gt hfresh.use)
      · exact .inr ⟨hlt, hfresh.idle, hnone⟩

/-- A steady step of which the sending side sees only counters and the expected length. -/
theorem Bypasses.of_position (list : s'.sendMsgList = s.sendMsgList)
    (queued : s'.history.queued = s.history.queued) (wire : s'.history.wire = s.history.wire)
    (neutral : Neutral s s') (position : ∀ c, (s'.conn c).position = (s.conn c).position) :
    Bypasses s s' where
  list := list
  queued := queued
  wire := wire
  use_le c := Nat.le_of_eq (congrFun neutral.use_eq c).symm
  each c hopen := by
    have hfd := (link_eq (neutral.link c)).1
    refine .inl ⟨?_, congrFun neutral.use_eq c, hfd, position c⟩
    rwa [Open, neutral.used_iff, hfd] at hopen

/-! ### The stream in a step -/

theorem not_fails (inv : s.Inv) (hopen : s.Open c)
    (ordinary : ∀ answer ∈ env.send, answer.Ordinary) : ¬ s.Fails c env := by
  rintro (hclosed | hzero | ⟨errno, hfailed, hne⟩)
  · have hopen := inv.wired.opened c (inv.wired.used c hopen.1).1 hopen.2
    rw [hclosed] at hopen
    cases hopen
  · exact ordinary _ (List.mem_of_find?_eq_some hzero)
  · have hintr := List.find?_some hfailed
    rcases ordinary _ (List.mem_of_find?_eq_some hfailed) with hagain | hinterrupted
    · exact hne hagain
    · simp [hinterrupted] at hintr

theorem Puts.of_none {len n : Nat} (h : s.Puts c env none len n written) : written = [] := by
  rcases h with ⟨-, -, hwritten⟩ | ⟨p, -, hp, -⟩
  · exact hwritten
  · cases hp

theorem Writes.list (h : Writes s c env s') : s'.sendMsgList = s.sendMsgList := by
  cases h with
  | failed fails sends => exact (congrArg SendQueue.sendMsgList sends.queue).trans rfl
  | part lt puts sends => exact congrArg SendQueue.sendMsgList sends.queue
  | mismatch le puts differs sends => exact congrArg SendQueue.sendMsgList sends.queue
  | finished le puts equal sends => exact (congrArg SendQueue.sendMsgList sends.queue).trans rfl

theorem Writes.queued (h : Writes s c env s') : s'.history.queued = s.history.queued := by
  cases h with
  | failed fails sends => exact sends.queued
  | part lt puts sends => exact sends.queued
  | mismatch le puts differs sends => exact sends.queued
  | finished le puts equal sends => exact sends.queued

/-- Between two replies, the handler writes nothing. -/
theorem Writes.of_none (h : Writes s c env s') (sendbuf : (s.conn c).pSendbuf = none)
    (count : (s.conn c).iThrowsendCount = 0) :
    (s'.conn c).iThrowsendCount = 0 ∧ s'.history.wire = s.history.wire := by
  cases h with
  | failed fails sends =>
      exact ⟨by rw [sends.self]; rfl, sends.wire.trans (List.append_nil _)⟩
  | part lt puts sends =>
      rw [sendbuf] at puts
      exact ⟨by rw [sends.self]; exact count, by rw [sends.wire, puts.of_none, List.append_nil]⟩
  | mismatch le puts differs sends =>
      rw [sendbuf] at puts
      exact ⟨by rw [sends.self]; exact count, by rw [sends.wire, puts.of_none, List.append_nil]⟩
  | finished le puts equal sends =>
      rw [sendbuf] at puts
      exact ⟨by rw [sends.self]; rfl, by rw [sends.wire, puts.of_none, List.append_nil]⟩

/-- The writing of the handler continues the stream, and ends a reply only where `send` takes
all of its rest. -/
theorem Stream.writes (h : s.Stream c) (works : ¬ s.Fails c env)
    (measured : ∀ p, (s.conn c).pSendbuf = some p → (s.conn c).Sending p)
    (hs : Writes s c env s') : s'.Stream c ∧
      ((s'.conn c).iThrowsendCount = 0 → (s.conn c).iThrowsendCount = 0 ∨
        (s.conn c).iThrowsendCount = 1 ∧
          lastAnswer env = some (.sent (s.conn c).sendlen)) := by
  have huse : s'.history.use c = s.history.use c := congrFun hs.steady.use_eq c
  have hentered : s'.entered c = s.entered c := entered_congr hs.queued huse
  have hwaiting : s'.waiting c = s.waiting c := waiting_congr hs.list huse
  cases h with
  | between done count sendbuf order sent =>
      obtain ⟨hcount, hwire⟩ := hs.of_none sendbuf count
      refine ⟨.between done hcount (hs.sendbuf_eq_none sendbuf) ?_ ?_, fun _ => .inl count⟩
      · rw [hentered, hwaiting, order]
      · rw [sentBytes_congr hwire huse, sent]
  | inside done reply count unfinished order sent =>
      have hsending := measured _ unfinished.sendbuf
      have hrest := unfinished.rest
      have hleft := unfinished.left
      cases hs with
      | failed fails sends => exact absurd fails works
      | part lt puts sends =>
          have hbytes := puts
          rw [unfinished.sendbuf] at hbytes
          have hprogress := unfinished.progress puts lt sends rfl rfl rfl rfl
          refine ⟨.inside done reply ?_ hprogress ?_ ?_, ?_⟩
          · rw [sends.self]
            exact count
          · rw [hentered, hwaiting, order]
          · rw [sends.sentBytes_self puts.owner, sent, sends.self, List.append_assoc,
              hbytes.bytes _ hrest]
            rfl
          · rw [sends.self]
            intro hzero
            exact absurd (count.symm.trans hzero) (by decide)
      | mismatch le puts differs sends =>
          rw [unfinished.sendbuf] at puts
          obtain ⟨rfl, -⟩ := puts.le_or hleft le
          exact absurd (hsending.rest.trans hsending.suppose.symm) differs
      | finished le puts equal sends =>
          have howner := puts.owner
          rw [unfinished.sendbuf] at puts
          obtain ⟨rfl, -⟩ := puts.le_or hleft le
          have hbytes := puts.bytes _ hrest
          refine ⟨.between (done ++ [reply]) ?_ ?_ ?_ ?_, fun _ => .inr ⟨count, ?_⟩⟩
          · rw [sends.self]
            rfl
          · rw [sends.self]
            rfl
          · rw [hentered, hwaiting, order, List.append_assoc]
            rfl
          · rw [sends.sentBytes_self howner, sent, List.append_assoc, hbytes, hrest,
              List.flatMap_append, Reply.packet, List.take_take, Nat.min_self]
            simp [Reply.packet]
          · rcases puts with ⟨-, hzero, -⟩ | ⟨p, hanswer, -⟩
            · omega
            · exact hanswer

/-- The send thread is in its pass: it has gone past a reply of the connection, and another
one is still to come. -/
def Straddles (s : State) (c : ConnId) : SenderPc → Prop
  | .scanning i =>
      (∃ r ∈ s.sendMsgList.take i, s.Owns c r) ∧ ∃ r ∈ s.sendMsgList.drop i, s.Owns c r
  | _ => False

instance (pc : SenderPc) : Decidable (s.Straddles c pc) :=
  match pc with
  | .scanning _ => inferInstanceAs (Decidable (_ ∧ _))
  | .looping | .waiting | .woken | .locking | .stopped | .returned => instDecidableFalse

/-- `JudgeOutdate` knows the replies of the current use of the connection, and one that it
finds outdated does not meet a reply in progress. -/
def Judges (s : State) (c : ConnId) (reply : Reply) : Prop :=
  if (s.conn c).judgeOutdate reply.head.msgCursequence = true then s.Owns c reply
  else ¬ s.Owns c reply ∧ (s.conn c).pSendbuf = none

instance : Decidable (s.Judges c reply) := inferInstanceAs (Decidable (ite _ _ _))

/-- The reply that the send thread takes is the first one of its connection. -/
theorem waiting_eq_cons (hreply : s.sendMsgList[i]? = some reply) (owns : s.Owns c reply)
    (aligned : ¬ s.Straddles c (.scanning i)) (list : s'.sendMsgList = s.sendMsgList.eraseIdx i)
    (use : s'.history.use c = s.history.use c) : s.waiting c = reply :: s'.waiting c := by
  have hmem : reply ∈ s.sendMsgList.drop i := by
    obtain ⟨hi, rfl⟩ := List.getElem?_eq_some_iff.mp hreply
    rw [List.drop_eq_getElem_cons hi]
    exact List.mem_cons_self
  have hfirst : ∀ r ∈ s.sendMsgList.take i, ¬ s.Owns c r := fun r hr hr' =>
    aligned ⟨⟨r, hr, hr'⟩, reply, hmem, owns⟩
  have hwaiting : s'.waiting c = (s.sendMsgList.eraseIdx i).filter fun r => s.Owns c r := by
    rw [waiting, list]
    exact List.filter_congr fun r _ => decide_eq_decide.mpr (owns_congr use)
  rw [hwaiting]
  exact filter_eq_cons hreply (decide_eq_true owns) fun r hr => decide_eq_false (hfirst r hr)

/-- An element that is not a reply of the connection is taken out. -/
theorem waiting_eraseIdx (hreply : s.sendMsgList[i]? = some reply) (owns : ¬ s.Owns c reply)
    (list : s'.sendMsgList = s.sendMsgList.eraseIdx i)
    (use : s'.history.use c = s.history.use c) : s'.waiting c = s.waiting c := by
  have hwaiting : s'.waiting c = (s.sendMsgList.eraseIdx i).filter fun r => s.Owns c r := by
    rw [waiting, list]
    exact List.filter_congr fun r _ => decide_eq_decide.mpr (owns_congr use)
  rw [hwaiting]
  exact filter_eraseIdx_of_not hreply (decide_eq_false owns)

/-- Handling an element of the list continues the stream of its connection. -/
theorem Stream.entry (h : s.Stream c) (works : ¬ s.Fails c env)
    (hreply : s.sendMsgList[i]? = some reply) (judges : s.Judges c reply)
    (aligned : (s.conn c).iThrowsendCount = 0 → ¬ s.Straddles c (.scanning i)) {next : SendNext}
    (goes : next ≠ .returned) (hs : Entry s i reply c env s' next) : s'.Stream c ∧
      ((s'.conn c).iThrowsendCount = 0 → (s.conn c).iThrowsendCount = 0) := by
  have huse : s'.history.use c = s.history.use c := congrFun hs.steady.use_eq c
  cases hs with
  | discarded outdated sends =>
      rw [Judges, if_neg (by simp [outdated])] at judges
      cases h with
      | inside done reply count unfinished order sent =>
          rw [unfinished.sendbuf] at judges
          cases judges.2
      | between done count sendbuf order sent =>
          refine ⟨.between done ?_ ?_ ?_ ?_, fun _ => count⟩
          · rw [sends.self]
            exact count
          · rw [sends.self]
            rfl
          · rw [entered_congr sends.queued huse, order, waiting_eraseIdx hreply judges.1
              (congrArg SendQueue.sendMsgList sends.queue) huse]
          · rw [sentBytes_congr (by rw [sends.wire, List.append_nil]) huse, sent]
  | skipped current busy same =>
      subst same
      exact ⟨h, id⟩
  | failed current idle fails sends => exact absurd fails works
  | mismatch current idle puts differs sends => exact absurd rfl goes
  | part current idle lt puts sends =>
      rename_i n written
      rw [Judges, if_pos current] at judges
      cases h with
      | inside done reply count unfinished order sent => omega
      | between done count sendbuf order sent =>
          have hbytes := Puts.bytes 0 puts (Nat.zero_add _)
          have hcount : (s'.conn c).iThrowsendCount = 1 := by
            rw [sends.self]
            show (s.conn c).iThrowsendCount + 1 = 1
            omega
          refine ⟨.inside done reply hcount (.begun puts lt sends) ?_ ?_, fun _ => count⟩
          · rw [entered_congr sends.queued huse, order, waiting_eq_cons hreply judges
              (aligned count) (congrArg SendQueue.sendMsgList sends.queue) huse]
          · rw [sends.sentBytes_self puts.owner, sent, sends.self,
              ← List.nil_append (written.flatMap _)]
            exact congrArg _ hbytes
  | finished current idle puts equal sends =>
      rename_i written
      rw [Judges, if_pos current] at judges
      cases h with
      | inside done reply count unfinished order sent => omega
      | between done count sendbuf order sent =>
          have hbytes := Puts.bytes 0 puts (Nat.zero_add _)
          refine ⟨.between (done ++ [reply]) ?_ ?_ ?_ ?_, fun _ => count⟩
          · rw [sends.self]
            rfl
          · rw [sends.self]
            rfl
          · rw [entered_congr sends.queued huse, order, waiting_eq_cons hreply judges
              (aligned count) (congrArg SendQueue.sendMsgList sends.queue) huse, List.append_assoc]
            rfl
          · have hpacket : reply.packet.take (0 + pkgLen reply.buf) = reply.packet := by
              rw [Nat.zero_add, Reply.packet, List.take_take, Nat.min_self]
            rw [sends.sentBytes_self puts.owner, sent, ← List.nil_append (written.flatMap _),
              show ([] : List UInt8) = reply.packet.take 0 from rfl, hbytes, hpacket,
              List.flatMap_append]
            simp

end State

end MyNginx
