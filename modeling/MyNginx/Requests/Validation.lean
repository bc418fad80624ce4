import MyNginx.Server.Steady
import MyNginx.Server.Tally

/-!
# Which requests are answered

`ThreadRecvProc` with the call of `MsgSendInQueue` by a handler, run as one step. Behind
`JudgeOutdate` the tests come to `WellFormed`: such a request gets one well-formed reply and
any other leaves everything as it was. Where `JudgeOutdate` knows the sequence of the
connection, which it takes as an `int`, the requests of its current use are answered and no
others.
-/

namespace MyNginx

open Foundation

/-- `body_len` of `ThreadRecvProc`, a `uint16_t`. -/
def bodyLen (pkg : List UInt8) : Nat := (pkgLen pkg + 65536 - pkgHeaderLen) % 65536

/-- The bytes behind the header that `ThreadRecvProc` takes for the body. -/
def packetBody (pkg : List UInt8) : List UInt8 := (pkg.drop pkgHeaderLen).take (bodyLen pkg)

/-- The checksum field is the checksum of the body, or 0 when there is none. -/
def CrcOk (pkg : List UInt8) : Prop :=
  crc32 pkg = if bodyLen pkg = 0 then 0 else (Crc32.getCrc (packetBody pkg)).toNat

instance (pkg : List UInt8) : Decidable (CrcOk pkg) := inferInstanceAs (Decidable (_ = _))

theorem crc32_lt (pkg : List UInt8) : crc32 pkg < 2 ^ 32 := by
  have hlen : ((pkg.drop 4).take 4).length ≤ 4 := List.length_take_le 4 _
  have hpow : 256 ^ ((pkg.drop 4).take 4).length ≤ 256 ^ 4 := Nat.pow_le_pow_right (by decide) hlen
  exact Nat.lt_of_lt_of_le (BigEndian.decode_lt _) hpow

/-- The two tests of the checksum in `ThreadRecvProc`. -/
theorem not_crcOk_iff (pkg : List UInt8) :
    ¬ CrcOk pkg ↔ bodyLen pkg = 0 ∧ crc32 pkg ≠ 0 ∨
      bodyLen pkg ≠ 0 ∧ Crc32.getCrc (packetBody pkg) ≠ BitVec.ofNat 32 (crc32 pkg) := by
  have hword : Crc32.getCrc (packetBody pkg) = BitVec.ofNat 32 (crc32 pkg) ↔
      crc32 pkg = (Crc32.getCrc (packetBody pkg)).toNat := by
    rw [← BitVec.toNat_inj, BitVec.toNat_ofNat, Nat.mod_eq_of_lt (crc32_lt pkg), eq_comm]
  by_cases hempty : bodyLen pkg = 0
  · simp [CrcOk, hempty]
  · simp [CrcOk, hempty, hword]

theorem getCrc_nil : Crc32.getCrc [] = 0#32 := by decide

/-- Without a body both cases agree. -/
theorem crcOk_iff (pkg : List UInt8) :
    CrcOk pkg ↔ crc32 pkg = (Crc32.getCrc (packetBody pkg)).toNat := by
  rw [CrcOk]
  split
  next hzero => rw [packetBody, hzero, List.take_zero, getCrc_nil]; rfl
  · rfl

/-- A packet made with the checksum of its body passes. -/
theorem crcOk_packetBuf (code : Nat) {body : List UInt8} (h : body.length < 65528) :
    CrcOk (packetBuf code (Crc32.getCrc body).toNat body) := by
  have hlen : bodyLen (packetBuf code (Crc32.getCrc body).toNat body) = body.length := by
    rw [bodyLen, pkgLen_packetBuf h]
    simp only [pkgHeaderLen]
    omega
  have hbody : packetBody (packetBuf code (Crc32.getCrc body).toNat body) = body := by
    rw [packetBody, hlen, packetBuf, List.drop_left' (length_encodeHeader _ _ _), List.take_left]
  have hcrc : crc32 (packetBuf code (Crc32.getCrc body).toNat body) =
      (Crc32.getCrc body).toNat := by
    have hfield : ((packetBuf code (Crc32.getCrc body).toNat body).drop 4).take 4 =
        BigEndian.encode 4 (Crc32.getCrc body).toNat := by
      rw [packetBuf, encodeHeader, List.append_assoc,
        List.drop_left' (by rw [List.length_append, BigEndian.length_encode, BigEndian.length_encode])]
      exact List.take_left' (BigEndian.length_encode _ _)
    rw [crc32, hfield, BigEndian.decode_encode]
    exact Nat.mod_eq_of_lt (Crc32.getCrc body).isLt
  rw [crcOk_iff, hcrc, hbody]

/-- The length of the structure each entry of `status_handleset` expects. -/
def structLength : Nat → Option Nat
  | 0 => some lenStructPing
  | 5 => some lenStructRegister
  | 6 => some lenStructLogin
  | _ => none

/-- The requests that pass the tests behind `JudgeOutdate`. -/
structure WellFormed (msg : Message) : Prop where
  crc : CrcOk msg.buf
  handled : ∃ handler, State.statusHandleset[msgCode msg.buf]? = some (some handler)
  length : structLength (msgCode msg.buf) = some (bodyLen msg.buf)

namespace State

variable {s : State} {msg : Message} {now : Time} {thread : Thread}

/-- The connection of the message is still in the use the message came from. -/
def ValidFor (s : State) (msg : Message) : Prop :=
  (s.conn msg.head.lpCurconn).Current msg.head.msgCursequence

/-- What `JudgeOutdate` says of it. -/
def JudgedValid (s : State) (msg : Message) : Prop :=
  (s.conn msg.head.lpCurconn).judgeOutdate msg.head.msgCursequence = true

/-- `ThreadRecvProc` run as one step, with its result. -/
def recvProc (s : State) (thread : Thread) (msg : Message) (now : Time) : Option (State × Int) :=
  match s.threadRecvProc msg now with
  | (s, none) => some (s, -1)
  | (s, some reply) => (s.msgSendInQueue thread reply).map fun s => (s, 0)

/-- The state behind a reply: it is queued and counted, and its connection expects it to
be sent; a ping has also refreshed its connection. -/
def answered (s : State) (msg : Message) (now : Time) (reply : Reply) : State :=
  { s with
    sendMsgList := s.sendMsgList ++ [reply]
    msgtosendCount := s.msgtosendCount + 1
    sendsem := s.sendsem + 1
    history := { s.history with queued := s.history.queued ++ [reply] }
    conn := Function.update s.conn msg.head.lpCurconn
      { s.conn msg.head.lpCurconn with
        sendlenSuppose := pkgLen reply.buf
        isendCount := (s.conn msg.head.lpCurconn).isendCount + 1
        pingUpdateTime :=
          if msgCode msg.buf = 0 then now
          else (s.conn msg.head.lpCurconn).pingUpdateTime } }

/-- A reply to a request, with the length and the checksum of its body. -/
def Answers (msg : Message) (reply : Reply) : Prop :=
  reply.head = msg.head ∧ ∃ code body,
    reply.buf = packetBuf code (Crc32.getCrc body).toNat body ∧
      pkgLen reply.buf = pkgHeaderLen + body.length ∧ CrcOk reply.buf

/-- The tests in their order, with the dispatch behind them. -/
theorem threadRecvProc_tests (s : State) (msg : Message) (now : Time) :
    s.threadRecvProc msg now =
      if (s.conn msg.head.lpCurconn).judgeOutdate msg.head.msgCursequence = false then (s, none)
      else if bodyLen msg.buf = 0 ∧ crc32 msg.buf ≠ 0 then (s, none)
      else if bodyLen msg.buf ≠ 0 ∧
          Crc32.getCrc (packetBody msg.buf) ≠ BitVec.ofNat 32 (crc32 msg.buf) then (s, none)
      else
        match statusHandleset[msgCode msg.buf]? with
        | some (some handler) => handler s msg now
        | _ => (s, none) := rfl

theorem threadRecvProc_outdated (h : ¬ s.JudgedValid msg) :
    s.threadRecvProc msg now = (s, none) := by
  rw [threadRecvProc_tests, if_pos (by simpa [JudgedValid] using h)]

theorem threadRecvProc_corrupt (h : ¬ CrcOk msg.buf) : s.threadRecvProc msg now = (s, none) := by
  rw [threadRecvProc_tests]
  split
  · rfl
  rcases (not_crcOk_iff msg.buf).mp h with hempty | hbody
  · rw [if_pos hempty]
  · rw [if_neg fun hzero => hbody.1 hzero.1, if_pos hbody]

theorem threadRecvProc_passed (valid : s.JudgedValid msg) (crc : CrcOk msg.buf) :
    s.threadRecvProc msg now =
      match statusHandleset[msgCode msg.buf]? with
      | some (some handler) => handler s msg now
      | _ => (s, none) := by
  have hpassed := not_or.mp (mt (not_crcOk_iff msg.buf).mpr (not_not.mpr crc))
  rw [JudgedValid] at valid
  rw [threadRecvProc_tests, if_neg (by simp [valid]), if_neg hpassed.1, if_neg hpassed.2]

theorem length_iff {n : Nat} (hn : n < 65528) (pkg : List UInt8) :
    (pkgLen pkg : Int) - pkgHeaderLen = n ↔ some n = some (bodyLen pkg) := by
  have hlt := pkgLen_lt pkg
  simp only [Option.some.injEq, bodyLen, pkgHeaderLen]
  omega

/-- A handler of a structure answers requests of its length. -/
theorem handleStruct_answers {lenStruct : Nat} (cmd : Nat) (hlen : lenStruct < 65528)
    (valid : s.JudgedValid msg) :
    (some lenStruct = some (bodyLen msg.buf) ∧ ∃ reply, Answers msg reply ∧
        handleStruct lenStruct cmd hlen s msg now = (s.supposeSend reply, some reply)) ∨
      some lenStruct ≠ some (bodyLen msg.buf) ∧
        handleStruct lenStruct cmd hlen s msg now = (s, none) := by
  by_cases hfit : some lenStruct = some (bodyLen msg.buf)
  · have hbody : (List.replicate lenStruct (0 : UInt8)).length < 65528 := by simpa using hlen
    let reply := replyTo msg cmd (Crc32.getCrc (List.replicate lenStruct 0)).toNat _ hbody
    have hanswers : Answers msg reply :=
      ⟨rfl, cmd, _, rfl, pkgLen_packetBuf hbody, crcOk_packetBuf cmd hbody⟩
    refine .inl ⟨hfit, reply, hanswers, ?_⟩
    have hsame := (length_iff hlen msg.buf).mpr hfit
    rw [JudgedValid] at valid
    rw [handleStruct, if_neg (not_not.mpr hsame), if_neg (by simp [valid])]
  · have hother := mt (length_iff hlen msg.buf).mp hfit
    exact .inr ⟨hfit, by rw [handleStruct, if_pos hother]⟩

theorem handlePing_answers (s : State) (msg : Message) (now : Time) :
    (some lenStructPing = some (bodyLen msg.buf) ∧ ∃ reply, Answers msg reply ∧
        handlePing s msg now = ((s.modifyConn msg.head.lpCurconn fun conn =>
          { conn with pingUpdateTime := now }).supposeSend reply, some reply)) ∨
      some lenStructPing ≠ some (bodyLen msg.buf) ∧ handlePing s msg now = (s, none) := by
  by_cases hfit : some lenStructPing = some (bodyLen msg.buf)
  · let reply := replyTo msg cmdPing 0 [] (by decide)
    have hanswers : Answers msg reply :=
      ⟨rfl, cmdPing, [], by rw [getCrc_nil]; rfl, pkgLen_packetBuf (by decide),
        show CrcOk (packetBuf cmdPing 0 []) by decide⟩
    refine .inl ⟨hfit, reply, hanswers, ?_⟩
    have hsame := (length_iff (by decide) msg.buf).mpr hfit
    rw [handlePing, if_neg (not_not.mpr hsame)]
  · have hother := mt (length_iff (by decide) msg.buf).mp hfit
    exact .inr ⟨hfit, by rw [handlePing, if_pos hother]⟩

/-- The state in which a handler calls `MsgSendInQueue`. -/
def expecting (s : State) (msg : Message) (now : Time) (reply : Reply) : State :=
  s.modifyConn msg.head.lpCurconn fun conn =>
    { conn with
      sendlenSuppose := pkgLen reply.buf
      pingUpdateTime := if msgCode msg.buf = 0 then now else conn.pingUpdateTime }

/-- The handlers behind the other tests. -/
theorem threadRecvProc_dispatch (now : Time) (valid : s.JudgedValid msg) (crc : CrcOk msg.buf) :
    (WellFormed msg ∧ ∃ reply, Answers msg reply ∧
        s.threadRecvProc msg now = (s.expecting msg now reply, some reply)) ∨
      ¬ WellFormed msg ∧ s.threadRecvProc msg now = (s, none) := by
  rw [threadRecvProc_passed valid crc]
  split
  next handler hget =>
    have hstruct : ∀ {lenStruct cmd : Nat} (hlen : lenStruct < 65528), msgCode msg.buf ≠ 0 →
        structLength (msgCode msg.buf) = some lenStruct →
        (WellFormed msg ∧ ∃ reply, Answers msg reply ∧
          handleStruct lenStruct cmd hlen s msg now = (s.expecting msg now reply, some reply)) ∨
        ¬ WellFormed msg ∧ handleStruct lenStruct cmd hlen s msg now = (s, none) := by
      intro lenStruct cmd hlen hcode hlength
      rcases handleStruct_answers cmd hlen valid with
        ⟨hfit, reply, hanswers, hret⟩ | ⟨hne, hret⟩
      · refine .inl ⟨⟨crc, ⟨handler, hget⟩, hlength.trans hfit⟩, reply, hanswers, ?_⟩
        rw [hret]
        simp only [expecting, hcode, if_false, supposeSend, hanswers.1]
      · exact .inr ⟨fun h => hne (hlength.symm.trans h.length), hret⟩
    rcases mem_statusHandleset hget with ⟨hcode, rfl⟩ | ⟨hcode, rfl⟩ | ⟨hcode, rfl⟩
    · have hlength : structLength (msgCode msg.buf) = some lenStructPing := by rw [hcode]; rfl
      rcases handlePing_answers s msg now with
        ⟨hfit, reply, hanswers, hret⟩ | ⟨hne, hret⟩
      · refine .inl ⟨⟨crc, ⟨_, hget⟩, hlength.trans hfit⟩, reply, hanswers, ?_⟩
        simp [hret, expecting, hcode, supposeSend, hanswers.1, modifyConn]
      · exact .inr ⟨fun h => hne (hlength.symm.trans h.length), hret⟩
    · exact hstruct _ (by omega) (by rw [hcode]; rfl)
    · exact hstruct _ (by omega) (by rw [hcode]; rfl)
  next hnone => exact .inr ⟨fun h => h.handled.elim fun handler hget => hnone handler hget, rfl⟩

/-- A queued reply, with both limits not reached. -/
theorem msgSendInQueue_room (thread : Thread) (free : s.sendmutex = none) (reply : Reply)
    (room : s.msgtosendCount ≤ 1000 ∧ (s.conn reply.head.lpCurconn).isendCount ≤ 400) :
    s.msgSendInQueue thread reply = some
      { s with
        sendMsgList := s.sendMsgList ++ [reply]
        msgtosendCount := s.msgtosendCount + 1
        sendsem := s.sendsem + 1
        history := { s.history with queued := s.history.queued ++ [reply] }
        conn := Function.update s.conn reply.head.lpCurconn
          { s.conn reply.head.lpCurconn with
            isendCount := (s.conn reply.head.lpCurconn).isendCount + 1 } } := by
  have hroom : (s.lockSend thread).overloaded reply = false := by
    have htotal : ¬ s.msgtosendCount > 1000 := by omega
    have hconn : ¬ (s.conn reply.head.lpCurconn).isendCount > 400 := by omega
    simp [overloaded, htotal, hconn]
  rw [msgSendInQueue, if_neg (not_not.mpr free), if_neg (by simp [hroom])]
  -- The mutex is free again.
  have hfree : s.unlockSend = s := by rw [unlockSend, ← free]
  conv_rhs => rw [← hfree]
  rfl

/-- Well-formed requests that are judged valid get one reply, others change nothing. -/
theorem recvProc_answers (thread : Thread) (now : Time) (free : s.sendmutex = none)
    (room : s.msgtosendCount ≤ 1000 ∧ (s.conn msg.head.lpCurconn).isendCount ≤ 400) :
    ((s.JudgedValid msg ∧ WellFormed msg) ∧ ∃ reply, Answers msg reply ∧
        s.recvProc thread msg now = some (s.answered msg now reply, 0)) ∨
      ¬ (s.JudgedValid msg ∧ WellFormed msg) ∧ s.recvProc thread msg now = some (s, -1) := by
  by_cases hvalid : s.JudgedValid msg
  swap
  · exact .inr ⟨fun h => hvalid h.1, by rw [recvProc, threadRecvProc_outdated hvalid]⟩
  by_cases hcrc : CrcOk msg.buf
  swap
  · exact .inr ⟨fun h => hcrc h.2.crc, by rw [recvProc, threadRecvProc_corrupt hcrc]⟩
  rcases threadRecvProc_dispatch now hvalid hcrc with
    ⟨hformed, reply, hanswers, hret⟩ | ⟨hrejects, hret⟩
  · refine .inl ⟨⟨hvalid, hformed⟩, reply, hanswers, ?_⟩
    have hroom : (s.expecting msg now reply).msgtosendCount ≤ 1000 ∧
        ((s.expecting msg now reply).conn reply.head.lpCurconn).isendCount ≤ 400 := by
      rw [hanswers.1]
      simpa [expecting] using room
    have hqueue := msgSendInQueue_room thread
      (show (s.expecting msg now reply).sendmutex = none from free) reply hroom
    rw [recvProc, hret]
    show ((s.expecting msg now reply).msgSendInQueue thread reply).map _ = _
    rw [hqueue]
    simp [answered, expecting, modifyConn, hanswers.1]
  · exact .inr ⟨fun h => hrejects h.2, by rw [recvProc, hret]⟩

/-- `ThreadRecvProc` returns 0 exactly for the well-formed requests of a current use. It then
has queued one well-formed reply and changed nothing else that is not listed in `answered`;
when it returns -1 it has changed nothing. -/
def ValidatesExactly (s : State) (thread : Thread) (msg : Message) (now : Time) : Prop :=
  ∃ s' result, s.recvProc thread msg now = some (s', result) ∧ (result = 0 ∨ result = -1) ∧
    (result = 0 ↔ s.ValidFor msg ∧ WellFormed msg) ∧
    (result = 0 → ∃ reply, Answers msg reply ∧ s' = s.answered msg now reply) ∧
    (result = -1 → s' = s)

/-- The message of a current use has a positive descriptor and a sequence that `JudgeOutdate`
knows; that of another use is not taken for one of the current use. -/
structure Tells (s : State) (msg : Message) : Prop where
  valid : s.ValidFor msg → 0 < (s.conn msg.head.lpCurconn).fd ∧
    (msg.head.msgCursequence < 2 ^ 31 ∨
      2 ^ 64 - 2 ^ 31 ≤ msg.head.msgCursequence ∧ msg.head.msgCursequence < 2 ^ 64)
  other : 0 < (s.conn msg.head.lpCurconn).fd → (s.conn msg.head.lpCurconn).inrecyList ≠ 1 →
    (s.conn msg.head.lpCurconn).sequence ≠ msg.head.msgCursequence →
      (s.conn msg.head.lpCurconn).sequence ≠ throughInt msg.head.msgCursequence

/-- Then `JudgeOutdate` tells the messages of a current use from the others. -/
theorem tells_iff : s.Tells msg ↔ (s.JudgedValid msg ↔ s.ValidFor msg) := by
  constructor
  · refine fun h => ⟨fun hjudged => ?_, fun hvalid => ?_⟩
    · obtain ⟨hfd, hrecy, hseq⟩ := Connection.judgeOutdate_iff.mp hjudged
      refine ⟨Connection.fd_ne_of_judgeOutdate hjudged, hrecy, ?_⟩
      by_contra hne
      exact h.other hfd hrecy hne hseq
    · obtain ⟨hfd, hknown⟩ := h.valid hvalid
      exact hvalid.judgeOutdate_iff.mpr ⟨hfd, throughInt_eq_iff.mpr hknown⟩
  · refine fun h => ⟨fun hvalid => ?_, fun hfd hrecy hne hseq => ?_⟩
    · obtain ⟨hfd, hknown⟩ := hvalid.judgeOutdate_iff.mp (h.mpr hvalid)
      exact ⟨hfd, throughInt_eq_iff.mp hknown⟩
    · exact hne (h.mp (Connection.judgeOutdate_iff.mpr ⟨hfd, hrecy, hseq⟩)).2.2

/-- A request is validated as it should exactly if another test refuses it or `JudgeOutdate`
tells whether it is of the current use of its connection. -/
theorem recvProc_exact_iff (s : State) (thread : Thread) (msg : Message) (now : Time)
    (free : s.sendmutex = none)
    (room : s.msgtosendCount ≤ 1000 ∧ (s.conn msg.head.lpCurconn).isendCount ≤ 400) :
    s.ValidatesExactly thread msg now ↔ (WellFormed msg → s.Tells msg) := by
  rcases recvProc_answers thread now free room with
    ⟨⟨hjudged, hformed⟩, reply, hanswers, hret⟩ | ⟨hrejects, hret⟩
  · constructor
    · rintro ⟨s', result, hrun, -, hzero, -, -⟩ -
      obtain ⟨-, rfl⟩ := Prod.mk.inj (Option.some.inj (hret.symm.trans hrun))
      exact tells_iff.mpr (iff_of_true hjudged (hzero.mp rfl).1)
    · intro h
      have hvalid := (tells_iff.mp (h hformed)).mp hjudged
      exact ⟨_, 0, hret, .inl rfl, iff_of_true rfl ⟨hvalid, hformed⟩,
        fun _ => ⟨reply, hanswers, rfl⟩, nofun⟩
  · constructor
    · rintro ⟨s', result, hrun, -, hzero, -, -⟩ hformed
      obtain ⟨-, rfl⟩ := Prod.mk.inj (Option.some.inj (hret.symm.trans hrun))
      have hother : ¬ s.ValidFor msg := fun hvalid =>
        absurd (hzero.mpr ⟨hvalid, hformed⟩) (by decide)
      exact tells_iff.mpr (iff_of_false (fun hjudged => hrejects ⟨hjudged, hformed⟩) hother)
    · intro h
      have hother : ¬ (s.ValidFor msg ∧ WellFormed msg) := fun hvalid =>
        hrejects ⟨(tells_iff.mp (h hvalid.2)).mpr hvalid.1, hvalid.2⟩
      exact ⟨_, -1, hret, .inr rfl, iff_of_false nofun hother, nofun, fun _ => rfl⟩

/-- A heartbeat on a connection that is in use. -/
theorem recvProc_exact_ping :
    (Boot.small.state.modifyConn 1 fun conn => { conn with inrecyList := 0 }).ValidatesExactly
      (.worker 0) ⟨⟨1, 4⟩, 1, packetBuf 0 0 []⟩ 7 := by
  refine (recvProc_exact_iff _ (.worker 0) ⟨⟨1, 4⟩, 1, packetBuf 0 0 []⟩ 7 rfl
    ⟨by decide, by decide⟩).mpr fun _ => ⟨fun _ => ?_, fun _ _ hne => ?_⟩
  · exact ⟨by decide, .inl (by decide)⟩
  · exact absurd rfl hne

end State

namespace Server

open State

/-- A heartbeat of a connection whose object has been used 2^30 times before is refused. -/
theorem recvProc_inexact : ¬ ∀ (boot : Boot) (s : State) (thread : Thread) (msg : Message)
    (now : Time), Reachable boot s → some msg ∈ s.msgqueue → s.sendmutex = none →
      s.msgtosendCount ≤ 1000 ∧ (s.conn msg.head.lpCurconn).isendCount ≤ 400 →
        s.ValidatesExactly thread msg now := by
  intro hclaim
  obtain ⟨s₀, actions, s₁, t, hstart, hr, hvisited⟩ := visited_of_launch
  obtain ⟨s, msg, hrequest, hsent, hhead, hbuf⟩ := hvisited.request
  have hreached : Reachable Boot.lone s := by
    refine ⟨s₀, actions ++ eventOn 5 epollin { recv := .data (encodeHeader pkgHeaderLen 0 0) },
      hstart, ?_⟩
    rw [run_append, hr]
    exact hrequest
  have hroom : s.msgtosendCount ≤ 1000 ∧ (s.conn msg.head.lpCurconn).isendCount ≤ 400 := by
    rw [hhead, hsent.outbox.2.1, hsent.connected.2.2.2.2.2]
    decide
  have hmem : some msg ∈ s.msgqueue := by
    rw [hsent.inbox]
    exact List.mem_cons_self
  obtain ⟨s', result, hrun, -, hzero, -, -⟩ :=
    hclaim _ s (.worker 0) msg 0 hreached hmem hsent.outbox.2.2 hroom
  have hvalid : s.ValidFor msg := by
    rw [ValidFor, hhead]
    refine ⟨?_, ?_, hsent.sequence⟩
    · rw [hsent.connected.1]
      decide
    · rw [hsent.connected.2.2.2.1]
      decide
  have hformed : WellFormed msg := by
    have hcrc : CrcOk msg.buf := by
      rw [hbuf]
      decide
    have hcode : msgCode msg.buf = 0 := by
      rw [hbuf]
      decide
    have hlength : structLength (msgCode msg.buf) = some (bodyLen msg.buf) := by
      rw [hbuf]
      decide
    exact ⟨hcrc, ⟨handlePing, by rw [hcode]; rfl⟩, hlength⟩
  have hrefused : ¬ s.JudgedValid msg := by
    rw [JudgedValid, hhead]
    intro hjudged
    have hseq := (Connection.judgeOutdate_iff.mp hjudged).2.2
    rw [hsent.sequence] at hseq
    exact absurd hseq (by decide)
  rw [recvProc, threadRecvProc_outdated hrefused] at hrun
  obtain ⟨-, rfl⟩ := Prod.mk.inj (Option.some.inj hrun)
  exact absurd (hzero.mpr ⟨hvalid, hformed⟩) (by decide)

/-- The step of a worker is `recvProc` for the first message of its queue. -/
theorem work_eq_recvProc {s : State} {msg : Message} {rest : List (Option Message)} (w : Nat)
    (now : Time) (queue : s.msgqueue = some msg :: rest) :
    work s w now = ((s.behind rest).recvProc (.worker w) msg now).map Prod.fst := by
  have htake : s.takeMessage now = some ((s.behind rest).threadRecvProc msg now) := by
    simp only [takeMessage, getMsgItem, queue]
    rfl
  rw [work, htake, Option.bind_some, recvProc]
  rcases (s.behind rest).threadRecvProc msg now with ⟨t, _ | reply⟩
  · rfl
  · simp only [Option.map_map, Function.comp_def, Option.map_id']

end Server

end MyNginx
