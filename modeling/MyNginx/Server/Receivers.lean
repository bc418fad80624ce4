import MyNginx.Server.Steady

/-!
# What does not look at the receive machines

`withReceiving` puts other blocks and other receive machines into a state. Closing a
connection, registering it, the timer queue, the send queue and the handling of messages
neither read nor write these parts, so each of them gives the same result on both sides
of `withReceiving`. What is left are the functions that receive, and those that take an
object out of the pool or give it back.
-/

namespace MyNginx

open Foundation

namespace State

/-- The state with other blocks and other receive machines. -/
@[simps toBlocks toPool toSendQueue toTimerQueue toReceiveQueue toKernel conf conn history]
def withReceiving (s : State) (blocks : Blocks) (incoming : ConnId → Incoming) : State :=
  { s with
    toBlocks := blocks
    conn := fun c => { s.conn c with toIncoming := incoming c } }

/-- A change of a connection that has nothing to do with its receive machine. -/
def Skips (f : Connection → Connection) : Prop :=
  ∀ conn incoming, f { conn with toIncoming := incoming } = { f conn with toIncoming := incoming }

variable {s : State} {c : ConnId} {env : Env} {blocks : Blocks} {incoming : ConnId → Incoming}

theorem withReceiving_conn_update {f : Connection → Connection} (skips : Skips f) (s : State)
    (c : ConnId) (blocks : Blocks) (incoming : ConnId → Incoming) :
    Function.update (s.withReceiving blocks incoming).conn c
        (f ((s.withReceiving blocks incoming).conn c)) =
      fun d => { Function.update s.conn c (f (s.conn c)) d with toIncoming := incoming d } := by
  funext d
  by_cases hd : d = c
  · subst hd
    simpa using skips (s.conn d) (incoming d)
  · simp [hd]

theorem withReceiving_modifyConn (s : State) (c : ConnId) (blocks : Blocks)
    (incoming : ConnId → Incoming) {f : Connection → Connection} (skips : Skips f) :
    (s.withReceiving blocks incoming).modifyConn c f =
      (s.modifyConn c f).withReceiving blocks incoming := by
  rw [modifyConn, withReceiving_conn_update skips]
  rfl

/-! ### Closing -/

theorem withReceiving_epollCtl (op : EpollOp) (fd : Fd) (events : Mask) (ok : Bool) :
    (s.withReceiving blocks incoming).epollCtl op fd events c ok =
      (s.epollCtl op fd events c ok).map (·.withReceiving blocks incoming) := by
  simp only [epollCtl, withReceiving_toKernel]
  split <;> rfl

theorem withReceiving_epollOperEvent (fd : Fd) (flag : EpollOp) (eventType : Mask) (bcaction : Int)
    (ok : Bool) :
    (s.withReceiving blocks incoming).epollOperEvent fd flag eventType bcaction c ok =
      ((s.epollOperEvent fd flag eventType bcaction c ok).1.withReceiving blocks incoming,
        (s.epollOperEvent fd flag eventType bcaction c ok).2) := by
  have hmask : ((s.withReceiving blocks incoming).conn c).events = (s.conn c).events := rfl
  simp only [epollOperEvent, hmask]
  rw [withReceiving_modifyConn _ _ _ _ fun _ _ => rfl,
    ← apply_ite (fun s : State => s.withReceiving blocks incoming), withReceiving_epollCtl]
  cases (if flag = .del then s else s.modifyConn c fun conn =>
    { conn with events := operMask (s.conn c).events flag eventType bcaction }).epollCtl flag fd
      (operMask (s.conn c).events flag eventType bcaction) c ok <;> simp

theorem withReceiving_closeFd (fd : Fd) :
    (s.withReceiving blocks incoming).closeFd fd = (s.closeFd fd).withReceiving blocks incoming :=
  rfl

theorem withReceiving_release :
    (s.withReceiving blocks incoming).release c = (s.release c).withReceiving blocks incoming := by
  have hconn := withReceiving_conn_update
    (f := fun conn => { conn with fd := -1, sequence := conn.sequence + 1 }) (fun _ _ => rfl) s c
    blocks incoming
  simp only [release, hconn]
  rfl

theorem withReceiving_closeConnection :
    (s.withReceiving blocks incoming).closeConnection c env =
      (s.closeConnection c env).map (·.withReceiving blocks incoming) := by
  simp only [closeConnection, withReceiving_conn, withReceiving_toKernel, withReceiving_closeFd,
    withReceiving_release]
  split
  · rfl
  · split <;> rfl

theorem withReceiving_inRecyConnQueue (now : Time) :
    (s.withReceiving blocks incoming).inRecyConnQueue c now =
      (s.inRecyConnQueue c now).withReceiving blocks incoming := by
  have hconn := withReceiving_conn_update
    (f := fun conn => { conn with inrecyList := 1, inrevyTime := now }) (fun _ _ => rfl) s c
    blocks incoming
  have hqueue : (s.withReceiving blocks incoming).enqueueRecy c now =
      (s.enqueueRecy c now).withReceiving blocks incoming := by
    simp only [enqueueRecy, hconn]
    rfl
  simp only [inRecyConnQueue, hqueue]
  rw [apply_ite (fun s : State => s.withReceiving blocks incoming),
    apply_ite (fun s : State => s.withReceiving blocks incoming)]
  rfl

theorem withReceiving_retire :
    (s.withReceiving blocks incoming).retire c = (s.retire c).withReceiving blocks incoming := by
  have hconn := withReceiving_conn_update
    (f := fun conn =>
      { conn with
        fd := -1
        iThrowsendCount :=
          if conn.iThrowsendCount > 0 then conn.iThrowsendCount - 1 else conn.iThrowsendCount })
    (fun _ _ => rfl) s c blocks incoming
  simp only [retire, hconn]
  rfl

theorem withReceiving_closeAcceptedConnection (istimeoutClose : Bool) :
    (s.withReceiving blocks incoming).closeAcceptedConnection c istimeoutClose env =
      (s.closeAcceptedConnection c istimeoutClose env).map (·.withReceiving blocks incoming) := by
  simp only [closeAcceptedConnection, withReceiving_conn, withReceiving_epollOperEvent,
    withReceiving_toKernel, withReceiving_closeFd, withReceiving_retire,
    withReceiving_inRecyConnQueue]
  split
  · rfl
  · split
    · rfl
    · split <;> rfl

/-! ### The timer queue -/

theorem withReceiving_addToTimerQueue (curTime : Time) :
    (s.withReceiving blocks incoming).addToTimerQueue c curTime =
      (s.addToTimerQueue c curTime).withReceiving blocks incoming := by
  have hping := withReceiving_modifyConn s c blocks incoming
    (f := fun conn => { conn with pingUpdateTime := curTime }) fun _ _ => rfl
  simp only [addToTimerQueue, hping]
  rfl

theorem withReceiving_timerBegin (curTime : Time) :
    (s.withReceiving blocks incoming).timerBegin curTime =
      (s.timerBegin curTime).map (·.withReceiving blocks incoming) := by
  simp only [timerBegin, withReceiving_toTimerQueue, withReceiving_conf]
  split
  · rfl
  · split
    · rfl
    · rw [Option.map_map]
      rfl

theorem withReceiving_timeCheckingProc :
    (s.withReceiving blocks incoming).timeCheckingProc =
      s.timeCheckingProc.map (·.withReceiving blocks incoming) := by
  simp only [timeCheckingProc, withReceiving_toTimerQueue, withReceiving_conf]
  cases s.timer with
  | examining due curTime =>
      cases due with
      | nil => rfl
      | cons head due =>
          have hconn : ∀ n, ((s.withReceiving blocks incoming).conn head.lpCurconn).judgeOutdate n =
              (s.conn head.lpCurconn).judgeOutdate n := fun _ => rfl
          have hping : ((s.withReceiving blocks incoming).conn head.lpCurconn).pingUpdateTime =
              (s.conn head.lpCurconn).pingUpdateTime := rfl
          simp only [hconn, hping, withReceiving_modifyConn _ _ _ _
            (f := fun conn => { conn with istimeout := true }) fun _ _ => rfl]
          split
          · rfl
          · split
            · rfl
            · split <;> rfl
  | _ => rfl

theorem withReceiving_timeOutDelete :
    (s.withReceiving blocks incoming).timeOutDelete =
      s.timeOutDelete.map (·.withReceiving blocks incoming) := by
  simp only [timeOutDelete, withReceiving_toTimerQueue]
  split <;> rfl

theorem withReceiving_timeOutClose :
    (s.withReceiving blocks incoming).timeOutClose env =
      (s.timeOutClose env).map (·.withReceiving blocks incoming) := by
  simp only [timeOutClose, withReceiving_toTimerQueue]
  split
  · rw [withReceiving_closeAcceptedConnection, Option.map_map, Option.map_map]
    rfl
  · rfl

/-! ### Sending -/

theorem withReceiving_sendproc (buf : Option SendBuf) (sendLen : Nat) (answers : List SendAnswer) :
    (s.withReceiving blocks incoming).sendproc c buf sendLen answers =
      (s.sendproc c buf sendLen answers).map fun (s, r) => (s.withReceiving blocks incoming, r) := by
  induction answers with
  | nil => rfl
  | cons answer answers ih =>
      have hfd : ((s.withReceiving blocks incoming).conn c).fd = (s.conn c).fd := rfl
      simp only [sendproc, withReceiving_toKernel, hfd, ih]
      split
      · cases answer with
        | sent n =>
            cases buf with
            | none => rfl
            | some p =>
                simp only [Option.bind_some]
                split <;> rfl
        | zero => rfl
        | failed errno => cases errno <;> rfl
      · rfl

theorem withReceiving_clearSend :
    (s.withReceiving blocks incoming).clearSend c = (s.clearSend c).withReceiving blocks incoming :=
  withReceiving_modifyConn _ _ _ _ fun _ _ => rfl

theorem withReceiving_finishWritable :
    (s.withReceiving blocks incoming).finishWritable c =
      (s.finishWritable c).withReceiving blocks incoming := by
  have hpost : (s.withReceiving blocks incoming).semPost = s.semPost.withReceiving blocks incoming :=
    rfl
  rw [finishWritable, hpost, withReceiving_clearSend, withReceiving_modifyConn _ _ _ _ fun _ _ => rfl]
  rfl

theorem withReceiving_writable :
    (s.withReceiving blocks incoming).eventWritableRequestHandler c env =
      (s.eventWritableRequestHandler c env).map (·.withReceiving blocks incoming) := by
  have hconn : ((s.withReceiving blocks incoming).conn c).toOutgoing = (s.conn c).toOutgoing := rfl
  simp only [eventWritableRequestHandler, hconn, withReceiving_sendproc]
  cases s.sendproc c (s.conn c).pSendbuf (s.conn c).sendlen env.send with
  | none => rfl
  | some result =>
      obtain ⟨t, r⟩ := result
      cases r with
      | none => exact congrArg some withReceiving_finishWritable
      | some realSize =>
          simp (disch := (unfold Skips; intros; rfl)) only [Option.map_some, withReceiving_modifyConn]
          split
          · rfl
          · have hlen : ∀ t : State, ((t.withReceiving blocks incoming).conn c).toOutgoing =
              (t.conn c).toOutgoing := fun _ => rfl
            have hfd : ∀ t : State, ((t.withReceiving blocks incoming).conn c).fd = (t.conn c).fd :=
              fun _ => rfl
            simp only [hlen, hfd, withReceiving_epollOperEvent, withReceiving_finishWritable]
            split <;> rfl

theorem withReceiving_msgSendInQueue (thread : Thread) (reply : Reply) :
    (s.withReceiving blocks incoming).msgSendInQueue thread reply =
      (s.msgSendInQueue thread reply).map (·.withReceiving blocks incoming) := by
  have hlock : (s.withReceiving blocks incoming).lockSend thread =
      (s.lockSend thread).withReceiving blocks incoming := rfl
  have hover : ((s.lockSend thread).withReceiving blocks incoming).overloaded reply =
      (s.lockSend thread).overloaded reply := rfl
  have hpush : ∀ t : State, ((t.withReceiving blocks incoming).pushSend reply).unlockSend =
      (t.pushSend reply).unlockSend.withReceiving blocks incoming := fun _ => rfl
  simp (disch := (unfold Skips; intros; rfl)) only [msgSendInQueue, withReceiving_toSendQueue,
    hlock, hover, hpush, countConn, withReceiving_modifyConn]
  split
  · rfl
  · split <;> rfl

theorem withReceiving_beginSend (i : Nat) (reply : Reply) :
    (s.withReceiving blocks incoming).beginSend i reply =
      (s.beginSend i reply).withReceiving blocks incoming :=
  withReceiving_modifyConn
    { s with sendMsgList := s.sendMsgList.eraseIdx i, msgtosendCount := s.msgtosendCount - 1 }
    reply.head.lpCurconn blocks incoming fun _ _ => rfl

theorem withReceiving_sendEntry (i : Nat) :
    (s.withReceiving blocks incoming).sendEntry i env =
      (s.sendEntry i env).map fun (s, next) => (s.withReceiving blocks incoming, next) := by
  have hout : ∀ (t : State) d, ((t.withReceiving blocks incoming).conn d).toOutgoing =
      (t.conn d).toOutgoing := fun _ _ => rfl
  have hfd : ∀ (t : State) d, ((t.withReceiving blocks incoming).conn d).fd = (t.conn d).fd :=
    fun _ _ => rfl
  have hjudge : ∀ (t : State) d n, ((t.withReceiving blocks incoming).conn d).judgeOutdate n =
      (t.conn d).judgeOutdate n := fun _ _ _ => rfl
  simp only [sendEntry, withReceiving_toSendQueue, hjudge, hout, withReceiving_beginSend,
    withReceiving_sendproc, withReceiving_clearSend]
  cases s.sendMsgList[i]? with
  | none => rfl
  | some reply =>
      simp only [Option.bind_some]
      split
      · rfl
      · split
        · rfl
        · cases (s.beginSend i reply).sendproc reply.head.lpCurconn
            ((s.beginSend i reply).conn reply.head.lpCurconn).pSendbuf
            ((s.beginSend i reply).conn reply.head.lpCurconn).sendlen env.send with
          | none => rfl
          | some result =>
              obtain ⟨t, r⟩ := result
              cases r with
              | none =>
                  simp (disch := (unfold Skips; intros; rfl)) only [Option.map_some,
                    withReceiving_clearSend, withReceiving_modifyConn]
              | some realSize =>
                  simp (disch := (unfold Skips; intros; rfl)) only [Option.map_some,
                    withReceiving_modifyConn, hfd, hout, withReceiving_epollOperEvent,
                    withReceiving_clearSend]
                  split
                  · rfl
                  · split <;> rfl

theorem withReceiving_sendOne (i : Nat) :
    Server.sendOne (s.withReceiving blocks incoming) i env =
      (Server.sendOne s i env).map (·.withReceiving blocks incoming) := by
  simp only [Server.sendOne, withReceiving_toSendQueue, withReceiving_sendEntry]
  split
  · rfl
  · simp only [Option.map_map]
    congr 1
    funext result
    obtain ⟨t, next⟩ := result
    cases next <;> rfl

/-! ### Requests -/

theorem withReceiving_handleStruct {lenStruct cmd : Nat} (hlen : lenStruct < 65528) (msg : Message)
    (now : Time) :
    handleStruct lenStruct cmd hlen (s.withReceiving blocks incoming) msg now =
      ((handleStruct lenStruct cmd hlen s msg now).1.withReceiving blocks incoming,
        (handleStruct lenStruct cmd hlen s msg now).2) := by
  have hjudge : ∀ d n, ((s.withReceiving blocks incoming).conn d).judgeOutdate n =
      (s.conn d).judgeOutdate n := fun _ _ => rfl
  simp (disch := (unfold Skips; intros; rfl)) only [handleStruct, hjudge, supposeSend,
    withReceiving_modifyConn]
  split
  · rfl
  · split <;> rfl

theorem withReceiving_handlePing (msg : Message) (now : Time) :
    handlePing (s.withReceiving blocks incoming) msg now =
      ((handlePing s msg now).1.withReceiving blocks incoming, (handlePing s msg now).2) := by
  simp (disch := (unfold Skips; intros; rfl)) only [handlePing, supposeSend,
    withReceiving_modifyConn]
  split <;> rfl

theorem withReceiving_threadRecvProc (msg : Message) (now : Time) :
    (s.withReceiving blocks incoming).threadRecvProc msg now =
      ((s.threadRecvProc msg now).1.withReceiving blocks incoming,
        (s.threadRecvProc msg now).2) := by
  have hjudge : ∀ d n, ((s.withReceiving blocks incoming).conn d).judgeOutdate n =
      (s.conn d).judgeOutdate n := fun _ _ => rfl
  simp only [threadRecvProc, hjudge]
  split
  · rfl
  · split
    · rfl
    · split
      · rfl
      · split
        · rename_i handler hhandler
          rcases mem_statusHandleset hhandler with ⟨-, rfl⟩ | ⟨-, rfl⟩ | ⟨-, rfl⟩
          · exact withReceiving_handlePing msg now
          · exact withReceiving_handleStruct _ msg now
          · exact withReceiving_handleStruct _ msg now
        · rfl

theorem withReceiving_work (w : Nat) (now : Time) :
    Server.work (s.withReceiving blocks incoming) w now =
      (Server.work s w now).map (·.withReceiving blocks incoming) := by
  simp only [Server.work, takeMessage, getMsgItem, withReceiving_toReceiveQueue]
  cases hqueue : s.msgqueue with
  | nil => rfl
  | cons msg rest =>
      cases msg with
      | none => rfl
      | some msg =>
          have htake : { s.withReceiving blocks incoming with
              msgqueue := rest, msgqueueSize := s.msgqueueSize - 1 } =
            { s with msgqueue := rest, msgqueueSize := s.msgqueueSize - 1 }.withReceiving blocks
              incoming := rfl
          simp only [htake, withReceiving_threadRecvProc]
          cases threadRecvProc { s with msgqueue := rest, msgqueueSize := s.msgqueueSize - 1 } msg
            now with
          | mk t reply =>
              cases reply with
              | none => rfl
              | some reply => exact withReceiving_msgSendInQueue (.worker w) reply

end State

end MyNginx
