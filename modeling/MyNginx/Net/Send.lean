import MyNginx.Net.Request

/-!
# The send queue

`MsgSendInQueue` is given by its parts, which `Sending.System` runs as separate
steps of a worker, and as a whole. `sendEntry` is the body of the loop in
`SendMsgThreadFunc` for one element of `m_send_msgList`.
-/

namespace MyNginx

open Foundation

namespace State

/-- One of the two limits of `MsgSendInQueue` is exceeded. -/
def overloaded (s : State) (reply : Reply) : Bool :=
  s.msgtosendCount > 1000 || (s.conn reply.head.lpCurconn).isendCount > 400

@[simps toBlocks toPool toSendQueue toTimerQueue toReceiveQueue toKernel conf conn history]
def lockSend (s : State) (thread : Thread) : State := { s with sendmutex := some thread }

@[simps toBlocks toPool toSendQueue toTimerQueue toReceiveQueue toKernel conf conn history]
def unlockSend (s : State) : State := { s with sendmutex := none }

/-- `m_send_msgList.push_back`. -/
@[simps toBlocks toPool toSendQueue toTimerQueue toReceiveQueue toKernel conf conn history]
def pushSend (s : State) (reply : Reply) : State :=
  { s with
    sendMsgList := s.sendMsgList ++ [reply]
    history := { s.history with queued := s.history.queued ++ [reply] } }

/-- `++isend_count` of the connection of a reply. -/
def countConn (s : State) (reply : Reply) : State :=
  s.modifyConn reply.head.lpCurconn fun conn => { conn with isendCount := conn.isendCount + 1 }

@[simps toBlocks toPool toSendQueue toTimerQueue toReceiveQueue toKernel conf conn history]
def countTotal (s : State) : State := { s with msgtosendCount := s.msgtosendCount + 1 }

/-- `MsgSendInQueue` run without interruption. Both limits make it return with
the mutex still locked. -/
def msgSendInQueue (s : State) (thread : Thread) (reply : Reply) : Option State :=
  if s.sendmutex ≠ none then none
  else
    let s := s.lockSend thread
    if s.overloaded reply then some s
    else some (((s.pushSend reply).unlockSend.countConn reply).countTotal.semPost)

/-- What the handling of one element leaves the send thread to do. -/
inductive SendNext where
  | erased
  | skipped
  | returned
  deriving DecidableEq, Repr

/-- The settings that make an element of the list the reply in progress. -/
def beginSend (s : State) (i : Nat) (reply : Reply) : State :=
  { s with
    sendMsgList := s.sendMsgList.eraseIdx i
    msgtosendCount := s.msgtosendCount - 1 }.modifyConn reply.head.lpCurconn fun conn =>
      { conn with
        pMsgsend := some reply
        sendStr := some reply
        isendCount := conn.isendCount - 1
        sendlenAlready := 0
        pSendbuf := some ⟨reply, msgHeaderLen⟩
        sendlen := pkgLen reply.buf }

/-- One round of the loop over `m_send_msgList`, for the element at index `i`. -/
def sendEntry (s : State) (i : Nat) (env : Env) : Option (State × SendNext) :=
  s.sendMsgList[i]?.bind fun reply =>
    let c := reply.head.lpCurconn
    if (s.conn c).judgeOutdate reply.head.msgCursequence = false then
      some ({ s.clearSend c with sendMsgList := s.sendMsgList.eraseIdx i }, .erased)
    else if (s.conn c).iThrowsendCount > 0 then some (s, .skipped)
    else
      let s := s.beginSend i reply
      let supposeSize := (s.conn c).sendlen
      match s.sendproc c (s.conn c).pSendbuf supposeSize env.send with
      | none => none
      | some (s, none) =>
          some ((s.clearSend c).modifyConn c fun conn => { conn with iThrowsendCount := 0 },
            .erased)
      | some (s, some realSize) =>
          if realSize < supposeSize then
            let s := s.modifyConn c fun conn =>
              { conn with
                iThrowsendCount := conn.iThrowsendCount + 1
                pSendbuf := conn.pSendbuf.map (·.add realSize)
                sendlen := conn.sendlen - realSize
                sendlenAlready := conn.sendlenAlready + realSize }
            some ((s.epollOperEvent (s.conn c).fd .mod epollout 0 c env.ctl).1, .erased)
          else
            let s := s.modifyConn c fun conn =>
              { conn with sendlenAlready := conn.sendlenAlready + realSize }
            if (s.conn c).sendlenAlready ≠ (s.conn c).sendlenSuppose then some (s, .returned)
            else
              some ((s.clearSend c).modifyConn c fun conn => { conn with iThrowsendCount := 0 },
                .erased)

end State

end MyNginx
