import MyNginx.Net.Conn

/-!
# Receiving and writing on a connection

The functions of `socket_request.cxx`. A `ssize_t` result that may be -1 is an
`Option Nat`, with `none` for -1. Reads store the bytes behind `p_recvbuf`; a
store outside a live block is undefined behaviour.
-/

namespace MyNginx

open Foundation

namespace SendBuf

/-- The bytes at a position of a reply that `send` copies. -/
def bytes (p : SendBuf) (n : Nat) : List UInt8 :=
  (p.reply.buf.drop (p.off - msgHeaderLen)).take n

/-- `send` can copy `n` of `sendLen` bytes from a position of a reply. -/
def CanSend (p : SendBuf) (n sendLen : Nat) : Prop :=
  1 ≤ n ∧ n ≤ sendLen ∧ msgHeaderLen ≤ p.off ∧ p.off - msgHeaderLen + n ≤ p.reply.buf.length

instance (p : SendBuf) (n sendLen : Nat) : Decidable (p.CanSend n sendLen) :=
  inferInstanceAs (Decidable (_ ∧ _))

/-- `p_sendbuf + n`. -/
def add (p : SendBuf) (n : Nat) : SendBuf := { p with off := p.off + n }

end SendBuf

namespace State

/-- What `recv` can answer: between one byte and `len` bytes, or one of the
other results; on a descriptor that is not open only a failure. -/
def sysRecv (s : State) (fd : Fd) (len : Nat) (answer : RecvAnswer) : Option RecvAnswer :=
  if s.openFds fd then
    match answer with
    | .data bytes => if 1 ≤ bytes.length ∧ bytes.length ≤ len then some answer else none
    | _ => some answer
  else some (.failed .other)

/-- Write received bytes at a pointer. -/
def store (s : State) : RecvBuf → List UInt8 → Option State
  | .null, _ => none
  | .header p, bytes =>
      (s.memory.update p.block fun block =>
        if p.off + bytes.length ≤ block.length then some (overwrite block p.off bytes)
        else none).map s.setMemory
  | .message p, bytes =>
      (s.messages.update p.block fun msg =>
        if msgHeaderLen ≤ p.off ∧ p.off - msgHeaderLen + bytes.length ≤ msg.buf.length then
          some { msg with buf := overwrite msg.buf (p.off - msgHeaderLen) bytes }
        else none).map s.setMessages

/-- `recvproc`; -1 stands for "try again later" and for "closed" alike. -/
def recvproc (s : State) (c : ConnId) (buf : RecvBuf) (recvLen : Nat) (env : Env) :
    Option (State × Option Nat) :=
  match s.sysRecv (s.conn c).fd recvLen env.recv with
  | none => none
  | some (.data bytes) => (s.store buf bytes).map fun s => (s, some bytes.length)
  | some (.zero .ok) => some (s, some 0)
  | some (.zero .eagain) => some (s, none)
  | some (.zero _) => (s.closeAcceptedConnection c false env).map fun s => (s, none)
  | some (.failed .eintr) => some (s, some 0)
  | some (.failed .eagain) => some (s, none)
  | some (.failed _) => (s.closeAcceptedConnection c false env).map fun s => (s, none)

/-- The part after `recvproc` that `pkg_header_recv` and `pkg_body_recv` share. -/
def advance (s : State) (c : ConnId) (realSize : Nat) : State :=
  s.modifyConn c fun conn =>
    { conn with
      pRecvbuf := if realSize < conn.recvlen then conn.pRecvbuf.add realSize else conn.pRecvbuf
      recvlen := if realSize < conn.recvlen then conn.recvlen - realSize else conn.recvlen
      recvlenAlready := conn.recvlenAlready + realSize }

def pkgHeaderRecv (s : State) (c : ConnId) (env : Env) : Option (State × Option Nat) :=
  let conn := s.conn c
  if conn.curstat ≠ .hdInit ∧ conn.curstat ≠ .hdRecving then some (s, none)
  else
    match s.recvproc c conn.pRecvbuf conn.recvlen env with
    | none => none
    | some (s, none) => some (s, none)
    | some (s, some realSize) => some (s.advance c realSize, some realSize)

/-- `FreeMemory`; a null pointer is ignored. -/
def freeMemory (s : State) : Option Nat → Option State
  | none => some s
  | some b => (s.memory.free b).map s.setMemory

/-- `recv_str = nullptr` and `p_msgrecv = nullptr`. -/
@[simps toBlocks toPool toSendQueue toTimerQueue toReceiveQueue toKernel conf conn history]
def forgetMsgrecv (s : State) (c : ConnId) : State :=
  { s with
    messages := s.withoutMsgrecv c
    conn := Function.update s.conn c { s.conn c with recvStr := none, pMsgrecv := none } }

def pkgBodyRecv (s : State) (c : ConnId) (env : Env) : Option (State × Option Nat) :=
  let conn := s.conn c
  if conn.curstat ≠ .bdInit ∧ conn.curstat ≠ .bdRecving then
    ((s.forgetMsgrecv c).freeMemory conn.pHeaderinfo).map fun s => (s, none)
  else
    match s.recvproc c conn.pRecvbuf conn.recvlen env with
    | none => none
    | some (s, none) => some (s.forgetMsgrecv c, none)
    | some (s, some realSize) => some (s.advance c realSize, some realSize)

/-- `InMsgRecv`, with the message a shared pointer points to. -/
@[simps toBlocks toPool toSendQueue toTimerQueue toReceiveQueue toKernel conf conn history]
def inMsgRecv (s : State) (msg : Option Message) : State :=
  { s with
    msgqueue := s.msgqueue ++ [msg]
    msgqueueSize := s.msgqueueSize + 1 }

/-- `pkg_body_proc`: hand the message over, free the header block, start again. -/
def pkgBodyProc (s : State) (c : ConnId) : Option State :=
  let s := s.inMsgRecv ((s.conn c).pMsgrecv.bind s.messages.get)
  let s := (s.modifyConn c fun conn => { conn with pRecvbuf := .null }).forgetMsgrecv c
  (s.freeMemory (s.conn c).pHeaderinfo).map fun s => s.putToStateMach c

/-- The message block for an accepted header: a message header stamped with the
connection and its current sequence, the header, and zeros for the body. -/
def stampedMessage (s : State) (c : ConnId) (header : List UInt8) (pkgBodySize : Nat) : Message where
  head := ⟨c, (s.conn c).sequence⟩
  origin := s.history.use c
  buf := header.take pkgHeaderLen ++ List.replicate (pkgBodySize + 1) 0

/-- Allocate the message block and make it the buffer to receive into. -/
@[simps toBlocks toPool toSendQueue toTimerQueue toReceiveQueue toKernel conf conn history]
def allocMessage (s : State) (c : ConnId) (header : List UInt8) (pkgBodySize : Nat) : State :=
  { s with
    messages := ((s.withoutMsgrecv c).alloc (s.stampedMessage c header pkgBodySize)).2
    conn := Function.update s.conn c
      { s.conn c with
        pMsgrecv := some (s.withoutMsgrecv c).next
        recvStr := some (s.withoutMsgrecv c).next
        pRecvbuf := .message ⟨(s.withoutMsgrecv c).next, msgHeaderLen + pkgHeaderLen⟩
        recvlen := pkgBodySize } }

/-- `pkg_header_proc`: reject the header, or go on with its body. -/
def pkgHeaderProc (s : State) (c : ConnId) : Option State :=
  (s.conn c).pHeaderinfo.bind fun headerinfo =>
  (s.memory.get headerinfo).bind fun header =>
  let pkgSize := pkgLen header
  if pkgSize < pkgHeaderLen ∨ pkgSize > pkgMaxLength - 1000 then
    (s.freeMemory headerinfo).map fun s =>
      s.modifyConn c fun conn => { conn with curstat := .hdInit }
  else
    let pkgBodySize := pkgSize - pkgHeaderLen
    let s := s.allocMessage c header pkgBodySize
    if pkgBodySize = 0 then s.pkgBodyProc c
    else some (s.modifyConn c fun conn => { conn with curstat := .bdInit })

/-- The header states after their preparation: receive, then process or go on. -/
def receiveHeader (s : State) (c : ConnId) (env : Env) : Option State :=
  let supposeSize := (s.conn c).recvlen
  match s.pkgHeaderRecv c env with
  | none => none
  | some (s, none) => some s
  | some (s, some recvSize) =>
      if recvSize = supposeSize then s.pkgHeaderProc c
      else some (s.modifyConn c fun conn => { conn with curstat := .hdRecving })

/-- The body states: receive, then process or go on. -/
def receiveBody (s : State) (c : ConnId) (env : Env) : Option State :=
  let supposeSize := (s.conn c).recvlen
  match s.pkgBodyRecv c env with
  | none => none
  | some (s, none) => some s
  | some (s, some recvSize) =>
      if recvSize = supposeSize then s.pkgBodyProc c
      else some (s.modifyConn c fun conn => { conn with curstat := .bdRecving })

/-- `AllocMemory(PKG_HEADER_LEN, true)` and the settings of `_PKG_HD_INIT`. -/
@[simps toBlocks toPool toSendQueue toTimerQueue toReceiveQueue toKernel conf conn history]
def allocHeader (s : State) (c : ConnId) : State :=
  { s with
    memory := (s.memory.alloc (List.replicate pkgHeaderLen 0)).2
    conn := Function.update s.conn c
      { s.conn c with
        pHeaderinfo := some s.memory.next
        pRecvbuf := .header ⟨s.memory.next, 0⟩
        recvlen := pkgHeaderLen } }

def eventReadableRequestHandler (s : State) (c : ConnId) (env : Env) : Option State :=
  match (s.conn c).curstat with
  | .hdInit => (s.allocHeader c).receiveHeader c env
  | .hdRecving => if (s.conn c).recvlen = 0 then some s else s.receiveHeader c env
  | .bdInit => if (s.conn c).recvlen = 0 then some s else s.receiveBody c env
  | .bdRecving => if (s.conn c).recvlen = 0 then some s else s.receiveBody c env

/-- `sendproc`: try again after `EINTR`. Nothing can be sent from a null pointer. -/
def sendproc (s : State) (c : ConnId) (buf : Option SendBuf) (sendLen : Nat) :
    List SendAnswer → Option (State × Option Nat)
  | [] => none
  | answer :: answers =>
      if s.openFds (s.conn c).fd then
        match answer with
        | .sent n =>
            buf.bind fun p =>
              if p.CanSend n sendLen then
                let written : Written :=
                  ⟨c, s.history.use c, (s.conn c).fd, p.reply, p.bytes n⟩
                let history := { s.history with wire := s.history.wire ++ [written] }
                some ({ s with history }, some n)
              else none
        | .zero => some (s, none)
        | .failed .eintr => s.sendproc c buf sendLen answers
        | .failed .eagain => some (s, some 0)
        | .failed _ => some (s, none)
      else some (s, none)

/-- `send_str`, `p_sendbuf` and `p_msgsend` become null. -/
def clearSend (s : State) (c : ConnId) : State :=
  s.modifyConn c fun conn => { conn with sendStr := none, pSendbuf := none, pMsgsend := none }

@[simps toBlocks toPool toSendQueue toTimerQueue toReceiveQueue toKernel conf conn history]
def semPost (s : State) : State := { s with sendsem := s.sendsem + 1 }

/-- The end of `event_writable_request_handler`, after completion and after an error. -/
def finishWritable (s : State) (c : ConnId) : State :=
  (s.semPost.clearSend c).modifyConn c fun conn => { conn with iThrowsendCount := 0 }

/-- `EPOLLOUT`: go on with the reply in progress. -/
def eventWritableRequestHandler (s : State) (c : ConnId) (env : Env) : Option State :=
  let supposeSize := (s.conn c).sendlen
  match s.sendproc c (s.conn c).pSendbuf supposeSize env.send with
  | none => none
  | some (s, none) => some (s.finishWritable c)
  | some (s, some realSize) =>
      if realSize < supposeSize then
        some (s.modifyConn c fun conn =>
          { conn with
            sendlenAlready := conn.sendlenAlready + realSize
            pSendbuf := conn.pSendbuf.map (·.add realSize)
            sendlen := conn.sendlen - realSize })
      else
        let s := s.modifyConn c fun conn =>
          { conn with sendlenAlready := conn.sendlenAlready + realSize }
        if (s.conn c).sendlenAlready ≠ (s.conn c).sendlenSuppose then some s
        else
          let s := (s.epollOperEvent (s.conn c).fd .mod epollout 1 c env.ctl).1
          some (s.finishWritable c)

/-- `event_writable_request_handler` in front of its `sem_post`, and whether it gets there. -/
def writableSend (s : State) (c : ConnId) (env : Env) : Option (State × Bool) :=
  let supposeSize := (s.conn c).sendlen
  match s.sendproc c (s.conn c).pSendbuf supposeSize env.send with
  | none => none
  | some (s, none) => some (s, true)
  | some (s, some realSize) =>
      if realSize < supposeSize then
        some (s.modifyConn c fun conn =>
          { conn with
            sendlenAlready := conn.sendlenAlready + realSize
            pSendbuf := conn.pSendbuf.map (·.add realSize)
            sendlen := conn.sendlen - realSize }, false)
      else
        let s := s.modifyConn c fun conn =>
          { conn with sendlenAlready := conn.sendlenAlready + realSize }
        if (s.conn c).sendlenAlready ≠ (s.conn c).sendlenSuppose then some (s, false)
        else some ((s.epollOperEvent (s.conn c).fd .mod epollout 1 c env.ctl).1, true)

theorem eventWritableRequestHandler_eq (s : State) (c : ConnId) (env : Env) :
    s.eventWritableRequestHandler c env =
      (s.writableSend c env).map fun (s, ends) => if ends then s.finishWritable c else s := by
  simp only [eventWritableRequestHandler, writableSend]
  split
  · rfl
  · rfl
  · split
    · rfl
    · split <;> rfl

end State

end MyNginx
