import MyNginx.Net.Send
import MyNginx.Misc.Crc32

/-!
# Handling requests

`CSocketLogic`: the dispatch of a received message and the three handlers. Each
handler ends in `MsgSendInQueue`, so the functions here stop before that call
and give the reply it is made with; no reply stands for the result -1.
-/

namespace MyNginx

open Foundation

def cmdStart : Nat := 0
def cmdPing : Nat := cmdStart + 1
def cmdRegister : Nat := cmdStart + 5
def cmdLogin : Nat := cmdStart + 6

/-- The bytes of a packet with a body, and the zero byte behind it. -/
def packetBuf (code crc : Nat) (body : List UInt8) : List UInt8 :=
  encodeHeader (pkgHeaderLen + body.length) code crc ++ (body ++ [0])

theorem lenStructRegister_lt : lenStructRegister < 65528 := by decide

theorem lenStructLogin_lt : lenStructLogin < 65528 := by decide

theorem length_noBody_lt : ([] : List UInt8).length < 65528 := by decide

theorem length_zeros_lt {lenStruct : Nat} (h : lenStruct < 65528) :
    (List.replicate lenStruct (0 : UInt8)).length < 65528 := by simpa using h

theorem pkgLen_packetBuf {code crc : Nat} {body : List UInt8} (h : body.length < 65528) :
    pkgLen (packetBuf code crc body) = pkgHeaderLen + body.length :=
  pkgLen_encodeHeader _ _ _ _ (by simp only [pkgHeaderLen]; omega)

/-- A reply to a request: its message header is copied from the request. -/
def replyTo (request : Message) (code crc : Nat) (body : List UInt8)
    (h : body.length < 65528) : Reply where
  head := request.head
  origin := request.origin
  buf := packetBuf code crc body
  header_le := by rw [pkgLen_packetBuf h]; exact Nat.le_add_right _ _
  fits := by
    rw [pkgLen_packetBuf h]
    simp only [packetBuf, List.length_append, length_encodeHeader, List.length_singleton]
    omega

@[simp] theorem replyTo_head (request : Message) (code crc : Nat) (body : List UInt8)
    (h : body.length < 65528) : (replyTo request code crc body h).head = request.head := rfl

@[simp] theorem replyTo_origin (request : Message) (code crc : Nat) (body : List UInt8)
    (h : body.length < 65528) : (replyTo request code crc body h).origin = request.origin := rfl

namespace State

/-- `sendlen_suppose` is set to the length of the reply about to be queued. -/
def supposeSend (s : State) (reply : Reply) : State :=
  s.modifyConn reply.head.lpCurconn fun conn => { conn with sendlenSuppose := pkgLen reply.buf }

/-- `_HandleRegister` and `_HandleLogin`: a reply with a zeroed structure as its
body. Run as one step, the tests of the connection inside and outside
`conn_mutex` agree. -/
def handleStruct (lenStruct cmd : Nat) (hlen : lenStruct < 65528) (s : State) (msg : Message)
    (_now : Time) : State × Option Reply :=
  if (pkgLen msg.buf : Int) - pkgHeaderLen ≠ lenStruct then (s, none)
  else if (s.conn msg.head.lpCurconn).judgeOutdate msg.head.msgCursequence = false then (s, none)
  else
    let body := List.replicate lenStruct 0
    let reply := replyTo msg cmd (Crc32.getCrc body).toNat body (length_zeros_lt hlen)
    (s.supposeSend reply, some reply)

def handleRegister (s : State) (msg : Message) (now : Time) : State × Option Reply :=
  handleStruct lenStructRegister cmdRegister lenStructRegister_lt s msg now

def handleLogin (s : State) (msg : Message) (now : Time) : State × Option Reply :=
  handleStruct lenStructLogin cmdLogin lenStructLogin_lt s msg now

/-- `_HandlePing`, which does not look at the connection again. -/
def handlePing (s : State) (msg : Message) (now : Time) : State × Option Reply :=
  if (pkgLen msg.buf : Int) - pkgHeaderLen ≠ lenStructPing then (s, none)
  else
    let s := s.modifyConn msg.head.lpCurconn fun conn => { conn with pingUpdateTime := now }
    let reply := replyTo msg cmdPing 0 [] length_noBody_lt
    (s.supposeSend reply, some reply)

/-- `status_handleset`. -/
def statusHandleset : List (Option (State → Message → Time → State × Option Reply)) :=
  [some handlePing, none, none, none, none, some handleRegister, some handleLogin]

/-- `ThreadRecvProc` up to the call of `MsgSendInQueue` by a handler. -/
def threadRecvProc (s : State) (msg : Message) (now : Time) : State × Option Reply :=
  let bodyLen := (pkgLen msg.buf + 65536 - pkgHeaderLen) % 65536
  let body := (msg.buf.drop pkgHeaderLen).take bodyLen
  if (s.conn msg.head.lpCurconn).judgeOutdate msg.head.msgCursequence = false then (s, none)
  else if bodyLen = 0 ∧ crc32 msg.buf ≠ 0 then (s, none)
  else if bodyLen ≠ 0 ∧ Crc32.getCrc body ≠ BitVec.ofNat 32 (crc32 msg.buf) then (s, none)
  else
    match statusHandleset[msgCode msg.buf]? with
    | some (some handler) => handler s msg now
    | _ => (s, none)

/-- `get_msg_item`. -/
def getMsgItem (s : State) : State × Option Message :=
  match s.msgqueue with
  | [] => (s, none)
  | msg :: rest => ({ s with msgqueue := rest, msgqueueSize := s.msgqueueSize - 1 }, msg)

/-- One round of a thread of the pool, up to `MsgSendInQueue`: it waits for a
message, and drops a null one. -/
def takeMessage (s : State) (now : Time) : Option (State × Option Reply) :=
  if s.msgqueue = [] then none
  else
    match s.getMsgItem with
    | (s, none) => some (s, none)
    | (s, some msg) => some (s.threadRecvProc msg now)

end State

end MyNginx
