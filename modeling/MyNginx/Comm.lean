import MyNginx.Foundation.BigEndian

/-!
# Packets, messages and connection objects

The data of `comm.h`. A packet is its header (two bytes of length, two of code,
four of checksum, all in network order) followed by its body; a message is a
packet behind a message header naming the connection object it came from and
the sequence that object had. Connection objects are numbered in the order of
their allocation, so a `ConnId` plays the part of an `lp_connection_t`.

Fields that no modelled function reads (the peer address, the listening item of
an accepted connection) are left out. `Message.origin` is proof-only: it records
under which accept the message header was stamped and is never read by the server.
-/

namespace MyNginx

open Foundation

abbrev ConnId := Nat
abbrev Fd := Int
abbrev Time := Int

/-- A set of epoll event bits, a `uint32_t` in the source. -/
abbrev Mask := BitVec 32

def epollin : Mask := 0x001
def epollout : Mask := 0x004
def epollerr : Mask := 0x008
def epollhup : Mask := 0x010
def epollrdhup : Mask := 0x2000

/-- Some bit of `bits` is set in `events`, the test `events & bits`. -/
def Mask.has (events bits : Mask) : Bool := events &&& bits != 0

/-- `sizeof(COMM_PKG_HEADER)`. -/
def pkgHeaderLen : Nat := 8

/-- `sizeof(STRUC_MSG_HEADER)`. -/
def msgHeaderLen : Nat := 16

def pkgMaxLength : Nat := 30000

def lenStructRegister : Nat := 100
def lenStructLogin : Nat := 96
def lenStructPing : Nat := 0

/-- `ntohs` of the length field of a packet. -/
def pkgLen (pkg : List UInt8) : Nat := BigEndian.decode (pkg.take 2)

/-- `ntohs` of the code field of a packet. -/
def msgCode (pkg : List UInt8) : Nat := BigEndian.decode ((pkg.drop 2).take 2)

/-- `ntohl` of the checksum field of a packet. -/
def crc32 (pkg : List UInt8) : Nat := BigEndian.decode ((pkg.drop 4).take 4)

/-- The eight header bytes of a packet, from values in host order. -/
def encodeHeader (len code crc : Nat) : List UInt8 :=
  BigEndian.encode 2 len ++ BigEndian.encode 2 code ++ BigEndian.encode 4 crc

@[simp] theorem length_encodeHeader (len code crc : Nat) :
    (encodeHeader len code crc).length = pkgHeaderLen := by
  simp [encodeHeader, pkgHeaderLen]

theorem pkgLen_encodeHeader (len code crc : Nat) (body : List UInt8) (h : len < 65536) :
    pkgLen (encodeHeader len code crc ++ body) = len := by
  have htake : (encodeHeader len code crc ++ body).take 2 = BigEndian.encode 2 len := by
    simp only [encodeHeader, List.append_assoc]
    exact List.take_left' (BigEndian.length_encode 2 len)
  rw [pkgLen, htake, BigEndian.decode_encode]
  exact Nat.mod_eq_of_lt h

theorem pkgLen_lt (pkg : List UInt8) : pkgLen pkg < 65536 := by
  have hlen : (pkg.take 2).length ≤ 2 := List.length_take_le 2 pkg
  have hpow : 256 ^ (pkg.take 2).length ≤ 256 ^ 2 := Nat.pow_le_pow_right (by decide) hlen
  exact Nat.lt_of_lt_of_le (BigEndian.decode_lt _) hpow

/-- Only the first bytes of a packet determine its length field. -/
theorem pkgLen_append {pkg : List UInt8} (h : 2 ≤ pkg.length) (more : List UInt8) :
    pkgLen (pkg ++ more) = pkgLen pkg := by
  rw [pkgLen, pkgLen, List.take_append_of_le_length h]

/-- `STRUC_MSG_HEADER`. -/
structure MsgHeader where
  lpCurconn : ConnId
  msgCursequence : Nat
  deriving DecidableEq, Repr

/-- A message block behind its message header: `buf` is the packet and the
terminating zero byte of the allocation. -/
structure Message where
  head : MsgHeader
  origin : Nat
  buf : List UInt8
  deriving DecidableEq, Repr

/-- A message that may be queued for sending: the packet it announces is at
least a header and lies inside its allocation. -/
structure Reply extends Message where
  header_le : pkgHeaderLen ≤ pkgLen buf
  fits : pkgLen buf ≤ buf.length
  deriving DecidableEq

/-- The bytes a reply puts on the wire: header and body, without the message header. -/
def Reply.packet (r : Reply) : List UInt8 := r.buf.take (pkgLen r.buf)

@[simp] theorem Reply.length_packet (r : Reply) : r.packet.length = pkgLen r.buf := by
  rw [packet, List.length_take, Nat.min_eq_left r.fits]

/-- `curstat`, the four states of the receive machine. -/
inductive CurStat where
  | hdInit
  | hdRecving
  | bdInit
  | bdRecving
  deriving DecidableEq, Repr

/-- The member functions an event handler pointer may name. -/
inductive EventHandler where
  | accept
  | readable
  | writable
  deriving DecidableEq, Repr

/-- A byte position inside an allocated block. -/
structure Ptr where
  block : Nat
  off : Nat
  deriving DecidableEq, Repr

/-- `p_recvbuf`: null, inside a header block or inside a message block. -/
inductive RecvBuf where
  | null
  | header (p : Ptr)
  | message (p : Ptr)
  deriving DecidableEq, Repr

/-- `p_recvbuf + n`. -/
def RecvBuf.add : RecvBuf → Nat → RecvBuf
  | .null, _ => .null
  | .header p, n => .header ⟨p.block, p.off + n⟩
  | .message p, n => .message ⟨p.block, p.off + n⟩

/-- `p_sendbuf` when it is not null: a position in a reply, counted from the
start of its message header. -/
structure SendBuf where
  reply : Reply
  off : Nat
  deriving DecidableEq

/-- The members of `connection_s` that the receive state machine works on. -/
structure Incoming where
  curstat : CurStat
  pHeaderinfo : Option Nat
  pMsgrecv : Option Nat
  recvStr : Option Nat
  pRecvbuf : RecvBuf
  recvlen : Nat
  recvlenAlready : Nat
  deriving DecidableEq

/-- The members of `connection_s` that sending works on. -/
structure Outgoing where
  pMsgsend : Option Reply
  sendStr : Option Reply
  iThrowsendCount : Int
  pSendbuf : Option SendBuf
  sendlen : Nat
  sendlenSuppose : Nat
  sendlenAlready : Nat
  isendCount : Int
  deriving DecidableEq

/-- `connection_s`. The constructor sets only `fd`, `sequence` and the two
shared pointers; every other member of a new object is whatever its memory held. -/
structure Connection extends Incoming, Outgoing where
  fd : Fd
  rhandler : Option EventHandler
  whandler : Option EventHandler
  sequence : Nat
  events : Mask
  inrevyTime : Time
  inrecyList : Int
  pingUpdateTime : Time
  istimeout : Bool
  deriving DecidableEq

/-- A `uint64_t` passed through an `int` parameter and compared with a
`uint64_t` again: 32 bits are kept and the sign bit is extended. -/
def throughInt (n : Nat) : Nat :=
  if n % 2 ^ 32 < 2 ^ 31 then n % 2 ^ 32 else 2 ^ 64 - 2 ^ 32 + n % 2 ^ 32

theorem throughInt_of_lt {n : Nat} (h : n < 2 ^ 31) : throughInt n = n := by
  have hmod : n % 2 ^ 32 = n := Nat.mod_eq_of_lt (by omega)
  rw [throughInt, hmod, if_pos h]

/-- The numbers that come through unchanged. -/
theorem throughInt_eq_iff {n : Nat} :
    throughInt n = n ↔ n < 2 ^ 31 ∨ 2 ^ 64 - 2 ^ 31 ≤ n ∧ n < 2 ^ 64 := by
  rw [throughInt]
  split <;> omega

theorem throughInt_throughInt (n : Nat) : throughInt (throughInt n) = throughInt n := by
  have hrange : throughInt n < 2 ^ 31 ∨
      2 ^ 64 - 2 ^ 31 ≤ throughInt n ∧ throughInt n < 2 ^ 64 := by
    rw [throughInt]
    split <;> omega
  exact throughInt_eq_iff.mpr hrange

namespace Connection

/-- `JudgeOutdate`: the connection is still the one the sequence was read from. -/
def judgeOutdate (conn : Connection) (curSequence : Nat) : Bool :=
  !(conn.fd ≤ 0 || conn.inrecyList == 1 || conn.sequence != throughInt curSequence)

theorem judgeOutdate_iff {conn : Connection} {n : Nat} :
    conn.judgeOutdate n = true ↔
      0 < conn.fd ∧ conn.inrecyList ≠ 1 ∧ conn.sequence = throughInt n := by
  simp [judgeOutdate, and_assoc]

theorem fd_ne_of_judgeOutdate {conn : Connection} {n : Nat} (h : conn.judgeOutdate n = true) :
    conn.fd ≠ -1 := by
  intro hfd
  have hpos := (judgeOutdate_iff.mp h).1
  rw [hfd] at hpos
  exact absurd hpos (by decide)

/-- What `JudgeOutdate` is to find out: the connection is open, not in the recycle list, and
in the use with the sequence `n`. -/
def Current (conn : Connection) (n : Nat) : Prop :=
  conn.fd ≠ -1 ∧ conn.inrecyList ≠ 1 ∧ conn.sequence = n

instance (conn : Connection) (n : Nat) : Decidable (conn.Current n) :=
  inferInstanceAs (Decidable (_ ∧ _))

/-- `JudgeOutdate` finds a current use if it knows the sequence. -/
theorem Current.judgeOutdate_iff {conn : Connection} {n : Nat} (h : conn.Current n) :
    conn.judgeOutdate n = true ↔ 0 < conn.fd ∧ throughInt n = n := by
  obtain ⟨-, hrecy, hseq⟩ := h
  rw [Connection.judgeOutdate_iff, hseq, and_iff_right hrecy, eq_comm]

end Connection

end MyNginx
