import MyNginx.Receive.Bodies
import MyNginx.Requests.Validation

/-!
# Where a connection reads and writes

A header block has eight bytes, a message block has room for the packet it announces and
one byte more. `recv` stores behind `p_recvbuf`; what is left of the block there is what
`recvlen` says. The lengths come from the peer, so they are compared with the blocks once,
in `pkg_header_proc`, and kept in step with the pointer ever after.
-/

namespace MyNginx

open Foundation

/-- A field that lies in the first part of a packet. -/
theorem field_append {pkg : List UInt8} {off len : Nat} (h : off + len ≤ pkg.length)
    (more : List UInt8) : ((pkg ++ more).drop off).take len = (pkg.drop off).take len := by
  rw [List.drop_append_of_le_length (by omega),
    List.take_append_of_le_length (by rw [List.length_drop]; omega)]

namespace Message

/-- The bytes of a message block, its message header included. -/
def size (msg : Message) : Nat := msgHeaderLen + msg.buf.length

/-- The packet is at least a header, and the block ends one byte behind it. -/
structure Sized (msg : Message) : Prop where
  header_le : pkgHeaderLen ≤ pkgLen msg.buf
  length : msg.buf.length = pkgLen msg.buf + 1

instance (msg : Message) : Decidable msg.Sized :=
  decidable_of_iff (pkgHeaderLen ≤ pkgLen msg.buf ∧ msg.buf.length = pkgLen msg.buf + 1)
    ⟨fun h => ⟨h.1, h.2⟩, fun h => ⟨h.1, h.2⟩⟩

/-- What `ThreadRecvProc` reads of a message block, as offsets and lengths: the message
header, the packet header, and the body, whose checksum it computes. -/
def reads (msg : Message) : List (Nat × Nat) :=
  [(0, msgHeaderLen), (msgHeaderLen, pkgHeaderLen),
    (msgHeaderLen + pkgHeaderLen, MyNginx.bodyLen msg.buf)]

variable {msg : Message}

theorem Sized.size_eq (sized : msg.Sized) : msg.size = msgHeaderLen + pkgLen msg.buf + 1 := by
  rw [size, sized.length, Nat.add_assoc]

/-- `pkg_len - PKG_HEADER_LEN` does not wrap around. -/
theorem Sized.bodyLen (sized : msg.Sized) :
    MyNginx.bodyLen msg.buf = pkgLen msg.buf - pkgHeaderLen := by
  have hlt := pkgLen_lt msg.buf
  have hle := sized.header_le
  rw [MyNginx.bodyLen]
  omega

theorem Sized.reads_inside (sized : msg.Sized) :
    ∀ region ∈ msg.reads, region.1 + region.2 ≤ msg.size := by
  have hle := sized.header_le
  have hbody := sized.bodyLen
  have hsize := sized.size_eq
  intro region hregion
  simp only [reads, List.mem_cons, List.not_mem_nil, or_false] at hregion
  rcases hregion with rfl | rfl | rfl
  · simp only [hsize]
    omega
  · simp only [hsize]
    omega
  · simp only [hsize, hbody]
    omega

/-- Bytes stored behind the packet header leave the announced length alone. -/
theorem Sized.overwrite (sized : msg.Sized) {off : Nat} {bytes : List UInt8}
    (behind : pkgHeaderLen ≤ off) (fits : off + bytes.length ≤ msg.buf.length) :
    Sized { msg with buf := overwrite msg.buf off bytes } ∧
      pkgLen (overwrite msg.buf off bytes) = pkgLen msg.buf := by
  have hhead : 2 ≤ off := Nat.le_trans (by decide) behind
  have hlen : pkgLen (Foundation.overwrite msg.buf off bytes) = pkgLen msg.buf := by
    have htake : (msg.buf.take off ++ (bytes ++ msg.buf.drop (off + bytes.length))).take 2 =
        msg.buf.take 2 := by
      rw [List.take_append_of_le_length (by rw [List.length_take]; omega), List.take_take,
        Nat.min_eq_left hhead]
    rw [pkgLen, pkgLen, Foundation.overwrite, List.append_assoc, htake]
  refine ⟨⟨?_, ?_⟩, hlen⟩
  · exact hlen.symm ▸ sized.header_le
  · exact (length_overwrite fits).trans (hlen.symm ▸ sized.length)

end Message

namespace State

variable {s s' t : State} {c : ConnId} {b : Nat} {p : Ptr} {env : Env} {msg : Message} {now : Time}

/-- Bytes behind the block of a message have no influence on how it is handled. -/
theorem threadRecvProc_beyond (sized : msg.Sized) (beyond : List UInt8) :
    s.threadRecvProc { msg with buf := msg.buf ++ beyond } now = s.threadRecvProc msg now := by
  have hle := sized.header_le
  have hlength := sized.length
  have hbody := sized.bodyLen
  have hmin : 8 ≤ msg.buf.length := by simp only [pkgHeaderLen] at hle; omega
  have hlen : pkgLen (msg.buf ++ beyond) = pkgLen msg.buf := pkgLen_append (by omega) beyond
  have hcode : msgCode (msg.buf ++ beyond) = msgCode msg.buf := by
    rw [msgCode, msgCode, field_append (by omega)]
  have hcrc : crc32 (msg.buf ++ beyond) = crc32 msg.buf := by
    rw [crc32, crc32, field_append (by omega)]
  have hbodyLen : bodyLen (msg.buf ++ beyond) = bodyLen msg.buf := by rw [bodyLen, bodyLen, hlen]
  have hpacket : packetBody (msg.buf ++ beyond) = packetBody msg.buf := by
    rw [packetBody, packetBody, hbodyLen, field_append (by omega)]
  have hhandler : ∀ handler, statusHandleset[msgCode msg.buf]? = some (some handler) →
      handler s { msg with buf := msg.buf ++ beyond } now = handler s msg now := by
    intro handler hmem
    have hentry := List.mem_of_getElem? hmem
    simp only [statusHandleset, List.mem_cons, reduceCtorEq, Option.some.injEq, List.not_mem_nil,
      or_false, false_or] at hentry
    rcases hentry with rfl | rfl | rfl
    · simp only [handlePing, hlen, replyTo]
    · simp only [handleRegister, handleStruct, hlen, replyTo]
    · simp only [handleLogin, handleStruct, hlen, replyTo]
  rw [threadRecvProc_tests, threadRecvProc_tests, hcode, hcrc, hbodyLen, hpacket]
  cases hentry : statusHandleset[msgCode msg.buf]? with
  | none => rfl
  | some entry =>
      cases entry with
      | none => rfl
      | some handler => simp only [hhandler handler hentry]

/-- Header blocks have eight bytes; message blocks, and the messages handed over, have room
for the packet they announce. -/
structure Fitted (s : State) : Prop where
  headers : ∀ b block, s.memory.get b = some block → block.length = pkgHeaderLen
  messages : ∀ b msg, s.messages.get b = some msg → msg.Sized
  queue : ∀ m ∈ s.msgqueue, ∃ msg, m = some msg ∧ msg.Sized

/-- A body is being received. -/
def InBodyState (s : State) (c : ConnId) : Prop :=
  (s.conn c).curstat = .bdInit ∨ (s.conn c).curstat = .bdRecving

/-- `p_recvbuf` and `recvlen` of a connection that is receiving a body: they stand behind
the packet header, and reach to the end of the packet if the block is still there. -/
structure Writing (s : State) (c : ConnId) (p : Ptr) : Prop where
  buf : (s.conn c).pRecvbuf = .message p
  behind : msgHeaderLen + pkgHeaderLen ≤ p.off
  first : (s.conn c).curstat = .bdInit → p.off = msgHeaderLen + pkgHeaderLen
  wanted : (s.conn c).recvlen ≠ 0
  upto : ∀ msg, s.messages.get p.block = some msg →
    p.off + (s.conn c).recvlen = msgHeaderLen + pkgLen msg.buf

theorem Fitted.of_fewer (fitted : s.Fitted)
    (headers : ∀ b block, s'.memory.get b = some block → s.memory.get b = some block)
    (messages : ∀ b msg, s'.messages.get b = some msg → s.messages.get b = some msg)
    (queue : ∀ m ∈ s'.msgqueue, m ∈ s.msgqueue) : s'.Fitted :=
  ⟨fun b block h => fitted.headers b block (headers b block h),
    fun b msg h => fitted.messages b msg (messages b msg h), fun m h => fitted.queue m (queue m h)⟩

/-- The block holds a packet of the same length, or it is gone. -/
theorem Writing.congr (writing : Writing s c p)
    (buf : (s'.conn c).pRecvbuf = (s.conn c).pRecvbuf)
    (state : (s'.conn c).curstat = (s.conn c).curstat)
    (recvlen : (s'.conn c).recvlen = (s.conn c).recvlen)
    (messages : ∀ msg, s'.messages.get p.block = some msg → s.messages.get p.block = some msg) :
    Writing s' c p := by
  refine ⟨buf.trans writing.buf, writing.behind, ?_, ?_, fun msg hmsg => ?_⟩
  · rw [state]
    exact writing.first
  · rw [recvlen]
    exact writing.wanted
  · rw [recvlen]
    exact writing.upto msg (messages msg hmsg)

theorem Fitted.withoutMsgrecv (fitted : s.Fitted) (memory : s'.memory = s.memory)
    (messages : s'.messages = s.withoutMsgrecv c) (queue : s'.msgqueue = s.msgqueue) :
    s'.Fitted :=
  fitted.of_fewer (fun _ _ h => memory ▸ h)
    (fun _ _ h => get_withoutMsgrecv (c := c) (messages ▸ h)) fun _ h => queue ▸ h

theorem Fitted.freeMemory (fitted : s.Fitted) {info : Option Nat}
    (h : s.freeMemory info = some s') : s'.Fitted := by
  cases info with
  | none =>
      obtain rfl := Option.some.inj h
      exact fitted
  | some b =>
      obtain ⟨memory, hfree, rfl⟩ := Option.map_eq_some_iff.mp h
      obtain ⟨_, -, rfl⟩ := Heap.free_eq_some.mp hfree
      exact fitted.of_fewer (fun _ _ => Heap.get_release_some) (fun _ _ => id) fun _ => id

/-- A complete packet is handed over in a block of the right size. -/
theorem pkgBodyProc_fitted (fitted : s.Fitted)
    (live : (s.conn c).pMsgrecv.bind s.messages.get = some msg)
    (h : s.pkgBodyProc c = some s') : s'.Fitted ∧ (s'.conn c).curstat = .hdInit := by
  simp only [pkgBodyProc, live] at h
  obtain ⟨t, ht, rfl⟩ := Option.map_eq_some_iff.mp h
  have hsized : msg.Sized := by
    obtain ⟨b, -, hb⟩ := Option.bind_eq_some_iff.mp live
    exact fitted.messages b msg hb
  have hqueue : (s.inMsgRecv (some msg)).Fitted := by
    refine ⟨fitted.headers, fitted.messages, fun m hm => ?_⟩
    rcases List.mem_append.mp hm with hold | hnew
    · exact fitted.queue m hold
    · exact ⟨msg, List.mem_singleton.mp hnew, hsized⟩
  have hnull : ((s.inMsgRecv (some msg)).modifyConn c fun conn =>
      { conn with pRecvbuf := .null }).Fitted := { hqueue with }
  have hforget : (((s.inMsgRecv (some msg)).modifyConn c fun conn =>
      { conn with pRecvbuf := .null }).forgetMsgrecv c).Fitted :=
    hnull.withoutMsgrecv (c := c) rfl rfl rfl
  have hfree := hforget.freeMemory ht
  exact ⟨hfree.withoutMsgrecv (c := c) rfl rfl rfl, by simp [Incoming.start]⟩

/-- The block for an accepted header has the size the header announces. -/
theorem sized_stampedMessage {header : List UInt8} (length : header.length = pkgHeaderLen)
    (good : pkgHeaderLen ≤ pkgLen header) :
    (s.stampedMessage c header (pkgLen header - pkgHeaderLen)).Sized ∧
      pkgLen (s.stampedMessage c header (pkgLen header - pkgHeaderLen)).buf = pkgLen header := by
  have htake : header.take pkgHeaderLen = header := List.take_of_length_le (Nat.le_of_eq length)
  have hlen : pkgLen (s.stampedMessage c header (pkgLen header - pkgHeaderLen)).buf =
      pkgLen header := by
    rw [stampedMessage, htake]
    exact pkgLen_append (by rw [length]; decide) _
  refine ⟨⟨hlen.symm ▸ good, ?_⟩, hlen⟩
  rw [hlen, stampedMessage, htake, List.length_append, List.length_replicate, length]
  omega

theorem Fitted.allocMessage (fitted : s.Fitted) {header : List UInt8}
    (length : header.length = pkgHeaderLen) (good : pkgHeaderLen ≤ pkgLen header) :
    (s.allocMessage c header (pkgLen header - pkgHeaderLen)).Fitted := by
  refine ⟨fitted.headers, fun b msg hb => ?_, fitted.queue⟩
  rw [allocMessage_toBlocks] at hb
  by_cases hnew : b = (s.withoutMsgrecv c).next
  · rw [hnew, Heap.get_alloc_self] at hb
    obtain rfl := Option.some.inj hb
    exact (sized_stampedMessage length good).1
  · rw [Heap.get_alloc_ne hnew] at hb
    exact fitted.messages b msg (get_withoutMsgrecv hb)

/-- A header is refused; or its message block is allocated, and the connection writes to it
or hands it over. -/
theorem pkgHeaderProc_fitted (fitted : s.Fitted) (h : s.pkgHeaderProc c = some s') :
    s'.Fitted ∧ (s'.InBodyState c →
      ∃ p, Writing s' c p ∧ (s'.conn c).pMsgrecv = some p.block) := by
  simp only [pkgHeaderProc] at h
  obtain ⟨b, -, h⟩ := Option.bind_eq_some_iff.mp h
  obtain ⟨header, hlive, h⟩ := Option.bind_eq_some_iff.mp h
  have hlength := fitted.headers b header hlive
  split at h
  · obtain ⟨t, ht, rfl⟩ := Option.map_eq_some_iff.mp h
    exact ⟨{ fitted.freeMemory ht with }, fun hbody => by simp [InBodyState] at hbody⟩
  next hgood =>
    have hle : pkgHeaderLen ≤ pkgLen header := Nat.le_of_not_lt fun hlt => hgood (.inl hlt)
    have halloc := fitted.allocMessage (c := c) hlength hle
    split at h
    · have hnew : ((s.allocMessage c header (pkgLen header - pkgHeaderLen)).conn c).pMsgrecv.bind
          (s.allocMessage c header (pkgLen header - pkgHeaderLen)).messages.get =
            some (s.stampedMessage c header (pkgLen header - pkgHeaderLen)) := by
        rw [allocMessage_conn, Function.update_self]
        exact Heap.get_alloc_self _ _
      have hproc := pkgBodyProc_fitted halloc hnew h
      exact ⟨hproc.1, fun hbody => by simp [InBodyState, hproc.2] at hbody⟩
    next hbody =>
      obtain rfl := Option.some.inj h
      refine ⟨{ halloc with }, fun _ =>
        ⟨⟨(s.withoutMsgrecv c).next, msgHeaderLen + pkgHeaderLen⟩, ?_, by simp⟩⟩
      refine ⟨by simp, Nat.le_refl _, fun _ => rfl, by simpa using hbody, fun msg hmsg => ?_⟩
      simp only [modifyConn_toBlocks, allocMessage_toBlocks, Heap.get_alloc_self,
        Option.some.injEq] at hmsg
      subst hmsg
      rw [(sized_stampedMessage hlength hle).2]
      simp only [modifyConn_conn, allocMessage_conn, Function.update_self]
      omega

/-- What a call of `recvproc` comes to. -/
inductive Recvs (s : State) (c : ConnId) (buf : RecvBuf) (len : Nat) (env : Env) :
    State → Option Nat → Prop
  | nothing (starves : s.Starves c env) : Recvs s c buf len env s none
  | closed (starves : s.Starves c env) (opened : (s.conn c).fd ≠ -1) :
      Recvs s c buf len env (s.afterClose c env.now) none
  | interrupted (fed : ¬ s.Starves c env) : Recvs s c buf len env s (some 0)
  | stored {bytes : List UInt8} {t : State} (opened : s.openFds (s.conn c).fd = true)
      (pos : 1 ≤ bytes.length) (le : bytes.length ≤ len) (store : s.store buf bytes = some t) :
      Recvs s c buf len env t (some bytes.length)

theorem recvproc_recvs (idle : s.Idle c) {buf : RecvBuf} {len : Nat} {r : Option Nat}
    (h : s.recvproc c buf len env = some (t, r)) : Recvs s c buf len env t r := by
  by_cases hstarves : s.Starves c env
  · obtain ⟨rfl, rfl | ⟨hfd, rfl⟩⟩ := recvproc_unfed idle hstarves h
    · exact .nothing hstarves
    · exact .closed hstarves hfd
  · rcases recvproc_fed hstarves h with ⟨rfl, rfl⟩ | ⟨bytes, -, hpos, hle, hopen, hstore, rfl⟩
    · exact .interrupted hstarves
    · exact .stored hopen hpos hle hstore

theorem store_message_eq {bytes : List UInt8} (h : s.store (.message p) bytes = some t) :
    ∃ msg, s.messages.get p.block = some msg ∧
      p.off - msgHeaderLen + bytes.length ≤ msg.buf.length ∧
      t = s.setMessages (s.messages.set p.block
        { msg with buf := overwrite msg.buf (p.off - msgHeaderLen) bytes }) := by
  obtain ⟨messages, hupdate, rfl⟩ := Option.map_eq_some_iff.mp h
  obtain ⟨msg, msg', hlive, hstore, rfl⟩ := Heap.update_eq_some.mp hupdate
  split at hstore
  next hfits =>
    obtain rfl := Option.some.inj hstore
    exact ⟨msg, hlive, hfits.2, rfl⟩
  next => cases hstore

theorem Fitted.store (fitted : s.Fitted) {buf : RecvBuf} {bytes : List UInt8}
    (behind : ∀ p, buf = .message p → msgHeaderLen + pkgHeaderLen ≤ p.off)
    (h : s.store buf bytes = some t) : t.Fitted := by
  cases buf with
  | null => cases h
  | header p =>
      obtain ⟨memory, hupdate, rfl⟩ := Option.map_eq_some_iff.mp h
      obtain ⟨block, block', hlive, hstore, rfl⟩ := Heap.update_eq_some.mp hupdate
      split at hstore
      next hfits =>
        obtain rfl := Option.some.inj hstore
        refine ⟨fun b block' hb => ?_, fitted.messages, fitted.queue⟩
        by_cases hp : b = p.block
        · rw [hp, setMemory_toBlocks, Heap.get_set_self] at hb
          obtain rfl := Option.some.inj hb
          exact (length_overwrite hfits).trans (fitted.headers _ _ hlive)
        · rw [setMemory_toBlocks, Heap.get_set_ne hp] at hb
          exact fitted.headers b block' hb
      next => cases hstore
  | message p =>
      obtain ⟨msg, hlive, hfits, rfl⟩ := store_message_eq h
      have hbehind := behind p rfl
      refine ⟨fitted.headers, fun b msg' hb => ?_, fitted.queue⟩
      by_cases hp : b = p.block
      · rw [hp, setMessages_toBlocks, Heap.get_set_self] at hb
        obtain rfl := Option.some.inj hb
        exact ((fitted.messages _ _ hlive).overwrite (by omega) hfits).1
      · rw [setMessages_toBlocks, Heap.get_set_ne hp] at hb
        exact fitted.messages b msg' hb

theorem Fitted.afterClose (fitted : s.Fitted) (now : Time) : (s.afterClose c now).Fitted :=
  fitted.of_fewer (fun _ _ => id) (fun _ _ => id) fun _ => id

/-- The header states: at the end a body is being received only where its block has just
been allocated. -/
theorem receiveHeader_fitted (fitted : s.Fitted) (idle : s.Idle c)
    (state : (s.conn c).curstat = .hdInit ∨ (s.conn c).curstat = .hdRecving)
    (buf : s.openFds (s.conn c).fd = true → ∃ p, (s.conn c).pRecvbuf = .header p)
    (h : s.receiveHeader c env = some s') :
    s'.Fitted ∧ (s'.InBodyState c →
      ∃ p, Writing s' c p ∧ (s'.conn c).pMsgrecv = some p.block) := by
  have hstate : ¬ ((s.conn c).curstat ≠ .hdInit ∧ (s.conn c).curstat ≠ .hdRecving) :=
    or_iff_not_and_not.mp state
  have hheader : ∀ t : State, (t.conn c).curstat = (s.conn c).curstat → ¬ t.InBodyState c := by
    rintro t ht (hbody | hbody) <;> rcases state with hs | hs <;>
      exact absurd ((hs.symm.trans ht.symm).trans hbody) nofun
  have hfinish : ∀ (u : State) (n : Nat), u.Fitted →
      (if n = (s.conn c).recvlen then (u.advance c n).pkgHeaderProc c
        else some ((u.advance c n).modifyConn c fun conn => { conn with curstat := .hdRecving })) =
          some s' →
      s'.Fitted ∧ (s'.InBodyState c →
        ∃ p, Writing s' c p ∧ (s'.conn c).pMsgrecv = some p.block) := by
    intro u n hu hs'
    have hread : (u.advance c n).Fitted := { hu with }
    split at hs'
    · exact pkgHeaderProc_fitted hread hs'
    · obtain rfl := Option.some.inj hs'
      exact ⟨{ hread with }, fun hbody => by simp [InBodyState] at hbody⟩
  simp only [receiveHeader, pkgHeaderRecv, if_neg hstate] at h
  cases hproc : s.recvproc c (s.conn c).pRecvbuf (s.conn c).recvlen env with
  | none =>
      rw [hproc] at h
      cases h
  | some out =>
      obtain ⟨t, r⟩ := out
      rw [hproc] at h
      have hrecvs := recvproc_recvs idle hproc
      cases hrecvs with
      | nothing =>
          obtain rfl := Option.some.inj h
          exact ⟨fitted, fun hbody => absurd hbody (hheader _ rfl)⟩
      | closed =>
          obtain rfl := Option.some.inj h
          exact ⟨fitted.afterClose env.now,
            fun hbody => absurd hbody (hheader _ (by simp [State.afterClose]))⟩
      | interrupted => exact hfinish _ _ fitted h
      | stored opened pos le hstore =>
          obtain ⟨q, hq⟩ := buf opened
          refine hfinish _ _ (fitted.store (fun p hp => ?_) hstore) h
          rw [hq] at hp
          cases hp

/-- A store into the message that is being received. -/
theorem Writing.store (writing : Writing s c p) (fitted : s.Fitted) (minds : s.Minds c)
    {bytes : List UInt8} (h : s.store (s.conn c).pRecvbuf bytes = some t) :
    t.Fitted ∧ t.conn = s.conn ∧ (s.conn c).pMsgrecv = some p.block ∧
      ∃ msg msg', s.messages.get p.block = some msg ∧ t.messages.get p.block = some msg' ∧
        pkgLen msg'.buf = pkgLen msg.buf := by
  have hbehind := writing.behind
  have hfitted := fitted.store (fun q hq => by
    obtain rfl := RecvBuf.message.inj (writing.buf.symm.trans hq)
    exact hbehind) h
  rw [writing.buf] at h
  obtain ⟨msg, hmsg, hfits, rfl⟩ := store_message_eq h
  refine ⟨hfitted, rfl, ?_, msg, _, hmsg, Heap.get_set_self _ _ _, ?_⟩
  · rcases minds.buffer p writing.buf with hown | hgone
    · exact hown
    · rw [hgone.2] at hmsg
      cases hmsg
  · exact ((fitted.messages _ _ hmsg).overwrite (by omega) hfits).2

/-- What a read that does not complete the body leaves. -/
theorem Writing.advance (writing : Writing s c p) {n : Nat} (short : n < (s.conn c).recvlen)
    (buf : (t.conn c).pRecvbuf = (s.conn c).pRecvbuf)
    (recvlen : (t.conn c).recvlen = (s.conn c).recvlen)
    (messages : ∀ msg', t.messages.get p.block = some msg' →
      ∃ msg, s.messages.get p.block = some msg ∧ pkgLen msg'.buf = pkgLen msg.buf) :
    Writing ((t.advance c n).modifyConn c fun conn => { conn with curstat := .bdRecving }) c
      ⟨p.block, p.off + n⟩ where
  buf := by simp [State.advance, recvlen, short, buf, writing.buf, RecvBuf.add]
  behind := Nat.le_trans writing.behind (Nat.le_add_right _ _)
  first h := by simp at h
  wanted := by
    simp only [State.advance, modifyConn_conn, Function.update_self, recvlen, if_pos short]
    omega
  upto msg' hmsg' := by
    obtain ⟨msg, hmsg, hlen⟩ := messages msg' hmsg'
    have hupto := writing.upto msg hmsg
    simp only [State.advance, modifyConn_conn, Function.update_self, recvlen, if_pos short, hlen]
    omega

/-- A body comes to an end, or the connection goes on writing to its block. While it gets
something it keeps the block. -/
theorem receiveBody_fitted (fitted : s.Fitted) (idle : s.Idle c) (minds : s.Minds c)
    (state : s.InBodyState c) (shut : s.openFds (-1) = false)
    (writing : (s.conn c).fd ≠ -1 → Writing s c p) (h : s.receiveBody c env = some s') :
    s'.Fitted ∧ ((s'.conn c).fd ≠ -1 → s'.InBodyState c → ∃ p', Writing s' c p' ∧
      (¬ s.Starves c env → (s.conn c).pMsgrecv = some p.block →
        (s'.conn c).pMsgrecv = some p'.block)) := by
  have hstate : ¬ ((s.conn c).curstat ≠ .bdInit ∧ (s.conn c).curstat ≠ .bdRecving) :=
    or_iff_not_and_not.mp state
  have hlive : s.openFds (s.conn c).fd = true → (s.conn c).fd ≠ -1 := by
    intro hopen hfd
    rw [hfd, shut] at hopen
    cases hopen
  simp only [receiveBody, pkgBodyRecv, if_neg hstate] at h
  cases hproc : s.recvproc c (s.conn c).pRecvbuf (s.conn c).recvlen env with
  | none =>
      rw [hproc] at h
      cases h
  | some out =>
      obtain ⟨t, r⟩ := out
      rw [hproc] at h
      have hrecvs := recvproc_recvs idle hproc
      cases hrecvs with
      | nothing starves =>
          obtain rfl := Option.some.inj h
          refine ⟨fitted.withoutMsgrecv (c := c) rfl rfl rfl, fun hfd _ => ⟨p, ?_, fun hfed =>
            absurd starves hfed⟩⟩
          exact (writing (by simpa using hfd)).congr (by simp) (by simp) (by simp)
            fun _ => get_withoutMsgrecv
      | closed starves opened =>
          obtain rfl := Option.some.inj h
          refine ⟨(fitted.afterClose env.now).withoutMsgrecv (c := c) rfl rfl rfl, fun hfd => ?_⟩
          exact absurd (by simp [State.afterClose]) hfd
      | interrupted fed =>
          have hopen : s.openFds (s.conn c).fd = true := by
            by_contra hclosed
            exact fed (.of_closed (by simpa using hclosed))
          have hwriting := writing (hlive hopen)
          have hwanted := hwriting.wanted
          simp only at h
          rw [if_neg (by omega)] at h
          obtain rfl := Option.some.inj h
          refine ⟨{ fitted with }, fun _ _ => ⟨_, hwriting.advance (n := 0) (by omega) rfl rfl
            fun msg hmsg => ⟨msg, hmsg, rfl⟩, fun _ hown => by simpa [State.advance] using hown⟩⟩
      | @stored bytes t opened pos le hstore =>
          have hwriting := writing (hlive opened)
          obtain ⟨hstored, hconn, hown, msg, msg', hmsg, hmsg', hlen⟩ :=
            hwriting.store fitted minds hstore
          have hread : (t.advance c bytes.length).Fitted := { hstored with }
          have hcopy : ((t.advance c bytes.length).conn c).pMsgrecv = some p.block := by
            simpa [State.advance, hconn] using hown
          simp only at h
          split at h
          · have hready : ((t.advance c bytes.length).conn c).pMsgrecv.bind
                (t.advance c bytes.length).messages.get = some msg' := by
              rw [hcopy]
              exact hmsg'
            have hdone := pkgBodyProc_fitted hread hready h
            exact ⟨hdone.1, fun _ hbody => by simp [InBodyState, hdone.2] at hbody⟩
          next hshort =>
            obtain rfl := Option.some.inj h
            refine ⟨{ hread with }, fun _ _ => ⟨_, hwriting.advance (by omega) (by rw [hconn])
              (by rw [hconn]) fun msg'' hmsg'' => ⟨msg, hmsg, ?_⟩, fun _ _ => by simpa using hcopy⟩⟩
            obtain rfl := Option.some.inj (hmsg'.symm.trans hmsg'')
            exact hlen

theorem Fitted.allocHeader (fitted : s.Fitted) : (s.allocHeader c).Fitted := by
  refine ⟨fun b block hb => ?_, fitted.messages, fitted.queue⟩
  rw [allocHeader_toBlocks] at hb
  by_cases hnew : b = s.memory.next
  · rw [hnew, Heap.get_alloc_self] at hb
    obtain rfl := Option.some.inj hb
    exact List.length_replicate
  · rw [Heap.get_alloc_ne hnew] at hb
    exact fitted.headers b block hb

/-- While a body is being received, `p_msgrecv` owns the block that `p_recvbuf` points into. -/
def OwnsBody (s : State) (c : ConnId) : Prop :=
  s.InBodyState c → ∀ p, (s.conn c).pRecvbuf = .message p → (s.conn c).pMsgrecv = some p.block

/-- What a readable event makes of the connection it is for. -/
structure ReadsOn (s s' : State) (c : ConnId) (env : Env) : Prop where
  fitted : s'.Fitted
  writing : s'.Open c → s'.InBodyState c → ∃ p, Writing s' c p
  owns : s'.Open c → ¬ s.Starves c env → s.OwnsBody c → s'.OwnsBody c

/-- A state whose bodies are written to by their owners. -/
theorem ReadsOn.of_owned (fitted : s'.Fitted)
    (owned : s'.InBodyState c → ∃ p, Writing s' c p ∧ (s'.conn c).pMsgrecv = some p.block) :
    ReadsOn s s' c env where
  fitted := fitted
  writing _ state := by
    obtain ⟨p, hp, -⟩ := owned state
    exact ⟨p, hp⟩
  owns _ _ _ state p hp := by
    obtain ⟨q, hq, howner⟩ := owned state
    obtain rfl := RecvBuf.message.inj (hq.buf.symm.trans hp)
    exact howner

theorem receiveBody_written (fitted : s.Fitted) (inv : s.Inv) (used : s.Used c)
    (minds : s.Minds c) (shut : s.openFds (-1) = false) (state : s.InBodyState c)
    (writing : s.Open c → s.InBodyState c → ∃ p, Writing s c p)
    (opened : s'.Open c → s.Open c) (h : s.receiveBody c env = some s') :
    ReadsOn s s' c env := by
  have hidle := inv.idle_of_used used
  by_cases hfd : (s.conn c).fd = -1
  · have hdone := receiveBody_fitted (p := ⟨0, 0⟩) fitted hidle minds state shut (absurd hfd) h
    exact ⟨hdone.1, fun hopen => absurd hfd (opened hopen).2,
      fun hopen => absurd hfd (opened hopen).2⟩
  · obtain ⟨p, hp⟩ := writing ⟨used, hfd⟩ state
    obtain ⟨hfitted, hdone⟩ := receiveBody_fitted fitted hidle minds state shut (fun _ => hp) h
    refine ⟨hfitted, fun hopen hstate => ?_, fun hopen hfed howns hstate q hq => ?_⟩
    · obtain ⟨p', hp', -⟩ := hdone hopen.2 hstate
      exact ⟨p', hp'⟩
    · obtain ⟨p', hp', howner⟩ := hdone hopen.2 hstate
      obtain rfl := RecvBuf.message.inj (hp'.buf.symm.trans hq)
      exact howner hfed (howns state p hp.buf)

theorem readable_written (fitted : s.Fitted) (inv : s.Inv) (used : s.Used c) (headers : s.Headers)
    (minds : s.Minds c) (writing : s.Open c → s.InBodyState c → ∃ p, Writing s c p)
    (h : s.eventReadableRequestHandler c env = some s') : ReadsOn s s' c env := by
  have hidle := inv.idle_of_used used
  have hshut : s.openFds (-1) = false := by
    by_contra hopen
    exact absurd (inv.wired.nonneg (-1) (by simpa using hopen)) (by decide)
  have hopens : s.openFds (s.conn c).fd = true → s.Open c := by
    refine fun hopen => ⟨used, fun hfd => ?_⟩
    rw [hfd, hshut] at hopen
    cases hopen
  have hopened : s'.Open c → s.Open c := (readable_frame hidle h).opened
  have hsame : ReadsOn s s c env := ⟨fitted, writing, fun _ _ howns => howns⟩
  simp only [eventReadableRequestHandler] at h
  cases hstate : (s.conn c).curstat with
  | hdInit =>
      rw [hstate] at h
      obtain ⟨hfitted, howned⟩ := receiveHeader_fitted fitted.allocHeader
        (hidle.receiveOnly ⟨_, _, _, rfl⟩) (.inl (by simpa using hstate))
        (fun _ => ⟨_, by simp; rfl⟩) h
      exact .of_owned hfitted howned
  | hdRecving =>
      rw [hstate] at h
      simp only at h
      split at h
      · obtain rfl := Option.some.inj h
        exact hsame
      · have hbuf : s.openFds (s.conn c).fd = true → ∃ p, (s.conn c).pRecvbuf = .header p := by
          intro hopen
          obtain ⟨b, hholding⟩ := headers.holding c (hopens hopen) (by simp [hstate])
          cases hholding with
          | header _ inside => exact ⟨_, inside.buf⟩
          | body state => simp [hstate] at state
        obtain ⟨hfitted, howned⟩ := receiveHeader_fitted fitted hidle (.inr hstate) hbuf h
        exact .of_owned hfitted howned
  | bdInit =>
      rw [hstate] at h
      simp only at h
      split at h
      · obtain rfl := Option.some.inj h
        exact hsame
      · exact receiveBody_written fitted inv used minds hshut (.inl hstate) writing hopened h
  | bdRecving =>
      rw [hstate] at h
      simp only at h
      split at h
      · obtain rfl := Option.some.inj h
        exact hsame
      · exact receiveBody_written fitted inv used minds hshut (.inr hstate) writing hopened h

end State

end MyNginx
