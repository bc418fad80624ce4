import MyNginx.Foundation.Framing
import MyNginx.Net.Request

/-!
# The receive state machine follows the packet format

`packetFormat` is the format of the byte stream a client sends. `Progress s c
got` ties the fields of the receive state machine to `got`, the bytes received
so far of the packet being assembled: where the write pointer stands, how many
bytes are still wanted, and that the buffer in use holds exactly `got`.

Each receiver is described once, for a read of some bytes and for a read that
is interrupted; `readable_data` and `readable_eintr` put them together to one
readable event.
-/

namespace MyNginx

open Foundation

/-- Eight header bytes whose length field announces the body; lengths below 8
and above 29000 are refused. -/
def packetFormat : Format UInt8 where
  headLen := pkgHeaderLen
  headLen_pos := by decide
  bodyLen header :=
    if pkgLen header < pkgHeaderLen ∨ pkgLen header > pkgMaxLength - 1000 then none
    else some (pkgLen header - pkgHeaderLen)

/-- The message block for a packet of which `got` has been received. -/
def packetMessage (c : ConnId) (seq use : Nat) (packet : List UInt8) : Message :=
  ⟨⟨c, seq⟩, use, packet ++ [0]⟩

namespace State

/-- A header block is in use and holds `got`, the write pointer is behind it. -/
structure InHeader (s : State) (c : ConnId) (b : Nat) (block got : List UInt8) : Prop where
  info : (s.conn c).pHeaderinfo = some b
  live : s.memory.get b = some block
  length : block.length = pkgHeaderLen
  holds : block.take got.length = got
  short : got.length < pkgHeaderLen
  buf : (s.conn c).pRecvbuf = .header ⟨b, got.length⟩
  wanted : (s.conn c).recvlen = pkgHeaderLen - got.length

/-- A message block is in use: it starts with the header and the part of the
body received, the write pointer is behind them. -/
structure InBody (s : State) (c : ConnId) (m : Nat) (msg : Message) (got : List UInt8)
    (n : Nat) : Prop where
  info : ∃ b header, (s.conn c).pHeaderinfo = some b ∧ s.memory.get b = some header
  owner : (s.conn c).pMsgrecv = some m
  live : s.messages.get m = some msg
  header_le : pkgHeaderLen ≤ got.length
  announced : packetFormat.bodyLen (got.take pkgHeaderLen) = some n
  short : got.length < pkgHeaderLen + n
  length : msg.buf.length = pkgHeaderLen + n + 1
  holds : msg.buf.take got.length = got
  terminated : msg.buf.drop (pkgHeaderLen + n) = [0]
  buf : (s.conn c).pRecvbuf = .message ⟨m, msgHeaderLen + got.length⟩
  wanted : (s.conn c).recvlen = pkgHeaderLen + n - got.length

/-- How far the packet being received has come. -/
inductive Progress (s : State) (c : ConnId) (seq use : Nat) : List UInt8 → Prop
  | start (state : (s.conn c).curstat = .hdInit) : Progress s c seq use []
  | header {b : Nat} {block got : List UInt8} (state : (s.conn c).curstat = .hdRecving)
      (inside : InHeader s c b block got) : Progress s c seq use got
  | body {m n : Nat} {msg : Message} {got : List UInt8}
      (state : (s.conn c).curstat = .bdInit ∨ (s.conn c).curstat = .bdRecving)
      (stamped : msg.head = ⟨c, seq⟩ ∧ msg.origin = use)
      (inside : InBody s c m msg got n) : Progress s c seq use got

/-- The connection is open, in use number `use`, and has received `got` of a packet. -/
structure Receiving (s : State) (c : ConnId) (seq use : Nat) (got : List UInt8) : Prop where
  opened : s.openFds (s.conn c).fd = true
  sequence : (s.conn c).sequence = seq
  uses : s.history.use c = use
  progress : Progress s c seq use got

variable {s s' : State} {c : ConnId} {b m n seq use : Nat} {msg : Message}
variable {block got bytes : List UInt8} {env : Env}

theorem recvproc_data (open_ : s.openFds (s.conn c).fd = true) {buf : RecvBuf} (len : Nat)
    (recv : env.recv = .data bytes) (pos : 1 ≤ bytes.length) (le : bytes.length ≤ len)
    (stored : s.store buf bytes = some s') :
    s.recvproc c buf len env = some (s', some bytes.length) := by
  simp only [recvproc, sysRecv, open_, if_true, recv, pos, le, and_self, stored, Option.map_some]

theorem recvproc_eintr (open_ : s.openFds (s.conn c).fd = true) (buf : RecvBuf) (len : Nat)
    (recv : env.recv = .failed .eintr) : s.recvproc c buf len env = some (s, some 0) := by
  simp only [recvproc, sysRecv, open_, if_true, recv]

theorem store_header (bytes : List UInt8) (live : s.memory.get b = some block) (off : Nat)
    (fits : off + bytes.length ≤ block.length) :
    s.store (.header ⟨b, off⟩) bytes =
      some (s.setMemory (s.memory.set b (overwrite block off bytes))) := by
  rw [store, Heap.update_of_get live (if_pos fits), Option.map_some]

theorem store_message (bytes : List UInt8) (live : s.messages.get m = some msg) (off : Nat)
    (fits : off + bytes.length ≤ msg.buf.length) :
    s.store (.message ⟨m, msgHeaderLen + off⟩) bytes =
      some (s.setMessages
        (s.messages.set m { msg with buf := overwrite msg.buf off bytes })) := by
  have hoff : msgHeaderLen + off - msgHeaderLen = off := Nat.add_sub_cancel_left _ _
  rw [store, Heap.update_of_get live (if_pos ⟨Nat.le_add_right _ _, by rwa [hoff]⟩),
    Option.map_some, hoff]

/-- The receive state itself is not part of `InHeader`. -/
theorem InHeader.setCurstat (inside : InHeader s c b block got) (state : CurStat) :
    InHeader (s.modifyConn c fun conn => { conn with curstat := state }) c b block got where
  info := by simpa using inside.info
  live := inside.live
  length := inside.length
  holds := inside.holds
  short := inside.short
  buf := by simpa using inside.buf
  wanted := by simpa using inside.wanted

theorem InBody.setCurstat (inside : InBody s c m msg got n) (state : CurStat) :
    InBody (s.modifyConn c fun conn => { conn with curstat := state }) c m msg got n where
  info := by simpa using inside.info
  owner := by simpa using inside.owner
  live := inside.live
  header_le := inside.header_le
  announced := inside.announced
  short := inside.short
  length := inside.length
  holds := inside.holds
  terminated := inside.terminated
  buf := by simpa using inside.buf
  wanted := by simpa using inside.wanted

/-- What a read leaves alone: the descriptor, the sequence and the use. -/
structure Kept (s s' : State) (c : ConnId) : Prop where
  openFds : s'.openFds = s.openFds
  fd : (s'.conn c).fd = (s.conn c).fd
  sequence : (s'.conn c).sequence = (s.conn c).sequence
  history : s'.history = s.history

theorem Kept.trans {s t u : State} (h : Kept s t c) (h' : Kept t u c) : Kept s u c :=
  ⟨h'.openFds.trans h.openFds, h'.fd.trans h.fd, h'.sequence.trans h.sequence,
    h'.history.trans h.history⟩

theorem Receiving.of_kept (h : Receiving s c seq use got) (kept : Kept s s' c)
    {got' : List UInt8} (progress : Progress s' c seq use got') :
    Receiving s' c seq use got' where
  opened := by rw [kept.openFds, kept.fd, h.opened]
  sequence := kept.sequence.trans h.sequence
  uses := by rw [kept.history, h.uses]
  progress := progress

/-- A complete packet is handed over and the machine starts again. -/
theorem pkgBodyProc_spec (info : (s.conn c).pHeaderinfo = some b)
    (allocated : s.memory.get b = some block) (owner : (s.conn c).pMsgrecv = some m)
    (live : s.messages.get m = some msg) :
    ∃ s', s.pkgBodyProc c = some s' ∧ s'.msgqueue = s.msgqueue ++ [some msg] ∧
      (s'.conn c).curstat = .hdInit ∧ Kept s s' c := by
  have hfree : s.memory.free b = some (s.memory.release b) :=
    Heap.free_eq_some.mpr ⟨block, allocated, rfl⟩
  simp only [pkgBodyProc, owner, Option.bind_some, live]
  simp [forgetMsgrecv, freeMemory, info, hfree, Incoming.start]
  constructor <;> simp

/-- A refused header is dropped. -/
theorem pkgHeaderProc_bad (info : (s.conn c).pHeaderinfo = some b)
    (live : s.memory.get b = some block) (bad : packetFormat.bodyLen block = none) :
    ∃ s', s.pkgHeaderProc c = some s' ∧ s'.msgqueue = s.msgqueue ∧
      (s'.conn c).curstat = .hdInit ∧ Kept s s' c := by
  have hfree : s.memory.free b = some (s.memory.release b) :=
    Heap.free_eq_some.mpr ⟨block, live, rfl⟩
  have hbad : pkgLen block < pkgHeaderLen ∨ pkgLen block > pkgMaxLength - 1000 := by
    by_contra hgood
    simp [packetFormat, hgood] at bad
  simp only [pkgHeaderProc, info, live, Option.bind_some, if_pos hbad, freeMemory, hfree,
    Option.map_some, Option.some.injEq, exists_eq_left']
  refine ⟨rfl, by simp, ?_⟩
  constructor <;> simp

/-- An accepted header is copied into a new message block. -/
theorem pkgHeaderProc_good (info : (s.conn c).pHeaderinfo = some b)
    (live : s.memory.get b = some block) (length : block.length = pkgHeaderLen)
    (good : packetFormat.bodyLen block = some n) (sequence : (s.conn c).sequence = seq)
    (uses : s.history.use c = use) :
    ∃ s', s.pkgHeaderProc c = some s' ∧ Kept s s' c ∧
      ((n = 0 ∧ s'.msgqueue = s.msgqueue ++ [some (packetMessage c seq use block)] ∧
          (s'.conn c).curstat = .hdInit) ∨
        (n ≠ 0 ∧ s'.msgqueue = s.msgqueue ∧ Progress s' c seq use block)) := by
  have hgood : ¬ (pkgLen block < pkgHeaderLen ∨ pkgLen block > pkgMaxLength - 1000) := by
    intro hbad
    simp [packetFormat, hbad] at good
  have hn : pkgLen block - pkgHeaderLen = n := by simpa [packetFormat, hgood] using good
  have hbuf : block.take pkgHeaderLen = block := List.take_of_length_le (Nat.le_of_eq length)
  simp only [pkgHeaderProc, info, live, Option.bind_some, if_neg hgood, hn]
  by_cases h0 : n = 0
  · subst h0
    rw [if_pos rfl]
    obtain ⟨s', hs', hqueue, hstate, hkept⟩ := pkgBodyProc_spec
      (s := s.allocMessage c block 0) (c := c) (by simpa using info) (by simpa using live)
      (by simp) (Heap.get_alloc_self _ _)
    refine ⟨s', hs', ?_, .inl ⟨rfl, ?_, hstate⟩⟩
    · refine Kept.trans ?_ hkept
      constructor <;> simp
    · rw [hqueue]
      simp [packetMessage, stampedMessage, hbuf, sequence, uses]
  · rw [if_neg h0]
    refine ⟨_, rfl, ?_, .inr ⟨h0, by simp, ?_⟩⟩
    · constructor <;> simp
    · refine @Progress.body _ c seq use (s.withoutMsgrecv c).next n (s.stampedMessage c block n)
        block (.inl (by simp)) ⟨by simp [stampedMessage, sequence], uses⟩ ?_
      constructor
      · exact ⟨b, block, by simpa using info, by simpa using live⟩
      · simp
      · simp
      · omega
      · rwa [hbuf]
      · omega
      · simp only [stampedMessage, hbuf, List.length_append, List.length_replicate]
        omega
      · simp [stampedMessage, hbuf]
      · rw [stampedMessage, hbuf, List.drop_append, List.drop_of_length_le (by omega), length]
        simp
      · simp [length]
      · simp [length]

/-- A complete header leads to what the format says about its eight bytes. -/
theorem pkgHeaderProc_spec (info : (s.conn c).pHeaderinfo = some b)
    (live : s.memory.get b = some block) (length : block.length = pkgHeaderLen)
    (sequence : (s.conn c).sequence = seq) (uses : s.history.use c = use) :
    ∃ s', s.pkgHeaderProc c = some s' ∧ Kept s s' c ∧
      Progress s' c seq use (packetFormat.rest block) ∧
      s'.msgqueue = s.msgqueue ++
        (packetFormat.frames block).map (some ∘ packetMessage c seq use) := by
  have hlen : block.length = packetFormat.headLen := length
  have htake : block.take packetFormat.headLen = block :=
    List.take_of_length_le (Nat.le_of_eq hlen)
  cases hbody : packetFormat.bodyLen block with
  | none =>
      obtain ⟨s', hs', hqueue, hstart, hkept⟩ := pkgHeaderProc_bad info live hbody
      rw [Format.rest_bad hlen hbody, Format.frames_bad hlen hbody]
      exact ⟨s', hs', hkept, .start hstart, by simpa using hqueue⟩
  | some n =>
      obtain ⟨s', hs', hkept, hres⟩ :=
        pkgHeaderProc_good info live length hbody sequence uses
      refine ⟨s', hs', hkept, ?_⟩
      rcases hres with ⟨rfl, hqueue, hstart⟩ | ⟨h0, hqueue, hprogress⟩
      · rw [Format.rest_whole (by rwa [htake]) hlen, Format.frames_whole (by rwa [htake]) hlen]
        exact ⟨.start hstart, hqueue⟩
      · have hle : packetFormat.headLen ≤ block.length := Nat.le_of_eq hlen.symm
        have hlt : block.length < packetFormat.headLen + n := by omega
        rw [Format.rest_partial hle (by rwa [htake]) hlt,
          Format.frames_partial hle (by rwa [htake]) hlt]
        exact ⟨hprogress, by simpa using hqueue⟩

/-- The first bytes of a buffer after a write behind the bytes it holds. -/
theorem take_overwrite_got (bytes : List UInt8) (holds : block.take got.length = got)
    (fits : got.length + bytes.length ≤ block.length) :
    (overwrite block got.length bytes).take (got.length + bytes.length) = got ++ bytes := by
  rw [take_overwrite_add (by omega), holds]

/-- The state after `pkg_header_recv` has read `bytes`. -/
def headerRead (s : State) (c : ConnId) (b : Nat) (block got bytes : List UInt8) : State :=
  (s.setMemory (s.memory.set b (overwrite block got.length bytes))).advance c bytes.length

theorem headerRead_kept (s : State) (c : ConnId) (b : Nat) (block got bytes : List UInt8) :
    Kept s (s.headerRead c b block got bytes) c := by
  constructor <;> simp [headerRead, advance]

@[simp] theorem headerRead_msgqueue :
    (s.headerRead c b block got bytes).msgqueue = s.msgqueue := by
  simp [headerRead, advance]

theorem pkgHeaderRecv_data (inside : InHeader s c b block got)
    (state : (s.conn c).curstat = .hdInit ∨ (s.conn c).curstat = .hdRecving)
    (open_ : s.openFds (s.conn c).fd = true) (recv : env.recv = .data bytes)
    (pos : 1 ≤ bytes.length) (le : got.length + bytes.length ≤ pkgHeaderLen) :
    s.pkgHeaderRecv c env = some (s.headerRead c b block got bytes, some bytes.length) := by
  have hlength := inside.length
  have hwanted := inside.wanted
  have hstate : ¬ ((s.conn c).curstat ≠ .hdInit ∧ (s.conn c).curstat ≠ .hdRecving) :=
    or_iff_not_and_not.mp state
  have hstore := store_header bytes inside.live got.length (by omega)
  rw [← inside.buf] at hstore
  have hrecv := recvproc_data open_ (s.conn c).recvlen recv pos (by omega) hstore
  simp only [pkgHeaderRecv, if_neg hstate, hrecv, headerRead]

/-- What `InHeader` becomes after a read that does not complete the header. -/
theorem InHeader.read (inside : InHeader s c b block got)
    (short : got.length + bytes.length < pkgHeaderLen) :
    InHeader (s.headerRead c b block got bytes) c b (overwrite block got.length bytes)
      (got ++ bytes) := by
  have hlength := inside.length
  have hwanted := inside.wanted
  constructor
  · simpa [headerRead, advance] using inside.info
  · simp [headerRead, advance]
  · rw [length_overwrite (by omega), hlength]
  · rw [List.length_append]
    exact take_overwrite_got _ inside.holds (by omega)
  · rwa [List.length_append]
  · simp only [headerRead, advance, modifyConn_conn, Function.update_self, setMemory_conn,
      List.length_append]
    rw [if_pos (by omega), inside.buf, RecvBuf.add]
  · simp only [headerRead, advance, modifyConn_conn, Function.update_self, setMemory_conn,
      List.length_append]
    rw [if_pos (by omega)]
    omega

/-- Reading header bytes. -/
theorem receiveHeader_data (inside : InHeader s c b block got)
    (state : (s.conn c).curstat = .hdInit ∨ (s.conn c).curstat = .hdRecving)
    (open_ : s.openFds (s.conn c).fd = true) (sequence : (s.conn c).sequence = seq)
    (uses : s.history.use c = use) (recv : env.recv = .data bytes)
    (pos : 1 ≤ bytes.length) (le : got.length + bytes.length ≤ pkgHeaderLen) :
    ∃ s', s.receiveHeader c env = some s' ∧ Kept s s' c ∧
      Progress s' c seq use (packetFormat.rest (got ++ bytes)) ∧
      s'.msgqueue = s.msgqueue ++
        (packetFormat.frames (got ++ bytes)).map (some ∘ packetMessage c seq use) := by
  have hlength := inside.length
  have hkept := headerRead_kept s c b block got bytes
  simp only [receiveHeader, pkgHeaderRecv_data inside state open_ recv pos le, inside.wanted]
  by_cases hfull : bytes.length = pkgHeaderLen - got.length
  · rw [if_pos hfull]
    have hwhole : overwrite block got.length bytes = got ++ bytes := by
      rw [← take_overwrite_got bytes inside.holds (by omega), List.take_of_length_le]
      rw [length_overwrite (by omega)]
      omega
    obtain ⟨s', hs', hkept', hprogress, hqueue⟩ :=
      pkgHeaderProc_spec (s := s.headerRead c b block got bytes) (c := c) (b := b)
        (by simpa [headerRead, advance] using inside.info)
        (show _ = some (got ++ bytes) by simp [headerRead, advance, hwhole]) (by rw [List.length_append]; omega)
        (hkept.sequence.trans sequence) (by rw [hkept.history, uses])
    exact ⟨s', hs', hkept.trans hkept', hprogress, by simpa using hqueue⟩
  · rw [if_neg hfull]
    have hlt : got.length + bytes.length < pkgHeaderLen := by omega
    have hshort : (got ++ bytes).length < packetFormat.headLen := by
      rw [List.length_append]
      exact hlt
    refine ⟨_, rfl, hkept.trans ?_, ?_, ?_⟩
    · constructor <;> simp
    · rw [Format.rest_short hshort]
      exact .header (by simp) ((inside.read hlt).setCurstat _)
    · rw [Format.frames_short hshort]
      simp

/-- The state after `pkg_body_recv` has read `bytes`. -/
def bodyRead (s : State) (c : ConnId) (m : Nat) (msg : Message) (got bytes : List UInt8) : State :=
  (s.setMessages (s.messages.set m { msg with buf := overwrite msg.buf got.length bytes })).advance
    c bytes.length

theorem bodyRead_kept (s : State) (c : ConnId) (m : Nat) (msg : Message)
    (got bytes : List UInt8) : Kept s (s.bodyRead c m msg got bytes) c := by
  constructor <;> simp [bodyRead, advance]

@[simp] theorem bodyRead_msgqueue : (s.bodyRead c m msg got bytes).msgqueue = s.msgqueue := by
  simp [bodyRead, advance]

theorem pkgBodyRecv_data (inside : InBody s c m msg got n)
    (state : (s.conn c).curstat = .bdInit ∨ (s.conn c).curstat = .bdRecving)
    (open_ : s.openFds (s.conn c).fd = true) (recv : env.recv = .data bytes)
    (pos : 1 ≤ bytes.length) (le : got.length + bytes.length ≤ pkgHeaderLen + n) :
    s.pkgBodyRecv c env = some (s.bodyRead c m msg got bytes, some bytes.length) := by
  have hlength := inside.length
  have hwanted := inside.wanted
  have hstate : ¬ ((s.conn c).curstat ≠ .bdInit ∧ (s.conn c).curstat ≠ .bdRecving) :=
    or_iff_not_and_not.mp state
  have hstore := store_message bytes inside.live got.length (by omega)
  rw [← inside.buf] at hstore
  have hrecv := recvproc_data open_ (s.conn c).recvlen recv pos (by omega) hstore
  simp only [pkgBodyRecv, if_neg hstate, hrecv, bodyRead]

/-- The bytes received so far start with the header that announced the body. -/
theorem InBody.announced_append (inside : InBody s c m msg got n) :
    packetFormat.bodyLen ((got ++ bytes).take packetFormat.headLen) = some n := by
  have htake : (got ++ bytes).take packetFormat.headLen = got.take pkgHeaderLen :=
    List.take_append_of_le_length inside.header_le
  rw [htake, inside.announced]

/-- What `InBody` becomes after a read that does not complete the packet. -/
theorem InBody.read (inside : InBody s c m msg got n)
    (short : got.length + bytes.length < pkgHeaderLen + n) :
    InBody (s.bodyRead c m msg got bytes) c m
      { msg with buf := overwrite msg.buf got.length bytes } (got ++ bytes) n := by
  have hlength := inside.length
  have hwanted := inside.wanted
  have hheader := inside.header_le
  constructor
  · simpa [bodyRead, advance] using inside.info
  · simpa [bodyRead, advance] using inside.owner
  · simp [bodyRead, advance]
  · rw [List.length_append]
    omega
  · exact inside.announced_append
  · rwa [List.length_append]
  · exact (length_overwrite (by omega)).trans hlength
  · rw [List.length_append]
    exact take_overwrite_got _ inside.holds (by omega)
  · rw [drop_overwrite (by omega) (by omega), inside.terminated]
  · simp only [bodyRead, advance, modifyConn_conn, Function.update_self, setMessages_conn,
      List.length_append]
    rw [if_pos (by omega), inside.buf, RecvBuf.add, Nat.add_assoc]
  · simp only [bodyRead, advance, modifyConn_conn, Function.update_self, setMessages_conn,
      List.length_append]
    rw [if_pos (by omega)]
    omega

/-- Reading body bytes. -/
theorem receiveBody_data (inside : InBody s c m msg got n)
    (state : (s.conn c).curstat = .bdInit ∨ (s.conn c).curstat = .bdRecving)
    (stamped : msg.head = ⟨c, seq⟩ ∧ msg.origin = use)
    (open_ : s.openFds (s.conn c).fd = true) (recv : env.recv = .data bytes)
    (pos : 1 ≤ bytes.length) (le : got.length + bytes.length ≤ pkgHeaderLen + n) :
    ∃ s', s.receiveBody c env = some s' ∧ Kept s s' c ∧
      Progress s' c seq use (packetFormat.rest (got ++ bytes)) ∧
      s'.msgqueue = s.msgqueue ++
        (packetFormat.frames (got ++ bytes)).map (some ∘ packetMessage c seq use) := by
  have hkept := bodyRead_kept s c m msg got bytes
  simp only [receiveBody, pkgBodyRecv_data inside state open_ recv pos le, inside.wanted]
  have hlength := inside.length
  have hshort := inside.short
  by_cases hfull : bytes.length = pkgHeaderLen + n - got.length
  · rw [if_pos hfull]
    have htotal : (got ++ bytes).length = packetFormat.headLen + n := by
      rw [List.length_append]
      exact (by omega : got.length + bytes.length = pkgHeaderLen + n)
    have hwhole : overwrite msg.buf got.length bytes = got ++ bytes ++ [0] := by
      have hat : got.length + bytes.length = pkgHeaderLen + n := by omega
      rw [← List.take_append_drop (pkgHeaderLen + n) (overwrite msg.buf got.length bytes),
        drop_overwrite (by omega) (by omega), inside.terminated, ← hat,
        take_overwrite_got _ inside.holds (by omega)]
    obtain ⟨b, header, hinfo, hlive⟩ := inside.info
    obtain ⟨s', hs', hqueue, hstart, hkept'⟩ :=
      pkgBodyProc_spec (s := s.bodyRead c m msg got bytes) (c := c) (b := b)
        (by simpa [bodyRead, advance] using hinfo)
        (show _ = some header by simpa [bodyRead, advance] using hlive)
        (m := m) (by simpa [bodyRead, advance] using inside.owner) (by simp [bodyRead, advance]; rfl)
    refine ⟨s', hs', hkept.trans hkept', ?_, ?_⟩
    · rw [Format.rest_whole inside.announced_append htotal]
      exact .start hstart
    · rw [hqueue, Format.frames_whole inside.announced_append htotal]
      simp [hwhole, packetMessage, ← stamped.1, ← stamped.2]
  · rw [if_neg hfull]
    have hlt : got.length + bytes.length < pkgHeaderLen + n := by omega
    have hpart : (got ++ bytes).length < packetFormat.headLen + n := by
      rw [List.length_append]
      exact hlt
    have hle : packetFormat.headLen ≤ (got ++ bytes).length := by
      rw [List.length_append]
      exact Nat.le_trans inside.header_le (Nat.le_add_right _ _)
    refine ⟨_, rfl, hkept.trans ?_, ?_, ?_⟩
    · constructor <;> simp
    · rw [Format.rest_partial hle inside.announced_append hpart]
      exact @Progress.body _ c seq use m n { msg with buf := overwrite msg.buf got.length bytes } _
        (.inr (by simp)) stamped ((inside.read hlt).setCurstat _)
    · rw [Format.frames_partial hle inside.announced_append hpart]
      simp

/-- The number of bytes the next readable event asks for. -/
def requested (s : State) (c : ConnId) : Nat :=
  if (s.conn c).curstat = .hdInit then pkgHeaderLen else (s.conn c).recvlen

/-- The header block allocated in the initial state. -/
theorem allocHeader_inside :
    InHeader (s.allocHeader c) c s.memory.next (List.replicate pkgHeaderLen 0) [] := by
  constructor <;> simp [pkgHeaderLen]

/-- One readable event that yields bytes. -/
theorem readable_data (recv_ : Receiving s c seq use got) (recv : env.recv = .data bytes)
    (pos : 1 ≤ bytes.length) (le : bytes.length ≤ s.requested c) :
    ∃ s', s.eventReadableRequestHandler c env = some s' ∧
      Receiving s' c seq use (packetFormat.rest (got ++ bytes)) ∧
      s'.msgqueue = s.msgqueue ++
        (packetFormat.frames (got ++ bytes)).map (some ∘ packetMessage c seq use) := by
  suffices h : ∃ s', s.eventReadableRequestHandler c env = some s' ∧ Kept s s' c ∧
      Progress s' c seq use (packetFormat.rest (got ++ bytes)) ∧
      s'.msgqueue = s.msgqueue ++
        (packetFormat.frames (got ++ bytes)).map (some ∘ packetMessage c seq use) by
    obtain ⟨s', hs', hkept, hprogress, hqueue⟩ := h
    exact ⟨s', hs', recv_.of_kept hkept hprogress, hqueue⟩
  obtain ⟨open_, sequence, uses, progress⟩ := recv_
  cases progress with
  | start state =>
      simp only [requested, state, if_true] at le
      obtain ⟨s', hs', hkept, hprogress, hqueue⟩ :=
        receiveHeader_data (s := s.allocHeader c) allocHeader_inside (.inl (by simpa using state))
          (by simpa using open_) (by simpa using sequence) (by simpa using uses) recv pos
          (by simpa using le)
      refine ⟨s', by simpa only [eventReadableRequestHandler, state] using hs', ?_, hprogress,
        by simpa using hqueue⟩
      exact Kept.trans (by constructor <;> simp) hkept
  | header state inside =>
      have hshort := inside.short
      have hwanted := inside.wanted
      simp only [requested, state, reduceCtorEq, if_false] at le
      simp only [eventReadableRequestHandler, state]
      rw [if_neg (by omega)]
      exact receiveHeader_data inside (.inr state) open_ sequence uses recv pos (by omega)
  | body state stamped inside =>
      have hshort := inside.short
      have hwanted := inside.wanted
      have hle : bytes.length ≤ (s.conn c).recvlen := by
        rcases state with h | h <;> simpa [requested, h] using le
      have hresult := receiveBody_data inside state stamped open_ recv pos (by omega)
      rcases state with h | h
      · simpa only [eventReadableRequestHandler, h, if_neg (by omega : ¬ (s.conn c).recvlen = 0)]
          using hresult
      · simpa only [eventReadableRequestHandler, h, if_neg (by omega : ¬ (s.conn c).recvlen = 0)]
          using hresult

theorem advance_zero_kept : Kept s (s.advance c 0) c := by
  constructor <;> simp [advance]

theorem InHeader.advance_zero (inside : InHeader s c b block got) :
    InHeader (s.advance c 0) c b block got where
  info := by simpa [advance] using inside.info
  live := inside.live
  length := inside.length
  holds := inside.holds
  short := inside.short
  buf := by
    simp only [advance, modifyConn_conn, Function.update_self]
    split <;> simp [inside.buf, RecvBuf.add]
  wanted := by
    simp only [advance, modifyConn_conn, Function.update_self]
    split <;> simp [inside.wanted]

theorem InBody.advance_zero (inside : InBody s c m msg got n) :
    InBody (s.advance c 0) c m msg got n where
  info := by simpa [advance] using inside.info
  owner := by simpa [advance] using inside.owner
  live := inside.live
  header_le := inside.header_le
  announced := inside.announced
  short := inside.short
  length := inside.length
  holds := inside.holds
  terminated := inside.terminated
  buf := by
    simp only [advance, modifyConn_conn, Function.update_self]
    split <;> simp [inside.buf, RecvBuf.add]
  wanted := by
    simp only [advance, modifyConn_conn, Function.update_self]
    split <;> simp [inside.wanted]

/-- An interrupted read leaves the header as far as it was. -/
theorem receiveHeader_eintr (seq use : Nat) (inside : InHeader s c b block got)
    (state : (s.conn c).curstat = .hdInit ∨ (s.conn c).curstat = .hdRecving)
    (open_ : s.openFds (s.conn c).fd = true) (recv : env.recv = .failed .eintr) :
    ∃ s', s.receiveHeader c env = some s' ∧ Kept s s' c ∧ Progress s' c seq use got ∧
      s'.msgqueue = s.msgqueue := by
  have hshort := inside.short
  have hwanted := inside.wanted
  have hstate : ¬ ((s.conn c).curstat ≠ .hdInit ∧ (s.conn c).curstat ≠ .hdRecving) :=
    or_iff_not_and_not.mp state
  simp only [receiveHeader, pkgHeaderRecv, if_neg hstate, recvproc_eintr open_ _ _ recv]
  rw [if_neg (by omega)]
  refine ⟨_, rfl, advance_zero_kept.trans ?_, ?_, by simp [advance]⟩
  · constructor <;> simp
  · exact .header (by simp) (inside.advance_zero.setCurstat _)

theorem receiveBody_eintr (inside : InBody s c m msg got n)
    (state : (s.conn c).curstat = .bdInit ∨ (s.conn c).curstat = .bdRecving)
    (stamped : msg.head = ⟨c, seq⟩ ∧ msg.origin = use)
    (open_ : s.openFds (s.conn c).fd = true) (recv : env.recv = .failed .eintr) :
    ∃ s', s.receiveBody c env = some s' ∧ Kept s s' c ∧ Progress s' c seq use got ∧
      s'.msgqueue = s.msgqueue := by
  have hshort := inside.short
  have hwanted := inside.wanted
  have hstate : ¬ ((s.conn c).curstat ≠ .bdInit ∧ (s.conn c).curstat ≠ .bdRecving) :=
    or_iff_not_and_not.mp state
  simp only [receiveBody, pkgBodyRecv, if_neg hstate, recvproc_eintr open_ _ _ recv]
  rw [if_neg (by omega)]
  refine ⟨_, rfl, advance_zero_kept.trans ?_, ?_, by simp [advance]⟩
  · constructor <;> simp
  · exact .body (.inr (by simp)) stamped (inside.advance_zero.setCurstat _)

/-- One readable event whose read is interrupted. -/
theorem readable_eintr (env : Env) (recv_ : Receiving s c seq use got) (recv : env.recv = .failed .eintr) :
    ∃ s', s.eventReadableRequestHandler c env = some s' ∧ Receiving s' c seq use got ∧
      s'.msgqueue = s.msgqueue := by
  suffices h : ∃ s', s.eventReadableRequestHandler c env = some s' ∧ Kept s s' c ∧
      Progress s' c seq use got ∧ s'.msgqueue = s.msgqueue by
    obtain ⟨s', hs', hkept, hprogress, hqueue⟩ := h
    exact ⟨s', hs', recv_.of_kept hkept hprogress, hqueue⟩
  cases recv_.progress with
  | start state =>
      obtain ⟨s', hs', hkept, hprogress, hqueue⟩ :=
        receiveHeader_eintr seq use (s := s.allocHeader c) allocHeader_inside
          (.inl (by simpa using state)) (by simpa using recv_.opened) recv
      refine ⟨s', by simpa only [eventReadableRequestHandler, state] using hs', ?_, hprogress,
        by simpa using hqueue⟩
      exact Kept.trans (by constructor <;> simp) hkept
  | header state inside =>
      have hshort := inside.short
      have hwanted := inside.wanted
      simp only [eventReadableRequestHandler, state]
      rw [if_neg (by omega)]
      exact receiveHeader_eintr _ _ inside (.inr state) recv_.opened recv
  | body state stamped inside =>
      have hshort := inside.short
      have hwanted := inside.wanted
      have hresult := receiveBody_eintr inside state stamped recv_.opened recv
      rcases state with h | h
      · simpa only [eventReadableRequestHandler, h, if_neg (by omega : ¬ (s.conn c).recvlen = 0)]
          using hresult
      · simpa only [eventReadableRequestHandler, h, if_neg (by omega : ¬ (s.conn c).recvlen = 0)]
          using hresult

/-- What is being received is not a complete frame yet. -/
theorem Progress.unfinished (h : Progress s c seq use got) :
    packetFormat.frames got = [] ∧ packetFormat.rest got = got := by
  cases h with
  | start => exact ⟨Format.frames_nil, Format.rest_nil⟩
  | header _ inside => exact ⟨Format.frames_short inside.short, Format.rest_short inside.short⟩
  | body _ _ inside =>
      exact ⟨Format.frames_partial inside.header_le inside.announced inside.short,
        Format.rest_partial inside.header_le inside.announced inside.short⟩

/-- `recv` never yields nothing, nor more than it was asked for. -/
theorem recvproc_none (open_ : s.openFds (s.conn c).fd = true) (buf : RecvBuf) {len : Nat}
    (recv : env.recv = .data bytes) (h : ¬ (1 ≤ bytes.length ∧ bytes.length ≤ len)) :
    s.recvproc c buf len env = none := by
  simp only [recvproc, sysRecv, open_, if_true, recv, if_neg h]

theorem readable_none (recv_ : Receiving s c seq use got) (recv : env.recv = .data bytes)
    (h : ¬ (1 ≤ bytes.length ∧ bytes.length ≤ s.requested c)) :
    s.eventReadableRequestHandler c env = none := by
  cases recv_.progress with
  | start state =>
      have hopen : (s.allocHeader c).openFds ((s.allocHeader c).conn c).fd = true := by
        simpa using recv_.opened
      simp only [requested, state, if_true] at h
      simp [eventReadableRequestHandler, receiveHeader, pkgHeaderRecv, state,
        recvproc_none hopen _ recv h]
  | header state inside =>
      simp only [requested, state, reduceCtorEq, if_false] at h
      simp [eventReadableRequestHandler, receiveHeader, pkgHeaderRecv, state,
        recvproc_none recv_.opened _ recv h]
      have hshort := inside.short
      have hwanted := inside.wanted
      omega
  | body state stamped inside =>
      have hshort := inside.short
      have hwanted := inside.wanted
      rcases state with state | state <;>
      · simp only [requested, state, reduceCtorEq, if_false] at h
        simp [eventReadableRequestHandler, receiveBody, pkgBodyRecv, state,
          recvproc_none recv_.opened _ recv h]
        omega

end State

end MyNginx
