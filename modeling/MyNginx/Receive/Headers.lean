import MyNginx.Foundation.Ownership
import MyNginx.Server.Frames

/-!
# Header blocks

`event_readable_request_handler` allocates a block for the header of each packet, and
frees it when the header is refused or the packet complete. The other exits leave the
block to the connection: the states in the middle of a packet go on with it, but the
initial state allocates another one, and an object that is accepted again forgets the
block it had.
-/

namespace MyNginx

open Foundation

namespace State

variable {s s' t : State} {c d : ConnId} {b : Nat} {env : Env}

instance : DecidablePred s.Used := fun c => inferInstanceAs (Decidable (0 < s.history.use c))

/-- What `p_headerinfo` holds, once the object has been accepted. -/
def headerPtr (s : State) (c : ConnId) : Option Nat :=
  if s.Used c then (s.conn c).pHeaderinfo else none

/-- The object has been accepted and has not been returned, and it is in the middle of
a packet. -/
def MidPacket (s : State) (c : ConnId) : Prop :=
  s.Used c ∧ c ∉ s.freeConnectionList ∧ (s.conn c).curstat ≠ .hdInit

instance : DecidablePred s.MidPacket := fun c =>
  inferInstanceAs (Decidable (s.Used c ∧ _ ∧ _))

/-- The connection is in the middle of a packet whose header is in the block `b`. -/
inductive Holding (s : State) (c : ConnId) (b : Nat) : Prop
  | header {block got : List UInt8} (state : (s.conn c).curstat = .hdRecving)
      (inside : InHeader s c b block got)
  | body (state : (s.conn c).curstat = .bdInit ∨ (s.conn c).curstat = .bdRecving)
      (info : (s.conn c).pHeaderinfo = some b) (live : s.memory.get b ≠ none)
      (buf : ∃ p, (s.conn c).pRecvbuf = .message p)

theorem Holding.info (h : Holding s c b) : (s.conn c).pHeaderinfo = some b := by
  cases h with
  | header state inside => exact inside.info
  | body state info live buf => exact info

theorem Holding.live (h : Holding s c b) : s.memory.get b ≠ none := by
  cases h with
  | header state inside =>
      rw [inside.live]
      exact Option.some_ne_none _
  | body state info live buf => exact live

theorem Holding.state (h : Holding s c b) : (s.conn c).curstat ≠ .hdInit := by
  intro hinit
  cases h with
  | header state inside => rw [hinit] at state; cases state
  | body state info live buf =>
      rw [hinit] at state
      rcases state with state | state <;> cases state

theorem Holding.congr (h : Holding s c b)
    (incoming : (s'.conn c).toIncoming = (s.conn c).toIncoming)
    (block : s'.memory.get b = s.memory.get b) : Holding s' c b := by
  have hcurstat : (s'.conn c).curstat = (s.conn c).curstat := congrArg Incoming.curstat incoming
  have hinfo : (s'.conn c).pHeaderinfo = (s.conn c).pHeaderinfo :=
    congrArg Incoming.pHeaderinfo incoming
  have hbuf : (s'.conn c).pRecvbuf = (s.conn c).pRecvbuf := congrArg Incoming.pRecvbuf incoming
  have hlen : (s'.conn c).recvlen = (s.conn c).recvlen := congrArg Incoming.recvlen incoming
  cases h with
  | header state inside =>
      exact .header (hcurstat.trans state) ⟨hinfo.trans inside.info, block.trans inside.live,
        inside.length, inside.holds, inside.short, hbuf.trans inside.buf, hlen.trans inside.wanted⟩
  | body state info live buf =>
      refine .body (hcurstat ▸ state) (hinfo.trans info) ?_ (hbuf ▸ buf)
      rw [block]
      exact live

/-- The block `b` is gone, and the connection waits for its next packet. -/
structure Dropped (s : State) (c : ConnId) (b : Nat) : Prop where
  dead : s.memory.get b = none
  state : (s.conn c).curstat = .hdInit
  info : ∀ b', (s.conn c).pHeaderinfo = some b' → b' = b

/-- What may become of the header block `b` of the connection. -/
structure Fate (s s' : State) (c : ConnId) (b : Nat) : Prop where
  only : Heap.Only b s.memory s'.memory
  done : Holding s' c b ∨ Dropped s' c b

theorem Fate.before (only : Heap.Only b s.memory t.memory) (h : Fate t s' c b) : Fate s s' c b :=
  ⟨only.trans h.only, h.done⟩

/-- A complete packet gives its header block back. -/
theorem pkgBodyProc_fate (info : (s.conn c).pHeaderinfo = some b)
    (h : s.pkgBodyProc c = some s') : Fate s s' c b := by
  simp only [pkgBodyProc] at h
  obtain ⟨t, ht, rfl⟩ := Option.map_eq_some_iff.mp h
  simp only [forgetMsgrecv_conn, Function.update_self, modifyConn_conn, inMsgRecv_conn, info,
    freeMemory] at ht
  obtain ⟨memory, hfree, rfl⟩ := Option.map_eq_some_iff.mp ht
  obtain ⟨_, -, rfl⟩ := Heap.free_eq_some.mp hfree
  refine ⟨by simpa using Heap.only_release s.memory b, .inr ⟨?_, ?_, ?_⟩⟩
  · simp
  · simp [Incoming.start]
  · simp [Incoming.start]

/-- A refused header gives its block back, an accepted one keeps it for the body. -/
theorem pkgHeaderProc_fate (info : (s.conn c).pHeaderinfo = some b)
    (h : s.pkgHeaderProc c = some s') : Fate s s' c b := by
  simp only [pkgHeaderProc, info, Option.bind_some] at h
  obtain ⟨header, hlive, h⟩ := Option.bind_eq_some_iff.mp h
  split at h
  · obtain ⟨t, ht, rfl⟩ := Option.map_eq_some_iff.mp h
    obtain ⟨memory, hfree, rfl⟩ := Option.map_eq_some_iff.mp ht
    obtain ⟨_, -, rfl⟩ := Heap.free_eq_some.mp hfree
    refine ⟨Heap.only_release s.memory b, .inr ⟨?_, ?_, ?_⟩⟩
    · simp
    · simp
    · simp [info]
  · split at h
    · have hfate := pkgBodyProc_fate (b := b) (by simpa using info) h
      exact Fate.before (t := s.allocMessage c header _) (.refl b s.memory) hfate
    · obtain rfl := Option.some.inj h
      refine ⟨.refl b s.memory, .inl (.body (.inl (by simp)) (by simpa using info) ?_ (by simp))⟩
      rw [modifyConn_toBlocks, allocMessage_toBlocks, hlive]
      exact Option.some_ne_none _

/-- A `recv` that leaves a connection without the first bytes of its next packet. -/
def Starves (s : State) (c : ConnId) (env : Env) : Prop :=
  match env.recv with
  | .data _ => s.openFds (s.conn c).fd = false
  | .zero errno => s.openFds (s.conn c).fd = false ∨ errno ≠ .ok
  | .failed errno => s.openFds (s.conn c).fd = false ∨ errno ≠ .eintr

instance : Decidable (s.Starves c env) := by
  unfold Starves
  split <;> infer_instance

/-- Nothing happens to the header blocks of the connection, nor to its receive state. -/
structure Waits (s s' : State) (c : ConnId) : Prop where
  memory : s'.memory = s.memory
  incoming : (s'.conn c).toIncoming = (s.conn c).toIncoming

/-- Nothing is stored; at most the connection is closed. -/
theorem recvproc_unfed (idle : s.Idle c) (starves : s.Starves c env) {buf : RecvBuf} {len : Nat}
    {r : Option Nat} (h : s.recvproc c buf len env = some (s', r)) :
    r = none ∧ (s' = s ∨ (s.conn c).fd ≠ -1 ∧ s' = s.afterClose c env.now) := by
  have hclose : ∀ t, (s.closeAcceptedConnection c false env).map (fun s => (s, (none : Option Nat))) =
      some t → t.2 = none ∧ (t.1 = s ∨ (s.conn c).fd ≠ -1 ∧ t.1 = s.afterClose c env.now) := by
    intro t ht
    obtain ⟨u, hu, rfl⟩ := Option.map_eq_some_iff.mp ht
    exact ⟨rfl, (closeAcceptedConnection_cases idle hu).imp_left And.left⟩
  have hsame : ∀ t, some (s, (none : Option Nat)) = some t →
      t.2 = none ∧ (t.1 = s ∨ (s.conn c).fd ≠ -1 ∧ t.1 = s.afterClose c env.now) := by
    intro t ht
    obtain rfl := Option.some.inj ht
    exact ⟨rfl, .inl rfl⟩
  by_cases hopen : s.openFds (s.conn c).fd = true
  · simp only [recvproc, sysRecv, hopen, if_true] at h
    cases hrecv : env.recv with
    | data bytes =>
        rw [Starves, hrecv] at starves
        have hclosed := hopen.symm.trans starves
        cases hclosed
    | zero errno =>
        simp only [Starves, hrecv, hopen, reduceCtorEq, false_or] at starves
        rw [hrecv] at h
        cases errno with
        | ok => exact absurd rfl starves
        | eagain => exact hsame _ h
        | eintr | econnreset | enosys | other => exact hclose _ h
    | failed errno =>
        simp only [Starves, hrecv, hopen, reduceCtorEq, false_or] at starves
        rw [hrecv] at h
        cases errno with
        | eintr => exact absurd rfl starves
        | eagain => exact hsame _ h
        | ok | econnreset | enosys | other => exact hclose _ h
  · simp only [recvproc, sysRecv, hopen] at h
    exact hclose _ h

theorem recvproc_starved (idle : s.Idle c) (starves : s.Starves c env) {buf : RecvBuf} {len : Nat}
    {r : Option Nat} (h : s.recvproc c buf len env = some (s', r)) : r = none ∧ Waits s s' c := by
  obtain ⟨hnone, rfl | ⟨-, rfl⟩⟩ := recvproc_unfed idle starves h
  · exact ⟨hnone, rfl, rfl⟩
  · exact ⟨hnone, rfl, by simp [afterClose]⟩

theorem recvproc_fed (fed : ¬ s.Starves c env) {buf : RecvBuf} {len : Nat} {r : Option Nat}
    (h : s.recvproc c buf len env = some (s', r)) :
    (s' = s ∧ r = some 0) ∨ ∃ bytes, env.recv = .data bytes ∧ 1 ≤ bytes.length ∧
      bytes.length ≤ len ∧ s.openFds (s.conn c).fd = true ∧ s.store buf bytes = some s' ∧
        r = some bytes.length := by
  cases hrecv : env.recv with
  | data bytes =>
      have hopen : s.openFds (s.conn c).fd = true := by simpa [Starves, hrecv] using fed
      simp only [recvproc, sysRecv, hopen, if_true, hrecv] at h
      by_cases hlen : 1 ≤ bytes.length ∧ bytes.length ≤ len
      · rw [if_pos hlen] at h
        obtain ⟨t, ht, heq⟩ := Option.map_eq_some_iff.mp h
        obtain ⟨rfl, rfl⟩ := Prod.mk.inj heq
        exact .inr ⟨bytes, rfl, hlen.1, hlen.2, hopen, ht, rfl⟩
      · rw [if_neg hlen] at h
        cases h
  | zero errno =>
      have hopen : s.openFds (s.conn c).fd = true ∧ errno = .ok := by
        simpa [Starves, hrecv] using fed
      simp only [recvproc, sysRecv, hopen.1, if_true, hrecv, hopen.2] at h
      obtain ⟨rfl, rfl⟩ := Prod.mk.inj (Option.some.inj h)
      exact .inl ⟨rfl, rfl⟩
  | failed errno =>
      have hopen : s.openFds (s.conn c).fd = true ∧ errno = .eintr := by
        simpa [Starves, hrecv] using fed
      simp only [recvproc, sysRecv, hopen.1, if_true, hrecv, hopen.2] at h
      obtain ⟨rfl, rfl⟩ := Prod.mk.inj (Option.some.inj h)
      exact .inl ⟨rfl, rfl⟩

/-- The header states, when they get nothing. -/
theorem receiveHeader_starved (idle : s.Idle c) (starves : s.Starves c env)
    (h : s.receiveHeader c env = some s') : Waits s s' c := by
  simp only [receiveHeader, pkgHeaderRecv] at h
  split at h
  · cases h
  next t hrecv =>
    obtain rfl := Option.some.inj h
    split at hrecv
    · obtain ⟨rfl, -⟩ := Prod.mk.inj (Option.some.inj hrecv)
      exact ⟨rfl, rfl⟩
    · split at hrecv
      · cases hrecv
      next hproc =>
        obtain ⟨rfl, -⟩ := Prod.mk.inj (Option.some.inj hrecv)
        exact (recvproc_starved idle starves hproc).2
      next hproc =>
        obtain ⟨-, hr⟩ := Prod.mk.inj (Option.some.inj hrecv)
        cases hr
  next t n hrecv =>
    split at hrecv
    · obtain ⟨-, hr⟩ := Prod.mk.inj (Option.some.inj hrecv)
      cases hr
    · split at hrecv
      · cases hrecv
      next hproc =>
        obtain ⟨-, hr⟩ := Prod.mk.inj (Option.some.inj hrecv)
        cases hr
      next hproc =>
        have hr := (recvproc_starved idle starves hproc).1
        cases hr

/-- A read in the header states that gets something. -/
theorem pkgHeaderRecv_fed {block got : List UInt8} (inside : InHeader s c b block got)
    (state : (s.conn c).curstat = .hdInit ∨ (s.conn c).curstat = .hdRecving)
    (fed : ¬ s.Starves c env) {r : Option Nat} (h : s.pkgHeaderRecv c env = some (t, r)) :
    (t = s.advance c 0 ∧ r = some 0) ∨ ∃ bytes : List UInt8, 1 ≤ bytes.length ∧
      got.length + bytes.length ≤ pkgHeaderLen ∧ t = s.headerRead c b block got bytes ∧
        r = some bytes.length := by
  have hstate : ¬ ((s.conn c).curstat ≠ .hdInit ∧ (s.conn c).curstat ≠ .hdRecving) :=
    or_iff_not_and_not.mp state
  have hshort := inside.short
  have hwanted := inside.wanted
  have hrecv := h
  simp only [pkgHeaderRecv, if_neg hstate] at hrecv
  split at hrecv
  · cases hrecv
  next hproc =>
    rcases recvproc_fed fed hproc with ⟨-, hr⟩ | ⟨bytes, -, -, -, -, -, hr⟩ <;> cases hr
  next u n hproc =>
    obtain ⟨rfl, rfl⟩ := Prod.mk.inj (Option.some.inj hrecv)
    rcases recvproc_fed fed hproc with ⟨rfl, hr⟩ | ⟨bytes, hbytes, hpos, hle, hopen, -, hr⟩
    · obtain rfl := Option.some.inj hr
      exact .inl ⟨rfl, rfl⟩
    · obtain rfl := Option.some.inj hr
      have hdata := pkgHeaderRecv_data inside state hopen hbytes hpos (by omega)
      obtain ⟨hread, -⟩ := Prod.mk.inj (Option.some.inj (h.symm.trans hdata))
      exact .inr ⟨bytes, hpos, by omega, hread, rfl⟩

theorem headerRead_info {block got bytes : List UInt8} (inside : InHeader s c b block got) :
    ((s.headerRead c b block got bytes).conn c).pHeaderinfo = some b := by
  simpa [headerRead, advance] using inside.info

/-- The header states, when they get something. -/
theorem receiveHeader_fed {block got : List UInt8} (inside : InHeader s c b block got)
    (state : (s.conn c).curstat = .hdInit ∨ (s.conn c).curstat = .hdRecving)
    (fed : ¬ s.Starves c env) (h : s.receiveHeader c env = some s') : Fate s s' c b := by
  have hshort := inside.short
  have hwanted := inside.wanted
  simp only [receiveHeader] at h
  split at h
  · cases h
  next t hrecv =>
    rcases pkgHeaderRecv_fed inside state fed hrecv with ⟨-, hr⟩ | ⟨bytes, -, -, -, hr⟩ <;> cases hr
  next t n hrecv =>
    rcases pkgHeaderRecv_fed inside state fed hrecv with ⟨rfl, hr⟩ | ⟨bytes, hpos, hle, rfl, hr⟩
    · obtain rfl := Option.some.inj hr
      rw [if_neg (by omega)] at h
      obtain rfl := Option.some.inj h
      exact ⟨.refl b _, .inl (.header (by simp) (inside.advance_zero.setCurstat _))⟩
    · obtain rfl := Option.some.inj hr
      have honly : Heap.Only b s.memory (s.headerRead c b block got bytes).memory :=
        Heap.only_set s.memory b _
      split at h
      · exact (pkgHeaderProc_fate (headerRead_info inside) h).before honly
      · obtain rfl := Option.some.inj h
        exact ⟨honly, .inl (.header (by simp) ((inside.read (by omega)).setCurstat _))⟩

/-- A store through a pointer into a message leaves the header blocks alone. -/
theorem store_message_waits {p : Ptr} {bytes : List UInt8}
    (h : s.store (.message p) bytes = some s') : Waits s s' c := by
  obtain ⟨messages, -, rfl⟩ := Option.map_eq_some_iff.mp h
  exact ⟨rfl, rfl⟩

/-- A read behind a pointer into a message. -/
theorem recvproc_message_waits (idle : s.Idle c) {p : Ptr} {buf : RecvBuf} (hbuf : buf = .message p)
    {len : Nat} {r : Option Nat} (h : s.recvproc c buf len env = some (s', r)) : Waits s s' c := by
  by_cases hstarves : s.Starves c env
  · exact (recvproc_starved idle hstarves h).2
  · rcases recvproc_fed hstarves h with ⟨rfl, -⟩ | ⟨bytes, -, -, -, -, hstore, -⟩
    · exact ⟨rfl, rfl⟩
    · rw [hbuf] at hstore
      exact store_message_waits hstore

/-- The body states: the header block stays until the packet is complete. -/
theorem receiveBody_fate (idle : s.Idle c)
    (state : (s.conn c).curstat = .bdInit ∨ (s.conn c).curstat = .bdRecving)
    (info : (s.conn c).pHeaderinfo = some b) (live : s.memory.get b ≠ none)
    (buf : ∃ p, (s.conn c).pRecvbuf = .message p) (h : s.receiveBody c env = some s') :
    Fate s s' c b := by
  have hstate : ¬ ((s.conn c).curstat ≠ .bdInit ∧ (s.conn c).curstat ≠ .bdRecving) :=
    or_iff_not_and_not.mp state
  simp only [receiveBody] at h
  split at h
  · cases h
  next t hrecv =>
    obtain rfl := Option.some.inj h
    simp only [pkgBodyRecv, if_neg hstate] at hrecv
    split at hrecv
    · cases hrecv
    next u hproc =>
      obtain ⟨rfl, -⟩ := Prod.mk.inj (Option.some.inj hrecv)
      obtain ⟨p, hp⟩ := buf
      obtain ⟨hmemory, hincoming⟩ := recvproc_message_waits idle hp hproc
      have hcurstat : (u.conn c).curstat = (s.conn c).curstat := congrArg Incoming.curstat hincoming
      have hinfo : (u.conn c).pHeaderinfo = (s.conn c).pHeaderinfo :=
        congrArg Incoming.pHeaderinfo hincoming
      have hbuf : (u.conn c).pRecvbuf = (s.conn c).pRecvbuf := congrArg Incoming.pRecvbuf hincoming
      refine ⟨by simpa [hmemory] using Heap.Only.refl b s.memory, .inl (.body ?_ ?_ ?_ ?_)⟩
      · simpa [hcurstat] using state
      · simpa [hinfo] using info
      · simpa [hmemory] using live
      · exact ⟨p, by simpa [hbuf] using hp⟩
    next hproc =>
      obtain ⟨-, hr⟩ := Prod.mk.inj (Option.some.inj hrecv)
      cases hr
  next t n hrecv =>
    simp only [pkgBodyRecv, if_neg hstate] at hrecv
    split at hrecv
    · cases hrecv
    next hproc =>
      obtain ⟨-, hr⟩ := Prod.mk.inj (Option.some.inj hrecv)
      cases hr
    next u m hproc =>
      obtain ⟨rfl, hn⟩ := Prod.mk.inj (Option.some.inj hrecv)
      obtain rfl := Option.some.inj hn
      obtain ⟨p, hp⟩ := buf
      obtain ⟨hmemory, hincoming⟩ := recvproc_message_waits idle hp hproc
      have hinfo : (u.conn c).pHeaderinfo = (s.conn c).pHeaderinfo :=
        congrArg Incoming.pHeaderinfo hincoming
      have hbuf : (u.conn c).pRecvbuf = (s.conn c).pRecvbuf := congrArg Incoming.pRecvbuf hincoming
      have honly : Heap.Only b s.memory (u.advance c m).memory := by
        simpa [advance, hmemory] using Heap.Only.refl b s.memory
      split at h
      · refine (pkgBodyProc_fate ?_ h).before honly
        simpa [advance, hinfo] using info
      · obtain rfl := Option.some.inj h
        refine ⟨honly, .inl (.body (.inr (by simp)) ?_ ?_ ?_)⟩
        · simpa [advance, hinfo] using info
        · simpa [advance, hmemory] using live
        · simp only [advance, modifyConn_conn, Function.update_self, hbuf, hp, RecvBuf.add]
          split
          · exact ⟨_, rfl⟩
          · exact ⟨p, rfl⟩

/-- Who holds which header block: no block has two holders, and an open connection in the
middle of a packet has its receive state in order. -/
structure Headers (s : State) : Prop where
  owned : Owned s.memory s.headerPtr s.MidPacket
  holding : ∀ c, s.Open c → (s.conn c).curstat ≠ .hdInit → ∃ b, Holding s c b

theorem headerPtr_eq_some : s.headerPtr c = some b ↔
    s.Used c ∧ (s.conn c).pHeaderinfo = some b := by
  simp [headerPtr]

/-- A step on behalf of the connection `c`: no other connection notices. -/
structure Apart (c : ConnId) (s s' : State) : Prop where
  use : ∀ d, d ≠ c → s'.history.use d = s.history.use d
  free : ∀ d, d ≠ c → (d ∈ s'.freeConnectionList ↔ d ∈ s.freeConnectionList)
  incoming : ∀ d, d ≠ c → (s'.conn d).toIncoming = (s.conn d).toIncoming
  opened : ∀ d, d ≠ c → s'.Open d → s.Open d

theorem Apart.ptr (h : Apart c s s') (hd : d ≠ c) : s'.headerPtr d = s.headerPtr d := by
  have hinfo : (s'.conn d).pHeaderinfo = (s.conn d).pHeaderinfo :=
    congrArg Incoming.pHeaderinfo (h.incoming d hd)
  rw [headerPtr, headerPtr, hinfo]
  exact if_congr (by rw [Used, Used, h.use d hd]) rfl rfl

theorem Apart.midPacket (h : Apart c s s') (hd : d ≠ c) : s'.MidPacket d ↔ s.MidPacket d := by
  have hcurstat : (s'.conn d).curstat = (s.conn d).curstat :=
    congrArg Incoming.curstat (h.incoming d hd)
  simp only [MidPacket, Used, h.use d hd, hcurstat, h.free d hd]

/-- The rule for a step on behalf of one connection. -/
theorem Headers.act (headers : s.Headers) (inv : s.Inv) (apart : Apart c s s')
    (act : Act s.memory (s.headerPtr c) (s.MidPacket c) s'.memory (s'.headerPtr c)
      (s'.MidPacket c))
    (own : s'.Open c → (s'.conn c).curstat ≠ .hdInit → ∃ b, Holding s' c b) : s'.Headers where
  owned := headers.owned.act act fun _ hd => ⟨apart.ptr hd, (apart.midPacket hd).mp⟩
  holding d hopen hstate := by
    by_cases hd : d = c
    · subst hd
      exact own hopen hstate
    · have hold := apart.opened d hd hopen
      have hincoming := apart.incoming d hd
      have hstate' : (s.conn d).curstat ≠ .hdInit := by
        rw [show (s'.conn d).curstat = (s.conn d).curstat from congrArg Incoming.curstat hincoming]
          at hstate
        exact hstate
      obtain ⟨b, hholding⟩ := headers.holding d hold hstate'
      have hptr : s.headerPtr d = some b := headerPtr_eq_some.mpr ⟨hold.1, hholding.info⟩
      refine ⟨b, hholding.congr hincoming (act.others b (headers.owned.past d b hptr) fun hc => ?_)⟩
      exact hd (headers.owned.unique c d b hc ⟨hold.1, inv.not_free hold.2, hstate'⟩ hptr).symm

/-- A readable event, as far as the header blocks are concerned. -/
inductive ReadsHeader (s s' : State) (c : ConnId) (env : Env) : Prop
  | stays (mid : (s.conn c).curstat ≠ .hdInit) (memory : s'.memory = s.memory)
      (state : (s'.conn c).curstat = (s.conn c).curstat)
      (info : (s'.conn c).pHeaderinfo = (s.conn c).pHeaderinfo)
      (own : s'.Open c → ∃ b, Holding s' c b)
  | own {b : Nat} (mid : (s.conn c).curstat ≠ .hdInit) (hopen : s.Open c)
      (info : (s.conn c).pHeaderinfo = some b) (fate : Fate s s' c b)
  | fresh (init : (s.conn c).curstat = .hdInit) (fed : ¬ s.Starves c env)
      (fate : Fate (s.allocHeader c) s' c s.memory.next)
  | lost (init : (s.conn c).curstat = .hdInit) (starves : s.Starves c env)
      (waits : Waits (s.allocHeader c) s' c)

theorem starves_congr (openFds : t.openFds = s.openFds) (fd : (t.conn c).fd = (s.conn c).fd) :
    t.Starves c env ↔ s.Starves c env := by
  rw [Starves, Starves, openFds, fd]

theorem Starves.of_closed (hclosed : s.openFds (s.conn c).fd = false) : s.Starves c env := by
  unfold Starves
  split
  · exact hclosed
  · exact .inl hclosed
  · exact .inl hclosed

theorem ReadFrame.opened {now : Time} (h : ReadFrame c now s s') (hopen : s'.Open d) :
    s.Open d := by
  cases h with
  | stays h =>
      obtain ⟨blocks, queue, incoming, rfl⟩ := h
      by_cases hd : d = c <;> simpa [Open, Used, hd] using hopen
  | closes opened h =>
      obtain ⟨blocks, queue, incoming, rfl⟩ := h
      by_cases hd : d = c
      · exact absurd (by simp [afterClose, hd]) hopen.2
      · simpa [Open, Used, afterClose, hd] using hopen

theorem ReadFrame.free {now : Time} (h : ReadFrame c now s s') :
    s'.freeConnectionList = s.freeConnectionList := by
  cases h with
  | stays h =>
      obtain ⟨blocks, queue, incoming, rfl⟩ := h
      rfl
  | closes opened h =>
      obtain ⟨blocks, queue, incoming, rfl⟩ := h
      rfl

theorem ReadFrame.apart {now : Time} (h : ReadFrame c now s s') : Apart c s s' := by
  refine ⟨fun d _ => congrFun h.untouched.2 d, fun d _ => by rw [h.free], fun d hd => ?_,
    fun d _ => h.opened⟩
  cases h with
  | stays h =>
      obtain ⟨blocks, queue, incoming, rfl⟩ := h
      simp [hd]
  | closes opened h =>
      obtain ⟨blocks, queue, incoming, rfl⟩ := h
      simp [afterClose, hd]

theorem Waits.stays (waits : Waits s s' c) (headers : s.Headers)
    (mid : (s.conn c).curstat ≠ .hdInit) (opened : s'.Open c → s.Open c) :
    ReadsHeader s s' c env := by
  refine .stays mid waits.memory (congrArg Incoming.curstat waits.incoming)
    (congrArg Incoming.pHeaderinfo waits.incoming) fun hopen => ?_
  obtain ⟨b, hholding⟩ := headers.holding c (opened hopen) mid
  exact ⟨b, hholding.congr waits.incoming (by rw [waits.memory])⟩

theorem recvproc_closed (hfd : (s.conn c).fd = -1) (hclosed : s.openFds (s.conn c).fd = false)
    (buf : RecvBuf) (len : Nat) : s.recvproc c buf len env = some (s, none) := by
  rw [hfd] at hclosed
  simp [recvproc, sysRecv, hfd, hclosed, closeAcceptedConnection]

/-- The body states of a connection that is closed already. -/
theorem receiveBody_closed (inv : s.Inv) (hfd : (s.conn c).fd = -1)
    (state : (s.conn c).curstat = .bdInit ∨ (s.conn c).curstat = .bdRecving)
    (h : s.receiveBody c env = some s') : s' = s.forgetMsgrecv c := by
  have hstate : ¬ ((s.conn c).curstat ≠ .bdInit ∧ (s.conn c).curstat ≠ .bdRecving) :=
    or_iff_not_and_not.mp state
  simp only [receiveBody, pkgBodyRecv, if_neg hstate, recvproc_closed hfd (inv.closed hfd),
    Option.some.injEq] at h
  exact h.symm

theorem receiveBody_readsHeader (inv : s.Inv) (used : s.Used c) (headers : s.Headers)
    (state : (s.conn c).curstat = .bdInit ∨ (s.conn c).curstat = .bdRecving)
    (opened : s'.Open c → s.Open c) (h : s.receiveBody c env = some s') :
    ReadsHeader s s' c env := by
  have hmid : (s.conn c).curstat ≠ .hdInit := by
    intro hinit
    rcases state with hstate | hstate <;> exact absurd (hinit.symm.trans hstate) nofun
  by_cases hfd : (s.conn c).fd = -1
  · obtain rfl := receiveBody_closed inv hfd state h
    exact .stays hmid rfl (by simp) (by simp) fun hopen => absurd hfd (opened hopen).2
  · obtain ⟨b, hholding⟩ := headers.holding c ⟨used, hfd⟩ hmid
    cases hholding with
    | header hstate inside =>
        rcases state with hbody | hbody <;> exact absurd (hstate.symm.trans hbody) nofun
    | body _ info live buf =>
        exact .own hmid ⟨used, hfd⟩ info
          (receiveBody_fate (inv.idle_of_used used) state info live buf h)

theorem readable_readsHeader (inv : s.Inv) (used : s.Used c) (headers : s.Headers)
    (h : s.eventReadableRequestHandler c env = some s') : ReadsHeader s s' c env := by
  have hidle := inv.idle_of_used used
  have hframe := readable_frame hidle h
  simp only [eventReadableRequestHandler] at h
  cases hstate : (s.conn c).curstat with
  | hdInit =>
      rw [hstate] at h
      have halloc : (s.allocHeader c).Starves c env ↔ s.Starves c env :=
        starves_congr rfl (by simp)
      have hidle' : (s.allocHeader c).Idle c := hidle.receiveOnly ⟨_, _, _, rfl⟩
      by_cases hstarves : s.Starves c env
      · exact .lost hstate hstarves (receiveHeader_starved hidle' (halloc.mpr hstarves) h)
      · exact .fresh hstate hstarves (receiveHeader_fed allocHeader_inside
          (.inl (by simpa using hstate)) (fun hs => hstarves (halloc.mp hs)) h)
  | hdRecving =>
      rw [hstate] at h
      have hmid : (s.conn c).curstat ≠ .hdInit := by simp [hstate]
      simp only at h
      split at h
      · obtain rfl := Option.some.inj h
        exact Waits.stays ⟨rfl, rfl⟩ headers hmid id
      · by_cases hstarves : s.Starves c env
        · exact (receiveHeader_starved hidle hstarves h).stays headers hmid hframe.opened
        · have hopen : s.Open c := ⟨used, fun hfd => hstarves (.of_closed (inv.closed hfd))⟩
          obtain ⟨b, hholding⟩ := headers.holding c hopen hmid
          cases hholding with
          | header _ inside =>
              exact .own hmid hopen inside.info (receiveHeader_fed inside (.inr hstate) hstarves h)
          | body state => simp [hstate] at state
  | bdInit =>
      rw [hstate] at h
      simp only at h
      split at h
      · obtain rfl := Option.some.inj h
        exact Waits.stays ⟨rfl, rfl⟩ headers (by simp [hstate]) id
      · exact receiveBody_readsHeader inv used headers (.inl hstate) hframe.opened h
  | bdRecving =>
      rw [hstate] at h
      simp only at h
      split at h
      · obtain rfl := Option.some.inj h
        exact Waits.stays ⟨rfl, rfl⟩ headers (by simp [hstate]) id
      · exact receiveBody_readsHeader inv used headers (.inr hstate) hframe.opened h

/-- All live header blocks are held by connections in the middle of a packet. -/
abbrev HeadersTidy (s : State) : Prop := Tidy s.memory s.headerPtr s.MidPacket

theorem Fate.keeps (fate : Fate s s' c b) (mid : s'.MidPacket c) :
    s'.headerPtr c = some b ∧ s'.memory.get b ≠ none := by
  rcases fate.done with hholding | hdropped
  · exact ⟨headerPtr_eq_some.mpr ⟨mid.1, hholding.info⟩, hholding.live⟩
  · exact absurd hdropped.state mid.2.2

theorem Fate.info (fate : Fate s s' c b) {b' : Nat} (h : s'.headerPtr c = some b') : b' = b := by
  have hinfo := (headerPtr_eq_some.mp h).2
  rcases fate.done with hholding | hdropped
  · exact Option.some.inj (hinfo.symm.trans hholding.info)
  · exact hdropped.info b' hinfo

theorem Fate.holds (fate : Fate s s' c b) (used : s'.Used c) (free : c ∉ s'.freeConnectionList)
    (live : s'.memory.get b ≠ none) : s'.MidPacket c := by
  rcases fate.done with hholding | hdropped
  · exact ⟨used, free, hholding.state⟩
  · exact absurd hdropped.dead live

theorem Fate.holding (fate : Fate s s' c b) (mid : (s'.conn c).curstat ≠ .hdInit) :
    ∃ b, Holding s' c b := by
  rcases fate.done with hholding | hdropped
  · exact ⟨b, hholding⟩
  · exact absurd hdropped.state mid

/-- A readable event keeps the header blocks in order, and all of them in hand unless the
connection starves at the beginning of a packet. -/
theorem ReadsHeader.headers (h : ReadsHeader s s' c env) (headers : s.Headers) (inv : s.Inv)
    (frame : ReadFrame c env.now s s') (used : s.Used c) :
    s'.Headers ∧ (s.HeadersTidy →
      (s'.HeadersTidy ↔ ((s.conn c).curstat = .hdInit → ¬ s.Starves c env))) := by
  have hapart := frame.apart
  have hother : ∀ d, d ≠ c → s'.headerPtr d = s.headerPtr d ∧ (s'.MidPacket d ↔ s.MidPacket d) :=
    fun d hd => ⟨hapart.ptr hd, hapart.midPacket hd⟩
  have hused : s'.Used c := by
    rw [Used, frame.untouched.2]
    exact used
  have howned := headers.owned
  cases h with
  | stays mid memory state info own =>
      have hmid : s'.MidPacket c ↔ s.MidPacket c := by
        rw [MidPacket, MidPacket, frame.free, state, Used, Used, frame.untouched.2]
      have hptr : s'.headerPtr c = s.headerPtr c := by
        rw [headerPtr, headerPtr, if_pos hused, if_pos used, info]
      refine ⟨headers.act inv hapart ?_ fun hopen _ => own hopen, fun tidy => ?_⟩
      · rw [memory, hptr]
        exact howned.act_stay hmid.mp
      · rw [HeadersTidy, memory, howned.tidy_stay_iff tidy hmid.mp hptr hother]
        exact iff_of_true hmid.mpr fun init => absurd init mid
  | own mid hopen info fate =>
      have hheld : s.MidPacket c := ⟨used, inv.not_free hopen.2, mid⟩
      have hptr := headerPtr_eq_some.mpr ⟨used, info⟩
      refine ⟨headers.act inv hapart ?_ fun _ => fate.holding, fun tidy => ?_⟩
      · exact howned.act_own hheld hptr fate.only (fun _ => fate.info) fate.keeps
      · refine iff_of_true ?_ fun init => absurd init mid
        refine howned.tidy_own tidy hheld hptr fate.only (fun _ => fate.info) fate.keeps ?_ hother
        exact fate.holds hused (frame.free ▸ hheld.2.1)
  | fresh init fed fate =>
      have hidle : ¬ s.MidPacket c := fun hmid => hmid.2.2 init
      refine ⟨headers.act inv hapart ?_ fun _ => fate.holding, fun tidy => ?_⟩
      · exact howned.act_new fate.only (fun _ => fate.info) fate.keeps
      · rw [HeadersTidy, howned.tidy_new_iff tidy hidle fate.only (fun _ => fate.info) fate.keeps hother]
        have hfree : c ∉ s.freeConnectionList :=
          inv.not_free fun hfd => fed (.of_closed (inv.closed hfd))
        exact iff_of_true (fate.holds hused (frame.free ▸ hfree)) fun _ => fed
  | lost init starves waits =>
      have hidle : ¬ s.MidPacket c := fun hmid => hmid.2.2 init
      have hidle' : ¬ s'.MidPacket c := fun hmid => hmid.2.2 <| by
        rw [show (s'.conn c).curstat = _ from congrArg Incoming.curstat waits.incoming]
        simpa using init
      have hinfo : (s'.conn c).pHeaderinfo = some s.memory.next := by
        rw [show (s'.conn c).pHeaderinfo = _ from congrArg Incoming.pHeaderinfo waits.incoming]
        simp
      have hlast : ∀ b, s'.headerPtr c = some b → b = s.memory.next := fun b hb =>
        Option.some.inj ((headerPtr_eq_some.mp hb).2.symm.trans hinfo)
      have honly : Heap.Only s.memory.next (s.memory.alloc (List.replicate pkgHeaderLen 0)).2
          s'.memory := by
        rw [waits.memory]
        exact .refl _ _
      refine ⟨headers.act inv hapart ?_ fun _ hmid => ?_, fun tidy => ?_⟩
      · exact howned.act_new honly hlast fun hmid => absurd hmid hidle'
      · refine absurd ?_ hmid
        rw [show (s'.conn c).curstat = _ from congrArg Incoming.curstat waits.incoming]
        simpa using init
      · rw [HeadersTidy, howned.tidy_new_iff tidy hidle honly hlast (fun hmid => absurd hmid hidle') hother]
        refine iff_of_false (fun hheld => hidle' (hheld ?_)) fun hfed => hfed init starves
        rw [waits.memory, allocHeader_toBlocks, Heap.get_alloc_self]
        exact Option.some_ne_none _

/-- What keeps a readable event from coming to its end: `recv` cannot answer like this,
`close` fails, or the bytes do not fit behind `p_recvbuf` in a message block. -/
inductive Blocked (s : State) (c : ConnId) (env : Env) : Prop
  | answer (h : s.sysRecv (s.conn c).fd (s.requested c) env.recv = none)
  | close (h : env.close = false)
  | message {p : Ptr} {bytes : List UInt8}
      (state : (s.conn c).curstat = .bdInit ∨ (s.conn c).curstat = .bdRecving)
      (buf : (s.conn c).pRecvbuf = .message p) (recv : env.recv = .data bytes)
      (full : s.store (.message p) bytes = none)

theorem closeAcceptedConnection_none (inv : s.Inv) (used : s.Used c) {istimeoutClose : Bool}
    (h : s.closeAcceptedConnection c istimeoutClose env = none) : env.close = false := by
  by_contra hclose
  simp only [closeAcceptedConnection, openFds_epollDel] at h
  split at h
  · cases h
  next hfd =>
    split at h
    · cases h
    · have hopen := inv.wired.opened c (inv.wired.used c used).1 hfd
      rw [if_pos (by simp [hclose, hopen])] at h
      cases h

theorem sysRecv_data {fd : Fd} {len : Nat} {answer : RecvAnswer} {bytes : List UInt8}
    (h : s.sysRecv fd len answer = some (.data bytes)) :
    answer = .data bytes ∧ bytes.length ≤ len := by
  simp only [sysRecv] at h
  split at h
  · cases answer with
    | data bytes' =>
        simp only at h
        split at h
        next hlen =>
          obtain rfl := RecvAnswer.data.inj (Option.some.inj h)
          exact ⟨rfl, hlen.2⟩
        · cases h
    | zero errno | failed errno => cases h
  · cases h

/-- Why a read is stuck. -/
theorem recvproc_stuck (inv : s.Inv) (used : s.Used c) {buf : RecvBuf} {len : Nat}
    (h : s.recvproc c buf len env = none) :
    s.sysRecv (s.conn c).fd len env.recv = none ∨ env.close = false ∨
      ∃ bytes, env.recv = .data bytes ∧ bytes.length ≤ len ∧ s.store buf bytes = none := by
  simp only [recvproc] at h
  split at h
  next hnone => exact .inl hnone
  next bytes hdata =>
    obtain ⟨hrecv, hlen⟩ := sysRecv_data hdata
    exact .inr (.inr ⟨bytes, hrecv, hlen, Option.map_eq_none_iff.mp h⟩)
  · cases h
  · cases h
  · exact .inr (.inl (closeAcceptedConnection_none inv used (Option.map_eq_none_iff.mp h)))
  · cases h
  · cases h
  · exact .inr (.inl (closeAcceptedConnection_none inv used (Option.map_eq_none_iff.mp h)))

theorem pkgBodyProc_some (info : (s.conn c).pHeaderinfo = some b) (live : s.memory.get b ≠ none) :
    s.pkgBodyProc c ≠ none := by
  obtain ⟨block, hlive⟩ := Option.ne_none_iff_exists'.mp live
  simp [pkgBodyProc, freeMemory, info, Heap.free, hlive]

theorem pkgHeaderProc_some (info : (s.conn c).pHeaderinfo = some b) (live : s.memory.get b ≠ none) :
    s.pkgHeaderProc c ≠ none := by
  obtain ⟨block, hlive⟩ := Option.ne_none_iff_exists'.mp live
  simp only [pkgHeaderProc, info, Option.bind_some, hlive]
  split
  · simp [freeMemory, Heap.free, hlive]
  · split
    · exact pkgBodyProc_some (by simpa using info) (by simpa using live)
    · exact Option.some_ne_none _

/-- The header states do not get stuck over their block. -/
theorem receiveHeader_stuck (inv : s.Inv) (used : s.Used c)
    (state : (s.conn c).curstat = .hdInit ∨ (s.conn c).curstat = .hdRecving)
    (holding : (s.conn c).fd ≠ -1 → ∃ b block got, InHeader s c b block got)
    (h : s.receiveHeader c env = none) :
    s.sysRecv (s.conn c).fd (s.conn c).recvlen env.recv = none ∨ env.close = false := by
  have hstate : ¬ ((s.conn c).curstat ≠ .hdInit ∧ (s.conn c).curstat ≠ .hdRecving) :=
    or_iff_not_and_not.mp state
  by_cases hfd : (s.conn c).fd = -1
  · simp [receiveHeader, pkgHeaderRecv, hstate, recvproc_closed hfd (inv.closed hfd)] at h
  obtain ⟨b, block, got, inside⟩ := holding hfd
  have hlength := inside.length
  have hshort := inside.short
  have hwanted := inside.wanted
  simp only [receiveHeader] at h
  split at h
  next hrecv =>
    simp only [pkgHeaderRecv, if_neg hstate] at hrecv
    split at hrecv
    next hproc =>
      rcases recvproc_stuck inv used hproc with hnone | hclose | ⟨bytes, -, hlen, hfull⟩
      · exact .inl hnone
      · exact .inr hclose
      · rw [inside.buf, store_header _ inside.live _ (by omega)] at hfull
        cases hfull
    · cases hrecv
    · cases hrecv
  · cases h
  next t n hrecv =>
    have hfed : ¬ s.Starves c env := by
      intro hstarves
      simp only [pkgHeaderRecv, if_neg hstate] at hrecv
      split at hrecv
      · cases hrecv
      · obtain ⟨-, hr⟩ := Prod.mk.inj (Option.some.inj hrecv)
        cases hr
      next hproc =>
        have hr := (recvproc_starved (inv.idle_of_used used) hstarves hproc).1
        cases hr
    split at h
    next hfull =>
      rcases pkgHeaderRecv_fed inside state hfed hrecv with ⟨-, hr⟩ | ⟨bytes, -, -, rfl, -⟩
      · obtain rfl := Option.some.inj hr
        omega
      · refine absurd h (pkgHeaderProc_some (headerRead_info inside) ?_)
        simp [headerRead, advance]
    · cases h

/-- The body states do not get stuck over the header block either. -/
theorem receiveBody_stuck (inv : s.Inv) (used : s.Used c)
    (state : (s.conn c).curstat = .bdInit ∨ (s.conn c).curstat = .bdRecving)
    (holding : (s.conn c).fd ≠ -1 → ∃ b, (s.conn c).pHeaderinfo = some b ∧
      s.memory.get b ≠ none ∧ ∃ p, (s.conn c).pRecvbuf = .message p)
    (h : s.receiveBody c env = none) :
    s.sysRecv (s.conn c).fd (s.conn c).recvlen env.recv = none ∨ env.close = false ∨
      ∃ p bytes, (s.conn c).pRecvbuf = .message p ∧ env.recv = .data bytes ∧
        s.store (.message p) bytes = none := by
  have hstate : ¬ ((s.conn c).curstat ≠ .bdInit ∧ (s.conn c).curstat ≠ .bdRecving) :=
    or_iff_not_and_not.mp state
  by_cases hfd : (s.conn c).fd = -1
  · simp [receiveBody, pkgBodyRecv, hstate, recvproc_closed hfd (inv.closed hfd)] at h
  obtain ⟨b, info, live, p, buf⟩ := holding hfd
  simp only [receiveBody] at h
  split at h
  next hrecv =>
    simp only [pkgBodyRecv, if_neg hstate] at hrecv
    split at hrecv
    next hproc =>
      rcases recvproc_stuck inv used hproc with hnone | hclose | ⟨bytes, hbytes, -, hfull⟩
      · exact .inl hnone
      · exact .inr (.inl hclose)
      · exact .inr (.inr ⟨p, bytes, buf, hbytes, buf ▸ hfull⟩)
    · cases hrecv
    · cases hrecv
  · cases h
  next t n hrecv =>
    split at h
    next hfull =>
      obtain ⟨u, hproc, rfl⟩ : ∃ u, s.recvproc c (s.conn c).pRecvbuf (s.conn c).recvlen env =
          some (u, some n) ∧ t = u.advance c n := by
        simp only [pkgBodyRecv, if_neg hstate] at hrecv
        split at hrecv
        · cases hrecv
        · obtain ⟨-, hr⟩ := Prod.mk.inj (Option.some.inj hrecv)
          cases hr
        next u m hproc =>
          obtain ⟨rfl, hr⟩ := Prod.mk.inj (Option.some.inj hrecv)
          obtain rfl := Option.some.inj hr
          exact ⟨u, hproc, rfl⟩
      obtain ⟨hmemory, hincoming⟩ := recvproc_message_waits (inv.idle_of_used used) buf hproc
      refine absurd h (pkgBodyProc_some (b := b) ?_ ?_)
      · simpa [advance] using (congrArg Incoming.pHeaderinfo hincoming).trans info
      · simpa [advance, hmemory] using live
    · cases h

/-- A readable event never gets stuck over a header block: none is used or freed after it
was freed. -/
theorem readable_blocked (inv : s.Inv) (used : s.Used c) (headers : s.Headers)
    (h : s.eventReadableRequestHandler c env = none) : s.Blocked c env := by
  have hbody : (s.conn c).curstat = .bdInit ∨ (s.conn c).curstat = .bdRecving →
      s.receiveBody c env = none → s.Blocked c env := by
    intro hstate hnone
    have hrequested : s.requested c = (s.conn c).recvlen := by
      rcases hstate with hstate | hstate <;> simp [requested, hstate]
    have hholding : (s.conn c).fd ≠ -1 → ∃ b, (s.conn c).pHeaderinfo = some b ∧
        s.memory.get b ≠ none ∧ ∃ p, (s.conn c).pRecvbuf = .message p := by
      intro hfd
      have hmid : (s.conn c).curstat ≠ .hdInit := by
        rcases hstate with hstate | hstate <;> simp [hstate]
      obtain ⟨b, hholding⟩ := headers.holding c ⟨used, hfd⟩ hmid
      cases hholding with
      | header hheader inside => rcases hstate with hstate | hstate <;> simp [hstate] at hheader
      | body _ info live buf => exact ⟨b, info, live, buf⟩
    rcases receiveBody_stuck inv used hstate hholding hnone with
      hanswer | hclose | ⟨p, bytes, hbuf, hrecv, hfull⟩
    · exact .answer (hrequested ▸ hanswer)
    · exact .close hclose
    · exact .message hstate hbuf hrecv hfull
  simp only [eventReadableRequestHandler] at h
  cases hstate : (s.conn c).curstat with
  | hdInit =>
      rw [hstate] at h
      have hquiet : Quiet s (s.allocHeader c) := quiet_allocHeader
      rcases receiveHeader_stuck (hquiet.toNeutral.inv inv) (hquiet.used_iff.mpr used)
        (.inl (by simpa using hstate)) (fun _ => ⟨_, _, _, allocHeader_inside⟩) h with
        hanswer | hclose
      · refine .answer ?_
        rw [requested, if_pos hstate]
        simpa [sysRecv] using hanswer
      · exact .close hclose
  | hdRecving =>
      rw [hstate] at h
      simp only at h
      split at h
      · cases h
      · have hholding : (s.conn c).fd ≠ -1 → ∃ b block got, InHeader s c b block got := by
          intro hfd
          obtain ⟨b, hholding⟩ := headers.holding c ⟨used, hfd⟩ (by simp [hstate])
          cases hholding with
          | header _ inside => exact ⟨b, _, _, inside⟩
          | body hbody => simp [hstate] at hbody
        rcases receiveHeader_stuck inv used (.inr hstate) hholding h with hanswer | hclose
        · refine .answer ?_
          rwa [requested, if_neg (by simp [hstate])]
        · exact .close hclose
  | bdInit =>
      rw [hstate] at h
      simp only at h
      split at h
      · cases h
      · exact hbody (.inl hstate) h
  | bdRecving =>
      rw [hstate] at h
      simp only at h
      split at h
      · cases h
      · exact hbody (.inr hstate) h

end State

end MyNginx
