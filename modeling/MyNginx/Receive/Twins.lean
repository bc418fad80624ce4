import MyNginx.Foundation.Widening
import MyNginx.Server.Receivers

/-!
# States that differ by one header block

Two states are twins when one of them has had one more header block allocated and nothing
else is different, except that a connection which waits for a packet may have any
`p_headerinfo`, `p_recvbuf` and `recvlen`: its next readable event sets them. The functions
that receive lead from twins to twins; inside the handler the members of the connection
being served count in every state (`live`).
-/

namespace MyNginx

open Foundation

/-- The pointer where one more header block has been allocated at `k`. -/
def RecvBuf.shift (k : Nat) : RecvBuf → RecvBuf
  | .header p => .header ⟨Heap.shift k p.block, p.off⟩
  | buf => buf

theorem RecvBuf.shift_add (k : Nat) (buf : RecvBuf) (n : Nat) :
    (buf.add n).shift k = (buf.shift k).add n := by
  cases buf <;> rfl

/-- The receive machines of a connection in two twins. -/
structure Incoming.Twin (k : Nat) (counts : CurStat → Prop) (i j : Incoming) : Prop where
  curstat : j.curstat = i.curstat
  pMsgrecv : j.pMsgrecv = i.pMsgrecv
  recvStr : j.recvStr = i.recvStr
  recvlenAlready : j.recvlenAlready = i.recvlenAlready
  own : counts i.curstat → j.pHeaderinfo = i.pHeaderinfo.map (Heap.shift k) ∧
    j.pRecvbuf = i.pRecvbuf.shift k ∧ j.recvlen = i.recvlen

theorem Incoming.Twin.start (k : Nat) (counts : CurStat → Prop) :
    Incoming.Twin k counts State.Incoming.start State.Incoming.start :=
  ⟨rfl, rfl, rfl, rfl, fun _ => ⟨rfl, rfl, rfl⟩⟩

namespace State

/-- All of a state but the parts that belong to receiving. -/
def unreceived (s : State) : State := s.withReceiving ⟨.empty, .empty⟩ fun _ => Incoming.start

structure Twin (k : Nat) (counts : ConnId → CurStat → Prop) (s t : State) : Prop where
  rest : t.unreceived = s.unreceived
  messages : t.messages = s.messages
  memory : Heap.Widens k s.memory t.memory
  incoming : ∀ c, (s.conn c).toIncoming.Twin k (counts c) (t.conn c).toIncoming

variable {α β : Type} {k : Nat} {counts : ConnId → CurStat → Prop}
  {s s' t : State} {c d : ConnId} {env : Env}

theorem eq_withReceiving (h : t.unreceived = s.unreceived) :
    t = s.withReceiving t.toBlocks fun c => (t.conn c).toIncoming := by
  have hback : ∀ s : State, s.withReceiving t.toBlocks (fun c => (t.conn c).toIncoming) =
      s.unreceived.withReceiving t.toBlocks fun c => (t.conn c).toIncoming := fun _ => rfl
  rw [hback, ← h]
  rfl

/-! ### The functions that do not look -/

/-- A function that does not look at the receive machines leads from twins to twins. -/
theorem Twin.blind {f : State → Option State}
    (blind : ∀ s blocks incoming,
      f (s.withReceiving blocks incoming) = (f s).map (·.withReceiving blocks incoming))
    (twin : Twin k counts s t) : Option.Rel (Twin k counts) (f s) (f t) := by
  rw [eq_withReceiving twin.rest, blind]
  cases hf : f s with
  | none => exact .none
  | some s' =>
      have hown : s' = s'.withReceiving s.toBlocks fun c => (s.conn c).toIncoming := by
        have hself := blind s s.toBlocks fun c => (s.conn c).toIncoming
        rw [← eq_withReceiving rfl, hf] at hself
        exact Option.some.inj hself
      refine .some ⟨rfl, ?_, ?_, ?_⟩
      · rw [hown]
        exact twin.messages
      · rw [hown]
        exact twin.memory
      · rw [hown]
        exact twin.incoming

/-- The same for a function that always succeeds. -/
theorem Twin.blindly {f : State → State}
    (blind : ∀ s blocks incoming,
      f (s.withReceiving blocks incoming) = (f s).withReceiving blocks incoming)
    (twin : Twin k counts s t) : Twin k counts (f s) (f t) := by
  have hrel := twin.blind (f := fun s => some (f s)) fun s blocks incoming =>
    congrArg some (blind s blocks incoming)
  cases hrel with
  | some htwin => exact htwin

theorem Twin.conn_eq (twin : Twin k counts s t) (c : ConnId) :
    t.conn c = { s.conn c with toIncoming := (t.conn c).toIncoming } :=
  congrFun (congrArg State.conn (eq_withReceiving twin.rest)) c

theorem Twin.conn_fd (twin : Twin k counts s t) (c : ConnId) : (t.conn c).fd = (s.conn c).fd := by
  rw [twin.conn_eq c]

theorem Twin.openFds (twin : Twin k counts s t) : t.openFds = s.openFds := by
  change t.unreceived.openFds = s.unreceived.openFds
  rw [twin.rest]

theorem Twin.own (twin : Twin k counts s t) (hcounts : counts c (s.conn c).curstat) :
    (t.conn c).pHeaderinfo = (s.conn c).pHeaderinfo.map (Heap.shift k) ∧
      (t.conn c).pRecvbuf = (s.conn c).pRecvbuf.shift k ∧ (t.conn c).recvlen = (s.conn c).recvlen :=
  (twin.incoming c).own hcounts

theorem Twin.mono {counts' : ConnId → CurStat → Prop} (twin : Twin k counts s t)
    (h : ∀ c, counts' c (s.conn c).curstat → counts c (s.conn c).curstat) :
    Twin k counts' s t where
  rest := twin.rest
  messages := twin.messages
  memory := twin.memory
  incoming c :=
    { curstat := (twin.incoming c).curstat
      pMsgrecv := (twin.incoming c).pMsgrecv
      recvStr := (twin.incoming c).recvStr
      recvlenAlready := (twin.incoming c).recvlenAlready
      own := fun hcounts => (twin.incoming c).own (h c hcounts) }

/-! ### Blocks and receive machines -/

/-- Other blocks, and another receive machine for one connection. -/
def setIncoming (s : State) (blocks : Blocks) (c : ConnId) (incoming : Incoming) : State :=
  { s with
    toBlocks := blocks
    conn := Function.update s.conn c { s.conn c with toIncoming := incoming } }

theorem unreceived_setIncoming (s : State) (blocks : Blocks) (c : ConnId) (incoming : Incoming) :
    (s.setIncoming blocks c incoming).unreceived = s.unreceived := by
  have hconn : (s.setIncoming blocks c incoming).unreceived.conn = s.unreceived.conn := by
    funext d
    by_cases hd : d = c
    · subst hd
      simp [setIncoming, State.unreceived]
    · simp [setIncoming, State.unreceived, hd]
  exact (show (s.setIncoming blocks c incoming).unreceived =
    { s.unreceived with conn := (s.setIncoming blocks c incoming).unreceived.conn } from rfl).trans
      (by rw [hconn])

theorem Twin.setIncoming (twin : Twin k counts s t) {blocks blocks' : Blocks} {i j : Incoming}
    (messages : blocks'.messages = blocks.messages)
    (memory : Heap.Widens k blocks.memory blocks'.memory) (incoming : i.Twin k (counts c) j) :
    Twin k counts (s.setIncoming blocks c i) (t.setIncoming blocks' c j) where
  rest := by rw [unreceived_setIncoming, unreceived_setIncoming, twin.rest]
  messages := messages
  memory := memory
  incoming d := by
    by_cases hd : d = c
    · subst hd
      simpa [State.setIncoming] using incoming
    · simpa [State.setIncoming, hd] using twin.incoming d

theorem Twin.withoutMsgrecv (twin : Twin k counts s t) (c : ConnId) :
    t.withoutMsgrecv c = s.withoutMsgrecv c := by
  have howner : (t.conn c).pMsgrecv = (s.conn c).pMsgrecv := (twin.incoming c).pMsgrecv
  simp only [State.withoutMsgrecv, howner, twin.messages]

theorem Twin.putToStateMach (twin : Twin k counts s t) (c : ConnId) :
    Twin k counts (s.putToStateMach c) (t.putToStateMach c) :=
  twin.setIncoming (twin.withoutMsgrecv c) twin.memory (.start k _)

theorem Twin.forgetMsgrecv (twin : Twin k counts s t) (c : ConnId) :
    Twin k counts (s.forgetMsgrecv c) (t.forgetMsgrecv c) := by
  obtain ⟨curstat, -, -, already, own⟩ := twin.incoming c
  exact twin.setIncoming (twin.withoutMsgrecv c) twin.memory ⟨curstat, rfl, rfl, already, own⟩

theorem Twin.setMemory (twin : Twin k counts s t) {m m' : Heap (List UInt8)}
    (wide : Heap.Widens k m m') : Twin k counts (s.setMemory m) (t.setMemory m') :=
  ⟨twin.rest, twin.messages, wide, twin.incoming⟩

theorem Twin.setMessages (twin : Twin k counts s t) (m : Heap Message) :
    Twin k counts (s.setMessages m) (t.setMessages m) :=
  ⟨twin.rest, rfl, twin.memory, twin.incoming⟩

theorem Twin.freeMemory (twin : Twin k counts s t) (info : Option Nat) :
    Option.Rel (Twin k counts) (s.freeMemory info) (t.freeMemory (info.map (Heap.shift k))) := by
  cases info with
  | none => exact .some twin
  | some b => exact rel_map (twin.memory.free b) fun _ _ wide => twin.setMemory wide

theorem Twin.store (twin : Twin k counts s t) (buf : RecvBuf) (bytes : List UInt8) :
    Option.Rel (Twin k counts) (s.store buf bytes) (t.store (buf.shift k) bytes) := by
  cases buf with
  | null => exact .none
  | header p => exact rel_map (twin.memory.update p.block _) fun _ _ wide => twin.setMemory wide
  | message p =>
      simp only [State.store, RecvBuf.shift, twin.messages]
      cases s.messages.update p.block fun msg =>
        if msgHeaderLen ≤ p.off ∧ p.off - msgHeaderLen + bytes.length ≤ msg.buf.length then
          some { msg with buf := overwrite msg.buf (p.off - msgHeaderLen) bytes }
        else none with
      | none => exact .none
      | some messages => exact .some (twin.setMessages messages)

theorem Twin.setState (twin : Twin k counts s t) (served : ∀ state, counts c state) (state : CurStat) :
    Twin k counts (s.modifyConn c fun conn => { conn with curstat := state })
      (t.modifyConn c fun conn => { conn with curstat := state }) := by
  obtain ⟨-, pMsgrecv, recvStr, already, own⟩ := twin.incoming c
  exact twin.setIncoming twin.messages twin.memory
    ⟨rfl, pMsgrecv, recvStr, already, fun _ => own (served _)⟩

theorem Twin.advance (twin : Twin k counts s t) (c : ConnId) (n : Nat) :
    Twin k counts (s.advance c n) (t.advance c n) := by
  obtain ⟨curstat, pMsgrecv, recvStr, already, own⟩ := twin.incoming c
  refine twin.setIncoming twin.messages twin.memory
    ⟨curstat, pMsgrecv, recvStr, congrArg (· + n) already, fun served => ?_⟩
  obtain ⟨hinfo, hbuf, hlen⟩ := own served
  refine ⟨hinfo, ?_, by simp only [hlen]⟩
  simp only [hbuf, hlen]
  split
  · exact (RecvBuf.shift_add k _ n).symm
  · rfl

theorem Twin.clearRecvbuf (twin : Twin k counts s t) (c : ConnId) :
    Twin k counts (s.modifyConn c fun conn => { conn with pRecvbuf := .null })
      (t.modifyConn c fun conn => { conn with pRecvbuf := .null }) := by
  obtain ⟨curstat, pMsgrecv, recvStr, already, own⟩ := twin.incoming c
  exact twin.setIncoming twin.messages twin.memory ⟨curstat, pMsgrecv, recvStr, already,
    fun served => ⟨(own served).1, rfl, (own served).2.2⟩⟩

theorem Twin.inMsgRecv (twin : Twin k counts s t) (msg : Option Message) :
    Twin k counts (s.inMsgRecv msg) (t.inMsgRecv msg) :=
  twin.blindly (f := fun s => s.inMsgRecv msg) fun _ _ _ => rfl

theorem Twin.allocMessage (twin : Twin k counts s t) (served : ∀ state, counts c state) (header : List UInt8) (n : Nat) :
    Twin k counts (s.allocMessage c header n) (t.allocMessage c header n) := by
  have hstamp : t.stampedMessage c header n = s.stampedMessage c header n := by
    rw [eq_withReceiving twin.rest]
    rfl
  obtain ⟨curstat, -, -, already, own⟩ := twin.incoming c
  have hmessages := twin.withoutMsgrecv c
  refine twin.setIncoming ?_ twin.memory
    ⟨curstat, ?_, ?_, already, fun _ => ⟨(own (served _)).1, ?_, rfl⟩⟩
  · simp only [hmessages, hstamp]
  · simp only [hmessages]
  · simp only [hmessages]
  · simp only [hmessages]
    rfl

/-! ### The handler -/

/-- Twins, with the same result of a read. -/
def TwinRead (k : Nat) (counts : ConnId → CurStat → Prop) (p q : State × Option Nat) : Prop :=
  Twin k counts p.1 q.1 ∧ q.2 = p.2

theorem Twin.closeAcceptedConnection (twin : Twin k counts s t) (istimeoutClose : Bool) :
    Option.Rel (Twin k counts) (s.closeAcceptedConnection c istimeoutClose env)
      (t.closeAcceptedConnection c istimeoutClose env) :=
  twin.blind (f := fun s => s.closeAcceptedConnection c istimeoutClose env)
    fun _ _ _ => withReceiving_closeAcceptedConnection istimeoutClose

theorem Twin.recvproc (twin : Twin k counts s t) (buf : RecvBuf) (len : Nat) :
    Option.Rel (TwinRead k counts) (s.recvproc c buf len env)
      (t.recvproc c (buf.shift k) len env) := by
  have hsys : t.sysRecv (t.conn c).fd len env.recv = s.sysRecv (s.conn c).fd len env.recv := by
    simp only [sysRecv, twin.openFds, twin.conn_fd]
  have hclose : Option.Rel (Twin k counts) (s.closeAcceptedConnection c false env)
      (t.closeAcceptedConnection c false env) := twin.closeAcceptedConnection false
  simp only [State.recvproc, hsys]
  cases s.sysRecv (s.conn c).fd len env.recv with
  | none => exact .none
  | some answer =>
      cases answer with
      | data bytes => exact rel_map (twin.store buf bytes) fun _ _ htwin => ⟨htwin, rfl⟩
      | zero errno =>
          cases errno with
          | ok => exact .some ⟨twin, rfl⟩
          | eagain => exact .some ⟨twin, rfl⟩
          | _ => exact rel_map hclose fun _ _ htwin => ⟨htwin, rfl⟩
      | failed errno =>
          cases errno with
          | eintr => exact .some ⟨twin, rfl⟩
          | eagain => exact .some ⟨twin, rfl⟩
          | _ => exact rel_map hclose fun _ _ htwin => ⟨htwin, rfl⟩

/-- Twins stay twins behind a read, whichever of the two ways it goes on. -/
theorem TwinRead.elim {R : α → β → Prop} {p q : Option (State × Option Nat)}
    {f : State → Option α} {f' : State → Option β} {g : State → Nat → Option α}
    {g' : State → Nat → Option β}
    (failed : ∀ s t, Twin k counts s t → Option.Rel R (f s) (f' t))
    (read : ∀ s t n, Twin k counts s t → Option.Rel R (g s n) (g' t n)) :
    Option.Rel (TwinRead k counts) p q → Option.Rel R
      (match p with | none => none | some (s, none) => f s | some (s, some n) => g s n)
      (match q with | none => none | some (t, none) => f' t | some (t, some n) => g' t n) := by
  intro hread
  cases hread with
  | none => exact .none
  | @some p q h =>
      obtain ⟨s, r⟩ := p
      obtain ⟨t, r'⟩ := q
      obtain ⟨htwin, hr⟩ := h
      change r' = r at hr
      subst hr
      cases r' with
      | none => exact failed s t htwin
      | some n => exact read s t n htwin

theorem Twin.pkgHeaderRecv (twin : Twin k counts s t) (served : ∀ state, counts c state) :
    Option.Rel (TwinRead k counts) (s.pkgHeaderRecv c env) (t.pkgHeaderRecv c env) := by
  obtain ⟨-, hbuf, hlen⟩ := twin.own (served _)
  have hcurstat : (t.conn c).curstat = (s.conn c).curstat := (twin.incoming c).curstat
  simp only [State.pkgHeaderRecv, hbuf, hlen, hcurstat]
  split
  · exact .some ⟨twin, rfl⟩
  · exact TwinRead.elim (fun _ _ htwin => .some ⟨htwin, rfl⟩)
      (fun _ _ n htwin => .some ⟨htwin.advance c n, rfl⟩) (twin.recvproc _ _)

theorem Twin.pkgBodyRecv (twin : Twin k counts s t) (served : ∀ state, counts c state) :
    Option.Rel (TwinRead k counts) (s.pkgBodyRecv c env) (t.pkgBodyRecv c env) := by
  obtain ⟨hinfo, hbuf, hlen⟩ := twin.own (served _)
  have hcurstat : (t.conn c).curstat = (s.conn c).curstat := (twin.incoming c).curstat
  simp only [State.pkgBodyRecv, hinfo, hbuf, hlen, hcurstat]
  split
  · exact rel_map ((twin.forgetMsgrecv c).freeMemory _) fun _ _ htwin => ⟨htwin, rfl⟩
  · exact TwinRead.elim (fun _ _ htwin => .some ⟨htwin.forgetMsgrecv c, rfl⟩)
      (fun _ _ n htwin => .some ⟨htwin.advance c n, rfl⟩) (twin.recvproc _ _)

theorem Twin.pkgBodyProc (twin : Twin k counts s t) (served : ∀ state, counts c state) :
    Option.Rel (Twin k counts) (s.pkgBodyProc c) (t.pkgBodyProc c) := by
  have howner : (t.conn c).pMsgrecv = (s.conn c).pMsgrecv := (twin.incoming c).pMsgrecv
  simp only [State.pkgBodyProc, howner, twin.messages]
  have hqueued := twin.inMsgRecv ((s.conn c).pMsgrecv.bind s.messages.get)
  have hcleared := (hqueued.clearRecvbuf c).forgetMsgrecv c
  obtain ⟨hinfo, -, -⟩ := hcleared.own (c := c) (served _)
  rw [hinfo]
  exact rel_map (hcleared.freeMemory _) fun _ _ htwin => Twin.putToStateMach htwin c

theorem Twin.pkgHeaderProc (twin : Twin k counts s t) (served : ∀ state, counts c state) :
    Option.Rel (Twin k counts) (s.pkgHeaderProc c) (t.pkgHeaderProc c) := by
  obtain ⟨hinfo, -, -⟩ := twin.own (served _)
  simp only [State.pkgHeaderProc, hinfo]
  cases (s.conn c).pHeaderinfo with
  | none => exact .none
  | some b =>
      simp only [Option.map_some, Option.bind_some, twin.memory.get]
      cases s.memory.get b with
      | none => exact .none
      | some header =>
          simp only [Option.bind_some]
          split
          · exact rel_map (twin.freeMemory (some b)) fun _ _ htwin => htwin.setState served .hdInit
          · have htwin := twin.allocMessage served header (pkgLen header - pkgHeaderLen)
            split
            · exact htwin.pkgBodyProc served
            · exact .some (htwin.setState served .bdInit)

theorem Twin.receiveHeader (twin : Twin k counts s t) (served : ∀ state, counts c state) :
    Option.Rel (Twin k counts) (s.receiveHeader c env) (t.receiveHeader c env) := by
  obtain ⟨-, -, hlen⟩ := twin.own (served _)
  simp only [State.receiveHeader, hlen]
  refine TwinRead.elim (fun _ _ htwin => .some htwin) (fun _ _ n htwin => ?_)
    (twin.pkgHeaderRecv served)
  split
  · exact htwin.pkgHeaderProc served
  · exact .some (htwin.setState served .hdRecving)

theorem Twin.receiveBody (twin : Twin k counts s t) (served : ∀ state, counts c state) :
    Option.Rel (Twin k counts) (s.receiveBody c env) (t.receiveBody c env) := by
  obtain ⟨-, -, hlen⟩ := twin.own (served _)
  simp only [State.receiveBody, hlen]
  refine TwinRead.elim (fun _ _ htwin => .some htwin) (fun _ _ n htwin => ?_)
    (twin.pkgBodyRecv served)
  split
  · exact htwin.pkgBodyProc served
  · exact .some (htwin.setState served .bdRecving)

/-- No connection is being served. The members count of those connections that are `known`
and in the middle of a packet. -/
abbrev Twins (k : Nat) (known : ConnId → Prop) : State → State → Prop :=
  Twin k fun c state => known c ∧ state ≠ .hdInit

/-- The connection `c` is being served. -/
abbrev TwinsServing (k : Nat) (known : ConnId → Prop) (c : ConnId) : State → State → Prop :=
  Twin k fun d state => d = c ∨ known d ∧ state ≠ .hdInit

variable {known : ConnId → Prop}

theorem Twin.idle (twin : TwinsServing k known c s t) : Twins k known s t :=
  twin.mono fun _ => .inr

theorem Twin.serve (twin : Twins k known s t) (hknown : known c)
    (mid : (s.conn c).curstat ≠ .hdInit) : TwinsServing k known c s t := by
  refine twin.mono fun d h => ?_
  rcases h with rfl | hcounts
  · exact ⟨hknown, mid⟩
  · exact hcounts

theorem unreceived_allocHeader (s : State) (c : ConnId) :
    (s.allocHeader c).unreceived = s.unreceived :=
  unreceived_setIncoming s ⟨(s.memory.alloc (List.replicate pkgHeaderLen 0)).2, s.messages⟩ c
    { s.conn c with
      pHeaderinfo := some s.memory.next
      pRecvbuf := .header ⟨s.memory.next, 0⟩
      recvlen := pkgHeaderLen }

theorem Twin.allocHeader (twin : Twins k known s t) (c : ConnId) :
    TwinsServing k known c (s.allocHeader c) (t.allocHeader c) where
  rest := by rw [unreceived_allocHeader, unreceived_allocHeader, twin.rest]
  messages := twin.messages
  memory := twin.memory.alloc _
  incoming d := by
    obtain ⟨curstat, pMsgrecv, recvStr, already, own⟩ := twin.incoming d
    by_cases hd : d = c
    · subst hd
      refine ⟨by simpa using curstat, by simpa using pMsgrecv, by simpa using recvStr,
        by simpa using already, fun _ => ?_⟩
      simp [RecvBuf.shift, twin.memory.shift_next]
    · simp only [allocHeader_conn, Function.update_of_ne hd]
      exact ⟨curstat, pMsgrecv, recvStr, already, fun h => own (h.resolve_left hd)⟩

theorem Twin.readable (twin : Twins k known s t) (hknown : known c) :
    Option.Rel (Twins k known) (s.eventReadableRequestHandler c env)
      (t.eventReadableRequestHandler c env) := by
  have hcurstat : (t.conn c).curstat = (s.conn c).curstat := (twin.incoming c).curstat
  have hidle : ∀ {p q}, Option.Rel (TwinsServing k known c) p q →
      Option.Rel (Twins k known) p q := by
    intro p q h
    cases h with
    | none => exact .none
    | some htwin => exact .some htwin.idle
  have hserved : ∀ state : CurStat, c = c ∨ known c ∧ state ≠ .hdInit := fun _ => .inl rfl
  simp only [eventReadableRequestHandler, hcurstat]
  cases hstate : (s.conn c).curstat with
  | hdInit => exact hidle ((Twin.allocHeader twin c).receiveHeader hserved)
  | hdRecving =>
      have hmid := Twin.serve twin hknown (by simp [hstate])
      simp only [(hmid.own (hserved _)).2.2]
      split
      · exact .some twin
      · exact hidle (hmid.receiveHeader hserved)
  | bdInit | bdRecving =>
      have hmid := Twin.serve twin hknown (by simp [hstate])
      simp only [(hmid.own (hserved _)).2.2]
      split
      · exact .some twin
      · exact hidle (hmid.receiveBody hserved)

end State

end MyNginx
