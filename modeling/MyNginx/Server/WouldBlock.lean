import MyNginx.Server.Regions
import MyNginx.Server.Twins

/-!
# A read that would block

`recvproc` answers -1 when a read would block, as it does behind a close. In the middle of
a header the caller leaves everything as it is, and at its beginning the event has cost a
header block: the server goes on like a twin that has not had the event. In the middle of
a body `pkg_body_recv` gives the message block up, into which `p_recvbuf` still points.
-/

namespace MyNginx

open Foundation

namespace State

variable {s s' t : State} {c d : ConnId} {env : Env}

/-! ### Where `p_recvbuf` points -/

/-- The header block `p_recvbuf` points into has been allocated, and may be gone again. -/
def BufPast (s : State) (c : ConnId) : Prop :=
  ∀ p, (s.conn c).pRecvbuf = .header p → p.block < s.memory.next

/-- What a step leaves of `BufPast`. -/
structure KeepsPast (c : ConnId) (s s' : State) : Prop where
  next : s.memory.next ≤ s'.memory.next
  past : s.BufPast c → s'.BufPast c

namespace KeepsPast

theorem refl (c : ConnId) (s : State) : KeepsPast c s s := ⟨Nat.le_refl _, id⟩

theorem trans (h : KeepsPast c s t) (h' : KeepsPast c t s') : KeepsPast c s s' :=
  ⟨Nat.le_trans h.next h'.next, fun past => h'.past (h.past past)⟩

/-- The pointer stays in its block, or points into no header block any more. -/
theorem of_buf (next : s.memory.next ≤ s'.memory.next)
    (buf : ∀ p, (s'.conn c).pRecvbuf = .header p →
      ∃ q, (s.conn c).pRecvbuf = .header q ∧ q.block = p.block) : KeepsPast c s s' where
  next := next
  past past p hp := by
    obtain ⟨q, hq, hblock⟩ := buf p hp
    have hpast := past q hq
    rw [hblock] at hpast
    exact Nat.lt_of_lt_of_le hpast next

theorem of_same (next : s'.memory.next = s.memory.next)
    (buf : (s'.conn c).pRecvbuf = (s.conn c).pRecvbuf) : KeepsPast c s s' :=
  of_buf (Nat.le_of_eq next.symm) fun p hp => ⟨p, buf ▸ hp, rfl⟩

end KeepsPast

theorem store_keepsPast {buf : RecvBuf} {bytes : List UInt8} (h : s.store buf bytes = some s') :
    KeepsPast c s s' := by
  cases buf with
  | null => cases h
  | header p =>
      obtain ⟨memory, hupdate, rfl⟩ := Option.map_eq_some_iff.mp h
      obtain ⟨_, -, _, -, rfl⟩ := Heap.update_eq_some.mp hupdate
      exact .of_same rfl rfl
  | message p =>
      obtain ⟨messages, -, rfl⟩ := Option.map_eq_some_iff.mp h
      exact .of_same rfl rfl

theorem freeMemory_keepsPast {info : Option Nat} (h : s.freeMemory info = some s') :
    KeepsPast c s s' := by
  cases info with
  | none =>
      obtain rfl := Option.some.inj h
      exact .refl c s
  | some b =>
      obtain ⟨memory, hfree, rfl⟩ := Option.map_eq_some_iff.mp h
      obtain ⟨_, -, rfl⟩ := Heap.free_eq_some.mp hfree
      exact .of_same rfl rfl

theorem advance_keepsPast (n : Nat) : KeepsPast c s (s.advance c n) := by
  refine .of_buf (Nat.le_refl _) fun p hp => ?_
  simp only [advance, modifyConn_conn, Function.update_self] at hp
  split at hp
  · cases hbuf : (s.conn c).pRecvbuf with
    | header q =>
        rw [hbuf] at hp
        cases hp
        exact ⟨q, rfl, rfl⟩
    | null | message => rw [hbuf] at hp; cases hp
  · exact ⟨p, hp, rfl⟩

theorem recvproc_keepsPast (idle : s.Idle c) {buf : RecvBuf} {len : Nat} {r : Option Nat}
    (h : s.recvproc c buf len env = some (s', r)) : KeepsPast c s s' := by
  by_cases hstarves : s.Starves c env
  · obtain ⟨-, rfl | ⟨-, rfl⟩⟩ := recvproc_unfed idle hstarves h
    · exact .refl c s'
    · exact .of_same rfl (by simp [afterClose])
  · rcases recvproc_fed hstarves h with ⟨rfl, -⟩ | ⟨bytes, -, -, -, -, hstore, -⟩
    · exact .refl c s'
    · exact store_keepsPast hstore

theorem pkgHeaderRecv_keepsPast (idle : s.Idle c) {r : Option Nat}
    (h : s.pkgHeaderRecv c env = some (s', r)) : KeepsPast c s s' := by
  simp only [pkgHeaderRecv] at h
  split at h
  · obtain ⟨rfl, -⟩ := Prod.mk.inj (Option.some.inj h)
    exact .refl c s
  · split at h
    · cases h
    next hproc =>
      obtain ⟨rfl, -⟩ := Prod.mk.inj (Option.some.inj h)
      exact recvproc_keepsPast idle hproc
    next n hproc =>
      obtain ⟨rfl, -⟩ := Prod.mk.inj (Option.some.inj h)
      exact (recvproc_keepsPast idle hproc).trans (advance_keepsPast n)

theorem forgetMsgrecv_keepsPast : KeepsPast c s (s.forgetMsgrecv c) := .of_same rfl (by simp)

theorem pkgBodyRecv_keepsPast (idle : s.Idle c) {r : Option Nat}
    (h : s.pkgBodyRecv c env = some (s', r)) : KeepsPast c s s' := by
  simp only [pkgBodyRecv] at h
  split at h
  · obtain ⟨t, ht, heq⟩ := Option.map_eq_some_iff.mp h
    obtain ⟨rfl, -⟩ := Prod.mk.inj heq
    exact forgetMsgrecv_keepsPast.trans (freeMemory_keepsPast ht)
  · split at h
    · cases h
    next hproc =>
      obtain ⟨rfl, -⟩ := Prod.mk.inj (Option.some.inj h)
      exact (recvproc_keepsPast idle hproc).trans forgetMsgrecv_keepsPast
    next n hproc =>
      obtain ⟨rfl, -⟩ := Prod.mk.inj (Option.some.inj h)
      exact (recvproc_keepsPast idle hproc).trans (advance_keepsPast n)

theorem pkgBodyProc_keepsPast (h : s.pkgBodyProc c = some s') : KeepsPast c s s' := by
  simp only [pkgBodyProc] at h
  obtain ⟨t, ht, rfl⟩ := Option.map_eq_some_iff.mp h
  have hfree : KeepsPast c _ t := freeMemory_keepsPast ht
  refine .of_buf hfree.next fun p hp => ?_
  simp [Incoming.start] at hp

theorem pkgHeaderProc_keepsPast (h : s.pkgHeaderProc c = some s') : KeepsPast c s s' := by
  simp only [pkgHeaderProc] at h
  obtain ⟨b, -, h⟩ := Option.bind_eq_some_iff.mp h
  obtain ⟨header, -, h⟩ := Option.bind_eq_some_iff.mp h
  have hstate : ∀ (s : State) state,
      KeepsPast c s (s.modifyConn c fun conn => { conn with curstat := state }) := fun s state =>
    .of_same rfl (by simp)
  split at h
  · obtain ⟨t, ht, rfl⟩ := Option.map_eq_some_iff.mp h
    exact (freeMemory_keepsPast ht).trans (hstate t .hdInit)
  · have halloc : KeepsPast c s (s.allocMessage c header (pkgLen header - pkgHeaderLen)) :=
      .of_buf (Nat.le_refl _) fun p hp => by simp at hp
    split at h
    · exact halloc.trans (pkgBodyProc_keepsPast h)
    · obtain rfl := Option.some.inj h
      exact halloc.trans (hstate _ .bdInit)

theorem receiveHeader_keepsPast (idle : s.Idle c) (h : s.receiveHeader c env = some s') :
    KeepsPast c s s' := by
  simp only [receiveHeader] at h
  split at h
  · cases h
  next hrecv =>
    obtain rfl := Option.some.inj h
    exact pkgHeaderRecv_keepsPast idle hrecv
  next hrecv =>
    have hread := pkgHeaderRecv_keepsPast idle hrecv
    split at h
    · exact hread.trans (pkgHeaderProc_keepsPast h)
    · obtain rfl := Option.some.inj h
      exact hread.trans (.of_same rfl (by simp))

theorem receiveBody_keepsPast (idle : s.Idle c) (h : s.receiveBody c env = some s') :
    KeepsPast c s s' := by
  simp only [receiveBody] at h
  split at h
  · cases h
  next hrecv =>
    obtain rfl := Option.some.inj h
    exact pkgBodyRecv_keepsPast idle hrecv
  next hrecv =>
    have hread := pkgBodyRecv_keepsPast idle hrecv
    split at h
    · exact hread.trans (pkgBodyProc_keepsPast h)
    · obtain rfl := Option.some.inj h
      exact hread.trans (.of_same rfl (by simp))

theorem readable_keepsPast (idle : s.Idle c) (h : s.eventReadableRequestHandler c env = some s') :
    KeepsPast c s s' := by
  have hwait : ∀ {s'}, some s = some s' → KeepsPast c s s' := by
    intro s' hs'
    obtain rfl := Option.some.inj hs'
    exact .refl c s
  simp only [eventReadableRequestHandler] at h
  split at h
  · have halloc : KeepsPast c s (s.allocHeader c) := by
      refine ⟨Nat.le_succ _, fun _ p hp => ?_⟩
      simp only [allocHeader_conn, Function.update_self, RecvBuf.header.injEq] at hp
      subst hp
      exact Nat.lt_succ_self _
    exact halloc.trans (receiveHeader_keepsPast (idle.receiveOnly ⟨_, _, _, rfl⟩) h)
  · split at h
    · exact hwait h
    · exact receiveHeader_keepsPast idle h
  · split at h
    · exact hwait h
    · exact receiveBody_keepsPast idle h
  · split at h
    · exact hwait h
    · exact receiveBody_keepsPast idle h

variable {asked : State → ConnId → Env → Prop}

theorem Intake.bufPast (h : Intake asked s s') (past : ∀ c, s.Used c → s.BufPast c) :
    ∀ c, s'.Used c → s'.BufPast c := by
  have hsame : ∀ c, (s'.conn c).pRecvbuf = (s.conn c).pRecvbuf → s.memory.next ≤ s'.memory.next →
      s.Used c → s'.BufPast c := fun c hbuf hnext hused =>
    (KeepsPast.of_buf hnext fun p hp => ⟨p, hbuf ▸ hp, rfl⟩).past (past c hused)
  intro d hused
  cases h with
  | aside h =>
      rw [Used, h.still.use] at hused
      exact hsame d (congrArg Incoming.pRecvbuf (h.still.incoming d))
        (Nat.le_of_eq (congrArg Heap.next h.still.memory).symm) hused
  | @reads c env inv used asks h =>
      have hframe := readable_frame (inv.idle_of_used used) h
      have hkeeps := readable_keepsPast (inv.idle_of_used used) h
      rw [Used, hframe.untouched.2] at hused
      by_cases hdc : d = c
      · subst hdc
        exact hkeeps.past (past d hused)
      · exact hsame d (congrArg Incoming.pRecvbuf (hframe.apart.incoming d hdc)) hkeeps.next hused
  | @begins c inv begun renews lets =>
      by_cases hdc : d = c
      · subst hdc
        intro p hp
        have hnull : (s'.conn d).pRecvbuf = .null := congrArg Incoming.pRecvbuf renews.incoming
        rw [hnull] at hp
        cases hp
      · rw [Used, begun.use_ne hdc] at hused
        exact hsame d (congrArg (fun conn => conn.pRecvbuf) (begun.other d hdc))
          (Nat.le_of_eq (congrArg Heap.next renews.memory).symm) hused
  | returns inv h =>
      cases h with
      | @entry c front back count list counted =>
          by_cases hdc : d = c
          · subst hdc
            intro p hp
            simp [State.recycle] at hp
          · exact hsame d (by simp [State.recycle, hdc]) (Nat.le_refl _) hused

theorem Intakes.bufPast (h : Intakes asked s s') (past : ∀ c, s.Used c → s.BufPast c) :
    ∀ c, s'.Used c → s'.BufPast c := by
  induction h with
  | refl => exact past
  | tail _ hstep ih => exact hstep.bufPast ih

/-! ### What the event changes -/

/-- The storage `p_recvbuf` points into is there, and belongs to the connection. -/
def OwnsRecvbuf (s : State) (c : ConnId) : Prop :=
  match (s.conn c).pRecvbuf with
  | .null => False
  | .header p => (s.conn c).pHeaderinfo = some p.block ∧ s.memory.get p.block ≠ none
  | .message p => (s.conn c).pMsgrecv = some p.block ∧ s.messages.get p.block ≠ none

/-- A header block that nobody asks for any more makes a twin. -/
theorem Headers.twinned (headers : s.Headers) (past : ∀ c, s.Used c → s.BufPast c)
    (init : (s.conn c).curstat = .hdInit) : Twinned s.memory.next s (s.allocHeader c) := by
  refine ⟨s.Used, fun _ h => h, unreceived_allocHeader s c, rfl,
    Heap.widens_alloc headers.owned.fresh _, fun d => ?_⟩
  by_cases hdc : d = c
  · subst hdc
    refine ⟨by simp, by simp, by simp, by simp, fun h => absurd init h.2⟩
  · simp only [allocHeader_conn, Function.update_of_ne hdc]
    refine ⟨rfl, rfl, rfl, rfl, fun h => ⟨?_, ?_, rfl⟩⟩
    · cases hinfo : (s.conn d).pHeaderinfo with
      | none => rfl
      | some b =>
          have hlt := headers.owned.past d b (headerPtr_eq_some.mpr ⟨h.1, hinfo⟩)
          rw [Option.map_some, Heap.shift_of_lt hlt]
    · cases hbuf : (s.conn d).pRecvbuf with
      | null | message => rfl
      | header p => rw [RecvBuf.shift, Heap.shift_of_lt (past d h.1 p hbuf)]

theorem recvproc_wouldBlock (opened : s.openFds (s.conn c).fd = true)
    (block : env.recv = .failed .eagain) (buf : RecvBuf) (len : Nat) :
    s.recvproc c buf len env = some (s, none) := by
  simp only [recvproc, sysRecv, opened, if_true, block]

/-- In the header states the caller goes home. -/
theorem receiveHeader_wouldBlock (opened : s.openFds (s.conn c).fd = true)
    (block : env.recv = .failed .eagain) : s.receiveHeader c env = some s := by
  simp only [receiveHeader, pkgHeaderRecv, recvproc_wouldBlock opened block]
  split <;> simp_all

/-- In the body states the message block is given up. -/
theorem receiveBody_wouldBlock (state : s.InBodyState c)
    (opened : s.openFds (s.conn c).fd = true) (block : env.recv = .failed .eagain) :
    s.receiveBody c env = some (s.forgetMsgrecv c) := by
  have hstate : ¬ ((s.conn c).curstat ≠ .bdInit ∧ (s.conn c).curstat ≠ .bdRecving) :=
    or_iff_not_and_not.mp state
  simp only [receiveBody, pkgBodyRecv, if_neg hstate, recvproc_wouldBlock opened block]

theorem readable_wouldBlock_header (headers : s.Headers) (hopen : s.Open c)
    (opened : s.openFds (s.conn c).fd = true) (block : env.recv = .failed .eagain)
    (state : ¬ s.InBodyState c) :
    s.eventReadableRequestHandler c env = some (s.atRecv c) ∧ (s.atRecv c).OwnsRecvbuf c := by
  by_cases hinit : (s.conn c).curstat = .hdInit
  · have hread := readable_atRecv (s := s) (c := c) env fun hmid => absurd hinit hmid
    rw [if_neg state, atRecv, if_pos hinit] at hread
    rw [atRecv, if_pos hinit, hread]
    exact ⟨receiveHeader_wouldBlock (by simpa using opened) block, by simp [OwnsRecvbuf]⟩
  · obtain ⟨b, hholding⟩ := headers.holding c hopen hinit
    cases hholding with
    | body hbody => exact absurd hbody state
    | @header header got hstate inside =>
        have hshort := inside.short
        have hwanted := inside.wanted
        have hread := readable_atRecv (s := s) (c := c) env fun _ => by omega
        rw [if_neg state, atRecv, if_neg hinit] at hread
        rw [atRecv, if_neg hinit, hread]
        refine ⟨receiveHeader_wouldBlock opened block, ?_⟩
        simp [OwnsRecvbuf, inside.buf, inside.info, inside.live]

theorem readable_wouldBlock_body (regular : s.Regular) (hopen : s.Open c)
    (opened : s.openFds (s.conn c).fd = true) (block : env.recv = .failed .eagain)
    (state : s.InBodyState c) :
    s.eventReadableRequestHandler c env = some (s.forgetMsgrecv c) ∧
      ¬ (s.forgetMsgrecv c).OwnsRecvbuf c := by
  obtain ⟨p, hwriting⟩ := regular.writing c hopen state
  have hread := readable_atRecv (s := s) (c := c) env fun _ => hwriting.wanted
  rw [if_pos state, atRecv, if_neg state.mid] at hread
  refine ⟨hread.trans (receiveBody_wouldBlock state opened block), ?_⟩
  simp [OwnsRecvbuf, hwriting.buf]

/-- The state without the `EPOLLIN` part of the next event. -/
def withoutRead (s : State) : State :=
  match s.events with
  | [] => s
  | (c, events) :: rest => { s with events := (c, events &&& ~~~epollin) :: rest }

/-- The other part of the event does not depend on `EPOLLIN`. -/
theorem handleOut_clear (s : State) (c : ConnId) (events : Mask) (env : Env) :
    s.handleOut c (events &&& ~~~epollin) env = s.handleOut c events env := by
  have hout : (events &&& ~~~epollin).has epollout = events.has epollout := by
    rw [Mask.has, Mask.has, BitVec.and_assoc]
    rfl
  have hgone : (events &&& ~~~epollin).has (epollrdhup ||| epollerr ||| epollhup) =
      events.has (epollrdhup ||| epollerr ||| epollhup) := by
    rw [Mask.has, Mask.has, BitVec.and_assoc]
    rfl
  simp only [handleOut, hout, hgone]

/-- What is left of the event is its `EPOLLOUT` part. -/
theorem handleEvent_withoutRead {events : Mask} {rest : List (ConnId × Mask)}
    (batch : s.events = (c, events) :: rest) :
    s.withoutRead.handleEvent env = { s with events := rest }.handleOut c events env := by
  have hin : (events &&& ~~~epollin).has epollin = false := by
    rw [Mask.has, BitVec.and_assoc]
    simp [epollin]
  simp only [withoutRead, batch, handleEvent, handleIn, hin, handleOut_clear]
  rfl

end State

namespace Server

open State

variable {boot : Boot} {s s' t : State} {k : Nat} {c : ConnId} {env : Env} {events : Mask}
  {rest : List (ConnId × Mask)} {action : Action} {actions : List Action}

/-- What a step hands over with `InMsgRecv`. -/
def handsOver (s : State) : Action → State → List (Option Message)
  | .loop (.handleEvent _), s' => s'.msgqueue.drop s.msgqueue.length
  | _, _ => []

/-- The messages handed over in a run, if it is possible. -/
def deliveries : State → List Action → Option (List (Option Message))
  | _, [] => some []
  | s, action :: actions =>
      (step s action).bind fun s' => (deliveries s' actions).map (handsOver s action s' ++ ·)

/-- Twins hand over the same messages in a step, and in what follows it. -/
theorem delivers_twinned {p q : Option State} (rel : Option.Rel (Twinned k) p q)
    (inv : ∀ s', p = some s' → s'.Inv) (queue : t.msgqueue = s.msgqueue)
    (later : ∀ s' t', Twinned k s' t' → s'.Inv → deliveries t' actions = deliveries s' actions) :
    (q.bind fun t' => (deliveries t' actions).map (handsOver t action t' ++ ·)) =
      p.bind fun s' => (deliveries s' actions).map (handsOver s action s' ++ ·) := by
  cases rel with
  | none => rfl
  | @some s' t' htwinned =>
      have hqueue := htwinned.same (fun s => s.msgqueue) fun _ _ _ => rfl
      have hover : handsOver t action t' = handsOver s action s' := by
        unfold handsOver
        split
        · rw [queue, hqueue]
        · rfl
      simp only [Option.bind_some, later s' t' htwinned (inv s' rfl), hover]

/-- Twins hand over the same messages, whatever happens. -/
theorem deliveries_twinned (twinned : Twinned k s t) (inv : s.Inv) (actions : List Action) :
    deliveries t actions = deliveries s actions := by
  induction actions generalizing s t with
  | nil => rfl
  | cons action actions ih =>
      have hqueue := twinned.same (fun s => s.msgqueue) fun _ _ _ => rfl
      exact delivers_twinned (step_twinned twinned inv action)
        (fun s' hs' => (step_evolves inv hs').inv) hqueue fun _ _ htwinned hinv =>
          ih htwinned hinv

/-- The `EPOLLIN` part of the next event is harmless: behind it the connection owns the
storage it reads into, and every continuation of the run delivers the same messages as
without it. -/
structure Harmless (s : State) (env : Env) : Prop where
  owns : ∀ c events rest, s.events = (c, events) :: rest →
    ∃ t, { s with events := rest }.handleIn c events env = some t ∧ t.OwnsRecvbuf c
  same : ∀ actions, deliveries s (.loop (.handleEvent env) :: actions) =
    deliveries s.withoutRead (.loop (.handleEvent env) :: actions)

theorem Reachable.bufPast (h : Reachable boot s) : ∀ c, s.Used c → s.BufPast c := by
  obtain ⟨s₀, actions, hstart, hr⟩ := h
  obtain ⟨⟨all, htaking⟩, -⟩ := hstart.spec
  have hunused : ∀ c, ¬ s₀.Used c := fun c => by simp [Used, htaking.history, Boot.state]
  have hlast := run_invariant (I := fun s => s.Inv ∧ ∀ c, s.Used c → s.BufPast c)
    (fun s a s' hi hs => ⟨(step_evolves hi.1 hs).inv, Intakes.bufPast (step_intakes hi.1 hs) hi.2⟩)
    ⟨hstart.inv, fun c hused => absurd hused (hunused c)⟩ hr
  exact hlast.2

/-- While a header is being received, every continuation delivers the same messages. -/
theorem deliveries_withoutRead (inv : s.Inv) (headers : s.Headers)
    (past : ∀ c, s.Used c → s.BufPast c) (batch : s.events = (c, events) :: rest)
    (reads : { s with events := rest }.handleIn c events env =
      some (State.atRecv { s with events := rest } c)) :
    deliveries s (.loop (.handleEvent env) :: actions) =
      deliveries s.withoutRead (.loop (.handleEvent env) :: actions) := by
  have hok : ∀ event ∈ (c, events) :: rest, s.EventOk event := batch ▸ inv.wired.events
  have htaken := events_evolves inv fun event hevent => hok event (List.mem_cons_of_mem _ hevent)
  have hfirst := (hok (c, events) List.mem_cons_self).evolves htaken
  have haside : Aside s { s with events := rest } :=
    aside_conn rfl rfl ⟨rfl, rfl⟩ rfl fun _ => ⟨rfl, rfl⟩
  have hqueue : s.withoutRead.msgqueue = s.msgqueue := by simp only [withoutRead, batch]
  have hstep : step s (.loop (.handleEvent env)) =
      (State.atRecv { s with events := rest } c).handleOut c events env := by
    change s.handleEvent env = _
    simp only [handleEvent, batch, reads, Option.bind_some]
  have hstep' : step s.withoutRead (.loop (.handleEvent env)) =
      State.handleOut { s with events := rest } c events env := handleEvent_withoutRead batch
  simp only [deliveries, hstep, hstep']
  by_cases hinit : (s.conn c).curstat = .hdInit
  · have htwinned : Twinned s.memory.next { s with events := rest }
        (State.atRecv { s with events := rest } c) := by
      rw [atRecv, if_pos hinit]
      exact Headers.twinned (haside.still.headers headers) past hinit
    exact delivers_twinned (htwinned.handleOut htaken.inv hfirst)
      (fun s' hs' => ((handleOut_moves htaken.inv hfirst hs').evolves htaken.inv).inv) hqueue.symm
      fun _ _ htwinned hinv => deliveries_twinned htwinned hinv actions
  · simp only [atRecv, if_neg hinit, handsOver, hqueue]

/-- A read that would block changes nothing that matters while a header is being received,
and only then. -/
theorem would_block_harmless_iff (reach : Reachable boot s)
    (batch : s.events = (c, events) :: rest) (readable : events.has epollin = true)
    (hopen : s.Open c) (block : env.recv = .failed .eagain) :
    Harmless s env ↔ (s.conn c).curstat = .hdInit ∨ (s.conn c).curstat = .hdRecving := by
  obtain ⟨hinv, hregular⟩ := reach.regular
  have haside : Aside s { s with events := rest } :=
    aside_conn rfl rfl ⟨rfl, rfl⟩ rfl fun _ => ⟨rfl, rfl⟩
  have htaken : Intake (fun _ _ _ => True) s { s with events := rest } := .aside haside
  have hregular' := htaken.regular hregular
  have hwired := hinv.wired.used c hopen.1
  have hopened : s.openFds (s.conn c).fd = true :=
    hinv.wired.opened c hwired.1 hopen.2
  have hin : State.handleIn { s with events := rest } c events env =
      State.eventReadableRequestHandler { s with events := rest } c env := by
    simp only [handleIn, readable, if_true, hwired.2.1, callHandler]
  have hstate : ¬ s.InBodyState c ↔
      (s.conn c).curstat = .hdInit ∨ (s.conn c).curstat = .hdRecving := by
    rw [InBodyState]
    cases (s.conn c).curstat <;> simp
  rw [← hstate]
  constructor
  · intro harmless hbody
    obtain ⟨t, hread, howns⟩ := harmless.owns c events rest batch
    obtain ⟨hforgets, hlost⟩ := readable_wouldBlock_body hregular' hopen hopened block hbody
    rw [hin, hforgets] at hread
    obtain rfl := Option.some.inj hread
    exact hlost howns
  · intro hheader
    obtain ⟨hreads, howns⟩ :=
      readable_wouldBlock_header hregular'.headers hopen hopened block hheader
    refine ⟨fun d events' rest' hbatch => ?_, fun actions => ?_⟩
    · obtain ⟨hevent, rfl⟩ := List.cons.inj (batch.symm.trans hbatch)
      obtain ⟨rfl, rfl⟩ := Prod.mk.inj hevent
      exact ⟨_, hin.trans hreads, howns⟩
    · exact deliveries_withoutRead hinv hregular.headers reach.bufPast batch (hin.trans hreads)

/-- A client that sends the first three bytes of a packet and takes its time. -/
theorem would_block_harmless_late : ∃ s, Reachable .small s ∧
    (s.conn 1).curstat = .hdRecving ∧ Harmless s { recv := .failed .eagain } := by
  have hlaunch : (launch .small [true]
      (acceptOn 5 100 ++ eventOn 5 epollin { recv := .data [0, 10, 0] } ++
        [.loop (.epollWait [(5, epollin)])])).map (fun s =>
      decide (s.events = [(1, epollin)] ∧ s.Open 1 ∧ (s.conn 1).curstat = .hdRecving)) =
        some true := by decide
  obtain ⟨s, hs, hgood⟩ := Option.map_eq_some_iff.mp hlaunch
  obtain ⟨hbatch, hopen, hstate⟩ := of_decide_eq_true hgood
  exact ⟨s, reachable_of_launch hs, hstate,
    (would_block_harmless_iff (reachable_of_launch hs) hbatch (by decide) hopen rfl).mpr
      (.inr hstate)⟩

/-- A client whose body of two bytes is late: `recv` stores it into a block that has been
freed, while without the event the packet is delivered. -/
theorem would_block_body_lost :
    ¬ ∀ (boot : Boot) (s : State) (c : ConnId) (events : Mask) (rest : List (ConnId × Mask))
        (env : Env), Reachable boot s → s.events = (c, events) :: rest →
      events.has epollin = true → s.Open c → env.recv = .failed .eagain → Harmless s env := by
  intro hclaim
  have hlaunch : (launch .small [true]
      (acceptOn 5 100 ++ eventOn 5 epollin { recv := .data [0, 10, 0, 0, 0, 0, 0, 0] } ++
        [.loop (.epollWait [(5, epollin)])])).map (fun s =>
      decide (s.events = [(1, epollin)] ∧ s.Open 1 ∧
        (deliveries s (.loop (.handleEvent { recv := .failed .eagain }) ::
          eventOn 5 epollin { recv := .data [7, 8] })).isSome = false ∧
        (deliveries s.withoutRead (.loop (.handleEvent { recv := .failed .eagain }) ::
          eventOn 5 epollin { recv := .data [7, 8] })).isSome = true)) = some true := by decide
  obtain ⟨s, hs, hgood⟩ := Option.map_eq_some_iff.mp hlaunch
  obtain ⟨hbatch, hopen, hwith, hwithout⟩ := of_decide_eq_true hgood
  have hharmless := hclaim _ s 1 epollin [] { recv := .failed .eagain } (reachable_of_launch hs)
    hbatch (by decide) hopen rfl
  rw [hharmless.same] at hwith
  exact absurd (hwith.symm.trans hwithout) nofun

end Server

end MyNginx
