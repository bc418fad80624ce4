import MyNginx.Server.Accounting

/-!
# Whole packets are handed over

While every header is taken, `recvlen_already` says how far `p_recvbuf` stands behind the
beginning of its packet. So it is the length of the packet when `pkg_body_proc` hands the
message over.
-/

namespace MyNginx

open Foundation

namespace State

variable {s s' t v : State} {c d : ConnId} {b n : Nat} {env : Env} {hands : Bool}
variable {block got : List UInt8}

/-- Where the account of a connection and its `p_recvbuf` stand. -/
inductive Position (s : State) (c : ConnId) : Prop
  | start (state : (s.conn c).curstat = .hdInit) (len : (s.conn c).recvlenAlready = 0)
  | header {p : Ptr} (state : (s.conn c).curstat = .hdRecving)
      (buf : (s.conn c).pRecvbuf = .header p) (len : (s.conn c).recvlenAlready = p.off)
  | body {p : Ptr} (state : s.InBodyState c) (buf : (s.conn c).pRecvbuf = .message p)
      (len : msgHeaderLen + (s.conn c).recvlenAlready = p.off)

/-- Every open connection is in position. -/
def Positioned (s : State) : Prop := ∀ c, s.Open c → Position s c

/-- `pkg_body_proc` is called for a message of the length that the account says. -/
def WholePacket (s : State) (c : ConnId) : Prop :=
  ∃ msg ∈ (s.conn c).pMsgrecv.bind s.messages.get, (s.conn c).recvlenAlready = pkgLen msg.buf

instance : Decidable (s.WholePacket c) :=
  inferInstanceAs (Decidable (∃ msg ∈ (s.conn c).pMsgrecv.bind s.messages.get, _))

theorem Position.congr (h : Position s c) (state : (s'.conn c).curstat = (s.conn c).curstat)
    (buf : (s'.conn c).pRecvbuf = (s.conn c).pRecvbuf)
    (len : (s'.conn c).recvlenAlready = (s.conn c).recvlenAlready) : Position s' c := by
  cases h with
  | start state' len' => exact .start (state.trans state') (len.trans len')
  | header state' buf' len' =>
      exact .header (state.trans state') (buf.trans buf') (len.trans len')
  | body state' buf' len' =>
      exact .body (by rwa [InBodyState, state]) (buf.trans buf') (by rw [len, len'])

theorem Position.of_same (h : Position s c)
    (incoming : (s'.conn c).toIncoming = (s.conn c).toIncoming) : Position s' c :=
  h.congr (congrArg Incoming.curstat incoming) (congrArg Incoming.pRecvbuf incoming)
    (congrArg Incoming.recvlenAlready incoming)

theorem Position.of_start (incoming : (s.conn c).toIncoming = Incoming.start) : Position s c :=
  .start (congrArg Incoming.curstat incoming) (congrArg Incoming.recvlenAlready incoming)

theorem Position.atRecv (h : Position s c) : Position (s.atRecv c) c := by
  by_cases hinit : (s.conn c).curstat = .hdInit
  · cases h with
    | start state len =>
        exact .start (atRecv_curstat.trans state) ((atRecv_account s).1.trans len)
    | header state => exact absurd (hinit.symm.trans state) nofun
    | body state => exact absurd hinit state.mid
  · rwa [State.atRecv, if_neg hinit]

/-- In the header states the account is what the header block holds. -/
theorem Position.inHeader (h : Position s c) (inside : InHeader (s.atRecv c) c b block got)
    (state : ¬ s.InBodyState c) : (s.conn c).recvlenAlready = got.length := by
  have hbuf := inside.buf
  cases h with
  | start hinit len =>
      simp only [State.atRecv, if_pos hinit, allocHeader_conn, Function.update_self,
        RecvBuf.header.injEq, Ptr.mk.injEq] at hbuf
      rw [len, ← hbuf.2]
  | header hmid buf len =>
      rw [State.atRecv, if_neg (by simp [hmid]), buf] at hbuf
      rw [len, RecvBuf.header.inj hbuf]
  | body hbody => exact absurd hbody state

/-- In the body states it is how far the message has been received. -/
theorem Position.inBody {p : Ptr} (h : Position s c) (state : s.InBodyState c)
    (buf : (s.conn c).pRecvbuf = .message p) :
    msgHeaderLen + (s.conn c).recvlenAlready = p.off := by
  cases h with
  | start hinit => exact absurd hinit state.mid
  | header hmid => rcases state with state | state <;> exact absurd (hmid.symm.trans state) nofun
  | body _ buf' len =>
      obtain rfl := RecvBuf.message.inj (buf.symm.trans buf')
      exact len

/-- A readable event that refuses no header keeps the position. -/
theorem readable_position (inv : s.Inv) (regular : s.Regular) (used : s.Used c)
    (position : s.Open c → Position s c) (takes : s.TakesHeader c env)
    (h : s.eventReadableRequestHandler c env = some s') : s'.Open c → Position s' c := by
  intro hopen'
  have hopen : s.Open c := (readable_frame (inv.idle_of_used used) h).opened hopen'
  have hidle := (inv.idle_of_used used).receiveOnly (receiveOnly_atRecv s c)
  have hposition := position hopen
  have hat := hposition.atRecv
  obtain ⟨v, hands, -, hreception, hlast⟩ := readable_reception h
  cases hreception with
  | idle =>
      obtain rfl := Option.some.inj hlast
      exact hposition
  | @stopped t recv v last =>
      obtain rfl := Option.some.inj hlast
      have ht := hat.of_same (recv.still hidle).1
      rcases last with rfl | ⟨-, rfl⟩
      · exact ht
      · exact ht.congr (by simp) (by simp) (by simp)
  | @part t n state recv short next =>
      obtain rfl := Option.some.inj hlast
      obtain ⟨hconn, -, hle, -⟩ := recv.conn
      have hlt : n < ((s.atRecv c).conn c).recvlen := Nat.lt_of_le_of_ne hle short
      have hlen := (atRecv_account (c := c) s).1
      rcases next with ⟨hbody, rfl⟩ | ⟨hheader, rfl⟩
      · have hsame : s.atRecv c = s := if_neg hbody.mid
        obtain ⟨p, hwriting⟩ := regular.writing c hopen hbody
        have hoff := hposition.inBody hbody hwriting.buf
        rw [hsame] at hconn hlt
        refine .body (p := ⟨p.block, p.off + n⟩) (.inr (by simp)) ?_ ?_
        · simp [advance, hconn, hlt, hwriting.buf, RecvBuf.add]
        · simp only [advance, modifyConn_conn, Function.update_self, hconn]
          omega
      · obtain ⟨b, block, got, inside⟩ := regular.inHeader hopen hheader
        have hgot := hposition.inHeader inside hheader
        refine .header (p := ⟨b, got.length + n⟩) (by simp) ?_ ?_
        · simp [advance, hconn, hlt, inside.buf, RecvBuf.add]
        · simp only [advance, modifyConn_conn, Function.update_self, hconn]
          omega
  | @header t n state recv full v hands proc =>
      obtain ⟨hconn, -, -, -⟩ := recv.conn
      have hlen := (advance_account (c := c) t n).1
      obtain ⟨b, block, got, header, inside, htotal, -, htakes, hdecided⟩ :=
        regular.headerRead hopen state recv full proc
      have hgot := hposition.inHeader inside state
      rw [hconn, (atRecv_account s).1, hgot] at hlen
      cases hdecided with
      | refused bad => exact absurd (htakes.mp takes) bad
      | whole taken bare => exact .of_start (pkgBodyProc_starts hlast)
      | begun taken hbody =>
          obtain rfl := Option.some.inj hlast
          refine .body (p := ⟨_, msgHeaderLen + pkgHeaderLen⟩) (.inl (by simp)) (by simp; rfl) ?_
          simp [hlen, htotal]
  | body state recv full => exact .of_start (pkgBodyProc_starts hlast)

/-- A message that is handed over has the length that the account says. -/
theorem readableHandover_whole (inv : s.Inv) (regular : s.Regular) (used : s.Used c)
    (position : s.Open c → Position s c) (h : s.readableHandover c env = some (v, true)) :
    v.WholePacket c := by
  have hopened : (s.atRecv c).openFds ((s.atRecv c).conn c).fd = true → s.Open c := by
    obtain ⟨-, hfd, hfds⟩ := atRecv_account (c := c) s
    rw [hfds, hfd]
    refine fun hopen => ⟨used, fun hgone => ?_⟩
    rw [inv.closed hgone] at hopen
    cases hopen
  cases readableHandover_reception h with
  | @header t n state recv full v hands proc =>
      obtain ⟨hconn, -, -, hrecv⟩ := recv.conn
      have hopen := hopened hrecv
      have hlen := (advance_account (c := c) t n).1
      obtain ⟨b, block, got, header, inside, htotal, hheader, -, hdecided⟩ :=
        regular.headerRead hopen state recv full proc
      rw [hconn, (atRecv_account s).1, (position hopen).inHeader inside state, htotal] at hlen
      cases hdecided with
      | whole taken bare =>
          refine ⟨(t.advance c n).stampedMessage c header (pkgLen header - pkgHeaderLen), ?_, ?_⟩
          · rw [allocMessage_conn, Function.update_self]
            exact Heap.get_alloc_self _ _
          · rw [(sized_stampedMessage hheader taken.1).2, bare]
            simpa using hlen
  | @body t n state recv full =>
      obtain ⟨hconn, -, -, hrecv⟩ := recv.conn
      have hopen := hopened hrecv
      have hsame : s.atRecv c = s := if_neg state.mid
      obtain ⟨p, hwriting⟩ := regular.writing c hopen state
      have hoff := (position hopen).inBody state hwriting.buf
      have hwanted := hwriting.wanted
      rw [hsame] at recv full
      generalize hn : some n = r at recv
      cases recv with
      | @bytes bytes t opened recv pos le stored =>
          obtain rfl := Option.some.inj hn
          obtain ⟨-, -, howner, msg, msg', hmsg, hmsg', hlen⟩ :=
            hwriting.store regular.fitted (regular.bodies.minds inv used) stored
          have hupto := hwriting.upto msg hmsg
          refine ⟨msg', ?_, ?_⟩
          · simp [advance, hconn, hsame, howner, hmsg']
          · simp only [advance, modifyConn_conn, Function.update_self, hconn, hsame, hlen]
            omega
      | nothing opened empty stays =>
          obtain rfl := Option.some.inj hn
          exact absurd full.symm hwanted
      | again => cases hn
      | closing => cases hn

/-! ### Every step -/

variable {asked : State → ConnId → Env → Prop}

theorem Intake.positioned (h : Intake asked s s') (silent : ∀ d env, ¬ asked s d env)
    (positioned : s.Positioned) : s'.Positioned := by
  intro c hopen
  cases h with
  | aside h => exact (positioned c (h.still.opened c hopen)).of_same (h.still.incoming c)
  | @reads d env inv used asks h => exact absurd asks (silent d env)
  | @begins d inv begun renews lets =>
      by_cases hc : c = d
      · subst hc
        exact .of_start renews.incoming
      · exact (positioned c (renews.apart.opened c hc hopen)).of_same (renews.apart.incoming c hc)
  | returns inv h =>
      cases h with
      | @entry d front back count list counted =>
          have hcd : c ≠ d := by
            rintro rfl
            have hlisted : c ∈ s.recyConnectionList := by simp [list]
            exact hopen.2 (by simpa [State.recycle] using inv.delayed_closed hlisted)
          have hold : s.Open c := by simpa [Open, Used, State.recycle, hcd] using hopen
          exact (positioned c hold).of_same (by simp [State.recycle, hcd])

theorem Intakes.positioned (h : Intakes asked s s') (silent : ∀ t d env, ¬ asked t d env)
    (positioned : s.Positioned) : s'.Positioned := by
  induction h with
  | refl => exact positioned
  | tail _ hstep ih => exact hstep.positioned (silent _) ih

end State

namespace Server

open State

variable {s s' : State} {boot : Boot} {action : Action} {actions : List Action}

/-- Where the step calls `pkg_body_proc`, it is for a message of the length that
`recvlen_already` says. -/
def HandsWhole (s : State) : Action → Prop
  | .loop (.handleEvent env) =>
      match s.events with
      | [] => True
      | (c, events) :: rest =>
          events.has epollin = true → (s.conn c).rhandler = some .readable →
            ∀ r ∈ { s with events := rest }.readableHandover c env, r.2 = true → r.1.WholePacket c
  | _ => True

instance : DecidableRel HandsWhole := fun s action => by
  unfold HandsWhole
  rcases action with (_ | _) | _
  case loop.handleEvent env =>
    dsimp only
    rcases s.events with _ | _ <;> infer_instance
  all_goals infer_instance

theorem handleEvent_positioned (inv : s.Inv) (regular : s.Regular) (positioned : s.Positioned)
    {env : Env} (taken : HeaderTaken s (.loop (.handleEvent env)))
    (h : s.handleEvent env = some s') : s'.Positioned := by
  obtain ⟨c, events, rest, t, hevent⟩ := handleEvent_cases inv h
  have haside : Aside s { s with events := rest } :=
    aside_conn rfl rfl ⟨rfl, rfl⟩ rfl fun _ => ⟨rfl, rfl⟩
  have htaken : Intake (fun _ _ _ => False) s { s with events := rest } := .aside haside
  have hregular := htaken.regular regular
  have hpositioned := htaken.positioned (fun _ _ => id) positioned
  have hout : Intake (fun _ _ _ => False) t s' :=
    .aside (handleOut_aside hevent.between.inv hevent.still hevent.outward)
  apply hout.positioned fun _ _ => id
  cases handleIn_cases hevent.taken.inv hevent.ok hevent.inward with
  | reads set used read =>
      have happart := (readable_frame (hevent.taken.inv.idle_of_used used) read).apart
      have htakes : { s with events := rest }.TakesHeader c env := by
        rw [takesHeader_events]
        exact taken (c, events) (by simp [hevent.batch]) set
      intro d hopen
      by_cases hdc : d = c
      · subst hdc
        exact readable_position hevent.taken.inv hregular used (hpositioned d) htakes read hopen
      · exact (hpositioned d (happart.opened d hdc hopen)).of_same (happart.incoming d hdc)
  | accepts set standby accept =>
      have haccept : Intakes (fun _ _ _ => False) { s with events := rest } t :=
        acceptLoop_intakes hevent.taken.inv accept
      exact haccept.positioned (fun _ _ _ => id) hpositioned
  | skips unset => exact hpositioned

theorem step_positioned (inv : s.Inv) (regular : s.Regular) (positioned : s.Positioned)
    (taken : HeaderTaken s action) (h : step s action = some s') : s'.Positioned := by
  have hsilent : (∀ env, action ≠ .loop (.handleEvent env)) → s'.Positioned := fun hother =>
    (step_intakes inv h).positioned (fun _ _ env hasked => hother env hasked.1.1) positioned
  cases action with
  | loop action =>
      cases action with
      | handleEvent env => exact handleEvent_positioned inv regular positioned taken h
      | epollWait | timerBegin | timerCheck | timerDelete | timerClose | recycle | shutdown =>
          exact hsilent (by simp)
  | work w now => exact hsilent (by simp)
  | sendEntry i env => exact hsilent (by simp)

theorem positioned_handsWhole (inv : s.Inv) (regular : s.Regular) (positioned : s.Positioned)
    (action : Action) : HandsWhole s action := by
  unfold HandsWhole
  split
  next env =>
    split
    next => trivial
    next c events rest hevents =>
      rintro - hreadable ⟨v, hands⟩ hhandover rfl
      have hok : ∀ event ∈ (c, events) :: rest, s.EventOk event := hevents ▸ inv.wired.events
      have hused : s.Used c := by
        rcases hok (c, events) List.mem_cons_self with hused | ⟨hstandby, -⟩
        · exact hused
        · have haccept := (inv.wired.standby c hstandby).2.2
          exact absurd (hreadable.symm.trans haccept) nofun
      have haside : Intake (fun _ _ _ => False) s { s with events := rest } :=
        .aside (aside_conn rfl rfl ⟨rfl, rfl⟩ rfl fun _ => ⟨rfl, rfl⟩)
      have hregular := haside.regular regular
      have hinv := (events_evolves inv fun event hevent =>
        hok event (List.mem_cons_of_mem _ hevent)).inv
      exact readableHandover_whole hinv hregular hused
        (fun hopen => (positioned c hopen).of_same rfl) hhandover
  next => trivial

/-- From the start on, `recvlen_already` is after every step the number of bytes received of
the packet that is being assembled, and at every handover the length of the message, exactly
when every header that is completed is taken. -/
theorem received_accounted_iff (hstart : boot.Starts s) :
    (Throughout (watched step assembled) Accounted (s, fun _ => 0) actions ∧
        Along step HandsWhole s actions) ↔ Along step HeaderTaken s actions := by
  have hunused : ∀ c, ¬ s.Used c := by
    obtain ⟨⟨all, htaking⟩, -⟩ := hstart.spec
    exact fun c hused => absurd (htaking.unused c) (Nat.pos_iff_ne_zero.mp hused)
  have haccounts : Throughout (watched step assembled) Accounted (s, fun _ => 0) actions ↔
      Along step HeaderTaken s actions := by
    have hexact : Throughout (watched step assembled) Accounted (s, fun _ => 0) actions ↔
        Along (watched step assembled) (fun w action => HeaderTaken w.1 action)
          (s, fun _ => 0) actions := by
      apply throughout_iff_along (I := fun w => w.1.Inv ∧ w.1.Regular ∧
        ∀ c, (w.1.conn c).curstat = .hdInit → w.2 c = 0)
      · intro w action w' hi _ _ hw
        obtain ⟨s', hs, rfl⟩ := watched_eq_some.mp hw
        exact ⟨(step_evolves hi.1 hs).inv, step_regular hi.1 hi.2.1 hs, fun c hinit => if_pos hinit⟩
      · intro w action w' hi hp hw
        obtain ⟨s', hs, rfl⟩ := watched_eq_some.mp hw
        exact step_accounted_iff hi.1 hi.2.1 hi.2.2 hp hs
      · exact ⟨hstart.inv, hstart.regular, fun _ _ => rfl⟩
      · exact fun c hused => absurd hused (hunused c)
    exact hexact.trans (along_watched assembled (s, fun _ => 0))
  rw [haccounts]
  refine ⟨fun h => h.1, fun htaken => ⟨htaken, ?_⟩⟩
  apply along_of_along (I := fun s => s.Inv ∧ s.Regular ∧ s.Positioned) (C := HeaderTaken)
  · exact fun s a s' hi hc hs => ⟨(step_evolves hi.1 hs).inv, step_regular hi.1 hi.2.1 hs,
      step_positioned hi.1 hi.2.1 hi.2.2 hc hs⟩
  · exact fun s a s' hi _ _ => positioned_handsWhole hi.1 hi.2.1 hi.2.2 a
  · exact ⟨hstart.inv, hstart.regular, fun c hopen => absurd hopen.1 (hunused c)⟩
  · exact htaken

/-- A packet of two bytes behind its header, cut into four pieces with an interrupted read
between them, and a ping. -/
theorem received_accounted_packets : ∃ s, Boot.small.Starts s ∧
    Throughout (watched step assembled) Accounted (s, fun _ => 0)
      (acceptOn 5 100 ++ eventOn 5 epollin { recv := .data [0, 10, 0] } ++
        eventOn 5 epollin { recv := .failed .eintr } ++
        eventOn 5 epollin { recv := .data [0, 0, 0, 0, 0] } ++
        eventOn 5 epollin { recv := .data [7] } ++ eventOn 5 epollin { recv := .data [8] } ++
        eventOn 5 epollin { recv := .data (encodeHeader pkgHeaderLen 0 0) }) ∧
    Along step HandsWhole s
      (acceptOn 5 100 ++ eventOn 5 epollin { recv := .data [0, 10, 0] } ++
        eventOn 5 epollin { recv := .failed .eintr } ++
        eventOn 5 epollin { recv := .data [0, 0, 0, 0, 0] } ++
        eventOn 5 epollin { recv := .data [7] } ++ eventOn 5 epollin { recv := .data [8] } ++
        eventOn 5 epollin { recv := .data (encodeHeader pkgHeaderLen 0 0) }) := by
  have hrun : (Boot.small.state.epollEventInit [true]).map (fun s =>
      decide (Along step HeaderTaken s
        (acceptOn 5 100 ++ eventOn 5 epollin { recv := .data [0, 10, 0] } ++
          eventOn 5 epollin { recv := .failed .eintr } ++
          eventOn 5 epollin { recv := .data [0, 0, 0, 0, 0] } ++
          eventOn 5 epollin { recv := .data [7] } ++ eventOn 5 epollin { recv := .data [8] } ++
          eventOn 5 epollin { recv := .data (encodeHeader pkgHeaderLen 0 0) }))) =
      some true := by decide
  obtain ⟨s, hstart, hall⟩ := Option.map_eq_some_iff.mp hrun
  exact ⟨s, ⟨_, hstart⟩, (received_accounted_iff ⟨_, hstart⟩).mpr (of_decide_eq_true hall)⟩

/-- A refused header and a ping behind it: eight bytes stay on the account, so the ping is
handed over with sixteen. -/
theorem received_miscounted :
    (¬ ∀ (boot : Boot) (s : State) (actions : List Action), boot.Starts s →
      Along step HandsWhole s actions) ∧
    ¬ ∀ (boot : Boot) (s : State) (actions : List Action), boot.Starts s →
      Throughout (watched step assembled) Accounted (s, fun _ => 0) actions := by
  constructor
  · intro hclaim
    have hrun : (Boot.small.state.epollEventInit [true]).map (fun s =>
        decide (Along step HandsWhole s
          (acceptOn 5 100 ++ eventOn 5 epollin { recv := .data [0, 7, 0, 0, 0, 0, 0, 0] } ++
            eventOn 5 epollin { recv := .data (encodeHeader pkgHeaderLen 0 0) }))) =
        some false := by decide
    obtain ⟨s, hstart, hnot⟩ := Option.map_eq_some_iff.mp hrun
    exact of_decide_eq_false hnot (hclaim .small s _ ⟨_, hstart⟩)
  · intro hclaim
    have hrun : (Boot.small.state.epollEventInit [true]).bind (fun s =>
        (run (watched step assembled) (s, fun _ => 0)
          (acceptOn 5 100 ++ eventOn 5 epollin { recv := .data [0, 7, 0, 0, 0, 0, 0, 0] })).map
        fun w => (w.1.history.use 1, (w.1.conn 1).recvlenAlready, w.2 1)) = some (1, 8, 0) := by
      decide
    obtain ⟨s, hstart, hrun⟩ := Option.bind_eq_some_iff.mp hrun
    obtain ⟨w, hr, hlast⟩ := Option.map_eq_some_iff.mp hrun
    simp only [Prod.mk.injEq] at hlast
    obtain ⟨huse, hlen, hgot⟩ := hlast
    have hused : w.1.Used 1 := by rw [Used, huse]; decide
    have haccount := (hclaim .small s _ ⟨_, hstart⟩).last hr 1 hused
    rw [hlen, hgot] at haccount
    cases haccount

end Server

end MyNginx
