import MyNginx.Server.Reception

/-!
# The account of received bytes

`recvlen_already` counts the bytes of the packet that is being assembled. Both receivers
add to it, and `PutToStateMach` clears it when a packet has been handed over. A refused
header starts the next packet without that, so the account holds exactly as long as every
header that is completed is taken.
-/

namespace MyNginx

open Foundation

/-- `pkg_header_proc` takes the header. -/
def TakenHeader (header : List UInt8) : Prop :=
  pkgHeaderLen ≤ pkgLen header ∧ pkgLen header ≤ pkgMaxLength - 1000

instance : DecidablePred TakenHeader := fun _ => inferInstanceAs (Decidable (_ ∧ _))

theorem takenHeader_iff {header : List UInt8} : TakenHeader header ↔
    ¬ (pkgLen header < pkgHeaderLen ∨ pkgLen header > pkgMaxLength - 1000) := by
  rw [TakenHeader]
  omega

namespace State

variable {s s' t v : State} {c d : ConnId} {b n : Nat} {env : Env} {hands : Bool}
variable {block got header : List UInt8}

/-- The header that the next readable event of the connection completes: the bytes that are
there and the bytes that are still wanted. -/
def completes (s : State) (c : ConnId) (env : Env) : Option (List UInt8) :=
  match env.recv, ((s.atRecv c).conn c).pRecvbuf with
  | .data bytes, .header p =>
      if bytes.length = ((s.atRecv c).conn c).recvlen then
        ((s.atRecv c).memory.get p.block).map fun block => block.take p.off ++ bytes
      else none
  | _, _ => none

/-- A header that the next readable event of an open connection completes is taken. -/
def TakesHeader (s : State) (c : ConnId) (env : Env) : Prop :=
  s.Open c → ∀ header ∈ s.completes c env, TakenHeader header

instance : Decidable (s.TakesHeader c env) := inferInstanceAs (Decidable (_ → _))

/-- A step receives nothing of the connection; its account stays, or starts. -/
inductive Pauses (s s' : State) (c : ConnId) : Prop
  | kept (used : s.Used c) (state : (s'.conn c).curstat = (s.conn c).curstat)
      (len : (s'.conn c).recvlenAlready = (s.conn c).recvlenAlready)
  | started (state : (s'.conn c).curstat = .hdInit) (len : (s'.conn c).recvlenAlready = 0)

/-- A step receives `n` bytes of the connection and keeps its account. -/
inductive Assembles (s s' : State) (c : ConnId) (n : Nat) : Prop
  | pauses (h : Pauses s s' c) (nothing : n = 0)
  | started (state : (s'.conn c).curstat = .hdInit) (len : (s'.conn c).recvlenAlready = 0)
  | grown (used : s.Used c) (state : (s'.conn c).curstat ≠ .hdInit)
      (len : (s'.conn c).recvlenAlready = (s.conn c).recvlenAlready + n)

/-- A packet starts with bytes on its account. -/
structure Miscounts (s : State) (c : ConnId) : Prop where
  used : s.Used c
  state : (s.conn c).curstat = .hdInit
  len : 0 < (s.conn c).recvlenAlready

theorem Pauses.of_same (used : s.Used c)
    (incoming : (s'.conn c).toIncoming = (s.conn c).toIncoming) : Pauses s s' c :=
  .kept used (congrArg Incoming.curstat incoming) (congrArg Incoming.recvlenAlready incoming)

theorem Pauses.trans (h : t.Used c → Pauses s t c) (h' : Pauses t s' c) : Pauses s s' c := by
  cases h' with
  | started state len => exact .started state len
  | kept used state len =>
      cases h used with
      | kept used' state' len' => exact .kept used' (state.trans state') (len.trans len')
      | started state' len' => exact .started (state.trans state') (len.trans len')

theorem Assembles.after (h : Assembles s t c n) (used : t.Used c)
    (incoming : (s'.conn c).toIncoming = (t.conn c).toIncoming) : Assembles s s' c n := by
  have hstate : (s'.conn c).curstat = (t.conn c).curstat := congrArg Incoming.curstat incoming
  have hlen : (s'.conn c).recvlenAlready = (t.conn c).recvlenAlready :=
    congrArg Incoming.recvlenAlready incoming
  cases h with
  | pauses h nothing => exact .pauses (.trans (fun _ => h) (.of_same used incoming)) nothing
  | started state len => exact .started (hstate.trans state) (hlen.trans len)
  | grown used state len => exact .grown used (hstate ▸ state) (hlen.trans len)

/-- Nothing happens to the account in front of the step. -/
theorem Pauses.before (h : Pauses t s' c) (still : Still s t) : Pauses s s' c :=
  .trans (fun used => .of_same (by rwa [Used, still.use] at used) (still.incoming c)) h

theorem Assembles.before (h : Assembles t s' c n) (still : Still s t) : Assembles s s' c n := by
  cases h with
  | pauses h nothing => exact .pauses (h.before still) nothing
  | started state len => exact .started state len
  | grown used state len =>
      refine .grown (by rwa [Used, still.use] at used) state ?_
      rw [len, show (t.conn c).recvlenAlready = (s.conn c).recvlenAlready from
        congrArg Incoming.recvlenAlready (still.incoming c)]

theorem Miscounts.after (h : Miscounts s c) (use : s'.history.use = s.history.use)
    (incoming : (s'.conn c).toIncoming = (s.conn c).toIncoming) : Miscounts s' c where
  used := by
    rw [Used, use]
    exact h.used
  state := (congrArg Incoming.curstat incoming).trans h.state
  len := by
    rw [show (s'.conn c).recvlenAlready = (s.conn c).recvlenAlready from
      congrArg Incoming.recvlenAlready incoming]
    exact h.len

/-! ### The connection that is read from -/

/-- Bytes are stored, nothing is, or there is nothing to be had. -/
theorem Receives.conn {buf : RecvBuf} {len : Nat} (h : Receives s c buf len env t (some n)) :
    t.conn = s.conn ∧ n = env.recv.size ∧ n ≤ len ∧ s.openFds (s.conn c).fd = true := by
  cases h with
  | bytes opened recv pos le stored =>
      refine ⟨?_, by rw [recv]; rfl, le, opened⟩
      cases buf with
      | null => cases stored
      | header p =>
          obtain ⟨memory, -, rfl⟩ := Option.map_eq_some_iff.mp stored
          rfl
      | message p =>
          obtain ⟨messages, -, rfl⟩ := Option.map_eq_some_iff.mp stored
          rfl
  | nothing opened empty stays => exact ⟨rfl, empty.symm, Nat.zero_le _, opened⟩

/-- Where nothing is received the receive state machine stays where it is. -/
theorem Receives.still {buf : RecvBuf} {len : Nat} (idle : s.Idle c)
    (h : Receives s c buf len env t none) :
    (t.conn c).toIncoming = (s.conn c).toIncoming ∧
      (s.openFds (s.conn c).fd = true → env.recv.size = 0) := by
  cases h with
  | again opened empty stays => exact ⟨rfl, fun _ => empty⟩
  | closing gone close =>
      exact ⟨(closeAcceptedConnection_aside idle close).still.incoming c, fun opened =>
        (gone opened).1⟩

theorem completes_size (h : header ∈ s.completes c env) :
    env.recv.size = ((s.atRecv c).conn c).recvlen := by
  simp only [completes, Option.mem_def] at h
  split at h
  next bytes p hrecv hbuf =>
    split at h
    next hfull =>
      rw [hrecv]
      exact hfull
    next => cases h
  next => cases h

/-- The rest of the batch has no influence. -/
theorem takesHeader_events {events : List (ConnId × Mask)} :
    { s with events }.TakesHeader c env ↔ s.TakesHeader c env := by
  have hcompletes : { s with events }.completes c env = s.completes c env := by
    by_cases hinit : (s.conn c).curstat = .hdInit <;> simp [completes, atRecv, hinit]
  rw [TakesHeader, TakesHeader, hcompletes]
  exact Iff.rfl

/-- The header block that an open connection outside the body states receives into. -/
theorem Regular.inHeader (regular : s.Regular) (hopen : s.Open c) (state : ¬ s.InBodyState c) :
    ∃ b block got, InHeader (s.atRecv c) c b block got := by
  by_cases hinit : (s.conn c).curstat = .hdInit
  · have hat : s.atRecv c = s.allocHeader c := if_pos hinit
    rw [hat]
    exact ⟨_, _, _, allocHeader_inside⟩
  · have hat : s.atRecv c = s := if_neg hinit
    rw [hat]
    obtain ⟨b, hholding⟩ := regular.headers.holding c hopen hinit
    cases hholding with
    | header _ inside => exact ⟨b, _, _, inside⟩
    | body hbody => exact absurd hbody state

/-- An open connection asks `recv` for something. -/
theorem Regular.asked (regular : s.Regular) (hopen : s.Open c) :
    ((s.atRecv c).conn c).recvlen ≠ 0 := by
  by_cases state : s.InBodyState c
  · have hat : s.atRecv c = s := if_neg state.mid
    rw [hat]
    exact regular.wanted hopen state.mid
  · obtain ⟨b, block, got, inside⟩ := regular.inHeader hopen state
    have hshort := inside.short
    have hwanted := inside.wanted
    omega

/-- The read that completes a header leaves all of it in its block. -/
theorem InHeader.completed (inside : InHeader s c b block got)
    (recv : Receives s c (s.conn c).pRecvbuf (s.conn c).recvlen env t (some n))
    (full : n = (s.conn c).recvlen) :
    ∃ bytes, env.recv = .data bytes ∧ bytes.length = n ∧ got.length + n = pkgHeaderLen ∧
      t.memory.get b = some (got ++ bytes) := by
  have hshort := inside.short
  have hwanted := inside.wanted
  have hlength := inside.length
  generalize hn : some n = r at recv
  cases recv with
  | @bytes bytes t opened recv pos le stored =>
      obtain rfl := Option.some.inj hn
      have htotal : got.length + bytes.length = pkgHeaderLen := by omega
      refine ⟨bytes, recv, rfl, htotal, ?_⟩
      rw [inside.buf, store_header bytes inside.live got.length (by omega)] at stored
      obtain rfl := Option.some.inj stored
      have hwhole : overwrite block got.length bytes = got ++ bytes := by
        rw [← take_overwrite_got bytes inside.holds (by omega), List.take_of_length_le]
        rw [length_overwrite (by omega)]
        omega
      rw [setMemory_toBlocks, Heap.get_set_self, hwhole]
  | nothing opened empty stays =>
      obtain rfl := Option.some.inj hn
      omega
  | again => cases hn
  | closing => cases hn

/-- What becomes of a complete header. -/
inductive Decided (s : State) (c : ConnId) (header : List UInt8) : State → Bool → Prop
  | refused {v : State} (bad : ¬ TakenHeader header) (state : (v.conn c).curstat = .hdInit)
      (len : (v.conn c).recvlenAlready = (s.conn c).recvlenAlready) : Decided s c header v false
  | whole (taken : TakenHeader header) (bare : pkgLen header = pkgHeaderLen) :
      Decided s c header (s.allocMessage c header (pkgLen header - pkgHeaderLen)) true
  | begun (taken : TakenHeader header) (body : pkgLen header ≠ pkgHeaderLen) :
      Decided s c header
        ((s.allocMessage c header (pkgLen header - pkgHeaderLen)).modifyConn c fun conn =>
          { conn with curstat := .bdInit }) false

theorem headerHandover_decided (info : (s.conn c).pHeaderinfo = some b)
    (live : s.memory.get b = some header) (h : s.headerHandover c = some (v, hands)) :
    Decided s c header v hands := by
  simp only [headerHandover, info, live, Option.bind_some] at h
  split at h
  next hbad =>
    obtain ⟨u, hfree, heq⟩ := Option.map_eq_some_iff.mp h
    obtain ⟨rfl, rfl⟩ := Prod.mk.inj heq
    obtain ⟨memory, -, rfl⟩ := Option.map_eq_some_iff.mp hfree
    exact .refused (fun htaken => takenHeader_iff.mp htaken hbad) (by simp) (by simp)
  next hgood =>
    have htaken := takenHeader_iff.mpr hgood
    have hle := htaken.1
    split at h
    next hzero =>
      obtain ⟨rfl, rfl⟩ := Prod.mk.inj (Option.some.inj h)
      exact .whole htaken (by omega)
    next hbody =>
      obtain ⟨rfl, rfl⟩ := Prod.mk.inj (Option.some.inj h)
      exact .begun htaken (by omega)

/-- A packet that has been handed over leaves the state machine at its beginning. -/
theorem pkgBodyProc_starts (h : s.pkgBodyProc c = some s') :
    (s'.conn c).toIncoming = Incoming.start := by
  simp only [pkgBodyProc] at h
  obtain ⟨t, -, rfl⟩ := Option.map_eq_some_iff.mp h
  simp

/-- What `advance` does to the account. -/
theorem advance_account (t : State) (n : Nat) :
    ((t.advance c n).conn c).recvlenAlready = (t.conn c).recvlenAlready + n ∧
      ((t.advance c n).conn c).pHeaderinfo = (t.conn c).pHeaderinfo ∧
      (t.advance c n).memory = t.memory := by
  simp [advance]

/-- A read that completes a header of an open connection: what was there of it, and what is
decided about it. -/
theorem Regular.headerRead (regular : s.Regular) (hopen : s.Open c) (state : ¬ s.InBodyState c)
    (recv : Receives (s.atRecv c) c ((s.atRecv c).conn c).pRecvbuf
      ((s.atRecv c).conn c).recvlen env t (some n))
    (full : n = ((s.atRecv c).conn c).recvlen)
    (proc : (t.advance c n).headerHandover c = some (v, hands)) :
    ∃ b block got header, InHeader (s.atRecv c) c b block got ∧
      got.length + n = pkgHeaderLen ∧ header.length = pkgHeaderLen ∧
      (s.TakesHeader c env ↔ TakenHeader header) ∧
      Decided (t.advance c n) c header v hands := by
  obtain ⟨b, block, got, inside⟩ := regular.inHeader hopen state
  obtain ⟨bytes, hdata, hbytes, htotal, hlive⟩ := inside.completed recv full
  obtain ⟨-, hinfo, hmemory⟩ := advance_account (c := c) t n
  have hcompletes : s.completes c env = some (got ++ bytes) := by
    simp [completes, hdata, inside.buf, inside.live, inside.holds, hbytes, full]
  refine ⟨b, block, got, got ++ bytes, inside, htotal, ?_, ?_, ?_⟩
  · rw [List.length_append, hbytes, htotal]
  · simp [TakesHeader, hcompletes, hopen]
  · refine headerHandover_decided ?_ (by rw [hmemory]; exact hlive) proc
    rw [hinfo, recv.conn.1]
    exact inside.info

theorem atRecv_account (s : State) :
    ((s.atRecv c).conn c).recvlenAlready = (s.conn c).recvlenAlready ∧
      ((s.atRecv c).conn c).fd = (s.conn c).fd ∧ (s.atRecv c).openFds = s.openFds := by
  rw [atRecv]
  split
  · simp
  · exact ⟨rfl, rfl, rfl⟩

/-- One readable event: the account is kept exactly if a header that is completed is taken. -/
theorem readable_assembles (inv : s.Inv) (regular : s.Regular) (used : s.Used c)
    (h : s.eventReadableRequestHandler c env = some s') :
    s.TakesHeader c env ∧ Assembles s s' c (s.received c env) ∨
      ¬ s.TakesHeader c env ∧ Miscounts s' c := by
  obtain ⟨v, hands, -, hreception, hlast⟩ := readable_reception h
  obtain ⟨hlen, hfd, hfds⟩ := atRecv_account (c := c) s
  have hstate := atRecv_curstat (s := s) (c := c)
  have hidle := (inv.idle_of_used used).receiveOnly (receiveOnly_atRecv s c)
  have huse := (readable_frame (inv.idle_of_used used) h).untouched.2
  have hused : s'.Used c := by rwa [Used, huse]
  have hreceived : s.received c env = (s.atRecv c).received c env := by
    rw [State.received, State.received, hfds, hfd]
  have hopened : (s.atRecv c).openFds ((s.atRecv c).conn c).fd = true → s.Open c := by
    rw [hfds, hfd]
    refine fun hopen => ⟨used, fun hgone => ?_⟩
    rw [inv.closed hgone] at hopen
    cases hopen
  have hopens : s.Open c → (s.atRecv c).openFds ((s.atRecv c).conn c).fd = true := by
    rw [hfds, hfd]
    exact fun hopen => inv.wired.opened c (inv.wired.used c used).1 hopen.2
  -- A header is completed by what `recv` is asked for.
  have hunfinished : (s.Open c → env.recv.size ≠ ((s.atRecv c).conn c).recvlen) →
      s.TakesHeader c env := fun hpart hopen header hheader =>
    absurd (completes_size hheader) (hpart hopen)
  rw [hreceived]
  cases hreception with
  | idle state unwanted =>
      have hclosed : ¬ (s.atRecv c).openFds ((s.atRecv c).conn c).fd = true := fun hopen =>
        regular.wanted (hopened hopen) state unwanted
      obtain rfl := Option.some.inj hlast
      refine .inl ⟨fun hopen => absurd unwanted (regular.wanted hopen state), ?_⟩
      rw [State.received, if_neg hclosed]
      exact .pauses (.of_same used rfl) rfl
  | @stopped t recv v last =>
      obtain rfl := Option.some.inj hlast
      obtain ⟨hincoming, hempty⟩ := recv.still hidle
      refine .inl ⟨hunfinished fun hopen => ?_, ?_⟩
      · rw [hempty (hopens hopen)]
        exact (regular.asked hopen).symm
      · rw [recv.received]
        have hlast : (v.conn c).curstat = (t.conn c).curstat ∧
            (v.conn c).recvlenAlready = (t.conn c).recvlenAlready := by
          rcases last with rfl | ⟨-, rfl⟩ <;> simp
        refine .pauses (.kept used ?_ ?_) rfl
        · exact hlast.1.trans ((congrArg Incoming.curstat hincoming).trans hstate)
        · exact hlast.2.trans ((congrArg Incoming.recvlenAlready hincoming).trans hlen)
  | @part t n state recv short next =>
      obtain rfl := Option.some.inj hlast
      obtain ⟨hconn, hsize, -, -⟩ := recv.conn
      refine .inl ⟨hunfinished fun _ => hsize ▸ short, ?_⟩
      rw [recv.received]
      refine .grown used ?_ ?_
      · rcases next with ⟨-, rfl⟩ | ⟨-, rfl⟩ <;> simp
      · simp [advance, hconn, hlen]
  | @header t n state recv full v hands proc =>
      obtain ⟨hconn, -, -, hopen⟩ := recv.conn
      have haccount := (advance_account (c := c) t n).1
      obtain ⟨b, block, got, header, inside, -, -, htakes, hdecided⟩ :=
        regular.headerRead (hopened hopen) state recv full proc
      rw [htakes, recv.received]
      rw [hconn, hlen] at haccount
      cases hdecided with
      | refused bad hinit hkept =>
          obtain rfl := Option.some.inj hlast
          have hwanted := regular.asked (hopened hopen)
          refine .inr ⟨bad, hused, hinit, ?_⟩
          rw [hkept, haccount]
          omega
      | whole taken bare =>
          have hstart := pkgBodyProc_starts hlast
          exact .inl ⟨taken, .started (congrArg Incoming.curstat hstart)
            (congrArg Incoming.recvlenAlready hstart)⟩
      | begun taken body =>
          obtain rfl := Option.some.inj hlast
          refine .inl ⟨taken, .grown used (by simp) ?_⟩
          simpa using haccount
  | body state recv full =>
      have hstart := pkgBodyProc_starts hlast
      refine .inl ⟨fun hopen header hheader => ?_, .started (congrArg Incoming.curstat hstart)
        (congrArg Incoming.recvlenAlready hstart)⟩
      have hat : s.atRecv c = s := if_neg state.mid
      obtain ⟨p, hwriting⟩ := regular.writing c hopen state
      simp only [completes, hat, hwriting.buf, Option.mem_def] at hheader
      split at hheader
      next hbuf => cases hbuf
      next => cases hheader

/-! ### The other connections and the other steps -/

variable {asked : State → ConnId → Env → Prop}

theorem Intake.pauses (h : Intake asked s s') (silent : ∀ d env, ¬ asked s d env)
    (used : s'.Used c) : Pauses s s' c := by
  cases h with
  | aside h => exact .of_same (by rwa [Used, h.still.use] at used) (h.still.incoming c)
  | @reads d env inv usedd asks h => exact absurd asks (silent d env)
  | @begins d inv begun renews lets =>
      by_cases hc : c = d
      · subst hc
        exact .started (congrArg Incoming.curstat renews.incoming)
          (congrArg Incoming.recvlenAlready renews.incoming)
      · exact .of_same (by rwa [Used, renews.apart.use c hc] at used) (renews.apart.incoming c hc)
  | returns inv h =>
      cases h with
      | @entry d front back count list counted =>
          by_cases hc : c = d
          · subst hc
            exact .kept used (by simp [State.recycle]) (by simp [State.recycle])
          · exact .of_same used (by simp [State.recycle, hc])

/-- Steps that do not read. -/
theorem Intakes.pauses (h : Intakes asked s s') (silent : ∀ t d env, ¬ asked t d env) :
    s'.Used c → Pauses s s' c := by
  induction h with
  | refl => exact fun used => .of_same used rfl
  | tail _ hstep ih => exact fun used => .trans ih (hstep.pauses (silent _) used)

end State

namespace Server

open State

variable {s s' : State} {boot : Boot} {action : Action} {actions : List Action}

/-- The bytes that a step receives of the connection. -/
def arrived (s : State) (action : Action) (c : ConnId) : Nat :=
  match action, s.events with
  | .loop (.handleEvent env), (d, events) :: _ =>
      if d = c ∧ events.has epollin = true then s.received c env else 0
  | _, _ => 0

/-- A header that the step completes is taken. -/
def HeaderTaken (s : State) : Action → Prop
  | .loop (.handleEvent env) => ∀ event ∈ s.events.head?, event.2.has epollin = true →
      s.TakesHeader event.1 env
  | _ => True

instance : DecidableRel HeaderTaken := fun s action => by
  unfold HeaderTaken
  rcases action with (_ | _) | _ <;> infer_instance

/-- Of every connection, the number of bytes received of the packet that is being assembled:
none where the next packet is waited for. -/
def assembled (s : State) (action : Action) (s' : State) (got : ConnId → Nat) (c : ConnId) : Nat :=
  if (s'.conn c).curstat = .hdInit then 0 else got c + arrived s action c

/-- `recvlen_already` is that number for every accepted connection. -/
def Accounted (w : State × (ConnId → Nat)) : Prop :=
  ∀ c, w.1.Used c → (w.1.conn c).recvlenAlready = w.2 c

theorem handleEvent_assembles (inv : s.Inv) (regular : s.Regular) {env : Env}
    (h : s.handleEvent env = some s') :
    HeaderTaken s (.loop (.handleEvent env)) ∧
        (∀ c, s'.Used c → Assembles s s' c (arrived s (.loop (.handleEvent env)) c)) ∨
      ¬ HeaderTaken s (.loop (.handleEvent env)) ∧ ∃ c, Miscounts s' c := by
  obtain ⟨c, events, rest, t, hevent⟩ := handleEvent_cases inv h
  have haside : Aside s { s with events := rest } :=
    aside_conn rfl rfl ⟨rfl, rfl⟩ rfl fun _ => ⟨rfl, rfl⟩
  have htaken : Intake (fun _ _ _ => False) s { s with events := rest } := .aside haside
  have hregular := htaken.regular regular
  have hout := (handleOut_aside hevent.between.inv hevent.still hevent.outward).still
  have hused : ∀ d, s'.Used d → t.Used d := fun d hd => by rwa [Used, hout.use] at hd
  have hafter : ∀ {d n}, s'.Used d → Assembles { s with events := rest } t d n →
      Assembles s s' d n := fun hd hs =>
    (hs.before haside.still).after (hused _ hd) (hout.incoming _)
  have htaken : HeaderTaken s (.loop (.handleEvent env)) ↔
      (events.has epollin = true → { s with events := rest }.TakesHeader c env) := by
    rw [takesHeader_events]
    simp [HeaderTaken, hevent.batch]
  have harrived : ∀ d, arrived s (.loop (.handleEvent env)) d =
      if c = d ∧ events.has epollin = true then s.received d env else 0 := fun d => by
    simp [arrived, hevent.batch]
  rw [htaken]
  cases handleIn_cases hevent.taken.inv hevent.ok hevent.inward with
  | reads set used read =>
      have hframe := readable_frame (hevent.taken.inv.idle_of_used used) read
      have happart := hframe.apart
      rcases readable_assembles hevent.taken.inv hregular used read with
        ⟨htakes, hself⟩ | ⟨hrefuses, hmiscounts⟩
      · refine .inl ⟨fun _ => htakes, fun d hd => hafter hd ?_⟩
        rw [harrived]
        by_cases hdc : c = d
        · subst hdc
          rw [if_pos ⟨rfl, set⟩]
          exact hself
        · have hold := hused d hd
          rw [if_neg fun hboth => hdc hboth.1]
          rw [Used, happart.use d (Ne.symm hdc)] at hold
          exact .pauses (.of_same hold (happart.incoming d (Ne.symm hdc))) rfl
      · exact .inr ⟨fun htakes => hrefuses (htakes set),
          c, hmiscounts.after hout.use (hout.incoming c)⟩
  | accepts set standby accept =>
      have hunused : ¬ s.Used c := (hevent.taken.inv.wired.standby c standby).2.1
      have haccept : Intakes (fun _ _ _ => False) { s with events := rest } t :=
        acceptLoop_intakes hevent.taken.inv accept
      refine .inl ⟨fun _ hopen => absurd hopen.1 hunused, fun d hd => hafter hd ?_⟩
      have hpauses := haccept.pauses (fun _ _ _ => id) (hused d hd)
      rw [harrived]
      by_cases hdc : c = d
      · subst hdc
        cases hpauses with
        | kept used state len => exact absurd used hunused
        | started state len => exact .started state len
      · rw [if_neg fun hboth => hdc hboth.1]
        exact .pauses hpauses rfl
  | skips unset =>
      refine .inl ⟨fun set => absurd set unset, fun d hd => hafter hd ?_⟩
      rw [harrived, if_neg fun hboth => unset hboth.2]
      exact .pauses (.of_same (hused d hd) rfl) rfl

/-- One step: the accounts are kept, or a refused header leaves bytes on one. -/
theorem step_assembles (inv : s.Inv) (regular : s.Regular) (h : step s action = some s') :
    HeaderTaken s action ∧ (∀ c, s'.Used c → Assembles s s' c (arrived s action c)) ∨
      ¬ HeaderTaken s action ∧ ∃ c, Miscounts s' c := by
  have hpauses : (∀ env, action ≠ .loop (.handleEvent env)) → arrived s action = (fun _ => 0) →
      ∀ c, s'.Used c → Assembles s s' c (arrived s action c) := by
    intro hother hnothing c hused
    rw [hnothing]
    have hpauses : Pauses s s' c :=
      (step_intakes inv h).pauses (fun _ _ env hasked => hother env hasked.1.1) hused
    exact .pauses hpauses rfl
  cases action with
  | loop action =>
      cases action with
      | handleEvent env => exact handleEvent_assembles inv regular h
      | epollWait | timerBegin | timerCheck | timerDelete | timerClose | recycle | shutdown =>
          exact .inl ⟨trivial, hpauses (by simp) rfl⟩
  | work w now => exact .inl ⟨trivial, hpauses (by simp) rfl⟩
  | sendEntry i env => exact .inl ⟨trivial, hpauses (by simp) rfl⟩

/-- One step keeps the accounts right exactly if it takes the header that it completes. -/
theorem step_accounted_iff {got : ConnId → Nat} (inv : s.Inv) (regular : s.Regular)
    (waiting : ∀ c, (s.conn c).curstat = .hdInit → got c = 0) (accounted : Accounted (s, got))
    (h : step s action = some s') :
    Accounted (s', assembled s action s' got) ↔ HeaderTaken s action := by
  rcases step_assembles inv regular h with ⟨htaken, hsteps⟩ | ⟨hrefused, c, hmiscounts⟩
  · refine iff_of_true (fun c hused => ?_) htaken
    show (s'.conn c).recvlenAlready = if _ then _ else _
    cases hsteps c hused with
    | pauses hpauses nothing =>
        cases hpauses with
        | kept used state len =>
            rw [state, len, nothing, accounted c used]
            split
            next hinit => exact waiting c hinit
            next => rfl
        | started state len => rw [state, len, if_pos rfl]
    | started state len => rw [state, len, if_pos rfl]
    | grown used state len => rw [len, accounted c used, if_neg state]
  · refine iff_of_false (fun haccounted => ?_) hrefused
    have hzero : (s'.conn c).recvlenAlready = if _ then _ else _ := haccounted c hmiscounts.used
    rw [if_pos hmiscounts.state] at hzero
    exact absurd hzero (Nat.pos_iff_ne_zero.mp hmiscounts.len)

end Server

end MyNginx
