import MyNginx.Receive.Regions
import MyNginx.Server.Bodies

/-!
# No packet moves a read or a write outside its buffer

From `accept` on, as long as the reads of a connection yield bytes or are interrupted,
every `recv` for it stores inside the block that is there for it. A connection that gets
something else in the middle of a body lets its message block go, so the rule is about
runs without that; blocks of the wrong size, and messages that announce more than they
hold, occur in no run at all.
-/

namespace MyNginx

open Foundation

/-- `recv` yields bytes, or is interrupted. -/
def RecvAnswer.Arrives : RecvAnswer → Prop
  | .data _ => True
  | .failed errno => errno = .eintr
  | .zero _ => False

instance : DecidablePred RecvAnswer.Arrives := fun answer => by
  unfold RecvAnswer.Arrives
  split <;> infer_instance

namespace State

variable {s s' t : State} {c d : ConnId} {b : Nat} {p : Ptr} {env : Env} {msg : Message}
variable {asked : State → ConnId → Env → Prop}

/-- The state in which the next readable event of the connection calls `recv`. -/
def atRecv (s : State) (c : ConnId) : State :=
  if (s.conn c).curstat = .hdInit then s.allocHeader c else s

instance : Decidable (s.InBodyState c) := inferInstanceAs (Decidable (_ ∨ _))

/-- The event does call it, with `p_recvbuf` and `recvlen` as they are there. -/
theorem readable_atRecv (env : Env)
    (wanted : (s.conn c).curstat ≠ .hdInit → (s.conn c).recvlen ≠ 0) :
    s.eventReadableRequestHandler c env =
      if s.InBodyState c then (s.atRecv c).receiveBody c env
      else (s.atRecv c).receiveHeader c env := by
  cases hstate : (s.conn c).curstat with
  | hdInit => simp [eventReadableRequestHandler, InBodyState, atRecv, hstate]
  | hdRecving | bdInit | bdRecving =>
      have hlen := wanted (by simp [hstate])
      simp [eventReadableRequestHandler, InBodyState, atRecv, hstate, hlen]

/-- The next `recv` for the connection stores inside the header block, or inside the message
block behind its prefix of a message header and a packet header. -/
inductive RecvInside (s : State) (c : ConnId) : Prop
  | header {b off : Nat} {block : List UInt8}
      (state : (s.conn c).curstat = .hdInit ∨ (s.conn c).curstat = .hdRecving)
      (buf : ((s.atRecv c).conn c).pRecvbuf = .header ⟨b, off⟩)
      (live : (s.atRecv c).memory.get b = some block)
      (size : block.length = pkgHeaderLen)
      (inside : off + ((s.atRecv c).conn c).recvlen ≤ block.length)
  | body {m off : Nat} {msg : Message}
      (state : (s.conn c).curstat = .bdInit ∨ (s.conn c).curstat = .bdRecving)
      (buf : ((s.atRecv c).conn c).pRecvbuf = .message ⟨m, off⟩)
      (owner : ((s.atRecv c).conn c).pMsgrecv = some m)
      (live : (s.atRecv c).messages.get m = some msg)
      (header_le : pkgHeaderLen ≤ pkgLen msg.buf)
      (size : msg.size = msgHeaderLen + pkgLen msg.buf + 1)
      (behind : msgHeaderLen + pkgHeaderLen ≤ off)
      (first : (s.conn c).curstat = .bdInit → off = msgHeaderLen + pkgHeaderLen)
      (inside : off + ((s.atRecv c).conn c).recvlen = msgHeaderLen + pkgLen msg.buf)

/-- What all states have in common, whatever the reads of their connections have yielded. -/
structure Regular (s : State) : Prop where
  headers : s.Headers
  bodies : s.Bodies
  fitted : s.Fitted
  writing : ∀ c, s.Open c → s.InBodyState c → ∃ p, Writing s c p

theorem InBodyState.mid (h : s.InBodyState c) : (s.conn c).curstat ≠ .hdInit := by
  intro hinit
  rcases h with h | h <;> exact absurd (hinit.symm.trans h) nofun

theorem Elsewhere.inBodyState (h : Elsewhere s s' c) : s'.InBodyState c ↔ s.InBodyState c := by
  have hstate : (s'.conn c).curstat = (s.conn c).curstat := congrArg Incoming.curstat h.incoming
  rw [InBodyState, InBodyState, hstate]

/-- The connection goes on writing where it did, if the block is still there. -/
theorem Writing.elsewhere (writing : Writing s c p) (bodies : s.Bodies) (h : Elsewhere s s' c) :
    Writing s' c p := by
  refine writing.congr (congrArg Incoming.pRecvbuf h.incoming)
    (congrArg Incoming.curstat h.incoming) (congrArg Incoming.recvlen h.incoming) fun msg hmsg => ?_
  rcases bodies.buffer c h.opened.1 p writing.buf with hown | hgone
  · rwa [← h.spares.message p.block hown]
  · rw [(h.spares.gone p.block hgone).2] at hmsg
    cases hmsg

theorem Recycles.fitted (h : Recycles s s') (fitted : s.Fitted) : s'.Fitted := by
  cases h with
  | @entry c front back count list counted =>
      exact fitted.withoutMsgrecv (c := c) rfl (by simp [State.recycle, State.withoutMsgrecv]) rfl

theorem Recycles.headers (h : Recycles s s') (headers : s.Headers) (inv : s.Inv) : s'.Headers := by
  cases h with
  | @entry c front back count list counted =>
      exact ((returns_recycle c (front ++ back) count).headers headers inv fun d hd => by
        simp [List.mem_singleton.mp hd, list]).1

theorem Intake.headers (h : Intake asked s s') (headers : s.Headers) : s'.Headers := by
  cases h with
  | aside h => exact h.still.headers headers
  | reads inv used asks h =>
      exact ((readable_readsHeader inv used headers h).headers headers inv
        (readable_frame (inv.idle_of_used used) h) used).1
  | begins inv begun renews lets => exact (renews.headers headers inv).1
  | returns inv h => exact h.headers headers inv

theorem Regular.written (regular : s.Regular) (inv : s.Inv) (used : s.Used c)
    (h : s.eventReadableRequestHandler c env = some s') : ReadsOn s s' c env :=
  readable_written regular.fitted inv used regular.headers (regular.bodies.minds inv used)
    (regular.writing c) h

theorem Intake.fitted (h : Intake asked s s') (regular : s.Regular) : s'.Fitted := by
  cases h with
  | aside h =>
      exact regular.fitted.of_fewer (fun _ _ hb => h.still.memory ▸ hb)
        (fun _ _ hb => h.messages ▸ hb) h.queue
  | reads inv used asks h => exact (regular.written inv used h).fitted
  | begins inv begun renews lets =>
      exact regular.fitted.of_fewer (fun _ _ hb => renews.memory ▸ hb) begun.blocks
        fun _ hm => begun.queue ▸ hm
  | returns inv h => exact h.fitted regular.fitted

/-- One step, without any condition on what its reads yield. -/
theorem Intake.regular (h : Intake asked s s') (regular : s.Regular) : s'.Regular := by
  obtain ⟨hbodies, hmid⟩ := h.bodies regular.bodies
  refine ⟨h.headers regular.headers, hbodies, h.fitted regular, fun c hopen hstate => ?_⟩
  rcases hmid c hopen hstate.mid with helse | ⟨inv, used, env, -, hread⟩
  · obtain ⟨p, hp⟩ := regular.writing c helse.opened (helse.inBodyState.mp hstate)
    exact ⟨p, hp.elsewhere regular.bodies helse⟩
  · exact (regular.written inv used hread).writing hopen hstate

/-- One step, whose reads from the connection get something. -/
theorem Intake.ownsBody (h : Intake asked s s') (regular : s.Regular)
    (arrives : ∀ env, asked s c env → s.Open c → env.recv.Arrives)
    (owns : s.Open c → s.OwnsBody c) : s'.Open c → s'.OwnsBody c := by
  intro hopen hstate p hp
  rcases (h.bodies regular.bodies).2 c hopen hstate.mid with helse | ⟨inv, used, env, hasked, hread⟩
  · have hbuf : (s'.conn c).pRecvbuf = (s.conn c).pRecvbuf :=
      congrArg Incoming.pRecvbuf helse.incoming
    have howner : (s'.conn c).pMsgrecv = (s.conn c).pMsgrecv :=
      congrArg Incoming.pMsgrecv helse.incoming
    rw [howner]
    exact owns helse.opened (helse.inBodyState.mp hstate) p (hbuf ▸ hp)
  · have hold : s.Open c := (readable_frame (inv.idle_of_used used) hread).opened hopen
    have hfed : ¬ s.Starves c env := by
      have hfd := inv.wired.opened c (inv.wired.used c used).1 hold.2
      have harrives := arrives env hasked hold
      cases hrecv : env.recv with
      | data bytes => simp [Starves, hrecv, hfd]
      | zero errno =>
          rw [hrecv] at harrives
          cases harrives
      | failed errno =>
          rw [hrecv] at harrives
          obtain rfl : errno = .eintr := harrives
          simp [Starves, hrecv, hfd]
    exact (regular.written inv used hread).owns hopen hfed (owns hold) hstate p hp

theorem Intakes.regular (h : Intakes asked s s') (regular : s.Regular) : s'.Regular := by
  induction h with
  | refl => exact regular
  | tail _ hstep ih => exact hstep.regular ih

theorem Intakes.ownsBody (h : Intakes asked s s') (regular : s.Regular)
    (arrives : ∀ t env, asked t c env → t.Open c → env.recv.Arrives)
    (owns : s.Open c → s.OwnsBody c) : s'.Open c → s'.OwnsBody c := by
  induction h with
  | refl => exact owns
  | tail hs hstep ih => exact hstep.ownsBody (Intakes.regular hs regular) (arrives _) ih

/-- The next `recv` in the header states. -/
theorem InHeader.recvInside {block got : List UInt8} (inside : InHeader (s.atRecv c) c b block got)
    (state : (s.conn c).curstat = .hdInit ∨ (s.conn c).curstat = .hdRecving) :
    s.RecvInside c ∧ ((s.atRecv c).conn c).recvlen ≠ 0 := by
  have hshort := inside.short
  have hwanted := inside.wanted
  refine ⟨.header state inside.buf inside.live inside.length ?_, by omega⟩
  rw [inside.length, hwanted]
  omega

/-- The next `recv` in the body states, where the connection owns the block it writes to. -/
theorem Writing.recvInside (writing : Writing s c p) (fitted : s.Fitted) (state : s.InBodyState c)
    (owner : (s.conn c).pMsgrecv = some p.block) (live : s.messages.get p.block ≠ none) :
    s.RecvInside c := by
  have hat : s.atRecv c = s := if_neg state.mid
  obtain ⟨msg, hmsg⟩ := Option.ne_none_iff_exists'.mp live
  have hsized := fitted.messages _ _ hmsg
  have hbuf : ((s.atRecv c).conn c).pRecvbuf = .message ⟨p.block, p.off⟩ := by
    rw [hat]
    exact writing.buf
  refine .body state hbuf ?_ ?_ hsized.header_le hsized.size_eq writing.behind writing.first ?_
  · rw [hat]
    exact owner
  · rw [hat]
    exact hmsg
  · rw [hat]
    exact writing.upto msg hmsg

theorem Regular.recvInside (regular : s.Regular) (inv : s.Inv) (hopen : s.Open c)
    (owns : s.OwnsBody c) :
    s.RecvInside c ∧ ((s.conn c).curstat ≠ .hdInit → (s.conn c).recvlen ≠ 0) := by
  have hbody : s.InBodyState c →
      s.RecvInside c ∧ ((s.conn c).curstat ≠ .hdInit → (s.conn c).recvlen ≠ 0) := by
    intro hstate
    obtain ⟨p, hp⟩ := regular.writing c hopen hstate
    have howner := owns hstate p hp.buf
    have hlive := (regular.bodies.live c (inv.wired.used c hopen.1).1 p.block howner).2
    exact ⟨hp.recvInside regular.fitted hstate howner hlive, fun _ => hp.wanted⟩
  cases hstate : (s.conn c).curstat with
  | hdInit =>
      have hat : s.atRecv c = s.allocHeader c := if_pos hstate
      have hinside : InHeader (s.atRecv c) c s.memory.next _ [] := hat ▸ allocHeader_inside
      exact ⟨(hinside.recvInside (.inl hstate)).1, fun hmid => absurd rfl hmid⟩
  | hdRecving =>
      have hmid : (s.conn c).curstat ≠ .hdInit := by simp [hstate]
      have hat : s.atRecv c = s := if_neg hmid
      obtain ⟨b, hholding⟩ := regular.headers.holding c hopen hmid
      cases hholding with
      | header _ inside =>
          have hrecv := InHeader.recvInside (hat.symm ▸ inside) (.inr hstate)
          exact ⟨hrecv.1, fun _ => hat ▸ hrecv.2⟩
      | body state => simp [hstate] at state
  | bdInit => exact hstate ▸ hbody (.inl hstate)
  | bdRecving => exact hstate ▸ hbody (.inr hstate)

end State

/-- A worker process starts without blocks and messages. -/
theorem Boot.Starts.regular {boot : Boot} {s : State} (h : boot.Starts s) : s.Regular := by
  obtain ⟨⟨all, htaking⟩, -⟩ := h.spec
  have hunused : ∀ c, ¬ s.Used c := fun c => by simp [State.Used, htaking.unused c]
  have hblocks := h.frame.1
  refine ⟨(Server.headers_start h).1, h.bodies, ⟨fun b block hb => ?_, fun b msg hb => ?_, ?_⟩,
    fun c hopen => absurd hopen.1 (hunused c)⟩
  · rw [hblocks] at hb
    cases hb
  · rw [hblocks] at hb
    cases hb
  · simp [htaking.queue]

namespace Server

open State

variable {boot : Boot} {s s₀ s' : State} {c : ConnId} {action : Action} {actions : List Action}

/-- Where the step reads from the connection, the read yields bytes or is interrupted. -/
def Answered (c : ConnId) (s : State) : Action → Prop
  | .loop (.handleEvent env) => ∀ event ∈ s.events.head?, event.1 = c →
      event.2.has epollin = true → s.Open c → env.recv.Arrives
  | _ => True

instance : DecidableRel (Answered c) := fun s action => by
  unfold Answered
  rcases action with (_ | _) | _ <;> infer_instance

/-- Every readable event of the connection, while it is open, calls `recv`, which stays in
its buffer and is asked for something. What `ThreadRecvProc` reads of a message stays in its
block, and the length field announces at least a header. -/
structure BuffersKept (c : ConnId) (s : State) : Prop where
  calls : ∀ env, s.Open c → s.eventReadableRequestHandler c env =
    if s.InBodyState c then (s.atRecv c).receiveBody c env else (s.atRecv c).receiveHeader c env
  recv : s.Open c → s.RecvInside c
  wanted : s.Open c → (s.conn c).curstat ≠ .hdInit → (s.conn c).recvlen ≠ 0
  delivered : ∀ m ∈ s.msgqueue, ∃ msg, m = some msg ∧
    pkgHeaderLen + bodyLen msg.buf = pkgLen msg.buf ∧
    (∀ region ∈ msg.reads, region.1 + region.2 ≤ msg.size) ∧
    ∀ (s : State) (now : Time) (beyond : List UInt8),
      s.threadRecvProc { msg with buf := msg.buf ++ beyond } now = s.threadRecvProc msg now

theorem step_regular (inv : s.Inv) (regular : s.Regular) (h : step s action = some s') :
    s'.Regular :=
  Intakes.regular (step_intakes inv h) regular

theorem step_ownsBody (inv : s.Inv) (regular : s.Regular) (answered : Answered c s action)
    (owns : s.Open c → s.OwnsBody c) (h : step s action = some s') : s'.Open c → s'.OwnsBody c := by
  refine Intakes.ownsBody (step_intakes inv h) regular (fun t env hasked hopen => ?_) owns
  obtain ⟨⟨rfl, event, hevent, hc, hin⟩, hold⟩ := hasked
  exact answered event hevent hc hin (hold hopen)

theorem Reachable.regular (h : Reachable boot s) : s.Inv ∧ s.Regular := by
  obtain ⟨s₀, actions, hstart, hr⟩ := h
  exact run_invariant (I := fun s => s.Inv ∧ s.Regular)
    (fun s a s' hi hs => ⟨(step_evolves hi.1 hs).inv, step_regular hi.1 hi.2 hs⟩)
    ⟨hstart.inv, hstart.regular⟩ hr

/-- From an accepted connection on, whatever the peers send and however it arrives: no
`recv` for the connection and no handling of a message leaves its buffer. -/
theorem buffers_kept (reach : Reachable boot s₀) (accepted : s₀.Accepted c)
    (answered : Along step (Answered c) s₀ actions) :
    Throughout step (BuffersKept c) s₀ actions := by
  obtain ⟨hinv, hregular⟩ := reach.regular
  have hstart : s₀.Open c → s₀.OwnsBody c := by
    intro _ hstate
    exact absurd (congrArg Incoming.curstat accepted.start) hstate.mid
  refine (throughout_of_along (I := fun s => s.Inv ∧ s.Regular ∧ (s.Open c → s.OwnsBody c))
    (fun s a s' hi hc hs => ⟨(step_evolves hi.1 hs).inv, step_regular hi.1 hi.2.1 hs,
      step_ownsBody hi.1 hi.2.1 hc hi.2.2 hs⟩) ⟨hinv, hregular, hstart⟩ answered).mono ?_
  rintro s ⟨hinv, hregular, howns⟩
  have hrecv := fun hopen => hregular.recvInside hinv hopen (howns hopen)
  refine ⟨fun env hopen => readable_atRecv env (hrecv hopen).2, fun hopen => (hrecv hopen).1,
    fun hopen => (hrecv hopen).2, fun m hm => ?_⟩
  obtain ⟨msg, rfl, hsized⟩ := hregular.fitted.queue m hm
  have hle := hsized.header_le
  refine ⟨msg, rfl, ?_, hsized.reads_inside, fun s now => threadRecvProc_beyond hsized⟩
  rw [hsized.bodyLen]
  omega

/-- A packet of two bytes behind its header, with its first read interrupted and the length
field of an earlier one refused. -/
theorem buffers_kept_packet : ∃ s₀, Reachable .small s₀ ∧ s₀.Accepted 1 ∧
    Throughout step (BuffersKept 1) s₀
      (eventOn 5 epollin { recv := .failed .eintr } ++
        eventOn 5 epollin { recv := .data [0, 7, 0, 0, 0, 0, 0, 0] } ++
        eventOn 5 epollin { recv := .data [0, 10, 0, 0, 0, 0, 0, 0] } ++
        eventOn 5 epollin { recv := .data [7] } ++
        eventOn 5 epollin { recv := .data [8] }) := by
  have hlaunch : (launch .small [true] (acceptOn 5 100)).map (fun s =>
      decide (s.Accepted 1 ∧ Along step (Answered 1) s
        (eventOn 5 epollin { recv := .failed .eintr } ++
          eventOn 5 epollin { recv := .data [0, 7, 0, 0, 0, 0, 0, 0] } ++
          eventOn 5 epollin { recv := .data [0, 10, 0, 0, 0, 0, 0, 0] } ++
          eventOn 5 epollin { recv := .data [7] } ++
          eventOn 5 epollin { recv := .data [8] }))) = some true := by decide
  obtain ⟨s₀, hs₀, hgood⟩ := Option.map_eq_some_iff.mp hlaunch
  obtain ⟨haccepted, hanswered⟩ := of_decide_eq_true hgood
  exact ⟨s₀, reachable_of_launch hs₀, haccepted,
    buffers_kept (reachable_of_launch hs₀) haccepted hanswered⟩

end Server

end MyNginx
