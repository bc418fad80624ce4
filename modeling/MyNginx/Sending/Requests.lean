import MyNginx.Sending.Arming
import MyNginx.Server.Streams

/-!
# Every client's packets, in its order

The loop, the timer thread, the recycle thread, the workers and the send thread run in any
order, and any number of clients come and go. For every use of every object the messages
that the workers have taken, with those that still wait behind them, are the frames of what
this client has sent, in its order: none is lost, none is made up or handled twice, and none
contains a byte of somebody else.
-/

namespace MyNginx

open Foundation

/-- Those of the messages that came from the use number `u` of the object `c`. -/
def requestsOf (c : ConnId) (u : Nat) (messages : List (Option Message)) : List Message :=
  messages.filterMap fun m => m.filter fun msg => msg.head.lpCurconn = c ∧ msg.origin = u

section

variable {c d : ConnId} {u seq use : Nat} {messages more : List (Option Message)}

theorem requestsOf_append : requestsOf c u (messages ++ more) =
    requestsOf c u messages ++ requestsOf c u more :=
  List.filterMap_append

/-- What a use hands over belongs to it. -/
theorem requestsOf_self (packets : List (List UInt8)) :
    requestsOf c u (packets.map (some ∘ packetMessage c seq u)) =
      packets.map (packetMessage c seq u) := by
  rw [requestsOf, List.filterMap_map, ← List.filterMap_eq_map]
  refine congrArg (fun f => List.filterMap f packets) (funext fun packet => ?_)
  simp [Option.filter, packetMessage]

theorem requestsOf_other (packets : List (List UInt8)) (other : ¬ (d = c ∧ use = u)) :
    requestsOf c u (packets.map (some ∘ packetMessage d seq use)) = [] := by
  rw [requestsOf, List.filterMap_map, List.filterMap_eq_nil_iff]
  intro packet _
  simpa [packetMessage] using other

end

namespace Sending

open State

variable {n : Nat} {boot : Boot} {k k₀ k' : Config n} {action : Action n}
  {actions : List (Action n)} {c : ConnId} {u : Nat}

/-- What a run has received of each use of each object, and what its workers have taken. -/
structure Seen where
  stream : ConnId → Nat → List UInt8
  taken : List (Option Message)

/-- Nothing yet. -/
def Seen.start : Seen := ⟨fun _ _ => [], []⟩

/-- The bytes of a step, put down to the use that receives them. -/
def Seen.receive (seen : Seen) (s : State) (action : LoopAction) : Seen where
  stream c u := seen.stream c u ++ if u = s.history.use c then s.receives action c else []
  taken := seen.taken

def observe (k : Config n) (action : Action n) (_ : Config n) (seen : Seen) : Seen :=
  match action with
  | .loop action => seen.receive k.server action
  | .take _ _ => { seen with taken := seen.taken ++ k.server.msgqueue.head?.toList }
  | _ => seen

/-- The messages of a use are the frames of its stream; with the connection still in that
use they have its sequence. -/
def Framed (s : State) (messages : List (Option Message)) (stream : List UInt8) (c : ConnId)
    (u : Nat) : Prop :=
  ∃ seq, (s.Open c → s.history.use c = u → (s.conn c).sequence = seq) ∧
    requestsOf c u messages = (packetFormat.frames stream).map (packetMessage c seq u)

/-- Every connection is where its stream says. -/
structure Followed (s : State) (messages : List (Option Message))
    (stream : ConnId → Nat → List UInt8) : Prop where
  future : ∀ c u, s.history.use c < u → stream c u = []
  standing : ∀ c, s.Open c → Standing s c (s.conn c).sequence (s.history.use c)
    (packetFormat.rest (stream c (s.history.use c)))
  framed : ∀ c u, Framed s messages (stream c u) c u

/-- Messages of others change nothing. -/
theorem Framed.append {s : State} {messages more : List (Option Message)} {stream : List UInt8}
    (h : Framed s messages stream c u) (others : requestsOf c u more = []) :
    Framed s (messages ++ more) stream c u := by
  obtain ⟨seq, hseq, hframes⟩ := h
  exact ⟨seq, hseq, by rw [requestsOf_append, others, List.append_nil, hframes]⟩

/-- What a step does to a connection that it does not read from. -/
structure Passed (s s' : State) (d : ConnId) : Prop where
  use : s.history.use d ≤ s'.history.use d
  carried : s'.Open d → Carried s s' d
  sequence : s'.Open d → s'.history.use d = s.history.use d →
    (s'.conn d).sequence = (s.conn d).sequence

variable {s s' : State} {messages more : List (Option Message)}
  {stream stream' : ConnId → Nat → List UInt8}

theorem Passed.standing (h : Passed s s' c)
    (future : ∀ u, s.history.use c < u → stream c u = [])
    (standing : s.Open c → Standing s c (s.conn c).sequence (s.history.use c)
      (packetFormat.rest (stream c (s.history.use c)))) (hopen : s'.Open c) :
    Standing s' c (s'.conn c).sequence (s'.history.use c)
      (packetFormat.rest (stream c (s'.history.use c))) := by
  cases h.carried hopen with
  | kept opened use next =>
      rw [h.sequence hopen use, use]
      exact next _ _ _ (standing opened)
  | begun use next =>
      rw [future _ use, Format.rest_nil]
      exact next _ _

theorem Passed.framed (h : Passed s s' c)
    (future : ∀ u, s.history.use c < u → stream c u = [])
    (framed : Framed s messages (stream c u) c u) : Framed s' messages (stream c u) c u := by
  obtain ⟨seq, hseq, hframes⟩ := framed
  by_cases hnew : s.history.use c < u
  · refine ⟨(s'.conn c).sequence, fun _ _ => rfl, ?_⟩
    rw [hframes, future u hnew, Format.frames_nil]
    rfl
  · refine ⟨seq, fun hopen huse => ?_, hframes⟩
    have hgrows := h.use
    have hsame : s'.history.use c = s.history.use c := by omega
    rw [h.sequence hopen hsame]
    refine hseq ?_ (hsame ▸ huse)
    cases h.carried hopen with
    | kept opened => exact opened
    | begun lt => omega

/-- A step that reads nothing. -/
theorem Followed.passed (h : Followed s messages stream) (passed : ∀ c, Passed s s' c) :
    Followed s' messages stream where
  future c u hlt := h.future c u (Nat.lt_of_le_of_lt (passed c).use hlt)
  standing c hopen := (passed c).standing (h.future c) (h.standing c) hopen
  framed c u := (passed c).framed (h.future c) (h.framed c u)

/-- One step of the loop. -/
theorem Followed.loop {action : LoopAction} (h : Followed s messages stream) (inv : s.Inv)
    (regular : s.Regular) (hs : s.loopStep action = some s') :
    ∃ more, s'.msgqueue = s.msgqueue ++ more ∧ Followed s' (messages ++ more) fun c u =>
      stream c u ++ if u = s.history.use c then s.receives action c else [] := by
  have hmoves := loopStep_moves inv hs
  have hpassed : ∀ d, (s'.Open d → Carried s s' d) → Passed s s' d := fun d hcarried => by
    refine ⟨(hmoves.evolves inv).use_le d, hcarried, fun hopen huse => ?_⟩
    rcases hmoves.open_or_fresh inv hopen with ⟨-, hlink⟩ | hlt
    · exact (link_eq hlink).2.1
    · exact absurd hlt (by omega)
  cases loopStep_follows inv regular hs with
  | silent nothing queue carried =>
      refine ⟨[], by simpa using queue, ?_⟩
      simpa [nothing] using h.passed fun d => hpassed d (carried d)
  | @reads c opened only queue standing use carried =>
      have hstanding := h.standing c opened
      have hsequence : s'.Open c → (s'.conn c).sequence = (s.conn c).sequence := fun hopen => by
        rcases hmoves.open_or_fresh inv hopen with ⟨-, hlink⟩ | hlt
        · exact (link_eq hlink).2.1
        · exact absurd hlt (by omega)
      have hothers : ∀ d, d ≠ c → ∀ v, (stream d v ++ if v = s.history.use d then
          s.receives action d else []) = stream d v := fun d hdc v => by
        rw [only d hdc, ite_self, List.append_nil]
      have hpast : ∀ v, v ≠ s.history.use c → (stream c v ++ if v = s.history.use c then
          s.receives action c else []) = stream c v := fun v hne => by
        rw [if_neg hne, List.append_nil]
      refine ⟨_, queue _ hstanding, ⟨fun d v hlt => ?_, fun d hopen => ?_, fun d v => ?_⟩⟩
      · have hold : s.history.use d < v :=
          Nat.lt_of_le_of_lt ((hmoves.evolves inv).use_le d) hlt
        rw [if_neg (Nat.ne_of_gt hold), List.append_nil]
        exact h.future d v hold
      · by_cases hdc : d = c
        · subst hdc
          rw [hsequence hopen, use, if_pos rfl, Format.rest_append]
          exact standing _ hstanding hopen
        · rw [hothers d hdc]
          exact (hpassed d (carried d hdc)).standing (h.future d) (h.standing d) hopen
      · by_cases hdc : d = c
        · subst hdc
          obtain ⟨seq, hseq, hframes⟩ := h.framed d v
          by_cases hv : v = s.history.use d
          · subst hv
            obtain rfl := hseq opened rfl
            refine ⟨(s.conn d).sequence, fun hopen _ => hsequence hopen, ?_⟩
            rw [if_pos rfl, requestsOf_append, requestsOf_self, hframes,
              Format.frames_append (stream d _), List.map_append]
          · rw [hpast v hv]
            refine Framed.append ⟨seq, fun _ huse => ?_, hframes⟩ ?_
            · exact absurd (huse.symm.trans use) hv
            · exact requestsOf_other _ fun hboth => hv hboth.2.symm
        · rw [hothers d hdc]
          refine Framed.append ?_ (requestsOf_other _ fun hboth => hdc hboth.1.symm)
          exact (hpassed d (carried d hdc)).framed (h.future d) (h.framed d v)

/-- A step of a worker or of the send thread. -/
theorem Followed.aside (h : Followed s messages stream) (aside : Aside s s')
    (neutral : Neutral s s') : Followed s' messages stream :=
  h.passed fun c => ⟨Nat.le_of_eq (congrFun neutral.use_eq c).symm, aside.carried,
    fun _ _ => (link_eq (neutral.link c)).2.1⟩

/-- A worker takes the first message. -/
theorem took_queue {now : Time} {r : Option Reply} (h : Took s now s' r) :
    ∃ first, s.msgqueue = first :: s'.msgqueue := by
  cases h with
  | null queue => exact ⟨none, queue⟩
  | @message msg rest s' r queue processed =>
      have hrest : s'.msgqueue = rest := by
        cases processed with
        | dropped | heartbeat | answered => rfl
      exact ⟨some msg, by rw [queue, hrest]⟩

theorem msgSendStep_queue {thread : Thread} {pc pc' : WorkerPc}
    (h : s.msgSendStep thread pc = some (s', pc')) : s'.msgqueue = s.msgqueue := by
  cases pc with
  | idle => cases h
  | entering reply =>
      simp only [msgSendStep] at h
      split at h
      · obtain ⟨rfl, -⟩ := Prod.mk.inj (Option.some.inj h)
        rfl
      · cases h
  | locked reply =>
      simp only [msgSendStep] at h
      split at h
      · obtain ⟨rfl, -⟩ := Prod.mk.inj (Option.some.inj h)
        rfl
      · obtain ⟨rfl, -⟩ := Prod.mk.inj (Option.some.inj h)
        rfl
  | pushed reply | unlocked reply | counted | posting =>
      obtain ⟨rfl, -⟩ := Prod.mk.inj (Option.some.inj h)
      rfl

/-- The steps of the workers and of the send thread receive nothing. -/
theorem step_aside (inv : k.Inv) (other : ∀ loop, action ≠ .loop loop)
    (h : step k action = some k') :
    Aside k.server k'.server ∧ Neutral k.server k'.server ∧ ∀ seen : Seen,
      (observe k action k' seen).taken ++ k'.server.msgqueue = seen.taken ++ k.server.msgqueue ∧
        (observe k action k' seen).stream = seen.stream := by
  cases step_does inv h with
  | loop moves => exact absurd rfl (other _)
  | take idle handles makes =>
      have htook := takeMessage_took makes
      obtain ⟨c, hframe, -⟩ := htook.frame
      obtain ⟨first, hqueue⟩ := took_queue htook
      rw [handled_server]
      refine ⟨hframe.aside htook.queue, handles.neutral, fun seen => ⟨?_, rfl⟩⟩
      simp [observe, hqueue]
  | @call w reply s' idle handles =>
      simp only [step] at h
      split at h
      · have hsuppose : s' = k.server.supposeSend reply :=
          (congrArg Config.server (Option.some.inj h)).symm
        have hframe : WorkOnly reply.head.lpCurconn k.server (k.server.supposeSend reply) :=
          workOnly_modifyConn fun _ => ⟨_, _, rfl⟩
        subst hsuppose
        exact ⟨hframe.aside fun _ => id, handles.neutral, fun seen => ⟨rfl, rfl⟩⟩
      · cases h
  | advance advances =>
      obtain ⟨c, hframe⟩ := msgSendStep_frame advances
      have hqueue := msgSendStep_queue advances
      refine ⟨hframe.aside fun m hm => hqueue ▸ hm, ?_, fun seen => ⟨by rw [hqueue]; rfl, rfl⟩⟩
      rcases msgSendStep_advances (inv.hands _) advances with
        ⟨reply, -, -, -, hadvances⟩ | ⟨-, hadvances⟩
      · exact hadvances.steady.toNeutral
      · exact hadvances.steady.toNeutral
  | @send env s' pc sends =>
      rcases senderStep_cases inv.server sends with
        ⟨i, reply, next, hpc, hreply, hentry, -⟩ | ⟨-, -, sendmutex, sendsem, rfl⟩
      · rw [hpc] at sends
        obtain ⟨next, hsend⟩ := senderStep_scans hreply sends
        obtain ⟨reply, -, hframe⟩ := sendEntry_frame hsend
        refine ⟨hframe.aside, hentry.steady.toNeutral, fun seen => ⟨?_, rfl⟩⟩
        obtain ⟨queue, interest, wire, out, events, rfl⟩ := hframe
        rfl
      · have hsteady : Steady k.server { k.server with sendmutex, sendsem } :=
          steady_sendQueue { k.server.toSendQueue with sendmutex, sendsem } fun _ hr => hr
        exact ⟨aside_conn rfl rfl ⟨rfl, rfl⟩ rfl fun _ => ⟨rfl, rfl⟩, hsteady.toNeutral,
          fun seen => ⟨rfl, rfl⟩⟩
  | interrupt waiting => exact ⟨.refl _, .refl _, fun seen => ⟨rfl, rfl⟩⟩

/-- What every step keeps, with what has been seen of the run. -/
structure Watched (w : Config n × Seen) : Prop where
  inv : w.1.Inv
  regular : w.1.server.Regular
  followed : Followed w.1.server (w.2.taken ++ w.1.server.msgqueue) w.2.stream

theorem Watched.step {w w' : Config n × Seen} (h : Watched w)
    (hs : watched step observe w action = some w') : Watched w' := by
  obtain ⟨k', hk, rfl⟩ := watched_eq_some.mp hs
  have hinv := step_inv h.inv hk
  by_cases hloop : ∃ loop, action = .loop loop
  · obtain ⟨loop, rfl⟩ := hloop
    obtain ⟨s', hs', rfl⟩ := Option.map_eq_some_iff.mp hk
    obtain ⟨more, hqueue, hfollowed⟩ := h.followed.loop h.inv.server h.regular hs'
    have hstep : Server.step _ (.loop loop) = some s' := hs'
    have hregular := Server.step_regular h.inv.server h.regular hstep
    refine ⟨hinv, hregular, ?_⟩
    rw [List.append_assoc, ← hqueue] at hfollowed
    exact hfollowed
  · have hother : ∀ loop, action ≠ .loop loop := fun loop heq => hloop ⟨loop, heq⟩
    obtain ⟨haside, hneutral, hseen⟩ := step_aside h.inv hother hk
    have hintake : Intake (fun _ _ _ => False) w.1.server k'.server := .aside haside
    refine ⟨hinv, hintake.regular h.regular, ?_⟩
    rw [(hseen w.2).1, (hseen w.2).2]
    exact h.followed.aside haside hneutral

theorem Starts.watched (h : Starts boot k) : Watched (k, Seen.start) := by
  obtain ⟨⟨all, htaking⟩, -⟩ := h.1.spec
  have hunused : ∀ c, ¬ k.server.Used c := fun c => by simp [Used, htaking.unused c]
  refine ⟨h.inv, h.1.regular, ⟨fun _ _ _ => rfl, fun c hopen => absurd hopen.1 (hunused c),
    fun c u => ⟨0, fun hopen => absurd hopen.1 (hunused c), ?_⟩⟩⟩
  simp [Seen.start, htaking.queue, requestsOf]

/-- In every run and for every use of every object: what the workers have taken and what they
will take next are the frames of the bytes that this use has received, in their order. -/
theorem requests_framed {seen : Seen} (hstart : Starts boot k₀)
    (hr : run (watched step observe) (k₀, Seen.start) actions = some (k, seen))
    (c : ConnId) (u : Nat) :
    ∃ seq, requestsOf c u (seen.taken ++ k.server.msgqueue) =
      (packetFormat.frames (seen.stream c u)).map (packetMessage c seq u) := by
  have hwatched : Watched (k, seen) :=
    run_invariant (fun w a w' hw hs => hw.step hs) hstart.watched hr
  obtain ⟨seq, -, hframes⟩ := hwatched.followed.framed c u
  exact ⟨seq, hframes⟩

/-- Two clients. The packet of the first one arrives in two pieces, the packet of the second
one in between, and a worker takes the first message of the list. -/
def twoClients : List (Action 1) :=
  acceptOn 5 100 ++ acceptOn 6 101 ++ eventOn 5 epollin { recv := .data [0, 8, 0] } ++
    eventOn 6 epollin { recv := .data pingPacket } ++
    eventOn 5 epollin { recv := .data [0, 0, 0, 0, 0] } ++ [.take onlyWorker 110]

theorem requests_framed_two_clients : ∃ (k₀ k : Config 1) (seen : Seen), Starts Boot.small k₀ ∧
    run (watched step observe) (k₀, Seen.start) twoClients = some (k, seen) ∧
    seen.taken.length = 1 ∧ k.server.msgqueue.length = 1 ∧
    seen.stream 1 1 = pingPacket ∧ seen.stream 2 1 = pingPacket ∧
    ∀ c u, ∃ seq, requestsOf c u (seen.taken ++ k.server.msgqueue) =
      (packetFormat.frames (seen.stream c u)).map (packetMessage c seq u) := by
  have hrun : ((Boot.small.state.epollEventInit [true]).bind fun s =>
      (run (watched step observe) ((⟨s, fun _ => .idle, .looping⟩ : Config 1), Seen.start)
        twoClients).map fun w => decide (w.2.taken.length = 1 ∧ w.1.server.msgqueue.length = 1 ∧
          w.2.stream 1 1 = pingPacket ∧ w.2.stream 2 1 = pingPacket)) = some true := by
    decide +kernel
  obtain ⟨s, hstart, hrun⟩ := Option.bind_eq_some_iff.mp hrun
  obtain ⟨⟨k, seen⟩, hr, hdecide⟩ := Option.map_eq_some_iff.mp hrun
  have hstarts : Starts Boot.small (⟨s, fun _ => .idle, .looping⟩ : Config 1) :=
    ⟨⟨_, hstart⟩, rfl, rfl⟩
  obtain ⟨htaken, hqueue, hfirst, hsecond⟩ := of_decide_eq_true hdecide
  exact ⟨_, k, seen, hstarts, hr, htaken, hqueue, hfirst, hsecond, requests_framed hstarts hr⟩

end Sending

end MyNginx
