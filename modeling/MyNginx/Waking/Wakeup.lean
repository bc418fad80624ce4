import MyNginx.Sending.Backlog
import MyNginx.Server.Registration
import MyNginx.Waking.System

/-!
# Wake-ups of the send thread

Whoever puts a reply into the list posts `m_sendsem` afterwards, and so does the
`EPOLLOUT` handler that ends a reply other ones are waiting behind. The send thread that
takes such a post looks through the whole list. So a reply that could be sent is known to
a post that has not been taken, to a thread that is about to post, or to the send thread
itself, which has not come to it yet.

The `EPOLLOUT` handler posts before it resets `iThrowsendCount`. When the send thread takes
the post, looks at the list and goes back to sleep in between, it has skipped the replies
the post was for.
-/

namespace MyNginx

open Foundation

/-- The reply is in the list, and `sem_post` is still to come. -/
def WorkerPc.posts : WorkerPc → Bool
  | .pushed _ | .unlocked _ | .counted | .posting => true
  | _ => false

/-- The send thread comes to the element `j` of the list before it waits again. -/
def SenderPc.reaches : SenderPc → Nat → Bool
  | .looping, _ | .waiting, _ => false
  | .scanning i, j => i ≤ j
  | _, _ => true

namespace State

variable {s s' t : State} {c : ConnId} {env : Env}

/-- The connection of a reply is still the one it was made for. -/
def Current (s : State) (reply : Reply) : Prop :=
  (s.conn reply.head.lpCurconn).judgeOutdate reply.head.msgCursequence = true

instance : DecidablePred s.Current := fun _ => inferInstanceAs (Decidable (_ = true))

/-- Sequences in the list that come through the `int` parameter of `JudgeOutdate` as they are. -/
def SmallStamps (s : State) : Prop := ∀ reply ∈ s.sendMsgList, reply.head.msgCursequence < 2 ^ 31

instance : Decidable s.SmallStamps := inferInstanceAs (Decidable (∀ reply ∈ s.sendMsgList, _))

/-- The list stays, and no reply in it can be sent that could not be sent before. -/
structure Calm (s s' : State) : Prop where
  list : s'.sendMsgList = s.sendMsgList
  total : s'.msgtosendCount = s.msgtosendCount
  sendsem : s'.sendsem = s.sendsem
  sendable : ∀ reply ∈ s.sendMsgList, s'.Current reply → s.Current reply ∧
    ((s'.conn reply.head.lpCurconn).iThrowsendCount ≤ 0 →
      (s.conn reply.head.lpCurconn).iThrowsendCount ≤ 0)

theorem Calm.refl (s : State) : Calm s s := ⟨rfl, rfl, rfl, fun _ _ h => ⟨h, id⟩⟩

theorem Calm.trans (h : Calm s t) (h' : Calm t s') : Calm s s' where
  list := h'.list.trans h.list
  total := h'.total.trans h.total
  sendsem := h'.sendsem.trans h.sendsem
  sendable reply hreply hcurrent := by
    obtain ⟨hmid, hcount'⟩ := h'.sendable reply (h.list ▸ hreply) hcurrent
    obtain ⟨hfirst, hcount⟩ := h.sendable reply hreply hmid
    exact ⟨hfirst, fun hle => hcount (hcount' hle)⟩

/-- A reply whose connection has been accepted anew is not current again. -/
theorem current_of_evolves (inv : s.Inv) (evolves : Evolves s s') (small : s.SmallStamps)
    {reply : Reply} (hreply : reply ∈ s.sendMsgList) (hcurrent : s'.Current reply) :
    s'.Open reply.head.lpCurconn ∧
      (s'.conn reply.head.lpCurconn).sequence = (s.conn reply.head.lpCurconn).sequence ∧
      s'.history.use reply.head.lpCurconn = s.history.use reply.head.lpCurconn := by
  obtain ⟨hused, hle, -⟩ := inv.flight.replies reply hreply
  have hseq := (Connection.judgeOutdate_iff.mp hcurrent).2.2
  rw [throughInt_of_lt (small reply hreply)] at hseq
  refine ⟨⟨evolves.used hused, Connection.fd_ne_of_judgeOutdate hcurrent⟩, ?_⟩
  rcases (evolves.aged reply.head.lpCurconn).2 hused with hsame | hlt
  · exact hsame
  · omega

/-- Where nothing is written, nothing becomes sendable. -/
theorem Leaves.calm (h : Leaves s s') (inv : s.Inv) (evolves : Evolves s s')
    (small : s.SmallStamps) : Calm s s' where
  list := congrArg SendQueue.sendMsgList h.queue
  total := congrArg SendQueue.msgtosendCount h.queue
  sendsem := congrArg SendQueue.sendsem h.queue
  sendable reply hreply hcurrent := by
    obtain ⟨hopen, hseq, huse⟩ := current_of_evolves inv evolves small hreply hcurrent
    rcases h.each _ hopen with ⟨hold, hsame⟩ | hfresh
    · obtain ⟨hpos, -, hstamp⟩ := Connection.judgeOutdate_iff.mp hcurrent
      refine ⟨Connection.judgeOutdate_iff.mpr ⟨hsame.fd ▸ hpos, ?_, hseq ▸ hstamp⟩, ?_⟩
      · rw [inv.wired.idle _ hold.1 hold.2]
        decide
      · rw [congrArg Outgoing.iThrowsendCount hsame.outgoing]
        exact id
    · exact absurd huse (Nat.ne_of_gt hfresh.use)

/-- Neither does what the `EPOLLOUT` handler sends, before it resets anything. -/
theorem writableSend_sends (inv : s.Inv) (used : s.Used c) {ends : Bool}
    (h : s.writableSend c env = some (s', ends)) :
    ∃ out written, Sends s c out s.toSendQueue written s' ∧
      out.iThrowsendCount = (s.conn c).iThrowsendCount ∧
      ∀ p, out.pSendbuf = some p → (s.conn c).pSendbuf ≠ none := by
  simp only [writableSend] at h
  split at h
  · cases h
  next t hproc =>
    obtain ⟨rfl, rfl⟩ := Prod.mk.inj (Option.some.inj h)
    rcases sendproc_sends hproc with ⟨n, -, hr, -⟩ | ⟨-, rfl, -⟩
    · cases hr
    · exact ⟨_, _, sends_refl, rfl, fun p hp => by simp [hp]⟩
  next t n hproc =>
    rcases sendproc_sends hproc with ⟨m, written, hr, -, hsends⟩ | ⟨hr, -⟩
    · obtain rfl := Option.some.inj hr
      split at h
      · obtain ⟨rfl, rfl⟩ := Prod.mk.inj (Option.some.inj h)
        refine ⟨_, _, hsends.modify (g := fun o => o.progress n) (fun _ => ⟨rfl, rfl⟩)
          fun _ => rfl, rfl, fun p hp => ?_⟩
        obtain ⟨q, hq, -⟩ := Option.map_eq_some_iff.mp hp
        simp [hq]
      · have hcount := hsends.count n
        split at h
        · obtain ⟨rfl, rfl⟩ := Prod.mk.inj (Option.some.inj h)
          refine ⟨_, _, hcount, rfl, fun p hp => ?_⟩
          simp [show (s.conn c).pSendbuf = some p from hp]
        · obtain ⟨rfl, rfl⟩ := Prod.mk.inj (Option.some.inj h)
          refine ⟨_, _, hcount.epollMod inv used, rfl, fun p hp => ?_⟩
          simp [show (s.conn c).pSendbuf = some p from hp]
    · cases hr

theorem current_iff (h : Neutral s s') {reply : Reply} : s'.Current reply ↔ s.Current reply := by
  obtain ⟨hfd, hseq, hrecy, -⟩ := link_eq (h.link reply.head.lpCurconn)
  rw [Current, Current, Connection.judgeOutdate_iff, Connection.judgeOutdate_iff, hfd, hseq, hrecy]

theorem Sends.calm {out : Outgoing} {written : List Written}
    (h : Sends s c out s.toSendQueue written s')
    (count : out.iThrowsendCount ≤ 0 → (s.conn c).iThrowsendCount ≤ 0) : Calm s s' where
  list := congrArg SendQueue.sendMsgList h.queue
  total := congrArg SendQueue.msgtosendCount h.queue
  sendsem := congrArg SendQueue.sendsem h.queue
  sendable reply _ hcurrent := by
    refine ⟨(current_iff h.steady.toNeutral).mp hcurrent, fun hle => ?_⟩
    by_cases hc : reply.head.lpCurconn = c
    · rw [hc, h.self] at hle
      rw [hc]
      exact count hle
    · rwa [h.other _ hc] at hle

/-- What a step keeps besides: the invariant of the server, and free objects without a
reply in progress. -/
structure Safe (s : State) : Prop where
  inv : s.Inv
  cleared : s.Cleared

/-- The `EPOLLOUT` part does not find the connection of a peer that hung up open and marked. -/
def Unmarked (s : State) (c : ConnId) (events : Mask) : Prop :=
  events.has epollout = true → events.has (epollrdhup ||| epollerr ||| epollhup) = true →
    s.Open c → (s.conn c).istimeout = false

instance {events : Mask} : Decidable (s.Unmarked c events) :=
  inferInstanceAs (Decidable (_ → _ → _ → _))

open Waking

/-- A step of the server that makes nothing sendable. -/
structure Rests (s : State) (s' : State) : Prop where
  safe : s'.Safe
  aged : Aged s s'
  calm : Calm s s'

theorem Rests.trans (h : Rests s t) (h' : Rests t s') : Rests s s' :=
  ⟨h'.safe, h.aged.trans h'.aged, h.calm.trans h'.calm⟩

theorem Sends.rests {out : Outgoing} {written : List Written}
    (h : Sends s c out s.toSendQueue written s') (safe : s.Safe)
    (count : out.iThrowsendCount ≤ 0 → (s.conn c).iThrowsendCount ≤ 0)
    (sendbuf : ∀ p, out.pSendbuf = some p → (s.conn c).pSendbuf ≠ none) : Rests s s' where
  safe := ⟨h.steady.inv safe.inv, safe.cleared.sends h fun p hp => .inl (sendbuf p hp)⟩
  aged := h.steady.aged
  calm := h.calm count

/-- The `EPOLLOUT` part of an event, up to the `sem_post`. -/
theorem beginOut_rests (safe : s.Safe) (small : s.SmallStamps) {events : Mask} {loop : LoopPc}
    (ok : s.EventOk (c, events)) (unmarked : s.Unmarked c events)
    (h : s.beginOut c events env = some (s', loop)) :
    Rests s s' ∧ (loop = .between ∨ loop = .posting c ∧ s.Used c) := by
  simp only [beginOut] at h
  split at h
  next hplain =>
    have hused : s.Used c := by
      rcases ok with hused | ⟨-, hnone⟩
      · exact hused
      · rw [hnone] at hplain
        cases hplain.1
    simp only [callWhandler, if_pos (safe.inv.wired.used c hused).2.2] at h
    obtain ⟨⟨t, ends⟩, hsend, heq⟩ := Option.map_eq_some_iff.mp h
    obtain ⟨rfl, rfl⟩ := Prod.mk.inj heq
    obtain ⟨out, written, hsends, hcount, hbuf⟩ := writableSend_sends safe.inv hused hsend
    refine ⟨hsends.rests safe (fun hle => hcount ▸ hle) hbuf, ?_⟩
    cases ends with
    | true => exact .inr ⟨rfl, hused⟩
    | false => exact .inl rfl
  next hplain =>
    obtain ⟨t, hout, heq⟩ := Option.map_eq_some_iff.mp h
    obtain ⟨rfl, rfl⟩ := Prod.mk.inj heq
    refine ⟨?_, .inl rfl⟩
    have hmoves := handleOut_moves safe.inv ok hout
    have hevolves := hmoves.evolves safe.inv
    refine ⟨⟨hevolves.inv, hmoves.cleared safe.inv safe.cleared⟩, hevolves.aged, ?_⟩
    refine Leaves.calm ?_ safe.inv hevolves small
    simp only [handleOut] at hout
    split at hout
    next hhas =>
      have hused : s.Used c := by
        rcases ok with hused | ⟨-, hnone⟩
        · exact hused
        · rw [hnone] at hhas
          cases hhas
      have hgone : events.has (epollrdhup ||| epollerr ||| epollhup) = true := by
        simpa [hhas] using hplain
      rw [if_pos hgone] at hout
      exact hangup_leaves safe.inv hused (unmarked hhas hgone) hout
    next =>
      obtain rfl := Option.some.inj hout
      exact .refl s

/-- An event, up to the `sem_post` of the `EPOLLOUT` handler. -/
theorem beginEvent_rests (safe : s.Safe) (small : s.SmallStamps) {loop : LoopPc}
    (unmarked : ∀ c events rest t, s.events = (c, events) :: rest →
      ({ s with events := rest } : State).handleIn c events env = some t → t.Unmarked c events)
    (h : s.beginEvent env = some (s', loop)) :
    Rests s s' ∧ (loop = .between ∨ ∃ c, loop = .posting c ∧ s'.Used c) := by
  simp only [beginEvent] at h
  split at h
  · cases h
  next c events rest hevents =>
    obtain ⟨t, hin, hout⟩ := Option.bind_eq_some_iff.mp h
    have hok : ∀ event ∈ (c, events) :: rest, s.EventOk event :=
      hevents ▸ safe.inv.wired.events
    have hrest := events_evolves safe.inv fun event hevent =>
      hok event (List.mem_cons_of_mem _ hevent)
    have hfirst := (hok (c, events) List.mem_cons_self).evolves hrest
    have hmoves := handleIn_moves hrest.inv hfirst hin
    have hevolves := hmoves.evolves hrest.inv
    have hleaves : Leaves s t := (handleIn_leaves hrest.inv hfirst hin).of_eq rfl rfl rfl rfl
    have hwhole : Evolves s t := hrest.trans hevolves
    have hcalm : Calm s t := hleaves.calm safe.inv hwhole small
    have hbegun : Rests s t :=
      ⟨⟨hevolves.inv, hmoves.cleared hrest.inv safe.cleared⟩, hwhole.aged, hcalm⟩
    have hsmall : t.SmallStamps := by
      rw [SmallStamps, hcalm.list]
      exact small
    obtain ⟨hends, hloop⟩ := beginOut_rests hbegun.safe hsmall (hfirst.evolves hevolves)
      (unmarked c events rest t hevents hin) hout
    refine ⟨hbegun.trans hends, ?_⟩
    rcases hloop with hbetween | ⟨hposting, hused⟩
    · exact .inl hbetween
    · exact .inr ⟨c, hposting, Nat.lt_of_lt_of_le hused (hends.aged c).1⟩

/-- The reset behind the `sem_post`. -/
theorem sends_resetSend : Sends s c (s.conn c).finished s.toSendQueue [] (s.resetSend c) :=
  sends_refl.finish

end State

namespace Waking

open State

variable {n : Nat} {k k' : Config n} {action : Action n} {boot : Boot}

def LoopPc.posts : LoopPc → Bool
  | .posting _ => true
  | _ => false

/-- A post of the semaphore has not been taken, or a thread is about to post. -/
def Config.Pending (k : Config n) : Prop :=
  0 < k.base.server.sendsem ∨ (∃ w, (k.base.workers w).posts = true) ∨ k.loop.posts = true

instance : DecidablePred (Config.Pending (n := n)) := fun _ => by
  unfold Config.Pending
  infer_instance

/-- The send thread waits, nobody will wake it, and a reply could be sent. -/
def Config.Stranded (k : Config n) : Prop :=
  k.base.sender = .waiting ∧ k.base.server.sendsem = 0 ∧
    (∀ w, (k.base.workers w).posts = false) ∧ k.loop.posts = false ∧
    ∃ reply ∈ k.base.server.sendMsgList, k.base.server.Current reply ∧
      (k.base.server.conn reply.head.lpCurconn).iThrowsendCount = 0

/-- The send thread will look at the element `j`. -/
def Config.Awake (k : Config n) (j : Nat) : Prop := k.Pending ∨ k.base.sender.reaches j = true

/-- The send thread will look at each reply that can be sent, or can be sent when the loop
has reset its connection. -/
def Config.Watched (k : Config n) : Prop :=
  ∀ j reply, k.base.server.sendMsgList[j]? = some reply → k.base.server.Current reply →
    (k.base.server.conn reply.head.lpCurconn).iThrowsendCount ≤ 0 ∨
      k.loop = .resetting reply.head.lpCurconn → k.Awake j

theorem Config.Watched.not_stranded (watched : k.Watched) : ¬ k.Stranded := by
  rintro ⟨hwaiting, hsendsem, hworkers, hloop, reply, hreply, hcurrent, hcount⟩
  obtain ⟨j, hj⟩ := List.getElem?_of_mem hreply
  rcases watched j reply hj hcurrent (.inl (Int.le_of_eq hcount)) with hpending | hreaches
  · rcases hpending with hsem | ⟨w, hw⟩ | hloops
    · omega
    · rw [hworkers w] at hw
      cases hw
    · rw [hloop] at hloops
      cases hloops
  · rw [hwaiting] at hreaches
    cases hreaches

theorem Config.Watched.of_pending (h : k.Pending) : k.Watched := fun _ _ _ _ _ => .inl h

/-- What every step keeps. -/
structure Config.Inv (k : Config n) : Prop where
  base : k.base.Inv
  counted : 0 ≤ k.base.surplus
  used : ∀ c, k.loop = .posting c ∨ k.loop = .resetting c → k.base.server.Used c

theorem Config.Inv.safe (inv : k.Inv) : k.base.server.Safe := ⟨inv.base.server, inv.base.cleared⟩

/-- A step that makes nothing sendable, while the send thread stays where it is. -/
theorem Config.Watched.calm (watched : k.Watched)
    (calm : Calm k.base.server k'.base.server) (sender : k'.base.sender = k.base.sender)
    (pending : k.Pending → k'.Pending)
    (loop : ∀ c, k'.loop = .resetting c → k.loop = .resetting c) : k'.Watched := by
  intro j reply hj hcurrent hready
  rw [calm.list] at hj
  obtain ⟨hold, hcount⟩ := calm.sendable reply (List.mem_of_getElem? hj) hcurrent
  rcases watched j reply hj hold (hready.imp hcount (loop _)) with hpending | hreaches
  · exact .inl (pending hpending)
  · exact .inr (sender ▸ hreaches)

/-- The send thread does not skip an element while the loop is about to reset its
connection, unless another post is to come; a peer that hung up does not find its
connection open and marked; and the sequences in the list are below `2 ^ 31` while the
loop handles an event. -/
def Careful (k : Config n) : Action n → Prop
  | .other (.send _) =>
      match k.base.sender with
      | .scanning i =>
          match k.base.server.sendMsgList[i]? with
          | some reply => k.loop = .resetting reply.head.lpCurconn →
              k.base.server.Current reply →
                0 < (k.base.server.conn reply.head.lpCurconn).iThrowsendCount → k.Pending
          | none => True
      | _ => True
  | .other (.loop _) => k.base.server.SmallStamps
  | .beginEvent env => k.base.server.SmallStamps ∧
      match k.base.server.events with
      | [] => True
      | (c, events) :: rest =>
          match ({ k.base.server with events := rest } : State).handleIn c events env with
          | some t => t.Unmarked c events
          | none => True
  | _ => True

instance : DecidableRel (Careful (n := n)) := fun k action => by
  unfold Careful
  split
  · split
    · split <;> infer_instance
    · infer_instance
  · infer_instance
  · refine @instDecidableAnd _ _ _ ?_
    split
    · infer_instance
    · split <;> infer_instance
  · infer_instance

/-- The other steps of the loop and of the threads beside it. -/
theorem loop_watched (inv : k.Inv) (watched : k.Watched) {action : LoopAction} {s : State}
    (permitted : Permitted (n := n) k.loop (.loop action)) (small : k.base.server.SmallStamps)
    (h : k.base.server.loopStep action = some s) :
    (⟨{ k.base with server := s }, k.loop⟩ : Config n).Watched := by
  have hevolves := (loopStep_moves inv.base.server h).evolves inv.base.server
  rcases loopStep_leaves inv.base.server h with hleaves | ⟨env, c, events, rest, t, rfl, -⟩
  · have hcalm := hleaves.calm inv.base.server hevolves small
    exact watched.calm hcalm rfl (fun hp => hp.imp_left (fun hsem => hcalm.sendsem ▸ hsem))
      fun _ => id
  · exact absurd permitted id

/-- A worker that handles a message has nothing in the list yet. -/
theorem handled_watched (watched : k.Watched) {w : Fin n} {s : State} {r : Option Reply}
    (idle : k.base.workers w = .idle) (handles : Handles k.base.server r s) :
    (⟨k.base.handled w (s, r), k.loop⟩ : Config n).Watched := by
  have hcalm : Calm k.base.server s := by
    refine ⟨congrArg SendQueue.sendMsgList handles.queue,
      congrArg SendQueue.msgtosendCount handles.queue,
      congrArg SendQueue.sendsem handles.queue, fun reply _ hcurrent =>
        ⟨(current_iff handles.neutral).mp hcurrent, ?_⟩⟩
    rw [congrArg Outgoing.iThrowsendCount (handles.outgoing reply.head.lpCurconn)]
    exact id
  refine watched.calm (by simpa using hcalm) (by simp) (fun hp => ?_) fun _ => id
  refine hp.imp (fun hsem => ?_) (Or.imp_left fun ⟨v, hv⟩ => ?_)
  · simpa [hcalm.sendsem] using hsem
  · have hvw : v ≠ w := by
      rintro rfl
      rw [idle] at hv
      cases hv
    refine ⟨v, ?_⟩
    cases r with
    | none => exact hv
    | some reply =>
        show (Function.update k.base.workers w _ v).posts = true
        rw [Function.update_of_ne hvw]
        exact hv

/-- A worker posts for every reply it has put into the list. -/
theorem advance_watched (watched : k.Watched) {w : Fin n} {s : State} {pc : WorkerPc}
    (h : k.base.server.msgSendStep (.worker w) (k.base.workers w) = some (s, pc)) :
    (⟨{ k.base with server := s, workers := Function.update k.base.workers w pc }, k.loop⟩ :
      Config n).Watched := by
  have hposts : pc.posts = true →
      (⟨{ k.base with server := s, workers := Function.update k.base.workers w pc }, k.loop⟩ :
        Config n).Watched := fun hpc =>
    .of_pending (.inr (.inl ⟨w, by simpa using hpc⟩))
  have hstays : (k.base.workers w).posts = false → Calm k.base.server s →
      (⟨{ k.base with server := s, workers := Function.update k.base.workers w pc }, k.loop⟩ :
        Config n).Watched := by
    intro hidle hcalm
    refine watched.calm hcalm rfl (fun hp => ?_) fun _ => id
    refine hp.imp (fun hsem => hcalm.sendsem ▸ hsem) (Or.imp_left fun ⟨v, hv⟩ => ⟨v, ?_⟩)
    have hvw : v ≠ w := by
      rintro rfl
      rw [hidle] at hv
      cases hv
    show (Function.update k.base.workers w pc v).posts = true
    rwa [Function.update_of_ne hvw]
  cases hpc : k.base.workers w with
  | idle => simp [hpc, msgSendStep] at h
  | entering reply =>
      rw [hpc] at h
      simp only [msgSendStep] at h
      split at h
      · obtain ⟨rfl, rfl⟩ := Prod.mk.inj (Option.some.inj h)
        exact hstays (by rw [hpc]; rfl) ⟨rfl, rfl, rfl, fun _ _ hc => ⟨hc, id⟩⟩
      · cases h
  | locked reply =>
      rw [hpc] at h
      simp only [msgSendStep] at h
      split at h
      · obtain ⟨rfl, rfl⟩ := Prod.mk.inj (Option.some.inj h)
        exact hstays (by rw [hpc]; rfl) (.refl _)
      · obtain ⟨rfl, rfl⟩ := Prod.mk.inj (Option.some.inj h)
        exact hposts rfl
  | pushed reply | unlocked reply | counted =>
      rw [hpc] at h
      obtain ⟨rfl, rfl⟩ := Prod.mk.inj (Option.some.inj h)
      exact hposts rfl
  | posting =>
      rw [hpc] at h
      obtain ⟨rfl, rfl⟩ := Prod.mk.inj (Option.some.inj h)
      exact .of_pending (.inl (Nat.succ_pos _))

/-- A counter that is not positive, in front of a list that is not empty, has increments
to come. -/
theorem pending_of_uncounted (inv : k.Inv) {j : Nat} {reply : Reply}
    (hj : k.base.server.sendMsgList[j]? = some reply)
    (count : ¬ 0 < k.base.server.msgtosendCount) : k.Pending := by
  have hlength : j < k.base.server.sendMsgList.length := (List.getElem?_eq_some_iff.mp hj).1
  have hcounted := inv.counted
  rw [Sending.Config.surplus] at hcounted
  have howed : k.base.owed ≠ 0 := by omega
  obtain ⟨w, -, hw⟩ := Finset.exists_ne_zero_of_sum_ne_zero howed
  have howes : (k.base.workers w).owes = true := by
    by_contra hnot
    simp [hnot] at hw
  refine .inr (.inl ⟨w, ?_⟩)
  cases hpc : k.base.workers w with
  | idle | entering | locked | posting => simp [hpc, WorkerPc.owes] at howes
  | pushed | unlocked | counted => rfl

/-- The send thread goes on over its list. -/
theorem scan_watched (watched : k.Watched) {env : Env} {i : Nat} {reply : Reply}
    {next : SendNext} {s : State} (hpc : k.base.sender = .scanning i)
    (hreply : k.base.server.sendMsgList[i]? = some reply)
    (skips : k.loop = .resetting reply.head.lpCurconn → k.base.server.Current reply →
      0 < (k.base.server.conn reply.head.lpCurconn).iThrowsendCount → k.Pending)
    (h : Entry k.base.server i reply reply.head.lpCurconn env s next) :
    (⟨{ k.base with server := s, sender := next.pc i }, k.loop⟩ : Config n).Watched := by
  -- An element in front of the position was skipped, so somebody will post.
  have hbefore : ∀ j r, j < i → k.base.server.sendMsgList[j]? = some r →
      k.base.server.Current r → (k.base.server.conn r.head.lpCurconn).iThrowsendCount ≤ 0 ∨
        k.loop = .resetting r.head.lpCurconn → k.Pending := by
    intro j r hlt hj hcurrent hready
    refine (watched j r hj hcurrent hready).resolve_right fun hreaches => ?_
    rw [hpc] at hreaches
    simp only [SenderPc.reaches, decide_eq_true_eq] at hreaches
    omega
  have herased : ∀ {out queue written},
      Sends k.base.server reply.head.lpCurconn out queue written s →
      queue.sendMsgList = k.base.server.sendMsgList.eraseIdx i →
      queue.sendsem = k.base.server.sendsem →
      (out.iThrowsendCount ≤ 0 →
        (k.base.server.conn reply.head.lpCurconn).iThrowsendCount ≤ 0) →
      (⟨{ k.base with server := s, sender := .scanning i }, k.loop⟩ : Config n).Watched := by
    intro out queue written hsends hlist hsem hcount j r hj hcurrent hready
    rw [congrArg SendQueue.sendMsgList hsends.queue, hlist] at hj
    by_cases hlt : j < i
    · rw [List.getElem?_eraseIdx_of_lt hlt] at hj
      refine .inl ?_
      have hpending := hbefore j r hlt hj ((current_iff hsends.steady.toNeutral).mp hcurrent)
        (hready.imp_left fun hle => ?_)
      · exact hpending.imp_left fun hpos => by
          rwa [congrArg SendQueue.sendsem hsends.queue, hsem]
      · by_cases hc : r.head.lpCurconn = reply.head.lpCurconn
        · rw [hc, hsends.self] at hle
          rw [hc]
          exact hcount hle
        · rwa [hsends.other _ hc] at hle
    · exact .inr (by simpa [SenderPc.reaches] using hlt)
  cases h with
  | discarded outdated sends => exact herased sends rfl rfl id
  | skipped current busy same =>
      subst same
      intro j r hj hcurrent hready
      rcases Nat.lt_trichotomy j i with hlt | rfl | hlt
      · exact .inl (hbefore j r hlt hj hcurrent hready)
      · obtain rfl := Option.some.inj (hreply.symm.trans hj)
        refine .inl (skips (hready.resolve_left ?_) current busy)
        exact Int.not_le.mpr busy
      · refine .inr ?_
        simpa [SendNext.pc, SenderPc.reaches] using Nat.succ_le_of_lt hlt
  | failed current idle fails sends => exact herased sends rfl rfl fun _ => idle
  | part current idle lt puts sends => exact herased sends rfl rfl fun _ => idle
  | mismatch current idle puts differs sends => exact fun _ _ _ _ _ => .inr rfl
  | finished current idle puts equal sends => exact herased sends rfl rfl fun _ => idle

/-- The statements of the send thread outside the handling of an element. -/
theorem sender_watched (inv : k.Inv) (watched : k.Watched) {env : Env} {s : State} {pc : SenderPc}
    (careful : Careful k (.other (.send env)))
    (h : k.base.server.senderStep env k.base.sender = some (s, pc)) :
    (⟨{ k.base with server := s, sender := pc }, k.loop⟩ : Config n).Watched := by
  cases hpc : k.base.sender with
  | looping =>
      rw [hpc] at h
      obtain ⟨rfl, rfl⟩ := Prod.mk.inj (Option.some.inj h)
      intro j reply hj hcurrent hready
      refine .inl ((watched j reply hj hcurrent hready).resolve_right ?_)
      rw [hpc]
      exact nofun
  | waiting =>
      rw [hpc] at h
      simp only [senderStep] at h
      split at h
      · cases h
      · obtain ⟨rfl, rfl⟩ := Prod.mk.inj (Option.some.inj h)
        exact fun _ _ _ _ _ => .inr rfl
  | woken =>
      rw [hpc] at h
      simp only [senderStep] at h
      split at h
      · obtain ⟨rfl, rfl⟩ := Prod.mk.inj (Option.some.inj h)
        exact fun _ _ _ _ _ => .inr rfl
      · obtain ⟨rfl, rfl⟩ := Prod.mk.inj (Option.some.inj h)
        split
        · exact fun _ _ _ _ _ => .inr rfl
        next hcount =>
          intro j reply hj _ _
          have hpending : k.Pending := pending_of_uncounted inv hj hcount
          exact .inl hpending
  | locking =>
      rw [hpc] at h
      simp only [senderStep] at h
      split at h
      · obtain ⟨rfl, rfl⟩ := Prod.mk.inj (Option.some.inj h)
        exact fun j _ _ _ _ => .inr (by simp [SenderPc.reaches])
      · cases h
  | scanning i =>
      rcases senderStep_cases inv.base.server h with
        ⟨i', reply, next, hpc', hreply, hentry, rfl⟩ | ⟨-, hnone, -⟩
      · obtain rfl := SenderPc.scanning.inj (hpc.symm.trans hpc')
        simp only [Careful, hpc, hreply] at careful
        exact scan_watched watched hpc hreply careful hentry
      · have hend := List.getElem?_eq_none_iff.mp (hnone i hpc)
        rw [hpc] at h
        simp only [senderStep, if_neg (Nat.not_lt.mpr hend)] at h
        obtain ⟨rfl, rfl⟩ := Prod.mk.inj (Option.some.inj h)
        intro j reply hj hcurrent hready
        refine .inl ((watched j reply hj hcurrent hready).resolve_right fun hreaches => ?_)
        have hlt := (List.getElem?_eq_some_iff.mp hj).1
        rw [hpc] at hreaches
        simp only [SenderPc.reaches, decide_eq_true_eq] at hreaches
        simp only [unlockSend_toSendQueue] at hlt
        omega
  | stopped | returned =>
      rw [hpc] at h
      cases h

theorem does_aged {b b' : Sending.Config n} {action : Sending.Action n} (inv : b.Inv)
    (h : Sending.Does b action b') : Aged b.server b'.server := by
  cases h with
  | loop moves => exact (Moves.evolves moves inv.server).aged
  | take idle handles makes => simpa using handles.neutral.aged
  | call idle handles => simpa using handles.neutral.aged
  | advance advances =>
      rcases msgSendStep_advances (inv.hands _) advances with ⟨reply, -, -, -, hadded⟩ | ⟨-, hadded⟩
      · exact hadded.steady.aged
      · exact hadded.steady.aged
  | send sends =>
      rcases senderStep_cases inv.server sends with ⟨i, reply, next, -, -, hentry, -⟩ | ⟨-, -, _, _, rfl⟩
      · exact hentry.steady.aged
      · exact fun c => ⟨Nat.le_refl _, fun _ => .inl ⟨rfl, rfl⟩⟩
  | interrupt waiting => exact .refl _

/-- The invariant under a step of the server that makes nothing sendable. -/
theorem Config.Inv.rests (inv : k.Inv) {s : State} (safe : s.Safe)
    (aged : Aged k.base.server s) (list : s.sendMsgList = k.base.server.sendMsgList)
    (total : s.msgtosendCount = k.base.server.msgtosendCount) {loop : LoopPc}
    (used : ∀ c, loop = .posting c ∨ loop = .resetting c → s.Used c) : (k.serve s loop).Inv where
  base := inv.base.of_aged aged safe.inv safe.cleared fun w _ hr => .inl ⟨w, hr⟩
  counted := by
    have hcounted := inv.counted
    rw [Sending.Config.surplus] at hcounted ⊢
    simp only [Config.serve, list, total]
    exact hcounted
  used := used

/-- The conditions on `beginEvent`, in the form of its specification. -/
theorem Careful.unmarked {env : Env} (careful : Careful k (.beginEvent env)) :
    ∀ c events rest t, k.base.server.events = (c, events) :: rest →
      ({ k.base.server with events := rest } : State).handleIn c events env = some t →
      t.Unmarked c events := by
  intro c events rest t hevents hin
  have hcareful := careful.2
  rw [hevents] at hcareful
  simp only [hin] at hcareful
  exact hcareful

theorem step_inv (inv : k.Inv) (careful : Careful k action) (h : step k action = some k') :
    k'.Inv := by
  cases action with
  | other action =>
      simp only [step] at h
      split at h
      · obtain ⟨base, hbase, rfl⟩ := Option.map_eq_some_iff.mp h
        have hdoes := Sending.step_does inv.base hbase
        refine ⟨hdoes.inv inv.base, ?_, fun c hc => ?_⟩
        · have hcounted := inv.counted
          have hsurplus := hdoes.surplus inv.base
          simp only
          split at hsurplus <;> omega
        · exact Nat.lt_of_lt_of_le (inv.used c hc) (does_aged inv.base hdoes c).1
      · cases h
  | beginEvent env =>
      simp only [step] at h
      split at h
      · obtain ⟨⟨s, loop⟩, hbegin, rfl⟩ := Option.map_eq_some_iff.mp h
        obtain ⟨hrests, hloop⟩ := beginEvent_rests inv.safe careful.1 careful.unmarked hbegin
        refine inv.rests hrests.safe hrests.aged hrests.calm.list hrests.calm.total fun c hc => ?_
        rcases hloop with rfl | ⟨d, rfl, hused⟩
        · rcases hc with hc | hc <;> cases hc
        · rcases hc with hc | hc
          · obtain rfl := LoopPc.posting.inj hc
            exact hused
          · cases hc
      · cases h
  | post =>
      simp only [step] at h
      split at h
      next c hloop =>
        obtain rfl := Option.some.inj h
        refine inv.rests ⟨steady_semPost.inv inv.base.server, inv.base.cleared⟩ steady_semPost.aged
          rfl rfl fun d hd => ?_
        rcases hd with hd | hd
        · cases hd
        · obtain rfl := LoopPc.resetting.inj hd
          exact inv.used c (.inl hloop)
      · cases h
  | reset =>
      simp only [step] at h
      split at h
      next c hloop =>
        obtain rfl := Option.some.inj h
        have hsends := sends_resetSend (s := k.base.server) (c := c)
        refine inv.rests ⟨hsends.steady.inv inv.base.server, inv.base.cleared.sends hsends nofun⟩
          hsends.steady.aged rfl rfl fun d hd => ?_
        rcases hd with hd | hd <;> cases hd
      · cases h

theorem step_watched (inv : k.Inv) (watched : k.Watched) (careful : Careful k action)
    (h : step k action = some k') : k'.Watched := by
  cases action with
  | other action =>
      simp only [step] at h
      split at h
      next hpermitted =>
        obtain ⟨base, hbase, rfl⟩ := Option.map_eq_some_iff.mp h
        cases Sending.step_does inv.base hbase with
        | loop moves =>
            obtain ⟨s, hs, heq⟩ := Option.map_eq_some_iff.mp hbase
            obtain rfl := congrArg Sending.Config.server heq
            exact loop_watched inv watched hpermitted careful hs
        | take idle handles makes => exact handled_watched watched idle handles
        | call idle handles => exact handled_watched watched idle handles
        | advance advances => exact advance_watched watched advances
        | send sends => exact sender_watched inv watched careful sends
        | interrupt waiting => exact fun _ _ _ _ _ => .inr rfl
      · cases h
  | beginEvent env =>
      simp only [step] at h
      split at h
      next hloop =>
        obtain ⟨⟨s, loop⟩, hbegin, rfl⟩ := Option.map_eq_some_iff.mp h
        obtain ⟨hrests, hends⟩ := beginEvent_rests inv.safe careful.1 careful.unmarked hbegin
        refine watched.calm hrests.calm rfl (fun hp => ?_) fun c hc => ?_
        · refine hp.imp (fun hsem => hrests.calm.sendsem ▸ hsem) (Or.imp_right fun hposts => ?_)
          rw [hloop] at hposts
          cases hposts
        · rcases hends with rfl | ⟨d, rfl, -⟩ <;> cases hc
      · cases h
  | post =>
      simp only [step] at h
      split at h
      · obtain rfl := Option.some.inj h
        exact .of_pending (.inl (Nat.succ_pos _))
      · cases h
  | reset =>
      simp only [step] at h
      split at h
      next c hloop =>
        obtain rfl := Option.some.inj h
        have hsends := sends_resetSend (s := k.base.server) (c := c)
        intro j reply hj hcurrent hready
        have hold := (current_iff hsends.steady.toNeutral).mp hcurrent
        have hle := hready.resolve_right nofun
        have hawake : k.Awake j := by
          refine watched j reply hj hold ?_
          by_cases hc : reply.head.lpCurconn = c
          · exact .inr (hc ▸ hloop)
          · refine .inl ?_
            rwa [← hsends.other _ hc]
        refine hawake.imp_left fun hp => hp.imp_right (Or.imp_right fun hposts => ?_)
        rw [hloop] at hposts
        cases hposts
      · cases h

/-- No reply is stranded, in every run whose steps are careful. -/
theorem send_thread_wakes (hstart : Starts boot k) {actions : List (Action n)}
    (careful : Along step Careful k actions) :
    Throughout step (fun k => ¬ k.Stranded) k actions := by
  have hfirst : k.Inv := by
    refine ⟨hstart.1.inv, Int.le_of_eq hstart.1.surplus.symm, fun c hc => ?_⟩
    rw [hstart.2] at hc
    rcases hc with hc | hc <;> cases hc
  have hwatched : k.Watched := by
    obtain ⟨⟨all, htaking⟩, -⟩ := hstart.1.1.spec
    intro j reply hj
    rw [congrArg SendQueue.sendMsgList htaking.sends] at hj
    cases hj
  have hinv : Throughout step (fun k => k.Inv ∧ k.Watched) k actions :=
    throughout_of_along
      (fun _ _ _ hk hc hs => ⟨step_inv hk.1 hc hs, step_watched hk.1 hk.2 hc hs⟩)
      ⟨hfirst, hwatched⟩ careful
  exact hinv.mono fun _ hk => hk.2.not_stranded

/-- Two requests of one client; the send thread sends a part of the first reply and skips
the second one, then the loop sends the rest of the first one and comes to its `sem_post`. -/
def secondReplyWaits : List (Action 1) :=
  let request : List (Action 1) :=
    [.other (.loop (.epollWait [(5, epollin)])), .beginEvent { recv := .data Sending.pingPacket },
      .other (.take Sending.onlyWorker 110)] ++
      List.replicate 6 (.other (.advance Sending.onlyWorker))
  [.other (.loop (.epollWait [(3, epollin)])),
      .beginEvent { accept := [.accepted 5], now := 100, later := 100 }] ++
    request ++ List.replicate 6 (.other (.send { send := [.sent 3] })) ++
    request ++ List.replicate 7 (.other (.send {})) ++
    [.other (.loop (.epollWait [(5, epollout)])), .beginEvent { send := [.sent 5] }]

/-- Start a worker process and run it. -/
def launch (boot : Boot) (ctl : List Bool) (actions : List (Action n)) : Option (Config n) :=
  (boot.state.epollEventInit ctl).bind fun s =>
    run step ⟨⟨s, fun _ => .idle, .looping⟩, .between⟩ actions

theorem starts_of_launch {ctl : List Bool} {actions : List (Action n)}
    (h : launch boot ctl actions = some k) :
    ∃ k₀ : Config n, Starts boot k₀ ∧ run step k₀ actions = some k := by
  obtain ⟨s, hstart, hr⟩ := Option.bind_eq_some_iff.mp h
  exact ⟨_, ⟨⟨⟨ctl, hstart⟩, rfl, rfl⟩, rfl⟩, hr⟩

/-- The loop resets the connection before the send thread runs again. -/
theorem send_thread_wakes_in_order : ∃ k k' : Config 1, Starts Boot.small k ∧
    run step k (secondReplyWaits ++ [.post, .reset] ++
      List.replicate 6 (.other (.send { send := [.sent 8] }))) = some k' ∧
    Throughout step (fun k => ¬ k.Stranded) k (secondReplyWaits ++ [.post, .reset] ++
      List.replicate 6 (.other (.send { send := [.sent 8] }))) := by
  have hrun : ((Boot.small.state.epollEventInit [true]).bind fun s =>
      (run step (⟨⟨s, fun _ => .idle, .looping⟩, .between⟩ : Config 1) (secondReplyWaits ++
          [.post, .reset] ++ List.replicate 6 (.other (.send { send := [.sent 8] })))).map fun _ =>
        decide (Along step Careful (⟨⟨s, fun _ => .idle, .looping⟩, .between⟩ : Config 1)
          (secondReplyWaits ++ [.post, .reset] ++
            List.replicate 6 (.other (.send { send := [.sent 8] }))))) = some true := by
    decide +kernel
  obtain ⟨s, hstart, hrun⟩ := Option.bind_eq_some_iff.mp hrun
  obtain ⟨k', hr, hdecide⟩ := Option.map_eq_some_iff.mp hrun
  have hstarts : Starts Boot.small (⟨⟨s, fun _ => .idle, .looping⟩, .between⟩ : Config 1) :=
    ⟨⟨⟨_, hstart⟩, rfl, rfl⟩, rfl⟩
  exact ⟨_, k', hstarts, hr, send_thread_wakes hstarts (of_decide_eq_true hdecide)⟩

instance : DecidablePred (Config.Stranded (n := n)) := fun _ => by
  unfold Config.Stranded
  infer_instance

/-- The send thread takes the post, skips the second reply once more and sleeps, before the
loop resets the connection. -/
theorem second_reply_stranded : ¬ ∀ (n : Nat) (boot : Boot) (k : Config n)
    (actions : List (Action n)), Starts boot k →
      Throughout step (fun k => ¬ k.Stranded) k actions := by
  intro hclaim
  have hrun : (launch Boot.small [true] (secondReplyWaits ++ [.post] ++
      List.replicate 6 (.other (.send {})) ++ [.reset])).map (fun k => decide k.Stranded) =
      some true := by decide +kernel
  obtain ⟨k', hlaunch, hstranded⟩ := Option.map_eq_some_iff.mp hrun
  obtain ⟨k, hstarts, hr⟩ := starts_of_launch hlaunch
  exact (hclaim 1 _ k _ hstarts).last hr (of_decide_eq_true hstranded)

end Waking

end MyNginx
