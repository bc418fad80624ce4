import MyNginx.Sending.Mutex

/-!
# The expected length of a reply

`sendlen_suppose` is one field per connection: a worker sets it when it makes a reply,
and the send thread and the `EPOLLOUT` handler compare with it when a reply has been
written completely. As long as no reply is made while one of another length is still to
be sent on its connection, the field is the length of each of them, and no comparison
fails.

Which replies are still to be sent is a parameter of the lemmas, `due`: a reply that is
not due any more never becomes due again.
-/

namespace MyNginx

open Foundation

/-- The reply `p` is in progress: `p_sendbuf` and `sendlen` are its part not written
yet, and its length is the expected one. -/
structure Outgoing.Sending (o : Outgoing) (p : SendBuf) : Prop where
  suppose : o.sendlenSuppose = pkgLen p.reply.buf
  position : p.off = msgHeaderLen + o.sendlenAlready
  rest : o.sendlenAlready + o.sendlen = pkgLen p.reply.buf
  unfinished : 0 < o.sendlen

theorem Outgoing.Sending.progress {o : Outgoing} {p : SendBuf} (h : o.Sending p) {n : Nat}
    (lt : n < o.sendlen) : (o.progress n).Sending (p.add n) where
  suppose := h.suppose
  position := by
    have hposition := h.position
    simp only [SendBuf.add, Outgoing.progress]
    omega
  rest := by
    have hrest := h.rest
    simp only [SendBuf.add, Outgoing.progress]
    omega
  unfinished := Nat.sub_pos_of_lt lt

theorem Outgoing.sending_begun {o : Outgoing} {reply : Reply}
    (suppose : o.sendlenSuppose = pkgLen reply.buf) :
    (o.begun reply).Sending ⟨reply, msgHeaderLen⟩ where
  suppose := suppose
  position := rfl
  rest := Nat.zero_add _
  unfinished := Nat.lt_of_lt_of_le (by decide) reply.header_le

/-- Only the counter of queued replies and the header of the next one may differ. -/
theorem Outgoing.Sending.congr {o o' : Outgoing} {p : SendBuf} (h : o.Sending p)
    (suppose : o'.sendlenSuppose = o.sendlenSuppose)
    (already : o'.sendlenAlready = o.sendlenAlready) (sendlen : o'.sendlen = o.sendlen) :
    o'.Sending p where
  suppose := suppose.trans h.suppose
  position := by rw [already, h.position]
  rest := by rw [already, sendlen, h.rest]
  unfinished := sendlen ▸ h.unfinished

namespace State

variable {s s' : State} {c : ConnId} {env : Env} {due : State → Reply → Prop}

/-- Every reply in progress has the expected length. -/
def Measured (s : State) : Prop :=
  ∀ c, s.Used c → ∀ p, (s.conn c).pSendbuf = some p → (s.conn c).Sending p

theorem Measured.keeps (h : s.Measured) (hk : Keeps s s') : s'.Measured := by
  intro c used p hp
  cases hk.line c used with
  | same use live outgoing =>
      rw [outgoing]
      rw [outgoing] at hp
      rw [Used, use] at used
      exact h c used p hp
  | gone use dead sendbuf =>
      obtain ⟨hold, hlen, halready⟩ := sendbuf p hp
      rw [Used, use] at used
      exact (h c used p hold).congr (hk.suppose c) halready hlen
  | fresh use sendbuf idle =>
      rw [sendbuf] at hp
      cases hp

theorem Measured.sends (h : s.Measured) {out : Outgoing} {queue : SendQueue}
    {written : List Written} (hs : Sends s c out queue written s')
    (hout : ∀ p, out.pSendbuf = some p → out.Sending p) : s'.Measured := by
  intro d used p hp
  by_cases hd : d = c
  · subst hd
    rw [hs.self]
    rw [hs.self] at hp
    exact hout p hp
  · rw [hs.other d hd]
    rw [hs.other d hd] at hp
    exact h d (hs.steady.used_iff.mp used) p hp

/-- What is accepted of a reply in progress is all of it, or leaves a rest. -/
theorem Puts.le_or {p : SendBuf} {len n : Nat} {written : List Written}
    (h : s.Puts c env (some p) len n written) (pos : 0 < len) (le : len ≤ n) :
    n = len ∧ written = [⟨c, s.history.use c, (s.conn c).fd, p.reply, p.bytes n⟩] := by
  rcases h with ⟨-, rfl, -⟩ | ⟨q, -, hq, hcan, hwritten⟩
  · omega
  · obtain rfl := Option.some.inj hq
    exact ⟨Nat.le_antisymm hcan.2.1 le, hwritten⟩

/-- The comparison of the `EPOLLOUT` handler succeeds. -/
theorem Measured.writes (h : s.Measured) (used : s.Used c) (hs : Writes s c env s') :
    s'.Measured := by
  cases hs with
  | failed fails sends => exact h.sends sends nofun
  | part lt puts sends =>
      refine h.sends sends fun p hp => ?_
      obtain ⟨q, hq, rfl⟩ := Option.map_eq_some_iff.mp hp
      exact (h c used q hq).progress lt
  | mismatch le puts differs sends =>
      refine h.sends sends fun p hp => ?_
      have hsending := h c used p hp
      rw [show (s.conn c).pSendbuf = some p from hp] at puts
      obtain ⟨rfl, -⟩ := puts.le_or hsending.unfinished le
      exact absurd (hsending.rest.trans hsending.suppose.symm) differs
  | finished le puts equal sends => exact h.sends sends nofun

theorem moves_suppose {env : Env} (h : Moves env s s') (inv : s.Inv) (cleared : s.Cleared) :
    ∀ c, (s'.conn c).sendlenSuppose = (s.conn c).sendlenSuppose := by
  induction h with
  | refl => exact fun _ => rfl
  | @tail t u hs hmove ih =>
      intro c
      rw [← ih c]
      rcases hmove.keeps (Moves.evolves hs inv).inv (Moves.cleared hs inv cleared) with
        hkeeps | ⟨d, -, hwrites⟩
      · exact hkeeps.suppose c
      · exact hwrites.suppose c

theorem moves_measured {env : Env} (h : Moves env s s') (inv : s.Inv) (cleared : s.Cleared)
    (measured : s.Measured) : s'.Measured := by
  induction h with
  | refl => exact measured
  | tail hs hmove ih =>
      rcases hmove.keeps (Moves.evolves hs inv).inv (Moves.cleared hs inv cleared) with
        hkeeps | ⟨c, used, hwrites⟩
      · exact ih.keeps hkeeps
      · exact ih.writes used hwrites

/-- A reply that the send thread takes has the expected length, and stays in progress
until all of it is written. -/
theorem Measured.entry (h : s.Measured) {i : Nat} {reply : Reply} {next : SendNext}
    (hs : Entry s i reply reply.head.lpCurconn env s' next)
    (suppose : (s.conn reply.head.lpCurconn).judgeOutdate reply.head.msgCursequence = true →
      (s.conn reply.head.lpCurconn).iThrowsendCount ≤ 0 →
        (s.conn reply.head.lpCurconn).sendlenSuppose = pkgLen reply.buf) :
    s'.Measured ∧ next ≠ .returned := by
  cases hs with
  | discarded outdated sends => exact ⟨h.sends sends nofun, nofun⟩
  | skipped current busy same => exact ⟨same ▸ h, nofun⟩
  | failed current idle fails sends => exact ⟨h.sends sends nofun, nofun⟩
  | part current idle lt puts sends =>
      refine ⟨h.sends sends fun p hp => ?_, nofun⟩
      obtain rfl := Option.some.inj hp
      exact ((Outgoing.sending_begun (suppose current idle)).progress lt).congr rfl rfl rfl
  | mismatch current idle puts differs sends => exact absurd (suppose current idle).symm differs
  | finished current idle puts equal sends => exact ⟨h.sends sends nofun, nofun⟩

/-- A class of replies into which none comes by the passing of time. -/
def Fading (due : State → Reply → Prop) : Prop :=
  ∀ {s s' : State} {r : Reply}, Aged s s' → s.Stamped r.head r.origin → due s' r → due s r

/-- If the reply is due, its length is the expected one. -/
def Expected (due : State → Reply → Prop) (s : State) (r : Reply) : Prop :=
  due s r → (s.conn r.head.lpCurconn).sendlenSuppose = pkgLen r.buf

theorem Expected.aged {r : Reply} (fading : Fading due) (h : Expected due s r)
    (aged : Aged s s') (stamped : s.Stamped r.head r.origin)
    (suppose : (s'.conn r.head.lpCurconn).sendlenSuppose =
      (s.conn r.head.lpCurconn).sendlenSuppose) : Expected due s' r := fun hdue =>
  suppose.trans (h (fading aged stamped hdue))

/-- A due reply of the same connection has the length of `reply`. -/
def Agrees (due : State → Reply → Prop) (s : State) (reply r : Reply) : Prop :=
  due s r → r.head.lpCurconn = reply.head.lpCurconn → pkgLen r.buf = pkgLen reply.buf

instance [DecidableRel due] : DecidableRel (Agrees due s) := fun _ _ =>
  inferInstanceAs (Decidable (_ → _ → _))

end State

namespace Sending

open State

variable {n : Nat} {boot : Boot} {k k' : Config n} {action : Action n}
  {due : State → Reply → Prop}

/-- All replies still to be sent on the connection of `reply` have its length. -/
def Config.Fits (due : State → Reply → Prop) (k : Config n) (reply : Reply) : Prop :=
  (∀ r ∈ k.server.sendMsgList, Agrees due k.server reply r) ∧
    (∀ w, ∀ r ∈ (k.workers w).pending, Agrees due k.server reply r) ∧
    ∀ p ∈ (k.server.conn reply.head.lpCurconn).pSendbuf,
      pkgLen p.reply.buf = pkgLen reply.buf

instance [DecidableRel due] : DecidablePred (k.Fits due) := fun _ =>
  inferInstanceAs (Decidable (_ ∧ _ ∧ _))

/-- No reply is made while one of another length is to be sent on its connection. -/
def Uniform (due : State → Reply → Prop) (k : Config n) : Action n → Prop
  | .take _ now =>
      match k.server.takeMessage now with
      | some (_, some reply) => k.Fits due reply
      | _ => True
  | .call _ reply => k.Fits due reply
  | _ => True

instance [DecidableRel due] : DecidableRel (Uniform (n := n) due) := fun k action => by
  unfold Uniform
  rcases action with _ | _
  case take w now =>
    dsimp only
    rcases k.server.takeMessage now with _ | ⟨_, _ | _⟩ <;> infer_instance
  all_goals infer_instance

/-- The replies in hand, in the list and in progress have the expected lengths. -/
structure Config.Sized (due : State → Reply → Prop) (k : Config n) : Prop where
  running : k.sender ≠ .returned
  measured : k.server.Measured
  list : ∀ r ∈ k.server.sendMsgList, Expected due k.server r
  hands : ∀ w r, (k.workers w).pending = some r → Expected due k.server r

/-- A reply that the send thread takes is due. -/
def Takes (due : State → Reply → Prop) (k : Config n) : Action n → Prop
  | .send _ => ∀ i reply, k.sender = .scanning i → k.server.sendMsgList[i]? = some reply →
      (k.server.conn reply.head.lpCurconn).judgeOutdate reply.head.msgCursequence = true →
      (k.server.conn reply.head.lpCurconn).iThrowsendCount ≤ 0 → due k.server reply
  | _ => True

theorem Config.Sized.handled (fading : Fading due) (inv : k.Inv) (sized : k.Sized due)
    {w : Fin n} {s' : State} {r : Option Reply} (handles : Handles k.server r s')
    (fits : ∀ reply, r = some reply → k.Fits due reply) : (k.handled w (s', r)).Sized due := by
  have hexpected : ∀ reply : Reply, k.server.Stamped reply.head reply.origin →
      (∀ made, r = some made → Agrees due k.server made reply) →
      Expected due k.server reply → Expected due s' reply := by
    intro reply hstamped hagrees hold hdue
    have hdue := fading handles.neutral.aged hstamped hdue
    by_cases hmade : ∃ made, r = some made ∧ reply.head.lpCurconn = made.head.lpCurconn
    · obtain ⟨made, hr, hconn⟩ := hmade
      rw [hconn, handles.self made hr, hagrees made hr hdue hconn]
    · rw [handles.other _ fun made hr hconn => hmade ⟨made, hr, hconn⟩]
      exact hold hdue
  refine ⟨?_, ?_, ?_, ?_⟩
  · simpa using sized.running
  · rw [handled_server]
    intro c used p hp
    have hold := (handles.pSendbuf c).symm.trans hp
    have hsending := sized.measured c (handles.neutral.used_iff.mp used) p hold
    have hsame := handles.outgoing c
    refine ⟨?_, ?_, ?_, ?_⟩
    · by_cases hmade : ∃ made, r = some made ∧ c = made.head.lpCurconn
      · obtain ⟨made, hr, rfl⟩ := hmade
        exact (handles.self made hr).trans ((fits made hr).2.2 p hold).symm
      · exact (handles.other c fun made hr hconn => hmade ⟨made, hr, hconn⟩).trans hsending.suppose
    · exact hsending.position.trans
        (congrArg (msgHeaderLen + ·) (congrArg Outgoing.sendlenAlready hsame).symm)
    · rw [hsame]
      exact hsending.rest
    · rw [hsame]
      exact hsending.unfinished
  · rw [handled_server, handles.queue]
    intro reply hr
    exact hexpected reply (inv.server.flight.replies reply hr)
      (fun made hmade => (fits made hmade).1 reply hr) (sized.list reply hr)
  · rw [handled_server]
    intro v reply hr
    rcases pending_handled hr with hold | hnew
    · exact hexpected reply (inv.hands v reply hold)
        (fun made hmade => (fits made hmade).2.1 v reply hold) (sized.hands v reply hold)
    · exact fun _ => handles.self reply hnew

/-- A step that keeps the expected lengths of all connections. -/
theorem Config.Sized.of_aged (fading : Fading due) (inv : k.Inv) (sized : k.Sized due)
    (aged : Aged k.server k'.server)
    (suppose : ∀ c, (k'.server.conn c).sendlenSuppose = (k.server.conn c).sendlenSuppose)
    (running : k'.sender ≠ .returned) (measured : k'.server.Measured)
    (replies : ∀ r, (r ∈ k'.server.sendMsgList ∨ ∃ w, (k'.workers w).pending = some r) →
      r ∈ k.server.sendMsgList ∨ ∃ w, (k.workers w).pending = some r) : k'.Sized due := by
  have hexpected : ∀ r, (r ∈ k'.server.sendMsgList ∨ ∃ w, (k'.workers w).pending = some r) →
      Expected due k'.server r := by
    intro r hr
    rcases replies r hr with hlist | ⟨w, hw⟩
    · exact (sized.list r hlist).aged fading aged (inv.server.flight.replies r hlist) (suppose _)
    · exact (sized.hands w r hw).aged fading aged (inv.hands w r hw) (suppose _)
  exact ⟨running, measured, fun r hr => hexpected r (.inl hr),
    fun w r hr => hexpected r (.inr ⟨w, hr⟩)⟩

theorem advance_sized (fading : Fading due) (inv : k.Inv) (sized : k.Sized due) {w : Fin n}
    {s' : State} {pc : WorkerPc} {added : List Reply} (advances : Advances k.server added s')
    (added_pending : ∀ r ∈ added, (k.workers w).pending = some r)
    (hpc : ∀ r, pc.pending = some r → (k.workers w).pending = some r) :
    Config.Sized due { k with server := s', workers := Function.update k.workers w pc } := by
  have hsuppose : ∀ c, (s'.conn c).sendlenSuppose = (k.server.conn c).sendlenSuppose := fun c =>
    (congrArg Outgoing.sendlenSuppose (advances.outgoing c)).trans rfl
  refine sized.of_aged fading inv advances.steady.aged hsuppose sized.running ?_ ?_
  · intro c used p hp
    have hsame := advances.outgoing c
    have hold : (k.server.conn c).pSendbuf = some p :=
      (congrArg Outgoing.pSendbuf hsame).symm.trans hp
    have hsending := sized.measured c (advances.steady.used_iff.mp used) p hold
    rw [hsame]
    exact hsending.congr rfl rfl rfl
  · intro r hr
    rcases hr with hlist | ⟨v, hv⟩
    · rw [show s'.sendMsgList = k.server.sendMsgList ++ added from advances.list] at hlist
      exact (List.mem_append.mp hlist).imp id fun hr => ⟨w, added_pending r hr⟩
    · exact .inr ⟨v, pending_update (hpc r) hv⟩

theorem Does.sized (fading : Fading due) (h : Does k action k') (inv : k.Inv)
    (sized : k.Sized due) (uniform : Uniform due k action) (takes : Takes due k action) :
    k'.Sized due := by
  cases h with
  | loop moves =>
      have hevolves := Moves.evolves moves inv.server
      obtain ⟨sendsem, hqueue⟩ := moves_queue moves inv.server inv.cleared
      refine sized.of_aged fading inv hevolves.aged (moves_suppose moves inv.server inv.cleared)
        sized.running (moves_measured moves inv.server inv.cleared sized.measured) ?_
      rw [congrArg SendQueue.sendMsgList hqueue]
      exact fun _ => id
  | take idle handles makes =>
      refine sized.handled fading inv handles fun reply hr => ?_
      rw [hr] at makes
      simpa only [Uniform, makes] using uniform
  | call idle handles =>
      refine sized.handled fading inv handles fun reply hr => ?_
      obtain rfl := Option.some.inj hr
      exact uniform
  | advance advances =>
      rcases msgSendStep_advances (inv.hands _) advances with
        ⟨reply, hlocked, rfl, -, hadded⟩ | ⟨hpc, hadded⟩
      · refine advance_sized fading inv sized hadded (fun r hr => ?_) nofun
        obtain rfl := List.mem_singleton.mp hr
        rw [hlocked]
        rfl
      · refine advance_sized fading inv sized hadded nofun fun r hr => ?_
        rcases hpc with hsame | hnone
        · exact hsame ▸ hr
        · rw [hnone] at hr
          cases hr
  | send sends =>
      rcases senderStep_cases inv.server sends with
        ⟨i, reply, next, hpc, hreply, hentry, rfl⟩ | ⟨hgoes, -, sendmutex, sendsem, rfl⟩
      · have hlist := List.mem_of_getElem? hreply
        obtain ⟨hmeasured, hgoes⟩ := sized.measured.entry hentry fun hcurrent hidle =>
          sized.list reply hlist (takes i reply hpc hreply hcurrent hidle)
        refine sized.of_aged fading inv hentry.steady.aged hentry.suppose ?_ hmeasured ?_
        · cases next with
          | erased | skipped => exact nofun
          | returned => exact absurd rfl hgoes
        · rintro r (hr | hr)
          · exact .inl (hentry.mem_sendMsgList hr)
          · exact .inr hr
      · exact sized.of_aged fading inv (.refl _) (fun _ => rfl) hgoes sized.measured fun _ => id
  | interrupt waiting =>
      exact sized.of_aged fading inv (.refl _) (fun _ => rfl) nofun sized.measured fun _ => id

theorem Starts.sized (h : Starts boot k) : k.Sized due := by
  obtain ⟨⟨all, htaking⟩, -⟩ := h.1.spec
  have hlist : k.server.sendMsgList = [] := congrArg SendQueue.sendMsgList htaking.sends
  refine ⟨?_, fun c used => ?_, ?_, fun w r hr => ?_⟩
  · simp [h.2.2]
  · simp [Used, htaking.history, Boot.state] at used
  · simp [hlist]
  · rw [h.2.1] at hr
    cases hr

/-- `JudgeOutdate` may still find the reply current. -/
def Sendable (s : State) (r : Reply) : Prop :=
  (s.conn r.head.lpCurconn).sequence ≤ throughInt r.head.msgCursequence

instance : DecidableRel Sendable := fun _ _ => inferInstanceAs (Decidable (_ ≤ _))

/-- A sequence only grows. -/
theorem fading_sendable : Fading Sendable := fun aged stamped hle =>
  Nat.le_trans (aged.sequence_le stamped.1) hle

theorem takes_sendable (k : Config n) (action : Action n) : Takes Sendable k action := by
  cases action with
  | send env => exact fun i reply _ _ hcurrent _ =>
      Nat.le_of_eq (Connection.judgeOutdate_iff.mp hcurrent).2.2
  | loop | take | call | advance | interrupt => trivial

/-- The send thread has not met a wrong length, and no reply in progress is complete:
its expected length is its own, and some of it is still to be written. -/
def Config.Accounted (k : Config n) : Prop :=
  k.sender ≠ .returned ∧ ∀ c, k.server.Used c → ∀ p, (k.server.conn c).pSendbuf = some p →
    (k.server.conn c).sendlenSuppose = pkgLen p.reply.buf ∧
      (k.server.conn c).sendlenAlready < pkgLen p.reply.buf

/-- If no reply is made while one of another length is to be sent on its connection,
every comparison of `sendlen_already` with `sendlen_suppose` succeeds. -/
theorem accounted_of_uniform (hstart : Starts boot k) {actions : List (Action n)}
    (uniform : Along step (Uniform Sendable) k actions) :
    Throughout step Config.Accounted k actions := by
  have hthroughout : Throughout step (fun k => k.Inv ∧ k.Sized Sendable) k actions := by
    refine throughout_of_along ?_ ⟨hstart.inv, hstart.sized⟩ uniform
    intro k action k' ⟨inv, sized⟩ huniform hs
    exact ⟨step_inv inv hs, (step_does inv hs).sized fading_sendable inv sized huniform
      (takes_sendable k action)⟩
  refine hthroughout.mono fun k ⟨_, sized⟩ => ⟨sized.running, fun c used p hp => ?_⟩
  have hsending := sized.measured c used p hp
  have hrest := hsending.rest
  have hunfinished := hsending.unfinished
  exact ⟨hsending.suppose, by omega⟩

/-- Two heartbeat replies on one connection, the first one sent in two pieces. -/
def twoPings : List (Action 1) :=
  acceptOn 5 100 ++ requestOn onlyWorker pingPacket ++ enqueueBy onlyWorker ++
    List.replicate 5 (.send { send := [.sent 3] }) ++ requestOn onlyWorker pingPacket ++
    eventOn 5 epollout { send := [.sent 5] } ++ enqueueBy onlyWorker

theorem accounted_of_uniform_two_pings : ∃ k : Config 1, Starts Boot.small k ∧
    Throughout step Config.Accounted k twoPings := by
  have hrun : (Boot.small.state.epollEventInit [true]).map (fun s => decide
      (Along step (Uniform Sendable) ⟨s, fun _ => .idle, .looping⟩ twoPings)) = some true := by
    decide +kernel
  obtain ⟨s, hstart, huniform⟩ := Option.map_eq_some_iff.mp hrun
  have hstarts : Starts Boot.small (⟨s, fun _ => .idle, .looping⟩ : Config 1) :=
    ⟨⟨_, hstart⟩, rfl, rfl⟩
  exact ⟨_, hstarts, accounted_of_uniform hstarts (of_decide_eq_true huniform)⟩

/-- The header of a registration request whose body is 100 zero bytes. -/
def registerHeader : List UInt8 :=
  encodeHeader 108 cmdRegister (Crc32.getCrc (List.replicate lenStructRegister 0)).toNat

set_option maxRecDepth 4000 in
/-- A heartbeat and a registration request are handled before the send thread runs: it
sends the first reply, compares its length with that of the second one, and ends. -/
theorem length_mixed_up : ¬ ∀ (n : Nat) (boot : Boot) (k k' : Config n) (actions : List (Action n)),
    Starts boot k → run step k actions = some k' → k'.Accounted := by
  intro hclaim
  have hrun : (launch (n := 1) Boot.small [true] (acceptOn 5 100 ++
      requestOn 0 pingPacket ++ enqueueBy 0 ++
      eventOn 5 epollin { recv := .data registerHeader } ++
      requestOn 0 (List.replicate lenStructRegister 0) ++ enqueueBy 0 ++
      List.replicate 5 (.send { send := [.sent 8] }))).map (fun k => k.sender) =
      some .returned := by decide +kernel
  obtain ⟨k', hlaunch, heq⟩ := Option.map_eq_some_iff.mp hrun
  obtain ⟨k, hstarts, hr⟩ := starts_of_launch hlaunch
  exact (hclaim 1 _ k k' _ hstarts hr).1 heq

end Sending

end MyNginx
