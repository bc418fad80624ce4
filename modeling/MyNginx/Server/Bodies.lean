import MyNginx.Receive.Bodies
import MyNginx.Server.Headers

/-!
# Message blocks over whole runs

Every block that some `p_msgrecv` owns is live, and no two objects own the same one. So
what a step does for one connection spares the message that another one is receiving.
-/

namespace MyNginx

open Foundation

namespace State

variable {s s' t : State} {c d : ConnId} {b : Nat} {env : Env}

/-- The message blocks of all objects. -/
structure Bodies (s : State) : Prop where
  live : ∀ c ∈ s.connectionList, ∀ b, (s.conn c).pMsgrecv = some b →
    b < s.messages.next ∧ s.messages.get b ≠ none
  apart : ∀ c ∈ s.connectionList, ∀ d ∈ s.connectionList, ∀ b,
    (s.conn c).pMsgrecv = some b → (s.conn d).pMsgrecv = some b → c = d
  buffer : ∀ c, s.Used c → ∀ p, (s.conn c).pRecvbuf = .message p →
    (s.conn c).pMsgrecv = some p.block ∨ s.Gone p.block
  fresh : ∀ b, s.messages.next ≤ b → s.messages.get b = none

/-- The message that `d` is receiving stays as it is, and no block comes back. -/
structure Spares (s s' : State) (d : ConnId) : Prop where
  message : ∀ b, (s.conn d).pMsgrecv = some b → s'.messages.get b = s.messages.get b
  gone : ∀ b, s.Gone b → s'.Gone b

theorem Spares.of_messages (messages : s'.messages = s.messages) : Spares s s' d :=
  ⟨fun _ _ => by rw [messages], fun b hgone => by rwa [Gone, messages]⟩

theorem Spares.trans (h : Spares s t d) (h' : Spares t s' d)
    (owner : (t.conn d).pMsgrecv = (s.conn d).pMsgrecv) : Spares s s' d :=
  ⟨fun b hb => (h'.message b (owner.trans hb)).trans (h.message b hb),
    fun b hgone => h'.gone b (h.gone b hgone)⟩

theorem Bodies.minds (bodies : s.Bodies) (inv : s.Inv) (used : s.Used c) : s.Minds c :=
  ⟨bodies.live c (inv.wired.used c used).1, bodies.buffer c used, bodies.fresh⟩

/-- Nothing that concerns the message blocks happens. -/
theorem Bodies.congr (bodies : s.Bodies) (messages : s'.messages = s.messages)
    (objects : s'.connectionList = s.connectionList) (use : s'.history.use = s.history.use)
    (incoming : ∀ d, (s'.conn d).toIncoming = (s.conn d).toIncoming) : s'.Bodies := by
  have howner : ∀ d, (s'.conn d).pMsgrecv = (s.conn d).pMsgrecv := fun d =>
    congrArg Incoming.pMsgrecv (incoming d)
  have hbuf : ∀ d, (s'.conn d).pRecvbuf = (s.conn d).pRecvbuf := fun d =>
    congrArg Incoming.pRecvbuf (incoming d)
  constructor
  · intro c hc b hb
    rw [objects] at hc
    rw [messages]
    exact bodies.live c hc b (howner c ▸ hb)
  · intro c hc d hd b hb hb'
    rw [objects] at hc hd
    exact bodies.apart c hc d hd b (howner c ▸ hb) (howner d ▸ hb')
  · intro c used p hp
    rw [Used, use] at used
    rw [Gone, messages, howner]
    exact bodies.buffer c used p (hbuf c ▸ hp)
  · rw [messages]
    exact bodies.fresh

/-- A step on behalf of the object `c`, which may be new, works on its own block and on new
ones. -/
theorem Bodies.act (bodies : s.Bodies)
    (objects : ∀ d, d ∈ s'.connectionList → d = c ∨ d ∈ s.connectionList)
    (other : ∀ d, d ≠ c → s'.conn d = s.conn d)
    (use : ∀ d, d ≠ c → s'.history.use d = s.history.use d)
    (grows : s.messages.next ≤ s'.messages.next)
    (others : ∀ b, b < s.messages.next →
      (∀ c' ∈ s.connectionList, c' = c → (s.conn c').pMsgrecv ≠ some b) →
      s'.messages.get b = s.messages.get b)
    (ptr : ∀ b, (s'.conn c).pMsgrecv = some b →
      c ∈ s.connectionList ∧ (s.conn c).pMsgrecv = some b ∨ s.messages.next ≤ b)
    (minds : s'.Minds c) :
    s'.Bodies ∧ ∀ d ∈ s.connectionList, d ≠ c → Spares s s' d := by
  have hgone : ∀ b, s.Gone b → s'.Gone b := by
    intro b hgone
    refine ⟨Nat.lt_of_lt_of_le hgone.1 grows, ?_⟩
    rw [others b hgone.1 fun c' hc' _ hb => (bodies.live c' hc' b hb).2 hgone.2]
    exact hgone.2
  have hspared : ∀ d ∈ s.connectionList, d ≠ c → ∀ b, (s.conn d).pMsgrecv = some b →
      s'.messages.get b = s.messages.get b := by
    intro d hd hdc b hb
    refine others b (bodies.live d hd b hb).1 fun c' hc' heq hb' => hdc ?_
    rw [← heq]
    exact bodies.apart d hd c' hc' b hb hb'
  have hold : ∀ d, d ≠ c → d ∈ s'.connectionList → d ∈ s.connectionList := fun d hd hmem =>
    (objects d hmem).resolve_left hd
  have hdiffer : ∀ d, d ≠ c → d ∈ s'.connectionList → ∀ b, (s.conn d).pMsgrecv = some b →
      (s'.conn c).pMsgrecv ≠ some b := by
    intro d hd hmem b hb hb'
    rcases ptr b hb' with ⟨hc, hsame⟩ | hnew
    · exact hd (bodies.apart d (hold d hd hmem) c hc b hb hsame)
    · exact absurd (bodies.live d (hold d hd hmem) b hb).1 (Nat.not_lt.mpr hnew)
  refine ⟨⟨fun d hd b hb => ?_, fun d hd e he b hb hb' => ?_, fun d used p hp => ?_, minds.fresh⟩,
    fun d hd hdc => ⟨hspared d hd hdc, hgone⟩⟩
  · by_cases hdc : d = c
    · subst hdc
      exact minds.live b hb
    · rw [other d hdc] at hb
      have hlive := bodies.live d (hold d hdc hd) b hb
      rw [hspared d (hold d hdc hd) hdc b hb]
      exact ⟨Nat.lt_of_lt_of_le hlive.1 grows, hlive.2⟩
  · by_cases hdc : d = c
    · by_cases hec : e = c
      · rw [hdc, hec]
      · rw [other e hec] at hb'
        exact absurd (hdc ▸ hb) (hdiffer e hec he b hb')
    · rw [other d hdc] at hb
      by_cases hec : e = c
      · exact absurd (hec ▸ hb') (hdiffer d hdc hd b hb)
      · rw [other e hec] at hb'
        exact bodies.apart d (hold d hdc hd) e (hold e hec he) b hb hb'
  · by_cases hdc : d = c
    · subst hdc
      exact minds.buffer p hp
    · rw [Used, use d hdc] at used
      rw [other d hdc] at hp ⊢
      exact (bodies.buffer d used p hp).imp_right (hgone p.block)

/-- A readable event. -/
theorem Bodies.readable (bodies : s.Bodies) (inv : s.Inv) (used : s.Used c)
    (h : s.eventReadableRequestHandler c env = some s') :
    s'.Bodies ∧ ∀ d ∈ s.connectionList, d ≠ c → Spares s s' d := by
  have hobject := (inv.wired.used c used).1
  have hidle := inv.idle_of_used used
  have hframe := readable_frame hidle h
  have htouches := readable_touches (bodies.minds inv used) hidle h
  refine bodies.act (fun d hd => .inr ?_) (fun d hd => ?_) (fun d _ => ?_) htouches.grows ?_ ?_
    htouches.minds
  · cases hframe with
    | stays hr =>
        obtain ⟨blocks, queue, incoming, rfl⟩ := hr
        exact hd
    | closes opened hr =>
        obtain ⟨blocks, queue, incoming, rfl⟩ := hr
        exact hd
  · cases hframe with
    | stays hr =>
        obtain ⟨blocks, queue, incoming, rfl⟩ := hr
        simp [hd]
    | closes opened hr =>
        obtain ⟨blocks, queue, incoming, rfl⟩ := hr
        simp [afterClose, hd]
  · rw [hframe.untouched.2]
  · exact fun b hlt hne => htouches.others b hlt (hne c hobject rfl)
  · exact fun b hb => (htouches.ptr b hb).imp_left fun hold => ⟨hobject, hold⟩

/-- An accept lets go of the block of the object it takes. -/
def LetsGo (s s' : State) : Prop :=
  s'.messages = s.messages ∨ ∃ c ∈ s.freeConnectionList, ∃ b, (s.conn c).pMsgrecv = some b ∧
    (s'.conn c).pMsgrecv = none ∧ s'.messages = s.messages.release b

theorem letsGo_prepared {connfd : Fd} {m : Mask} {now : Time}
    (h : s.getConnectionItem = (t, c)) : LetsGo s (t.prepared c connfd m now) := by
  have hmessages : (t.prepared c connfd m now).messages = t.withoutMsgrecv c := by
    simp [prepared, getOneToUse, withoutMsgrecv]
  have howner : ((t.prepared c connfd m now).conn c).pMsgrecv = none := by
    simp [prepared, getOneToUse, Incoming.start]
  rw [LetsGo, hmessages]
  simp only [getConnectionItem] at h
  split at h
  next first rest hfree =>
    obtain ⟨rfl, rfl⟩ := Prod.mk.inj h
    cases hptr : (s.conn first).pMsgrecv with
    | none => exact .inl (by simp [withoutMsgrecv, hptr])
    | some b =>
        exact .inr ⟨first, by simp [hfree], b, hptr, howner, by simp [withoutMsgrecv, hptr]⟩
  next hfree =>
    obtain ⟨rfl, rfl⟩ := Prod.mk.inj h
    exact .inl (by simp [withoutMsgrecv])

theorem LetsGo.congr (h : LetsGo s t) (messages : s'.messages = t.messages)
    (owner : ∀ d, (s'.conn d).pMsgrecv = (t.conn d).pMsgrecv) : LetsGo s s' := by
  rw [LetsGo, messages]
  refine h.imp_right ?_
  rintro ⟨c, hfree, b, hb, hnone, hrelease⟩
  exact ⟨c, hfree, b, hb, (owner c).trans hnone, hrelease⟩

theorem admit_letsGo {connfd : Fd} (h : s.acceptClient connfd env = some s') : LetsGo s s' := by
  simp only [acceptClient] at h
  split at h
  · obtain rfl := Option.some.inj h
    exact .inl rfl
  split at h
  · cases h
  split at h
  · obtain rfl := Option.some.inj h
    exact .inl rfl
  cases hget : s.getConnectionItem with
  | mk t c =>
      have hlets : LetsGo s (t.prepared c connfd (epollin ||| epollrdhup) env.now) :=
        letsGo_prepared hget
      simp only [hget] at h
      split at h
      · cases h
      cases hctl : ((t.getOneToUse c env.now).modifyConn c fun conn =>
          { conn with
            fd := connfd
            rhandler := some .readable
            whandler := some .writable }).epollOperEvent connfd .add (epollin ||| epollrdhup) 0 c
            env.ctl with
      | mk u r =>
          rw [hctl] at h
          rcases epollAdd_cases hctl with ⟨rfl, -, -, rfl⟩ | ⟨rfl, rfl⟩
          · obtain rfl := Option.some.inj h
            refine hlets.congr ?_ fun d => ?_
            · split <;> rfl
            · split
              · by_cases hd : d = c <;> simp [addToTimerQueue, prepared, hd]
              · rfl
          · simp only [closeConnection] at h
            split at h
            · cases h
            split at h
            · obtain rfl := Option.some.inj h
              refine hlets.congr rfl fun d => ?_
              by_cases hd : d = c <;> simp [prepared, hd]
            · cases h

theorem acceptLoop_letsGo {standby : ConnId} {answers : List AcceptAnswer}
    (h : s.acceptLoop standby env answers = some s') : LetsGo s s' := by
  obtain ⟨useAccept4, haccepts⟩ := acceptLoop_accepts h
  rcases haccepts with rfl | ⟨connfd, -, -, haccept⟩
  · exact .inl rfl
  · have hadmit := admit_letsGo haccept
    exact hadmit

/-- An object whose use begins. -/
theorem Bodies.begun (bodies : s.Bodies) (inv : s.Inv) (begun : Begun s c s')
    (incoming : (s'.conn c).toIncoming = Incoming.start) (lets : LetsGo s s') :
    s'.Bodies ∧ ∀ d ∈ s.connectionList, d ≠ c → Spares s s' d := by
  have howner : (s'.conn c).pMsgrecv = none := congrArg Incoming.pMsgrecv incoming
  have hbuf : (s'.conn c).pRecvbuf = .null := congrArg Incoming.pRecvbuf incoming
  have hnext : s'.messages.next = s.messages.next := by
    rcases lets with hsame | ⟨d, -, b, -, -, hrelease⟩
    · rw [hsame]
    · rw [hrelease, Heap.release_next]
  have hget : ∀ b, s.messages.get b = none → s'.messages.get b = none := by
    intro b hb
    rcases lets with hsame | ⟨d, -, b', -, -, hrelease⟩
    · rwa [hsame]
    · by_contra hlive
      obtain ⟨msg, hmsg⟩ := Option.ne_none_iff_exists'.mp hlive
      rw [hrelease] at hmsg
      rw [Heap.get_release_some hmsg] at hb
      cases hb
  refine bodies.act (fun d hd => (begun.objects d).mp hd) begun.other (fun d hd => begun.use_ne hd)
    (Nat.le_of_eq hnext.symm) (fun b hlt hne => ?_) (fun b hb => ?_)
    ⟨fun b hb => ?_, fun p hp => ?_, fun b hle => ?_⟩
  · rcases lets with hsame | ⟨d, hfree, b', hb', hnone, hrelease⟩
    · rw [hsame]
    · have hdc : d = c := by
        by_contra hdc
        rw [begun.other d hdc, hb'] at hnone
        cases hnone
      have hcount : 0 < s.view.free.count d := List.count_pos_iff.mpr hfree
      have hobject : d ∈ s.connectionList := (inv.pool.place (c := d) (by omega)).1
      rw [hrelease, Heap.get_release_ne]
      rintro rfl
      exact hne d hobject hdc hb'
  · rw [howner] at hb
    cases hb
  · rw [howner] at hb
    cases hb
  · rw [hbuf] at hp
    cases hp
  · rw [hnext] at hle
    exact hget b (bodies.fresh b hle)

/-- An object that goes back to the free queue. -/
theorem Bodies.recycle (bodies : s.Bodies) (hc : c ∈ s.connectionList)
    (others : List ConnId) :
    (s.recycle c others).Bodies ∧
      ∀ d ∈ s.connectionList, d ≠ c → Spares s (s.recycle c others) d := by
  have hrelease : (s.recycle c others).messages = s.withoutMsgrecv c := by
    simp [State.recycle, withoutMsgrecv]
  have hother : ∀ b, (∀ c' ∈ s.connectionList, c' = c → (s.conn c').pMsgrecv ≠ some b) →
      (s.recycle c others).messages.get b = s.messages.get b := by
    intro b hne
    rw [hrelease, withoutMsgrecv]
    split
    next b' hb' =>
      rw [Heap.get_release_ne]
      rintro rfl
      exact hne c hc rfl hb'
    next => rfl
  have hnext : (s.recycle c others).messages.next = s.messages.next := by
    rw [hrelease, withoutMsgrecv]
    split <;> rfl
  have howner : ((s.recycle c others).conn c).pMsgrecv = none := by simp [State.recycle]
  refine bodies.act (fun d hd => .inr (by simpa [State.recycle] using hd))
    (fun d hd => by simp [State.recycle, hd]) (fun d _ => rfl) (Nat.le_of_eq hnext.symm)
    (fun b _ hne => hother b hne) (fun b hb => ?_) ⟨fun b hb => ?_, fun p hp => ?_, fun b hle => ?_⟩
  · rw [howner] at hb
    cases hb
  · rw [howner] at hb
    cases hb
  · simp [State.recycle] at hp
  · rw [hnext] at hle
    rw [hother b fun c' hc' _ hb => absurd (bodies.live c' hc' b hb).1 (Nat.not_lt.mpr hle)]
    exact bodies.fresh b hle

/-- A step as far as receiving is concerned; `asked` says which reads it may make. -/
inductive Intake (asked : State → ConnId → Env → Prop) : State → State → Prop
  | aside {s s' : State} (h : Aside s s') : Intake asked s s'
  | reads {s s' : State} {c : ConnId} {env : Env} (inv : s.Inv) (used : s.Used c)
      (asks : asked s c env) (h : s.eventReadableRequestHandler c env = some s') :
      Intake asked s s'
  | begins {s s' : State} {c : ConnId} (inv : s.Inv) (begun : Begun s c s')
      (renews : Renews c s s') (lets : LetsGo s s') : Intake asked s s'
  | returns {s s' : State} (inv : s.Inv) (h : Recycles s s') : Intake asked s s'

variable {asked : State → ConnId → Env → Prop}

/-- What a step leaves alone of a connection that it does not read from. -/
structure Elsewhere (s s' : State) (d : ConnId) : Prop where
  opened : s.Open d
  incoming : (s'.conn d).toIncoming = (s.conn d).toIncoming
  spares : Spares s s' d

theorem Recycles.bodies (h : Recycles s s') (bodies : s.Bodies) (inv : s.Inv) :
    s'.Bodies ∧ ∀ d, s'.Open d → Elsewhere s s' d := by
  cases h with
  | @entry c front back count list counted =>
      have hlisted : c ∈ s.recyConnectionList := by simp [list]
      have hcount : 0 < s.view.delayed.count c := List.count_pos_iff.mpr hlisted
      have hobject : c ∈ s.connectionList := (inv.pool.place (c := c) (by omega)).1
      obtain ⟨hbodies, hspares⟩ := bodies.recycle hobject (front ++ back)
      refine ⟨hbodies.congr rfl rfl rfl fun _ => rfl, fun d hopen => ?_⟩
      have hdc : d ≠ c := by
        rintro rfl
        exact hopen.2 (by simpa [State.recycle] using inv.delayed_closed hlisted)
      have hold : s.Open d := by simpa [Open, Used, State.recycle, hdc] using hopen
      have hspared := hspares d (inv.wired.used d hold.1).1 hdc
      exact ⟨hold, by simp [State.recycle, hdc], ⟨hspared.message, hspared.gone⟩⟩

/-- Every step keeps the message blocks in order. A connection that is in the middle of a
packet was so before, with the same block, or the step has read from it. -/
theorem Intake.bodies (h : Intake asked s s') (bodies : s.Bodies) :
    s'.Bodies ∧ ∀ d, s'.Open d → (s'.conn d).curstat ≠ .hdInit → Elsewhere s s' d ∨
      s.Inv ∧ s.Used d ∧
        ∃ env, asked s d env ∧ s.eventReadableRequestHandler d env = some s' := by
  cases h with
  | aside h =>
      refine ⟨bodies.congr h.messages h.objects h.still.use h.still.incoming,
        fun d hopen _ => .inl ⟨h.still.opened d hopen, h.still.incoming d, ?_⟩⟩
      exact Spares.of_messages h.messages
  | @reads c env inv used asks h =>
      have hframe := readable_frame (inv.idle_of_used used) h
      obtain ⟨hbodies, hspares⟩ := bodies.readable inv used h
      refine ⟨hbodies, fun d hopen _ => ?_⟩
      by_cases hdc : d = c
      · subst hdc
        exact .inr ⟨inv, used, env, asks, h⟩
      · have hold := hframe.opened hopen
        exact .inl ⟨hold, hframe.apart.incoming d hdc, hspares d (inv.wired.used d hold.1).1 hdc⟩
  | @begins c inv begun renews lets =>
      obtain ⟨hbodies, hspares⟩ := bodies.begun inv begun renews.incoming lets
      refine ⟨hbodies, fun d hopen hmid => ?_⟩
      by_cases hdc : d = c
      · subst hdc
        exact absurd (congrArg Incoming.curstat renews.incoming) hmid
      · have hold := renews.apart.opened d hdc hopen
        exact .inl ⟨hold, renews.apart.incoming d hdc, hspares d (inv.wired.used d hold.1).1 hdc⟩
  | returns inv h =>
      obtain ⟨hbodies, helse⟩ := h.bodies bodies inv
      exact ⟨hbodies, fun d hopen _ => .inl (helse d hopen)⟩

/-- Any number of them. -/
abbrev Intakes (asked : State → ConnId → Env → Prop) : State → State → Prop :=
  Relation.ReflTransGen (Intake asked)

/-- Accepting begins a use, or changes nothing that matters here. -/
theorem acceptLoop_intakes (inv : s.Inv) {standby : ConnId} {answers : List AcceptAnswer}
    (h : s.acceptLoop standby env answers = some s') : Intakes asked s s' := by
  have hlets : LetsGo s s' := acceptLoop_letsGo h
  obtain ⟨useAccept4, hcases⟩ := acceptLoop_cases inv h
  have haside : Aside s { s with useAccept4 } :=
    aside_conn rfl rfl ⟨rfl, rfl⟩ rfl fun _ => ⟨rfl, rfl⟩
  have hquiet : Quiet s { s with useAccept4 } :=
    quiet_of_view rfl rfl rfl rfl rfl rfl rfl rfl rfl rfl
  have hinv := hquiet.toNeutral.inv inv
  rcases hcases with rfl | ⟨connfd, hfd, hclosed, hadmits⟩
  · exact .single (.aside haside)
  · rcases hadmits.renews hinv hfd hclosed with rfl | ⟨c, hbegun, hrenews⟩
    · exact .single (.aside haside)
    · exact .head (.aside haside) (.single (.begins hinv hbegun hrenews hlets))

/-- The `EPOLLIN` part of an event: it accepts, or it reads from its connection. -/
theorem handleIn_intakes {events : Mask} (inv : s.Inv) (ok : s.EventOk (c, events))
    (asks : events.has epollin = true → asked s c env)
    (h : s.handleIn c events env = some s') : Intakes asked s s' := by
  cases handleIn_cases inv ok h with
  | reads hset hused hread => exact .single (.reads inv hused (asks hset) hread)
  | accepts _ _ haccept => exact acceptLoop_intakes inv haccept
  | skips => exact .refl

/-- A pass of the recycle thread returns objects one by one. -/
theorem Recycles.intakes (h : Relation.ReflTransGen Recycles s s') (inv : s.Inv) :
    Intakes asked s s' := by
  induction h with
  | refl => exact .refl
  | tail hs hentry ih =>
      have hmoves : Moves ({} : Env) s _ := Recycles.moves hs
      exact ih.tail (.returns (hmoves.evolves inv).inv hentry)

theorem recyConnThreadFunc_intakes (inv : s.Inv) {times : List Time}
    (h : s.recyConnThreadFunc times = some s') : Intakes asked s s' := by
  obtain ⟨t, recyThread, hrecycles, rfl⟩ := recyConnThreadFunc_recycles h
  exact (Recycles.intakes hrecycles inv).tail
    (.aside (aside_conn rfl rfl ⟨rfl, rfl⟩ rfl fun _ => ⟨rfl, rfl⟩))

/-- No object owns a message block. -/
def Unowned (s : State) : Prop := ∀ c ∈ s.connectionList, (s.conn c).pMsgrecv = none

theorem Unowned.newConnection (h : s.Unowned) : s.newConnection.Unowned := by
  intro c hc
  by_cases hnew : c = s.connectionList.length
  · simp [hnew]
  · simpa [hnew] using h c (by simpa [hnew] using hc)

theorem Unowned.createConnections (h : s.Unowned) (n : Nat) : (s.createConnections n).Unowned := by
  induction n generalizing s with
  | zero => exact h
  | succ n ih =>
      rw [State.createConnections]
      exact ih h.newConnection

theorem Unowned.getConnectionItem (h : s.Unowned) : s.getConnectionItem.1.Unowned := by
  simp only [State.getConnectionItem]
  split
  · exact h
  · exact h.newConnection

theorem Unowned.listenLoop (h : s.Unowned) {ready rest : List Listening} {oks : List Bool}
    (hloop : s.listenLoop ready rest oks = some s') : s'.Unowned := by
  induction rest generalizing s ready oks with
  | nil =>
      obtain rfl := Option.some.inj hloop
      exact h
  | cons pos rest ih =>
      cases oks with
      | nil => cases hloop
      | cons ok oks =>
          have hitem := h.getConnectionItem
          cases hget : s.getConnectionItem with
          | mk t c =>
              rw [hget] at hitem
              simp only [State.listenLoop, hget] at hloop
              split at hloop
              next u hctl =>
                rcases epollAdd_cases hctl with ⟨-, -, -, rfl⟩ | ⟨hfail, -⟩
                · refine ih (fun d hd => ?_) hloop
                  have hnone := hitem d hd
                  by_cases hdc : d = c
                  · subst hdc
                    simpa using hnone
                  · simpa [hdc] using hnone
                · cases hfail
              next => cases hloop

end State

/-- A worker process starts without message blocks. -/
theorem Boot.Starts.bodies {boot : Boot} {s : State} (h : boot.Starts s) : s.Bodies := by
  have hunused : ∀ c, ¬ s.Used c := by
    obtain ⟨⟨all, htaking⟩, -⟩ := h.spec
    exact fun c => by simp [State.Used, htaking.unused c]
  have hmessages : s.messages = .empty := congrArg Blocks.messages h.frame.1
  have hnone : s.Unowned := by
    obtain ⟨ctl, hs⟩ := h
    simp only [State.epollEventInit] at hs
    split at hs
    · cases hs
    · have hstate : boot.state.Unowned := fun c hc => by cases hc
      have hpool : boot.state.connectpoolInit.Unowned := hstate.createConnections _
      exact hpool.listenLoop hs
  refine ⟨fun c hc b hb => ?_, fun c hc _ _ b hb => ?_, fun c used => absurd used (hunused c),
    fun b _ => by rw [hmessages]; rfl⟩
  · rw [hnone c hc] at hb
    cases hb
  · rw [hnone c hc] at hb
    cases hb

namespace Server

open State

variable {s s' t : State} {c : ConnId} {env : Env} {action : Action}

/-- The step handles a readable event of the connection `c`. -/
def ReadsFrom (s : State) (action : Action) (c : ConnId) (env : Env) : Prop :=
  action = .loop (.handleEvent env) ∧
    ∃ event ∈ s.events.head?, event.1 = c ∧ event.2.has epollin = true

/-- The reads that a step may make, while no connection has been opened. -/
def AskedBy (s : State) (action : Action) (t : State) (c : ConnId) (env : Env) : Prop :=
  ReadsFrom s action c env ∧ (t.Open c → s.Open c)

theorem handleEvent_intakes (inv : s.Inv) (h : s.handleEvent env = some s') :
    Intakes (AskedBy s (.loop (.handleEvent env))) s s' := by
  obtain ⟨c, events, rest, t, hevent⟩ := handleEvent_cases inv h
  have haside : Aside s { s with events := rest } :=
    aside_conn rfl rfl ⟨rfl, rfl⟩ rfl fun _ => ⟨rfl, rfl⟩
  have hasks : events.has epollin = true →
      AskedBy s (.loop (.handleEvent env)) { s with events := rest } c env := fun hset =>
    ⟨⟨rfl, (c, events), by simp [hevent.batch], rfl, hset⟩, haside.still.opened c⟩
  have hread := handleIn_intakes hevent.taken.inv hevent.ok hasks hevent.inward
  exact (hread.head (.aside haside)).tail
    (.aside (handleOut_aside hevent.between.inv hevent.still hevent.outward))

/-- Every step of the server, as far as receiving is concerned. -/
theorem step_intakes (inv : s.Inv) (h : step s action = some s') :
    Intakes (AskedBy s action) s s' := by
  cases action with
  | loop action =>
      cases action with
      | epollWait events =>
          obtain ⟨reported, -, rfl⟩ := epollWait_reports h
          exact .single (.aside (aside_conn rfl rfl ⟨rfl, rfl⟩ rfl fun _ => ⟨rfl, rfl⟩))
      | handleEvent env => exact handleEvent_intakes inv h
      | timerBegin curTime =>
          exact .single (.aside (timer_aside inv (.inr (.inr (.inr ⟨curTime, rfl⟩))) h))
      | timerCheck => exact .single (.aside (timer_aside inv (.inl rfl) h))
      | timerDelete => exact .single (.aside (timer_aside inv (.inr (.inl rfl)) h))
      | timerClose env => exact .single (.aside (timer_aside inv (.inr (.inr (.inl ⟨env, rfl⟩))) h))
      | recycle times => exact recyConnThreadFunc_intakes inv h
      | shutdown =>
          obtain rfl := Option.some.inj h
          exact .single (.aside (aside_conn rfl rfl ⟨rfl, rfl⟩ rfl fun _ => ⟨rfl, rfl⟩))
  | work w now => exact .single (.aside (work_aside h))
  | sendEntry i env => exact .single (.aside (sendOne_aside h))

end Server

end MyNginx
