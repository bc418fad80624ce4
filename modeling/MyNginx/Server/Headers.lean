import MyNginx.Receive.Headers

/-!
# Header blocks over whole runs

Most steps have nothing to do with header blocks. An accepted object forgets the block
it had, and a returned object keeps its pointer; so the blocks of a connection that is
closed in the middle of a packet are lost when its object is returned.
-/

namespace MyNginx

open Foundation

namespace State

variable {s s' t : State} {c d : ConnId} {b : Nat} {env : Env}

/-- Nothing that concerns the header blocks happens. -/
structure Still (s s' : State) : Prop where
  memory : s'.memory = s.memory
  use : s'.history.use = s.history.use
  free : s'.freeConnectionList = s.freeConnectionList
  incoming : ∀ c, (s'.conn c).toIncoming = (s.conn c).toIncoming
  opened : ∀ c, s'.Open c → s.Open c

namespace Still

theorem refl (s : State) : Still s s := ⟨rfl, rfl, rfl, fun _ => rfl, fun _ => id⟩

theorem trans (h : Still s t) (h' : Still t s') : Still s s' :=
  ⟨h'.memory.trans h.memory, h'.use.trans h.use, h'.free.trans h.free,
    fun c => (h'.incoming c).trans (h.incoming c), fun c hopen => h.opened c (h'.opened c hopen)⟩

theorem ptr (h : Still s s') : s'.headerPtr = s.headerPtr := by
  funext c
  rw [headerPtr, headerPtr, show (s'.conn c).pHeaderinfo = (s.conn c).pHeaderinfo from
    congrArg Incoming.pHeaderinfo (h.incoming c)]
  exact if_congr (by rw [Used, Used, h.use]) rfl rfl

theorem midPacket (h : Still s s') : s'.MidPacket = s.MidPacket := by
  funext c
  rw [MidPacket, MidPacket, Used, Used, h.use, h.free, show (s'.conn c).curstat =
    (s.conn c).curstat from congrArg Incoming.curstat (h.incoming c)]

theorem headers (h : Still s s') (headers : s.Headers) : s'.Headers where
  owned := by
    rw [h.memory, h.ptr, h.midPacket]
    exact headers.owned
  holding c hopen hstate := by
    rw [show (s'.conn c).curstat = (s.conn c).curstat from
      congrArg Incoming.curstat (h.incoming c)] at hstate
    obtain ⟨b, hholding⟩ := headers.holding c (h.opened c hopen) hstate
    exact ⟨b, hholding.congr (h.incoming c) (by rw [h.memory])⟩

theorem tidy_iff (h : Still s s') : s'.HeadersTidy ↔ s.HeadersTidy := by
  rw [HeadersTidy, HeadersTidy, h.memory, h.ptr, h.midPacket]

end Still

/-- Nothing that concerns receiving happens, but for messages that leave the queue. -/
structure Aside (s s' : State) : Prop where
  still : Still s s'
  messages : s'.messages = s.messages
  objects : s'.connectionList = s.connectionList
  queue : ∀ m ∈ s'.msgqueue, m ∈ s.msgqueue

namespace Aside

theorem refl (s : State) : Aside s s := ⟨.refl s, rfl, rfl, fun _ => id⟩

theorem trans (h : Aside s t) (h' : Aside t s') : Aside s s' :=
  ⟨h.still.trans h'.still, h'.messages.trans h.messages, h'.objects.trans h.objects,
    fun m hm => h.queue m (h'.queue m hm)⟩

end Aside

theorem SendOnly.aside (h : SendOnly c s s') : Aside s s' := by
  obtain ⟨queue, interest, wire, out, events, rfl⟩ := h
  refine ⟨⟨rfl, rfl, rfl, fun d => ?_, fun d hopen => ?_⟩, rfl, rfl, fun _ => id⟩
  · by_cases hd : d = c <;> simp [hd]
  · by_cases hd : d = c <;> simpa [Open, Used, hd] using hopen

theorem WorkOnly.aside (h : WorkOnly c s s') (queue : ∀ m ∈ s'.msgqueue, m ∈ s.msgqueue) :
    Aside s s' := by
  obtain ⟨receive, send, queued, out, ping, rfl⟩ := h
  refine ⟨⟨rfl, rfl, rfl, fun d => ?_, fun d hopen => ?_⟩, rfl, rfl, queue⟩
  · by_cases hd : d = c <;> simp [hd]
  · by_cases hd : d = c <;> simpa [Open, Used, hd] using hopen

theorem aside_afterClose (now : Time) : Aside s (s.afterClose c now) := by
  refine ⟨⟨rfl, rfl, rfl, fun d => ?_, fun d hopen => ?_⟩, rfl, rfl, fun _ => id⟩
  · by_cases hd : d = c <;> simp [afterClose, hd]
  · by_cases hd : d = c
    · exact absurd (by simp [afterClose, hd]) hopen.2
    · simpa [Open, Used, afterClose, hd] using hopen

theorem closeAcceptedConnection_aside (idle : s.Idle c) {istimeoutClose : Bool}
    (h : s.closeAcceptedConnection c istimeoutClose env = some s') : Aside s s' := by
  rcases closeAcceptedConnection_cases idle h with ⟨rfl, -⟩ | ⟨-, rfl⟩
  · exact .refl s'
  · exact aside_afterClose env.now

/-- Members outside the receive part, the pool and the blocks may change. -/
theorem aside_conn (blocks : s'.toBlocks = s.toBlocks) (use : s'.history.use = s.history.use)
    (pool : s'.connectionList = s.connectionList ∧
      s'.freeConnectionList = s.freeConnectionList) (queue : s'.msgqueue = s.msgqueue)
    (conn : ∀ d, (s'.conn d).toIncoming = (s.conn d).toIncoming ∧
      (s'.conn d).fd = (s.conn d).fd) : Aside s s' := by
  refine ⟨⟨congrArg Blocks.memory blocks, use, pool.2, fun d => (conn d).1, fun d hopen => ?_⟩,
    congrArg Blocks.messages blocks, pool.1, fun m hm => queue ▸ hm⟩
  rwa [Open, Used, use, (conn d).2] at hopen

/-- The object `c` starts a new use, with nothing from an earlier one. -/
structure Renews (c : ConnId) (s s' : State) : Prop where
  apart : Apart c s s'
  memory : s'.memory = s.memory
  idle : ¬ s.MidPacket c
  incoming : (s'.conn c).toIncoming = Incoming.start

theorem Renews.headers (h : Renews c s s') (headers : s.Headers) (inv : s.Inv) :
    s'.Headers ∧ (s.HeadersTidy → s'.HeadersTidy) := by
  have hstate : (s'.conn c).curstat = .hdInit := congrArg Incoming.curstat h.incoming
  have hidle : ¬ s'.MidPacket c := fun hmid => hmid.2.2 hstate
  have hinfo : (s'.conn c).pHeaderinfo = none := congrArg Incoming.pHeaderinfo h.incoming
  have hptr : s'.headerPtr c = none := by simp [headerPtr, hinfo]
  refine ⟨headers.act inv h.apart ?_ fun _ hmid => absurd hstate hmid, fun tidy => ?_⟩
  · rw [h.memory, hptr]
    exact headers.owned.act_forget hidle
  · rw [HeadersTidy, h.memory]
    exact headers.owned.tidy_forget tidy h.idle hidle hptr fun d hd =>
      ⟨h.apart.ptr hd, h.apart.midPacket hd⟩

/-- Taking an object leaves the free queue of the others alone; the object was free or
has never been accepted. -/
theorem TakenFor.free {connfd : Fd} (h : TakenFor s connfd c t) (inv : s.Inv) :
    (∀ d, d ≠ c → (d ∈ t.freeConnectionList ↔ d ∈ s.freeConnectionList)) ∧ ¬ s.MidPacket c := by
  have htaken : s.view.Taken c t.view := h.takes.taken
  have hfree : t.freeConnectionList = t.view.free := rfl
  rw [hfree]
  generalize t.view = q at htaken
  cases htaken with
  | reuse first =>
      have hlist : s.freeConnectionList = c :: _ := first
      refine ⟨fun d hd => by simp [hlist, hd], fun hmid => hmid.2.1 (by simp [hlist])⟩
  | create =>
      refine ⟨fun d _ => Iff.rfl, fun hmid => ?_⟩
      have hobject := (inv.wired.used _ hmid.1).1
      have hnumbered : s.connectionList = List.range s.connectionList.length := inv.pool.numbered
      rw [hnumbered] at hobject
      simp [view] at hobject

theorem Begun.renews (h : Begun s c s') (idle : ¬ s.MidPacket c)
    (free : ∀ d, d ≠ c → (d ∈ s'.freeConnectionList ↔ d ∈ s.freeConnectionList))
    (memory : s'.memory = s.memory) (incoming : (s'.conn c).toIncoming = Incoming.start) :
    Renews c s s' where
  apart := {
    use := fun d hd => h.use_ne hd
    free := free
    incoming := fun d hd => by rw [h.other d hd]
    opened := fun d hd hopen =>
      (Open.congr (h.use_ne hd) (by rw [h.other d hd])).mp hopen }
  memory := memory
  idle := idle
  incoming := incoming

theorem Admits.renews {connfd : Fd} (h : Admits s connfd env s') (inv : s.Inv) (hfd : 0 ≤ connfd)
    (hclosed : s.openFds connfd = false) : s' = s ∨ ∃ c, Begun s c s' ∧ Renews c s s' := by
  cases h with
  | refused => exact .inl rfl
  | opened taken room timer =>
      rename_i t w c
      obtain ⟨hfree, hidle⟩ := taken.free inv
      have hmemory : t.memory = s.memory := congrArg Blocks.memory taken.takes.blocks
      have hbegun := begun_registered (epollin ||| epollrdhup) env.now inv hfd
        taken.takes
      refine .inr ⟨c, ?_⟩
      rcases timer with ⟨-, rfl⟩ | ⟨-, rfl⟩
      · refine ⟨{ hbegun with }, Begun.renews { hbegun with } hidle hfree hmemory ?_⟩
        simp [registered, prepared, getOneToUse]
      · have hadded := hbegun.addToTimerQueue env.later
        refine ⟨{ hadded with }, Begun.renews { hadded with } hidle hfree hmemory ?_⟩
        simp [addToTimerQueue, registered, prepared, getOneToUse]
  | rejected taken =>
      rename_i t c
      obtain ⟨hfree, hidle⟩ := taken.free inv
      have hmemory : t.memory = s.memory := congrArg Blocks.memory taken.takes.blocks
      have hbegun := begun_rejected (epollin ||| epollrdhup) env.now inv hclosed
        taken.takes
      refine .inr ⟨c, hbegun, hbegun.renews hidle (fun d hd => ?_) hmemory ?_⟩
      · rw [← hfree d hd]
        simp [State.rejected, prepared, getOneToUse, closeFd, hd]
      · simp [State.rejected, prepared, getOneToUse]

/-- Returning objects keeps the header blocks in order, and all of them in hand if none
of the objects is in the middle of a packet. -/
theorem Returns.headers {due : List ConnId} (h : Returns due s s') (headers : s.Headers)
    (inv : s.Inv) (delayed : ∀ c ∈ due, c ∈ s.recyConnectionList) :
    s'.Headers ∧ (s.HeadersTidy → (s'.HeadersTidy ↔ ∀ c ∈ due, ¬ s.MidPacket c)) := by
  have hptr : ∀ c, s'.headerPtr c = s.headerPtr c := fun c => by
    rw [headerPtr, headerPtr, (h.kept c).2.1]
    exact if_congr (by rw [Used, Used, h.use]) rfl rfl
  have hmid : ∀ c, s'.MidPacket c ↔ s.MidPacket c ∧ c ∉ due := fun c => by
    rw [MidPacket, MidPacket, Used, Used, h.use, (h.kept c).1, h.free]
    tauto
  refine ⟨⟨?_, fun c hopen hstate => ?_⟩, fun tidy => ?_⟩
  · rw [h.memory]
    exact headers.owned.letGo hptr fun c hheld => ((hmid c).mp hheld).1
  · have hold : s.Open c := by
      rwa [Open, Used, h.use, (h.kept c).2.2] at hopen
    have hdue : c ∉ due := fun hc => (inv.idle hold.1 hold.2).2 (delayed c hc)
    rw [(h.kept c).1] at hstate
    obtain ⟨b, hholding⟩ := headers.holding c hold hstate
    exact ⟨b, hholding.congr (by rw [h.other c hdue]) (by rw [h.memory])⟩
  · rw [HeadersTidy, h.memory,
      headers.owned.tidy_letGo_iff tidy hptr fun c hheld => ((hmid c).mp hheld).1]
    constructor
    · exact fun hkeep c hdue hheld => ((hmid c).mp (hkeep c hheld)).2 hdue
    · exact fun hnone c hheld => (hmid c).mpr ⟨hheld, fun hdue => hnone c hdue hheld⟩

theorem acceptLoop_headers {standby : ConnId} {answers : List AcceptAnswer} (inv : s.Inv)
    (headers : s.Headers) (h : s.acceptLoop standby env answers = some s') :
    s'.Headers ∧ (s.HeadersTidy → s'.HeadersTidy) := by
  obtain ⟨useAccept4, hcases⟩ := acceptLoop_cases inv h
  have haside : Aside s { s with useAccept4 } :=
    aside_conn rfl rfl ⟨rfl, rfl⟩ rfl fun _ => ⟨rfl, rfl⟩
  have hstill := haside.still
  have hquiet : Quiet s { s with useAccept4 } :=
    quiet_of_view rfl rfl rfl rfl rfl rfl rfl rfl rfl rfl
  have hinv := hquiet.toNeutral.inv inv
  rcases hcases with rfl | ⟨connfd, hfd, hclosed, hadmits⟩
  · exact ⟨hstill.headers headers, hstill.tidy_iff.mpr⟩
  · rcases hadmits.renews hinv hfd hclosed with rfl | ⟨c, -, hrenews⟩
    · exact ⟨hstill.headers headers, hstill.tidy_iff.mpr⟩
    · have hnext := hrenews.headers (hstill.headers headers) hinv
      exact ⟨hnext.1, fun tidy => hnext.2 (hstill.tidy_iff.mpr tidy)⟩

/-- The next event does not starve a connection at the beginning of a packet. -/
def Feeds (s : State) (c : ConnId) (events : Mask) (env : Env) : Prop :=
  s.Used c → events.has epollin = true → (s.conn c).curstat = .hdInit → ¬ s.Starves c env

instance {events : Mask} : Decidable (s.Feeds c events env) :=
  inferInstanceAs (Decidable (_ → _ → _ → _))

theorem handleIn_headers {events : Mask} (inv : s.Inv) (ok : s.EventOk (c, events))
    (headers : s.Headers) (h : s.handleIn c events env = some s') :
    s'.Headers ∧ (s.HeadersTidy → (s'.HeadersTidy ↔ s.Feeds c events env)) := by
  cases handleIn_cases inv ok h with
  | reads hset hused hread =>
      have hreads := readable_readsHeader inv hused headers hread
      have hframe := readable_frame (inv.idle_of_used hused) hread
      have hnext := hreads.headers headers inv hframe hused
      refine ⟨hnext.1, fun tidy => (hnext.2 tidy).trans ?_⟩
      exact ⟨fun hfed _ _ => hfed, fun hfeeds => hfeeds hused hset⟩
  | accepts _ hstandby haccept =>
      have hunused := (inv.wired.standby c hstandby).2.1
      have hnext := acceptLoop_headers inv headers haccept
      exact ⟨hnext.1, fun tidy => iff_of_true (hnext.2 tidy) fun hused => absurd hused hunused⟩
  | skips hunset => exact ⟨headers, fun tidy => iff_of_true tidy fun _ hset => absurd hset hunset⟩

theorem handleOut_aside {events : Mask} (inv : s.Inv) (ok : s.EventOk (c, events))
    (h : s.handleOut c events env = some s') : Aside s s' := by
  cases handleOut_cases inv ok h with
  | closes _ hused hinv hclose =>
      have hfirst : Aside s (s.hangup c) := aside_conn rfl rfl ⟨rfl, rfl⟩ rfl fun d => by
        by_cases hd : d = c <;> simp [State.hangup, hd]
      exact hfirst.trans (closeAcceptedConnection_aside (hinv.idle_of_used hused) hclose)
  | writes _ _ hwrite => exact (writable_frame hwrite).aside
  | skips => exact .refl s

theorem timer_aside {action : LoopAction} (inv : s.Inv)
    (timer : action = .timerCheck ∨ action = .timerDelete ∨ (∃ env, action = .timerClose env) ∨
      ∃ curTime, action = .timerBegin curTime)
    (h : s.loopStep action = some s') : Aside s s' := by
  rcases timer with rfl | rfl | ⟨env, rfl⟩ | ⟨curTime, rfl⟩
  · cases timeCheckingProc_cases h with
    | finished | outdated | heard => exact aside_conn rfl rfl ⟨rfl, rfl⟩ rfl fun _ => ⟨rfl, rfl⟩
    | @silent head =>
        refine aside_conn rfl rfl ⟨rfl, rfl⟩ rfl fun d => ?_
        by_cases hd : d = head.lpCurconn <;> simp [hd]
  · obtain ⟨head, due, curTime, -, rfl⟩ := timeOutDelete_cases h
    exact aside_conn rfl rfl ⟨rfl, rfl⟩ rfl fun _ => ⟨rfl, rfl⟩
  · obtain ⟨head, due, curTime, t, -, hused, hclose, rfl⟩ := timeOutClose_cases inv h
    exact (closeAcceptedConnection_aside (inv.idle_of_used hused) hclose).trans
      (aside_conn rfl rfl ⟨rfl, rfl⟩ rfl fun _ => ⟨rfl, rfl⟩)
  · rcases (timerBegin_cases h).2 with rfl | ⟨queue, due, -, rfl⟩
    · exact .refl s'
    · exact aside_conn rfl rfl ⟨rfl, rfl⟩ rfl fun _ => ⟨rfl, rfl⟩

theorem msgSendInQueue_msgqueue {thread : Thread} {reply : Reply}
    (h : s.msgSendInQueue thread reply = some s') : s'.msgqueue = s.msgqueue := by
  obtain rfl | rfl := eq_of_msgSendInQueue h
  · rfl
  · rfl

/-- A worker takes one message out of the queue. -/
theorem Took.queue {now : Time} {r : Option Reply} (h : Took s now s' r) :
    ∀ m ∈ s'.msgqueue, m ∈ s.msgqueue := by
  intro m hm
  cases h with
  | null queue =>
      rw [queue]
      exact List.mem_cons_of_mem _ hm
  | message queue processed =>
      rw [queue]
      cases processed with
      | dropped => exact List.mem_cons_of_mem _ hm
      | heartbeat => exact List.mem_cons_of_mem _ hm
      | answered => exact List.mem_cons_of_mem _ hm

end State

namespace Server

open State

variable {s s' : State} {boot : Boot} {actions : List Action}

/-- A step that loses no header block: the next event of the batch feeds its connection,
and no object is returned in the middle of a packet. -/
def Frugal (s : State) : Action → Prop
  | .loop (.handleEvent env) => ∀ event ∈ s.events.head?, s.Feeds event.1 event.2 env
  | .loop (.recycle times) => ∀ c ∈ s.returned times, ¬ s.MidPacket c
  | _ => True

instance : DecidableRel Frugal := fun s action => by
  unfold Frugal
  split <;> infer_instance

/-- The header blocks between two steps: the live ones are those of the connections in
the middle of a packet, a returned object has none, and no readable event will use or
free a block that is gone. -/
structure HeadersKept (s : State) : Prop where
  live : ∀ b, s.memory.get b ≠ none ↔ ∃ c, s.MidPacket c ∧ (s.conn c).pHeaderinfo = some b
  returned : ∀ c ∈ s.freeConnectionList, s.Used c → ∀ b, (s.conn c).pHeaderinfo = some b →
    s.memory.get b = none
  safe : ∀ c env, s.Used c → s.eventReadableRequestHandler c env = none → s.Blocked c env

theorem headersKept_iff (inv : s.Inv) (headers : s.Headers) : HeadersKept s ↔ s.HeadersTidy := by
  constructor
  · intro hkept b hlive
    obtain ⟨c, hmid, hinfo⟩ := (hkept.live b).mp hlive
    exact ⟨c, hmid, headerPtr_eq_some.mpr ⟨hmid.1, hinfo⟩⟩
  · intro tidy
    refine ⟨fun b => ⟨fun hlive => ?_, fun ⟨c, hmid, hinfo⟩ => ?_⟩,
      fun c hfree used b hinfo => ?_, fun c env used => readable_blocked inv used headers⟩
    · obtain ⟨c, hmid, hptr⟩ := tidy b hlive
      exact ⟨c, hmid, (headerPtr_eq_some.mp hptr).2⟩
    · obtain ⟨b', hptr, hlive⟩ := headers.owned.live c hmid
      obtain rfl := Option.some.inj (hinfo.symm.trans (headerPtr_eq_some.mp hptr).2)
      exact hlive
    · exact headers.owned.dead tidy (headerPtr_eq_some.mpr ⟨used, hinfo⟩) fun hmid =>
        hmid.2.1 hfree

theorem handleEvent_headers (inv : s.Inv) (headers : s.Headers) {env : Env}
    (h : s.handleEvent env = some s') :
    s'.Headers ∧ (s.HeadersTidy →
      (s'.HeadersTidy ↔ ∀ event ∈ s.events.head?, s.Feeds event.1 event.2 env)) := by
  obtain ⟨c, events, rest, t, hevent⟩ := handleEvent_cases inv h
  have haside : Aside s { s with events := rest } :=
    aside_conn rfl rfl ⟨rfl, rfl⟩ rfl fun _ => ⟨rfl, rfl⟩
  have hreport := haside.still
  have hread := handleIn_headers hevent.taken.inv hevent.ok (hreport.headers headers) hevent.inward
  have hstill := (handleOut_aside hevent.between.inv hevent.still hevent.outward).still
  refine ⟨hstill.headers hread.1, fun tidy => ?_⟩
  rw [hstill.tidy_iff, hread.2 (hreport.tidy_iff.mpr tidy), hevent.batch]
  simp only [List.head?_cons, Option.mem_def, Option.some.injEq, forall_eq']
  exact Iff.rfl

theorem work_aside {w : Nat} {now : Time} (h : work s w now = some s') : Aside s s' := by
  obtain ⟨t, htook, rfl⟩ | ⟨t, reply, htook, h⟩ := work_cases h
  · obtain ⟨c, hframe, -⟩ := htook.frame
    exact hframe.aside htook.queue
  · obtain ⟨c, hframe, -⟩ := htook.frame
    exact (hframe.aside htook.queue).trans ((msgSendInQueue_frame h).aside fun m hm =>
      msgSendInQueue_msgqueue h ▸ hm)

theorem sendOne_aside {i : Nat} {env : Env} (h : sendOne s i env = some s') : Aside s s' := by
  obtain ⟨t, next, hentry, hlast⟩ := sendOne_cases h
  obtain ⟨reply, -, hframe⟩ := sendEntry_frame hentry
  rcases hlast with rfl | rfl
  · exact hframe.aside
  · exact hframe.aside.trans (aside_conn rfl rfl ⟨rfl, rfl⟩ rfl fun _ => ⟨rfl, rfl⟩)

/-- One step: the header blocks stay in order, and all of them in hand exactly when the
step is frugal. -/
theorem step_headers (inv : s.Inv) (headers : s.Headers) {action : Action}
    (h : step s action = some s') :
    s'.Headers ∧ (s.HeadersTidy → (s'.HeadersTidy ↔ Frugal s action)) := by
  have hkeep : Aside s s' → s'.Headers ∧ (s.HeadersTidy → (s'.HeadersTidy ↔ True)) := fun haside =>
    ⟨haside.still.headers headers, fun tidy =>
      iff_of_true (haside.still.tidy_iff.mpr tidy) trivial⟩
  cases action with
  | loop action =>
      cases action with
      | epollWait events =>
          obtain ⟨reported, -, rfl⟩ := epollWait_reports h
          exact hkeep (aside_conn rfl rfl ⟨rfl, rfl⟩ rfl fun _ => ⟨rfl, rfl⟩)
      | handleEvent env => exact handleEvent_headers inv headers h
      | timerBegin curTime => exact hkeep (timer_aside inv (.inr (.inr (.inr ⟨curTime, rfl⟩))) h)
      | timerCheck => exact hkeep (timer_aside inv (.inl rfl) h)
      | timerDelete => exact hkeep (timer_aside inv (.inr (.inl rfl)) h)
      | timerClose env => exact hkeep (timer_aside inv (.inr (.inr (.inl ⟨env, rfl⟩))) h)
      | recycle times =>
          exact (recyConnThreadFunc_returns h).headers headers inv fun _ =>
            mem_recyList_of_returned
      | shutdown =>
          obtain rfl := Option.some.inj h
          exact hkeep (aside_conn rfl rfl ⟨rfl, rfl⟩ rfl fun _ => ⟨rfl, rfl⟩)
  | work w now => exact hkeep (work_aside h)
  | sendEntry i env => exact hkeep (sendOne_aside h)

theorem headers_start (hstart : boot.Starts s) : s.Headers ∧ s.HeadersTidy := by
  obtain ⟨⟨all, htaking⟩, -⟩ := hstart.spec
  have hunused : ∀ c, ¬ s.Used c := fun c => by simp [Used, htaking.history, Boot.state]
  have hptr : ∀ c, s.headerPtr c = none := fun c => if_neg (hunused c)
  have hmemory : s.memory = .empty := congrArg Blocks.memory hstart.frame.1
  have hdead : ∀ b, s.memory.get b = none := fun b => by rw [hmemory]; rfl
  refine ⟨⟨⟨fun c hmid => absurd hmid.1 (hunused c), fun c d b hc => ?_, fun c b hc => ?_,
    fun b _ => hdead b⟩, fun c hopen => absurd hopen.1 (hunused c)⟩,
    fun b hlive => absurd (hdead b) hlive⟩
  · rw [hptr c] at hc
    cases hc
  · rw [hptr c] at hc
    cases hc

/-- In every state of a run the live header blocks are those of the connections in the
middle of a packet, if and only if every step is frugal. -/
theorem header_blocks (hstart : boot.Starts s) :
    Throughout step HeadersKept s actions ↔ Along step Frugal s actions := by
  obtain ⟨hheaders, htidy⟩ := headers_start hstart
  refine throughout_iff_along (I := fun s => s.Inv ∧ s.Headers)
    (fun s a s' hi _ _ hs => ⟨(step_evolves hi.1 hs).inv, (step_headers hi.1 hi.2 hs).1⟩)
    (fun s a s' hi hp hs => ?_) ⟨hstart.inv, hheaders⟩
    ((headersKept_iff hstart.inv hheaders).mpr htidy)
  have hnext := step_headers hi.1 hi.2 hs
  rw [headersKept_iff (step_evolves hi.1 hs).inv hnext.1]
  exact hnext.2 ((headersKept_iff hi.1 hi.2).mp hp)

/-- A client whose packet arrives in three parts, the first of them within the header. -/
theorem header_blocks_packet : ∃ s, Boot.small.Starts s ∧ Throughout step HeadersKept s
    (acceptOn 5 100 ++ eventOn 5 epollin { recv := .data [0, 10, 0] } ++
      eventOn 5 epollin { recv := .data [1, 0, 0, 0, 0] } ++
      eventOn 5 epollin { recv := .data [7, 8] }) := by
  have hrun : (Boot.small.state.epollEventInit [true]).map (fun s =>
      decide (Along step Frugal s
        (acceptOn 5 100 ++ eventOn 5 epollin { recv := .data [0, 10, 0] } ++
          eventOn 5 epollin { recv := .data [1, 0, 0, 0, 0] } ++
          eventOn 5 epollin { recv := .data [7, 8] }))) = some true := by decide
  obtain ⟨s, hstart, hfrugal⟩ := Option.map_eq_some_iff.mp hrun
  exact ⟨s, ⟨_, hstart⟩, (header_blocks ⟨_, hstart⟩).mpr (of_decide_eq_true hfrugal)⟩

/-- A client whose first `recv` fails with `EAGAIN`: the block allocated for its header
belongs to nobody. -/
theorem header_block_lost :
    ¬ ∀ (boot : Boot) (s : State) (actions : List Action), boot.Starts s →
      Throughout step HeadersKept s actions := by
  intro hclaim
  have hrun : (Boot.small.state.epollEventInit [true]).map (fun s =>
      (run step s (acceptOn 5 100 ++ eventOn 5 epollin { recv := .failed .eagain })).map fun s' =>
        (s'.memory.get 0, decide (∀ c ∈ s'.connectionList, ¬ s'.MidPacket c))) =
          some (some (some (List.replicate 8 0), true)) := by decide
  obtain ⟨s, hstart, hlast⟩ := Option.map_eq_some_iff.mp hrun
  obtain ⟨s', hr, heq⟩ := Option.map_eq_some_iff.mp hlast
  obtain ⟨hlive, hnone⟩ := Prod.mk.inj heq
  have hkept : HeadersKept s' := (hclaim _ _ _ ⟨_, hstart⟩).last hr
  obtain ⟨c, hmid, -⟩ := (hkept.live 0).mp (by rw [hlive]; exact Option.some_ne_none _)
  have hinv : s'.Inv := run_invariant (fun s a s' hi hs => (step_evolves hi hs).inv)
    (Boot.Starts.inv ⟨_, hstart⟩) hr
  exact of_decide_eq_true hnone c (hinv.wired.used c hmid.1).1 hmid

end Server

end MyNginx
