import MyNginx.Handlers.System
import MyNginx.Server.Frames

/-!
# Replies for valid connections

`_HandleRegister` and `_HandleLogin` test the connection twice, the second time behind
the construction of a `CLock` on its mutex. But the scope of the lock is the `else`
branch of the first test, so the mutex is free again when the second test is made: a
thread that closes the connection may come between it and `MsgSendInQueue`.
-/

namespace MyNginx

open Foundation

namespace State

variable {s s' t : State} {c d : ConnId} {env : Env}

theorem ReadFrame.sequence {now : Time} (h : ReadFrame c now s s') (d : ConnId) :
    (s'.conn d).sequence = (s.conn d).sequence := by
  cases h with
  | stays h =>
      obtain ⟨blocks, queue, incoming, rfl⟩ := h
      by_cases hd : d = c <;> simp [hd]
  | closes opened h =>
      obtain ⟨blocks, queue, incoming, rfl⟩ := h
      by_cases hd : d = c <;> simp [afterClose, hd]

/-- An object that is taken for a new client is not open. -/
theorem Admits.sequence {connfd : Fd} (h : Admits s connfd env s') (inv : s.Inv) (hfd : 0 ≤ connfd)
    (hclosed : s.openFds connfd = false) (hopen : s.Open c) :
    (s'.conn c).sequence = (s.conn c).sequence := by
  have hidle : ∀ {d t}, TakenFor s connfd d t → c ≠ d := by
    rintro d t taken rfl
    exact hopen.2 (taken.idle (inv.wired.used c hopen.1).1)
  cases h with
  | refused => rfl
  | opened taken room timer =>
      have hbegun := begun_registered (epollin ||| epollrdhup) env.now inv hfd
        taken.takes
      rcases timer with ⟨-, rfl⟩ | ⟨-, rfl⟩
      · exact congrArg Connection.sequence (hbegun.other c (hidle taken))
      · exact congrArg Connection.sequence
          ((hbegun.addToTimerQueue env.later).other c (hidle taken))
  | rejected taken =>
      have hbegun := begun_rejected (epollin ||| epollrdhup) env.now inv hclosed
        taken.takes
      exact congrArg Connection.sequence (hbegun.other c (hidle taken))

theorem acceptLoop_sequence {standby : ConnId} {answers : List AcceptAnswer} (inv : s.Inv)
    (hopen : s.Open c) (h : s.acceptLoop standby env answers = some s') :
    (s'.conn c).sequence = (s.conn c).sequence := by
  obtain ⟨useAccept4, hcases⟩ := acceptLoop_cases inv h
  rcases hcases with rfl | ⟨connfd, hfd, hclosed, hadmits⟩
  · rfl
  · have hquiet : Quiet s { s with useAccept4 } :=
      quiet_of_view rfl rfl rfl rfl rfl rfl rfl rfl rfl rfl
    exact hadmits.sequence (hquiet.toNeutral.inv inv) hfd hclosed hopen

theorem handleIn_sequence {events : Mask} (inv : s.Inv) (ok : s.EventOk (d, events))
    (hopen : s.Open c) (h : s.handleIn d events env = some s') :
    (s'.conn c).sequence = (s.conn c).sequence := by
  cases handleIn_cases inv ok h with
  | reads _ hused hread => exact (readable_frame (inv.idle_of_used hused) hread).sequence c
  | accepts _ _ haccept => exact acceptLoop_sequence inv hopen haccept
  | skips => rfl

theorem closeAcceptedConnection_sequence {istimeoutClose : Bool} (inv : s.Inv) (used : s.Used d)
    (h : s.closeAcceptedConnection d istimeoutClose env = some s') (c : ConnId) :
    (s'.conn c).sequence = (s.conn c).sequence :=
  (closeAcceptedConnection_frame (inv.idle_of_used used) h).sequence c

theorem handleOut_sequence {events : Mask} (inv : s.Inv) (ok : s.EventOk (d, events))
    (h : s.handleOut d events env = some s') (c : ConnId) :
    (s'.conn c).sequence = (s.conn c).sequence := by
  cases handleOut_cases inv ok h with
  | closes _ hused hinv hclose =>
      have hneutral : Neutral s (s.hangup d) := neutral_hangup
      rw [closeAcceptedConnection_sequence hinv hused hclose c]
      exact (link_eq (hneutral.link c)).2.1
  | writes _ _ hwrite =>
      obtain ⟨queue, interest, wire, out, events, rfl⟩ := writable_frame hwrite
      by_cases hc : c = d <;> simp [hc]
  | skips => rfl

/-- No step of the loop or beside it changes the sequence of an open connection. -/
theorem loopStep_sequence {action : LoopAction} (inv : s.Inv) (hopen : s.Open c)
    (h : s.loopStep action = some s') : (s'.conn c).sequence = (s.conn c).sequence := by
  cases action with
  | epollWait events =>
      obtain ⟨reported, -, rfl⟩ := epollWait_reports h
      rfl
  | handleEvent env =>
      obtain ⟨d, events, rest, t, hevent⟩ := handleEvent_cases inv h
      rw [handleOut_sequence hevent.between.inv hevent.still hevent.outward c]
      exact handleIn_sequence (s := { s with events := rest }) hevent.taken.inv hevent.ok hopen
        hevent.inward
  | timerBegin curTime =>
      exact (link_eq ((quiet_timerBegin h).link c)).2.1
  | timerCheck =>
      exact (link_eq ((timeCheckingProc_checks h).neutral.link c)).2.1
  | timerDelete =>
      exact (link_eq ((quiet_timeOutDelete h).link c)).2.1
  | timerClose env =>
      obtain ⟨head, due, curTime, t, -, hused, hclose, rfl⟩ := timeOutClose_cases inv h
      exact closeAcceptedConnection_sequence inv hused hclose c
  | recycle times =>
      have hdue : c ∉ s.returned times := fun hmem =>
        (inv.idle hopen.1 hopen.2).2 (mem_recyList_of_returned hmem)
      rw [(recyConnThreadFunc_returns h).other c hdue]
  | shutdown =>
      obtain rfl := Option.some.inj h
      rfl

end State

namespace Handlers

open State

variable {n : Nat} {k k' : Config n} {boot : Boot} {actions : List (Action n)} {s : State}

/-- The connection of a request is still the one it came from: open, not in the recycle
list, and with the sequence of the request. -/
def Valid (s : State) (request : Message) : Prop :=
  (s.conn request.head.lpCurconn).fd ≠ -1 ∧
    request.head.lpCurconn ∉ s.recyConnectionList ∧
    (s.conn request.head.lpCurconn).sequence = request.head.msgCursequence

/-- Whichever handler executes `MsgSendInQueue` next, its connection is valid. -/
def RepliesValid (k : Config n) : Prop :=
  ∀ w, ∀ request ∈ (k.workers w).answering, Valid k.server request

/-- A step that lets no handler queue a reply for a connection that is not valid: the
connection of a handler behind its second test is not closed, and the second test is not
passed with a sequence that merely looks the same as an `int`. -/
def Spares (k : Config n) : Action n → Prop
  | .loop action => ∀ s ∈ k.server.loopStep action, ∀ w, ∀ request ∈ (k.workers w).answering,
      (s.conn request.head.lpCurconn).fd ≠ -1
  | .advance w =>
      match k.workers w with
      | .second request _ => k.server.judges request = true →
          (k.server.conn request.head.lpCurconn).sequence = request.head.msgCursequence
      | _ => True
  | _ => True

instance : DecidableRel (Spares (n := n)) := fun k action => by
  unfold Spares
  split
  · infer_instance
  · split <;> infer_instance
  · infer_instance

/-- The server invariant, for requests in the hands of handlers as well. -/
structure Inv (k : Config n) : Prop where
  server : k.server.Inv
  stamped : ∀ w request reply, (k.workers w).handling = some (request, reply) →
    k.server.Stamped request.head request.origin ∧ reply.head = request.head ∧
      reply.origin = request.origin

theorem valid_neutral {s' : State} (h : Neutral s s') {request : Message} :
    Valid s' request ↔ Valid s request := by
  obtain ⟨hfd, hseq, -⟩ := link_eq (h.link request.head.lpCurconn)
  have hdelayed : s'.recyConnectionList = s.recyConnectionList :=
    congrArg ObjectPool.delayed h.view
  rw [Valid, Valid, hfd, hseq, hdelayed]

/-- The server moves on, and the handlers stay where they are. -/
theorem Inv.server_moves (inv : Inv k) (evolves : Evolves k.server s) :
    Inv { k with server := s } where
  server := evolves.inv
  stamped w request reply hpc := by
    obtain ⟨hstamped, hanswers⟩ := inv.stamped w request reply hpc
    exact ⟨hstamped.aged evolves.aged, hanswers⟩

/-- A handler goes on to another point with the request it has, or ends. -/
theorem Inv.goto (inv : Inv k) {w : Fin n} {pc : HandlerPc}
    (same : pc = .idle ∨ pc.handling = (k.workers w).handling) : Inv (k.goto w pc) where
  server := inv.server
  stamped v request reply hpc := by
    by_cases hv : v = w
    · subst hv
      simp only [Config.goto, Function.update_self] at hpc
      rcases same with rfl | hsame
      · cases hpc
      · exact inv.stamped v request reply (hsame ▸ hpc)
    · simp only [Config.goto, Function.update_of_ne hv] at hpc
      exact inv.stamped v request reply hpc

theorem Inv.setMutex (inv : Inv k) (c : ConnId) (holder : Option (Holder n)) :
    Inv (k.setMutex c holder) := ⟨inv.server, inv.stamped⟩

/-- The replies in hand stay valid when only the handler `w` moves, to a point that is not
in front of `MsgSendInQueue`. -/
theorem RepliesValid.goto (valid : RepliesValid k) {w : Fin n} {pc : HandlerPc}
    (quiet : pc.answering = none) : RepliesValid (k.goto w pc) := by
  intro v request hrequest
  by_cases hv : v = w
  · subst hv
    simp only [Config.goto, Function.update_self, quiet] at hrequest
    cases hrequest
  · simp only [Config.goto, Function.update_of_ne hv] at hrequest
    exact valid v request hrequest

theorem RepliesValid.server_neutral (valid : RepliesValid k) (h : Neutral k.server s) :
    RepliesValid { k with server := s } := fun w request hrequest =>
  (valid_neutral h).mpr (valid w request hrequest)

/-- A step of the loop keeps the replies valid exactly when it closes none of their
connections. -/
theorem loop_valid (inv : Inv k) (valid : RepliesValid k) {action : LoopAction}
    (h : k.server.loopStep action = some s) :
    RepliesValid { k with server := s } ↔ Spares k (.loop action) := by
  have hevolves := (loopStep_moves inv.server h).evolves inv.server
  constructor
  · intro hvalid s' hs' w request hrequest
    obtain rfl := Option.some.inj (h.symm.trans hs')
    exact (hvalid w request hrequest).1
  · intro hspares w request hrequest
    have hfd := hspares s h w request hrequest
    obtain ⟨hopen, -, hseq⟩ := valid w request hrequest
    have hused : k.server.Used request.head.lpCurconn := by
      cases hpc : k.workers w with
      | sending r reply =>
          rw [hpc] at hrequest
          obtain rfl := Option.some.inj hrequest
          exact (inv.stamped w r reply (by rw [hpc]; rfl)).1.1
      | idle | first r reply | locking r reply | locked r reply | second r reply =>
          rw [hpc] at hrequest
          cases hrequest
    refine ⟨hfd, (hevolves.inv.idle (hevolves.used hused) hfd).2, ?_⟩
    rw [loopStep_sequence inv.server ⟨hused, hopen⟩ h, hseq]

/-- What taking a message comes to. -/
theorem take_cases (inv : Inv k) {w : Fin n} {now : Time} (h : take k w now = some k') :
    ∃ s, Neutral k.server s ∧ (k' = { k with server := s } ∨
      ∃ request reply, k' = { k with server := s }.goto w (.first request reply) ∧
        s.Stamped request.head request.origin ∧ reply.head = request.head ∧
          reply.origin = request.origin) := by
  have hbehind : ∀ {first rest}, k.server.msgqueue = first :: rest →
      Neutral k.server (k.server.behind rest) := by
    intro first rest hqueue
    refine (steady_behind fun msg hm => ?_).toNeutral
    rw [hqueue]
    exact List.mem_cons_of_mem _ hm
  simp only [take, getMsgItem] at h
  split at h
  · cases h
  cases hqueue : k.server.msgqueue with
  | nil => contradiction
  | cons first rest =>
      have hneutral := hbehind hqueue
      cases first with
      | none =>
          simp only [hqueue, Option.some.injEq] at h
          exact ⟨_, hneutral, .inl h.symm⟩
      | some msg =>
          simp only [hqueue] at h
          have hstamped : (k.server.behind rest).Stamped msg.head msg.origin :=
            (inv.server.flight.queue msg (by simp [hqueue])).aged hneutral.aged
          have hprocessed := threadRecvProc_processed (k.server.behind rest) msg now
          split at h
          next t hproc =>
            rw [show (k.server.behind rest).threadRecvProc msg now = (t, none) from hproc] at hprocessed
            obtain rfl := Option.some.inj h
            exact ⟨t, hneutral.trans hprocessed.neutral, .inl rfl⟩
          next t reply hproc =>
            rw [show (k.server.behind rest).threadRecvProc msg now = (t, some reply) from hproc]
              at hprocessed
            have hanswers := hprocessed.answers
            split at h
            · obtain rfl := Option.some.inj h
              exact ⟨_, hneutral, .inr ⟨msg, reply, rfl, hstamped, hanswers⟩⟩
            split at h
            · obtain ⟨s, hs, rfl⟩ := Option.map_eq_some_iff.mp h
              have hfirst := hneutral.trans hprocessed.neutral
              have hreply : t.Stamped reply.head reply.origin := by
                rw [hanswers.1, hanswers.2]
                exact hstamped.aged hprocessed.neutral.aged
              exact ⟨s, hfirst.trans (steady_msgSendInQueue hreply hs).toNeutral, .inl rfl⟩
            · cases h

/-- The second test lets a handler on to `MsgSendInQueue`. -/
theorem second_valid (inv : Inv k) (valid : RepliesValid k) {w : Fin n} {request : Message}
    {reply : Reply} (pc : k.workers w = .second request reply)
    (judged : k.server.judges request = true) :
    RepliesValid (k.goto w (.sending request reply)) ↔
      (k.server.conn request.head.lpCurconn).sequence = request.head.msgCursequence := by
  have hused : k.server.Used request.head.lpCurconn :=
    (inv.stamped w request reply (by rw [pc]; rfl)).1.1
  have hfd := Connection.fd_ne_of_judgeOutdate judged
  constructor
  · intro hvalid
    exact (hvalid w request (by simp [Config.goto, HandlerPc.answering])).2.2
  · intro hseq v r hr
    by_cases hv : v = w
    · subst hv
      simp only [Config.goto, Function.update_self, HandlerPc.answering, Option.mem_def,
        Option.some.injEq] at hr
      subst hr
      exact ⟨hfd, (inv.server.idle hused hfd).2, hseq⟩
    · simp only [Config.goto, Function.update_of_ne hv] at hr
      exact valid v r hr

theorem advance_valid (inv : Inv k) (valid : RepliesValid k) {w : Fin n}
    (h : advance k w = some k') : Inv k' ∧ (RepliesValid k' ↔ Spares k (.advance w)) := by
  have hfree : ∀ {pc : HandlerPc}, k.workers w = pc →
      (∀ request reply, pc ≠ .second request reply) → Spares k (.advance w) := by
    intro pc hpc hne
    simp only [Spares, hpc]
  simp only [advance] at h
  split at h
  · cases h
  next request reply hpc =>
    obtain rfl := Option.some.inj h
    refine ⟨inv.goto ?_, iff_of_true (valid.goto ?_) (hfree hpc nofun)⟩
    · rw [hpc]
      split
      · exact .inr rfl
      · exact .inl rfl
    · split <;> rfl
  next request reply hpc =>
    split at h
    · obtain rfl := Option.some.inj h
      refine ⟨(inv.setMutex _ _).goto (.inr ?_), iff_of_true (RepliesValid.goto valid rfl)
        (hfree hpc nofun)⟩
      rw [show (k.setMutex _ _).workers w = k.workers w from rfl, hpc]
      rfl
    · cases h
  next request reply hpc =>
    obtain rfl := Option.some.inj h
    refine ⟨(inv.setMutex _ _).goto (.inr ?_), iff_of_true (RepliesValid.goto valid rfl)
      (hfree hpc nofun)⟩
    rw [show (k.setMutex _ _).workers w = k.workers w from rfl, hpc]
    rfl
  next request reply hpc =>
    obtain rfl := Option.some.inj h
    refine ⟨inv.goto ?_, ?_⟩
    · rw [hpc]
      split
      · exact .inr rfl
      · exact .inl rfl
    · simp only [Spares, hpc]
      split
      next hjudged =>
        rw [second_valid inv valid hpc hjudged]
        exact ⟨fun hseq _ => hseq, fun hsame => hsame hjudged⟩
      next hjudged => exact iff_of_true (valid.goto rfl) fun hpass => absurd hpass hjudged
  next request reply hpc =>
    obtain ⟨s, hs, rfl⟩ := Option.map_eq_some_iff.mp h
    obtain ⟨hstamped, hhead, horigin⟩ := inv.stamped w request reply (by rw [hpc]; rfl)
    have hsuppose : Neutral k.server (k.server.supposeSend reply) := steady_supposeSend.toNeutral
    have hreply : (k.server.supposeSend reply).Stamped reply.head reply.origin := by
      rw [hhead, horigin]
      exact hstamped.aged hsuppose.aged
    have hneutral := hsuppose.trans (steady_msgSendInQueue hreply hs).toNeutral
    refine ⟨(inv.server_moves (hneutral.evolves inv.server)).goto (.inl rfl),
      iff_of_true ((valid.server_neutral hneutral).goto rfl) (hfree hpc nofun)⟩

/-- The invariant of the run, and the exactness of one step. -/
theorem step_valid (inv : Inv k) (valid : RepliesValid k) {action : Action n}
    (h : step k action = some k') : Inv k' ∧ (RepliesValid k' ↔ Spares k action) := by
  cases action with
  | loop action =>
      obtain ⟨s, hs, hk⟩ := Option.bind_eq_some_iff.mp h
      split at hk
      · obtain rfl := Option.some.inj hk
        exact ⟨inv.server_moves ((loopStep_moves inv.server hs).evolves inv.server),
          loop_valid inv valid hs⟩
      · cases hk
  | lock thread c =>
      simp only [step] at h
      split at h
      · obtain rfl := Option.some.inj h
        exact ⟨inv.setMutex _ _, iff_of_true valid trivial⟩
      · cases h
  | unlock thread c =>
      simp only [step] at h
      split at h
      · obtain rfl := Option.some.inj h
        exact ⟨inv.setMutex _ _, iff_of_true valid trivial⟩
      · cases h
  | take w now =>
      simp only [step] at h
      split at h
      next hpc =>
        obtain ⟨s, hneutral, hcases⟩ := take_cases inv h
        have hmoved := inv.server_moves (hneutral.evolves inv.server)
        have hvalid := valid.server_neutral hneutral
        rcases hcases with rfl | ⟨request, reply, rfl, hstamped⟩
        · exact ⟨hmoved, iff_of_true hvalid trivial⟩
        · refine ⟨⟨hmoved.server, fun v r a hv => ?_⟩, iff_of_true (hvalid.goto rfl) trivial⟩
          by_cases hvw : v = w
          · subst hvw
            simp only [Config.goto, Function.update_self] at hv
            obtain ⟨rfl, rfl⟩ := Prod.mk.inj (Option.some.inj hv)
            exact hstamped
          · simp only [Config.goto, Function.update_of_ne hvw] at hv
            exact hmoved.stamped v r a hv
      next => cases h
  | advance w => exact advance_valid inv valid h
  | sendEntry i env =>
      obtain ⟨s, hs, rfl⟩ := Option.map_eq_some_iff.mp h
      have hneutral := (Server.sendOne_steady inv.server hs).toNeutral
      exact ⟨inv.server_moves (hneutral.evolves inv.server),
        iff_of_true (valid.server_neutral hneutral) trivial⟩

/-- Whenever a handler executes `MsgSendInQueue` its connection is valid, if and only if
no connection is closed between the second test and that call. -/
theorem replies_valid (hstart : Starts boot k) :
    Throughout step RepliesValid k actions ↔ Along step Spares k actions := by
  obtain ⟨hserver, -, hworkers⟩ := hstart
  refine throughout_iff_along (I := Inv) (fun k a k' hi hp _ hs => (step_valid hi hp hs).1)
    (fun k a k' hi hp hs => (step_valid hi hp hs).2) ⟨hserver.inv, fun w r a hpc => ?_⟩
    fun w r hr => ?_
  · rw [hworkers] at hpc
    cases hpc
  · rw [hworkers] at hr
    cases hr

/-- The header of a request to register, with the checksum of a hundred zeros. -/
def registerHeader : List UInt8 := encodeHeader 108 cmdRegister 2575877834

/-- A client that is accepted on the descriptor 5 and asks to be registered; the worker 0
stands behind the second test of `_HandleRegister`. -/
def registering : List (Action 1) :=
  [.loop (.epollWait [(3, epollin)]),
    .loop (.handleEvent { accept := [.accepted 5], now := 100, later := 100 }),
    .loop (.epollWait [(5, epollin)]),
    .loop (.handleEvent { recv := .data registerHeader }),
    .loop (.epollWait [(5, epollin)]),
    .loop (.handleEvent { recv := .data (List.replicate 100 0) }),
    .take 0 110, .advance 0, .advance 0, .advance 0, .advance 0]

/-- The request is answered while the client stays. -/
theorem replies_valid_registered : ∃ k : Config 1, Starts .small k ∧
    Throughout step RepliesValid k (registering ++ [.advance 0]) := by
  have hrun : (Boot.small.state.epollEventInit [true]).map (fun s =>
      decide (Along step Spares (⟨s, fun _ => none, fun _ => .idle⟩ : Config 1)
        (registering ++ [.advance 0]))) = some true := by decide +kernel
  obtain ⟨s, hstart, hspares⟩ := Option.map_eq_some_iff.mp hrun
  exact ⟨_, ⟨⟨_, hstart⟩, rfl, rfl⟩,
    (replies_valid ⟨⟨_, hstart⟩, rfl, rfl⟩).mpr (of_decide_eq_true hspares)⟩

/-- The client resets its connection between the second test and `MsgSendInQueue`. -/
theorem reply_for_closed :
    ¬ ∀ (boot : Boot) (k : Config 1) (actions : List (Action 1)), Starts boot k →
      Throughout step RepliesValid k actions := by
  intro hclaim
  have hrun : (Boot.small.state.epollEventInit [true]).map (fun s =>
      (run step (⟨s, fun _ => none, fun _ => .idle⟩ : Config 1)
        (registering ++ [.loop (.epollWait [(5, epollin)]), .lock .eventLoop 1,
          .loop (.handleEvent { recv := .failed .econnreset }), .unlock .eventLoop 1])).map
        fun k => ((k.workers 0).answering.map fun request =>
          (k.server.conn request.head.lpCurconn).fd)) = some (some (some (-1))) := by
    decide +kernel
  obtain ⟨s, hstart, hlast⟩ := Option.map_eq_some_iff.mp hrun
  obtain ⟨k, hr, hpc⟩ := Option.map_eq_some_iff.mp hlast
  obtain ⟨request, hrequest, hfd⟩ := Option.map_eq_some_iff.mp hpc
  have hvalid : RepliesValid k := (hclaim _ _ _ ⟨⟨_, hstart⟩, rfl, rfl⟩).last hr
  exact (hvalid 0 request hrequest).1 hfd

end Handlers

end MyNginx
