import MyNginx.Foundation.Lock
import MyNginx.Sending.Invariant

/-!
# Who holds the mutex of the send queue

`MsgSendInQueue` returns with `m_sendmutex` still locked when it drops a reply, and so
does `SendMsgThreadFunc` when it finds a wrong length. As long as neither happens, the
mutex is held only by a thread inside one of these functions; the first time one of
them happens, it stays locked for good.
-/

namespace MyNginx

open Foundation

namespace State

variable {s s' : State} {env : Env}

/-- The element `i` of the list is sent in one piece, and its length is not the one
the connection expects. -/
def Mismatched (s : State) (i : Nat) (env : Env) : Prop :=
  match s.sendMsgList[i]? with
  | none => False
  | some reply =>
      (s.conn reply.head.lpCurconn).judgeOutdate reply.head.msgCursequence = true ∧
        (s.conn reply.head.lpCurconn).iThrowsendCount ≤ 0 ∧
        lastAnswer env = some (.sent (pkgLen reply.buf)) ∧
        pkgLen reply.buf ≠ (s.conn reply.head.lpCurconn).sendlenSuppose

instance (s : State) (i : Nat) (env : Env) : Decidable (s.Mismatched i env) := by
  unfold Mismatched
  split <;> infer_instance

/-- The `return` in the middle of a pass is taken for mismatched elements only. -/
theorem Entry.returned_iff {i : Nat} {reply : Reply} {next : SendNext} (inv : s.Inv)
    (hreply : s.sendMsgList[i]? = some reply)
    (h : Entry s i reply reply.head.lpCurconn env s' next) :
    next = .returned ↔ s.Mismatched i env := by
  have hused := (inv.flight.replies reply (List.mem_of_getElem? hreply)).1
  simp only [Mismatched, hreply]
  cases h with
  | discarded outdated sends =>
      refine ⟨nofun, fun hm => ?_⟩
      rw [hm.1] at outdated
      cases outdated
  | skipped current busy same =>
      exact ⟨nofun, fun hm => absurd busy (Int.not_lt.mpr hm.2.1)⟩
  | failed current idle fails sends =>
      refine ⟨nofun, fun hm => ?_⟩
      have hanswer := hm.2.2.1
      rcases fails with hclosed | hzero | ⟨errno, hfailed, -⟩
      · have hopen := inv.wired.opened _ (inv.wired.used _ hused).1
          (Connection.fd_ne_of_judgeOutdate current)
        rw [hclosed] at hopen
        cases hopen
      · rw [hanswer] at hzero
        cases hzero
      · rw [hanswer] at hfailed
        cases hfailed
  | part current idle lt puts sends =>
      refine ⟨nofun, fun hm => ?_⟩
      have hanswer := hm.2.2.1
      rcases puts with ⟨hagain, -, -⟩ | ⟨p, hsent, -, -, -⟩
      · rw [hanswer] at hagain
        cases hagain
      · rw [hanswer] at hsent
        injection Option.some.inj hsent with hn
        omega
  | mismatch current idle puts differs sends =>
      refine ⟨fun _ => ⟨current, idle, ?_, differs⟩, fun _ => rfl⟩
      rcases puts with ⟨-, hzero, -⟩ | ⟨p, hsent, -, -, -⟩
      · have hpos := reply.header_le
        simp only [pkgHeaderLen] at hpos
        omega
      · exact hsent
  | finished current idle puts equal sends =>
      exact ⟨nofun, fun hm => absurd equal hm.2.2.2⟩

/-- Handling an element leaves the mutex as it is. -/
theorem Entry.sendmutex {i : Nat} {reply : Reply} {c : ConnId} {next : SendNext}
    (h : Entry s i reply c env s' next) : s'.sendmutex = s.sendmutex := by
  rcases h.sendQueue with ⟨-, hqueue⟩ | ⟨-, rfl | hqueue⟩
  · rw [hqueue]
    rfl
  · rfl
  · rw [hqueue]
    rfl

end State

namespace Sending

open State

variable {n : Nat} {boot : Boot} {k k' : Config n} {action : Action n}

/-- The thread is between a lock and an unlock of the send queue. -/
def Config.Inside (k : Config n) : Thread → Prop
  | .worker w => ∃ v : Fin n, v.val = w ∧ (k.workers v).holds = true
  | .sender => k.sender.holds = true

instance (k : Config n) : DecidablePred k.Inside
  | .worker w => inferInstanceAs (Decidable (∃ v : Fin n, v.val = w ∧ (k.workers v).holds = true))
  | .sender => inferInstanceAs (Decidable (k.sender.holds = true))

/-- The mutex is free, or held by a thread inside. -/
def Config.Released (k : Config n) : Prop :=
  ∀ thread, k.server.sendmutex = some thread → k.Inside thread

instance : DecidablePred (Config.Released (n := n)) := fun k =>
  match h : k.server.sendmutex with
  | none => isTrue fun thread ht => by rw [h] at ht; cases ht
  | some thread => decidable_of_iff (k.Inside thread)
      ⟨fun hin other ht => Option.some.inj (h.symm.trans ht) ▸ hin, fun hall => hall thread h⟩

/-- No call of `MsgSendInQueue` exceeds a limit, and no element is mismatched. -/
def Lossless (k : Config n) : Action n → Prop
  | .advance w =>
      match k.workers w with
      | .locked reply => k.server.overloaded reply = false
      | _ => True
  | .send env =>
      match k.sender with
      | .scanning i => ¬ k.server.Mismatched i env
      | _ => True
  | _ => True

instance : DecidableRel (Lossless (n := n)) := fun k action => by
  unfold Lossless
  split
  · split <;> infer_instance
  · split <;> infer_instance
  · infer_instance

/-- A worker that moves stays outside, or stays inside. -/
theorem inside_update {w : Fin n} {pc : WorkerPc} {s : State}
    (holds : pc.holds = (k.workers w).holds) (thread : Thread) :
    Config.Inside { k with server := s, workers := Function.update k.workers w pc } thread ↔
      k.Inside thread := by
  cases thread with
  | sender => exact Iff.rfl
  | worker u =>
      have hsame : ∀ v, (Function.update k.workers w pc v).holds = (k.workers v).holds := by
        intro v
        by_cases hv : v = w
        · rw [hv, Function.update_self, holds]
        · rw [Function.update_of_ne hv]
      simp only [Config.Inside, hsame]

/-- A worker that enters. -/
theorem inside_enter {w : Fin n} {pc : WorkerPc} {s : State} (holds : pc.holds = true)
    (thread : Thread) :
    Config.Inside { k with server := s, workers := Function.update k.workers w pc } thread ↔
      thread = .worker w ∨ k.Inside thread := by
  cases thread with
  | sender => simp [Config.Inside]
  | worker u =>
      simp only [Config.Inside, Thread.worker.injEq]
      constructor
      · rintro ⟨v, rfl, hv⟩
        by_cases hvw : v = w
        · exact .inl (by rw [hvw])
        · rw [Function.update_of_ne hvw] at hv
          exact .inr ⟨v, rfl, hv⟩
      · rintro (rfl | ⟨v, rfl, hv⟩)
        · exact ⟨w, rfl, by rw [Function.update_self, holds]⟩
        · refine ⟨v, rfl, ?_⟩
          by_cases hvw : v = w
          · rw [hvw, Function.update_self, holds]
          · rw [Function.update_of_ne hvw, hv]

/-- A worker that leaves. -/
theorem inside_leave {w : Fin n} {pc : WorkerPc} {s : State} (holds : pc.holds = false)
    (thread : Thread) :
    Config.Inside { k with server := s, workers := Function.update k.workers w pc } thread ↔
      k.Inside thread ∧ thread ≠ .worker w := by
  cases thread with
  | sender => simp [Config.Inside]
  | worker u =>
      simp only [Config.Inside, ne_eq, Thread.worker.injEq]
      constructor
      · rintro ⟨v, rfl, hv⟩
        have hvw : v ≠ w := by
          rintro rfl
          rw [Function.update_self, holds] at hv
          cases hv
        rw [Function.update_of_ne hvw] at hv
        exact ⟨⟨v, rfl, hv⟩, fun h => hvw (Fin.ext h)⟩
      · rintro ⟨⟨v, rfl, hv⟩, hne⟩
        refine ⟨v, rfl, ?_⟩
        rw [Function.update_of_ne fun h => hne (congrArg Fin.val h), hv]

/-- The mutex of a configuration is a lock around the threads inside. -/
abbrev Config.Locked (k : Config n) : Prop := Guards k.server.sendmutex k.Inside

theorem handled_locked (locked : k.Locked) {w : Fin n} {s' : State} {r : Option Reply}
    (idle : k.workers w = .idle) (handles : Handles k.server r s') :
    (k.handled w (s', r)).Locked := by
  have hmutex : s'.sendmutex = k.server.sendmutex := by rw [handles.queue]
  have hinside : ∀ thread, (k.handled w (s', r)).Inside thread ↔ k.Inside thread := by
    intro thread
    cases r with
    | none => exact Iff.rfl
    | some reply => exact inside_update (by rw [idle]; rfl) thread
  rw [Config.Locked, handled_server, hmutex]
  exact locked.congr hinside

/-- A statement of `MsgSendInQueue` keeps the lock, unless it drops a reply. -/
theorem advance_locked (locked : k.Locked) {w : Fin n} {s' : State} {pc : WorkerPc}
    (h : k.server.msgSendStep (.worker w) (k.workers w) = some (s', pc))
    (room : ∀ reply, k.workers w = .locked reply → k.server.overloaded reply = false) :
    Config.Locked { k with server := s', workers := Function.update k.workers w pc } := by
  cases hpc : k.workers w with
  | idle => simp [hpc, msgSendStep] at h
  | entering reply =>
      rw [hpc] at h
      simp only [msgSendStep] at h
      split at h
      next hfree =>
        obtain ⟨rfl, rfl⟩ := Prod.mk.inj (Option.some.inj h)
        rw [Config.Locked, hfree] at locked
        exact locked.acquire (inside_enter rfl)
      next => cases h
  | locked reply =>
      rw [hpc] at h
      simp only [msgSendStep, room reply hpc, Bool.false_eq_true, if_false] at h
      obtain ⟨rfl, rfl⟩ := Prod.mk.inj (Option.some.inj h)
      exact locked.congr (inside_update (by rw [hpc]; rfl))
  | pushed reply =>
      rw [hpc] at h
      obtain ⟨rfl, rfl⟩ := Prod.mk.inj (Option.some.inj h)
      exact locked.release (t := .worker w) ⟨w, rfl, by rw [hpc]; rfl⟩ (inside_leave rfl)
  | unlocked reply =>
      rw [hpc] at h
      obtain ⟨rfl, rfl⟩ := Prod.mk.inj (Option.some.inj h)
      exact locked.congr (inside_update (by rw [hpc]; rfl))
  | counted =>
      rw [hpc] at h
      obtain ⟨rfl, rfl⟩ := Prod.mk.inj (Option.some.inj h)
      exact locked.congr (inside_update (by rw [hpc]; rfl))
  | posting =>
      rw [hpc] at h
      obtain ⟨rfl, rfl⟩ := Prod.mk.inj (Option.some.inj h)
      exact locked.congr (inside_update (by rw [hpc]; rfl))

/-- A call that drops its reply returns with the mutex. -/
theorem advance_leaks (locked : k.Locked) {w : Fin n} {s' : State} {pc : WorkerPc} {reply : Reply}
    (h : k.server.msgSendStep (.worker w) (k.workers w) = some (s', pc))
    (hpc : k.workers w = .locked reply) (full : k.server.overloaded reply = true) :
    ¬ Config.Released { k with server := s', workers := Function.update k.workers w pc } := by
  rw [hpc] at h
  simp only [msgSendStep, full, if_true] at h
  obtain ⟨rfl, rfl⟩ := Prod.mk.inj (Option.some.inj h)
  refine locked.leak (t := .worker w) ⟨w, rfl, by rw [hpc]; rfl⟩ fun hinside => ?_
  exact ((inside_leave rfl _).mp hinside).2 rfl

/-- A send thread that stays outside, or stays in its pass. -/
theorem inside_sender_same {s : State} {pc : SenderPc}
    (same : pc.holds = k.sender.holds) (thread : Thread) :
    Config.Inside { k with server := s, sender := pc } thread ↔ k.Inside thread := by
  cases thread with
  | sender => simp only [Config.Inside, same]
  | worker w => exact Iff.rfl

/-- A statement of `SendMsgThreadFunc` keeps the lock, unless it returns in a pass. -/
theorem sender_locked (inv : k.Inv) (locked : k.Locked) {env : Env} {s' : State} {pc : SenderPc}
    (h : k.server.senderStep env k.sender = some (s', pc))
    (ok : ∀ i, k.sender = .scanning i → ¬ k.server.Mismatched i env) :
    Config.Locked { k with server := s', sender := pc } := by
  cases hpc : k.sender with
  | looping =>
      rw [hpc] at h
      obtain ⟨rfl, rfl⟩ := Prod.mk.inj (Option.some.inj h)
      refine locked.congr (inside_sender_same ?_)
      rw [hpc]
      split <;> rfl
  | waiting =>
      rw [hpc] at h
      simp only [senderStep] at h
      split at h
      · cases h
      · obtain ⟨rfl, rfl⟩ := Prod.mk.inj (Option.some.inj h)
        exact locked.congr (inside_sender_same (by rw [hpc]; rfl))
  | woken =>
      rw [hpc] at h
      simp only [senderStep] at h
      split at h
      · obtain ⟨rfl, rfl⟩ := Prod.mk.inj (Option.some.inj h)
        exact locked.congr (inside_sender_same (by rw [hpc]; rfl))
      · obtain ⟨rfl, rfl⟩ := Prod.mk.inj (Option.some.inj h)
        refine locked.congr (inside_sender_same ?_)
        rw [hpc]
        split <;> rfl
  | locking =>
      rw [hpc] at h
      simp only [senderStep] at h
      split at h
      next hfree =>
        obtain ⟨rfl, rfl⟩ := Prod.mk.inj (Option.some.inj h)
        rw [Config.Locked, hfree] at locked
        refine locked.acquire (t := .sender) fun thread => ?_
        cases thread with
        | sender => simp [Config.Inside, SenderPc.holds]
        | worker w => simp [Config.Inside]
      next => cases h
  | scanning i =>
      rw [hpc] at h
      simp only [senderStep] at h
      split at h
      · obtain ⟨⟨t, next⟩, hsend, heq⟩ := Option.map_eq_some_iff.mp h
        obtain ⟨reply, hreply, hentry⟩ := sendEntry_entry inv.server hsend
        have hgoes : next ≠ .returned := fun hreturned =>
          ok i hpc ((hentry.returned_iff inv.server hreply).mp hreturned)
        cases next with
        | erased | skipped =>
            obtain ⟨rfl, rfl⟩ := Prod.mk.inj heq
            rw [Config.Locked, hentry.sendmutex]
            exact locked.congr (inside_sender_same (by simp [hpc, SenderPc.holds]))
        | returned => exact absurd rfl hgoes
      · obtain ⟨rfl, rfl⟩ := Prod.mk.inj (Option.some.inj h)
        refine locked.release (t := .sender) (by rw [Config.Inside, hpc]; rfl) fun thread => ?_
        cases thread with
        | sender => simp [Config.Inside, SenderPc.holds]
        | worker w => simp [Config.Inside]
  | stopped => simp [hpc, senderStep] at h
  | returned => simp [hpc, senderStep] at h

/-- The `return` in a pass leaves the mutex locked. -/
theorem sender_leaks (inv : k.Inv) (locked : k.Locked) {env : Env} {s' : State} {pc : SenderPc}
    {i : Nat} (h : k.server.senderStep env k.sender = some (s', pc))
    (hpc : k.sender = .scanning i) (wrong : k.server.Mismatched i env) :
    ¬ Config.Released { k with server := s', sender := pc } := by
  have hlt : i < k.server.sendMsgList.length := by
    by_contra hle
    rw [Mismatched, List.getElem?_eq_none (Nat.not_lt.mp hle)] at wrong
    exact wrong
  rw [hpc] at h
  simp only [senderStep, if_pos hlt] at h
  obtain ⟨⟨t, next⟩, hsend, heq⟩ := Option.map_eq_some_iff.mp h
  obtain ⟨reply, hreply, hentry⟩ := sendEntry_entry inv.server hsend
  obtain rfl := (hentry.returned_iff inv.server hreply).mpr wrong
  obtain ⟨rfl, rfl⟩ := Prod.mk.inj heq
  rw [Config.Released, hentry.sendmutex]
  refine locked.leak (t := .sender) ?_ fun hinside => by cases hinside
  rw [Config.Inside, hpc]
  rfl

/-- A step that loses no mutex keeps the lock. -/
theorem Does.locked (h : Does k action k') (inv : k.Inv) (locked : k.Locked)
    (lossless : Lossless k action) : k'.Locked := by
  cases h with
  | loop moves =>
      obtain ⟨sendsem, hqueue⟩ := moves_queue moves inv.server inv.cleared
      rw [Config.Locked, congrArg SendQueue.sendmutex hqueue]
      exact locked.congr fun thread => by cases thread <;> exact Iff.rfl
  | take idle handles makes => exact handled_locked locked idle handles
  | call idle handles => exact handled_locked locked idle handles
  | advance advances =>
      refine advance_locked locked advances fun reply hpc => ?_
      rwa [Lossless, hpc] at lossless
  | send sends =>
      refine sender_locked inv locked sends fun i hpc => ?_
      rwa [Lossless, hpc] at lossless
  | interrupt waiting => exact locked.congr (inside_sender_same (by rw [waiting]; rfl))

/-- A step that loses the mutex leaves it locked, with nobody inside. -/
theorem Does.leaks (h : Does k action k') (inv : k.Inv) (locked : k.Locked)
    (lossy : ¬ Lossless k action) : ¬ k'.Released := by
  cases h with
  | loop moves => exact absurd trivial lossy
  | take idle handles makes => exact absurd trivial lossy
  | call idle handles => exact absurd trivial lossy
  | advance advances =>
      simp only [Lossless] at lossy
      split at lossy
      next reply hpc => exact advance_leaks locked advances hpc (by simpa using lossy)
      next => exact absurd trivial lossy
  | send sends =>
      simp only [Lossless] at lossy
      split at lossy
      next i hpc => exact sender_leaks inv locked sends hpc (not_not.mp lossy)
      next => exact absurd trivial lossy
  | interrupt waiting => exact absurd trivial lossy

/-- In a call of `MsgSendInQueue` that drops its reply, only the mutex changes. -/
def Dropping (k : Config n) : Action n → Prop
  | .advance w =>
      ∀ k' reply, step k (.advance w) = some k' →
        k.workers w = .entering reply ∨
          k.workers w = .locked reply ∧ k.server.overloaded reply = true →
        k'.server = { k.server with sendmutex := k'.server.sendmutex }
  | _ => True

theorem dropping (k : Config n) (action : Action n) : Dropping k action := by
  cases action with
  | advance w =>
      rintro k' reply h hplace
      obtain ⟨⟨s', pc⟩, hs, rfl⟩ := Option.map_eq_some_iff.mp h
      rcases hplace with hpc | ⟨hpc, hfull⟩
      · rw [hpc] at hs
        simp only [msgSendStep] at hs
        split at hs
        · obtain ⟨rfl, rfl⟩ := Prod.mk.inj (Option.some.inj hs)
          rfl
        · cases hs
      · rw [hpc] at hs
        simp only [msgSendStep, hfull, if_true] at hs
        obtain ⟨rfl, rfl⟩ := Prod.mk.inj (Option.some.inj hs)
        rfl
  | loop | take | call | send | interrupt => trivial

/-- From any state of the counters: the mutex is never held by a thread that is not
inside, precisely if no call drops its reply and no pass meets a mismatched element. A
call that drops its reply changes nothing but the mutex. -/
theorem released_iff_lossless (inv : k.Inv) (locked : k.Locked) {actions : List (Action n)} :
    (Throughout step Config.Released k actions ↔ Along step Lossless k actions) ∧
      Along step Dropping k actions := by
  constructor
  · refine throughout_iff_along (I := fun k => k.Inv ∧ k.Locked) ?_ ?_ ⟨inv, locked⟩
      fun thread => (locked thread).mp
    · intro k action k' ⟨inv, locked⟩ _ lossless hs
      exact ⟨step_inv inv hs, (step_does inv hs).locked inv locked lossless⟩
    · intro k action k' ⟨inv, locked⟩ _ hs
      refine ⟨fun released => ?_, fun lossless thread => ?_⟩
      · by_contra lossy
        exact (step_does inv hs).leaks inv locked lossy released
      · exact ((step_does inv hs).locked inv locked lossless thread).mp
  · exact along_of_along (I := fun _ => True) (C := fun _ _ => True) (fun _ _ _ _ _ _ => trivial)
      (fun k action _ _ _ _ => dropping k action) trivial
      (along_of_forall fun _ _ => trivial)

theorem Starts.locked (h : Starts boot k) : k.Locked := by
  obtain ⟨⟨all, htaking⟩, -⟩ := h.1.spec
  have hmutex : k.server.sendmutex = none := congrArg SendQueue.sendmutex htaking.sends
  have hinside : ∀ thread, ¬ k.Inside thread := by
    intro thread
    cases thread with
    | worker w => simp [Config.Inside, h.2.1, WorkerPc.holds]
    | sender => simp [Config.Inside, h.2.2, SenderPc.holds]
  intro thread
  rw [hmutex]
  exact ⟨by simp, fun hin => absurd hin (hinside thread)⟩

/-- The send thread sends one reply, and the mutex is free at every moment at which
nobody is inside. -/
theorem released_iff_lossless_sent : ∃ k : Config 1, Starts Boot.small k ∧
    Throughout step Config.Released k (acceptOn 5 100 ++ requestOn 0 pingPacket ++ enqueueBy 0 ++
      List.replicate 6 (.send { send := [.sent 8] })) := by
  have hrun : (Boot.small.state.epollEventInit [true]).map (fun s =>
      decide (Along step Lossless (⟨s, fun _ => .idle, .looping⟩ : Config 1)
        (acceptOn 5 100 ++ requestOn 0 pingPacket ++ enqueueBy 0 ++
          List.replicate 6 (.send { send := [.sent 8] })))) = some true := by decide +kernel
  obtain ⟨s, hstart, hlossless⟩ := Option.map_eq_some_iff.mp hrun
  have hstarts : Starts Boot.small (⟨s, fun _ => .idle, .looping⟩ : Config 1) :=
    ⟨⟨_, hstart⟩, rfl, rfl⟩
  exact ⟨_, hstarts, (released_iff_lossless hstarts.inv hstarts.locked).1.mpr
    (of_decide_eq_true hlossless)⟩

set_option maxRecDepth 20000 in
/-- While the send thread does not run, a client makes 402 requests: the last reply is
dropped, and the mutex is locked although nobody is inside. -/
theorem mutex_lost : ¬ ∀ (n : Nat) (boot : Boot) (k k' : Config n) (actions : List (Action n)),
    Starts boot k → run step k actions = some k' → (∀ w, k'.workers w = .idle) →
      k'.sender.holds = false → k'.server.sendmutex = none := by
  intro hclaim
  have hrun : (launch (n := 1) Boot.small [true] (acceptOn 5 100 ++
      (List.replicate 401 (requestOn 0 pingPacket ++ enqueueBy 0)).flatten ++
      requestOn 0 pingPacket ++ [.advance 0, .advance 0])).map (fun k =>
        (k.workers 0, k.sender, k.server.sendmutex)) =
      some (.idle, .looping, some (.worker 0)) := by decide +kernel
  obtain ⟨k', hlaunch, heq⟩ := Option.map_eq_some_iff.mp hrun
  obtain ⟨k, hstarts, hr⟩ := starts_of_launch hlaunch
  simp only [Prod.mk.injEq] at heq
  have hfree := hclaim 1 _ k k' _ hstarts hr (fun w => by rw [Fin.fin_one_eq_zero w, heq.1])
    (by rw [heq.2.1]; rfl)
  rw [heq.2.2] at hfree
  cases hfree

end Sending

end MyNginx
