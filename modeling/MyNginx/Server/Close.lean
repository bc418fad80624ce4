import MyNginx.Server.Steady

/-!
# Closing and recycling connections

`close_accepted_connection` retires an open object, in whichever thread it runs,
and the recycle thread returns delayed objects to the free queue: both are steps
of the object pool, and they keep the invariant of the server.
-/

namespace MyNginx

open Foundation

namespace State

variable {s s' t : State} {c d : ConnId} {env : Env}

theorem InFlight.aged (h : s.InFlight) (aged : Aged s s')
    (blocks : ∀ b msg, s'.messages.get b = some msg → s.messages.get b = some msg)
    (queue : s'.msgqueue = s.msgqueue) (replies : s'.sendMsgList = s.sendMsgList) :
    s'.InFlight where
  blocks b msg hb := (h.blocks b msg (blocks b msg hb)).aged aged
  queue msg hmsg := (h.queue msg (queue ▸ hmsg)).aged aged
  replies reply hreply := (h.replies reply (replies ▸ hreply)).aged aged

theorem TimerHeads.aged (h : s.TimerHeads) (aged : Aged s s') (map : s'.timermap = s.timermap)
    (timer : s'.timer = s.timer) : s'.TimerHeads := by
  have hused : ∀ c, s.Used c → s'.Used c := fun c hc => Nat.lt_of_lt_of_le hc (aged c).1
  refine ⟨fun entry hentry => hused _ (h.1 entry (map ▸ hentry)), fun head hhead => ?_⟩
  rw [timer] at hhead
  exact hused _ (h.2 head hhead)

theorem Inv.delayed_closed (inv : s.Inv) (h : c ∈ s.recyConnectionList) : (s.conn c).fd = -1 := by
  have hpos : 0 < s.view.delayed.count c := List.count_pos_iff.mpr h
  have hnone := inv.pool.handle_none (c := c) (by omega)
  simpa [view, handle] using hnone

/-- An open object in use is in no list of the pool. -/
theorem Inv.idle (inv : s.Inv) (used : s.Used c) (hfd : (s.conn c).fd ≠ -1) :
    (s.conn c).inrecyList = 0 ∧ c ∉ s.recyConnectionList :=
  ⟨inv.wired.idle c used hfd, fun hmem => hfd (inv.delayed_closed hmem)⟩

theorem Inv.not_free (inv : s.Inv) (hfd : (s.conn c).fd ≠ -1) : c ∉ s.freeConnectionList := by
  intro hfree
  have hcount : 0 < s.view.free.count c := List.count_pos_iff.mpr hfree
  have hnone := inv.pool.handle_none (c := c) (by omega)
  exact hfd (by simpa [view, handle] using hnone)

theorem Inv.closed (inv : s.Inv) (hfd : (s.conn c).fd = -1) :
    s.openFds (s.conn c).fd = false := by
  by_contra hopen
  have hnonneg := inv.wired.nonneg _ (by simpa using hopen)
  rw [hfd] at hnonneg
  exact absurd hnonneg (by decide)

theorem Inv.isOpen (inv : s.Inv) (used : s.Used c) (hfd : (s.conn c).fd ≠ -1) :
    s.view.IsOpen c := by
  refine ⟨(inv.wired.used c used).1, by simp [view, handle, hfd], fun hmem => ?_⟩
  exact (inv.wired.standby c hmem).2.1 used

/-- The registration that `EPOLL_CTL_DEL` removes would not survive `close` either. -/
theorem closeFd_epollDel (fd : Fd) (ok : Bool) :
    (s.epollOperEvent fd .del 0 0 c ok).1.closeFd fd = s.closeFd fd := by
  simp only [epollOperEvent, epollCtl, if_true]
  split
  next h =>
    split at h
    · obtain rfl := Option.some.inj h
      simp [closeFd]
    · cases h
  next => rfl

theorem openFds_epollDel (fd : Fd) (ok : Bool) :
    (s.epollOperEvent fd .del 0 0 c ok).1.openFds = s.openFds := by
  simp only [epollOperEvent, epollCtl, if_true]
  split
  next h =>
    split at h
    · obtain rfl := Option.some.inj h
      rfl
    · cases h
  next => rfl

/-- What `close_accepted_connection` leaves of an open connection. -/
def afterClose (s : State) (c : ConnId) (now : Time) : State :=
  ((s.closeFd (s.conn c).fd).retire c).enqueueRecy c now

/-- An open connection that is not in the recycle list is closed, unless the
timer thread has marked it and the caller is another thread. -/
theorem closeAcceptedConnection_cases {istimeoutClose : Bool}
    (idle : (s.conn c).fd ≠ -1 → (s.conn c).inrecyList = 0 ∧ c ∉ s.recyConnectionList)
    (h : s.closeAcceptedConnection c istimeoutClose env = some s') :
    s' = s ∧ ((s.conn c).fd = -1 ∨ istimeoutClose = false ∧ (s.conn c).istimeout = true) ∨
      (s.conn c).fd ≠ -1 ∧ s' = s.afterClose c env.now := by
  simp only [closeAcceptedConnection] at h
  split at h
  next hfd => exact .inl ⟨(Option.some.inj h).symm, .inl hfd⟩
  next hfd =>
  split at h
  next htimeout => exact .inl ⟨(Option.some.inj h).symm, .inr (by simpa using htimeout)⟩
  split at h
  · obtain rfl := Option.some.inj h
    obtain ⟨hrecy, hmem⟩ := idle hfd
    refine .inr ⟨hfd, ?_⟩
    rw [closeFd_epollDel, inRecyConnQueue, if_neg, if_neg]
    · rfl
    · simpa using hmem
    · simp [hrecy]
  · cases h

theorem view_afterClose (now : Time) : (s.afterClose c now).view = s.view.retire c := by
  have hhandle : (s.afterClose c now).handle = Function.update s.handle c none := by
    funext d
    by_cases hd : d = c <;> simp [handle, afterClose, hd]
  simp only [view, hhandle, ObjectPool.retire, standbys]
  rfl

theorem aged_afterClose (now : Time) : Aged s (s.afterClose c now) := by
  intro d
  refine ⟨Nat.le_refl _, fun _ => .inl ⟨?_, rfl⟩⟩
  by_cases hd : d = c <;> simp [afterClose, hd]

theorem wired_afterClose (inv : s.Inv) (used : s.Used c) (hfd : (s.conn c).fd ≠ -1) (now : Time) :
    (s.afterClose c now).Wired := by
  have hobject := (inv.wired.used c used).1
  have hsame : ∀ d, d ≠ c → (s.afterClose c now).conn d = s.conn d := fun d hd => by
    simp [afterClose, hd]
  have hclosed : ((s.afterClose c now).conn c).fd = -1 := by simp [afterClose]
  refine ⟨?_, inv.wired.events, ?_, ?_, ?_, ?_, ?_, ?_, ?_⟩
  · intro fd m d hm
    have hne : fd ≠ (s.conn c).fd := by
      rintro rfl
      simp [afterClose] at hm
    obtain ⟨hd, hrest⟩ := inv.wired.interest fd m d (by simpa [afterClose, hne] using hm)
    refine ⟨?_, hrest⟩
    rw [hsame d (by rintro rfl; exact hne hd.symm)]
    exact hd
  · intro pos hpos
    obtain ⟨d, hd, hfdpos⟩ := inv.wired.sockets pos hpos
    have hstandby : d ∈ s.standbys := List.mem_filterMap.mpr ⟨pos, hpos, hd⟩
    refine ⟨d, hd, ?_⟩
    rw [hsame d (by rintro rfl; exact (inv.wired.standby d hstandby).2.1 used)]
    exact hfdpos
  · intro d hd
    obtain ⟨hmem, hunused, hr⟩ := inv.wired.standby d hd
    rw [hsame d (by rintro rfl; exact hunused used)]
    exact ⟨hmem, hunused, hr⟩
  · intro d hd
    by_cases hdc : d = c
    · subst hdc
      simpa [afterClose] using inv.wired.used d hd
    · rw [hsame d hdc]
      exact inv.wired.used d hd
  · intro d hd hopen
    have hdc : d ≠ c := by
      rintro rfl
      exact hopen hclosed
    rw [hsame d hdc] at hopen ⊢
    exact inv.wired.idle d hd hopen
  · intro d hd hopen
    have hdc : d ≠ c := by
      rintro rfl
      exact hopen hclosed
    rw [hsame d hdc] at hopen ⊢
    have hne : (s.conn d).fd ≠ (s.conn c).fd := fun he =>
      hdc (inv.owner_unique hd hobject hopen rfl he.symm)
    simpa [afterClose, hne] using inv.wired.opened d hd hopen
  · intro fd hreg
    have hne : fd ≠ (s.conn c).fd := by
      rintro rfl
      simp [afterClose] at hreg
    simpa [afterClose, hne] using inv.wired.registered fd (by simpa [afterClose, hne] using hreg)
  · intro fd hopen
    have hne : fd ≠ (s.conn c).fd := by
      rintro rfl
      simp [afterClose] at hopen
    exact inv.wired.nonneg fd (by simpa [afterClose, hne] using hopen)

/-- Closing an open connection retires its object. -/
theorem afterClose_evolves (inv : s.Inv) (used : s.Used c) (hfd : (s.conn c).fd ≠ -1)
    (now : Time) : Evolves s (s.afterClose c now) := by
  have hstep : ObjectPool.Step s.conf.workerConnections s.view (s.afterClose c now).view := by
    rw [view_afterClose]
    exact .retire (inv.isOpen used hfd)
  have haged : Aged s (s.afterClose c now) := aged_afterClose now
  exact {
    inv := {
      pool := hstep.inv inv.pool
      wired := wired_afterClose inv used hfd now
      flight := inv.flight.aged haged (fun _ _ h => h) rfl rfl
      timers := inv.timers.aged haged rfl rfl }
    steps := .single hstep
    conf := rfl
    aged := haged
    sockets := rfl }

/-- The view behind the return of one delayed object. -/
theorem view_recycle (c : ConnId) (others : List ConnId) (count : Int) :
    State.view { s.recycle c others with recyConnectionCount := count } =
      { s.view.recycle c others with delayedCount := count } := by
  have hhandle : State.handle { s.recycle c others with recyConnectionCount := count } =
      s.handle := by
    funext d
    by_cases hd : d = c <;> simp [handle, recycle, hd]
  simp only [view, hhandle, ObjectPool.recycle, standbys]
  rfl

theorem conn_recycle (c : ConnId) (others : List ConnId) (d : ConnId) :
    ((s.recycle c others).conn d).fd = (s.conn d).fd ∧
      ((s.recycle c others).conn d).inrecyList = (s.conn d).inrecyList ∧
      ((s.recycle c others).conn d).rhandler = (s.conn d).rhandler ∧
      ((s.recycle c others).conn d).whandler = (s.conn d).whandler := by
  by_cases hd : d = c <;> simp [recycle, hd]

theorem aged_recycle (c : ConnId) (others : List ConnId) : Aged s (s.recycle c others) := by
  intro d
  refine ⟨Nat.le_refl _, fun _ => ?_⟩
  by_cases hd : d = c
  · refine .inr ?_
    simp [recycle, hd]
  · exact .inl ⟨by simp [recycle, hd], rfl⟩

/-- Returning a delayed object, whatever is done to the counter. -/
theorem recycle_evolves (inv : s.Inv) {c : ConnId} {others : List ConnId} {count : Int}
    (step : ObjectPool.Step s.conf.workerConnections s.view
      { s.view.recycle c others with delayedCount := count }) :
    Evolves s { s.recycle c others with recyConnectionCount := count } := by
  rw [← view_recycle] at step
  exact {
    inv := {
      pool := step.inv inv.pool
      wired := inv.wired.keep rfl rfl rfl rfl rfl (fun d => (conn_recycle c others d).1)
        (fun d => (conn_recycle c others d).2.1) (fun d => (conn_recycle c others d).2.2.1)
        (fun d => (conn_recycle c others d).2.2.2) fun _ m _ h => ⟨m, h, .inl rfl⟩
      flight := inv.flight.aged (aged_recycle c others) (fun _ _ h => get_withoutMsgrecv h) rfl rfl
      timers := inv.timers.aged (aged_recycle c others) rfl rfl }
    steps := .single step
    conf := rfl
    aged := aged_recycle c others
    sockets := rfl }

end State

end MyNginx
