import MyNginx.Server.Partition

/-!
# The descriptors of a worker process

Every descriptor that is open belongs to exactly one connection object, a standby
connection or a client, and every such object has an open descriptor: none is leaked and
none is closed under its owner. The process has one for each listening socket and one for
each client, and so never more than the configuration allows.
-/

namespace MyNginx

open Foundation

namespace State

variable {s s' t : State} {c d : ConnId} {env : Env} {fd connfd : Fd}

/-- No descriptor is open without an owner, and the listening sockets are open. -/
structure Held (s : State) : Prop where
  owned : ∀ fd, s.openFds fd = true → ∃ c ∈ s.connectionList, (s.conn c).fd = fd
  listening : ∀ pos ∈ s.listenSocketList, 0 ≤ pos.fd

theorem Held.neutral (h : s.Held) (hs : Neutral s s') : s'.Held where
  owned fd hopen := by
    rw [hs.openFds] at hopen
    obtain ⟨c, hc, hfd⟩ := h.owned fd hopen
    exact ⟨c, hs.connectionList_eq ▸ hc, (link_eq (hs.link c)).1.trans hfd⟩
  listening pos hpos := h.listening pos (hs.sockets ▸ hpos)

/-- The descriptor of a closed connection is closed with it. -/
theorem Held.afterClose (h : s.Held) (now : Time) : (s.afterClose c now).Held where
  owned fd hopen := by
    have hne : fd ≠ (s.conn c).fd := by
      rintro rfl
      simp [State.afterClose] at hopen
    obtain ⟨d, hd, hfd⟩ := h.owned fd (by simpa [State.afterClose, hne] using hopen)
    have hdc : d ≠ c := fun he => hne (he ▸ hfd.symm)
    exact ⟨d, hd, by simpa [State.afterClose, hdc] using hfd⟩
  listening := h.listening

/-- The descriptor of a new use belongs to its object. -/
theorem Held.begun (h : s.Held) (hs : Begun s c s')
    (idle : c ∈ s.connectionList → (s.conn c).fd = -1) (inv : s.Inv) : s'.Held where
  owned fd hopen := by
    rcases (hs.openFds fd).mp hopen with hold | ⟨rfl, -⟩
    · obtain ⟨d, hd, hfd⟩ := h.owned fd hold
      have hdc : d ≠ c := by
        rintro rfl
        have hnonneg := inv.wired.nonneg fd hold
        rw [← hfd, idle hd] at hnonneg
        exact absurd hnonneg (by decide)
      exact ⟨d, (hs.objects d).mpr (.inr hd), by rw [hs.other d hdc, hfd]⟩
    · exact ⟨c, (hs.objects c).mpr (.inl rfl), rfl⟩
  listening pos hpos := h.listening pos (hs.sockets ▸ hpos)

theorem Held.admits (h : s.Held) (inv : s.Inv) (nonneg : 0 ≤ connfd)
    (fresh : s.openFds connfd = false) (hs : Admits s connfd env s') : s'.Held := by
  cases hs with
  | refused => exact h
  | @opened t w c taken room timer =>
      have hbegun := begun_registered (epollin ||| epollrdhup) env.now inv nonneg taken.takes
      have hheld : w.Held := by
        rcases timer with ⟨-, rfl⟩ | ⟨-, rfl⟩
        · exact h.begun hbegun taken.idle inv
        · exact h.begun (hbegun.addToTimerQueue env.later) taken.idle inv
      exact ⟨hheld.owned, hheld.listening⟩
  | rejected taken => exact h.begun (begun_rejected _ _ inv fresh taken.takes) taken.idle inv

theorem Held.move (h : s.Held) (inv : s.Inv) (hs : Move env s s') : s'.Held := by
  cases hs with
  | quiet hquiet => exact h.neutral hquiet.toNeutral
  | mark timer current silent => exact h.neutral (Checks.mark timer current silent).neutral
  | report ok => exact ⟨h.owned, h.listening⟩
  | stop => exact ⟨h.owned, h.listening⟩
  | hangup gone => exact h.neutral neutral_hangup
  | close used opened counted =>
      rcases counted with rfl | rfl
      · exact h.afterClose _
      · exact (h.neutral neutral_hangup).afterClose _
  | @recycle c front back count list counted =>
      refine ⟨fun fd hopen => ?_, h.listening⟩
      obtain ⟨d, hd, hfd⟩ := h.owned fd hopen
      exact ⟨d, hd, (conn_recycle c (front ++ back) d).1.trans hfd⟩
  | admits nonneg fresh hadmits => exact h.admits inv nonneg fresh hadmits
  | write used hwrites => exact h.neutral hwrites.steady.toNeutral

theorem Held.moves (h : s.Held) (inv : s.Inv) (hs : Moves env s s') : s'.Held := by
  induction hs with
  | refl => exact h
  | tail hmoves hmove ih => exact ih.move (Moves.evolves hmoves inv).inv hmove

/-- The descriptors of the standby connections and of the clients. -/
def descriptors (s : State) : List Fd :=
  (s.standbys ++ s.connectionList.filter fun c => s.Client c).map fun c => (s.conn c).fd

/-- A standby connection is open on its listening socket. -/
theorem Held.standby (h : s.Held) (inv : s.Inv) (hc : c ∈ s.standbys) : (s.conn c).fd ≠ -1 := by
  obtain ⟨pos, hpos, hposc⟩ := mem_standbys.mp hc
  obtain ⟨d, hd, hfd⟩ := inv.wired.sockets pos hpos
  obtain rfl := Option.some.inj (hposc.symm.trans hd)
  have hnonneg := h.listening pos hpos
  intro he
  rw [← hfd, he] at hnonneg
  exact absurd hnonneg (by decide)

/-- An open descriptor has its owner in `descriptors`. -/
theorem Held.mem_descriptors (h : s.Held) (inv : s.Inv) :
    s.openFds fd = true ↔ fd ∈ s.descriptors := by
  constructor
  · intro hopen
    obtain ⟨c, hc, rfl⟩ := h.owned fd hopen
    refine List.mem_map.mpr ⟨c, List.mem_append.mpr ?_, rfl⟩
    by_cases hstandby : c ∈ s.standbys
    · exact .inl hstandby
    · refine .inr (List.mem_filter.mpr ⟨hc, decide_eq_true ((inv.isOpen_iff hc).mp ?_)⟩)
      have hne : (s.conn c).fd ≠ -1 := fun he => by
        rw [inv.closed he] at hopen
        cases hopen
      exact ⟨hc, by simpa [view, handle] using hne, hstandby⟩
  · intro hmem
    obtain ⟨c, hc, rfl⟩ := List.mem_map.mp hmem
    rcases List.mem_append.mp hc with hstandby | hclient
    · exact inv.wired.opened c (inv.wired.standby c hstandby).1 (h.standby inv hstandby)
    · exact (of_decide_eq_true (List.mem_filter.mp hclient).2).2.1

/-- No two of them are equal. -/
theorem Held.nodup_descriptors (h : s.Held) (inv : s.Inv) : s.descriptors.Nodup := by
  have hone : ∀ c, s.standbys.count c ≤ 1 := fun c => by
    have hbal := inv.pool.balanced c
    have hle := inv.pool.count_le c
    have hcount : s.view.reserved.count c = s.standbys.count c := rfl
    omega
  have hmem : ∀ c ∈ s.standbys ++ s.connectionList.filter fun c => s.Client c,
      c ∈ s.connectionList ∧ (s.conn c).fd ≠ -1 := fun c hc => by
    rcases List.mem_append.mp hc with hstandby | hclient
    · exact ⟨(inv.wired.standby c hstandby).1, h.standby inv hstandby⟩
    · obtain ⟨hobject, hclient⟩ := List.mem_filter.mp hclient
      exact ⟨hobject, (of_decide_eq_true hclient).1⟩
  have hnodup : (s.standbys ++ s.connectionList.filter fun c => s.Client c).Nodup := by
    refine List.nodup_append.mpr ⟨List.nodup_iff_count_le_one.mpr hone,
      inv.pool.nodup.filter _, fun c hc d hd hcd => ?_⟩
    subst hcd
    obtain ⟨hobject, hclient⟩ := List.mem_filter.mp hd
    exact ((inv.isOpen_iff hobject).mpr (of_decide_eq_true hclient)).2.2 hc
  refine hnodup.map_on fun c hc d hd hfd => ?_
  exact inv.owner_unique (hmem c hc).1 (hmem d hd).1 (hmem c hc).2 rfl hfd.symm

theorem Inv.length_standbys (inv : s.Inv) : s.standbys.length = s.listenSocketList.length := by
  rw [standbys, List.length_filterMap_eq_countP, List.countP_eq_length]
  intro pos hpos
  obtain ⟨c, hc, -⟩ := inv.wired.sockets pos hpos
  rw [hc]
  rfl

/-- There are as many as listening sockets and clients. -/
theorem Inv.length_descriptors (inv : s.Inv) :
    (s.descriptors.length : Int) = s.listenSocketList.length + s.onlineCount := by
  rw [descriptors, List.length_map, List.length_append, inv.length_standbys, inv.onlineCount_eq,
    List.countP_eq_length_filter]
  rfl

end State

namespace Boot

open State

variable {boot : Boot} {s s' : State}

/-- The loop over the listening sockets opens and closes nothing. -/
theorem listenLoop_kernel {ready rest : List Listening} {oks : List Bool}
    (sockets : s.listenSocketList = ready ++ rest) (hs : s.listenLoop ready rest oks = some s') :
    s'.openFds = s.openFds ∧
      s'.listenSocketList.map Listening.fd = s.listenSocketList.map Listening.fd := by
  induction rest generalizing s ready oks with
  | nil =>
      obtain rfl := Option.some.inj hs
      exact ⟨rfl, rfl⟩
  | cons pos rest ih =>
      cases oks with
      | nil => cases hs
      | cons ok oks =>
          cases hget : s.getConnectionItem with
          | mk t c =>
              have hkernel : t.openFds = s.openFds := by
                simp only [getConnectionItem] at hget
                split at hget
                · obtain ⟨rfl, -⟩ := Prod.mk.inj hget
                  rfl
                · obtain ⟨rfl, -⟩ := Prod.mk.inj hget
                  rfl
              simp only [listenLoop, hget] at hs
              cases hctl : ({ t.modifyConn c fun conn =>
                  { conn with fd := pos.fd, rhandler := some .accept } with
                listenSocketList :=
                  ready ++ [{ pos with pConnitem := some c }] ++ rest } : State).epollOperEvent
                  pos.fd .add (epollin ||| epollrdhup) 0 c ok with
              | mk u r =>
                  rw [hctl] at hs
                  rcases epollAdd_cases hctl with ⟨rfl, -, -, rfl⟩ | ⟨rfl, rfl⟩
                  · obtain ⟨hfds, hlist⟩ := ih (by simp) hs
                    refine ⟨hfds.trans hkernel, hlist.trans ?_⟩
                    simp [sockets]
                  · cases hs

/-- The listening sockets are those of the master process, and nothing else is open. -/
theorem Starts.kernel (h : boot.Starts s) :
    (∀ fd, s.openFds fd = true ↔ fd ∈ boot.listenFds) ∧
      s.listenSocketList.map Listening.fd = boot.listenFds := by
  obtain ⟨ctl, hs⟩ := h
  simp only [epollEventInit] at hs
  split at hs
  · cases hs
  next hcount =>
    obtain ⟨n, hn⟩ := Int.eq_ofNat_of_zero_le (Int.le_of_lt (Int.not_le.mp hcount))
    obtain ⟨conn, hinit, -⟩ := connectpoolInit_filled boot hn
    rw [hinit] at hs
    obtain ⟨hfds, hlist⟩ := listenLoop_kernel (List.nil_append _).symm hs
    rw [hfds, hlist]
    simp [filled, created, state, Function.comp_def]

theorem Starts.held (h : boot.Starts s) : s.Held := by
  obtain ⟨hfds, hlist⟩ := h.kernel
  refine ⟨fun fd hopen => ?_, fun pos hpos => ?_⟩
  · have hfd : fd ∈ s.listenSocketList.map Listening.fd := hlist ▸ (hfds fd).mp hopen
    obtain ⟨pos, hpos, rfl⟩ := List.mem_map.mp hfd
    obtain ⟨c, hc, hposfd⟩ := h.inv.wired.sockets pos hpos
    exact ⟨c, (h.inv.wired.standby c (mem_standbys.mpr ⟨pos, hpos, hc⟩)).1, hposfd⟩
  · exact boot.nonneg pos.fd (hlist ▸ List.mem_map_of_mem hpos)

end Boot

namespace Server

open State

variable {s s' : State} {boot : Boot} {action : Action}

theorem step_held (held : s.Held) (inv : s.Inv) (h : step s action = some s') : s'.Held := by
  cases action with
  | loop action => exact held.moves inv (loopStep_moves inv h)
  | work w now => exact held.neutral (work_neutral inv h)
  | sendEntry i env => exact held.neutral (sendOne_steady inv h).toNeutral

/-- In every reachable state the open descriptors are those of the standby connections and of
the clients, each of them of one object; there is one for each listening socket and one for
each client, and never more than the configured number of clients. -/
theorem descriptors_held (h : Reachable boot s) :
    (∀ fd, s.openFds fd = true ↔ fd ∈ s.descriptors) ∧ s.descriptors.Nodup ∧
      (s.descriptors.length : Int) = boot.listenFds.length + s.onlineCount ∧
      (s.descriptors.length : Int) ≤
        boot.listenFds.length + max 0 boot.conf.workerConnections := by
  have inv := reachable_inv h
  have honline := inv.pool.online_le
  have hconf := reachable_conf h
  obtain ⟨s₀, actions, hstart, hr⟩ := h
  have hheld : s.Held ∧ s.Inv := run_invariant (I := fun t => t.Held ∧ t.Inv)
    (fun t a t' ht hs => ⟨step_held ht.1 ht.2 hs, (step_evolves ht.2 hs).inv⟩)
    ⟨hstart.held, hstart.inv⟩ hr
  have hsockets : s.listenSocketList.length = boot.listenFds.length := by
    rw [(run_evolves hstart.inv hr).sockets, ← hstart.kernel.2, List.length_map]
  have hlength := inv.length_descriptors
  rw [hsockets] at hlength
  refine ⟨fun fd => hheld.1.mem_descriptors inv, hheld.1.nodup_descriptors inv, hlength, ?_⟩
  rw [hlength, ← hconf]
  exact Int.add_le_add_left honline _

/-- One client has gone, another one is there, and a third one has been turned away because
its registration failed. -/
theorem descriptors_held_small : ∃ s : State, Reachable .small s ∧ s.descriptors = [3, 6] ∧
    ∀ fd, s.openFds fd = true ↔ fd ∈ s.descriptors := by
  have hlaunch : (launch .small [true] (acceptOn 5 100 ++ acceptOn 6 101 ++
      eventOn 5 epollin { recv := .zero .econnreset } ++
      [.loop (.epollWait [(3, epollin)]),
        .loop (.handleEvent { accept := [.accepted 7], ctl := false })])).map
      (fun s => s.descriptors) = some [3, 6] := by decide
  obtain ⟨s, hs, hfds⟩ := Option.map_eq_some_iff.mp hlaunch
  exact ⟨s, reachable_of_launch hs, hfds, (descriptors_held (reachable_of_launch hs)).1⟩

end Server

end MyNginx
