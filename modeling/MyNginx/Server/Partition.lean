import MyNginx.Server.Boot

/-!
# Where the connection objects are

In every state of a run each connection object is in one place, no two clients
share a descriptor and the counters agree with the lists. A use of an object is
closed at most once, and `m_online_count` counts the open accepted connections.
-/

namespace MyNginx

open Foundation

/-- The places a connection object can be in. -/
inductive Place where
  | free
  | recycling
  | standby
  | client
  deriving DecidableEq, Repr

namespace State

variable {s : State} {c d : ConnId}

/-- The object is open on a descriptor that is not a listening socket. -/
def Client (s : State) (c : ConnId) : Prop :=
  (s.conn c).fd ≠ -1 ∧ s.openFds (s.conn c).fd = true ∧
    ∀ pos ∈ s.listenSocketList, pos.fd ≠ (s.conn c).fd

instance (s : State) : DecidablePred s.Client := fun _ => inferInstanceAs (Decidable (_ ∧ _ ∧ _))

/-- A connection object is in a place. -/
def At (s : State) (c : ConnId) : Place → Prop
  | .free => c ∈ s.freeConnectionList
  | .recycling => c ∈ s.recyConnectionList
  | .standby => ∃ pos ∈ s.listenSocketList, pos.pConnitem = some c
  | .client => s.Client c

theorem mem_standbys : c ∈ s.standbys ↔ ∃ pos ∈ s.listenSocketList, pos.pConnitem = some c :=
  List.mem_filterMap

/-- The open objects of the pool are the clients. -/
theorem Inv.isOpen_iff (inv : s.Inv) (hc : c ∈ s.connectionList) :
    s.view.IsOpen c ↔ s.Client c := by
  constructor
  · rintro ⟨-, hhandle, hreserved⟩
    have hfd : (s.conn c).fd ≠ -1 := fun he => hhandle (by simp [view, handle, he])
    refine ⟨hfd, inv.wired.opened c hc hfd, fun pos hpos he => ?_⟩
    obtain ⟨d, hd, hdfd⟩ := inv.wired.sockets pos hpos
    have hstandby : d ∈ s.standbys := mem_standbys.mpr ⟨pos, hpos, hd⟩
    have hsame : c = d :=
      inv.owner_unique hc (inv.wired.standby d hstandby).1 hfd rfl (hdfd.trans he)
    rw [← hsame] at hstandby
    exact hreserved hstandby
  · rintro ⟨hfd, -, hsockets⟩
    refine ⟨hc, by simp [view, handle, hfd], fun hstandby => ?_⟩
    obtain ⟨pos, hpos, hposc⟩ := mem_standbys.mp hstandby
    obtain ⟨d, hd, hdfd⟩ := inv.wired.sockets pos hpos
    obtain rfl : c = d := Option.some.inj (hposc.symm.trans hd)
    exact hsockets pos hpos hdfd.symm

/-- How often an object occurs in a place. -/
def countAt (s : State) (c : ConnId) : Place → Nat
  | .free => s.freeConnectionList.count c
  | .recycling => s.recyConnectionList.count c
  | .standby => s.standbys.count c
  | .client => s.view.openCount c

theorem Inv.at_iff (inv : s.Inv) (hc : c ∈ s.connectionList) (place : Place) :
    s.At c place ↔ 0 < s.countAt c place := by
  cases place with
  | free => exact List.count_pos_iff.symm
  | recycling => exact List.count_pos_iff.symm
  | standby => exact mem_standbys.symm.trans List.count_pos_iff.symm
  | client =>
      simp only [At, countAt, ← inv.isOpen_iff hc, ObjectPool.openCount]
      split <;> simp_all

theorem Inv.countAt_eq (inv : s.Inv) (hc : c ∈ s.connectionList) :
    s.countAt c .free + s.countAt c .recycling + s.countAt c .standby + s.countAt c .client = 1 := by
  have hbal : s.countAt c .free + s.countAt c .recycling + s.countAt c .standby +
      s.countAt c .client + 0 = s.connectionList.count c := inv.pool.balanced c
  have hone : s.connectionList.count c = 1 :=
    List.count_eq_one_of_mem inv.pool.nodup hc
  omega

/-- Every object is in exactly one place. -/
theorem Inv.existsUnique_at (inv : s.Inv) (hc : c ∈ s.connectionList) :
    ∃! place, s.At c place := by
  have hsum := inv.countAt_eq hc
  have hexists : ∃ place, 0 < s.countAt c place := by
    by_contra hnone
    have hzero : ∀ place, s.countAt c place = 0 := fun place =>
      Nat.eq_zero_of_not_pos fun hpos => hnone ⟨place, hpos⟩
    simp [hzero] at hsum
  obtain ⟨place, hpos⟩ := hexists
  refine ⟨place, (inv.at_iff hc place).mpr hpos, fun other hother => ?_⟩
  have hpos' := (inv.at_iff hc other).mp hother
  cases place <;> cases other <;> first | rfl | omega

theorem Inv.nodup_lists (inv : s.Inv) :
    s.freeConnectionList.Nodup ∧ s.recyConnectionList.Nodup := by
  have hle : ∀ c, s.freeConnectionList.count c + s.recyConnectionList.count c ≤ 1 := by
    intro c
    have hbal : s.countAt c .free + s.countAt c .recycling + s.countAt c .standby +
        s.countAt c .client + 0 = s.connectionList.count c := inv.pool.balanced c
    have hone : s.connectionList.count c ≤ 1 := inv.pool.count_le c
    simp only [countAt] at hbal
    omega
  refine ⟨List.nodup_iff_count_le_one.mpr fun c => ?_, List.nodup_iff_count_le_one.mpr fun c => ?_⟩
  · have := hle c
    omega
  · have := hle c
    omega

/-- The counter of open accepted connections. -/
theorem Inv.onlineCount_eq (inv : s.Inv) :
    s.onlineCount = s.connectionList.countP fun c => s.Client c := by
  have hsum : ∀ l : List ConnId, (∀ c ∈ l, c ∈ s.connectionList) →
      (l.map s.view.openCount).sum = l.countP fun c => s.Client c := by
    intro l hl
    induction l with
    | nil => rfl
    | cons c l ih =>
        have hc := inv.isOpen_iff (hl c List.mem_cons_self)
        rw [List.map_cons, List.sum_cons, List.countP_cons, ih fun d hd =>
          hl d (List.mem_cons_of_mem _ hd)]
        simp only [ObjectPool.openCount, hc, decide_eq_true_eq]
        omega
  rw [← hsum s.connectionList fun _ h => h]
  exact inv.pool.online_eq

end State

namespace Server

open State

variable {s : State} {boot : Boot}

/-- Each object of the pool is in exactly one place, in its list at most once, and
is no client's if another object is open on the same descriptor; the counters are
the lengths of the lists. -/
theorem pool_partition (h : Reachable boot s) :
    (∀ c ∈ s.connectionList, ∃! place, s.At c place) ∧
      (s.freeConnectionList.Nodup ∧ s.recyConnectionList.Nodup) ∧
      (∀ c ∈ s.connectionList, ∀ d ∈ s.connectionList, s.Client c → s.Client d →
        (s.conn c).fd = (s.conn d).fd → c = d) ∧
      s.totalConnectionCount = s.connectionList.length ∧
      s.freeConnectionCount = s.freeConnectionList.length ∧
      (s.stopEvent = false → s.recyConnectionCount = s.recyConnectionList.length) := by
  have inv := reachable_inv h
  refine ⟨fun c hc => inv.existsUnique_at hc, inv.nodup_lists, ?_, inv.pool.total_eq,
    inv.pool.freeCount_eq, inv.pool.delayedCount_eq⟩
  intro c hc d hd hclient _ hfd
  exact inv.owner_unique hc hd hclient.1 rfl hfd.symm

/-- With a client, one free object and the standby connection. -/
theorem pool_partition_small : ∃ s : State, s.connectionList = [0, 1, 2] ∧
    s.freeConnectionList = [2] ∧ ∀ c ∈ s.connectionList, ∃! place, s.At c place := by
  have hlaunch : (launch .small [true] (acceptOn 5 100)).map
      (fun s => (s.connectionList, s.freeConnectionList)) = some ([0, 1, 2], [2]) := by decide
  obtain ⟨s, hs, heq⟩ := Option.map_eq_some_iff.mp hlaunch
  obtain ⟨hlist, hfree⟩ := Prod.mk.inj heq
  exact ⟨s, hlist, hfree, (pool_partition (reachable_of_launch hs)).1⟩

/-- Every use of an object is closed, uncounted and put in the recycle list
together and at most once, and the online count is exact. -/
theorem closed_once (h : Reachable boot s) :
    (s.history.uncounted = s.history.closes ∧ s.history.recycled = s.history.closes) ∧
      (s.history.closes ++ s.history.rejected).Nodup ∧
      (∀ c ∈ s.connectionList, ∀ u, (c, u) ∈ s.history.closes → u ≤ s.history.use c ∧
        (u = s.history.use c → ¬ s.Client c)) ∧
      s.onlineCount = s.connectionList.countP (fun c => s.Client c) ∧
      0 ≤ s.onlineCount ∧ s.onlineCount ≤ max 0 boot.conf.workerConnections := by
  have inv := reachable_inv h
  have honline := inv.onlineCount_eq
  refine ⟨inv.pool.together, inv.pool.once, ?_, honline, by omega, ?_⟩
  · intro c hc u hu
    obtain ⟨hle, hclosed⟩ := inv.pool.ended_le c u (List.mem_append_left _ hu)
    exact ⟨hle, fun heq hclient => hclosed heq ((inv.isOpen_iff hc).mpr hclient)⟩
  · rw [← reachable_conf h]
    exact inv.pool.online_le

/-- A client that was accepted, marked by the timer thread and then closed by its
peer before the timer thread closes it as well. -/
theorem closed_once_small :
    ∃ s : State, s.history.closes = [(1, 1)] ∧ s.history.closes.Nodup := by
  have hlaunch : (launch .small [true] (acceptOn 5 100 ++
      [.loop (.timerBegin 116), .loop .timerCheck, .loop .timerDelete,
        .loop (.epollWait [(5, epollin)]), .loop (.handleEvent { recv := .zero .econnreset }),
        .loop (.timerClose {})])).map (fun s => s.history.closes) = some [(1, 1)] := by decide
  obtain ⟨s, hs, hcloses⟩ := Option.map_eq_some_iff.mp hlaunch
  have hnodup := (closed_once (reachable_of_launch hs)).2.1
  exact ⟨s, hcloses, (List.nodup_append.mp hnodup).1⟩

end Server

end MyNginx
