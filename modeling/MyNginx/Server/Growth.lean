import MyNginx.Server.Boot

/-!
# The growth of the connection pool

Objects are created by `connectpool_init`, by the loop over the listening sockets and
by `event_accept_handler`, each time because no object is free. The last one only does
so while there are at most five times `m_worker_connections` objects: with none free
the second comparison of its guard holds, so the first one decides.
-/

namespace MyNginx

open Foundation

namespace State

variable {s s' t : State} {c : ConnId} {connfd : Fd} {env : Env}

theorem TakenFor.length_le (taken : TakenFor s connfd c t) (inv : s.Inv) :
    (t.connectionList.length : Int) ≤
      max (s.connectionList.length : Int) (5 * s.conf.workerConnections + 1) := by
  have htaken : (s.openFd connfd).view.Taken c t.view := taken.takes.taken
  rcases htaken.length_objects with hsame | ⟨hempty, hgrown⟩
  · have hlength : t.connectionList.length = s.connectionList.length := hsame
    omega
  · have hlength : t.connectionList.length = s.connectionList.length + 1 := hgrown
    have hfree : s.freeConnectionList = [] := hempty
    obtain ⟨hroom, hsmall, hspare⟩ := taken.welcome
    have honline : 0 ≤ s.onlineCount := inv.pool.online_nonneg
    have hpos : 0 < toSizeT s.conf.workerConnections := by
      rw [toSizeT, Int.emod_eq_of_lt] <;> omega
    have hfive : toSizeT (s.conf.workerConnections * 5) = s.conf.workerConnections * 5 := by
      rw [toSizeT, Int.emod_eq_of_lt] <;> omega
    have hguard : (s.connectionList.length : Int) ≤ s.conf.workerConnections * 5 := by
      simpa [poolExhausted, hfree, hpos, hfive] using hspare
    omega

/-- A step of the event loop, the timer thread or the recycle thread. -/
theorem Move.length_le (h : Move env s s') (inv : s.Inv) :
    (s'.connectionList.length : Int) ≤
      max (s.connectionList.length : Int) (5 * s.conf.workerConnections + 1) := by
  have hsame : ∀ {u : State}, u.connectionList = s.connectionList →
      (u.connectionList.length : Int) ≤
        max (s.connectionList.length : Int) (5 * s.conf.workerConnections + 1) := by
    intro u hu
    rw [hu]
    exact Int.le_max_left _ _
  cases h with
  | quiet h => exact hsame (congrArg ObjectPool.objects h.view)
  | close used opened counted =>
      rcases counted with rfl | rfl
      · exact hsame rfl
      · exact hsame rfl
  | admits nonneg fresh h =>
      cases h with
      | refused => exact hsame rfl
      | opened taken room timer =>
          rcases timer with ⟨-, rfl⟩ | ⟨-, rfl⟩
          · exact taken.length_le inv
          · exact taken.length_le inv
      | rejected taken => exact taken.length_le inv
  | write used h => exact hsame (congrArg ObjectPool.objects h.steady.view)
  | _ => exact hsame rfl

theorem Moves.length_le (h : Moves env s s') (inv : s.Inv) :
    (s'.connectionList.length : Int) ≤
      max (s.connectionList.length : Int) (5 * s.conf.workerConnections + 1) := by
  induction h with
  | refl => exact Int.le_max_left _ _
  | tail moves move ih =>
      have hevolves := Moves.evolves moves inv
      have hlast := move.length_le hevolves.inv
      rw [hevolves.conf] at hlast
      omega

end State

namespace Boot

variable {boot : Boot} {s s' : State}

theorem getConnectionItem_length {t : State} {c : ConnId} (h : s.getConnectionItem = (t, c)) :
    t.freeConnectionList.length = s.freeConnectionList.length - 1 ∧
      t.connectionList.length =
        s.connectionList.length + if s.freeConnectionList.length = 0 then 1 else 0 := by
  cases hfree : s.freeConnectionList with
  | nil =>
      simp only [State.getConnectionItem, hfree, Prod.mk.injEq] at h
      obtain ⟨rfl, -⟩ := h
      simp [hfree]
  | cons first rest =>
      simp only [State.getConnectionItem, hfree, Prod.mk.injEq] at h
      obtain ⟨rfl, -⟩ := h
      simp

/-- The loop takes the `n` objects of `connectpool_init` first and then creates its own. -/
theorem listenLoop_length {n : Nat} {ready rest : List Listening} {oks : List Bool}
    (free : s.freeConnectionList.length = n - ready.length)
    (objects : s.connectionList.length = max n ready.length)
    (h : s.listenLoop ready rest oks = some s') :
    s'.connectionList.length = max n (ready.length + rest.length) := by
  induction rest generalizing s ready oks with
  | nil =>
      obtain rfl := Option.some.inj h
      exact objects
  | cons pos rest ih =>
      cases oks with
      | nil => cases h
      | cons ok oks =>
          cases hget : s.getConnectionItem with
          | mk t c =>
              obtain ⟨hfree, hobjects⟩ := getConnectionItem_length hget
              simp only [State.listenLoop, hget] at h
              cases hctl : ({ t.modifyConn c fun conn =>
                  { conn with fd := pos.fd, rhandler := some .accept } with
                listenSocketList :=
                  ready ++ [{ pos with pConnitem := some c }] ++ rest } : State).epollOperEvent
                  pos.fd .add (epollin ||| epollrdhup) 0 c ok with
              | mk u r =>
                  rw [hctl] at h
                  rcases State.epollAdd_cases hctl with ⟨rfl, -, -, rfl⟩ | ⟨rfl, rfl⟩
                  · have hready : (ready ++ [{ pos with pConnitem := some c }]).length =
                        ready.length + 1 := List.length_append
                    have hnextfree : t.freeConnectionList.length = n - (ready.length + 1) := by
                      omega
                    have hnext : t.connectionList.length = max n (ready.length + 1) := by
                      split at hobjects <;> omega
                    rw [ih (by rw [hready]; exact hnextfree) (by rw [hready]; exact hnext) h, hready,
                      List.length_cons]
                    omega
                  · cases h

theorem Starts.length_eq (h : boot.Starts s) :
    (s.connectionList.length : Int) =
      max boot.conf.createConnectionsCount boot.listenFds.length := by
  obtain ⟨ctl, hs⟩ := h
  simp only [State.epollEventInit] at hs
  split at hs
  · cases hs
  next hcount =>
    obtain ⟨n, hn⟩ := Int.eq_ofNat_of_zero_le (Int.le_of_lt (Int.not_le.mp hcount))
    obtain ⟨conn, hinit, -⟩ := connectpoolInit_filled boot hn
    rw [hinit] at hs
    have hlength := listenLoop_length (n := n) (by simp [filled, created])
      (by simp [filled, created]) hs
    have hsockets : boot.state.listenSocketList.length = boot.listenFds.length :=
      List.length_map _
    have hconf : boot.state.conf.createConnectionsCount = boot.conf.createConnectionsCount := rfl
    rw [List.length_nil, hsockets] at hlength
    omega

end Boot

namespace Server

open State

variable {boot : Boot} {s s' : State}

theorem step_length_le (inv : s.Inv) {action : Action} (h : step s action = some s') :
    (s'.connectionList.length : Int) ≤
      max (s.connectionList.length : Int) (5 * s.conf.workerConnections + 1) := by
  have hsame : Neutral s s' → (s'.connectionList.length : Int) ≤
      max (s.connectionList.length : Int) (5 * s.conf.workerConnections + 1) := by
    intro hneutral
    have hlist : s'.connectionList = s.connectionList := congrArg ObjectPool.objects hneutral.view
    rw [hlist]
    exact Int.le_max_left _ _
  cases action with
  | loop action => exact (loopStep_moves inv h).length_le inv
  | work w now => exact hsame (work_neutral inv h)
  | sendEntry i env => exact hsame (sendOne_steady inv h).toNeutral

/-- The pool never has more objects than it starts with, or five times
`m_worker_connections` and one. -/
theorem connectionList_le (h : Reachable boot s) :
    (s.connectionList.length : Int) ≤
      max (max boot.conf.createConnectionsCount boot.listenFds.length)
        (5 * boot.conf.workerConnections + 1) := by
  obtain ⟨s₀, actions, hstart, hr⟩ := h
  have hstep : ∀ t a t', Evolves s₀ t ∧ (t.connectionList.length : Int) ≤
      max (max boot.conf.createConnectionsCount boot.listenFds.length)
        (5 * boot.conf.workerConnections + 1) → step t a = some t' →
      Evolves s₀ t' ∧ (t'.connectionList.length : Int) ≤
        max (max boot.conf.createConnectionsCount boot.listenFds.length)
          (5 * boot.conf.workerConnections + 1) := by
    rintro t a t' ⟨hevolves, hle⟩ ht
    refine ⟨hevolves.trans (step_evolves hevolves.inv ht), ?_⟩
    have hone := step_length_le hevolves.inv ht
    rw [hevolves.conf, hstart.spec.2] at hone
    omega
  have hfirst : (s₀.connectionList.length : Int) ≤
      max (max boot.conf.createConnectionsCount boot.listenFds.length)
        (5 * boot.conf.workerConnections + 1) := by
    rw [hstart.length_eq]
    exact Int.le_max_left _ _
  exact (run_invariant hstep ⟨.refl hstart.inv, hfirst⟩ hr).2

/-- A full run of the small configuration has the four objects it starts with. -/
theorem connectionList_le_small : ∃ s, Reachable Boot.small s ∧
    (s.connectionList.length : Int) ≤ max (max 3 1) (5 * 8 + 1) := by
  have hlaunch : (launch .small [true] (acceptOn 5 100)).isSome = true := by decide
  obtain ⟨s, hs⟩ := Option.isSome_iff_exists.mp hlaunch
  exact ⟨s, reachable_of_launch hs, connectionList_le (reachable_of_launch hs)⟩

end Server

end MyNginx
