import MyNginx.Server.Moves

/-!
# The start of a worker process

`connectpool_init` fills the free queue, and the loop over the listening sockets
takes a standby connection for each of them. The invariant holds when the process
enters its event loop, and from then on.
-/

namespace MyNginx

open Foundation

namespace Boot

variable {boot : Boot} {s s' t : State} {c d : ConnId}

/-- The state with the first `k` connection objects in the free queue. -/
def created (boot : Boot) (k : Nat) (conn : ConnId → Connection) : State :=
  { boot.state with
    connectionList := List.range k
    freeConnectionList := List.range k
    conn }

theorem createConnections_created (boot : Boot) (k : Nat) (conn : ConnId → Connection)
    (closed : ∀ c < k, (conn c).fd = -1 ∧ (conn c).pSendbuf = none) (n : Nat) :
    ∃ conn', (boot.created k conn).createConnections n = boot.created (k + n) conn' ∧
      ∀ c < k + n, (conn' c).fd = -1 ∧ (conn' c).pSendbuf = none := by
  induction n generalizing k conn with
  | zero => exact ⟨conn, rfl, closed⟩
  | succ n ih =>
      have hnew : { (boot.created k conn).newConnection with
          freeConnectionList := (boot.created k conn).freeConnectionList ++
            [(boot.created k conn).connectionList.length] } =
          boot.created (k + 1) ((boot.created k conn).newConnection).conn := by
        simp [State.newConnection, created, List.range_succ]
      obtain ⟨conn', heq, hclosed⟩ := ih (k + 1)
        ((boot.created k conn).newConnection).conn fun c hc => by
          by_cases hk : c = k
          · simp [created, hk]
          · simpa [created, hk] using closed c (by omega)
      refine ⟨conn', ?_, fun c hc => hclosed c (by omega)⟩
      rw [State.createConnections, hnew, heq]
      congr 1
      omega

/-- Between two rounds of the loop over the listening sockets: `ready` have their
standby connections, and nothing else has happened. -/
structure Taking (boot : Boot) (s : State) (ready rest : List Listening) : Prop where
  pool : s.view.Inv s.conf.workerConnections []
  sockets : s.listenSocketList = ready ++ rest
  history : s.history = boot.state.history
  blocks : s.messages = .empty
  queue : s.msgqueue = []
  sends : s.toSendQueue = boot.state.toSendQueue
  sendbuf : ∀ c ∈ s.connectionList, (s.conn c).pSendbuf = none
  timers : s.timermap = [] ∧ s.timer = .idle
  events : s.events = []
  interest : ∀ fd m c, s.interest fd = some (m, c) → (s.conn c).fd = fd ∧
    s.openFds fd = true ∧ c ∈ s.connectionList ∧ c ∈ s.standbys ∧ m = epollin ||| epollrdhup
  readied : ∀ pos ∈ ready, ∃ c, pos.pConnitem = some c ∧ (s.conn c).fd = pos.fd
  standby : ∀ c ∈ s.standbys, c ∈ s.connectionList ∧ (s.conn c).rhandler = some .accept
  opened : ∀ c ∈ s.connectionList, (s.conn c).fd ≠ -1 → s.openFds (s.conn c).fd = true
  nonneg : ∀ fd, s.openFds fd = true → 0 ≤ fd
  waiting : ∀ pos ∈ rest, pos.pConnitem = none ∧ s.openFds pos.fd = true ∧
    ∀ c ∈ s.connectionList, (s.conn c).fd ≠ pos.fd
  distinct : (rest.map Listening.fd).Nodup

theorem Taking.unused {ready rest : List Listening} (h : Taking boot s ready rest) (c : ConnId) :
    s.history.use c = 0 := by
  rw [h.history]
  rfl

theorem Taking.inv {ready : List Listening} (h : Taking boot s ready []) : s.Inv where
  pool := h.pool
  wired := {
    interest := fun fd m c hm => by
      obtain ⟨hfd, -, hobject, hstandby⟩ := h.interest fd m c hm
      exact ⟨hfd, hobject, .inr hstandby⟩
    events := by simp [h.events]
    sockets := fun pos hpos => h.readied pos (by simpa [h.sockets] using hpos)
    standby := fun c hc =>
      ⟨(h.standby c hc).1, by simp [State.Used, h.unused], (h.standby c hc).2⟩
    used := by simp [State.Used, h.unused]
    idle := by simp [State.Used, h.unused]
    opened := h.opened
    registered := fun fd hreg => by
      obtain ⟨⟨m, c⟩, hm⟩ := Option.ne_none_iff_exists'.mp hreg
      exact (h.interest fd m c hm).2.1
    nonneg := h.nonneg }
  flight := {
    blocks := fun b msg hb => by
      rw [h.blocks] at hb
      cases hb
    queue := by simp [h.queue]
    replies := by simp [h.sends, state] }
  timers := ⟨by simp [h.timers.1], by simp [h.timers.2, State.timerHeads]⟩

/-- What the loop does with a taken object: it listens on `fd`. -/
def listening (t : State) (c : ConnId) (fd : Fd) (sockets : List Listening) : State :=
  { t with
    listenSocketList := sockets
    conn := Function.update t.conn c
      { t.conn c with fd, rhandler := some .accept, events := epollin ||| epollrdhup }
    interest := Function.update t.interest fd (some (epollin ||| epollrdhup, c)) }

theorem view_listening {ready rest : List Listening} {pos : Listening} (hfd : pos.fd ≠ -1)
    (sockets : t.listenSocketList = ready ++ pos :: rest)
    (none : ∀ next ∈ pos :: rest, next.pConnitem = none) :
    (listening t c pos.fd (ready ++ [{ pos with pConnitem := some c }] ++ rest)).view =
      t.view.reserve c pos.fd := by
  have hhandle : ∀ sockets, (listening t c pos.fd sockets).handle =
      Function.update t.handle c (some pos.fd) := by
    intro sockets
    funext d
    by_cases hd : d = c <;> simp [State.handle, listening, hd, hfd]
  have hrest : (pos :: rest).filterMap Listening.pConnitem = [] := by
    rw [List.filterMap_eq_nil_iff]
    exact none
  have hstandbys : (ready ++ [{ pos with pConnitem := some c }] ++ rest).filterMap
      Listening.pConnitem = t.listenSocketList.filterMap Listening.pConnitem ++ [c] := by
    have hrest' : rest.filterMap Listening.pConnitem = [] := by
      rw [List.filterMap_eq_nil_iff]
      exact fun next hnext => none next (List.mem_cons_of_mem _ hnext)
    rw [sockets, List.filterMap_append, List.filterMap_append, List.filterMap_append, hrest, hrest']
    simp
  simp only [State.view, hhandle, ObjectPool.reserve, State.standbys]
  simp only [listening, hstandbys]

theorem listening_conn_of_takes (takes : State.Takes s c t) (fd : Fd) (sockets : List Listening)
    (hd : d ≠ c) : (listening t c fd sockets).conn d = s.conn d := by
  rw [← takes.other d hd]
  exact Function.update_of_ne hd _ _

/-! The object that is taken is neither open nor a standby, and it has nothing to send. -/

theorem Taking.ne_of_open {ready rest : List Listening} (h : Taking boot s ready rest)
    (takes : State.Takes s c t) (mem : d ∈ s.connectionList)
    (opened : (s.conn d).fd ≠ -1) : d ≠ c := by
  rintro rfl
  have hidle := takes.taken.idle h.pool mem
  simp [State.view, State.handle, opened] at hidle

theorem Taking.ne_of_standby {ready rest : List Listening} (h : Taking boot s ready rest)
    (takes : State.Takes s c t) (mem : d ∈ s.standbys) : d ≠ c := by
  rintro rfl
  have hreserved := (takes.taken.handle_none h.pool).2.2.1
  rw [takes.taken.reserved_eq] at hreserved
  exact hreserved mem

theorem Taking.sendbuf_taken {ready rest : List Listening} (h : Taking boot s ready rest)
    (takes : State.Takes s c t) : (t.conn c).pSendbuf = none := by
  rcases takes.sendbuf with hnone | ⟨hfree, hsame⟩
  · exact hnone
  · have hcount : 0 < s.view.free.count c := List.count_pos_iff.mpr hfree
    rw [hsame]
    exact h.sendbuf c (h.pool.place (c := c) (by omega)).1

/-- One listening socket gets its standby connection. -/
theorem Taking.next {ready rest : List Listening} {pos : Listening}
    (h : Taking boot s ready (pos :: rest)) (takes : State.Takes s c t) :
    Taking boot (listening t c pos.fd (ready ++ [{ pos with pConnitem := some c }] ++ rest))
      (ready ++ [{ pos with pConnitem := some c }]) rest := by
  obtain ⟨hnone, hopenpos, hfresh⟩ := h.waiting pos List.mem_cons_self
  have hlive : ∀ fd, s.openFds fd = true → fd ≠ -1 := by
    rintro fd hopen rfl
    exact absurd (h.nonneg _ hopen) (by decide)
  have hview := view_listening (t := t) (c := c) (hlive _ hopenpos)
    (takes.listenSocketList.trans h.sockets) fun next hnext => (h.waiting next hnext).1
  have hother := fun {d} => listening_conn_of_takes (d := d) takes pos.fd
    (ready ++ [{ pos with pConnitem := some c }] ++ rest)
  set s' := listening t c pos.fd (ready ++ [{ pos with pConnitem := some c }] ++ rest) with hs'
  have hfds : s'.openFds = s.openFds := by
    show t.openFds = s.openFds
    rw [takes.kernel]
  have hself : (s'.conn c).fd = pos.fd ∧ (s'.conn c).rhandler = some .accept := by
    simp [hs', listening]
  have hobjects : ∀ d, d ∈ s'.connectionList ↔ d = c ∨ d ∈ s.connectionList := fun d =>
    takes.taken.mem_objects h.pool
  have hstandbys : s'.standbys = s.standbys ++ [c] := by
    have hreserved : s'.standbys = t.standbys ++ [c] := congrArg ObjectPool.reserved hview
    rw [hreserved, State.standbys, takes.listenSocketList, State.standbys]
  refine {
    pool := ?_
    sockets := rfl
    history := takes.history.trans h.history
    sendbuf := fun d hd => ?_
    blocks := (congrArg Blocks.messages takes.blocks).trans h.blocks
    queue := (congrArg ReceiveQueue.msgqueue takes.queue).trans h.queue
    sends := takes.replies.trans h.sends
    timers := takes.timers ▸ h.timers
    events := (congrArg Kernel.events takes.kernel).trans h.events
    interest := fun fd m' d hreg => ?_
    readied := fun next hnext => ?_
    standby := fun d hd => ?_
    opened := fun d hd hopen => ?_
    nonneg := by rw [hfds]; exact h.nonneg
    waiting := fun next hnext => ?_
    distinct := (List.nodup_cons.mp h.distinct).2 }
  · rw [hview, show s'.conf = s.conf from takes.conf]
    refine (takes.taken.inv h.pool).reserve (takes.taken.fresh fun d hd hhandle => ?_)
    simp only [State.view, State.handle, Option.ite_none_left_eq_some, Option.some.injEq]
      at hhandle
    exact hfresh d hd hhandle.2
  · by_cases hdc : d = c
    · simpa [hs', listening, hdc] using h.sendbuf_taken takes
    · rw [hother hdc]
      exact h.sendbuf d (((hobjects d).mp hd).resolve_left hdc)
  · by_cases hfd : fd = pos.fd
    · subst hfd
      simp only [hs', listening, Function.update_self] at hreg
      obtain ⟨rfl, rfl⟩ := Prod.mk.inj (Option.some.inj hreg)
      exact ⟨hself.1, by rw [hfds]; exact hopenpos, (hobjects c).mpr (.inl rfl),
        by simp [hstandbys], rfl⟩
    · simp only [hs', listening, Function.update_of_ne hfd, takes.kernel] at hreg
      obtain ⟨hdfd, hopen, hobject, hstandby, hmask⟩ := h.interest fd m' d hreg
      have hdc : d ≠ c := h.ne_of_open takes hobject (hdfd ▸ hlive fd hopen)
      exact ⟨by rw [hother hdc]; exact hdfd, by rw [hfds]; exact hopen,
        (hobjects d).mpr (.inr hobject), by simp [hstandbys, hstandby], hmask⟩
  · rcases List.mem_append.mp hnext with hready | hlast
    · obtain ⟨d, hd, hdfd⟩ := h.readied next hready
      have hstandby : d ∈ s.standbys := List.mem_filterMap.mpr
        ⟨next, h.sockets ▸ List.mem_append_left _ hready, hd⟩
      have hdc : d ≠ c := h.ne_of_standby takes hstandby
      exact ⟨d, hd, by rw [hother hdc]; exact hdfd⟩
    · obtain rfl := List.mem_singleton.mp hlast
      exact ⟨c, rfl, hself.1⟩
  · by_cases hdc : d = c
    · rw [hdc]
      exact ⟨(hobjects c).mpr (.inl rfl), hself.2⟩
    · rw [hstandbys, List.mem_append, List.mem_singleton] at hd
      obtain ⟨hobject, hr⟩ := h.standby d (hd.resolve_right hdc)
      rw [hother hdc]
      exact ⟨(hobjects d).mpr (.inr hobject), hr⟩
  · by_cases hdc : d = c
    · rw [hdc, hself.1, hfds]
      exact hopenpos
    · rw [hother hdc] at hopen ⊢
      rw [hfds]
      exact h.opened d (((hobjects d).mp hd).resolve_left hdc) hopen
  · obtain ⟨hnextnone, hnextopen, hnextfresh⟩ := h.waiting next (List.mem_cons_of_mem _ hnext)
    refine ⟨hnextnone, by rw [hfds]; exact hnextopen, fun d hd => ?_⟩
    by_cases hdc : d = c
    · rw [hdc, hself.1]
      intro he
      have hnot := (List.nodup_cons.mp h.distinct).1
      exact hnot (List.mem_map.mpr ⟨next, hnext, he.symm⟩)
    · rw [hother hdc]
      exact hnextfresh d (((hobjects d).mp hd).resolve_left hdc)

/-- The loop leaves a state between two listening sockets. -/
theorem listenLoop_taking {ready rest : List Listening} {oks : List Bool}
    (h : Taking boot s ready rest) (hs : s.listenLoop ready rest oks = some s') :
    (∃ all, Taking boot s' all []) ∧ s'.conf = s.conf := by
  induction rest generalizing s ready oks with
  | nil =>
      obtain rfl := Option.some.inj hs
      exact ⟨⟨ready, h⟩, rfl⟩
  | cons pos rest ih =>
      cases oks with
      | nil => cases hs
      | cons ok oks =>
          cases hget : s.getConnectionItem with
          | mk t c =>
              have htakes := State.getConnectionItem_takes h.pool.numbered hget
              simp only [State.listenLoop, hget] at hs
              cases hctl : ({ t.modifyConn c fun conn =>
                  { conn with fd := pos.fd, rhandler := some .accept } with
                listenSocketList :=
                  ready ++ [{ pos with pConnitem := some c }] ++ rest } : State).epollOperEvent
                  pos.fd .add (epollin ||| epollrdhup) 0 c ok with
              | mk u r =>
                  rw [hctl] at hs
                  rcases State.epollAdd_cases hctl with ⟨rfl, -, -, rfl⟩ | ⟨rfl, rfl⟩
                  · simp only at hs
                    have hnext := h.next htakes
                    obtain ⟨htaking, hconf⟩ :=
                      ih (by simpa [listening, State.modifyConn] using hnext) hs
                    exact ⟨htaking, hconf.trans htakes.conf⟩
                  · cases hs

/-- The state behind `connectpool_init`. -/
def filled (boot : Boot) (n : Nat) (conn : ConnId → Connection) : State :=
  { boot.created n conn with
    totalConnectionCount := n
    freeConnectionCount := n }

theorem filled_taking {n : Nat} {conn : ConnId → Connection}
    (closed : ∀ c < n, (conn c).fd = -1 ∧ (conn c).pSendbuf = none) :
    Taking boot (boot.filled n conn) [] boot.state.listenSocketList where
  pool := by
    have hstandbys : (boot.filled n conn).standbys = [] := by
      simp [State.standbys, filled, created, state]
    have hview : (boot.filled n conn).view =
        ObjectPool.initial Fd n (boot.filled n conn).handle := by
      simp only [State.view, hstandbys]
      rfl
    rw [hview]
    exact ObjectPool.inv_initial fun c hc => by simp [State.handle, filled, created, (closed c hc).1]
  sockets := rfl
  history := rfl
  blocks := rfl
  queue := rfl
  sends := rfl
  sendbuf c hc := (closed c (List.mem_range.mp hc)).2
  timers := ⟨rfl, rfl⟩
  events := rfl
  interest fd m c hreg := by cases hreg
  readied _ hpos := by cases hpos
  standby c hc := by simp [State.standbys, filled, created, state] at hc
  opened c hc hopen := absurd (closed c (List.mem_range.mp hc)).1 hopen
  nonneg fd hopen := boot.nonneg fd (by simpa [filled, created, state] using hopen)
  waiting pos hpos := by
    obtain ⟨fd, hfd, rfl⟩ := List.mem_map.mp hpos
    refine ⟨rfl, by simpa [filled, created, state] using hfd, fun c hc he => ?_⟩
    have hfd' : fd = -1 := he.symm.trans (closed c (List.mem_range.mp hc)).1
    have hnonneg := boot.nonneg fd hfd
    rw [hfd'] at hnonneg
    exact absurd hnonneg (by decide)
  distinct := by
    have hfds : boot.state.listenSocketList.map Listening.fd = boot.listenFds := by
      simp [state, Function.comp_def]
    rw [hfds]
    exact boot.nodup

theorem connectpoolInit_filled (boot : Boot) {n : Nat}
    (hn : boot.state.conf.createConnectionsCount = n) :
    ∃ conn, boot.state.connectpoolInit = boot.filled n conn ∧
      ∀ c < n, (conn c).fd = -1 ∧ (conn c).pSendbuf = none := by
  obtain ⟨conn, hcreated, hclosed⟩ := createConnections_created boot 0 boot.raw
    (fun c hc => absurd hc (Nat.not_lt_zero c)) n
  rw [Nat.zero_add] at hcreated hclosed
  refine ⟨conn, ?_, hclosed⟩
  have hzero : boot.created 0 boot.raw = boot.state := rfl
  rw [State.connectpoolInit, hn, Int.toNat_natCast, ← hzero, hcreated]
  rfl

/-- A worker process enters its event loop with the invariant. -/
theorem Starts.spec (h : boot.Starts s) :
    (∃ all, Taking boot s all []) ∧ s.conf = boot.conf := by
  obtain ⟨ctl, hs⟩ := h
  simp only [State.epollEventInit] at hs
  split at hs
  · cases hs
  next hcount =>
    obtain ⟨n, hn⟩ := Int.eq_ofNat_of_zero_le (Int.le_of_lt (Int.not_le.mp hcount))
    obtain ⟨conn, hinit, hclosed⟩ := connectpoolInit_filled boot hn
    rw [hinit] at hs
    exact listenLoop_taking (filled_taking hclosed) hs

/-- A round of the loop in which `epoll_ctl` succeeds; the socket is open and not registered. -/
theorem Taking.registers {ready rest : List Listening} {pos : Listening}
    (h : Taking boot s ready (pos :: rest)) (takes : State.Takes s c t)
    (sockets : List Listening) :
    ({ t.modifyConn c fun conn => { conn with fd := pos.fd, rhandler := some .accept } with
        listenSocketList := sockets } : State).epollOperEvent pos.fd .add
          (epollin ||| epollrdhup) 0 c true = (listening t c pos.fd sockets, 0) := by
  obtain ⟨-, hopen, hfresh⟩ := h.waiting pos List.mem_cons_self
  have hnew : s.interest pos.fd = none := by
    by_contra hregistered
    obtain ⟨⟨m, d⟩, hd⟩ := Option.ne_none_iff_exists'.mp hregistered
    obtain ⟨hfd, -, hobject, -⟩ := h.interest pos.fd m d hd
    exact hfresh d hobject hfd
  have hkernel := takes.kernel
  have hopen' : t.openFds pos.fd = true := by
    rw [hkernel]
    exact hopen
  have hnew' : t.interest pos.fd = none := by
    rw [hkernel]
    exact hnew
  simp [State.epollOperEvent, State.epollCtl, State.operMask, State.modifyConn, hopen', hnew',
    listening]

/-- If `epoll_ctl` succeeds in each round, the loop comes to its end. -/
theorem listenLoop_succeeds {ready rest : List Listening} (h : Taking boot s ready rest) :
    ∃ s', s.listenLoop ready rest (List.replicate rest.length true) = some s' := by
  induction rest generalizing s ready with
  | nil => exact ⟨s, rfl⟩
  | cons pos rest ih =>
      cases hget : s.getConnectionItem with
      | mk t c =>
          have htakes := State.getConnectionItem_takes h.pool.numbered hget
          obtain ⟨s', hs'⟩ := ih (h.next htakes)
          refine ⟨s', ?_⟩
          rw [List.length_cons, List.replicate_succ, State.listenLoop, hget]
          simp only [h.registers htakes]
          exact hs'

/-- A worker process can enter its event loop exactly if connection objects are created. -/
theorem exists_starts : (∃ s, boot.Starts s) ↔ 0 < boot.conf.createConnectionsCount := by
  constructor
  · rintro ⟨s, ctl, hs⟩
    by_contra hcount
    have hrefused : boot.state.conf.createConnectionsCount ≤ 0 := Int.not_lt.mp hcount
    rw [State.epollEventInit, if_pos hrefused] at hs
    cases hs
  · intro hcount
    have hcreated : ¬boot.state.conf.createConnectionsCount ≤ 0 := Int.not_le.mpr hcount
    obtain ⟨n, hn⟩ := Int.eq_ofNat_of_zero_le (Int.le_of_lt hcount)
    obtain ⟨conn, hinit, hclosed⟩ := connectpoolInit_filled boot hn
    have htaking : Taking boot (boot.filled n conn) [] boot.state.listenSocketList :=
      filled_taking hclosed
    obtain ⟨s, hs⟩ := listenLoop_succeeds htaking
    refine ⟨s, List.replicate boot.state.listenSocketList.length true, ?_⟩
    rw [State.epollEventInit, if_neg hcreated, hinit]
    exact hs

theorem Starts.inv (h : boot.Starts s) : s.Inv := by
  obtain ⟨⟨all, htaking⟩, -⟩ := h.spec
  exact htaking.inv

end Boot

namespace Server

open State

variable {s s' t : State} {boot : Boot} {actions : List Action}

/-- A run from a state with the invariant evolves as its steps do. -/
theorem run_evolves (inv : s.Inv) (hr : run step s actions = some s') : Evolves s s' := by
  have hstep : ∀ t a t', Evolves s t → step t a = some t' → Evolves s t' := by
    intro t a t' h ht
    exact h.trans (step_evolves h.inv ht)
  exact run_invariant hstep (.refl inv) hr

theorem reachable_inv (h : Reachable boot s) : s.Inv := by
  obtain ⟨s₀, actions, hstart, hr⟩ := h
  exact (run_evolves hstart.inv hr).inv

theorem reachable_conf (h : Reachable boot s) : s.conf = boot.conf := by
  obtain ⟨s₀, actions, hstart, hr⟩ := h
  exact (run_evolves hstart.inv hr).conf.trans hstart.spec.2

/-- Every run of the server is a run of the object pool. -/
theorem run_refines_pool (h : boot.Starts s) (hr : run step s actions = some s') :
    Relation.ReflTransGen (ObjectPool.Step boot.conf.workerConnections) s.view s'.view := by
  rw [← h.spec.2]
  exact (run_evolves h.inv hr).steps

end Server

end MyNginx
