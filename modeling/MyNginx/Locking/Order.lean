import MyNginx.Locking.System

/-!
# The threads of a worker process do not deadlock

`Before` is the order in which the server nests its mutexes. Each function of a thread is
shown to keep to it, from the mutexes its callers hold: a function that closes a
connection may be called with `m_timer_mutex` held, one that queues a reply with a
`conn_mutex`, one that returns an object to the pool with all of the others. A process
whose programs are ordered never asks for a mutex it holds, and its threads never wait
for each other in a circle.
-/

namespace MyNginx

open Foundation

namespace Locking

/-- The nesting of the mutexes. `m_pthreadMutex` has no part in it. -/
inductive Before : Mutex → Mutex → Prop where
  | timerConn (c : ConnId) : Before .timerMutex (.connMutex c)
  | timerRecy : Before .timerMutex .recymutex
  | timerSocket : Before .timerMutex .socketmutex
  | connRecy (c : ConnId) : Before (.connMutex c) .recymutex
  | connSocket (c : ConnId) : Before (.connMutex c) .socketmutex
  | recySocket : Before .recymutex .socketmutex
  | connSend (c : ConnId) : Before (.connMutex c) .sendmutex

def rank : Mutex → Nat
  | .timerMutex => 0
  | .connMutex _ => 1
  | .recymutex => 2
  | .socketmutex => 3
  | .sendmutex => 3
  | .pthreadMutex => 0

theorem Before.rank_lt {m m' : Mutex} (h : Before m m') : rank m < rank m' := by
  cases h <;> simp [rank]

theorem Before.irrefl (m : Mutex) : ¬ Before m m := fun h => Nat.lt_irrefl _ h.rank_lt

/-- A program that ends with the mutexes it began with. -/
abbrev Keeps (program : Program) (held back : List Mutex) : Prop :=
  Ordered Before program held held back

section Functions

variable {held back : List Mutex} {c : ConnId}

theorem freeConnectionItem_keeps (behind : ∀ h ∈ held, Before h .socketmutex) :
    Keeps (freeConnectionItem c) held back :=
  .call (.guarded behind .act)

theorem getConnectionItem_keeps {next : ConnId → Program}
    (behind : ∀ h ∈ held, Before h .socketmutex) (h : ∀ c, Keeps (next c) held back) :
    Keeps (getConnectionItem next) held back :=
  .seq (.lock behind) (.atom fun c => .seq .unlock (h c))

theorem closeConnection_keeps : Keeps (closeConnection c) [] back := by
  refine .call (.guarded nofun (.read fun fdClose => ?_))
  refine .seq (.when .exit) (.seq .perform (freeConnectionItem_keeps fun h hmem => ?_))
  obtain rfl := List.mem_singleton.mp hmem
  exact .connSocket c

theorem inRecyConnQueue_keeps (behind : ∀ h ∈ held, Before h .recymutex) :
    Keeps (inRecyConnQueue c) held back :=
  .call (.seq (.when .ret) (.guarded behind (.seq (.when .ret) .perform)))

/-- It may be called with nothing or with `m_timer_mutex` held. -/
theorem closeAcceptedConnection_keeps {istimeoutClose : Bool}
    (callers : ∀ h ∈ held, h = .timerMutex) :
    Keeps (closeAcceptedConnection c istimeoutClose) held back := by
  refine .call (.guarded (fun h hmem => ?_) (.read fun fdToclose => ?_))
  · rw [callers h hmem]
    exact .timerConn c
  · refine .seq (.when .ret) (.seq (.when .ret) (.seq .perform ?_))
    refine inRecyConnQueue_keeps fun h hmem => ?_
    rcases List.mem_cons.mp hmem with rfl | hmem
    · exact .connRecy c
    · rw [callers h hmem]
      exact .timerRecy

theorem recySocket_only : ∀ h ∈ [Mutex.recymutex], Before h .socketmutex := by
  intro h hmem
  obtain rfl := List.mem_singleton.mp hmem
  exact .recySocket

theorem freeRecycled_keeps {entry : Option ConnId} :
    Keeps (freeRecycled entry) [.recymutex] back := by
  cases entry with
  | none => exact .skip
  | some c => exact freeConnectionItem_keeps recySocket_only

theorem recyConnThreadFunc_keeps : Keeps recyConnThreadFunc [] [] := by
  refine .loopWhile (.when (.seq (.lock nofun) (.test ?_ ?_)))
  · exact .seq (.loop fun c => freeConnectionItem_keeps recySocket_only) (.seq .unlock .ret)
  · exact .seq (.loop fun _ => freeRecycled_keeps) .unlock

theorem addToTimerQueue_keeps : Keeps (addToTimerQueue c) [] back :=
  .call (.read fun _ => .seq .act (.guarded nofun .act))

theorem timeOutProc_keeps {head : MsgHeader} : Keeps (timeOutProc head) [.timerMutex] back :=
  .call (.seq .act (closeAcceptedConnection_keeps fun _ hmem => List.mem_singleton.mp hmem))

/-- Every branch unlocks the connection by hand before it goes on. -/
theorem timeCheckingProc_keeps {head : MsgHeader} {curTime : Time} :
    Keeps (timeCheckingProc head curTime) [.timerMutex] back := by
  refine .call (.seq (.lock fun h hmem => ?_) (.test ?_ (.test ?_ .unlock)))
  · obtain rfl := List.mem_singleton.mp hmem
    exact .timerConn _
  · exact .seq .unlock (.seq .act .ret)
  · exact .seq .act (.seq .unlock timeOutProc_keeps)

theorem serverTimerQueueThreadFunc_keeps : Keeps serverTimerQueueThreadFunc [] [] := by
  refine .loopWhile (.read fun ⟨curTime, idle⟩ => ?_)
  cases idle with
  | true => exact .skip
  | false =>
      exact .seq (.lock nofun)
        (.seq (.atom fun due => .loop fun head => timeCheckingProc_keeps) .unlock)

theorem inMsgRecv_keeps {msg : Option Message} : Keeps (inMsgRecv msg) [] back :=
  .call (.region nofun .act)

/-- It may be called with nothing or with a `conn_mutex` held. A dropped reply is noted. -/
theorem msgSendInQueue_keeps {reply : Reply} (behind : ∀ h ∈ held, Before h .sendmutex) :
    Keeps (msgSendInQueue reply) held back :=
  .call (.seq (.lock behind)
    (.seq (.when (.noted .ret)) (.seq .act (.seq .unlock .act))))

/-- The `return` on a length mismatch is noted. -/
theorem sendMsgThreadFunc_keeps : Keeps sendMsgThreadFunc [] [] := by
  refine .loopWhile (.atom fun woken => ?_)
  cases woken with
  | false => exact .ret
  | true =>
      refine .seq (.when .ret) (.when (.seq (.lock nofun) (.seq (.loop fun returned => ?_) .unlock)))
      cases returned with
      | false => exact .skip
      | true => exact .noted .ret

theorem handleStruct_keeps {lenStruct cmd : Nat} {hlen : lenStruct < 65528} {msg : Message} :
    Keeps (handleStruct lenStruct cmd hlen msg) [] back :=
  .call (.seq (.when .ret) (.seq (.test .ret (.guarded nofun .skip))
    (.seq (.when .ret) (.seq .act (msgSendInQueue_keeps nofun)))))

/-- `_HandlePing` queues its reply with the mutex of the connection held. -/
theorem handlePing_keeps {msg : Message} : Keeps (handlePing msg) [] back := by
  refine .call (.seq (.when .ret) (.guarded nofun (.seq .perform (.seq .act ?_))))
  refine msgSendInQueue_keeps fun h hmem => ?_
  obtain rfl := List.mem_singleton.mp hmem
  exact .connSend _

theorem statusHandleset_keeps {handler : Message → Program} (h : some handler ∈ statusHandleset)
    (msg : Message) : Keeps (handler msg) [] back := by
  simp only [statusHandleset, List.mem_cons, Option.some.injEq, reduceCtorEq, List.not_mem_nil,
    or_false, false_or] at h
  rcases h with rfl | rfl | rfl
  · exact handlePing_keeps
  · exact handleStruct_keeps
  · exact handleStruct_keeps

theorem threadRecvProc_keeps {msg : Message} : Keeps (threadRecvProc msg) [] back := by
  refine .call (.seq (.when .ret) (.seq (.when .ret) (.seq (.when .ret) ?_)))
  split
  · rename_i handler hfound
    exact statusHandleset_keeps (List.mem_of_getElem? hfound) msg
  · exact .ret

theorem condWait_keeps : Keeps condWait [.pthreadMutex] back := .seq .unlock (.lock nofun)

theorem threadFunc_keeps : Keeps threadFunc [] [] := by
  refine .loopWhile (.seq (.lock nofun) (.seq (.loopWhile condWait_keeps)
    (.seq (.when (.seq .unlock .ret)) (.atom fun msgPtr => ?_))))
  cases msgPtr with
  | none => exact .unlock
  | some msg => exact .seq .unlock threadRecvProc_keeps

theorem recvproc_keeps {buf : RecvBuf} {recvLen : Nat} {next : Option Nat → Program}
    (h : ∀ result, Keeps (next result) [] back) : Keeps (recvproc c buf recvLen next) [] back := by
  refine .atom fun answer => ?_
  cases answer with
  | none => exact .seq (closeAcceptedConnection_keeps nofun) (h none)
  | some result => exact h result

theorem pkgHeaderRecv_keeps {next : Option Nat → Program}
    (h : ∀ result, Keeps (next result) [] back) : Keeps (pkgHeaderRecv c next) [] back := by
  refine .read fun conn => ?_
  split
  · exact h none
  · refine recvproc_keeps fun result => ?_
    cases result with
    | none => exact h none
    | some realSize => exact .seq .act (h _)

theorem pkgBodyRecv_keeps {next : Option Nat → Program}
    (h : ∀ result, Keeps (next result) [] back) : Keeps (pkgBodyRecv c next) [] back := by
  refine .read fun conn => ?_
  split
  · exact .seq .perform (h none)
  · refine recvproc_keeps fun result => ?_
    cases result with
    | none => exact .seq .act (h none)
    | some realSize => exact .seq .act (h _)

theorem pkgBodyProc_keeps : Keeps (pkgBodyProc c) [] back :=
  .call (.read fun _ => .seq inMsgRecv_keeps .perform)

theorem pkgHeaderProc_keeps : Keeps (pkgHeaderProc c) [] back := by
  refine .call (.atom fun whole => ?_)
  cases whole with
  | false => exact .skip
  | true => exact pkgBodyProc_keeps

theorem receive_keeps {recv : (Option Nat → Program) → Program} {proc : Program} {going : CurStat}
    (hrecv : ∀ next, (∀ result, Keeps (next result) [] []) → Keeps (recv next) [] [])
    (hproc : Keeps proc [] []) : Keeps (receive c recv proc going) [] [] := by
  refine .read fun supposeSize => hrecv _ fun result => ?_
  cases result with
  | none => exact .ret
  | some recvSize =>
      dsimp only
      split
      · exact hproc
      · exact .act

theorem receiveHeader_keeps : Keeps (receiveHeader c) [] [] :=
  receive_keeps (fun _ h => pkgHeaderRecv_keeps h) pkgHeaderProc_keeps

theorem receiveBody_keeps : Keeps (receiveBody c) [] [] :=
  receive_keeps (fun _ h => pkgBodyRecv_keeps h) pkgBodyProc_keeps

theorem eventReadableRequestHandler_keeps :
    Keeps (eventReadableRequestHandler c) [] back := by
  refine .call (.read fun curstat => ?_)
  cases curstat with
  | hdInit => exact .seq .act receiveHeader_keeps
  | hdRecving => exact .test .ret receiveHeader_keeps
  | bdInit => exact .test .ret receiveBody_keeps
  | bdRecving => exact .test .ret receiveBody_keeps

theorem welcome_keeps {connfd : Fd} : Keeps (welcome connfd c) [] [] := by
  refine .seq (.when (.seq closeConnection_keeps .exit)) (.seq .perform (.andThen ?_ ?_))
  · refine .atom fun result => ?_
    split
    · exact .seq closeConnection_keeps .ret
    · exact .skip
  · exact .seq (.when addToTimerQueue_keeps) .act

theorem admit_keeps {connfd : Fd} : Keeps (acceptClient connfd) [] [] :=
  .seq (.when (.seq .act .ret)) (.seq (.when .exit) (.seq (.when (.seq .act .ret))
    (getConnectionItem_keeps nofun fun _ => welcome_keeps)))

theorem eventAcceptHandler_keeps : Keeps (eventAcceptHandler c) [] back := by
  refine .call (.atom fun accepted => ?_)
  cases accepted with
  | none => exact .ret
  | some connfd => exact admit_keeps

theorem callHandler_keeps {handler : Option EventHandler} :
    Keeps (callHandler c handler) [] back := by
  match handler with
  | none => exact .exit
  | some .accept => exact eventAcceptHandler_keeps
  | some .readable => exact eventReadableRequestHandler_keeps
  | some .writable => exact .perform

theorem handleEvent_keeps {events : Mask} : Keeps (handleEvent c events) [] back := by
  refine .andThen ?_ ?_
  · split
    · exact .read fun _ => callHandler_keeps
    · exact .skip
  · split
    · split
      · exact .seq .act (closeAcceptedConnection_keeps nofun)
      · exact .read fun _ => callHandler_keeps
    · exact .skip

theorem epollProcessEvents_keeps : Keeps epollProcessEvents [] back :=
  .call (.seq .perform (.loop fun _ => handleEvent_keeps))

theorem epollEventInit_keeps : Keeps epollEventInit [] back :=
  .seq .perform (.loop fun _ => getConnectionItem_keeps nofun fun _ => .perform)

theorem program_keeps {n : Nat} (t : ThreadName n) : Keeps (program t) [] [] := by
  cases t with
  | eventLoop => exact .seq epollEventInit_keeps (.loopWhile epollProcessEvents_keeps)
  | worker w => exact threadFunc_keeps
  | sender => exact sendMsgThreadFunc_keeps
  | timer => exact serverTimerQueueThreadFunc_keeps
  | recycle => exact recyConnThreadFunc_keeps

end Functions

section Runs

variable {n : Nat} {boot : Boot} {k : Process n} {actions : List (ThreadName n × Input)}

/-- The lock discipline of the server. -/
structure Disciplined (k : Process n) : Prop where
  self : ∀ t m, k.Requests t m → k.holder m ≠ some t
  single : ∀ t c d, k.holder (.connMutex c) = some t → k.holder (.connMutex d) = some t → c = d
  nested : ∀ t m m', k.holder m = some t → k.Requests t m' → Before m m'
  circle : ∀ t, ¬ Relation.TransGen k.Waits t t

theorem disciplined_of_orderly (h : Orderly Before k) : Disciplined k where
  self t m hr := h.not_own (fun _ _ hb => hb.rank_lt) hr
  single t c d hc hd := by
    obtain ⟨held, self⟩ := h t
    by_contra hne
    have hpair := self.pair hc hd (by simpa using hne)
    rcases hpair with hb | hb <;> cases hb
  nested t m m' hm hr := by
    obtain ⟨held, self⟩ := h t
    exact self.behind hr hm
  circle t := h.no_circle fun _ _ hb => hb.rank_lt

theorem start_orderly : Orderly Before (start n boot) :=
  orderly_of_ordered (fun _ => rfl) fun t => ⟨program t, rfl, program_keeps t⟩

/-- While no reply is dropped for backlog and the send thread meets no length mismatch,
no thread asks for a mutex it holds or holds those of two connections, the mutexes are
nested in order, and no threads wait for each other in a circle. -/
theorem never_deadlocked (hr : run Threads.step (start n boot) actions = some k)
    (unnoted : Along Threads.step Threads.Unnoted (start n boot) actions) : Disciplined k :=
  disciplined_of_orderly <|
    (throughout_of_along (fun _ _ _ hi hc hs => hi.step Before.irrefl hc hs) start_orderly
      unnoted).last hr

/-- A thread makes `count` steps with one input. -/
def steps (t : ThreadName n) (input : Input) (count : Nat) : List (ThreadName n × Input) :=
  List.replicate count (t, input)

/-- The event loop accepts a connection, finds it reset by its peer and is about to close
it, while the timer thread closes it because of its silence and stands in
`InRecyConnQueue`. -/
def resetWhileTimedOut : List (ThreadName 2 × Input) :=
  steps .eventLoop { env := { accept := [.accepted 5], now := 100 }, fds := [(3, epollin)] } 64 ++
    steps .eventLoop { env := { recv := .failed .econnreset }, fds := [(5, epollin)] } 18 ++
    steps .timer { env := { now := 200 } } 38

theorem never_deadlocked_while_waiting :
    ∃ k : Process 2, run Threads.step (start 2 Boot.small) resetWhileTimedOut = some k ∧
      k.Waits .eventLoop .timer ∧ k.holder .timerMutex = some .timer ∧
      k.holder .recymutex = some .timer ∧ Disciplined k := by
  have hends : ((run Threads.step (start 2 Boot.small) resetWhileTimedOut).map fun k =>
      ((k.control .eventLoop).asks, k.holder (.connMutex 1), k.holder .timerMutex,
        k.holder .recymutex)) =
      some (some (.connMutex 1), some .timer, some .timer, some .timer) := by decide +kernel
  have hquiet : Along Threads.step Threads.Unnoted (start 2 Boot.small) resetWhileTimedOut := by
    decide +kernel
  obtain ⟨k, hr, hk⟩ := Option.map_eq_some_iff.mp hends
  simp only [Prod.mk.injEq] at hk
  obtain ⟨hasks, hconn, htimer, hrecy⟩ := hk
  exact ⟨k, hr, ⟨_, hasks, hconn⟩, htimer, hrecy, never_deadlocked hr hquiet⟩

end Runs

end Locking

end MyNginx
