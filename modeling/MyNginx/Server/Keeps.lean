import MyNginx.Server.Boot

/-!
# What the loop does to the sending side

Apart from the `EPOLLOUT` handler, the loop and the threads beside it write nothing and
queue nothing. On the sending side of a connection they do nothing, or the connection
is closed or has been marked, or a new use of its object begins.
-/

namespace MyNginx

open Foundation

namespace State

variable {s s' t : State} {c d : ConnId} {env : Env}

/-- A connection that is open and not marked by the timer thread. -/
def Live (s : State) (c : ConnId) : Prop :=
  s.Used c ∧ (s.conn c).fd ≠ -1 ∧ (s.conn c).istimeout = false

/-- Free objects have no reply in progress. -/
def Cleared (s : State) : Prop := ∀ c ∈ s.freeConnectionList, (s.conn c).pSendbuf = none

/-- The sending side of one connection, when nothing is written and nothing queued. -/
inductive Line (s s' : State) (c : ConnId) : Prop
  | same (use : s'.history.use c = s.history.use c) (live : s'.Live c → s.Live c)
      (outgoing : (s'.conn c).toOutgoing = (s.conn c).toOutgoing)
  | gone (use : s'.history.use c = s.history.use c) (dead : ¬ s'.Live c)
      (sendbuf : ∀ p, (s'.conn c).pSendbuf = some p → (s.conn c).pSendbuf = some p ∧
        (s'.conn c).sendlen = (s.conn c).sendlen ∧
        (s'.conn c).sendlenAlready = (s.conn c).sendlenAlready)
  | fresh (use : s.history.use c < s'.history.use c) (sendbuf : (s'.conn c).pSendbuf = none)
      (idle : (s'.conn c).iThrowsendCount = 0)

/-- A step that writes nothing and queues nothing. -/
structure Keeps (s s' : State) : Prop where
  queue : s'.toSendQueue = s.toSendQueue
  queued : s'.history.queued = s.history.queued
  wire : s'.history.wire = s.history.wire
  suppose : ∀ c, (s'.conn c).sendlenSuppose = (s.conn c).sendlenSuppose
  line : ∀ c, s'.Used c → Line s s' c
  cleared : s.Cleared → s'.Cleared

/-- Nothing that the sending side depends on changes. -/
theorem Line.of_same (use : s'.history.use = s.history.use) (link : (s'.conn c).link = (s.conn c).link)
    (life : (s'.conn c).life = (s.conn c).life)
    (outgoing : (s'.conn c).toOutgoing = (s.conn c).toOutgoing) : Line s s' c := by
  simp only [Connection.life, Prod.mk.injEq] at life
  refine .same (by rw [use]) ?_ outgoing
  rw [Live, Used, use, (link_eq link).1, life.2]
  exact id

theorem Quiet.keeps (h : Quiet s s') : Keeps s s' where
  queue := h.sendQueue
  queued := h.queued
  wire := h.wire
  suppose c := congrArg Outgoing.sendlenSuppose (h.outgoing c)
  line c _ := .of_same h.use_eq (h.link c) (h.life c) (h.outgoing c)
  cleared hc c hfree := by
    have hlist : s'.freeConnectionList = s.freeConnectionList := congrArg ObjectPool.free h.view
    rw [congrArg Outgoing.pSendbuf (h.outgoing c)]
    exact hc c (hlist ▸ hfree)

/-- Only the connection `c` is touched, and it is not live afterwards. -/
theorem Keeps.of_gone (queue : s'.toSendQueue = s.toSendQueue) (history : s'.history.use = s.history.use)
    (queued : s'.history.queued = s.history.queued) (wire : s'.history.wire = s.history.wire)
    (other : ∀ d, d ≠ c → s'.conn d = s.conn d) (dead : ¬ s'.Live c)
    (outgoing : ∀ p, (s'.conn c).pSendbuf = some p → (s'.conn c).pSendbuf = (s.conn c).pSendbuf)
    (lengths : (s'.conn c).sendlen = (s.conn c).sendlen ∧
      (s'.conn c).sendlenAlready = (s.conn c).sendlenAlready ∧
      (s'.conn c).sendlenSuppose = (s.conn c).sendlenSuppose)
    (free : ∀ d ∈ s'.freeConnectionList, d ∈ s.freeConnectionList ∨ (s'.conn d).pSendbuf = none) :
    Keeps s s' where
  queue := queue
  queued := queued
  wire := wire
  suppose d := by
    by_cases hd : d = c
    · rw [hd, lengths.2.2]
    · rw [other d hd]
  line d _ := by
    by_cases hd : d = c
    · subst hd
      exact .gone (by rw [history]) dead fun p hp => ⟨by rw [← outgoing p hp, hp], lengths.1, lengths.2.1⟩
    · have hconn := other d hd
      exact .of_same history (by rw [hconn]) (by rw [hconn]) (by rw [hconn])
  cleared hc d hfree := by
    rcases free d hfree with hold | hnone
    · by_cases hd : d = c
      · subst hd
        cases hp : (s'.conn d).pSendbuf with
        | none => rfl
        | some p =>
            have hnone := hc d hold
            rw [← outgoing p hp, hp] at hnone
            cases hnone
      · rw [other d hd]
        exact hc d hold
    · exact hnone

theorem keeps_mark {head : MsgHeader} {due : List MsgHeader} {curTime : Time} :
    Keeps s ((s.modifyConn head.lpCurconn fun conn => { conn with istimeout := true }).setTimer
      s.toTimerQueue (.marked head due curTime)) := by
  refine .of_gone (c := head.lpCurconn) rfl rfl rfl rfl (fun d hd => by simp [hd]) ?_ ?_ ?_
    fun d hd => .inl hd
  · simp [Live]
  · simp
  · simp

theorem keeps_hangup (gone : (s.conn c).fd = -1 ∨ (s.conn c).istimeout = true) :
    Keeps s (s.hangup c) := by
  refine .of_gone (c := c) rfl rfl rfl rfl (fun d hd => by simp [hangup, hd]) ?_ ?_ ?_
    fun d hd => .inl hd
  · rintro ⟨-, hfd, hlife⟩
    rcases gone with hgone | hgone
    · simp [hangup, hgone] at hfd
    · simp [hangup, hgone] at hlife
  · simp [hangup]
  · simp [hangup]

theorem keeps_close (counted : t = s ∨ t = s.hangup c) (now : Time) :
    Keeps s (t.afterClose c now) := by
  rcases counted with rfl | rfl
  · refine .of_gone (c := c) rfl rfl rfl rfl (fun d hd => by simp [afterClose, hd]) ?_ ?_ ?_
      fun d hd => .inl hd
    · simp [afterClose, Live]
    · simp [afterClose]
    · simp [afterClose]
  · refine .of_gone (c := c) rfl rfl rfl rfl (fun d hd => by simp [afterClose, hangup, hd]) ?_ ?_ ?_
      fun d hd => .inl hd
    · simp [afterClose, Live]
    · simp [afterClose, hangup]
    · simp [afterClose, hangup]

theorem keeps_recycle (inv : s.Inv) {front back : List ConnId} {count : Int}
    (list : s.recyConnectionList = front ++ c :: back) :
    Keeps s { s.recycle c (front ++ back) with recyConnectionCount := count } := by
  have hfd : (s.conn c).fd = -1 := inv.delayed_closed (by simp [list])
  refine .of_gone (c := c) rfl rfl rfl rfl (fun d hd => by simp [recycle, hd]) ?_ ?_ ?_
    fun d hd => ?_
  · simp [Live, recycle, hfd]
  · simp [recycle]
  · simp [recycle]
  · by_cases hdc : d = c
    · exact .inr (by simp [recycle, hdc])
    · exact .inl (by simpa [recycle, hdc] using hd)

/-- An object taken out of the pool has no reply in progress. -/
theorem TakenFor.sendbuf {connfd : Fd} (h : TakenFor s connfd c t) (cleared : s.Cleared) :
    (t.conn c).pSendbuf = none := by
  rcases h.takes.sendbuf with hnone | ⟨hfree, hsame⟩
  · exact hnone
  · rw [hsame]
    exact cleared c hfree

/-- A use of the object `c` began, and nothing else of the sending side changed. -/
theorem keeps_taken {u : State} {connfd : Fd} (cleared : s.Cleared)
    (taken : TakenFor s connfd c t) (queue : u.toSendQueue = t.toSendQueue)
    (queued : u.history.queued = t.history.queued) (wire : u.history.wire = t.history.wire)
    (use : u.history.use = Function.update t.history.use c (t.history.use c + 1))
    (self : (u.conn c).pSendbuf = (t.conn c).pSendbuf ∧ (u.conn c).iThrowsendCount = 0 ∧
      (u.conn c).sendlenSuppose = (t.conn c).sendlenSuppose)
    (other : ∀ d, d ≠ c → u.conn d = t.conn d)
    (free : ∀ d ∈ u.freeConnectionList, d = c ∨ d ∈ t.freeConnectionList) : Keeps s u where
  queue := queue.trans taken.takes.replies
  queued := by rw [queued, taken.takes.history]; rfl
  wire := by rw [wire, taken.takes.history]; rfl
  suppose d := by
    by_cases hd : d = c
    · subst hd
      exact self.2.2.trans taken.takes.suppose
    · rw [other d hd, taken.takes.other d hd]
      rfl
  line d _ := by
    have hhistory : t.history = s.history := taken.takes.history
    by_cases hd : d = c
    · subst hd
      refine .fresh ?_ (self.1.trans (taken.sendbuf cleared)) self.2.1
      rw [use, hhistory, Function.update_self]
      exact Nat.lt_succ_self _
    · have hconn : u.conn d = s.conn d := (other d hd).trans (taken.takes.other d hd)
      have huse : u.history.use d = s.history.use d := by
        rw [use, Function.update_of_ne hd, hhistory]
      refine .same huse ?_ (by rw [hconn])
      rw [Live, Live, Used, Used, huse, hconn]
      exact id
  cleared hc d hfree := by
    by_cases hd : d = c
    · subst hd
      exact self.1.trans (taken.sendbuf hc)
    · rw [other d hd, taken.takes.other d hd]
      exact hc d (taken.takes.taken.mem_free ((free d hfree).resolve_left hd))

theorem Admits.keeps {connfd : Fd} (h : Admits s connfd env s') (cleared : s.Cleared) :
    Keeps s s' := by
  cases h with
  | refused => exact (Quiet.refl s).keeps
  | opened taken room timer =>
      rename_i t w c
      rcases timer with ⟨-, rfl⟩ | ⟨-, rfl⟩
      · refine keeps_taken cleared taken rfl rfl rfl ?_ ?_ ?_ fun d hd => .inr hd
        · simp [registered, prepared, getOneToUse]
        · simp [registered, prepared, getOneToUse]
        · intro d hd
          simp [registered, prepared, getOneToUse, hd]
      · refine keeps_taken cleared taken rfl rfl rfl ?_ ?_ ?_ fun d hd => .inr hd
        · simp [addToTimerQueue, registered, prepared, getOneToUse]
        · simp [addToTimerQueue, registered, prepared, getOneToUse]
        · intro d hd
          simp [addToTimerQueue, registered, prepared, getOneToUse, hd]
  | rejected taken =>
      rename_i t c
      refine keeps_taken cleared taken rfl rfl rfl ?_ ?_ ?_ fun d hd => ?_
      · simp [State.rejected, prepared, getOneToUse]
      · simp [State.rejected, prepared, getOneToUse]
      · intro d hd
        simp [State.rejected, prepared, getOneToUse, hd]
      · simpa [State.rejected, prepared, getOneToUse, or_comm] using hd

/-- A move that is not the writing of the `EPOLLOUT` handler keeps the sending side. -/
theorem Move.keeps (h : Move env s s') (inv : s.Inv) (cleared : s.Cleared) :
    Keeps s s' ∨ ∃ c, s.Used c ∧ Writes s c env s' := by
  cases h with
  | quiet h => exact .inl h.keeps
  | mark timer current silent => exact .inl keeps_mark
  | report ok =>
      exact .inl ⟨rfl, rfl, rfl, fun _ => rfl, fun _ _ => .of_same rfl rfl rfl rfl, id⟩
  | stop => exact .inl ⟨rfl, rfl, rfl, fun _ => rfl, fun _ _ => .of_same rfl rfl rfl rfl, id⟩
  | hangup gone => exact .inl (keeps_hangup gone)
  | close used opened counted => exact .inl (keeps_close counted _)
  | recycle list counted => exact .inl (keeps_recycle inv list)
  | admits nonneg fresh h => exact .inl (h.keeps cleared)
  | write used h => exact .inr ⟨_, used, h⟩

/-- Sending keeps free objects without a reply in progress. -/
theorem Cleared.sends {out : Outgoing} {queue : SendQueue} {written : List Written}
    (cleared : s.Cleared) (h : Sends s c out queue written s')
    (hout : ∀ p, out.pSendbuf = some p →
      (s.conn c).pSendbuf ≠ none ∨ c ∉ s.freeConnectionList) : s'.Cleared := by
  intro d hfree
  have hlist : s'.freeConnectionList = s.freeConnectionList := congrArg ObjectPool.free h.steady.view
  rw [hlist] at hfree
  by_cases hd : d = c
  · subst hd
    rw [congrArg Outgoing.pSendbuf h.self]
    cases hp : out.pSendbuf with
    | none => rfl
    | some p =>
        rcases hout p hp with hbusy | hnot
        · exact absurd (cleared d hfree) hbusy
        · exact absurd hfree hnot
  · rw [congrArg Outgoing.pSendbuf (h.other d hd)]
    exact cleared d hfree

theorem Writes.cleared (h : Writes s c env s') (cleared : s.Cleared) : s'.Cleared := by
  cases h with
  | failed fails sends => exact cleared.sends sends fun _ hp => by cases hp
  | part lt puts sends =>
      refine cleared.sends sends fun p hp => .inl ?_
      obtain ⟨q, hq, -⟩ := Option.map_eq_some_iff.mp hp
      rw [hq]
      exact Option.some_ne_none q
  | mismatch le puts differs sends =>
      refine cleared.sends sends fun p hp => .inl ?_
      rw [show (s.conn c).pSendbuf = some p from hp]
      exact Option.some_ne_none p
  | finished le puts equal sends => exact cleared.sends sends fun _ hp => by cases hp

theorem Entry.cleared {i : Nat} {reply : Reply} {next : SendNext}
    (h : Entry s i reply c env s' next) (inv : s.Inv) (cleared : s.Cleared) : s'.Cleared := by
  cases h with
  | discarded outdated sends => exact cleared.sends sends fun _ hp => by cases hp
  | skipped current busy same => exact same ▸ cleared
  | failed current idle fails sends => exact cleared.sends sends fun _ hp => by cases hp
  | part current idle lt puts sends =>
      exact cleared.sends sends fun _ _ => .inr (inv.not_free (Connection.fd_ne_of_judgeOutdate current))
  | mismatch current idle puts differs sends =>
      exact cleared.sends sends fun _ _ => .inr (inv.not_free (Connection.fd_ne_of_judgeOutdate current))
  | finished current idle puts equal sends => exact cleared.sends sends fun _ hp => by cases hp

theorem Moves.cleared (h : Moves env s s') (inv : s.Inv)
    (cleared : s.Cleared) : s'.Cleared := by
  induction h with
  | refl => exact cleared
  | tail hs hmove ih =>
      rcases hmove.keeps (Moves.evolves hs inv).inv ih with hkeeps | ⟨c, -, hwrites⟩
      · exact hkeeps.cleared ih
      · exact hwrites.cleared ih

end State

theorem Boot.Starts.cleared {boot : Boot} {s : State} (h : boot.Starts s) : s.Cleared := by
  obtain ⟨⟨all, htaking⟩, -⟩ := h.spec
  intro c hfree
  have hcount : 0 < s.view.free.count c := List.count_pos_iff.mpr hfree
  exact htaking.sendbuf c (h.inv.pool.place (c := c) (by omega)).1

end MyNginx
