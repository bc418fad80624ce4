import MyNginx.Server.Headers
import MyNginx.Server.Partition
import MyNginx.Server.Registration

/-!
# Delayed recycling

A connection that is closed waits in the recycle list, with the time of its closing, and
only a pass of the recycle thread takes it out, when the clock has passed the delay. No
other step touches a waiting object or the list it waits in, so `get_connection_item` finds
it neither in the free queue nor among the new ones.
-/

namespace MyNginx

open Foundation

namespace State

variable {s s' t : State} {c d : ConnId} {env : Env} {now since : Time}

/-- The object has been closed at the time `since` and waits in the recycle list. -/
structure Waiting (s : State) (c : ConnId) (since : Time) : Prop where
  listed : c ∈ s.recyConnectionList
  closed : (s.conn c).fd = -1
  since_eq : (s.conn c).inrevyTime = since

/-- What is waiting goes on waiting, and what is closed begins to wait. -/
structure Delays (now : Time) (s s' : State) : Prop where
  waits : ∀ c since, s.Waiting c since → s'.Waiting c since ∧ s'.history.use c = s.history.use c
  closes : ∀ entry ∈ s'.history.closes, entry ∈ s.history.closes ∨ s'.Waiting entry.1 now

theorem Delays.refl (now : Time) (s : State) : Delays now s s :=
  ⟨fun _ _ h => ⟨h, rfl⟩, fun _ h => .inl h⟩

theorem Delays.trans (h : Delays now s t) (h' : Delays now t s') : Delays now s s' where
  waits c since hwait := by
    obtain ⟨hmid, huse⟩ := h.waits c since hwait
    obtain ⟨hlast, huse'⟩ := h'.waits c since hmid
    exact ⟨hlast, huse'.trans huse⟩
  closes entry hmem := by
    rcases h'.closes entry hmem with hold | hwait
    · rcases h.closes entry hold with hold | hwait
      · exact .inl hold
      · exact .inr (h'.waits _ _ hwait).1
    · exact .inr hwait

/-- A step that neither closes nor recycles and writes no descriptor or closing time. -/
theorem Delays.of_same (list : s'.recyConnectionList = s.recyConnectionList)
    (closes : s'.history.closes = s.history.closes) (use : s'.history.use = s.history.use)
    (conn : ∀ c, (s'.conn c).fd = (s.conn c).fd ∧ (s'.conn c).inrevyTime = (s.conn c).inrevyTime) :
    Delays now s s' where
  waits c since h := by
    obtain ⟨hfd, htime⟩ := conn c
    exact ⟨⟨list ▸ h.listed, hfd.trans h.closed, htime.trans h.since_eq⟩, congrFun use c⟩
  closes entry hmem := .inl (closes ▸ hmem)

theorem ReceiveOnly.delays (h : ReceiveOnly c s s') : Delays now s s' := by
  obtain ⟨blocks, queue, incoming, rfl⟩ := h
  refine .of_same rfl rfl rfl fun d => ?_
  by_cases hd : d = c <;> simp [hd]

theorem SendOnly.delays (h : SendOnly c s s') : Delays now s s' := by
  obtain ⟨queue, interest, wire, out, events, rfl⟩ := h
  refine .of_same rfl rfl rfl fun d => ?_
  by_cases hd : d = c <;> simp [hd]

theorem WorkOnly.delays (h : WorkOnly c s s') : Delays now s s' := by
  obtain ⟨receive, send, queued, out, ping, rfl⟩ := h
  refine .of_same rfl rfl rfl fun d => ?_
  by_cases hd : d = c <;> simp [hd]

/-- The connection that is closed was open, so it is none of those that wait. -/
theorem delays_afterClose (opened : (s.conn c).fd ≠ -1) (now : Time) :
    Delays now s (s.afterClose c now) where
  waits d since h := by
    have hd : d ≠ c := by
      rintro rfl
      exact opened h.closed
    have hconn : (s.afterClose c now).conn d = s.conn d := by simp [afterClose, hd]
    exact ⟨⟨List.mem_append_left [c] h.listed, by rw [hconn, h.closed], by rw [hconn, h.since_eq]⟩,
      rfl⟩
  closes entry hmem := by
    rcases List.mem_append.mp hmem with hold | hnew
    · exact .inl hold
    · obtain rfl := List.mem_singleton.mp hnew
      refine .inr ⟨List.mem_append_right _ (List.mem_singleton_self c), ?_, ?_⟩
      · simp [afterClose]
      · simp [afterClose]

theorem ReadFrame.delays (h : ReadFrame c now s s') : Delays now s s' := by
  cases h with
  | stays h => exact h.delays
  | closes opened h => exact (delays_afterClose opened now).trans h.delays

/-! ### Accepting -/

/-- Taking an object out of the pool leaves the recycle list alone, and the object was not
in it. -/
theorem TakenFor.list_eq {connfd : Fd} (taken : TakenFor s connfd d t) (inv : s.Inv) :
    t.recyConnectionList = s.recyConnectionList ∧ d ∉ s.recyConnectionList := by
  have htaken : s.view.Taken d t.view := taken.takes.taken
  have hdelayed : t.view.delayed = s.view.delayed := by
    generalize t.view = q at htaken
    cases htaken <;> rfl
  refine ⟨hdelayed, fun hmem => ?_⟩
  have hcount : 0 < t.view.delayed.count d := List.count_pos_iff.mpr (hdelayed ▸ hmem)
  have hplace := ((htaken.inv inv.pool).place (c := d) (by simp)).2.2
  rw [List.count_singleton_self] at hplace
  omega

theorem Begun.delays {connfd : Fd} {u : State} (begun : Begun s d u) (inv : s.Inv)
    (taken : TakenFor s connfd d t) (list : u.recyConnectionList = t.recyConnectionList)
    (closes : u.history.closes = t.history.closes) : Delays now s u := by
  obtain ⟨hlist, hnot⟩ := taken.list_eq inv
  have hhistory : t.history = s.history := taken.takes.history
  refine ⟨fun c since h => ?_, fun entry hmem => .inl ?_⟩
  · have hc : c ≠ d := by
      rintro rfl
      exact hnot h.listed
    have hconn := begun.other c hc
    refine ⟨⟨?_, by rw [hconn, h.closed], by rw [hconn, h.since_eq]⟩, begun.use_ne hc⟩
    rw [list, hlist]
    exact h.listed
  · rwa [closes, hhistory] at hmem

theorem Admits.delays {connfd : Fd} (h : Admits s connfd env s') (inv : s.Inv) (hfd : 0 ≤ connfd)
    (hclosed : s.openFds connfd = false) : Delays now s s' := by
  cases h with
  | refused => exact .refl now s
  | opened taken room timer =>
      have hbegun := begun_registered (epollin ||| epollrdhup) env.now inv hfd taken.takes
      rcases timer with ⟨-, rfl⟩ | ⟨-, rfl⟩
      · exact Begun.delays { hbegun with } inv taken rfl rfl
      · exact Begun.delays { hbegun.addToTimerQueue env.later with } inv taken rfl rfl
  | rejected taken =>
      exact (begun_rejected (epollin ||| epollrdhup) env.now inv hclosed taken.takes).delays inv
        taken rfl rfl

theorem acceptLoop_delays {standby : ConnId} {answers : List AcceptAnswer} (inv : s.Inv)
    (h : s.acceptLoop standby env answers = some s') : Delays now s s' := by
  obtain ⟨useAccept4, hcases⟩ := acceptLoop_cases inv h
  have hfirst : Delays now s { s with useAccept4 } := .of_same rfl rfl rfl fun _ => ⟨rfl, rfl⟩
  have hquiet : Quiet s { s with useAccept4 } :=
    quiet_of_view rfl rfl rfl rfl rfl rfl rfl rfl rfl rfl
  rcases hcases with rfl | ⟨connfd, hfd, hclosed, hadmits⟩
  · exact hfirst
  · exact hfirst.trans (hadmits.delays (hquiet.toNeutral.inv inv) hfd hclosed)

/-! ### The event loop and the timer thread -/

theorem closeAcceptedConnection_delays {istimeoutClose : Bool} (idle : s.Idle c)
    (h : s.closeAcceptedConnection c istimeoutClose env = some s') : Delays env.now s s' :=
  (closeAcceptedConnection_frame idle h).delays

theorem handleIn_delays {events : Mask} (inv : s.Inv) (ok : s.EventOk (c, events))
    (h : s.handleIn c events env = some s') : Delays env.now s s' := by
  cases handleIn_cases inv ok h with
  | reads _ hused hread => exact (readable_frame (inv.idle_of_used hused) hread).delays
  | accepts _ _ haccept => exact acceptLoop_delays inv haccept
  | skips => exact .refl env.now s

theorem handleOut_delays {events : Mask} (inv : s.Inv) (ok : s.EventOk (c, events))
    (h : s.handleOut c events env = some s') : Delays env.now s s' := by
  cases handleOut_cases inv ok h with
  | closes _ hused hinv hclose =>
      have hfirst : Delays env.now s (s.hangup c) := .of_same rfl rfl rfl fun d => by
        by_cases hd : d = c <;> simp [State.hangup, hd]
      exact hfirst.trans (closeAcceptedConnection_delays (hinv.idle_of_used hused) hclose)
  | writes _ _ hwrite => exact (writable_frame hwrite).delays
  | skips => exact .refl env.now s

theorem handleEvent_delays (inv : s.Inv) (h : s.handleEvent env = some s') :
    Delays env.now s s' := by
  obtain ⟨c, events, rest, t, hevent⟩ := handleEvent_cases inv h
  have hpop : Delays env.now s { s with events := rest } :=
    .of_same rfl rfl rfl fun _ => ⟨rfl, rfl⟩
  have hread := handleIn_delays hevent.taken.inv hevent.ok hevent.inward
  exact (hpop.trans hread).trans
    (handleOut_delays hevent.between.inv hevent.still hevent.outward)

theorem delays_setTimer {queue : TimerQueue} {timer : TimerPc} :
    Delays now s (s.setTimer queue timer) := .of_same rfl rfl rfl fun _ => ⟨rfl, rfl⟩

theorem timeCheckingProc_delays (h : s.timeCheckingProc = some s') : Delays now s s' := by
  cases timeCheckingProc_cases h with
  | finished | outdated | heard => exact delays_setTimer
  | @silent head =>
      refine .of_same rfl rfl rfl fun d => ?_
      by_cases hd : d = head.lpCurconn <;> simp [hd]

theorem timeOutClose_delays (inv : s.Inv) (h : s.timeOutClose env = some s') :
    Delays env.now s s' := by
  obtain ⟨head, due, curTime, t, -, hused, hclose, rfl⟩ := timeOutClose_cases inv h
  exact (closeAcceptedConnection_delays (inv.idle_of_used hused) hclose).trans delays_setTimer

/-! ### A pass of the recycle thread -/

/-- The clock readings of a pass. -/
def readings (s : State) (times : List Time) : List Time :=
  if s.recyConnectionCount > 0 then times.take s.recyConnectionList.length else []

/-- The delay of the entry is over when the clock shows `now`. -/
def Overdue (s : State) (now : Time) (c : ConnId) : Prop :=
  (s.conn c).inrevyTime + s.conf.delayTime < now

instance (s : State) (now : Time) : DecidablePred (s.Overdue now) := fun _ =>
  inferInstanceAs (Decidable (_ < _))

/-- The entries of the recycle list whose time has not come when the clock shows `times`. -/
def pending (s : State) (ahead : List ConnId) (times : List Time) : List ConnId :=
  ((ahead.zip times).filter fun entry =>
    ¬ s.conf.delayTime + (s.conn entry.1).inrevyTime < entry.2).map Prod.fst

theorem pending_cons_of_due {ahead : List ConnId} {times : List Time}
    (due : s.conf.delayTime + (s.conn c).inrevyTime < now) :
    s.pending (c :: ahead) (now :: times) = s.pending ahead times := by
  simp only [pending, List.zip_cons_cons]
  rw [List.filter_cons_of_neg (by simpa using due)]

theorem pending_cons_of_not {ahead : List ConnId} {times : List Time}
    (early : ¬ s.conf.delayTime + (s.conn c).inrevyTime < now) :
    s.pending (c :: ahead) (now :: times) = c :: s.pending ahead times := by
  simp only [pending, List.zip_cons_cons]
  rw [List.filter_cons_of_pos (by simpa using early), List.map_cons]

@[simp] theorem pending_recycle (c : ConnId) (others ahead : List ConnId) (times : List Time) :
    (s.recycle c others).pending ahead times = s.pending ahead times := by
  simp only [pending, inrevyTime_recycle]
  rfl

/-- What a pass does to the free queue, the recycle list and its counter. -/
structure Passes (due others : List ConnId) (s s' : State) : Prop where
  free : s'.freeConnectionList = s.freeConnectionList ++ due
  list : s'.recyConnectionList = others
  count : s'.recyConnectionCount = s.recyConnectionCount - due.length

/-- The loop of a pass: every entry ahead of the iterator takes one reading, and what is
overdue leaves the list for the free queue in the order of the list. -/
theorem recyLoop_passes {kept ahead : List ConnId} {times : List Time}
    (running : s.stopEvent = false) (list : s.recyConnectionList = kept ++ ahead)
    (h : s.recyLoop kept ahead times = some s') :
    Passes (s.overdue ahead times) (kept ++ s.pending ahead times) s s' ∧
      ahead.length ≤ times.length := by
  induction ahead generalizing s kept times with
  | nil =>
      obtain rfl := Option.some.inj h
      exact ⟨⟨(List.append_nil _).symm, list, (Int.sub_zero _).symm⟩, Nat.zero_le _⟩
  | cons c ahead ih =>
      cases times with
      | nil => cases h
      | cons curTime times =>
          simp only [recyLoop] at h
          split at h
          next hdue =>
            obtain ⟨hpass, hlength⟩ := ih (by exact running) rfl h
            have hsame : ∀ due others, Passes due others
                (({ s with recyConnectionCount := s.recyConnectionCount - 1 } : State).recycle c
                  (kept ++ ahead)) s' → Passes (c :: due) others s s' := by
              intro due others hrest
              refine ⟨?_, hrest.list, ?_⟩
              · rw [hrest.free]
                exact List.append_assoc s.freeConnectionList [c] due
              · rw [hrest.count, List.length_cons]
                show s.recyConnectionCount - 1 - (due.length : Int) = _
                omega
            refine ⟨?_, Nat.succ_le_succ hlength⟩
            rw [overdue_cons_of_due hdue.1, pending_cons_of_due hdue.1]
            apply hsame
            rwa [overdue_recycle, pending_recycle] at hpass
          next hnot =>
            have hearly : ¬ s.conf.delayTime + (s.conn c).inrevyTime < curTime := fun hdue =>
              hnot ⟨hdue, running⟩
            obtain ⟨hpass, hlength⟩ := ih running (by rw [list, List.append_assoc]; rfl) h
            refine ⟨?_, Nat.succ_le_succ hlength⟩
            rw [overdue_cons_of_not hearly, pending_cons_of_not hearly]
            rwa [List.append_assoc] at hpass

theorem filter_zip_uniform {p : ConnId → Time → Bool} {ahead : List ConnId} {times : List Time}
    (enough : ahead.length ≤ times.length) (uniform : ∀ time ∈ times, time = now) :
    ((ahead.zip times).filter fun entry => p entry.1 entry.2).map Prod.fst =
      ahead.filter fun c => p c now := by
  induction ahead generalizing times with
  | nil => rfl
  | cons c ahead ih =>
      cases times with
      | nil => simp at enough
      | cons time times =>
          obtain rfl := uniform time List.mem_cons_self
          have hrest := ih (Nat.le_of_succ_le_succ enough) fun time' hmem =>
            uniform time' (List.mem_cons_of_mem _ hmem)
          simp only [List.zip_cons_cons, List.filter_cons]
          split
          · rw [List.map_cons, hrest]
          · exact hrest

/-- A pass in which the clock always shows `now` moves the entries whose delay is over. -/
theorem recyConnThreadFunc_passes {times : List Time} (running : s.stopEvent = false)
    (counted : s.recyConnectionCount = s.recyConnectionList.length)
    (uniform : ∀ time ∈ times, time = now) (h : s.recyConnThreadFunc times = some s') :
    Passes (s.recyConnectionList.filter (s.Overdue now ·))
      (s.recyConnectionList.filter (¬ s.Overdue now ·)) s s' := by
  simp only [recyConnThreadFunc, running, Bool.false_eq_true, if_false] at h
  split at h
  · cases h
  split at h
  next hcount =>
    obtain ⟨hpass, henough⟩ := recyLoop_passes running rfl h
    have hdue : s.overdue s.recyConnectionList times =
        s.recyConnectionList.filter (s.Overdue now ·) := by
      rw [overdue, filter_zip_uniform
        (p := fun c time => s.conf.delayTime + (s.conn c).inrevyTime < time) henough uniform]
      simp only [Overdue, Int.add_comm]
    have hleft : s.pending s.recyConnectionList times =
        s.recyConnectionList.filter (¬ s.Overdue now ·) := by
      rw [pending, filter_zip_uniform
        (p := fun c time => ¬ s.conf.delayTime + (s.conn c).inrevyTime < time) henough uniform]
      simp only [Overdue, Int.add_comm]
    rw [hdue, hleft] at hpass
    exact hpass
  next hcount =>
    obtain rfl := Option.some.inj h
    have hempty : s.recyConnectionList = [] := List.length_eq_zero_iff.mp (by omega)
    rw [hempty]
    exact ⟨(List.append_nil _).symm, hempty, (Int.sub_zero _).symm⟩

theorem recyLoop_isSome {kept ahead : List ConnId} {times : List Time}
    (enough : ahead.length ≤ times.length) : (s.recyLoop kept ahead times).isSome := by
  induction ahead generalizing s kept times with
  | nil => rfl
  | cons c ahead ih =>
      cases times with
      | nil => simp at enough
      | cons time times =>
          simp only [recyLoop]
          split
          · exact ih (Nat.le_of_succ_le_succ enough)
          · exact ih (Nat.le_of_succ_le_succ enough)

/-- A pass takes place as soon as the thread runs and the clock answers. -/
theorem recyConnThreadFunc_isSome {times : List Time} (alive : s.recyThread = true)
    (enough : s.recyConnectionList.length ≤ times.length) :
    (s.recyConnThreadFunc times).isSome := by
  simp only [recyConnThreadFunc, alive, Bool.true_eq_false, if_false]
  split
  · split
    · rfl
    · exact recyLoop_isSome enough
  · rfl

/-- An entry whose delay is not over at any reading of a pass stays in the list. -/
theorem recyConnThreadFunc_waits {times : List Time} (running : s.stopEvent = false)
    (h : s.recyConnThreadFunc times = some s') (hwait : s.Waiting c since)
    (early : ∀ time ∈ s.readings times, time ≤ since + s.conf.delayTime) :
    s'.Waiting c since ∧ s'.history.use c = s.history.use c := by
  have hreturns := recyConnThreadFunc_returns h
  have huse := congrFun hreturns.use c
  simp only [recyConnThreadFunc, running, Bool.false_eq_true, if_false] at h
  split at h
  · cases h
  split at h
  next hcount =>
    rw [readings, if_pos hcount] at early
    rw [returned, if_pos hcount, running] at hreturns
    obtain ⟨hpass, henough⟩ := recyLoop_passes running rfl h
    have hreading : ∀ time, (c, time) ∈ s.recyConnectionList.zip times →
        ¬ s.conf.delayTime + (s.conn c).inrevyTime < time := by
      intro time hmem
      obtain ⟨i, hget⟩ := List.mem_iff_getElem?.mp hmem
      obtain ⟨hlisted, htime⟩ := List.getElem?_zip_eq_some.mp hget
      obtain ⟨hi, -⟩ := List.getElem?_eq_some_iff.mp hlisted
      have hread : time ∈ times.take s.recyConnectionList.length :=
        List.mem_iff_getElem?.mpr ⟨i, by rw [List.getElem?_take_of_lt hi, htime]⟩
      rw [hwait.since_eq, Int.add_comm, Int.not_lt]
      exact early time hread
    have hkept : c ∉ s.overdue s.recyConnectionList times := by
      intro hmem
      obtain ⟨⟨d, time⟩, hentry, rfl⟩ := List.mem_map.mp hmem
      obtain ⟨hzip, hdue⟩ := List.mem_filter.mp hentry
      exact hreading time hzip (by simpa using hdue)
    have hconn := hreturns.other c hkept
    refine ⟨⟨?_, by rw [hconn, hwait.closed], by rw [hconn, hwait.since_eq]⟩, huse⟩
    rw [hpass.list, List.nil_append]
    obtain ⟨i, hlisted⟩ := List.mem_iff_getElem?.mp hwait.listed
    obtain ⟨hi, -⟩ := List.getElem?_eq_some_iff.mp hlisted
    obtain ⟨time, htime⟩ : ∃ time, times[i]? = some time :=
      ⟨_, List.getElem?_eq_getElem (Nat.lt_of_lt_of_le hi henough)⟩
    have hzip : (c, time) ∈ s.recyConnectionList.zip times :=
      List.mem_iff_getElem?.mpr ⟨i, List.getElem?_zip_eq_some.mpr ⟨hlisted, htime⟩⟩
    have hstays : (c, time) ∈ (s.recyConnectionList.zip times).filter fun entry =>
        ¬ s.conf.delayTime + (s.conn entry.1).inrevyTime < entry.2 :=
      List.mem_filter.mpr ⟨hzip, by simpa using hreading time hzip⟩
    exact List.mem_map_of_mem hstays
  next =>
    obtain rfl := Option.some.inj h
    exact ⟨hwait, rfl⟩

/-- An object that waits is not what `get_connection_item` finds. -/
theorem Inv.getConnectionItem_ne (inv : s.Inv) (hwait : s.Waiting c since) :
    s.getConnectionItem.2 ≠ c := by
  have hcount : 0 < s.view.delayed.count c := List.count_pos_iff.mpr hwait.listed
  obtain ⟨hobject, -, hplace⟩ := inv.pool.place (c := c) (by omega)
  have hnumbered : s.connectionList = List.range s.connectionList.length := inv.pool.numbered
  have hobject : c ∈ s.connectionList := hobject
  rw [getConnectionItem]
  split
  next first rest hfree =>
    intro heq
    have hsame : first = c := heq
    have hfirst : 0 < s.view.free.count c := by
      rw [List.count_pos_iff, show s.view.free = first :: rest from hfree, hsame]
      exact List.mem_cons_self
    omega
  next =>
    rintro rfl
    rw [hnumbered] at hobject
    simp at hobject

end State

namespace Server

open State

variable {s s₁ : State} {boot : Boot} {c : ConnId} {u : Nat} {since : Time}

/-- What the clock shows in a step. -/
def Action.now : Action → Time
  | .loop action => action.env.now
  | .work _ now => now
  | .sendEntry _ env => env.now

/-- The clock readings of a step that is a pass of the recycle thread. -/
def observed (s : State) : Action → List Time
  | .loop (.recycle times) => s.readings times
  | _ => []

/-- A step of another thread than the recycle thread. -/
theorem step_delays (inv : s.Inv) {action : Action}
    (other : ∀ times, action ≠ .loop (.recycle times)) (h : step s action = some s₁) :
    Delays action.now s s₁ := by
  cases action with
  | loop action =>
      cases action with
      | epollWait events =>
          obtain ⟨reported, -, rfl⟩ := epollWait_reports h
          exact .of_same rfl rfl rfl fun _ => ⟨rfl, rfl⟩
      | handleEvent env => exact handleEvent_delays inv h
      | timerBegin curTime =>
          rcases (timerBegin_cases h).2 with rfl | ⟨queue, due, -, rfl⟩
          · exact .refl _ _
          · exact delays_setTimer
      | timerCheck => exact timeCheckingProc_delays h
      | timerDelete =>
          obtain ⟨head, due, curTime, -, rfl⟩ := timeOutDelete_cases h
          exact delays_setTimer
      | timerClose env => exact timeOutClose_delays inv h
      | recycle times => exact absurd rfl (other times)
      | shutdown =>
          obtain rfl := Option.some.inj h
          exact .of_same rfl rfl rfl fun _ => ⟨rfl, rfl⟩
  | work w now =>
      obtain ⟨t, htook, rfl⟩ | ⟨t, reply, htook, h⟩ := work_cases h
      · obtain ⟨c, hframe, -⟩ := htook.frame
        exact hframe.delays
      · obtain ⟨c, hframe, -⟩ := htook.frame
        exact hframe.delays.trans (msgSendInQueue_frame h).delays
  | sendEntry i env =>
      obtain ⟨t, next, hentry, hlast⟩ := sendOne_cases h
      obtain ⟨reply, -, hframe⟩ := sendEntry_frame hentry
      rcases hlast with rfl | rfl
      · exact hframe.delays
      · exact hframe.delays.trans (.of_same rfl rfl rfl fun _ => ⟨rfl, rfl⟩)

/-- An object that waits stays, unless a pass has observed that its delay is over. -/
theorem step_waits (inv : s.Inv) {action : Action} (running : s.stopEvent = false)
    (early : ∀ time ∈ observed s action, time ≤ since + s.conf.delayTime)
    (hwait : s.Waiting c since) (h : step s action = some s₁) :
    s₁.Waiting c since ∧ s₁.history.use c = s.history.use c := by
  by_cases hpass : ∃ times, action = .loop (.recycle times)
  · obtain ⟨times, rfl⟩ := hpass
    exact recyConnThreadFunc_waits running h hwait early
  · exact (step_delays inv (fun times heq => hpass ⟨times, heq⟩) h).waits c since hwait

/-- A step that closes a use of an object puts it in the recycle list. -/
theorem waiting_of_closed (inv : s.Inv) {action : Action} (h : step s action = some s₁)
    (closed : (c, u) ∈ s₁.history.closes) (before : (c, u) ∉ s.history.closes) :
    s₁.Waiting c action.now := by
  by_cases hpass : ∃ times, action = .loop (.recycle times)
  · obtain ⟨times, rfl⟩ := hpass
    have hcloses : s₁.history.closes = s.history.closes :=
      congrArg History.closes (recyConnThreadFunc_bystands h).2.2
    exact absurd (hcloses ▸ closed) before
  · exact ((step_delays inv (fun times heq => hpass ⟨times, heq⟩) h).closes (c, u)
      closed).resolve_left before

/-- An object that is closed is not handed out again before a pass of the recycle thread
has observed a time behind its delay. A pass in which the clock always shows one time moves
what is overdue then, in the order of the list, and counts it off. -/
theorem recycling_delayed (h : Reachable boot s) :
    (∀ action s₁, step s action = some s₁ → ∀ c u, (c, u) ∈ s₁.history.closes →
      (c, u) ∉ s.history.closes → ∀ labels,
        Along step (fun v b => v.stopEvent = false ∧
          ∀ time ∈ observed v b, time ≤ action.now + boot.conf.delayTime) s₁ labels →
        Throughout step (fun v => v.getConnectionItem.2 ≠ c ∧
          v.history.use c = s₁.history.use c) s₁ labels) ∧
    (∀ now times, s.stopEvent = false → (∀ time ∈ times, time = now) →
      (s.recyThread = true → s.recyConnectionList.length ≤ times.length →
        (s.recyConnThreadFunc times).isSome) ∧
      ∀ s', s.recyConnThreadFunc times = some s' →
        Passes
          (s.recyConnectionList.filter fun c =>
            (s.conn c).inrevyTime + boot.conf.delayTime < now)
          (s.recyConnectionList.filter fun c =>
            ¬ (s.conn c).inrevyTime + boot.conf.delayTime < now) s s') := by
  have inv := reachable_inv h
  have hconf := reachable_conf h
  constructor
  · intro action s₁ hs c u closed before labels early
    have hnext := step_evolves inv hs
    have hinvariant : Throughout step (fun v => (v.Inv ∧ v.conf = boot.conf) ∧
        v.Waiting c action.now ∧ v.history.use c = s₁.history.use c) s₁ labels := by
      apply throughout_of_along ?_ ⟨⟨hnext.inv, hnext.conf.trans hconf⟩,
        waiting_of_closed inv hs closed before, rfl⟩ early
      intro v b v' hv hb hstep
      obtain ⟨⟨hinv, hvconf⟩, hwait, huse⟩ := hv
      have hevolves := step_evolves hinv hstep
      obtain ⟨hwait', huse'⟩ := step_waits hinv hb.1 (by rw [hvconf]; exact hb.2) hwait hstep
      exact ⟨⟨hevolves.inv, hevolves.conf.trans hvconf⟩, hwait', huse'.trans huse⟩
    apply hinvariant.mono
    intro v hv
    exact ⟨hv.1.1.getConnectionItem_ne hv.2.1, hv.2.2⟩
  · intro now times running uniform
    refine ⟨recyConnThreadFunc_isSome, fun s' hpass => ?_⟩
    have hexact := recyConnThreadFunc_passes running (inv.pool.delayedCount_eq running) uniform hpass
    simp only [Overdue, hconf] at hexact
    exact hexact

/-- The connection 1 is closed at the time 110, and the next pass comes in the same second. -/
theorem recycling_delayed_small : ∃ s s₁ : State, (1, 1) ∈ s₁.history.closes ∧
    step s (.loop (.handleEvent { recv := .zero .econnreset, now := 110 })) = some s₁ ∧
    Throughout step (fun v => v.getConnectionItem.2 ≠ 1 ∧
      v.history.use 1 = s₁.history.use 1) s₁ [.loop (.recycle [110])] := by
  let leave : Action := .loop (.handleEvent { recv := .zero .econnreset, now := 110 })
  have hlaunch : (launch .small [true] (acceptOn 5 100 ++ [.loop (.epollWait [(5, epollin)])])).bind
      (fun s => (step s leave).map fun s₁ => decide ((1, 1) ∉ s.history.closes ∧
        (1, 1) ∈ s₁.history.closes ∧ Along step (fun v b => v.stopEvent = false ∧
          ∀ time ∈ observed v b, time ≤ leave.now + Boot.small.conf.delayTime) s₁
            [.loop (.recycle [110])])) = some true := by decide
  obtain ⟨s, hs, hstep⟩ := Option.bind_eq_some_iff.mp hlaunch
  obtain ⟨s₁, hleave, hall⟩ := Option.map_eq_some_iff.mp hstep
  obtain ⟨before, closed, early⟩ := of_decide_eq_true hall
  exact ⟨s, s₁, closed, hleave, (recycling_delayed (reachable_of_launch hs)).1 leave s₁ hleave 1 1
    closed before _ early⟩

end Server

end MyNginx
