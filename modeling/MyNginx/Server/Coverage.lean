import Mathlib
import MyNginx.Server.Wraparound

/-!
# Who is in the timer queue

An accepted connection has its entry in `m_timermap` from the accept until it is closed:
a pass of the timer thread puts a copy of every entry it takes back, and removes only
the entries that it does not recognise. It recognises no connection on descriptor 0 and
none whose sequence does not survive the `int` parameter of `JudgeOutdate`.
-/

namespace MyNginx

open Foundation

namespace TimerQueue

open State

variable {q q' : TimerQueue} {head : MsgHeader}

/-- The message headers of the entries. -/
def headers (q : TimerQueue) : List MsgHeader := q.timermap.map Prod.snd

/-- `m_timermap_size` is the size of the map. -/
def Sized (q : TimerQueue) : Prop := q.timermapSize = q.timermap.length

theorem insertTimer_perm (key : Time) (head : MsgHeader) (entries : List (Time × MsgHeader)) :
    (insertTimer key head entries).Perm ((key, head) :: entries) := by
  induction entries with
  | nil => exact .refl _
  | cons entry rest ih =>
      simp only [insertTimer]
      split
      · exact .refl _
      · exact (ih.cons entry).trans (.swap _ _ _)

@[simp] theorem headers_setTimerValue : q.setTimerValue.headers = q.headers := by
  simp [headers]

@[simp] theorem headers_refreshTimerValue : q.refreshTimerValue.headers = q.headers := by
  simp [headers]

@[simp] theorem setTimerValue_timermapSize : q.setTimerValue.timermapSize = q.timermapSize := by
  simp only [setTimerValue]
  split <;> rfl

@[simp] theorem refreshTimerValue_timermapSize :
    q.refreshTimerValue.timermapSize = q.timermapSize := by
  simp only [refreshTimerValue]
  split <;> simp

theorem headers_addTimer (key : Time) : (q.addTimer key head).headers.Perm (head :: q.headers) := by
  have hperm := (insertTimer_perm key head q.timermap).map Prod.snd
  simpa [addTimer, headers] using hperm

theorem sized_addTimer (sized : q.Sized) (key : Time) : (q.addTimer key head).Sized := by
  have hlen := (insertTimer_perm key head q.timermap).length_eq
  simp only [Sized, addTimer, setTimerValue_timermap, setTimerValue_timermapSize] at sized ⊢
  rw [hlen, sized, List.length_cons]
  rfl

/-- What `GetOverTime` takes out it puts back under a later key. -/
theorem getOverTime_headers (sized : q.Sized) (waittime : Int) (time : Time) :
    (q.getOverTime waittime time).1.headers.Perm q.headers ∧
      (q.getOverTime waittime time).1.Sized := by
  simp only [getOverTime]
  split
  · exact ⟨.refl _, sized⟩
  next entry rest hmap =>
    split
    · exact ⟨.refl _, sized⟩
    split
    · have hperm := insertTimer_perm (time + waittime) entry.2 rest
      have hlen := hperm.length_eq
      simp only [headers_refreshTimerValue, Sized, refreshTimerValue_timermap,
        refreshTimerValue_timermapSize, removeTimerFrist]
      refine ⟨?_, ?_⟩
      · simpa [headers, hmap] using hperm.map Prod.snd
      · rw [Sized, hmap] at sized
        rw [hlen, List.length_cons, sized, List.length_cons]
        omega
    · exact ⟨.refl _, sized⟩

theorem collectOverTime_headers (sized : q.Sized) {waittime : Int} {curTime : Time} {fuel : Nat}
    {due : List MsgHeader} (h : q.collectOverTime waittime curTime fuel = some (q', due)) :
    q'.headers.Perm q.headers ∧ q'.Sized := by
  induction fuel generalizing q due with
  | zero => cases h
  | succ fuel ih =>
      simp only [collectOverTime] at h
      have hnext := getOverTime_headers sized waittime curTime
      cases hget : q.getOverTime waittime curTime with
      | mk next r =>
          rw [hget] at h hnext
          cases r with
          | none =>
              obtain ⟨rfl, -⟩ := Prod.mk.inj (Option.some.inj h)
              exact hnext
          | some head =>
              obtain ⟨⟨last, later⟩, hrest, heq⟩ := Option.map_eq_some_iff.mp h
              obtain ⟨rfl, -⟩ := Prod.mk.inj heq
              obtain ⟨hperm, hsized⟩ := ih hnext.2 hrest
              exact ⟨hperm.trans hnext.1, hsized⟩

/-- `DeleteFromTimerQueue` removes the entries with the given header and no others. -/
theorem headers_deleteFromTimerQueue (head : MsgHeader) (sized : q.Sized) :
    (q.deleteFromTimerQueue head).headers = q.headers.filter (· != head) ∧
      (q.deleteFromTimerQueue head).Sized := by
  simp only [deleteFromTimerQueue]
  split
  next hempty =>
    have hnil : q.timermap = [] := by
      rcases hempty with hzero | hnil
      · rw [Sized, hzero] at sized
        exact List.length_eq_zero_iff.mp (by omega)
      · exact hnil
    exact ⟨by simp [headers, hnil], sized⟩
  next =>
    have hle := List.length_filter_le (fun entry : Time × MsgHeader => entry.2 != head) q.timermap
    refine ⟨?_, ?_⟩
    · rw [headers_refreshTimerValue]
      simp only [headers, List.filter_map]
      rfl
    · simp only [Sized, refreshTimerValue_timermap, refreshTimerValue_timermapSize] at sized ⊢
      rw [sized]
      omega

end TimerQueue

namespace State

variable {s s' t : State} {c d : ConnId} {env : Env} {head : MsgHeader}

/-- The header of the entry that belongs to the connection. -/
def timerHeader (s : State) (c : ConnId) : MsgHeader := ⟨c, (s.conn c).sequence⟩

/-- `TimeOutProc` has removed the entry of the connection and is about to close it. -/
def Expelling (s : State) (c : ConnId) : Prop :=
  match s.timer with
  | .deleted head _ _ => head.lpCurconn = c
  | _ => False

instance : DecidablePred s.Expelling := fun c => by
  unfold Expelling
  rcases s.timer with _ | _ <;> infer_instance

/-- Every open accepted connection has exactly one entry for its current use, and no
entry occurs twice; removing another one leaves it alone. -/
structure TimerCovered (s : State) : Prop where
  once : ∀ c, s.Open c → ¬ s.Expelling c → s.toTimerQueue.headers.count (s.timerHeader c) = 1
  nodup : s.toTimerQueue.headers.Nodup
  spares : ∀ c head, head ≠ s.timerHeader c →
    (s.toTimerQueue.deleteFromTimerQueue head).headers.count (s.timerHeader c) =
      s.toTimerQueue.headers.count (s.timerHeader c)

/-- The counter is exact, no entry occurs twice and none is ahead of its connection. -/
structure Timed (s : State) : Prop where
  sized : s.toTimerQueue.Sized
  nodup : s.toTimerQueue.headers.Nodup
  past : ∀ head ∈ s.toTimerQueue.headers,
    s.Used head.lpCurconn ∧ head.msgCursequence ≤ (s.conn head.lpCurconn).sequence

theorem count_filter_ne {l : List MsgHeader} {a : MsgHeader} (h : head ≠ a) :
    (l.filter (· != head)).count a = l.count a :=
  List.count_filter (by simpa using h.symm)

/-- Of what is asked for, the first part depends on the conduct of the timer thread. -/
theorem Timed.covered_iff (timed : s.Timed) : s.TimerCovered ↔
    ∀ c, s.Open c → ¬ s.Expelling c → s.toTimerQueue.headers.count (s.timerHeader c) = 1 := by
  refine ⟨fun h => h.once, fun h => ⟨h, timed.nodup, fun c head hne => ?_⟩⟩
  rw [(TimerQueue.headers_deleteFromTimerQueue _ timed.sized).1, count_filter_ne hne]

/-- A step that leaves the timer queue alone and opens nothing. -/
structure Untimed (s s' : State) : Prop where
  timers : s'.toTimerQueue = s.toTimerQueue
  opened : ∀ c, s'.Open c → s.Open c ∧ (s'.conn c).sequence = (s.conn c).sequence

theorem Timed.of_queue (timed : s.Timed) (aged : Aged s s') (sized : s'.toTimerQueue.Sized)
    (nodup : s'.toTimerQueue.headers.Nodup)
    (old : ∀ head ∈ s'.toTimerQueue.headers, head ∈ s.toTimerQueue.headers) : s'.Timed where
  sized := sized
  nodup := nodup
  past head hhead := by
    obtain ⟨hused, hle⟩ := timed.past head (old head hhead)
    exact ⟨Nat.lt_of_lt_of_le hused (aged head.lpCurconn).1,
      Nat.le_trans hle (aged.sequence_le hused)⟩

/-- Another queue with the same headers, or some of them. -/
theorem Timed.of_perm (timed : s.Timed) (aged : Aged s s') (sized : s'.toTimerQueue.Sized)
    (perm : s'.toTimerQueue.headers.Perm s.toTimerQueue.headers) : s'.Timed :=
  timed.of_queue aged sized (perm.nodup_iff.mpr timed.nodup) fun _ h => perm.mem_iff.mp h

theorem Timed.deleted (timed : s.Timed) (aged : Aged s s')
    (queue : s'.toTimerQueue.headers = (s.toTimerQueue.deleteFromTimerQueue head).headers)
    (sized : s'.toTimerQueue.Sized) : s'.Timed := by
  have hheaders := (TimerQueue.headers_deleteFromTimerQueue head timed.sized).1
  rw [hheaders] at queue
  refine timed.of_queue aged sized ?_ fun a ha => ?_
  · rw [queue]
    exact timed.nodup.filter _
  · rw [queue] at ha
    exact List.mem_of_mem_filter ha

theorem Untimed.timed (h : Untimed s s') (timed : s.Timed) (aged : Aged s s') : s'.Timed :=
  timed.of_perm aged (h.timers ▸ timed.sized) (by rw [h.timers])

theorem timerHeader_congr (seq : (s'.conn c).sequence = (s.conn c).sequence) :
    s'.timerHeader c = s.timerHeader c := by
  rw [timerHeader, timerHeader, seq]

theorem Untimed.covered (h : Untimed s s') (timed : s.Timed) (aged : Aged s s')
    (covered : s.TimerCovered) : s'.TimerCovered := by
  refine (h.timed timed aged).covered_iff.mpr fun c hopen hexpel => ?_
  obtain ⟨hopen', hseq⟩ := h.opened c hopen
  rw [h.timers, timerHeader_congr hseq]
  refine covered.once c hopen' ?_
  rwa [Expelling, h.timers] at hexpel

/-- The entry of a new use is new. -/
theorem Begun.header_fresh (h : Begun s c s') (timed : s.Timed) :
    s'.timerHeader c ∉ s.toTimerQueue.headers := by
  intro hmem
  obtain ⟨hused, hle⟩ := timed.past _ hmem
  exact absurd (h.sequence hused) (Nat.not_lt.mpr hle)

/-- A new connection with its entry. -/
theorem Begun.timed (h : Begun s c s') (timed : s.Timed) {key : Time}
    (queue : s'.toTimerQueue = s.toTimerQueue.addTimer key (s'.timerHeader c)) : s'.Timed := by
  have hperm : s'.toTimerQueue.headers.Perm (s'.timerHeader c :: s.toTimerQueue.headers) :=
    queue ▸ TimerQueue.headers_addTimer key
  refine ⟨queue ▸ TimerQueue.sized_addTimer timed.sized key, ?_, fun head hhead => ?_⟩
  · rw [hperm.nodup_iff, List.nodup_cons]
    exact ⟨h.header_fresh timed, timed.nodup⟩
  · rcases List.mem_cons.mp (hperm.mem_iff.mp hhead) with rfl | hold
    · exact ⟨h.used, Nat.le_refl _⟩
    · obtain ⟨hused, hle⟩ := timed.past head hold
      exact ⟨Nat.lt_of_lt_of_le hused (h.aged head.lpCurconn).1,
        Nat.le_trans hle (h.aged.sequence_le hused)⟩

theorem Begun.covered (h : Begun s c s') (timed : s.Timed) {key : Time}
    (queue : s'.toTimerQueue = s.toTimerQueue.addTimer key (s'.timerHeader c))
    (covered : s.TimerCovered) : s'.TimerCovered := by
  have hperm : s'.toTimerQueue.headers.Perm (s'.timerHeader c :: s.toTimerQueue.headers) :=
    queue ▸ TimerQueue.headers_addTimer key
  have hfresh := h.header_fresh timed
  refine (h.timed timed queue).covered_iff.mpr fun d hopen hexpel => ?_
  rw [hperm.count_eq]
  by_cases hd : d = c
  · rw [hd, List.count_cons_self, List.count_eq_zero_of_not_mem hfresh]
  · have hconn : s'.conn d = s.conn d := h.other d hd
    have hheader : s'.timerHeader d = s.timerHeader d := timerHeader_congr (by rw [hconn])
    have hne : s'.timerHeader c ≠ s.timerHeader d := fun he =>
      hd (congrArg MsgHeader.lpCurconn he).symm
    rw [hheader, List.count_cons_of_ne hne]
    refine covered.once d ((Open.congr (h.use_ne hd) (by rw [hconn])).mp hopen) ?_
    rwa [Expelling, h.timer] at hexpel

/-- A step that keeps the timer queue in order and everyone in it. -/
structure Covers (s s' : State) : Prop where
  timed : s.Timed → s'.Timed
  covered : s.Timed → s.TimerCovered → s'.TimerCovered

theorem Covers.refl (s : State) : Covers s s := ⟨id, fun _ => id⟩

theorem Covers.trans (h : Covers s t) (h' : Covers t s') : Covers s s' :=
  ⟨fun timed => h'.timed (h.timed timed),
    fun timed covered => h'.covered (h.timed timed) (h.covered timed covered)⟩

theorem Untimed.covers (h : Untimed s s') (aged : Aged s s') : Covers s s' :=
  ⟨fun timed => h.timed timed aged, fun timed => h.covered timed aged⟩

/-- A step of the loop that admits nobody and does not touch the timer queue. -/
theorem Moves.untimed (h : Moves env s s') (inv : s.Inv)
    (timers : s'.toTimerQueue = s.toTimerQueue)
    (use : s'.history.use = s.history.use) : Untimed s s' := by
  refine ⟨timers, fun c hopen => ?_⟩
  rcases h.open_or_fresh inv hopen with ⟨hopen', hlink⟩ | hlt
  · exact ⟨hopen', (link_eq hlink).2.1⟩
  · rw [use] at hlt
    exact absurd hlt (Nat.lt_irrefl _)

theorem Neutral.untimed (h : Neutral s s') (timers : s'.toTimerQueue = s.toTimerQueue) :
    Untimed s s' :=
  ⟨timers, fun c hopen => ⟨h.isOpen.mp hopen, (link_eq (h.link c)).2.1⟩⟩

/-- With the heartbeat check enabled, a connection enters the timer queue when it is accepted. -/
theorem Admits.covers {connfd : Fd} (h : Admits s connfd env s') (inv : s.Inv) (hfd : 0 ≤ connfd)
    (hclosed : s.openFds connfd = false) (enabled : s.conf.timeEnable = 1) : Covers s s' := by
  cases h with
  | refused => exact .refl s
  | opened taken room timer =>
      rename_i t w c
      have hbegun := begun_registered (epollin ||| epollrdhup) env.now inv hfd
        taken.takes
      rcases timer with ⟨hnot, -⟩ | ⟨-, rfl⟩
      · exact absurd enabled hnot
      · have hqueue : ((t.registered c connfd (epollin ||| epollrdhup) env.now).addToTimerQueue c
            env.later).toTimerQueue = s.toTimerQueue.addTimer (env.later + t.conf.waittime)
              (((t.registered c connfd (epollin ||| epollrdhup) env.now).addToTimerQueue c
                env.later).timerHeader c) := by
          have htimers : t.toTimerQueue = s.toTimerQueue := taken.takes.timers
          simp [addToTimerQueue, timerHeader, registered, prepared, getOneToUse, htimers]
        exact ⟨fun timed => Begun.timed { hbegun.addToTimerQueue env.later with } timed hqueue,
          fun timed => Begun.covered { hbegun.addToTimerQueue env.later with } timed hqueue⟩
  | rejected taken =>
      rename_i t c
      have hbegun := begun_rejected (epollin ||| epollrdhup) env.now inv hclosed
        taken.takes
      refine Untimed.covers ⟨taken.takes.timers, fun d hopen => ?_⟩ hbegun.aged
      have hd : d ≠ c := by
        rintro rfl
        exact hopen.2 (by simp [State.rejected])
      have hconn := hbegun.other d hd
      exact ⟨(Open.congr (hbegun.use_ne hd) (by rw [hconn])).mp hopen, by rw [hconn]⟩

theorem acceptLoop_covers {standby : ConnId} {answers : List AcceptAnswer} (inv : s.Inv)
    (enabled : s.conf.timeEnable = 1) (h : s.acceptLoop standby env answers = some s') :
    Covers s s' := by
  obtain ⟨useAccept4, hcases⟩ := acceptLoop_cases inv h
  have hquiet : Quiet s { s with useAccept4 } :=
    quiet_of_view rfl rfl rfl rfl rfl rfl rfl rfl rfl rfl
  have hfirst : Covers s { s with useAccept4 } :=
    (hquiet.toNeutral.untimed rfl).covers hquiet.toNeutral.aged
  rcases hcases with rfl | ⟨connfd, hfd, hclosed, hadmits⟩
  · exact hfirst
  · exact hfirst.trans (hadmits.covers (hquiet.toNeutral.inv inv) hfd hclosed enabled)

theorem handleIn_covers {events : Mask} (inv : s.Inv) (enabled : s.conf.timeEnable = 1)
    (ok : s.EventOk (c, events)) (h : s.handleIn c events env = some s') : Covers s s' := by
  have hmoves := handleIn_moves inv ok h
  cases handleIn_cases inv ok h with
  | reads _ hused hread =>
      have hframe := (readable_frame (inv.idle_of_used hused) hread).untouched
      exact (hmoves.untimed inv hframe.1 hframe.2).covers (hmoves.evolves inv).aged
  | accepts _ _ haccept => exact acceptLoop_covers inv enabled haccept
  | skips => exact .refl s

theorem handleOut_untouched {events : Mask} (inv : s.Inv) (ok : s.EventOk (c, events))
    (h : s.handleOut c events env = some s') :
    s'.toTimerQueue = s.toTimerQueue ∧ s'.history.use = s.history.use := by
  cases handleOut_cases inv ok h with
  | closes _ hused hinv hclose =>
      exact (closeAcceptedConnection_frame (hinv.idle_of_used hused) hclose).untouched
  | writes _ _ hwrite =>
      obtain ⟨queue, interest, wire, out, events, rfl⟩ := writable_frame hwrite
      exact ⟨rfl, rfl⟩
  | skips => exact ⟨rfl, rfl⟩

/-- The timer queue when an event is handled. -/
theorem handleEvent_covers (inv : s.Inv) (enabled : s.conf.timeEnable = 1)
    (h : s.handleEvent env = some s') : Covers s s' := by
  obtain ⟨c, events, rest, t, hevent⟩ := handleEvent_cases inv h
  have hinv := hevent.between.inv
  have hreport : Covers s { s with events := rest } :=
    Untimed.covers ⟨rfl, fun _ hopen => ⟨hopen, rfl⟩⟩ hevent.taken.aged
  have hread := handleIn_covers hevent.taken.inv enabled hevent.ok hevent.inward
  have hmoves := handleOut_moves hinv hevent.still hevent.outward
  have hframe := handleOut_untouched hinv hevent.still hevent.outward
  exact (hreport.trans hread).trans
    ((hmoves.untimed hinv hframe.1 hframe.2).covers (hmoves.evolves hinv).aged)

/-- Only the timer queue and what the timer thread looks at change. -/
structure TimerOnly (s s' : State) : Prop where
  use : s'.history.use = s.history.use
  link : ∀ c, (s'.conn c).link = (s.conn c).link

theorem TimerOnly.timerHeader (h : TimerOnly s s') : s'.timerHeader c = s.timerHeader c :=
  timerHeader_congr (link_eq (h.link c)).2.1

theorem TimerOnly.open_iff (h : TimerOnly s s') : s'.Open c ↔ s.Open c :=
  Open.congr (congrFun h.use c) (h.link c)

theorem TimerOnly.aged (h : TimerOnly s s') : Aged s s' := fun c =>
  ⟨Nat.le_of_eq (congrFun h.use c).symm,
    fun _ => .inl ⟨(link_eq (h.link c)).2.1, congrFun h.use c⟩⟩

theorem timerOnly_setTimer (queue : TimerQueue) (timer : TimerPc) :
    TimerOnly s (s.setTimer queue timer) := ⟨rfl, fun _ => rfl⟩

/-- The entries stay, and whoever is being expelled now was before. -/
theorem TimerOnly.covers (h : TimerOnly s s')
    (headers : s.Timed → s'.toTimerQueue.headers.Perm s.toTimerQueue.headers ∧
      s'.toTimerQueue.Sized)
    (expelling : ∀ c, s.Expelling c → s'.Expelling c) : Covers s s' := by
  have htimed : s.Timed → s'.Timed := fun timed =>
    timed.of_perm h.aged (headers timed).2 (headers timed).1
  refine ⟨htimed, fun timed covered => ?_⟩
  refine (htimed timed).covered_iff.mpr fun c hopen hexpel => ?_
  rw [(headers timed).1.count_eq, h.timerHeader]
  exact covered.once c (h.open_iff.mp hopen) fun hold => hexpel (expelling c hold)

theorem not_expelling {timer : TimerPc} (h : s.timer = timer)
    (other : ∀ head due curTime, timer ≠ .deleted head due curTime) : ¬ s.Expelling c := by
  rw [Expelling, h]
  cases timer with
  | deleted head due curTime => exact absurd rfl (other head due curTime)
  | idle | examining due curTime | marked head due curTime => exact id

theorem timerBegin_covers {curTime : Time} (h : s.timerBegin curTime = some s') :
    Covers s s' := by
  obtain ⟨hidle, rfl | ⟨queue, due, hcollect, rfl⟩⟩ := timerBegin_cases h
  · exact .refl s'
  · refine (timerOnly_setTimer queue _).covers (fun timed => ?_) fun c hexpel =>
      absurd hexpel (not_expelling hidle nofun)
    have hcollected := TimerQueue.collectOverTime_headers timed.sized hcollect
    exact hcollected

/-- Removing an entry keeps those of the connections that are not about to be closed,
unless it is one of them. -/
theorem TimerOnly.deletes (h : TimerOnly s s') (timed : s.Timed)
    (queue : s'.toTimerQueue.headers = (s.toTimerQueue.deleteFromTimerQueue head).headers)
    (sized : s'.toTimerQueue.Sized) (calm : ∀ c, ¬ s.Expelling c) (covered : s.TimerCovered) :
    s'.TimerCovered ↔
      (s.Open head.lpCurconn → head = s.timerHeader head.lpCurconn →
        s'.Expelling head.lpCurconn) := by
  have hheaders := (TimerQueue.headers_deleteFromTimerQueue head timed.sized).1
  rw [(timed.deleted h.aged queue sized).covered_iff, queue, hheaders]
  constructor
  · intro hall hopen hcurrent
    by_contra hexpel
    have hone := hall head.lpCurconn (h.open_iff.mpr hopen) hexpel
    have hnot : head ∉ s.toTimerQueue.headers.filter (· != head) := fun hmem => by
      simpa using List.of_mem_filter hmem
    rw [h.timerHeader, ← hcurrent, List.count_eq_zero_of_not_mem hnot] at hone
    cases hone
  · intro hexempt c hopen hexpel
    rw [h.timerHeader]
    by_cases hhead : head = s.timerHeader c
    · have hc : head.lpCurconn = c := congrArg MsgHeader.lpCurconn hhead
      refine absurd (hexempt ?_ ?_) (hc ▸ hexpel)
      · exact hc ▸ h.open_iff.mp hopen
      · rw [hc]
        exact hhead
    · rw [count_filter_ne hhead]
      exact covered.once c (h.open_iff.mp hopen) (calm c)

theorem timeOutDelete_covers (h : s.timeOutDelete = some s') : Covers s s' := by
  obtain ⟨head, due, curTime, htimer, rfl⟩ := timeOutDelete_cases h
  have hsized : s.Timed → (s.toTimerQueue.deleteFromTimerQueue head).Sized := fun timed =>
    (TimerQueue.headers_deleteFromTimerQueue _ timed.sized).2
  have honly := timerOnly_setTimer (s := s) (s.toTimerQueue.deleteFromTimerQueue head)
    (.deleted head due curTime)
  refine ⟨fun timed => timed.deleted honly.aged rfl (hsized timed), fun timed covered => ?_⟩
  exact (honly.deletes timed rfl (hsized timed) (fun c => not_expelling htimer nofun)
    covered).mpr fun _ _ => rfl

/-- Whoever `TimeOutProc` is about to close is closed. -/
theorem timeOutClose_covers (inv : s.Inv) (h : s.timeOutClose env = some s') : Covers s s' := by
  have hmoves := timeOutClose_moves inv h
  obtain ⟨head, due, curTime, t, htimer, hused, hclose, rfl⟩ := timeOutClose_cases inv h
  have hidle := inv.idle_of_used hused
  have hframe := (closeAcceptedConnection_frame hidle hclose).untouched
  have hclosed : (t.conn head.lpCurconn).fd = -1 := by
    rcases closeAcceptedConnection_cases hidle hclose with ⟨rfl, hgone⟩ | ⟨-, rfl⟩
    · simpa using hgone
    · simp [afterClose]
  have hqueue : (t.setTimer t.toTimerQueue (.examining due curTime)).toTimerQueue.headers =
      s.toTimerQueue.headers := by
    rw [← hframe.1]
    rfl
  have hsized : s.Timed → t.toTimerQueue.Sized := fun timed => hframe.1 ▸ timed.sized
  have haged := (hmoves.evolves inv).aged
  have htimed : s.Timed → (t.setTimer t.toTimerQueue (.examining due curTime)).Timed :=
    fun timed => timed.of_perm haged (hsized timed) (hqueue ▸ .refl _)
  refine ⟨htimed, fun timed covered => ?_⟩
  refine (htimed timed).covered_iff.mpr fun c hopen _ => ?_
  have hc : head.lpCurconn ≠ c := by
    rintro rfl
    exact hopen.2 hclosed
  rcases hmoves.open_or_fresh inv hopen with ⟨hopen', hlink⟩ | hlt
  · rw [hqueue, timerHeader_congr (link_eq hlink).2.1]
    refine covered.once c hopen' fun hexpel => hc ?_
    rwa [Expelling, htimer] at hexpel
  · have hsame : (t.setTimer t.toTimerQueue (.examining due curTime)).history.use c =
        s.history.use c := congrFun hframe.2 c
    exact absurd hlt (by omega)

/-- The entry to be examined next is recognised if it belongs to an open connection. -/
def Recognises (s : State) : Prop :=
  match s.timer with
  | .examining (head :: _) _ =>
      s.Open head.lpCurconn → head = s.timerHeader head.lpCurconn →
        0 < (s.conn head.lpCurconn).fd ∧
          throughInt (s.conn head.lpCurconn).sequence = (s.conn head.lpCurconn).sequence
  | _ => True

instance : DecidablePred Recognises := fun s => by
  unfold Recognises
  rcases s.timer with _ | ⟨_ | _, _⟩ | _ <;> infer_instance

/-- What `JudgeOutdate` says of the entry of an open connection. -/
theorem Inv.judgeOutdate_iff (inv : s.Inv) (hopen : s.Open c) :
    (s.conn c).judgeOutdate (s.conn c).sequence = true ↔
      0 < (s.conn c).fd ∧ throughInt (s.conn c).sequence = (s.conn c).sequence := by
  rw [Connection.judgeOutdate_iff, (inv.idle hopen.1 hopen.2).1]
  exact ⟨fun h => ⟨h.1, h.2.2.symm⟩, fun h => ⟨h.1, by decide, h.2.symm⟩⟩

/-- An entry that `JudgeOutdate` calls outdated belongs to nobody who is recognised. -/
theorem Inv.not_recognised (inv : s.Inv) (hopen : s.Open head.lpCurconn)
    (current : head = s.timerHeader head.lpCurconn)
    (outdated : (s.conn head.lpCurconn).judgeOutdate head.msgCursequence = false) :
    ¬ (0 < (s.conn head.lpCurconn).fd ∧
      throughInt (s.conn head.lpCurconn).sequence = (s.conn head.lpCurconn).sequence) := by
  intro hrecognised
  have hseq : head.msgCursequence = (s.conn head.lpCurconn).sequence :=
    congrArg MsgHeader.msgCursequence current
  rw [hseq, (inv.judgeOutdate_iff hopen).mpr hrecognised] at outdated
  cases outdated

theorem Inv.recognised (inv : s.Inv) (hopen : s.Open head.lpCurconn)
    (current : head = s.timerHeader head.lpCurconn)
    (judged : (s.conn head.lpCurconn).judgeOutdate head.msgCursequence = true) :
    0 < (s.conn head.lpCurconn).fd ∧
      throughInt (s.conn head.lpCurconn).sequence = (s.conn head.lpCurconn).sequence := by
  have hseq : head.msgCursequence = (s.conn head.lpCurconn).sequence :=
    congrArg MsgHeader.msgCursequence current
  rw [hseq] at judged
  exact (inv.judgeOutdate_iff hopen).mp judged

/-- An examination keeps everyone in the queue if and only if the entry is recognised. -/
theorem timeCheckingProc_covered (inv : s.Inv) (timed : s.Timed) (covered : s.TimerCovered)
    (h : s.timeCheckingProc = some s') : s'.Timed ∧ (s'.TimerCovered ↔ s.Recognises) := by
  have hcovers : ∀ {due curTime} (timer : TimerPc), s.timer = .examining due curTime →
      Covers s (s.setTimer s.toTimerQueue timer) := fun timer htimer =>
    (timerOnly_setTimer s.toTimerQueue timer).covers (fun timed => ⟨.refl _, timed.sized⟩)
      fun c hexpel => absurd hexpel (not_expelling htimer nofun)
  cases timeCheckingProc_cases h with
  | finished htimer =>
      rw [Recognises, htimer]
      have hcover := hcovers .idle htimer
      exact ⟨hcover.timed timed, iff_of_true (hcover.covered timed covered) trivial⟩
  | @outdated head due curTime htimer houtdated =>
      rw [Recognises, htimer]
      have hcalm : ∀ c, ¬ s.Expelling c := fun c => not_expelling htimer nofun
      have honly := timerOnly_setTimer (s := s) (s.toTimerQueue.deleteFromTimerQueue head)
        (.examining due curTime)
      have hsized := (TimerQueue.headers_deleteFromTimerQueue head timed.sized).2
      refine ⟨timed.deleted honly.aged rfl hsized, ?_⟩
      rw [honly.deletes timed rfl hsized hcalm covered]
      refine forall_congr' fun hopen => forall_congr' fun hcurrent => ?_
      exact iff_of_false id (inv.not_recognised hopen hcurrent houtdated)
  | @silent head due curTime htimer hjudged =>
      rw [Recognises, htimer]
      have hmark : TimerOnly s (s.modifyConn head.lpCurconn fun conn =>
          { conn with istimeout := true }) :=
        ⟨rfl, fun c => by by_cases hc : c = head.lpCurconn <;> simp [Connection.link, hc]⟩
      have hmarked : Covers s ((s.modifyConn head.lpCurconn fun conn =>
          { conn with istimeout := true }).setTimer s.toTimerQueue (.marked head due curTime)) :=
        TimerOnly.covers ⟨hmark.use, hmark.link⟩ (fun timed => ⟨.refl _, timed.sized⟩)
          fun c hexpel => absurd hexpel (not_expelling htimer nofun)
      exact ⟨hmarked.timed timed, iff_of_true (hmarked.covered timed covered)
        fun hopen hcurrent => inv.recognised hopen hcurrent hjudged⟩
  | @heard head due curTime htimer hjudged =>
      rw [Recognises, htimer]
      have hcover := hcovers (.examining due curTime) htimer
      exact ⟨hcover.timed timed, iff_of_true (hcover.covered timed covered)
        fun hopen hcurrent => inv.recognised hopen hcurrent hjudged⟩

end State

namespace Server

open State

variable {s s' : State} {boot : Boot} {actions : List Action}

/-- The timer thread, if it examines an entry, recognises it if it should. -/
def Recognised (s : State) : Action → Prop
  | .loop .timerCheck => s.Recognises
  | _ => True

instance : DecidableRel Recognised := fun s action => by
  unfold Recognised
  rcases action with (_ | _) | _ <;> infer_instance

theorem loopStep_covers (inv : s.Inv) (enabled : s.conf.timeEnable = 1) {action : LoopAction}
    (hcheck : action ≠ .timerCheck) (h : s.loopStep action = some s') : Covers s s' := by
  cases action with
  | epollWait events =>
      have hmoves : Moves (LoopAction.epollWait events).env s s' := loopStep_moves inv h
      obtain ⟨reported, -, rfl⟩ := epollWait_reports h
      exact (hmoves.untimed inv rfl rfl).covers (hmoves.evolves inv).aged
  | handleEvent env => exact handleEvent_covers inv enabled h
  | timerBegin curTime => exact timerBegin_covers h
  | timerCheck => exact absurd rfl hcheck
  | timerDelete => exact timeOutDelete_covers h
  | timerClose env => exact timeOutClose_covers inv h
  | recycle times =>
      have hmoves : Moves {} s s' := recyConnThreadFunc_moves h
      have hreturns := recyConnThreadFunc_returns h
      exact (hmoves.untimed inv hreturns.timers hreturns.use).covers (hmoves.evolves inv).aged
  | shutdown =>
      obtain rfl := Option.some.inj h
      exact Untimed.covers ⟨rfl, fun _ hopen => ⟨hopen, rfl⟩⟩ (shutdown_evolves inv).aged

theorem work_timers {w : Nat} {now : Time} (h : work s w now = some s') :
    s'.toTimerQueue = s.toTimerQueue := by
  obtain ⟨t, htook, rfl⟩ | ⟨t, reply, htook, h⟩ := work_cases h
  · obtain ⟨c, ⟨receive, send, queued, out, ping, rfl⟩, -⟩ := htook.frame
    rfl
  · obtain ⟨c, ⟨receive, send, queued, out, ping, rfl⟩, -⟩ := htook.frame
    obtain ⟨receive', send', queued', out', ping', rfl⟩ := msgSendInQueue_frame h
    rfl

theorem sendOne_timers {i : Nat} {env : Env} (h : sendOne s i env = some s') :
    s'.toTimerQueue = s.toTimerQueue := by
  obtain ⟨t, next, hentry, hlast⟩ := sendOne_cases h
  obtain ⟨reply, -, queue, interest, wire, out, events, rfl⟩ := sendEntry_frame hentry
  rcases hlast with rfl | rfl <;> rfl

theorem work_covers (inv : s.Inv) {w : Nat} {now : Time} (h : work s w now = some s') :
    Covers s s' := by
  have hneutral := work_neutral inv h
  exact (hneutral.untimed (work_timers h)).covers hneutral.aged

theorem sendOne_covers (inv : s.Inv) {i : Nat} {env : Env} (h : sendOne s i env = some s') :
    Covers s s' := by
  have hneutral := (sendOne_steady inv h).toNeutral
  exact (hneutral.untimed (sendOne_timers h)).covers hneutral.aged

/-- The invariant of the run, and the exactness of one step. -/
theorem step_covered (inv : s.Inv) (enabled : s.conf.timeEnable = 1) (timed : s.Timed)
    (covered : s.TimerCovered) {action : Action} (h : step s action = some s') :
    s'.Timed ∧ (s'.TimerCovered ↔ Recognised s action) := by
  have hkeeps : Covers s s' → s'.Timed ∧ (s'.TimerCovered ↔ True) := fun hcovers =>
    ⟨hcovers.timed timed, iff_of_true (hcovers.covered timed covered) trivial⟩
  cases action with
  | loop action =>
      by_cases hcheck : action = .timerCheck
      · subst hcheck
        exact timeCheckingProc_covered inv timed covered h
      · have hcovers := hkeeps (loopStep_covers inv enabled hcheck h)
        cases action with
        | timerCheck => exact absurd rfl hcheck
        | _ => exact hcovers
  | work w now => exact hkeeps (work_covers inv h)
  | sendEntry i env => exact hkeeps (sendOne_covers inv h)

/-- With the heartbeat check enabled, in every state of a run each open accepted
connection has exactly one entry in the timer queue, if and only if the timer thread
recognises every entry of an open connection that it examines. -/
theorem timer_coverage (hstart : boot.Starts s) (enabled : boot.conf.timeEnable = 1) :
    Throughout step TimerCovered s actions ↔ Along step Recognised s actions := by
  have hframe := hstart.frame
  have htimed : s.Timed := by
    refine ⟨?_, ?_, ?_⟩ <;> simp [hframe.2, TimerQueue.Sized, TimerQueue.headers, Boot.state]
  refine throughout_iff_along (I := fun s => s.Inv ∧ s.conf.timeEnable = 1 ∧ s.Timed)
    (fun s a s' hi hp _ hs => ?_) (fun s a s' hi hp hs => ?_)
    ⟨hstart.inv, hstart.spec.2 ▸ enabled, htimed⟩ ?_
  · have hevolves := step_evolves hi.1 hs
    exact ⟨hevolves.inv, hevolves.conf ▸ hi.2.1, (step_covered hi.1 hi.2.1 hi.2.2 hp hs).1⟩
  · exact (step_covered hi.1 hi.2.1 hi.2.2 hp hs).2
  · refine htimed.covered_iff.mpr fun c hopen => ?_
    obtain ⟨⟨all, htaking⟩, -⟩ := hstart.spec
    exact absurd hopen.1 (by simp [Used, htaking.history, Boot.state])

/-- A client that is accepted at time 100 and examined at time 105. -/
theorem timer_coverage_one_pass : ∃ s, Boot.small.Starts s ∧ Throughout step TimerCovered s
    (acceptOn 5 100 ++ [.loop (.timerBegin 105), .loop .timerCheck]) := by
  have hrun : (Boot.small.state.epollEventInit [true]).map (fun s =>
      decide (Along step Recognised s
        (acceptOn 5 100 ++ [.loop (.timerBegin 105), .loop .timerCheck]))) = some true := by decide
  obtain ⟨s, hstart, hrecognised⟩ := Option.map_eq_some_iff.mp hrun
  exact ⟨s, ⟨_, hstart⟩, (timer_coverage ⟨_, hstart⟩ rfl).mpr (of_decide_eq_true hrecognised)⟩

/-- The first pass over the entry of a client with a sequence that is not recognised. -/
theorem Visited.forget {n : Nat} {t : Time} (h : Visited s n t []) (wrapped : n ≠ throughInt n) :
    ∃ s', run step s [.loop (.timerBegin (t + 5)), .loop .timerCheck] = some s' ∧
      s'.timermap = [] ∧ s'.timer = .examining [] (t + 5) ∧ s'.conn = s.conn ∧
      s'.history = s.history := by
  simp only [run, step, loopStep]
  simp [timerBegin, h.timer, h.timers, h.conf, Boot.lone, TimerQueue.collectOverTime,
    TimerQueue.getOverTime, TimerQueue.removeTimerFrist, TimerQueue.insertTimer,
    TimerQueue.refreshTimerValue, TimerQueue.setTimerValue]
  simp [timeCheckingProc, Connection.judgeOutdate, h.connected, h.sequence, wrapped,
    TimerQueue.deleteFromTimerQueue, TimerQueue.refreshTimerValue]
  rfl

/-- The entry of a client whose object has been used 2^30 times before is removed by the
first pass over it. -/
theorem timer_entry_lost :
    ¬ ∀ (boot : Boot) (s : State) (actions : List Action), boot.Starts s →
      boot.conf.timeEnable = 1 → Throughout step TimerCovered s actions := by
  intro hclaim
  obtain ⟨s₀, actions, s, t, hstart, hr, hvisited⟩ := visited_of_launch
  obtain ⟨s', hpass, hmap, htimer, hconn, hhistory⟩ := hvisited.forget (by decide)
  have hrun : run step s₀ (actions ++ [.loop (.timerBegin (t + 5)), .loop .timerCheck]) =
      some s' := by
    rw [run_append, hr]
    exact hpass
  have hcovered : s'.TimerCovered := (hclaim _ _ _ hstart rfl).last hrun
  have hopen : s'.Open 1 := by
    refine ⟨?_, ?_⟩
    · rw [Used, hhistory]
      exact hvisited.accepted
    · rw [hconn, hvisited.connected.1]
      decide
  have hone := hcovered.once 1 hopen (not_expelling htimer fun _ _ _ => by simp)
  simp [TimerQueue.headers, hmap] at hone

end Server

end MyNginx
