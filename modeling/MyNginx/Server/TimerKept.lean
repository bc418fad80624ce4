import MyNginx.Server.TimerPass

/-!
# What a pass of the timer thread relies on

`m_timermap` is ordered because it is a multimap, its counter is changed with it, every
accept enters one new message header, and the connections that the queue knows are
objects of the pool: so what a pass asks of the queue holds in every state of a server
that checks heartbeats.
-/

namespace MyNginx

open Foundation

namespace State

open Expiry TimerQueue

variable {s s' : State} {t : Time} {env : Env} {head : MsgHeader}

/-- In a state of the server the connections of the entries are attached. -/
theorem Inv.attached (inv : s.Inv) : s.Attached := by
  have hused : ∀ head ∈ s.toTimerQueue.headers, s.Used head.lpCurconn := by
    intro head hhead
    obtain ⟨entry, hentry, rfl⟩ := List.mem_map.mp hhead
    exact inv.timers.1 entry hentry
  have hobject := fun head hhead => (inv.wired.used _ (hused head hhead)).1
  refine ⟨fun head hhead hopened => ?_, fun head hhead other hother hopened hfd => ?_⟩
  · exact inv.wired.opened _ (hobject head hhead) hopened
  · refine inv.pool.injective _ (hobject other hother) _ (hobject head hhead)
      (s.conn head.lpCurconn).fd ?_ ?_
    · show s.handle other.lpCurconn = _
      rw [handle, hfd, if_neg hopened]
    · show s.handle head.lpCurconn = _
      rw [handle, if_neg hopened]

theorem ordered_of_timers (ordered : Expiry.Ordered s.timermap)
    (timers : s'.toTimerQueue = s.toTimerQueue) : Expiry.Ordered s'.timermap := by
  rw [timers]
  exact ordered

theorem ordered_addToTimerQueue (ordered : Expiry.Ordered s.timermap) (c : ConnId)
    (curTime : Time) :
    Expiry.Ordered (s.addToTimerQueue c curTime).timermap := by
  simpa [addToTimerQueue, addTimer, insertTimer_eq] using ordered.schedule _ _

theorem ordered_deleteFromTimerQueue {queue : TimerQueue} (ordered : Expiry.Ordered queue.timermap)
    (sized : queue.Sized) (head : MsgHeader) :
    Expiry.Ordered (queue.deleteFromTimerQueue head).timermap := by
  rw [deleteFromTimerQueue_timermap sized]
  exact List.Pairwise.filter _ ordered

theorem acceptLoop_ordered {standby : ConnId} {answers : List AcceptAnswer} (inv : s.Inv)
    (ordered : Expiry.Ordered s.timermap) (h : s.acceptLoop standby env answers = some s') :
    Expiry.Ordered s'.timermap := by
  obtain ⟨useAccept4, hcases⟩ := acceptLoop_cases inv h
  rcases hcases with rfl | ⟨connfd, -, -, hadmits⟩
  · exact ordered
  cases hadmits with
  | refused => exact ordered
  | opened taken room timer =>
      rename_i w v c
      have htaken : Expiry.Ordered w.timermap := ordered_of_timers ordered taken.takes.timers
      rcases timer with ⟨-, rfl⟩ | ⟨-, rfl⟩
      · exact htaken
      · have hregistered : Expiry.Ordered
            (w.registered c connfd (epollin ||| epollrdhup) env.now).timermap := htaken
        exact ordered_addToTimerQueue hregistered c env.later
  | rejected taken => exact ordered_of_timers ordered taken.takes.timers

/-- A pass collects in order and puts the copies in their places. -/
theorem timerBegin_ordered (ordered : Expiry.Ordered s.timermap) (sized : s.toTimerQueue.Sized)
    (waits : 0 < s.conf.waittime) (h : s.timerBegin t = some s') : Expiry.Ordered s'.timermap := by
  simp only [timerBegin] at h
  split at h
  · cases h
  split at h
  · obtain rfl := Option.some.inj h
    exact ordered
  · obtain ⟨queue, hmap, -, hcollect⟩ := collectOverTime_due waits sized (ordered.split t)
      (fun entry h => (mem_due.mp h).2) fun entry h => (mem_later.mp h).2
    have hfuel : (due t s.timermap).length < s.timermap.length + 1 :=
      Nat.lt_succ_of_le (List.length_filter_le _ _)
    rw [hcollect _ hfuel] at h
    obtain rfl := Option.some.inj h
    show Expiry.Ordered queue.timermap
    rw [hmap]
    exact Expiry.Ordered.renew (List.Pairwise.filter _ ordered) _ _

theorem handleEvent_ordered (inv : s.Inv) (ordered : Expiry.Ordered s.timermap)
    (h : s.handleEvent env = some s') : Expiry.Ordered s'.timermap := by
  obtain ⟨c, events, rest, w, hevent⟩ := handleEvent_cases inv h
  have hinv := hevent.taken.inv
  have hread : Expiry.Ordered w.timermap := by
    cases handleIn_cases hinv hevent.ok hevent.inward with
    | reads _ hused hread =>
        have hframe := (readable_frame (hinv.idle_of_used hused) hread).untouched
        exact ordered_of_timers ordered hframe.1
    | accepts _ _ haccept => exact acceptLoop_ordered hinv ordered haccept
    | skips => exact ordered
  have hwrite := handleOut_untouched hevent.between.inv hevent.still hevent.outward
  exact ordered_of_timers hread hwrite.1

/-- An examination deletes entries or leaves the queue alone. -/
theorem timeCheckingProc_queue (h : s.timeCheckingProc = some s') :
    TimerOnly s s' ∧ ∃ queue, s'.timermap = TimerQueue.timermap queue ∧
      s'.timermapSize = queue.timermapSize ∧
        (queue = s.toTimerQueue ∨ ∃ head, queue = s.toTimerQueue.deleteFromTimerQueue head) := by
  cases timeCheckingProc_cases h with
  | finished | heard => exact ⟨timerOnly_setTimer _ _, s.toTimerQueue, rfl, rfl, .inl rfl⟩
  | @outdated head =>
      exact ⟨timerOnly_setTimer _ _, s.toTimerQueue.deleteFromTimerQueue head, rfl, rfl,
        .inr ⟨head, rfl⟩⟩
  | @silent head =>
      refine ⟨⟨rfl, fun c => ?_⟩, s.toTimerQueue, rfl, rfl, .inl rfl⟩
      by_cases hc : c = head.lpCurconn <;> simp [Connection.link, hc]

end State

namespace Server

open Expiry State TimerQueue

variable {s s' : State} {boot : Boot}

/-- Keys in order, a counter that is right, no entry twice. -/
def Kept (s : State) : Prop := s.Timed ∧ Expiry.Ordered s.timermap

theorem step_kept (inv : s.Inv) (enabled : s.conf.timeEnable = 1) (waits : 0 < s.conf.waittime)
    (kept : Kept s) {action : Action} (h : step s action = some s') : Kept s' := by
  obtain ⟨timed, ordered⟩ := kept
  cases action with
  | work w now => exact ⟨(work_covers inv h).timed timed, ordered_of_timers ordered (work_timers h)⟩
  | sendEntry i env =>
      exact ⟨(sendOne_covers inv h).timed timed, ordered_of_timers ordered (sendOne_timers h)⟩
  | loop action =>
      by_cases hcheck : action = .timerCheck
      · subst hcheck
        obtain ⟨honly, queue, hmap, hsize, hqueue⟩ := timeCheckingProc_queue h
        have hheaders : s'.toTimerQueue.headers = queue.headers := congrArg (List.map Prod.snd) hmap
        have hsized : queue.Sized → s'.toTimerQueue.Sized := fun hsized => by
          rw [Sized, hmap, hsize]
          exact hsized
        rw [Kept, hmap]
        rcases hqueue with rfl | ⟨head, rfl⟩
        · exact ⟨timed.of_perm honly.aged (hsized timed.sized) (.of_eq hheaders), ordered⟩
        · exact ⟨timed.deleted honly.aged hheaders
              (hsized (headers_deleteFromTimerQueue head timed.sized).2),
            ordered_deleteFromTimerQueue ordered timed.sized head⟩
      · refine ⟨(loopStep_covers inv enabled hcheck h).timed timed, ?_⟩
        cases action with
        | epollWait events =>
            obtain ⟨reported, -, rfl⟩ := epollWait_reports h
            exact ordered
        | handleEvent env => exact handleEvent_ordered inv ordered h
        | timerBegin curTime => exact timerBegin_ordered ordered timed.sized waits h
        | timerCheck => exact absurd rfl hcheck
        | timerDelete =>
            obtain ⟨head, due, curTime, -, rfl⟩ := timeOutDelete_cases h
            exact ordered_deleteFromTimerQueue ordered timed.sized _
        | timerClose env =>
            obtain ⟨head, due, curTime, w, -, hused, hclose, rfl⟩ := timeOutClose_cases inv h
            have hframe := (closeAcceptedConnection_frame (inv.idle_of_used hused) hclose).untouched
            have hclosed : Expiry.Ordered w.timermap := ordered_of_timers ordered hframe.1
            exact hclosed
        | recycle times => exact ordered_of_timers ordered (recyConnThreadFunc_returns h).timers
        | shutdown =>
            obtain rfl := Option.some.inj h
            exact ordered

/-- What a pass relies on holds in every state of a server that checks heartbeats. -/
theorem Reachable.kept (h : Reachable boot s) (enabled : boot.conf.timeEnable = 1)
    (waits : 0 < boot.conf.waittime) : Kept s ∧ s.Attached := by
  obtain ⟨s₀, actions, hstart, hr⟩ := h
  have hframe := hstart.frame
  have hfirst : Kept s₀ := by
    refine ⟨⟨?_, ?_, ?_⟩, ?_⟩ <;>
      simp [hframe.2, TimerQueue.Sized, TimerQueue.headers, Boot.state, Expiry.Ordered]
  have hstep : ∀ t a t', Evolves s₀ t ∧ Kept t → step t a = some t' → Evolves s₀ t' ∧ Kept t' := by
    rintro t a t' ⟨hevolves, hkept⟩ ht
    have hconf : t.conf = boot.conf := hevolves.conf.trans hstart.spec.2
    refine ⟨hevolves.trans (step_evolves hevolves.inv ht), ?_⟩
    exact step_kept hevolves.inv (hconf ▸ enabled) (hconf ▸ waits) hkept ht
  obtain ⟨hevolves, hkept⟩ := run_invariant hstep ⟨.refl hstart.inv, hfirst⟩ hr
  exact ⟨hkept, hevolves.inv.attached⟩

end Server

end MyNginx
