import MyNginx.Server.Lasting

/-!
# Heartbeats and eviction

The timer thread evicts a connection by the time of its accept and of the last
packet with code 0 that was handled, because that is where `_HandlePing` stands in
`status_handleset`. The command code of a heartbeat is `_CMD_PING`, which is 1, so
heartbeats do not keep a connection alive.
-/

namespace MyNginx

open Foundation

namespace Server

open State

variable {s s₀ s' t : State} {boot : Boot} {actions : List Action} {c d : ConnId} {n : Nat}

/-- An observer of the clock: by connection object, the time of its last accept
or of the last current heartbeat with code `code` that a worker handled. -/
def beat (code : Nat) (s : State) (action : Action) (s' : State) (last : ConnId → Time) :
    ConnId → Time :=
  match action with
  | .loop action => fun c =>
      if s.history.use c < s'.history.use c then acceptTime s.conf action.env else last c
  | .work _ now =>
      match s.msgqueue with
      | some msg :: _ =>
          if (s.conn msg.head.lpCurconn).judgeOutdate msg.head.msgCursequence ∧
              Heartbeat code msg then
            Function.update last msg.head.lpCurconn now
          else last
      | _ => last
  | .sendEntry _ _ => last

/-- The examination that is next to be made finds the connection `n` of the object
`c` silent for too long, so that `TimeCheckingProc` calls `TimeOutProc`. -/
def Evicts (c : ConnId) (n : Nat) (s : State) (action : Action) : Prop :=
  match action, s.timeCheckingProc with
  | .loop .timerCheck, some s' =>
      match s'.timer with
      | .marked head _ _ => head.lpCurconn = c ∧ s.history.use c = n
      | _ => False
  | _, _ => False

/-- An examination of the connection `n` of the object `c` takes place within
three waiting times of its last beat. -/
def Spared (c : ConnId) (n : Nat) (w : State × (ConnId → Time)) (action : Action) : Prop :=
  match action, w.1.timer with
  | .loop .timerCheck, .examining (head :: _) curTime =>
      head.lpCurconn = c → w.1.history.use c = n →
        (w.1.conn c).judgeOutdate head.msgCursequence →
          curTime - w.2 c ≤ 3 * w.1.conf.waittime
  | _, _ => True

instance : DecidableRel (Evicts c n) := fun s action => by
  unfold Evicts
  repeat split
  all_goals infer_instance

instance : DecidableRel (Spared c n) := fun w action => by
  unfold Spared
  split
  all_goals infer_instance

/-- For every open connection the timer thread reads the time of its last beat. -/
def OnTime (w : State × (ConnId → Time)) : Prop :=
  w.1.Inv ∧ ∀ c, w.1.Used c → (w.1.conn c).fd ≠ -1 → (w.1.conn c).pingUpdateTime = w.2 c

/-- What handling a message leaves in `ping_update_time`. -/
theorem onTime_processed {msg : Message} {now : Time} {r : Option Reply} {last : ConnId → Time}
    (h : Processed s msg now (s', r)) (onTime : OnTime (s, last)) :
    OnTime (s', if (s.conn msg.head.lpCurconn).judgeOutdate msg.head.msgCursequence ∧
        Heartbeat 0 msg then Function.update last msg.head.lpCurconn now else last) := by
  have hneutral := h.neutral
  refine ⟨hneutral.inv onTime.1, fun c used opened => ?_⟩
  have hold := onTime.2 c (hneutral.used_iff.mp used)
    (by rwa [(link_eq (hneutral.link c)).1] at opened)
  cases h with
  | dropped silent =>
      rw [if_neg fun hbeat => silent hbeat.1 hbeat.2]
      exact hold
  | heartbeat current beat answers =>
      rename_i reply
      simp only [if_pos (And.intro current beat), State.supposeSend]
      by_cases hc : c = msg.head.lpCurconn
      · simp [hc, answers.1]
      · simpa [hc, answers.1] using hold
  | answered current code answers =>
      rename_i reply
      have hsilent : ¬ Heartbeat 0 msg := fun hbeat => by
        have hcode := hbeat.2.1
        omega
      rw [if_neg fun hbeat => hsilent hbeat.2]
      by_cases hc : c = reply.head.lpCurconn
      · subst hc
        simpa [State.supposeSend] using hold
      · simpa [State.supposeSend, hc] using hold

theorem OnTime.steady {last : ConnId → Time} (onTime : OnTime (s, last)) (h : Steady s s') :
    OnTime (s', last) := by
  refine ⟨h.inv onTime.1, fun c used opened => ?_⟩
  have hlife := h.life c
  simp only [Connection.life, Prod.mk.injEq] at hlife
  rw [(link_eq (h.link c)).1] at opened
  exact hlife.1.trans (onTime.2 c (h.used_iff.mp used) opened)

theorem OnTime.work {last : ConnId → Time} (onTime : OnTime (s, last)) {w : Nat} {now : Time}
    (h : Server.work s w now = some s') : OnTime (s', beat 0 s (.work w now) s' last) := by
  simp only [Server.work] at h
  obtain ⟨⟨t, r⟩, htake, h⟩ := Option.bind_eq_some_iff.mp h
  have htook := takeMessage_took htake
  have hstamped : ∀ reply, r = some reply → t.Stamped reply.head reply.origin := by
    rintro reply rfl
    have hneutral := htook.neutral
    have hseq : ∀ c, (t.conn c).sequence = (s.conn c).sequence := fun c =>
      (link_eq (hneutral.link c)).2.1
    exact (stamped_congr hseq hneutral.use_eq).mpr (htook.stamped onTime.1)
  have htaken : OnTime (t, beat 0 s (.work w now) s' last) := by
    cases htook with
    | null queue =>
        simp only [beat, queue]
        refine onTime.steady (steady_behind fun msg hm => ?_)
        rw [queue]
        exact List.mem_cons_of_mem _ hm
    | message queue processed =>
        rename_i msg rest
        simp only [beat, queue]
        have hbehind : OnTime (s.behind rest, last) := by
          refine onTime.steady (steady_behind fun msg hm => ?_)
          rw [queue]
          exact List.mem_cons_of_mem _ hm
        have htaken := onTime_processed processed hbehind
        exact htaken
  cases r with
  | none =>
      obtain rfl := Option.some.inj h
      exact htaken
  | some reply => exact htaken.steady (steady_msgSendInQueue (hstamped reply rfl) h)

theorem OnTime.step {w w' : State × (ConnId → Time)} (onTime : OnTime w) {action : Action}
    (h : watched Server.step (beat 0) w action = some w') : OnTime w' := by
  obtain ⟨s', hs, rfl⟩ := watched_eq_some.mp h
  obtain ⟨s, last⟩ := w
  cases action with
  | loop action =>
      have hmoves := loopStep_moves onTime.1 hs
      refine ⟨(Moves.evolves hmoves onTime.1).inv, fun c used opened => ?_⟩
      simp only [beat]
      cases Moves.lasts hmoves onTime.1 used opened with
      | same hused hopened huse hlink hping hcount =>
          rw [if_neg (by rw [huse]; exact Nat.lt_irrefl _), hping]
          exact onTime.2 c hused hopened
      | fresh huse hping hcount => rw [if_pos huse, hping]
  | work w now => exact onTime.work hs
  | sendEntry i env => exact onTime.steady (sendOne_steady onTime.1 hs)

/-- What an examination comes to: the connection is marked if it is current and was
silent for too long. -/
theorem timeCheckingProc_timer {head : MsgHeader} {due : List MsgHeader} {curTime : Time}
    (timer : s.timer = .examining (head :: due) curTime) (h : s.timeCheckingProc = some s') :
    s'.timer = .marked head due curTime ∧
        (s.conn head.lpCurconn).judgeOutdate head.msgCursequence = true ∧
        3 * s.conf.waittime < curTime - (s.conn head.lpCurconn).pingUpdateTime ∨
      s'.timer = .examining due curTime ∧
        ((s.conn head.lpCurconn).judgeOutdate head.msgCursequence = true →
          curTime - (s.conn head.lpCurconn).pingUpdateTime ≤ 3 * s.conf.waittime) := by
  simp only [timeCheckingProc, timer] at h
  split at h
  next houtdated =>
    obtain rfl := Option.some.inj h
    exact .inr ⟨rfl, by simp [houtdated]⟩
  next hcurrent =>
    split at h
    · cases h
    split at h
    next hsilent =>
      obtain rfl := Option.some.inj h
      exact .inl ⟨rfl, by simpa using hcurrent, hsilent⟩
    next hsilent =>
      obtain rfl := Option.some.inj h
      exact .inr ⟨rfl, fun _ => Int.not_lt.mp hsilent⟩

/-- An examination evicts a connection precisely when it comes too late. -/
theorem evicts_iff {w w' : State × (ConnId → Time)} (onTime : OnTime w) {action : Action}
    (h : watched Server.step (beat 0) w action = some w') :
    ¬ Evicts c n w.1 action ↔ Spared c n w action := by
  obtain ⟨s', hs, rfl⟩ := watched_eq_some.mp h
  obtain ⟨s, last⟩ := w
  cases action with
  | work => simp [Evicts, Spared]
  | sendEntry => simp [Evicts, Spared]
  | loop action =>
      cases action with
      | timerCheck =>
          have hs : s.timeCheckingProc = some s' := hs
          cases htimer : s.timer with
          | examining due curTime =>
              cases due with
              | nil => simp [Evicts, Spared, timeCheckingProc, htimer]
              | cons head due =>
                  have hused : s.Used head.lpCurconn := by
                    refine onTime.1.timers.2 head ?_
                    rw [htimer]
                    exact List.mem_cons_self
                  have hping : (s.conn head.lpCurconn).judgeOutdate head.msgCursequence = true →
                      (s.conn head.lpCurconn).pingUpdateTime = last head.lpCurconn := by
                    exact fun hcurrent =>
                      onTime.2 _ hused (Connection.fd_ne_of_judgeOutdate hcurrent)
                  rcases timeCheckingProc_timer htimer hs with
                    ⟨hmarked, hcurrent, hsilent⟩ | ⟨hkept, hheard⟩
                  · simp only [Evicts, Spared, hs, hmarked, htimer]
                    rw [hping hcurrent] at hsilent
                    constructor
                    · rintro hnot rfl huse
                      exact absurd ⟨rfl, huse⟩ hnot
                    · rintro hspared ⟨rfl, huse⟩
                      exact absurd (hspared rfl huse hcurrent) (Int.not_le.mpr hsilent)
                  · simp only [Evicts, Spared, hs, hkept, htimer, not_false_eq_true, true_iff]
                    rintro rfl - hcurrent
                    rw [← hping hcurrent]
                    exact hheard hcurrent
          | _ => simp [Evicts, Spared, timeCheckingProc, htimer]
      | _ => simp [Evicts, Spared]

/-- A worker process starts without accepted connections. -/
theorem onTime_of_starts (h : boot.Starts s) (last : ConnId → Time) : OnTime (s, last) := by
  refine ⟨h.inv, fun c used => ?_⟩
  obtain ⟨⟨all, htaking⟩, -⟩ := h.spec
  simp [Used, htaking.history, Boot.state] at used

/-- The timer thread leaves the connection `n` of the object `c` alone precisely if
every examination takes place in time after its accept or after the last packet with
code 0, not `_CMD_PING`, that was handled. -/
theorem spared_iff (hstart : boot.Starts s) (last : ConnId → Time) :
    Along step (fun s action => ¬ Evicts c n s action) s actions ↔
      Along (watched step (beat 0)) (Spared c n) (s, last) actions := by
  rw [← along_watched (beat 0) (s, last)]
  exact along_congr (fun _ _ _ onTime hs => onTime.step hs) (fun _ _ _ onTime => evicts_iff onTime)
    (onTime_of_starts hstart last)

/-- Accept a connection at time 100, handle one heartbeat with the given code at
time 110, and let the timer thread look at the time 116. -/
def heartbeatRun (code : UInt8) : List Action :=
  acceptOn 5 100 ++
    eventOn 5 epollin { recv := .data [0, 8, 0, code, 0, 0, 0, 0], now := 110, later := 110 } ++
    [.work 0 110, .loop (.timerBegin 116), .loop .timerCheck]

/-- A heartbeat with code 0 counts. -/
theorem spared_iff_code_zero :
    ∃ s, Boot.small.Starts s ∧ Along step (fun s action => ¬ Evicts 1 1 s action) s (heartbeatRun 0) := by
  have hrun : (Boot.small.state.epollEventInit [true]).map (fun s =>
      decide (Along (watched step (beat 0)) (Spared 1 1) (s, fun _ => 0) (heartbeatRun 0))) =
      some true := by decide
  obtain ⟨s, hstart, hspared⟩ := Option.map_eq_some_iff.mp hrun
  exact ⟨s, ⟨_, hstart⟩, (spared_iff ⟨_, hstart⟩ fun _ => 0).mpr (of_decide_eq_true hspared)⟩

/-- The clock readings of a step. -/
def Action.readings : Action → List Time
  | .loop (.handleEvent env) => [env.now, env.later]
  | .loop (.timerBegin curTime) => [curTime]
  | .loop (.timerClose env) => [env.now]
  | .loop (.recycle times) => times
  | .work _ now => [now]
  | _ => []

/-- The clock is read within three waiting times of the last beat while the
connection `n` of the object `c` is open. -/
def Punctual (c : ConnId) (n : Nat) (w : State × (ConnId → Time)) (action : Action) : Prop :=
  w.1.history.use c = n → (w.1.conn c).fd ≠ -1 →
    ∀ now ∈ action.readings, now - w.2 c ≤ 3 * w.1.conf.waittime

instance : DecidableRel (Punctual c n) := fun w action => by
  unfold Punctual
  infer_instance

/-- A connection whose last heartbeat, with the code `_CMD_PING`, is six seconds old is
evicted although three waiting times are fifteen seconds. -/
theorem heartbeat_not_counted :
    ¬ ∀ (boot : Boot) (s : State) (last : ConnId → Time) (actions : List Action) (c : ConnId)
      (n : Nat), boot.Starts s → (actions.flatMap Action.readings).Pairwise (· ≤ ·) →
        Along (watched step (beat cmdPing)) (Punctual c n) (s, last) actions →
          Along step (fun s action => ¬ Evicts c n s action) s actions := by
  intro hclaim
  have hrun : (Boot.small.state.epollEventInit [true]).map (fun s =>
      (decide (Along (watched step (beat cmdPing)) (Punctual 1 1) (s, fun _ => 0)
          (heartbeatRun 1)),
        decide (Along step (fun s action => ¬ Evicts 1 1 s action) s (heartbeatRun 1)))) =
      some (true, false) := by decide
  obtain ⟨s, hstart, heq⟩ := Option.map_eq_some_iff.mp hrun
  obtain ⟨hpunctual, hevicted⟩ := Prod.mk.inj heq
  exact of_decide_eq_false hevicted
    (hclaim _ s _ _ 1 1 ⟨_, hstart⟩ (by decide) (of_decide_eq_true hpunctual))

end Server

end MyNginx
