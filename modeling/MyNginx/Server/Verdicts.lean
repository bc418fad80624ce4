import MyNginx.Server.Coverage
import MyNginx.Server.Tally

/-!
# The verdicts of JudgeOutdate

Workers, the send thread and the timer thread ask `JudgeOutdate` whether a message header
is still current. It compares the sequence of the connection with the one of the header as
an `int`, which keeps the sequences below 2^31 and those from 2^64 - 2^31 on.
-/

namespace MyNginx

open Foundation

/-- The comparison that `JudgeOutdate` makes. -/
theorem eq_throughInt_iff {q n : Nat} : q = throughInt n ↔
    (q < 2 ^ 31 ∨ 2 ^ 64 - 2 ^ 31 ≤ q ∧ q < 2 ^ 64) ∧ n % 2 ^ 32 = q % 2 ^ 32 := by
  rw [throughInt]
  split <;> omega

namespace State

variable {s s' : State} {c : ConnId} {env : Env} {head : MsgHeader}

/-- The timer thread knows the header: it is in its queue or collected from it. -/
def Known (s : State) (head : MsgHeader) : Prop :=
  head ∈ s.toTimerQueue.headers ∨ head ∈ timerHeads s.timer

/-- No header that the timer thread knows is ahead of its connection. -/
def Past (s : State) : Prop :=
  ∀ head, s.Known head → head.msgCursequence ≤ (s.conn head.lpCurconn).sequence

theorem Inv.known_used (inv : s.Inv) (known : s.Known head) : s.Used head.lpCurconn := by
  rcases known with hentry | hheld
  · obtain ⟨entry, hmem, rfl⟩ := List.mem_map.mp hentry
    exact inv.timers.1 entry hmem
  · exact inv.timers.2 head hheld

/-- The timer thread comes to know the current header of a connection at most. -/
theorem Past.of_known (past : s.Past) (inv : s.Inv) (aged : Aged s s')
    (known : ∀ head, s'.Known head → s.Known head ∨
      head.msgCursequence = (s'.conn head.lpCurconn).sequence) : s'.Past := by
  intro head hknown
  rcases known head hknown with hold | hnew
  · exact Nat.le_trans (past head hold) (aged.sequence_le (inv.known_used hold))
  · exact Nat.le_of_eq hnew

theorem Past.of_timers (past : s.Past) (inv : s.Inv) (aged : Aged s s')
    (timers : s'.toTimerQueue = s.toTimerQueue) : s'.Past := by
  apply past.of_known inv aged
  intro head hknown
  rw [Known, timers] at hknown
  exact .inl hknown

theorem Admits.past {connfd : Fd} (h : Admits s connfd env s') (inv : s.Inv) (hfd : 0 ≤ connfd)
    (hclosed : s.openFds connfd = false) (past : s.Past) : s'.Past := by
  have haged := (h.evolves inv hfd hclosed).aged
  cases h with
  | refused => exact past
  | rejected taken => exact past.of_timers inv haged taken.takes.timers
  | opened taken room timer =>
      rename_i t w c
      have htimers : t.toTimerQueue = s.toTimerQueue := taken.takes.timers
      rcases timer with ⟨-, rfl⟩ | ⟨-, rfl⟩
      · exact past.of_timers inv haged htimers
      · apply past.of_known inv haged
        have hqueue : ((t.registered c connfd (epollin ||| epollrdhup) env.now).addToTimerQueue c
            env.later).toTimerQueue = s.toTimerQueue.addTimer (env.later + t.conf.waittime)
              (((t.registered c connfd (epollin ||| epollrdhup) env.now).addToTimerQueue c
                env.later).timerHeader c) := by
          simp [addToTimerQueue, timerHeader, registered, prepared, getOneToUse, htimers]
        intro head hknown
        rw [Known, hqueue, (TimerQueue.headers_addTimer _).mem_iff] at hknown
        rcases hknown with hentry | hheld
        · rcases List.mem_cons.mp hentry with rfl | hold
          · exact .inr rfl
          · exact .inl (.inl hold)
        · exact .inl (.inr (by simpa [TimerQueue.addTimer] using hheld))

theorem acceptLoop_past {standby : ConnId} {answers : List AcceptAnswer} (inv : s.Inv)
    (past : s.Past) (h : s.acceptLoop standby env answers = some s') : s'.Past := by
  obtain ⟨useAccept4, hcases⟩ := acceptLoop_cases inv h
  have hquiet : Quiet s { s with useAccept4 } :=
    quiet_of_view rfl rfl rfl rfl rfl rfl rfl rfl rfl rfl
  rcases hcases with rfl | ⟨connfd, hfd, hclosed, hadmits⟩
  · exact past
  · exact hadmits.past (hquiet.toNeutral.inv inv) hfd hclosed past

theorem handleEvent_past (inv : s.Inv) (past : s.Past) (h : s.handleEvent env = some s') :
    s'.Past := by
  obtain ⟨c, events, rest, t, hevent⟩ := handleEvent_cases inv h
  have hinv := hevent.taken.inv
  have hread : t.Past := by
    have hbefore : ({ s with events := rest } : State).Past := past
    cases handleIn_cases hinv hevent.ok hevent.inward with
    | reads _ hused hread =>
        have hframe := readable_frame (hinv.idle_of_used hused) hread
        exact hbefore.of_timers hinv hevent.between.aged hframe.untouched.1
    | accepts _ _ haccept => exact acceptLoop_past hinv hbefore haccept
    | skips => exact hbefore
  have hlast := handleOut_moves hevent.between.inv hevent.still hevent.outward
  exact hread.of_timers hevent.between.inv (hlast.evolves hevent.between.inv).aged
    (handleOut_untouched hevent.between.inv hevent.still hevent.outward).1

/-- The timer thread takes the headers it holds from its queue. -/
theorem Past.setTimer {t : State} (past : s.Past) (queue : TimerQueue) (timer : TimerPc)
    (conn : ∀ c, (t.conn c).sequence = (s.conn c).sequence)
    (entries : ∀ head ∈ queue.headers, s.Known head)
    (heads : ∀ head ∈ timerHeads timer, s.Known head) : (t.setTimer queue timer).Past := by
  intro head hknown
  have hseq : ((t.setTimer queue timer).conn head.lpCurconn).sequence =
      (s.conn head.lpCurconn).sequence := conn head.lpCurconn
  rw [hseq]
  rcases hknown with hentry | hheld
  · exact past head (entries head hentry)
  · exact past head (heads head hheld)

theorem known_of_timersFrom {queue : TimerQueue} (h : TimersFrom s.toTimerQueue queue) :
    ∀ head ∈ queue.headers, s.Known head := by
  intro head hhead
  obtain ⟨entry, hentry, rfl⟩ := List.mem_map.mp hhead
  obtain ⟨old, hold, heq⟩ := h.2 entry hentry
  exact .inl (List.mem_map.mpr ⟨old, hold, heq⟩)

theorem timerBegin_past {curTime : Time} (past : s.Past) (h : s.timerBegin curTime = some s') :
    s'.Past := by
  rcases (timerBegin_cases h).2 with rfl | ⟨queue, due, hcollect, rfl⟩
  · exact past
  · obtain ⟨hfrom, hdue⟩ := collectOverTime_spec hcollect
    apply past.setTimer queue _ (fun _ => rfl) (known_of_timersFrom hfrom)
    intro head hhead
    obtain ⟨old, hold, heq⟩ := hdue head hhead
    exact .inl (List.mem_map.mpr ⟨old, hold, heq⟩)

theorem timeCheckingProc_past (past : s.Past) (h : s.timeCheckingProc = some s') : s'.Past := by
  have hkept : ∀ head ∈ s.toTimerQueue.headers, s.Known head := fun _ => .inl
  have hheld : ∀ {head due curTime}, s.timer = .examining (head :: due) curTime →
      ∀ a ∈ head :: due, s.Known a := fun htimer a ha => .inr (by rwa [htimer])
  cases timeCheckingProc_cases h with
  | finished =>
      exact past.setTimer _ _ (fun _ => rfl) hkept fun _ h => absurd h List.not_mem_nil
  | @outdated head due curTime htimer =>
      exact past.setTimer _ _ (fun _ => rfl)
        (known_of_timersFrom (deleteFromTimerQueue_spec s.toTimerQueue head))
        fun a ha => hheld htimer a (List.mem_cons_of_mem head ha)
  | @silent head due curTime htimer =>
      apply past.setTimer _ (.marked head due curTime) ?_ hkept (hheld htimer)
      intro c
      by_cases hc : c = head.lpCurconn <;> simp [hc]
  | @heard head due curTime htimer =>
      exact past.setTimer _ _ (fun _ => rfl) hkept
        fun a ha => hheld htimer a (List.mem_cons_of_mem head ha)

theorem timeOutDelete_past (past : s.Past) (h : s.timeOutDelete = some s') : s'.Past := by
  obtain ⟨head, due, curTime, htimer, rfl⟩ := timeOutDelete_cases h
  exact past.setTimer _ _ (fun _ => rfl)
    (known_of_timersFrom (deleteFromTimerQueue_spec s.toTimerQueue head))
    fun a ha => .inr (by rwa [htimer])

theorem timeOutClose_past (inv : s.Inv) (past : s.Past) (h : s.timeOutClose env = some s') :
    s'.Past := by
  have haged := (Moves.evolves (timeOutClose_moves inv h) inv).aged
  obtain ⟨head, due, curTime, t, htimer, hused, hclose, rfl⟩ := timeOutClose_cases inv h
  have hframe := closeAcceptedConnection_frame (inv.idle_of_used hused) hclose
  apply past.of_known inv haged
  intro a hknown
  rcases hknown with hentry | hheld
  · have hqueue : a ∈ t.toTimerQueue.headers := hentry
    rw [hframe.untouched.1] at hqueue
    exact .inl (.inl hqueue)
  · refine .inl (.inr ?_)
    rw [htimer]
    exact List.mem_cons_of_mem head hheld

end State

namespace Server

open State

variable {s s' : State} {boot : Boot} {actions : List Action} {head : MsgHeader}

theorem step_past (inv : s.Inv) (past : s.Past) {action : Action} (h : step s action = some s') :
    s'.Past := by
  have haged := (step_evolves inv h).aged
  cases action with
  | loop action =>
      cases action with
      | epollWait events =>
          obtain ⟨reported, -, rfl⟩ := epollWait_reports h
          exact past
      | handleEvent env => exact handleEvent_past inv past h
      | timerBegin curTime => exact timerBegin_past past h
      | timerCheck => exact timeCheckingProc_past past h
      | timerDelete => exact timeOutDelete_past past h
      | timerClose env => exact timeOutClose_past inv past h
      | recycle times => exact past.of_timers inv haged (recyConnThreadFunc_returns h).timers
      | shutdown =>
          obtain rfl := Option.some.inj h
          exact past
  | work w now => exact past.of_timers inv haged (work_timers h)
  | sendEntry i env => exact past.of_timers inv haged (sendOne_timers h)

/-- The message header that a step passes to `JudgeOutdate`: of the message that a worker
takes, of the reply that the send thread comes to, of the entry that is examined next. -/
def judged (s : State) : Action → Option MsgHeader
  | .work _ _ =>
      match s.msgqueue with
      | some msg :: _ => some msg.head
      | _ => none
  | .sendEntry i _ => s.sendMsgList[i]?.map fun reply => reply.head
  | .loop .timerCheck =>
      match s.timer with
      | .examining (head :: _) _ => some head
      | _ => none
  | .loop _ => none

/-- The connection is open on a positive descriptor and not in the recycle list. -/
def Serving (s : State) (c : ConnId) : Prop :=
  0 < (s.conn c).fd ∧ c ∉ s.recyConnectionList

instance : DecidableRel Serving := fun _ _ => inferInstanceAs (Decidable (_ ∧ _))

/-- What `JudgeOutdate` says in the step of the header of a connection that is served is
whether its sequence is the one of the connection. -/
def JudgedExactly (s : State) (action : Action) : Prop :=
  ∀ head ∈ judged s action, Serving s head.lpCurconn →
    ((s.conn head.lpCurconn).judgeOutdate head.msgCursequence = true ↔
      head.msgCursequence = (s.conn head.lpCurconn).sequence)

/-- The sequence `q` of a connection is small, or the header has it and it is large, or the
header has another one that is not taken for it. -/
def Distinguishes (q n : Nat) : Prop :=
  q < 2 ^ 31 ∨ (n = q ∧ 2 ^ 64 - 2 ^ 31 ≤ q ∧ q < 2 ^ 64) ∨
    (n ≠ q ∧ ¬ (2 ^ 64 - 2 ^ 31 ≤ q ∧ q < 2 ^ 64 ∧ n % 2 ^ 32 = q % 2 ^ 32))

theorem distinguishes_iff {q n : Nat} (le : n ≤ q) :
    ((q < 2 ^ 31 ∨ 2 ^ 64 - 2 ^ 31 ≤ q ∧ q < 2 ^ 64) ∧ n % 2 ^ 32 = q % 2 ^ 32 ↔ n = q) ↔
      Distinguishes q n := by
  rw [Distinguishes]
  omega

/-- The step asks for a sequence that `JudgeOutdate` distinguishes. -/
def Distinguished (s : State) (action : Action) : Prop :=
  ∀ head ∈ judged s action, Serving s head.lpCurconn →
    Distinguishes (s.conn head.lpCurconn).sequence head.msgCursequence

instance (q n : Nat) : Decidable (Distinguishes q n) := inferInstanceAs (Decidable (_ ∨ _))

instance : DecidableRel Distinguished := fun s action =>
  inferInstanceAs (Decidable (∀ head ∈ judged s action, _ → _))

/-- A header that a step passes to `JudgeOutdate` is that of an accepted connection and not
ahead of it. -/
theorem judged_past (inv : s.Inv) (past : s.Past) {action : Action}
    (h : judged s action = some head) :
    s.Used head.lpCurconn ∧ head.msgCursequence ≤ (s.conn head.lpCurconn).sequence := by
  cases action with
  | work w now =>
      simp only [judged] at h
      split at h
      next msg rest hqueue =>
        obtain rfl := Option.some.inj h
        obtain ⟨hused, hle, -⟩ := inv.flight.queue msg (by rw [hqueue]; exact List.mem_cons_self)
        exact ⟨hused, hle⟩
      · cases h
  | sendEntry i env =>
      obtain ⟨reply, hreply, rfl⟩ := Option.map_eq_some_iff.mp h
      obtain ⟨hused, hle, -⟩ := inv.flight.replies reply (List.mem_of_getElem? hreply)
      exact ⟨hused, hle⟩
  | loop action =>
      cases action with
      | timerCheck =>
          simp only [judged] at h
          split at h
          next first due curTime htimer =>
            obtain rfl := Option.some.inj h
            have hknown : s.Known first := .inr (by rw [htimer]; exact List.mem_cons_self)
            exact ⟨inv.known_used hknown, past first hknown⟩
          · cases h
      | _ => cases h

theorem judgedExactly_iff (inv : s.Inv) (past : s.Past) (action : Action) :
    JudgedExactly s action ↔ Distinguished s action := by
  apply forall_congr'
  intro head
  apply forall_congr'
  intro hjudged
  apply forall_congr'
  intro serving
  obtain ⟨hused, hle⟩ := judged_past inv past hjudged
  have hopen : (s.conn head.lpCurconn).fd ≠ -1 := by
    have hpos := serving.1
    intro hfd
    rw [hfd] at hpos
    exact absurd hpos (by decide)
  have hidle := inv.wired.idle _ hused hopen
  rw [Connection.judgeOutdate_iff, hidle, eq_throughInt_iff, and_iff_right serving.1,
    and_iff_right (by decide)]
  exact distinguishes_iff hle

/-- In every step of a run `JudgeOutdate` tells the current headers of open connections
from the others, if and only if every step asks for a sequence that it distinguishes. -/
theorem judged_exactly (hstart : boot.Starts s) :
    Along step JudgedExactly s actions ↔ Along step Distinguished s actions := by
  have hpast : s.Past := by
    intro head hknown
    simp [Known, hstart.frame.2, Boot.state, TimerQueue.headers, timerHeads] at hknown
  apply along_congr (I := fun s => s.Inv ∧ s.Past)
    (fun s a s' hi hs => ⟨(step_evolves hi.1 hs).inv, step_past hi.1 hi.2 hs⟩)
    (fun s a s' hi _ => judgedExactly_iff hi.1 hi.2 a) ⟨hstart.inv, hpast⟩

/-- A ping of the first use of its connection, the answer and the timer entry. -/
theorem judged_exactly_ping : ∃ s, Boot.small.Starts s ∧ Along step JudgedExactly s
    (acceptOn 5 100 ++ eventOn 5 epollin { recv := .data (encodeHeader pkgHeaderLen 0 0) } ++
      [.work 0 101, .sendEntry 0 { send := [.sent 8] }, .loop (.timerBegin 105),
        .loop .timerCheck]) := by
  have hrun : (Boot.small.state.epollEventInit [true]).map (fun s => decide (Along step Distinguished s
      (acceptOn 5 100 ++ eventOn 5 epollin { recv := .data (encodeHeader pkgHeaderLen 0 0) } ++
        [.work 0 101, .sendEntry 0 { send := [.sent 8] }, .loop (.timerBegin 105),
          .loop .timerCheck]))) = some true := by decide
  obtain ⟨s, hstart, hall⟩ := Option.map_eq_some_iff.mp hrun
  exact ⟨s, ⟨_, hstart⟩, (judged_exactly ⟨_, hstart⟩).mpr (of_decide_eq_true hall)⟩

/-- A ping of a connection with the sequence 2^31 + 1 is dropped as outdated. -/
theorem judged_inexactly : ¬ ∀ (boot : Boot) (s : State) (actions : List Action),
    boot.Starts s → Along step JudgedExactly s actions := by
  intro hclaim
  obtain ⟨s₀, actions, s₁, t, hstart, hr, hvisited⟩ := visited_of_launch
  obtain ⟨s₂, msg, hrequest, hsent, hhead, -⟩ := hvisited.request
  have hrun : run step s₀ (actions ++
      eventOn 5 epollin { recv := .data (encodeHeader pkgHeaderLen 0 0) }) = some s₂ := by
    rw [run_append, hr]
    exact hrequest
  have hjudge : (s₂.conn 1).judgeOutdate (2 ^ 31 + 1) = false := by
    rw [Bool.eq_false_iff, ne_eq, Connection.judgeOutdate_iff, hsent.sequence]
    exact fun h => absurd h.2.2 (by decide)
  obtain ⟨taken, hget, hconn⟩ : ∃ taken : State,
      s₂.getMsgItem = (taken, some msg) ∧ taken.conn = s₂.conn := by
    simp [getMsgItem, hsent.inbox]
  have houtdated : taken.threadRecvProc msg 0 = (taken, none) := by
    rw [← hconn] at hjudge
    rw [threadRecvProc, hhead, if_pos hjudge]
  have hs' : step s₂ (.work 0 0) = some taken := by
    simp [step, work, takeMessage, hsent.inbox, hget, houtdated]
  have hexact := ((hclaim _ _ (_ ++ [.work 0 0]) hstart).append_right hrun taken hs').1
  have hverdict := hexact ⟨1, 2 ^ 31 + 1⟩ (by simp [judged, hsent.inbox, hhead])
    ⟨by rw [hsent.connected.1]; decide, by rw [hsent.recy.1]; exact List.not_mem_nil⟩
  rw [hjudge, hsent.sequence] at hverdict
  exact absurd (hverdict.mpr rfl) (by decide)

end Server

end MyNginx
