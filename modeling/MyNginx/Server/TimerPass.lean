import Mathlib
import MyNginx.Foundation.Expiry
import MyNginx.Server.Coverage

/-!
# One pass of the timer thread

A pass takes the due entries from the front of `m_timermap` and inserts each again under
a later key, so the loop that collects them ends after as many rounds as there are due
entries. The entries are then examined in that order, with all the copies in the map.
Whether an entry is kept depends on its connection alone: nothing happens to a connection
during the pass but that it is closed, and then all its entries go. The pass treats the
entries as it should where `JudgeOutdate` knows the sequences of their connections, which
it takes as `int`, and `3 * m_waittime` is an `int`.
-/

namespace MyNginx

open Foundation

namespace TimerQueue

open Expiry State

variable {q : TimerQueue} {t : Time} {head : MsgHeader} {front back : List (Time × MsgHeader)}

theorem insertTimer_eq (key : Time) (head : MsgHeader) (entries : List (Time × MsgHeader)) :
    insertTimer key head entries = schedule key head entries := by
  induction entries with
  | nil => rfl
  | cons entry rest ih =>
      simp only [insertTimer, schedule, ih]

/-- `GetOverTime` on a queue whose first entry is due. -/
theorem getOverTime_due (sized : q.Sized) (waittime : Int) {entry : Time × MsgHeader}
    (map : q.timermap = entry :: back) (due : entry.1 ≤ t) :
    ∃ next, q.getOverTime waittime t = (next, some entry.2) ∧
      next.timermap = schedule (t + waittime) entry.2 back ∧ next.Sized := by
  have hsize : q.timermapSize ≠ 0 := by
    rw [sized, map, List.length_cons]
    omega
  have hlength := (schedule_perm (t + waittime) entry.2 back).length_eq
  have hget : q.getOverTime waittime t = (({ q.removeTimerFrist back with
      timermap := insertTimer (t + waittime) entry.2 (q.removeTimerFrist back).timermap
      timermapSize := (q.removeTimerFrist back).timermapSize + 1 } : TimerQueue).refreshTimerValue,
        some entry.2) := by
    simp only [getOverTime, map, hsize, due, if_true, if_false]
  refine ⟨_, hget, ?_, ?_⟩
  · simp [removeTimerFrist, insertTimer_eq]
  · rw [Sized, map] at sized
    simp only [Sized, removeTimerFrist, refreshTimerValue_timermap, refreshTimerValue_timermapSize,
      insertTimer_eq, hlength, sized, List.length_cons]
    omega

/-- `GetOverTime` on a queue without due entries. -/
theorem getOverTime_later {waittime : Int} (later : ∀ entry ∈ q.timermap, t < entry.1) :
    q.getOverTime waittime t = (q, none) := by
  simp only [getOverTime]
  split
  · rfl
  next entry rest map =>
    have hlt : t < entry.1 := later entry (by rw [map]; exact List.mem_cons_self)
    rw [if_neg (not_le.mpr hlt)]
    exact ite_self _

/-- The loop over `GetOverTime` ends, and it collects the due entries. -/
theorem collectOverTime_due {waittime : Int} (waits : 0 < waittime) (sized : q.Sized)
    (map : q.timermap = front ++ back) (due : ∀ entry ∈ front, entry.1 ≤ t)
    (later : ∀ entry ∈ back, t < entry.1) :
    ∃ queue : TimerQueue, queue.timermap = renew (t + waittime) front back ∧ queue.Sized ∧
      ∀ fuel, front.length < fuel →
        q.collectOverTime waittime t fuel = some (queue, front.map Prod.snd) := by
  induction front generalizing q back with
  | nil =>
      refine ⟨q, map, sized, fun fuel hfuel => ?_⟩
      obtain ⟨fuel, rfl⟩ := Nat.exists_eq_add_one_of_ne_zero (Nat.ne_zero_of_lt hfuel)
      have hmap : q.timermap = back := map
      rw [collectOverTime, getOverTime_later (by rw [hmap]; exact later)]
      rfl
  | cons entry front ih =>
      obtain ⟨next, hget, hnext, hsized⟩ := getOverTime_due sized waittime map
        (due entry List.mem_cons_self)
      have hdue : ∀ other ∈ front, other.1 ≤ t := fun other h =>
        due other (List.mem_cons_of_mem _ h)
      -- The copy goes behind all entries that are still due, among the later ones.
      have hsplit : next.timermap = front ++ schedule (t + waittime) entry.2 back := by
        have hpast : ∀ other ∈ front, other.1 ≤ t + waittime := fun other hother =>
          Int.le_trans (hdue other hother) (Int.le_add_of_nonneg_right (Int.le_of_lt waits))
        exact hnext.trans (schedule_append hpast entry.2)
      have hlater : ∀ other ∈ schedule (t + waittime) entry.2 back, t < other.1 := by
        intro other hother
        rcases List.mem_cons.mp ((schedule_perm _ _ _).mem_iff.mp hother) with rfl | hother
        · exact Int.lt_add_of_pos_right t waits
        · exact later other hother
      obtain ⟨queue, hqueue, hqueued, hcollect⟩ := ih hsized hsplit hdue hlater
      refine ⟨queue, hqueue, hqueued, fun fuel hfuel => ?_⟩
      obtain ⟨fuel, rfl⟩ := Nat.exists_eq_add_one_of_ne_zero (Nat.ne_zero_of_lt hfuel)
      have hless : front.length < fuel := Nat.lt_of_succ_lt_succ hfuel
      rw [collectOverTime, hget]
      simp only [hcollect fuel hless, Option.map_some, List.map_cons]

theorem deleteFromTimerQueue_timermap (sized : q.Sized) (head : MsgHeader) :
    (q.deleteFromTimerQueue head).timermap = q.timermap.filter fun entry => entry.2 != head := by
  simp only [deleteFromTimerQueue]
  split
  next hempty =>
    have hnil : q.timermap = [] := by
      rcases hempty with hzero | hnil
      · rw [Sized, hzero] at sized
        exact List.length_eq_zero_iff.mp (by omega)
      · exact hnil
    rw [hnil]
    rfl
  next => exact refreshTimerValue_timermap _

end TimerQueue

namespace State

open Expiry TimerQueue

variable {s s' u v : State} {t : Time} {c : ConnId} {head : MsgHeader} {rest : List MsgHeader}
  {env : Env}

/-- `TimeCheckingProc` for the next collected entry, run to its end. -/
def examine (s : State) (env : Env) : Option State :=
  s.timeCheckingProc.bind fun s =>
    match s.timer with
    | .marked _ _ _ => s.timeOutDelete.bind fun s => s.timeOutClose env
    | _ => some s

/-- The loop over `list_toexam`. -/
def examineAll (s : State) : List Env → Option State
  | [] => some s
  | env :: envs => (s.examine env).bind fun s => s.examineAll envs

/-- `JudgeOutdate` finds the entry to be of the present use of its connection. -/
def UpToDate (s : State) (head : MsgHeader) : Prop :=
  (s.conn head.lpCurconn).judgeOutdate head.msgCursequence = true

/-- The last heartbeat is more than three waiting times ago. -/
def Silent (s : State) (t : Time) (c : ConnId) : Prop :=
  3 * s.conf.waittime < t - (s.conn c).pingUpdateTime

/-- `3 * m_waittime` is an `int`. -/
def SilenceFits (s : State) : Prop := -2 ^ 31 ≤ 3 * s.conf.waittime ∧ 3 * s.conf.waittime < 2 ^ 31

/-- The entry of a connection that is in use and sends its heartbeats. -/
def Healthy (s : State) (t : Time) (head : MsgHeader) : Prop :=
  s.UpToDate head ∧ ¬ s.Silent t head.lpCurconn

instance : Decidable (s.UpToDate head) := inferInstanceAs (Decidable (_ = true))

instance : Decidable (s.Silent t c) := inferInstanceAs (Decidable (_ < _))

instance : Decidable (s.Healthy t head) := inferInstanceAs (Decidable (_ ∧ _))

/-- `TimeOutProc`: the entry is deleted and the connection closed. -/
structure Expels (s : State) (head : MsgHeader) (rest : List MsgHeader) (t : Time) (s' : State) :
    Prop where
  timer : s'.timer = .examining rest t
  timermap : s'.timermap = s.timermap.filter fun entry => entry.2 != head
  sized : s'.toTimerQueue.Sized
  conf : s'.conf = s.conf
  closed : (s'.conn head.lpCurconn).fd = -1
  recycled : head.lpCurconn ∈ s'.recyConnectionList
  kept : ∀ c ∈ s.recyConnectionList, c ∈ s'.recyConnectionList
  other : ∀ c, c ≠ head.lpCurconn → s'.conn c = s.conn c
  openFds : s'.openFds = Function.update s.openFds (s.conn head.lpCurconn).fd false

theorem closeAcceptedConnection_timeout (opened : (s.conn c).fd ≠ -1)
    (h : s.closeAcceptedConnection c true env = some s') :
    s' = ((s.closeFd (s.conn c).fd).retire c).inRecyConnQueue c env.now := by
  simp only [closeAcceptedConnection, opened, if_false, Bool.not_true, Bool.false_and,
    Bool.false_eq_true] at h
  split at h
  · rw [← Option.some.inj h, closeFd_epollDel]
  · cases h

/-- `TimeOutProc` for a marked connection. -/
theorem expels_timeOut (upToDate : s.UpToDate head) (sized : s.toTimerQueue.Sized)
    (timer : s.timer = .marked head rest t)
    (h : (s.timeOutDelete.bind fun s => s.timeOutClose env) = some s') :
    s.Expels head rest t s' := by
  have hmap := deleteFromTimerQueue_timermap sized head
  have hsized := (headers_deleteFromTimerQueue head sized).2
  have hrecy := (Connection.judgeOutdate_iff.mp upToDate).2.1
  have hopened : ((s.setTimer (s.toTimerQueue.deleteFromTimerQueue head)
      (.deleted head rest t)).conn head.lpCurconn).fd ≠ -1 :=
    Connection.fd_ne_of_judgeOutdate upToDate
  simp only [timeOutDelete, timer, Option.bind_some, timeOutClose, setTimer_toTimerQueue] at h
  obtain ⟨v, hclose, rfl⟩ := Option.map_eq_some_iff.mp h
  obtain rfl := closeAcceptedConnection_timeout hopened hclose
  simp only [inRecyConnQueue, retire_conn, Function.update_self, closeFd, setTimer_conn, hrecy,
    if_false]
  split
  next hmem =>
    exact ⟨rfl, hmap, hsized, rfl, by simp, hmem, fun c h => h, fun c hc => by simp [hc], rfl⟩
  next hmem =>
    exact ⟨rfl, hmap, hsized, rfl, by simp, by simp, fun c h => by simp [h],
      fun c hc => by simp [hc], rfl⟩

/-- What the examination of an entry comes to. -/
theorem examine_cases (sized : s.toTimerQueue.Sized)
    (timer : s.timer = .examining (head :: rest) t) (h : s.examine env = some s') :
    ¬ s.UpToDate head ∧
        s' = s.setTimer (s.toTimerQueue.deleteFromTimerQueue head) (.examining rest t) ∨
      s.UpToDate head ∧ s.Silent t head.lpCurconn ∧ s.Expels head rest t s' ∨
      s.Healthy t head ∧ s' = s.setTimer s.toTimerQueue (.examining rest t) := by
  simp only [examine, timeCheckingProc, timer] at h
  split at h
  next houtdated =>
    refine .inl ⟨fun hcurrent => ?_, (Option.some.inj h).symm⟩
    rw [UpToDate, houtdated] at hcurrent
    cases hcurrent
  next hcurrent =>
  have hcurrent : s.UpToDate head := by simpa [UpToDate] using hcurrent
  split at h
  · cases h
  split at h
  next hsilent =>
    have hmarked : ((s.modifyConn head.lpCurconn fun conn =>
        { conn with istimeout := true }).setTimer s.toTimerQueue
          (.marked head rest t)).UpToDate head := by
      simpa [UpToDate, Connection.judgeOutdate] using hcurrent
    have hexpels := expels_timeOut hmarked sized rfl h
    refine .inr (.inl ⟨hcurrent, hsilent, { hexpels with other := fun c hc => ?_, openFds := ?_ }⟩)
    · rw [hexpels.other c hc]
      simp [hc]
    · simpa using hexpels.openFds
  next hnot => exact .inr (.inr ⟨⟨hcurrent, hnot⟩, (Option.some.inj h).symm⟩)

/-- The entry makes the pass close its connection. -/
def Expires (s : State) (t : Time) (head : MsgHeader) : Prop :=
  s.UpToDate head ∧ s.Silent t head.lpCurconn

/-- The entries `done` of the list have been examined since the state `s`, in which the
copies are already in the map: the connections of those that expired are closed and all
others are as they were. -/
structure Examined (s : State) (entries : List (Time × MsgHeader)) (t : Time)
    (done rest : List MsgHeader) (u : State) : Prop where
  timer : u.timer = .examining rest t
  timermap : u.timermap = entries.filter fun entry => decide (entry.2 ∈ done → s.Healthy t entry.2)
  sized : u.toTimerQueue.Sized
  conf : u.conf = s.conf
  conn : ∀ c, u.conn c = s.conn c ∨ ∃ head ∈ done, head.lpCurconn = c ∧ s.Expires t head
  closed : ∀ head ∈ done, s.Expires t head →
    (u.conn head.lpCurconn).fd = -1 ∧ head.lpCurconn ∈ u.recyConnectionList
  openFds : ∀ fd, s.openFds fd = true →
    u.openFds fd = true ∨ ∃ head ∈ done, s.Expires t head ∧ (s.conn head.lpCurconn).fd = fd

variable {entries : List (Time × MsgHeader)} {done : List MsgHeader}

/-- An entry that does not survive is deleted. -/
theorem Examined.delete (h : Examined s entries t done (head :: rest) u)
    (gone : ¬ s.Healthy t head) {kept : List (Time × MsgHeader)}
    (map : kept = u.timermap.filter fun entry => entry.2 != head) :
    kept = entries.filter fun entry => decide (entry.2 ∈ done ++ [head] → s.Healthy t entry.2) := by
  rw [map, h.timermap, List.filter_filter]
  refine List.filter_congr fun entry _ => ?_
  rw [Bool.eq_iff_iff]
  simp only [bne_iff_ne, ne_eq, Bool.and_eq_true, decide_eq_true_eq, List.mem_append,
    List.mem_singleton]
  constructor
  · rintro ⟨hne, hdone⟩ (hmem | heq)
    · exact hdone hmem
    · exact absurd heq hne
  · intro hall
    exact ⟨fun heq => gone (heq ▸ hall (.inr heq)), fun hmem => hall (.inl hmem)⟩

/-- Nothing but the position changes. -/
theorem Examined.keep (h : Examined s entries t done (head :: rest) u)
    (healthy : s.Healthy t head) {kept : List (Time × MsgHeader)} (map : kept = u.timermap) :
    kept = entries.filter fun entry => decide (entry.2 ∈ done ++ [head] → s.Healthy t entry.2) := by
  rw [map, h.timermap]
  refine List.filter_congr fun entry _ => ?_
  rw [decide_eq_decide]
  simp only [List.mem_append, List.mem_singleton]
  constructor
  · rintro hdone (hmem | rfl)
    · exact hdone hmem
    · exact healthy
  · exact fun hall hmem => hall (.inl hmem)

/-- The entry of a connection that is still as it was. -/
theorem Examined.agrees (h : Examined s entries t done (head :: rest) u)
    (same : u.conn head.lpCurconn = s.conn head.lpCurconn) :
    (u.UpToDate head ↔ s.UpToDate head) ∧
      (u.Silent t head.lpCurconn ↔ s.Silent t head.lpCurconn) := by
  rw [UpToDate, UpToDate, Silent, Silent, same, h.conf]
  exact ⟨.rfl, .rfl⟩

/-- The entry of a connection that the pass has closed does not survive. -/
theorem Examined.outdated (h : Examined s entries t done (head :: rest) u)
    (closes : ∃ other ∈ done, other.lpCurconn = head.lpCurconn ∧ s.Expires t other) :
    ¬ u.UpToDate head ∧ ¬ s.Healthy t head ∧
      (u.conn head.lpCurconn).fd = -1 ∧ head.lpCurconn ∈ u.recyConnectionList := by
  obtain ⟨other, hmem, hconn, hexpires⟩ := closes
  have hclosed := h.closed other hmem hexpires
  rw [hconn] at hclosed
  refine ⟨fun hcurrent => ?_, fun hhealthy => hhealthy.2 (hconn ▸ hexpires.2), hclosed⟩
  exact Connection.fd_ne_of_judgeOutdate hcurrent hclosed.1

/-- One examination. -/
theorem Examined.examine (h : Examined s entries t done (head :: rest) u)
    (hexamine : u.examine env = some v) : Examined s entries t (done ++ [head]) rest v := by
  -- Nothing happens to the connections.
  have hquiet : ∀ queue : TimerQueue, queue.Sized →
      (queue.timermap =
        entries.filter fun entry => decide (entry.2 ∈ done ++ [head] → s.Healthy t entry.2)) →
      (s.Expires t head → (u.conn head.lpCurconn).fd = -1 ∧
        head.lpCurconn ∈ u.recyConnectionList) →
      Examined s entries t (done ++ [head]) rest (u.setTimer queue (.examining rest t)) := by
    intro queue hsized hmap hclosed
    refine ⟨rfl, hmap, hsized, h.conf, fun c => ?_, fun other hother => ?_, fun fd hopen => ?_⟩
    · rcases h.conn c with hsame | ⟨other, hother, hexpires⟩
      · exact .inl hsame
      · exact .inr ⟨other, List.mem_append_left _ hother, hexpires⟩
    · rcases List.mem_append.mp hother with hother | hother
      · exact h.closed other hother
      · obtain rfl := List.mem_singleton.mp hother
        exact hclosed
    · rcases h.openFds fd hopen with hstill | ⟨other, hother, hexpires⟩
      · exact .inl hstill
      · exact .inr ⟨other, List.mem_append_left _ hother, hexpires⟩
  have hdelete := deleteFromTimerQueue_timermap h.sized head
  have hsized := (headers_deleteFromTimerQueue head h.sized).2
  rcases examine_cases h.sized h.timer hexamine with
    ⟨houtdated, rfl⟩ | ⟨hcurrent, hsilent, hexpels⟩ | ⟨hhealthy, rfl⟩
  · rcases h.conn head.lpCurconn with hsame | hcloses
    · obtain ⟨hcurrent, -⟩ := h.agrees hsame
      exact hquiet _ hsized (h.delete (fun hhealthy => houtdated (hcurrent.mpr hhealthy.1)) hdelete)
        fun hexpires => absurd (hcurrent.mpr hexpires.1) houtdated
    · obtain ⟨-, hgone, hclosed⟩ := h.outdated hcloses
      exact hquiet _ hsized (h.delete hgone hdelete) fun _ => hclosed
  · rcases h.conn head.lpCurconn with hsame | hcloses
    swap
    · exact absurd hcurrent (h.outdated hcloses).1
    obtain ⟨hagrees, hsilence⟩ := h.agrees hsame
    have hexpires : s.Expires t head := ⟨hagrees.mp hcurrent, hsilence.mp hsilent⟩
    have hhead : head ∈ done ++ [head] := List.mem_append_right _ (List.mem_singleton_self _)
    refine ⟨hexpels.timer, h.delete (fun hhealthy => hhealthy.2 hexpires.2) hexpels.timermap,
      hexpels.sized, hexpels.conf.trans h.conf, fun c => ?_, fun other hother hother' => ?_,
      fun fd hopen => ?_⟩
    · by_cases hc : c = head.lpCurconn
      · exact .inr ⟨head, hhead, hc.symm, hexpires⟩
      · rw [hexpels.other c hc]
        rcases h.conn c with hsame | ⟨other, hother, hrest⟩
        · exact .inl hsame
        · exact .inr ⟨other, List.mem_append_left _ hother, hrest⟩
    · by_cases hc : other.lpCurconn = head.lpCurconn
      · rw [hc]
        exact ⟨hexpels.closed, hexpels.recycled⟩
      · have hold : other ∈ done := by
          rcases List.mem_append.mp hother with hold | hnew
          · exact hold
          · exact absurd (congrArg MsgHeader.lpCurconn (List.mem_singleton.mp hnew)) hc
        obtain ⟨hfd, hrecy⟩ := h.closed other hold hother'
        rw [hexpels.other _ hc]
        exact ⟨hfd, hexpels.kept _ hrecy⟩
    · rw [hexpels.openFds]
      rcases h.openFds fd hopen with hstill | ⟨other, hother, hrest⟩
      · by_cases hfd : fd = (u.conn head.lpCurconn).fd
        · exact .inr ⟨head, hhead, hexpires, by rw [← hsame]; exact hfd.symm⟩
        · exact .inl (by rw [Function.update_of_ne hfd]; exact hstill)
      · exact .inr ⟨other, List.mem_append_left _ hother, hrest⟩
  · rcases h.conn head.lpCurconn with hsame | hcloses
    swap
    · exact absurd hhealthy.1 (h.outdated hcloses).1
    obtain ⟨hagrees, hsilence⟩ := h.agrees hsame
    have hkept : s.Healthy t head :=
      ⟨hagrees.mp hhealthy.1, fun hsilent => hhealthy.2 (hsilence.mpr hsilent)⟩
    exact hquiet _ h.sized (h.keep hkept rfl) fun hexpires => absurd hexpires.2 hkept.2

/-- The examination of the next entries. -/
theorem Examined.examineAll {next later : List MsgHeader} {envs : List Env}
    (h : Examined s entries t done rest u) (split : rest = next ++ later)
    (length : envs.length = next.length) (hrun : u.examineAll envs = some v) :
    Examined s entries t (done ++ next) later v := by
  induction envs generalizing u done rest next with
  | nil =>
      obtain rfl := List.length_eq_zero_iff.mp length.symm
      obtain rfl := Option.some.inj hrun
      obtain rfl : rest = later := split
      rw [List.append_nil]
      exact h
  | cons env envs ih =>
      cases next with
      | nil => cases length
      | cons head next =>
          obtain rfl := split
          obtain ⟨w, hexamine, hrest⟩ := Option.bind_eq_some_iff.mp hrun
          have hlast := ih (h.examine hexamine) rfl (Nat.succ.inj length) hrest
          rwa [List.append_assoc] at hlast

/-- An examination in which every `close` succeeds is completed. -/
theorem examine_isSome (timer : s.timer = .examining (head :: rest) t)
    (fits : s.UpToDate head → s.SilenceFits)
    (closes : s.UpToDate head → s.Silent t head.lpCurconn →
      env.close = true ∧ s.openFds (s.conn head.lpCurconn).fd = true) :
    (s.examine env).isSome = true := by
  simp only [examine, timeCheckingProc, timer]
  split
  next houtdated => rfl
  next hcurrent =>
  have hcurrent : s.UpToDate head := by simpa [UpToDate] using hcurrent
  have hfits := fits hcurrent
  rw [SilenceFits] at hfits
  rw [if_neg (by omega)]
  split
  next hsilent =>
    obtain ⟨hclose, hopen⟩ := closes hcurrent hsilent
    have hfd := Connection.fd_ne_of_judgeOutdate hcurrent
    simp only [Option.bind_some, setTimer_toTimerQueue, timeOutDelete, timeOutClose,
      Option.isSome_map, closeAcceptedConnection, setTimer_conn, modifyConn, Function.update_self,
      hfd, if_false, Bool.not_true, Bool.false_and, Bool.false_eq_true, openFds_epollDel, hclose]
    simp [hopen]
  next hsilent => rfl

/-- The open connections that the timer queue knows hold descriptors of their own. -/
structure Attached (s : State) : Prop where
  opened : ∀ head ∈ s.toTimerQueue.headers, (s.conn head.lpCurconn).fd ≠ -1 →
    s.openFds (s.conn head.lpCurconn).fd = true
  distinct : ∀ head ∈ s.toTimerQueue.headers, ∀ other ∈ s.toTimerQueue.headers,
    (s.conn head.lpCurconn).fd ≠ -1 →
      (s.conn other.lpCurconn).fd = (s.conn head.lpCurconn).fd →
      other.lpCurconn = head.lpCurconn

/-- The examination goes on. -/
theorem Examined.examine_isSome (h : Examined s entries t done (head :: rest) u)
    (attached : s.Attached) (known : ∀ other ∈ done ++ [head], other ∈ s.toTimerQueue.headers)
    (fits : s.UpToDate head → s.SilenceFits) (close : env.close = true) :
    (u.examine env).isSome = true := by
  have hsame : u.UpToDate head → u.conn head.lpCurconn = s.conn head.lpCurconn := fun hcurrent => by
    rcases h.conn head.lpCurconn with hsame | hcloses
    · exact hsame
    · exact absurd hcurrent (h.outdated hcloses).1
  refine State.examine_isSome h.timer (fun hcurrent => ?_) fun hcurrent _ => ⟨close, ?_⟩
  · rw [SilenceFits, h.conf]
    exact fits ((h.agrees (hsame hcurrent)).1.mp hcurrent)
  have hopened := Connection.fd_ne_of_judgeOutdate hcurrent
  have hhead := known head (List.mem_append_right _ (List.mem_singleton_self _))
  rw [hsame hcurrent] at hopened ⊢
  rcases h.openFds _ (attached.opened head hhead hopened) with
    hopen | ⟨other, hother, hexpires, hfd⟩
  · exact hopen
  · have hconn := attached.distinct head hhead other (known other (List.mem_append_left _ hother))
      hopened hfd
    exact absurd hcurrent (h.outdated ⟨other, hother, hconn, hexpires⟩).1

theorem Examined.examineAll_isSome {envs : List Env} (h : Examined s entries t done rest u)
    (attached : s.Attached) (known : ∀ other ∈ done ++ rest, other ∈ s.toTimerQueue.headers)
    (fits : ∀ other ∈ rest, s.UpToDate other → s.SilenceFits)
    (length : envs.length = rest.length) (close : ∀ env ∈ envs, env.close = true) :
    (u.examineAll envs).isSome = true := by
  induction envs generalizing u done rest with
  | nil => rfl
  | cons env envs ih =>
      cases rest with
      | nil => cases length
      | cons head rest =>
          have hknown : ∀ other ∈ done ++ [head] ++ rest, other ∈ s.toTimerQueue.headers := by
            intro other hother
            exact known other (by simpa using hother)
          have hsome := h.examine_isSome attached
            (fun other hother => hknown other (List.mem_append_left _ hother))
            (fits head List.mem_cons_self) (close env List.mem_cons_self)
          obtain ⟨w, hexamine⟩ := Option.isSome_iff_exists.mp hsome
          have hrest := ih (h.examine hexamine) hknown
            (fun other hother => fits other (List.mem_cons_of_mem _ hother))
            (Nat.succ.inj length) fun other hother => close other (List.mem_cons_of_mem _ hother)
          rw [State.examineAll, hexamine]
          exact hrest

/-- If the examinations come to their end, then they have met no connection in use, or
the product was defined. -/
theorem Examined.fits {envs : List Env} (h : Examined s entries t done rest u)
    (fresh : ∀ other ∈ done, ¬ s.UpToDate other) (length : envs.length = rest.length)
    (hrun : u.examineAll envs = some v) : ∀ other ∈ rest, s.UpToDate other → s.SilenceFits := by
  induction envs generalizing u done rest with
  | nil =>
      obtain rfl := List.length_eq_zero_iff.mp length.symm
      exact fun other hother => absurd hother List.not_mem_nil
  | cons env envs ih =>
      cases rest with
      | nil => cases length
      | cons head rest =>
          obtain ⟨w, hexamine, hrest⟩ := Option.bind_eq_some_iff.mp hrun
          by_cases hcurrent : s.UpToDate head
          · intro _ _ _
            have hsame : u.conn head.lpCurconn = s.conn head.lpCurconn := by
              rcases h.conn head.lpCurconn with hsame | ⟨other, hother, -, hexpires⟩
              · exact hsame
              · exact absurd hexpires.1 (fresh other hother)
            have hjudged := (h.agrees hsame).1.mpr hcurrent
            rw [UpToDate] at hjudged
            simp only [State.examine, timeCheckingProc, h.timer, hjudged, Bool.true_eq_false,
              if_false] at hexamine
            split at hexamine
            · cases hexamine
            next hfits =>
              rw [h.conf] at hfits
              rw [SilenceFits]
              omega
          · have hdone : ∀ other ∈ done ++ [head], ¬ s.UpToDate other := by
              intro other hother
              rcases List.mem_append.mp hother with hother | hother
              · exact fresh other hother
              · rwa [List.mem_singleton.mp hother]
            have hlater := ih (h.examine hexamine) hdone (Nat.succ.inj length) hrest
            intro other hother hother'
            rcases List.mem_cons.mp hother with rfl | hother
            · exact absurd hother' hcurrent
            · exact hlater other hother hother'

variable {current present : MsgHeader → Prop} [DecidablePred current] [DecidablePred present]

/-- What a pass leaves behind if the entries `current` are those of connections in use. -/
structure Passed (s : State) (t : Time) (current : MsgHeader → Prop) [DecidablePred current]
    (s' : State) : Prop where
  timer : s'.timer = .examining [] t
  ordered : Expiry.Ordered s'.timermap
  timermap : s'.timermap.Perm
    (((due t s.timermap).filter fun entry =>
        decide (current entry.2 ∧ ¬ s.Silent t entry.2.lpCurconn)).map
      (fun entry => (t + s.conf.waittime, entry.2)) ++ later t s.timermap)
  later : ∀ entry ∈ s'.timermap, t < entry.1
  closed : ∀ entry ∈ due t s.timermap, current entry.2 → s.Silent t entry.2.lpCurconn →
    (s'.conn entry.2.lpCurconn).fd = -1 ∧ entry.2.lpCurconn ∈ s'.recyConnectionList
  other : ∀ c, (∀ entry ∈ due t s.timermap, current entry.2 → s.Silent t entry.2.lpCurconn →
    entry.2.lpCurconn ≠ c) → s'.conn c = s.conn c

/-- The entries that a pass collects, by their message headers. -/
def dueHeads (s : State) (t : Time) : List MsgHeader := (due t s.timermap).map Prod.snd

/-- The map in front of the examinations: the copies are among the later entries. -/
def renewed (s : State) (t : Time) : List (Time × MsgHeader) :=
  renew (t + s.conf.waittime) (due t s.timermap) (later t s.timermap)

theorem headers_split (ordered : Expiry.Ordered s.timermap) (t : Time) :
    s.toTimerQueue.headers = s.dueHeads t ++ (later t s.timermap).map Prod.snd := by
  rw [dueHeads, ← List.map_append, ← ordered.split t]
  rfl

/-- Before the first examination. -/
theorem examined_nil {queue : TimerQueue} (sized : queue.Sized) (heads : List MsgHeader) :
    Examined s queue.timermap t [] heads (s.setTimer queue (.examining heads t)) where
  timer := rfl
  timermap := by simp
  sized := sized
  conf := rfl
  conn _ := .inl rfl
  closed _ h := by cases h
  openFds _ h := .inl h

/-- While an entry is to be examined, its copy is in the map. -/
theorem Examined.nonempty (h : Examined s (s.renewed t) t done (head :: rest) u)
    (heads : s.dueHeads t = done ++ head :: rest) (once : (s.dueHeads t).Nodup) :
    u.timermapSize ≠ 0 ∧ u.timermap ≠ [] := by
  have hmem : (t + s.conf.waittime, head) ∈ s.renewed t := by
    have hhead : head ∈ s.dueHeads t := by simp [heads]
    obtain ⟨entry, hentry, rfl⟩ := List.mem_map.mp hhead
    refine (renew_perm _ _ _).mem_iff.mpr (List.mem_append_left _ ?_)
    exact List.mem_map.mpr ⟨entry, hentry, rfl⟩
  have hnot : head ∉ done := by
    rw [heads] at once
    intro hdone
    exact (List.nodup_append.mp once).2.2 head hdone head List.mem_cons_self rfl
  have hkept : (t + s.conf.waittime, head) ∈ u.timermap := by
    rw [h.timermap]
    exact List.mem_filter.mpr ⟨hmem, by simp [hnot]⟩
  have hne := List.ne_nil_of_mem hkept
  refine ⟨?_, hne⟩
  rw [h.sized]
  exact fun hzero => hne (List.length_eq_zero_iff.mp (Int.ofNat_eq_zero.mp hzero))

/-- After the last examination. -/
theorem Examined.passed (h : Examined s (s.renewed t) t (s.dueHeads t) [] v)
    (ordered : Expiry.Ordered s.timermap) (once : s.toTimerQueue.headers.Nodup)
    (waits : 0 < s.conf.waittime) : Passed s t s.UpToDate v := by
  have hperm := renew_perm (t + s.conf.waittime) (due t s.timermap) (later t s.timermap)
  have hlater : ∀ entry ∈ s.renewed t, t < entry.1 := by
    intro entry hentry
    rcases List.mem_append.mp (hperm.mem_iff.mp hentry) with hcopy | hold
    · obtain ⟨first, -, rfl⟩ := List.mem_map.mp hcopy
      exact Int.lt_add_of_pos_right t waits
    · exact (mem_later.mp hold).2
  have hold : ∀ entry ∈ later t s.timermap, entry.2 ∉ s.dueHeads t := by
    intro entry hentry hmem
    rw [headers_split ordered t] at once
    exact (List.nodup_append.mp once).2.2 entry.2 hmem entry.2
      (List.mem_map.mpr ⟨entry, hentry, rfl⟩) rfl
  refine ⟨h.timer, ?_, ?_, fun entry hentry => ?_, fun entry hentry hcurrent hsilent => ?_,
    fun c hc => ?_⟩
  · rw [h.timermap]
    exact (Expiry.Ordered.renew (List.Pairwise.filter _ ordered) _ _).filter _
  · rw [h.timermap]
    refine (hperm.filter _).trans (.of_eq ?_)
    rw [List.filter_append, List.filter_map]
    congr 1
    · congr 1
      refine List.filter_congr fun entry hentry => ?_
      have hmem : entry.2 ∈ s.dueHeads t := List.mem_map.mpr ⟨entry, hentry, rfl⟩
      simp [hmem, Healthy]
    · exact List.filter_eq_self.mpr fun entry hentry => by simp [hold entry hentry]
  · rw [h.timermap] at hentry
    exact hlater entry (List.mem_of_mem_filter hentry)
  · exact h.closed entry.2 (List.mem_map.mpr ⟨entry, hentry, rfl⟩) ⟨hcurrent, hsilent⟩
  · rcases h.conn c with hsame | ⟨head, hhead, rfl, hexpires⟩
    · exact hsame
    · obtain ⟨entry, hentry, rfl⟩ := List.mem_map.mp hhead
      exact absurd rfl (hc entry hentry hexpires.1 hexpires.2)

/-- A due entry that is still there. -/
theorem Passed.kept_iff (h : Passed s t current s') (ordered : Expiry.Ordered s.timermap)
    (once : s.toTimerQueue.headers.Nodup) {entry : Time × MsgHeader}
    (mem : entry ∈ due t s.timermap) :
    (t + s.conf.waittime, entry.2) ∈ s'.timermap ↔
      current entry.2 ∧ ¬ s.Silent t entry.2.lpCurconn := by
  rw [h.timermap.mem_iff, List.mem_append, List.mem_map]
  constructor
  · rintro (⟨other, hother, heq⟩ | hlater)
    · rw [← (Prod.mk.inj heq).2]
      exact of_decide_eq_true (List.mem_filter.mp hother).2
    · rw [headers_split ordered t] at once
      exact absurd rfl ((List.nodup_append.mp once).2.2 entry.2
        (List.mem_map.mpr ⟨entry, mem, rfl⟩) entry.2 (List.mem_map.mpr ⟨_, hlater, rfl⟩))
  · exact fun hkept => .inl ⟨entry, List.mem_filter.mpr ⟨mem, decide_eq_true hkept⟩, rfl⟩

/-- A connection that is open at first and closed behind the pass. -/
theorem Passed.closed_iff (h : Passed s t current s') (opened : (s.conn c).fd ≠ -1) :
    (s'.conn c).fd = -1 ↔ ∃ entry ∈ due t s.timermap, entry.2.lpCurconn = c ∧
      current entry.2 ∧ s.Silent t entry.2.lpCurconn := by
  constructor
  · intro hclosed
    by_contra hnone
    have hsame := h.other c fun entry hentry hcurrent hsilent hconn =>
      hnone ⟨entry, hentry, hconn, hcurrent, hsilent⟩
    rw [hsame] at hclosed
    exact opened hclosed
  · rintro ⟨entry, hentry, rfl, hcurrent, hsilent⟩
    exact (h.closed entry hentry hcurrent hsilent).1

/-- Two views of the entries that come to the same pass. -/
theorem Passed.congr (h : Passed s t current s')
    (heard : ∀ entry ∈ due t s.timermap, ¬ s.Silent t entry.2.lpCurconn →
      (current entry.2 ↔ present entry.2))
    (silent : ∀ entry ∈ due t s.timermap, s.Silent t entry.2.lpCurconn → current entry.2 →
      ∃ other ∈ due t s.timermap, other.2.lpCurconn = entry.2.lpCurconn ∧ present other.2)
    (silent' : ∀ entry ∈ due t s.timermap, s.Silent t entry.2.lpCurconn → present entry.2 →
      ∃ other ∈ due t s.timermap, other.2.lpCurconn = entry.2.lpCurconn ∧ current other.2) :
    Passed s t present s' where
  timer := h.timer
  ordered := h.ordered
  timermap := by
    refine h.timermap.trans (.of_eq ?_)
    congr 2
    refine List.filter_congr fun entry hentry => ?_
    rw [decide_eq_decide]
    exact and_congr_left (heard entry hentry)
  later := h.later
  closed entry hentry hpresent hsilent := by
    obtain ⟨other, hother, hconn, hcurrent⟩ := silent' entry hentry hsilent hpresent
    rw [← hconn] at hsilent ⊢
    exact h.closed other hother hcurrent hsilent
  other c hc := h.other c fun entry hentry hcurrent hsilent hconn => by
    obtain ⟨other, hother, hconn', hpresent⟩ := silent entry hentry hsilent hcurrent
    rw [← hconn'] at hsilent
    exact hc other hother hpresent hsilent (hconn'.trans hconn)

/-- The entry is of the present use of its connection. -/
def OfPresentUse (s : State) (head : MsgHeader) : Prop :=
  (s.conn head.lpCurconn).Current head.msgCursequence

instance : DecidablePred s.OfPresentUse := fun _ =>
  inferInstanceAs (Decidable (Connection.Current _ _))

/-- One pass of the timer thread at time `t`. The loop over `GetOverTime` collects the due
entries, however many rounds it is given beyond their number. Each examination then finds
a queue that is not empty, they are completed if no `close` fails, and they leave what
`Passed` says of the current entries. -/
def PassesExactly (s : State) (t : Time) : Prop :=
  ∃ queue : TimerQueue,
    (∀ fuel, (due t s.timermap).length < fuel →
      s.toTimerQueue.collectOverTime s.conf.waittime t fuel = some (queue, s.dueHeads t)) ∧
    ∀ envs : List Env, envs.length = (due t s.timermap).length →
      ((∀ env ∈ envs, env.close = true) →
        ((s.setTimer queue (.examining (s.dueHeads t) t)).examineAll envs).isSome = true) ∧
      (∀ done env rest v, envs = done ++ env :: rest →
        (s.setTimer queue (.examining (s.dueHeads t) t)).examineAll done = some v →
          v.timermapSize ≠ 0 ∧ v.timermap ≠ []) ∧
      ∀ s', (s.setTimer queue (.examining (s.dueHeads t) t)).examineAll envs = some s' →
        Passed s t s.OfPresentUse s'

/-- `JudgeOutdate` finds the current ones among the due entries, and no other one but where
the current entry of the same connection is due, too, and makes the pass close it; and
`3 * m_waittime` is an `int` if it is needed. -/
structure Discerns (s : State) (t : Time) : Prop where
  current : ∀ entry ∈ due t s.timermap, s.OfPresentUse entry.2 →
    0 < (s.conn entry.2.lpCurconn).fd ∧
      (entry.2.msgCursequence < 2 ^ 31 ∨
        2 ^ 64 - 2 ^ 31 ≤ entry.2.msgCursequence ∧ entry.2.msgCursequence < 2 ^ 64)
  other : ∀ entry ∈ due t s.timermap, ¬ s.OfPresentUse entry.2 → s.UpToDate entry.2 →
    s.Silent t entry.2.lpCurconn ∧ ∃ other ∈ due t s.timermap,
      other.2.lpCurconn = entry.2.lpCurconn ∧ s.OfPresentUse other.2
  fits : ∀ entry ∈ due t s.timermap, s.UpToDate entry.2 → 3 * s.conf.waittime < 2 ^ 31

/-- What the pass collects, and what the examinations come to with the answers of
`JudgeOutdate`. -/
theorem timerPass_judged (ordered : Expiry.Ordered s.timermap) (sized : s.toTimerQueue.Sized)
    (waits : 5 ≤ s.conf.waittime) (t : Time) :
    ∃ queue : TimerQueue,
      (∀ fuel, (due t s.timermap).length < fuel →
        s.toTimerQueue.collectOverTime s.conf.waittime t fuel = some (queue, s.dueHeads t)) ∧
      Examined s (s.renewed t) t [] (s.dueHeads t)
        (s.setTimer queue (.examining (s.dueHeads t) t)) := by
  have hpos : 0 < s.conf.waittime := by omega
  obtain ⟨queue, hmap, hsized, hcollect⟩ := collectOverTime_due hpos sized (ordered.split t)
    (fun entry h => (mem_due.mp h).2) fun entry h => (mem_later.mp h).2
  refine ⟨queue, hcollect, ?_⟩
  rw [renewed, ← hmap]
  exact examined_nil hsized _

/-- A pass that does its job knows the current entries. -/
theorem PassesExactly.discerns (h : s.PassesExactly t) (ordered : Expiry.Ordered s.timermap)
    (sized : s.toTimerQueue.Sized) (once : s.toTimerQueue.headers.Nodup)
    (waits : 5 ≤ s.conf.waittime) : s.Discerns t := by
  obtain ⟨queue, hcollect, hpass⟩ := h
  obtain ⟨queue', hcollect', hfirst⟩ := timerPass_judged ordered sized waits t
  obtain rfl : queue = queue' := by
    have hsame := (hcollect _ (Nat.lt_succ_self _)).symm.trans (hcollect' _ (Nat.lt_succ_self _))
    exact (Prod.mk.inj (Option.some.inj hsame)).1
  -- A run in which every `close` succeeds.
  let envs : List Env := List.replicate (due t s.timermap).length {}
  have hlength : envs.length = (due t s.timermap).length := List.length_replicate
  obtain ⟨hsome, -, hpassed⟩ := hpass envs hlength
  obtain ⟨s', hrun⟩ := Option.isSome_iff_exists.mp
    (hsome fun env henv => (List.eq_of_mem_replicate henv) ▸ rfl)
  have hpresent := hpassed s' hrun
  have hheads : envs.length = (s.dueHeads t).length := by rw [hlength, dueHeads, List.length_map]
  have hjudged : Passed s t s.UpToDate s' :=
    (hfirst.examineAll (List.append_nil _).symm hheads hrun).passed ordered once (by omega)
  have hkept : ∀ entry ∈ due t s.timermap, ¬ s.Silent t entry.2.lpCurconn →
      (s.OfPresentUse entry.2 ↔ s.UpToDate entry.2) := by
    intro entry hentry hheard
    have hboth := (hpresent.kept_iff ordered once hentry).symm.trans
      (hjudged.kept_iff ordered once hentry)
    simpa [hheard] using hboth
  refine ⟨fun entry hentry hcurrent => ?_, fun entry hentry hother hjudge => ?_,
    fun entry hentry hjudge => ?_⟩
  · suffices hjudge : s.UpToDate entry.2 by
      have hknown := (Connection.Current.judgeOutdate_iff hcurrent).mp hjudge
      exact ⟨hknown.1, throughInt_eq_iff.mp hknown.2⟩
    by_cases hsilent : s.Silent t entry.2.lpCurconn
    · -- It is closed because of some entry, so its sequence is one that `JudgeOutdate` knows.
      have hclosed := (hpresent.closed entry hentry hcurrent hsilent).1
      obtain ⟨other, -, hconn, hjudge, -⟩ := (hjudged.closed_iff hcurrent.1).mp hclosed
      obtain ⟨hpos, -, hseq⟩ := Connection.judgeOutdate_iff.mp hjudge
      rw [hconn] at hpos hseq
      refine (Connection.Current.judgeOutdate_iff hcurrent).mpr ⟨hpos, ?_⟩
      rw [← hcurrent.2.2, hseq, throughInt_throughInt]
    · exact (hkept entry hentry hsilent).mp hcurrent
  · have hsilent : s.Silent t entry.2.lpCurconn :=
      by_contra fun hheard => hother ((hkept entry hentry hheard).mpr hjudge)
    refine ⟨hsilent, ?_⟩
    have hclosed := (hjudged.closed entry hentry hjudge hsilent).1
    obtain ⟨other, hmem, hconn, hcurrent, -⟩ :=
      (hpresent.closed_iff (Connection.fd_ne_of_judgeOutdate hjudge)).mp hclosed
    exact ⟨other, hmem, hconn, hcurrent⟩
  · exact (hfirst.fits (fun _ h => absurd h List.not_mem_nil) hheads hrun entry.2
      (List.mem_map.mpr ⟨entry, hentry, rfl⟩) hjudge).2

/-- The current entries are judged as such. -/
theorem Discerns.upToDate (h : s.Discerns t) {entry : Time × MsgHeader}
    (mem : entry ∈ due t s.timermap) (current : s.OfPresentUse entry.2) : s.UpToDate entry.2 := by
  obtain ⟨hpos, hknown⟩ := h.current entry mem current
  exact (Connection.Current.judgeOutdate_iff current).mpr ⟨hpos, throughInt_eq_iff.mpr hknown⟩

/-- What the examinations come to is what they should. -/
theorem Discerns.passed (h : s.Discerns t) (judged : Passed s t s.UpToDate s') :
    Passed s t s.OfPresentUse s' := by
  refine judged.congr (fun entry hentry hheard => ?_) (fun entry hentry hsilent hjudge => ?_)
    fun entry hentry hsilent hcurrent => ⟨entry, hentry, rfl, h.upToDate hentry hcurrent⟩
  · refine ⟨fun hjudge => ?_, h.upToDate hentry⟩
    by_contra hother
    exact hheard (h.other entry hentry hother hjudge).1
  · by_cases hcurrent : s.OfPresentUse entry.2
    · exact ⟨entry, hentry, rfl, hcurrent⟩
    · exact (h.other entry hentry hcurrent hjudge).2

/-- One pass of the timer thread over a queue that has each message header once does exactly
its job if and only if `JudgeOutdate` discerns the due entries. -/
theorem timerPass_exact_iff (s : State) (t : Time) (ordered : Expiry.Ordered s.timermap)
    (sized : s.toTimerQueue.Sized) (once : s.toTimerQueue.headers.Nodup)
    (waits : 5 ≤ s.conf.waittime) (attached : s.Attached) :
    s.PassesExactly t ↔ s.Discerns t := by
  refine ⟨fun h => h.discerns ordered sized once waits, fun h => ?_⟩
  obtain ⟨queue, hcollect, hfirst⟩ := timerPass_judged ordered sized waits t
  have hsplit := headers_split ordered t
  have honce : (s.dueHeads t).Nodup := by
    rw [hsplit] at once
    exact (List.nodup_append.mp once).1
  have hfits : ∀ head ∈ s.dueHeads t, s.UpToDate head → s.SilenceFits := by
    intro head hhead hjudge
    obtain ⟨entry, hentry, rfl⟩ := List.mem_map.mp hhead
    have hless := h.fits entry hentry hjudge
    rw [SilenceFits]
    omega
  refine ⟨queue, hcollect, fun envs hlength => ?_⟩
  have hlength : envs.length = (s.dueHeads t).length := by rw [hlength, dueHeads, List.length_map]
  refine ⟨fun hclose => ?_, fun done env rest v henvs hrun => ?_, fun s' hrun => ?_⟩
  · refine hfirst.examineAll_isSome attached (fun head hhead => ?_) hfits hlength hclose
    rw [hsplit]
    exact List.mem_append_left _ hhead
  · -- The examinations so far have dealt with as many entries as there were answers.
    rw [henvs, List.length_append, List.length_cons] at hlength
    have htake : s.dueHeads t =
        (s.dueHeads t).take done.length ++ (s.dueHeads t).drop done.length :=
      (List.take_append_drop _ _).symm
    cases hdrop : (s.dueHeads t).drop done.length with
    | nil =>
        have hle := List.drop_eq_nil_iff.mp hdrop
        omega
    | cons head later =>
        rw [hdrop] at htake
        have hmid := hfirst.examineAll htake (by rw [List.length_take]; omega) hrun
        exact hmid.nonempty (by simpa using htake) honce
  · have hlast := hfirst.examineAll (List.append_nil _).symm hlength hrun
    exact h.passed (hlast.passed ordered once (by omega))

/-- Three entries are due at time 190: one healthy, one silent, one of an earlier use. -/
def mixed : State :=
  { Boot.small.state with
    conn := fun c =>
      { Boot.small.raw c with
        fd := 5 + c, inrecyList := 0, sequence := 1
        pingUpdateTime := if c = 2 then 100 else 180 }
    openFds := fun _ => true
    timermap := [(190, ⟨1, 1⟩), (190, ⟨2, 1⟩), (190, ⟨3, 0⟩), (200, ⟨4, 1⟩)]
    timermapSize := 4 }

theorem attached_mixed : mixed.Attached := by
  refine ⟨fun head hhead hopen => rfl, fun head hhead other hother hopen hfd => ?_⟩
  have hsame : (5 : Int) + (other.lpCurconn : Nat) = 5 + (head.lpCurconn : Nat) := hfd
  exact Int.ofNat.inj (Int.add_left_cancel hsame)

theorem discerns_mixed : mixed.Discerns 190 := by
  have hdue : ∀ entry ∈ due 190 mixed.timermap,
      entry.2.msgCursequence ≤ 1 ∧ 0 < (mixed.conn entry.2.lpCurconn).fd ∧
        (mixed.UpToDate entry.2 → mixed.OfPresentUse entry.2) := by decide
  refine ⟨fun entry hentry _ => ?_, fun entry hentry hother hjudge => ?_, fun _ _ _ => by decide⟩
  · obtain ⟨hseq, hpos, -⟩ := hdue entry hentry
    exact ⟨hpos, .inl (by omega)⟩
  · exact absurd ((hdue entry hentry).2.2 hjudge) hother

/-- The pass over them. -/
theorem timerPass_exact_mixed : mixed.PassesExactly 190 := by
  have hordered : Expiry.Ordered mixed.timermap := by
    show List.Pairwise _ _
    decide
  exact (timerPass_exact_iff mixed 190 hordered rfl (by decide) (by decide) attached_mixed).mpr
    discerns_mixed

end State

namespace Server

open State

/-- The pass over the entry of a client whose object has been used 2^30 times before. -/
theorem pass_inexact : ¬ ∀ (boot : Boot) (s : State) (t : Time), Reachable boot s →
    boot.conf.timeEnable = 1 → 5 ≤ boot.conf.waittime → s.PassesExactly t := by
  intro hclaim
  obtain ⟨s₀, actions, s, t, hstart, hr, hvisited⟩ := visited_of_launch
  have hexact := hclaim _ s (t + 5) ⟨s₀, actions, hstart, hr⟩ rfl (by decide)
  obtain ⟨hmap, hsize, -⟩ := hvisited.timers
  have hdiscerns := hexact.discerns (by rw [hmap]; exact List.pairwise_singleton _ _)
    (by rw [TimerQueue.Sized, hmap, hsize]; rfl) (by simp [TimerQueue.headers, hmap])
    (by rw [hvisited.conf]; decide)
  have hdue : (t + 5, ⟨1, 2 ^ 31 + 1⟩) ∈ Expiry.due (t + 5) s.timermap := by
    rw [hmap]
    exact Expiry.mem_due.mpr ⟨List.mem_cons_self, Int.le_refl _⟩
  have hcurrent : s.OfPresentUse ⟨1, 2 ^ 31 + 1⟩ := by
    refine ⟨?_, ?_, hvisited.sequence⟩
    · rw [hvisited.connected.1]
      decide
    · rw [hvisited.connected.2.2.2.1]
      decide
  have hunknown : ¬ (2 ^ 31 + 1 < 2 ^ 31 ∨
      2 ^ 64 - 2 ^ 31 ≤ 2 ^ 31 + 1 ∧ 2 ^ 31 + 1 < 2 ^ 64) := by decide
  exact hunknown (hdiscerns.current _ hdue hcurrent).2

end Server

end MyNginx
