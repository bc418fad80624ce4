import Mathlib
import MyNginx.Net.Conn

/-!
# The timer queue

`m_timermap` is a multimap, here a list ordered by key in which equal keys stay
in the order of their insertion. A pass of the timer thread is cut where
`conn_mutex` is released: marking a connection, deleting its timer entries and
closing it are separate steps.
-/

namespace MyNginx

open Foundation

namespace TimerQueue

/-- `multimap::insert`: behind all entries whose key is not larger. -/
def insertTimer (key : Time) (head : MsgHeader) : List (Time × MsgHeader) → List (Time × MsgHeader)
  | [] => [(key, head)]
  | entry :: rest =>
      if key < entry.1 then (key, head) :: entry :: rest
      else entry :: insertTimer key head rest

@[simp] theorem mem_insertTimer {key : Time} {head : MsgHeader} {entries : List (Time × MsgHeader)}
    {entry : Time × MsgHeader} :
    entry ∈ insertTimer key head entries ↔ entry = (key, head) ∨ entry ∈ entries := by
  induction entries with
  | nil => simp [insertTimer]
  | cons first rest ih =>
      simp only [insertTimer]
      split
      · simp
      · simp only [List.mem_cons, ih]
        tauto

/-- `m_timer_value = m_timermap.begin()->first`. -/
def setTimerValue (q : TimerQueue) : TimerQueue :=
  match q.timermap with
  | [] => q
  | entry :: _ => { q with timerValue := entry.1 }

/-- The same, only `if (m_timermap_size > 0)`. -/
def refreshTimerValue (q : TimerQueue) : TimerQueue :=
  if q.timermapSize > 0 then q.setTimerValue else q

/-- The insertion of `AddToTimerQueue`. -/
def addTimer (q : TimerQueue) (key : Time) (head : MsgHeader) : TimerQueue :=
  let q := { q with timermap := insertTimer key head q.timermap }.setTimerValue
  { q with timermapSize := q.timermapSize + 1 }

/-- `RemoveTimerFrist`, on a queue whose first entry is known. -/
def removeTimerFrist (q : TimerQueue) (rest : List (Time × MsgHeader)) : TimerQueue :=
  { q with timermap := rest, timermapSize := q.timermapSize - 1 }.refreshTimerValue

/-- `GetOverTime`: take the first entry if its time has come, and insert a copy
of it that is due after another waiting time. -/
def getOverTime (q : TimerQueue) (waittime : Int) (time : Time) : TimerQueue × Option MsgHeader :=
  match q.timermap with
  | [] => (q, none)
  | entry :: rest =>
      if q.timermapSize = 0 then (q, none)
      else if entry.1 ≤ time then
        let q := q.removeTimerFrist rest
        let q := { q with
          timermap := insertTimer (time + waittime) entry.2 q.timermap
          timermapSize := q.timermapSize + 1 }
        (q.refreshTimerValue, some entry.2)
      else (q, none)

/-- The loop that fills `list_toexam`, for at most `fuel` rounds. -/
def collectOverTime (q : TimerQueue) (waittime : Int) (curTime : Time) :
    Nat → Option (TimerQueue × List MsgHeader)
  | 0 => none
  | fuel + 1 =>
      match q.getOverTime waittime curTime with
      | (q, none) => some (q, [])
      | (q, some head) =>
          (q.collectOverTime waittime curTime fuel).map fun (q, due) => (q, head :: due)

/-- `DeleteFromTimerQueue`: every entry with this connection and sequence. -/
def deleteFromTimerQueue (q : TimerQueue) (head : MsgHeader) : TimerQueue :=
  if q.timermapSize = 0 ∨ q.timermap = [] then q
  else
    let kept := q.timermap.filter fun entry => entry.2 != head
    { q with
      timermap := kept
      timermapSize := q.timermapSize - (q.timermap.length - kept.length : Nat) }.refreshTimerValue

end TimerQueue

namespace State

def addToTimerQueue (s : State) (c : ConnId) (curTime : Time) : State :=
  let s := s.modifyConn c fun conn => { conn with pingUpdateTime := curTime }
  { s with
    toTimerQueue :=
      s.toTimerQueue.addTimer (curTime + s.conf.waittime) ⟨c, (s.conn c).sequence⟩ }

/-- The state with another timer queue, the timer thread standing at `timer`. -/
@[simps toBlocks toPool toSendQueue toTimerQueue toReceiveQueue toKernel conf conn history]
def setTimer (s : State) (queue : TimerQueue) (timer : TimerPc) : State :=
  { s with toTimerQueue := { queue with timer } }

/-- One round of `ServerTimerQueueThreadFunc` up to the examination of the
collected entries. -/
def timerBegin (s : State) (curTime : Time) : Option State :=
  if s.timer ≠ .idle ∨ s.conf.timeEnable ≠ 1 then none
  else if s.timerValue > curTime ∨ s.timermapSize = 0 then some s
  else
    (s.toTimerQueue.collectOverTime s.conf.waittime curTime (s.timermap.length + 1)).map
      fun (queue, due) => s.setTimer queue (.examining due curTime)

/-- `TimeCheckingProc` for the next collected entry, until it releases
`conn_mutex`: a connection that was silent too long is marked. `3 * m_waittime` must
not overflow an `int`. -/
def timeCheckingProc (s : State) : Option State :=
  match s.timer with
  | .examining [] _ => some (s.setTimer s.toTimerQueue .idle)
  | .examining (head :: due) curTime =>
      let conn := s.conn head.lpCurconn
      if conn.judgeOutdate head.msgCursequence = false then
        some (s.setTimer (s.toTimerQueue.deleteFromTimerQueue head) (.examining due curTime))
      else if 3 * s.conf.waittime < -2 ^ 31 ∨ 2 ^ 31 ≤ 3 * s.conf.waittime then none
      else if curTime - conn.pingUpdateTime > 3 * s.conf.waittime then
        let s := s.modifyConn head.lpCurconn fun conn => { conn with istimeout := true }
        some (s.setTimer s.toTimerQueue (.marked head due curTime))
      else some (s.setTimer s.toTimerQueue (.examining due curTime))
  | _ => none

/-- The first half of `TimeOutProc`. -/
def timeOutDelete (s : State) : Option State :=
  match s.timer with
  | .marked head due curTime =>
      some (s.setTimer (s.toTimerQueue.deleteFromTimerQueue head) (.deleted head due curTime))
  | _ => none

/-- The second half of `TimeOutProc`. -/
def timeOutClose (s : State) (env : Env) : Option State :=
  match s.timer with
  | .deleted head due curTime =>
      (s.closeAcceptedConnection head.lpCurconn true env).map fun s =>
        s.setTimer s.toTimerQueue (.examining due curTime)
  | _ => none

end State

end MyNginx
