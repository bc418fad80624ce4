import Mathlib
import MyNginx.Server.TimerPass

/-!
# The cached head of the timer queue

Beside `m_timermap` the server keeps the number of its entries and its smallest key, and
looks only at these two when it decides whether a pass has anything to do. Five functions
change the map. Each of them ends with both copies up to date, whatever the order of the
calls: four refresh the key from the front of the map, and the fifth empties the map, so
that the key no longer counts.
-/

namespace MyNginx

open Foundation

namespace TimerQueue

open Expiry State

variable {q q' : TimerQueue} {head : MsgHeader} {rest : List (Time × MsgHeader)}

/-- `timermap_clean`: every entry is erased, and the counter decremented for it. -/
def timermapClean (q : TimerQueue) : TimerQueue :=
  { q with
    timermap := []
    timermapSize := q.timermap.foldl (fun size _ => size - 1) q.timermapSize }

/-- A call of a function that changes the map, with the time its caller has read. -/
inductive TimerCall where
  | addToTimerQueue (curTime : Time) (head : MsgHeader)
  | getOverTime (time : Time)
  | removeTimerFrist
  | deleteFromTimerQueue (head : MsgHeader)
  | timermapClean

/-- One call; `RemoveTimerFrist` needs an entry. -/
def call (waittime : Int) (q : TimerQueue) : TimerCall → Option TimerQueue
  | .addToTimerQueue curTime head => some (q.addTimer (curTime + waittime) head)
  | .getOverTime time => some (q.getOverTime waittime time).1
  | .removeTimerFrist =>
      match q.timermap with
      | [] => none
      | _ :: rest => some (q.removeTimerFrist rest)
  | .deleteFromTimerQueue head => some (q.deleteFromTimerQueue head)
  | .timermapClean => some q.timermapClean

/-- The map is ordered, the counter is its size, and the cached key is that of its front. -/
structure Cached (q : TimerQueue) : Prop where
  sized : q.Sized
  ordered : Ordered q.timermap
  front : ∀ entry rest, q.timermap = entry :: rest → q.timerValue = entry.1

/-- What is put in the cache where it counts. -/
theorem cached_refreshTimerValue (sized : q.Sized) (ordered : Ordered q.timermap) :
    q.refreshTimerValue.Cached where
  sized := by simpa [Sized] using sized
  ordered := by simpa using ordered
  front entry rest map := by
    rw [refreshTimerValue_timermap] at map
    have hsome : q.timermapSize > 0 := by
      rw [sized, map, List.length_cons]
      omega
    rw [refreshTimerValue, if_pos hsome, setTimerValue]
    simp only [map]

theorem Cached.addTimer (cached : q.Cached) (key : Time) (head : MsgHeader) :
    (q.addTimer key head).Cached where
  sized := sized_addTimer cached.sized key
  ordered := by simpa [TimerQueue.addTimer, insertTimer_eq] using cached.ordered.schedule key head
  front entry rest map := by
    simp only [TimerQueue.addTimer, setTimerValue_timermap] at map
    simp only [TimerQueue.addTimer, setTimerValue, map]

theorem Cached.removeTimerFrist (cached : q.Cached) {entry : Time × MsgHeader}
    (map : q.timermap = entry :: rest) : (q.removeTimerFrist rest).Cached := by
  have hsized := cached.sized
  have hordered := cached.ordered
  rw [Sized, map, List.length_cons] at hsized
  rw [map] at hordered
  refine cached_refreshTimerValue ?_ (List.pairwise_cons.mp hordered).2
  simp only [Sized, hsized]
  omega

theorem Cached.getOverTime (cached : q.Cached) (waittime : Int) (time : Time) :
    (q.getOverTime waittime time).1.Cached := by
  have hsized := (getOverTime_headers cached.sized waittime time).2
  simp only [TimerQueue.getOverTime] at hsized ⊢
  split
  · exact cached
  next entry rest map =>
    simp only [map] at hsized
    split
    · exact cached
    next hsome =>
      rw [if_neg hsome] at hsized
      split
      next hdue =>
        rw [if_pos hdue] at hsized
        have hremoved := cached.removeTimerFrist map
        refine cached_refreshTimerValue (by simpa [Sized] using hsized) ?_
        simpa [insertTimer_eq] using hremoved.ordered.schedule (time + waittime) entry.2
      · exact cached

theorem Cached.deleteFromTimerQueue (cached : q.Cached) (head : MsgHeader) :
    (q.deleteFromTimerQueue head).Cached := by
  have hsized := (headers_deleteFromTimerQueue head cached.sized).2
  simp only [TimerQueue.deleteFromTimerQueue] at hsized ⊢
  split
  · exact cached
  next hsome =>
    rw [if_neg hsome] at hsized
    exact cached_refreshTimerValue (by simpa [Sized] using hsized)
      (List.Pairwise.filter _ cached.ordered)

theorem foldl_pred (entries : List (Time × MsgHeader)) (size : Int) :
    entries.foldl (fun size _ => size - 1) size = size - entries.length := by
  induction entries generalizing size with
  | nil => simp
  | cons entry rest ih =>
      rw [List.foldl_cons, ih, List.length_cons]
      omega

theorem Cached.timermapClean (cached : q.Cached) : q.timermapClean.Cached where
  sized := by
    rw [Sized, TimerQueue.timermapClean, foldl_pred, cached.sized, Int.sub_self]
    rfl
  ordered := List.Pairwise.nil
  front _ _ map := by cases map

/-- Every call keeps the cache in order. -/
theorem Cached.call (cached : q.Cached) {waittime : Int} {c : TimerCall}
    (h : q.call waittime c = some q') : q'.Cached := by
  cases c with
  | addToTimerQueue curTime head =>
      obtain rfl := Option.some.inj h
      exact cached.addTimer _ head
  | getOverTime time =>
      obtain rfl := Option.some.inj h
      exact cached.getOverTime waittime time
  | removeTimerFrist =>
      simp only [TimerQueue.call] at h
      split at h
      · cases h
      next map =>
        obtain rfl := Option.some.inj h
        exact cached.removeTimerFrist map
  | deleteFromTimerQueue head =>
      obtain rfl := Option.some.inj h
      exact cached.deleteFromTimerQueue head
  | timermapClean =>
      obtain rfl := Option.some.inj h
      exact cached.timermapClean

/-- The counter and the cached key agree with the map, and the test in front of a pass is
exact: it skips the pass where no entry is due, and only there. -/
structure Faithful (q : TimerQueue) : Prop where
  size : q.timermapSize = q.timermap.length
  smallest : q.timermap ≠ [] → IsLeast {key | ∃ head, (key, head) ∈ q.timermap} q.timerValue
  test : ∀ curTime, (q.timerValue > curTime ∨ q.timermapSize = 0) ↔
    ∀ entry ∈ q.timermap, ¬ entry.1 ≤ curTime

theorem Cached.smallest (cached : q.Cached) (nonempty : q.timermap ≠ []) :
    IsLeast {key | ∃ head, (key, head) ∈ q.timermap} q.timerValue := by
  obtain ⟨entry, rest, map⟩ := List.exists_cons_of_ne_nil nonempty
  have hordered := cached.ordered
  rw [map] at hordered
  have hfirst := (List.pairwise_cons.mp hordered).1
  rw [cached.front entry rest map, map]
  refine ⟨⟨entry.2, List.mem_cons_self⟩, fun key hkey => ?_⟩
  obtain ⟨head, hmem⟩ := hkey
  rcases List.mem_cons.mp hmem with heq | hmem
  · exact Int.le_of_eq (congrArg Prod.fst heq).symm
  · exact hfirst _ hmem

theorem Cached.faithful (cached : q.Cached) : q.Faithful where
  size := cached.sized
  smallest := cached.smallest
  test curTime := by
    cases map : q.timermap with
    | nil =>
        have hnone : q.timermapSize = 0 := by
          rw [cached.sized, map]
          rfl
        simp [hnone]
    | cons entry rest =>
        have hsome : q.timermapSize ≠ 0 := by
          rw [cached.sized, map, List.length_cons]
          omega
        obtain ⟨⟨head, hmem⟩, hleast⟩ := cached.smallest (by simp [map])
        rw [map] at hmem hleast
        constructor
        · intro hskip other hother hdue
          have hle := hleast ⟨other.2, hother⟩
          exact absurd (Int.le_trans hle hdue) (Int.not_le.mpr (hskip.resolve_right hsome))
        · intro hnone
          exact .inl (Int.not_le.mp (hnone _ hmem))

/-- The queue behind the constructor of `CSocket`. -/
def initial (timer : TimerPc) : TimerQueue where
  timermap := []
  timerValue := 0
  timermapSize := 0
  timer

/-- After any calls in any order. -/
theorem timer_queue_faithful (waittime : Int) (timer : TimerPc) (calls : List TimerCall) :
    Throughout (call waittime) Faithful (initial timer) calls := by
  have hinitial : (initial timer).Cached := ⟨rfl, List.Pairwise.nil, nofun⟩
  have hcached : Throughout (call waittime) Cached (initial timer) calls :=
    throughout_of_along (fun _ _ _ cached _ h => Cached.call cached h) hinitial
      (along_of_forall fun _ _ => trivial)
  exact hcached.mono fun _ cached => cached.faithful

end TimerQueue

end MyNginx
