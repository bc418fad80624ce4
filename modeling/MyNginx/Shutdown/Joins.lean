import MyNginx.Shutdown.System

/-!
# Joining each thread once

A scan that comes to its end has joined every thread once. A scan that is broken off has
joined the threads in front of the running one, and the next scan joins them again. So each
thread is joined exactly once precisely when no scan is broken off behind the first thread.
-/

namespace MyNginx

open Foundation

namespace Shutdown

/-- If the routine comes to a thread that is not the first one, this thread has stopped. -/
def StoppedBehindFirst (s : State) : Label → Prop
  | .clear _ => True
  | .advance _ =>
      match s.pc with
      | .scan (i + 1) => ∀ item ∈ s.threads[i + 1]?, item.running = false
      | _ => True

instance (s : State) (a : Label) : Decidable (StoppedBehindFirst s a) := by
  cases a <;> simp only [StoppedBehindFirst]
  · infer_instance
  · split <;> infer_instance

/-- How often a thread has been joined at a place of the first scan that is not broken off. -/
def due : Pc → Nat → Nat
  | .scan i, j => if j < i then 1 else 0
  | .behind, _ | .destroyed, _ => 1
  | _, _ => 0

def Clean (s : State) : Prop := ∀ j item, s.threads[j]? = some item → item.joins = due s.pc j

/-- How often the first thread has at least been joined behind a scan that was broken off. -/
def again : Pc → Nat
  | .scan (_ + 1) | .behind | .destroyed => 2
  | .returned => 0
  | _ => 1

def Spoiled (s : State) : Prop := ∃ item, s.threads[0]? = some item ∧ again s.pc ≤ item.joins

variable {routine : Routine} {s s' : State} {ok : Bool} {i j : Nat} {item : ThreadItem}

/-! ### Steps -/

theorem getElem?_modify {threads : List ThreadItem} {f : ThreadItem → ThreadItem}
    (h : (threads.modify i f)[j]? = some item) :
    ∃ before, threads[j]? = some before ∧ item = if i = j then f before else before := by
  rw [List.getElem?_modify] at h
  obtain ⟨before, hbefore, heq⟩ := Option.map_eq_some_iff.mp h
  exact ⟨before, hbefore, heq.symm⟩

/-- What the routine can do: ask the threads to stop, move on without touching them, go to
sleep in front of a running thread, or join one that has stopped. -/
inductive Moves (s : State) : State → Prop
  | ask (shutdown : Bool) (pc : Pc) (h : s.pc = .entry) (hpc : pc = .label ∨ pc = .returned) :
      Moves s ⟨s.threads.map ThreadItem.askToStop, shutdown, pc⟩
  | enter (h : s.pc = .label) : Moves s { s with pc := .scan 0 }
  | quit (h : s.pc = .entry ∨ s.pc = .label) : Moves s { s with pc := .returned }
  | sleep (i : Nat) (item : ThreadItem) (h : s.pc = .scan i) (get : s.threads[i]? = some item)
      (running : item.running = true) : Moves s { s with pc := .asleep }
  | join (i : Nat) (h : s.pc = .scan i) (inside : i < s.threads.length) :
      Moves s { s with threads := s.threads.modify i ThreadItem.pthreadJoin, pc := .scan (i + 1) }
  | leave (i : Nat) (h : s.pc = .scan i) (out : s.threads.length ≤ i) :
      Moves s { s with pc := .behind }
  | rescan (h : s.pc = .asleep) : Moves s { s with pc := .label }
  | destroy (h : s.pc = .behind) : Moves s { s with pc := .destroyed }

theorem advance_moves (h : advance routine s ok = some s') : Moves s s' := by
  cases hpc : s.pc with
  | entry =>
      cases routine with
      | stopAll =>
          simp only [advance, hpc] at h
          split at h
          · obtain rfl := Option.some.inj h
            exact .quit (.inl hpc)
          · obtain rfl := Option.some.inj h
            exact .ask true .label hpc (.inl rfl)
      | shutdownSubProc =>
          simp only [advance, hpc] at h
          obtain rfl := Option.some.inj h
          apply Moves.ask s.shutdown _ hpc
          cases ok
          · exact .inr rfl
          · exact .inl rfl
  | label =>
      cases routine with
      | stopAll =>
          simp only [advance, hpc] at h
          obtain rfl := Option.some.inj h
          cases ok
          · exact .quit (.inr hpc)
          · exact .enter hpc
      | shutdownSubProc =>
          simp only [advance, hpc] at h
          obtain rfl := Option.some.inj h
          exact .enter hpc
  | scan i =>
      simp only [advance, hpc] at h
      cases hget : s.threads[i]? with
      | none =>
          rw [hget] at h
          obtain rfl := Option.some.inj h
          exact .leave i hpc (List.getElem?_eq_none_iff.mp hget)
      | some item =>
          rw [hget] at h
          dsimp only at h
          split at h
          · obtain rfl := Option.some.inj h
            exact .sleep i item hpc hget ‹_›
          · obtain rfl := Option.some.inj h
            exact .join i hpc (List.getElem?_eq_some_iff.mp hget).1
  | asleep =>
      simp only [advance, hpc] at h
      obtain rfl := Option.some.inj h
      exact .rescan hpc
  | behind =>
      simp only [advance, hpc] at h
      obtain rfl := Option.some.inj h
      exact .destroy hpc
  | destroyed =>
      simp only [advance, hpc] at h
      cases h
  | returned =>
      simp only [advance, hpc] at h
      cases h

theorem clear_clean (clean : Clean s) (i : Nat) :
    Clean { s with threads := s.threads.modify i ThreadItem.clear } := by
  intro j item h
  obtain ⟨before, hbefore, rfl⟩ := getElem?_modify h
  have hjoins := clean j before hbefore
  split
  · exact hjoins
  · exact hjoins

theorem clear_spoiled (spoiled : Spoiled s) (i : Nat) :
    Spoiled { s with threads := s.threads.modify i ThreadItem.clear } := by
  obtain ⟨item, hget, hjoins⟩ := spoiled
  refine ⟨if i = 0 then item.clear else item, ?_, ?_⟩
  · rw [List.getElem?_modify, hget]
    rfl
  · split
    · exact hjoins
    · exact hjoins

/-- A scan that is not broken off. -/
theorem step_clean (clean : Clean s) {a : Label} (stopped : StoppedBehindFirst s a)
    (h : step routine s a = some s') : Clean s' := by
  cases a with
  | clear i =>
      obtain rfl := Option.some.inj h
      exact clear_clean clean i
  | advance ok =>
      intro j item hget
      cases advance_moves h with
      | ask shutdown pc hpc hnext =>
          rw [List.getElem?_map] at hget
          obtain ⟨before, hbefore, rfl⟩ := Option.map_eq_some_iff.mp hget
          have hjoins := clean j before hbefore
          rw [hpc] at hjoins
          rcases hnext with rfl | rfl <;> exact hjoins
      | enter hpc =>
          have hjoins := clean j item hget
          rw [hpc] at hjoins
          exact hjoins
      | quit hpc =>
          have hjoins := clean j item hget
          rcases hpc with hpc | hpc <;> rw [hpc] at hjoins <;> exact hjoins
      | sleep i sleeper hpc hsleeper running =>
          have hjoins := clean j item hget
          rw [hpc] at hjoins
          cases i with
          | zero => exact hjoins
          | succ i =>
              simp only [StoppedBehindFirst, hpc] at stopped
              have hstopped := stopped sleeper hsleeper
              rw [running] at hstopped
              cases hstopped
      | join i hpc inside =>
          obtain ⟨before, hbefore, rfl⟩ := getElem?_modify hget
          have hjoins := clean j before hbefore
          rw [hpc, due] at hjoins
          simp only [due]
          by_cases hj : i = j
          · subst hj
            rw [if_pos rfl, if_pos (Nat.lt_add_one i), ThreadItem.pthreadJoin, hjoins,
              if_neg (Nat.lt_irrefl i)]
          · rw [if_neg hj, hjoins]
            split <;> split <;> omega
      | leave i hpc out =>
          have hjoins := clean j item hget
          have hj := (List.getElem?_eq_some_iff.mp hget).1
          rw [hpc, due, if_pos (Nat.lt_of_lt_of_le hj out)] at hjoins
          exact hjoins
      | rescan hpc =>
          have hjoins := clean j item hget
          rw [hpc] at hjoins
          exact hjoins
      | destroy hpc =>
          have hjoins := clean j item hget
          rw [hpc] at hjoins
          exact hjoins

/-- A scan that is broken off behind the first thread has joined it. -/
theorem step_spoils (clean : Clean s) {a : Label} (running : ¬ StoppedBehindFirst s a)
    (h : step routine s a = some s') : Spoiled s' := by
  cases a with
  | clear i => exact absurd trivial running
  | advance ok =>
      obtain ⟨i, hpc⟩ : ∃ i, s.pc = .scan (i + 1) := by
        apply Classical.byContradiction
        intro hpc
        apply running
        simp only [StoppedBehindFirst]
        split
        · exact absurd ⟨_, ‹_›⟩ hpc
        · trivial
      simp only [StoppedBehindFirst, hpc, Classical.not_forall] at running
      obtain ⟨item, hmem, hrun⟩ := running
      have hget : s.threads[i + 1]? = some item := hmem
      obtain ⟨hinside, -⟩ := List.getElem?_eq_some_iff.mp hget
      have hpos : 0 < s.threads.length := Nat.lt_of_le_of_lt (Nat.zero_le (i + 1)) hinside
      obtain ⟨first, hfirst⟩ : ∃ first, s.threads[0]? = some first :=
        ⟨_, List.getElem?_eq_getElem hpos⟩
      have hjoins := clean 0 first hfirst
      rw [hpc, due, if_pos (Nat.succ_pos i)] at hjoins
      have hs : step routine s (.advance ok) = some { s with pc := .asleep } := by
        simp only [step, advance, hpc, hget]
        rw [if_pos (by simpa using hrun)]
      obtain rfl := Option.some.inj (hs.symm.trans h)
      exact ⟨first, hfirst, Nat.le_of_eq hjoins.symm⟩

theorem step_spoiled (spoiled : Spoiled s) (a : Label) (h : step routine s a = some s') :
    Spoiled s' := by
  cases a with
  | clear i =>
      obtain rfl := Option.some.inj h
      exact clear_spoiled spoiled i
  | advance ok =>
      obtain ⟨item, hget, hjoins⟩ := spoiled
      cases advance_moves h with
      | ask shutdown pc hpc hnext =>
          rw [hpc] at hjoins
          refine ⟨item.askToStop, by rw [List.getElem?_map, hget]; rfl, ?_⟩
          rcases hnext with rfl | rfl
          · exact hjoins
          · exact Nat.zero_le _
      | enter hpc =>
          rw [hpc] at hjoins
          exact ⟨item, hget, hjoins⟩
      | quit hpc => exact ⟨item, hget, Nat.zero_le _⟩
      | sleep i sleeper hpc hsleeper running =>
          refine ⟨item, hget, ?_⟩
          rw [hpc] at hjoins
          cases i with
          | zero => exact hjoins
          | succ i => exact Nat.le_of_succ_le hjoins
      | join i hpc inside =>
          rw [hpc] at hjoins
          refine ⟨if i = 0 then item.pthreadJoin else item, ?_, ?_⟩
          · rw [List.getElem?_modify, hget]
            rfl
          · cases i with
            | zero => exact Nat.succ_le_succ hjoins
            | succ i => exact hjoins
      | leave i hpc out =>
          obtain ⟨hinside, -⟩ := List.getElem?_eq_some_iff.mp hget
          rw [hpc] at hjoins
          cases i with
          | zero => omega
          | succ i => exact ⟨item, hget, hjoins⟩
      | rescan hpc =>
          rw [hpc] at hjoins
          exact ⟨item, hget, hjoins⟩
      | destroy hpc =>
          rw [hpc] at hjoins
          exact ⟨item, hget, hjoins⟩

theorem clean_start (flags : List Bool) : Clean (start flags) := by
  intro j item h
  rw [start, List.getElem?_map] at h
  obtain ⟨running, -, rfl⟩ := Option.map_eq_some_iff.mp h
  rfl

/-- When the mutexes have been destroyed, each thread of the vector has been joined exactly
once precisely if every scan that came to a thread behind the first one found it stopped. -/
theorem joined_once_iff (routine : Routine) (flags : List Bool) (labels : List Label)
    (hr : run (step routine) (start flags) labels = some s) (destroyed : s.pc = .destroyed) :
    (∀ item ∈ s.threads, item.joins = 1) ↔
      Along (step routine) StoppedBehindFirst (start flags) labels := by
  apply outcome_iff_along (I := Clean) (J := Spoiled)
    (fun s a s' clean stopped h => step_clean clean stopped h)
    (fun s a s' clean running h => step_spoils clean running h)
    (fun s a s' spoiled h => step_spoiled spoiled a h) (clean_start flags) hr
  · intro clean item hmem
    obtain ⟨j, hget⟩ := List.getElem?_of_mem hmem
    have hjoins := clean j item hget
    rwa [destroyed] at hjoins
  · intro spoiled hall
    obtain ⟨item, hget, hjoins⟩ := spoiled
    have hone := hall item (List.mem_of_getElem? hget)
    rw [destroyed, hone] at hjoins
    exact absurd hjoins (by decide)

/-- Both threads clear their flags before the routine looks at them. -/
def stopInTime : List Label :=
  [.advance true, .clear 0, .clear 1, .advance true, .advance true, .advance true, .advance true,
    .advance true]

theorem joined_once_stopInTime :
    ∃ s, run (step .stopAll) (start [true, true]) stopInTime = some s ∧
      ∀ item ∈ s.threads, item.joins = 1 := by
  have hrun : run (step .stopAll) (start [true, true]) stopInTime =
      some ⟨[⟨false, true, 1⟩, ⟨false, true, 1⟩], true, .destroyed⟩ := by decide
  exact ⟨_, hrun, (joined_once_iff .stopAll [true, true] stopInTime hrun rfl).mpr (by decide)⟩

/-- The first thread has stopped, and the second one clears its flag while the routine sleeps. -/
def stopLate : List Label :=
  [.advance true, .advance true, .advance true, .advance true, .clear 1, .advance true,
    .advance true, .advance true, .advance true, .advance true, .advance true]

/-- Both routines join the first thread twice. -/
theorem joined_twice :
    run (step .stopAll) (start [false, true]) stopLate =
        some ⟨[⟨false, true, 2⟩, ⟨false, true, 1⟩], true, .destroyed⟩ ∧
      run (step .shutdownSubProc) (start [false, true]) stopLate =
        some ⟨[⟨false, true, 2⟩, ⟨false, true, 1⟩], false, .destroyed⟩ ∧
      ¬∀ item ∈ [(⟨false, true, 2⟩ : ThreadItem), ⟨false, true, 1⟩], item.joins = 1 := by
  decide

end Shutdown

end MyNginx
