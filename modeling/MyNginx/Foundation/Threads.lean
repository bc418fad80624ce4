import Mathlib
import MyNginx.Foundation.Transition

/-!
# Threads that take mutexes

A small language for threads over a shared memory. `atom` is a piece of code between
two mutex operations: it reads and writes the memory, may depend on an input, and
chooses how the thread goes on. `guarded` is a mutex held by a local object, which is
unlocked however its scope is left; `lock` and `unlock` are calls by hand, and `ret`
leaves the function without them. `note` marks a statement an execution may avoid.

`Ordered` is the proof system of lock discipline. Its judgement names the mutexes a
program holds when it begins, when it ends and when it returns, newest first, and every
mutex it takes must stand behind all those it holds. In a system of ordered threads no
thread waits for itself, and no threads wait for each other in a circle.
-/

namespace Foundation

/-- Programs over a memory `σ`, with inputs `ε`, mutexes `μ` and notes `ν`. -/
inductive Code (σ ε ν μ : Type) : Type 1 where
  | skip
  | ret
  | note (event : ν)
  | lock (m : μ)
  | unlock (m : μ)
  | guarded (m : μ) (body : Code σ ε ν μ)
  | seq (first second : Code σ ε ν μ)
  | call (body : Code σ ε ν μ)
  | atom {α : Type} (f : ε → σ → Option (σ × α)) (next : α → Code σ ε ν μ)
  | loop {α β : Type} (a : α) (f : ε → α → σ → Option (σ × Option (α × β)))
      (body : β → Code σ ε ν μ)

namespace Code

variable {σ ε ν μ : Type}

/-- Change the memory. -/
def act (f : σ → σ) : Code σ ε ν μ := .atom (fun _ s => some (f s, ())) fun _ => .skip

/-- Change the memory, with an input, if that is possible. -/
def perform (f : ε → σ → Option σ) : Code σ ε ν μ :=
  .atom (fun e s => (f e s).map fun s => (s, ())) fun _ => .skip

/-- Read a value. -/
def read {α : Type} (f : ε → σ → α) (next : α → Code σ ε ν μ) : Code σ ε ν μ :=
  .atom (fun e s => some (s, f e s)) next

def test (b : ε → σ → Bool) (yes no : Code σ ε ν μ) : Code σ ε ν μ :=
  read b fun result => if result then yes else no

def when (b : ε → σ → Bool) (yes : Code σ ε ν μ) : Code σ ε ν μ := test b yes .skip

/-- The statements of a block. -/
def block : List (Code σ ε ν μ) → Code σ ε ν μ
  | [] => .skip
  | [last] => last
  | first :: rest => .seq first (block rest)

/-- The process ends. -/
def exit : Code σ ε ν μ := .atom (α := Empty) (fun _ _ => none) fun _ => .skip

/-- A `while` loop. -/
def loopWhile (b : ε → σ → Bool) (body : Code σ ε ν μ) : Code σ ε ν μ :=
  .loop () (fun e _ s => some (s, if b e s then some ((), ()) else none)) fun _ => body

/-- What a program does when nothing interrupts it and every step has the same input, and
whether it returns. Loops and notes are left out. -/
def alone (e : ε) : Code σ ε ν μ → σ → Option (σ × Bool)
  | .skip, s => some (s, false)
  | .ret, s => some (s, true)
  | .note _, _ => none
  | .lock _, s => some (s, false)
  | .unlock _, s => some (s, false)
  | .guarded _ body, s => body.alone e s
  | .seq first second, s => (first.alone e s).bind fun
      | (s, true) => some (s, true)
      | (s, false) => second.alone e s
  | .call body, s => (body.alone e s).map fun (s, _) => (s, false)
  | .atom f next, s => (f e s).bind fun (s, a) => (next a).alone e s
  | .loop .., _ => none

section Alone

variable (e : ε) (s : σ) (b : ε → σ → Bool) (code yes no : Code σ ε ν μ)

@[simp] theorem alone_skip : alone e (.skip : Code σ ε ν μ) s = some (s, false) := rfl

@[simp] theorem alone_ret : alone e (.ret : Code σ ε ν μ) s = some (s, true) := rfl

@[simp] theorem alone_lock (m : μ) : alone e (.lock m : Code σ ε ν μ) s = some (s, false) := rfl

@[simp] theorem alone_unlock (m : μ) : alone e (.unlock m : Code σ ε ν μ) s = some (s, false) := rfl

@[simp] theorem alone_guarded (m : μ) : alone e (.guarded m code) s = alone e code s := rfl

@[simp] theorem alone_call : alone e (.call code) s = (alone e code s).map fun r => (r.1, false) :=
  rfl

@[simp] theorem alone_act (f : σ → σ) : alone e (.act f : Code σ ε ν μ) s = some (f s, false) := rfl

@[simp] theorem alone_perform (f : ε → σ → Option σ) :
    alone e (.perform f : Code σ ε ν μ) s = (f e s).map fun s => (s, false) := by
  simp only [perform, alone]
  cases f e s <;> rfl

@[simp] theorem alone_atom {α : Type} (f : ε → σ → Option (σ × α)) (next : α → Code σ ε ν μ) :
    alone e (.atom f next) s = (f e s).bind fun r => alone e (next r.2) r.1 := rfl

@[simp] theorem alone_read {α : Type} (f : ε → σ → α) (next : α → Code σ ε ν μ) :
    alone e (.read f next) s = alone e (next (f e s)) s := rfl

@[simp] theorem alone_test : alone e (.test b yes no) s =
    if b e s then alone e yes s else alone e no s := by
  simp only [test, alone_read]
  split <;> rfl

@[simp] theorem alone_when : alone e (.when b code) s =
    if b e s then alone e code s else some (s, false) := by
  simp only [when, alone_test, alone_skip]

@[simp] theorem alone_exit : alone e (.exit : Code σ ε ν μ) s = none := rfl

@[simp] theorem alone_block_nil : alone e (block [] : Code σ ε ν μ) s = some (s, false) := rfl

@[simp] theorem alone_block_singleton : alone e (block [code]) s = alone e code s := rfl

@[simp] theorem alone_seq : alone e (.seq yes no) s = (alone e yes s).bind fun r =>
    if r.2 then some r else alone e no r.1 := by
  simp only [alone]
  congr 1
  funext ⟨s, returned⟩
  cases returned <;> rfl

@[simp] theorem alone_block_cons (rest : List (Code σ ε ν μ)) :
    alone e (block (code :: yes :: rest)) s = (alone e code s).bind fun r =>
      if r.2 then some r else alone e (block (yes :: rest)) r.1 :=
  alone_seq e s code (block (yes :: rest))

variable {e s b code yes} {t : σ} {rest : List (Code σ ε ν μ)}

/-- A test in front of other statements that finds nothing to do. -/
theorem alone_passed (h : b e s = false) :
    alone e (block (.when b code :: yes :: rest)) s = alone e (block (yes :: rest)) s := by
  simp only [alone_block_cons, alone_when, h, Bool.false_eq_true, if_false, Option.bind_some]

/-- A test in front of other statements that leaves the function. -/
theorem alone_left (h : b e s = true) (hc : alone e code s = some (t, true)) :
    alone e (block (.when b code :: yes :: rest)) s = some (t, true) := by
  simp only [alone_block_cons, alone_when, h, if_true, hc, Option.bind_some]

/-- A test in front of other statements behind which the process ends. -/
theorem alone_ended (h : b e s = true) (hc : alone e code s = none) :
    alone e (block (.when b code :: yes :: rest)) s = none := by
  simp only [alone_block_cons, alone_when, h, if_true, hc, Option.bind_none]

end Alone

end Code

/-- What a thread still has to do. -/
inductive Frame (σ ε ν μ : Type) : Type 1 where
  | todo (code : Code σ ε ν μ)
  | release (m : μ)
  | boundary

/-- A thread: its frames, and whether it is on its way out of a function. -/
structure Control (σ ε ν μ : Type) : Type 1 where
  returning : Bool
  frames : List (Frame σ ε ν μ)

/-- The mutex the next statement locks. -/
def Control.asks {σ ε ν μ : Type} : Control σ ε ν μ → Option μ
  | ⟨false, .todo (.lock m) :: _⟩ => some m
  | ⟨false, .todo (.guarded m _) :: _⟩ => some m
  | _ => none

/-- The next statement is a note. -/
def Control.noting {σ ε ν μ : Type} : Control σ ε ν μ → Bool
  | ⟨false, .todo (.note _) :: _⟩ => true
  | _ => false

/-- A memory, the holders of the mutexes, and threads. -/
structure Threads (τ σ ε ν μ : Type) : Type 1 where
  memory : σ
  holder : μ → Option τ
  control : τ → Control σ ε ν μ

namespace Threads

open Code Foundation.Frame

variable {τ σ ε ν μ : Type} [DecidableEq τ] [DecidableEq μ]

/-- The thread goes on with other frames. -/
def goto (k : Threads τ σ ε ν μ) (t : τ) (returning : Bool) (frames : List (Frame σ ε ν μ)) :
    Threads τ σ ε ν μ :=
  { k with control := Function.update k.control t ⟨returning, frames⟩ }

def setHolder (k : Threads τ σ ε ν μ) (m : μ) (holder : Option τ) : Threads τ σ ε ν μ :=
  { k with holder := Function.update k.holder m holder }

/-- The thread takes a mutex, if it is free. -/
def acquire (k : Threads τ σ ε ν μ) (t : τ) (m : μ) (frames : List (Frame σ ε ν μ)) :
    Option (Threads τ σ ε ν μ) :=
  if k.holder m = none then some ((k.setHolder m (some t)).goto t false frames) else none

/-- The thread gives up a mutex it holds. -/
def surrender (k : Threads τ σ ε ν μ) (t : τ) (m : μ) (returning : Bool)
    (frames : List (Frame σ ε ν μ)) : Option (Threads τ σ ε ν μ) :=
  if k.holder m = some t then some ((k.setHolder m none).goto t returning frames) else none

/-- One statement of a thread that is not returning. -/
def exec (k : Threads τ σ ε ν μ) (t : τ) (e : ε) (rest : List (Frame σ ε ν μ)) :
    Code σ ε ν μ → Option (Threads τ σ ε ν μ)
  | .skip => some (k.goto t false rest)
  | .ret => some (k.goto t true rest)
  | .note _ => some (k.goto t false rest)
  | .lock m => k.acquire t m rest
  | .unlock m => k.surrender t m false rest
  | .guarded m body => k.acquire t m (todo body :: release m :: rest)
  | .seq first second => some (k.goto t false (todo first :: todo second :: rest))
  | .call body => some (k.goto t false (todo body :: boundary :: rest))
  | .atom f next => (f e k.memory).map fun (memory, a) =>
      { k with memory }.goto t false (todo (next a) :: rest)
  | .loop a f body => (f e a k.memory).map fun
      | (memory, none) => { k with memory }.goto t false rest
      | (memory, some (a, b)) =>
          { k with memory }.goto t false (todo (body b) :: todo (.loop a f body) :: rest)

/-- One step of a thread, with an input. -/
def step (k : Threads τ σ ε ν μ) (action : τ × ε) : Option (Threads τ σ ε ν μ) :=
  let t := action.1
  match k.control t with
  | ⟨_, []⟩ => none
  | ⟨false, todo code :: rest⟩ => k.exec t action.2 rest code
  | ⟨true, todo _ :: rest⟩ => some (k.goto t true rest)
  | ⟨returning, release m :: rest⟩ => k.surrender t m returning rest
  | ⟨_, boundary :: rest⟩ => some (k.goto t false rest)

/-- The next statement of the thread is a lock of `m`. -/
def Requests (k : Threads τ σ ε ν μ) (t : τ) (m : μ) : Prop := (k.control t).asks = some m

/-- The thread waits for a mutex of another one. -/
def Waits (k : Threads τ σ ε ν μ) (t u : τ) : Prop :=
  ∃ m, k.Requests t m ∧ k.holder m = some u

/-- The step is not the execution of a note. -/
def Unnoted (k : Threads τ σ ε ν μ) (action : τ × ε) : Prop :=
  (k.control action.1).noting = false

instance (k : Threads τ σ ε ν μ) (action : τ × ε) : Decidable (k.Unnoted action) :=
  inferInstanceAs (Decidable (_ = false))

end Threads

section Discipline

variable {σ ε ν μ : Type} {before : μ → μ → Prop}

/-- Begun with the mutexes `held`, newest first, a program that meets no note ends with
`after` and returns with `back`, and it takes every mutex behind all it holds. -/
inductive Ordered (before : μ → μ → Prop) :
    Code σ ε ν μ → List μ → List μ → List μ → Prop where
  | skip {held back} : Ordered before .skip held held back
  | ret {after back} : Ordered before .ret back after back
  | note {event held after back} : Ordered before (.note event) held after back
  | lock {m held back} (behind : ∀ h ∈ held, before h m) :
      Ordered before (.lock m) held (m :: held) back
  | unlock {m held back} : Ordered before (.unlock m) (m :: held) held back
  | guarded {m body held after back} (behind : ∀ h ∈ held, before h m)
      (inside : Ordered before body (m :: held) (m :: after) (m :: back)) :
      Ordered before (.guarded m body) held after back
  | seq {first second held middle after back} (begins : Ordered before first held middle back)
      (ends : Ordered before second middle after back) :
      Ordered before (.seq first second) held after back
  | call {body held after back} (inside : Ordered before body held after after) :
      Ordered before (.call body) held after back
  | atom {α : Type} {f : ε → σ → Option (σ × α)} {next held after back}
      (each : ∀ a, Ordered before (next a) held after back) :
      Ordered before (.atom f next) held after back
  | loop {α β : Type} {a : α} {f : ε → α → σ → Option (σ × Option (α × β))} {body held back}
      (each : ∀ b, Ordered before (body b) held held back) :
      Ordered before (.loop a f body) held held back

namespace Ordered

variable {held middle after back : List μ}

theorem act {f : σ → σ} : Ordered before (.act f : Code σ ε ν μ) held held back :=
  .atom fun _ => .skip

theorem perform {f : ε → σ → Option σ} :
    Ordered before (.perform f : Code σ ε ν μ) held held back :=
  .atom fun _ => .skip

theorem read {α : Type} {f : ε → σ → α} {next : α → Code σ ε ν μ}
    (each : ∀ a, Ordered before (next a) held after back) :
    Ordered before (.read f next) held after back :=
  .atom each

theorem test {b : ε → σ → Bool} {yes no : Code σ ε ν μ}
    (hyes : Ordered before yes held after back) (hno : Ordered before no held after back) :
    Ordered before (.test b yes no) held after back := by
  refine .atom fun result => ?_
  cases result
  · exact hno
  · exact hyes

theorem when {b : ε → σ → Bool} {yes : Code σ ε ν μ} (h : Ordered before yes held held back) :
    Ordered before (.when b yes) held held back :=
  .test h .skip

theorem exit : Ordered before (.exit : Code σ ε ν μ) held after back := .atom nofun

theorem loopWhile {b : ε → σ → Bool} {body : Code σ ε ν μ}
    (each : Ordered before body held held back) :
    Ordered before (.loopWhile b body) held held back :=
  .loop fun _ => each

/-- Programs that end with what they began with. -/
theorem andThen {first second : Code σ ε ν μ} (begins : Ordered before first held held back)
    (ends : Ordered before second held held back) :
    Ordered before (.seq first second) held held back :=
  .seq begins ends

/-- Behind a note anything may follow. -/
theorem noted {event : ν} {code : Code σ ε ν μ} (h : Ordered before code middle after back) :
    Ordered before (.seq (.note event) code) held after back :=
  .seq .note h

/-- A region locked and unlocked by hand, which is not left in between. -/
theorem region {m : μ} {body : Code σ ε ν μ} (behind : ∀ h ∈ held, before h m)
    (inside : Ordered before body (m :: held) (m :: held) back) :
    Ordered before (.seq (.lock m) (.seq body (.unlock m))) held held back :=
  .seq (.lock behind) (.seq inside .unlock)

end Ordered

/-- The frames of a thread fit the mutexes it holds. -/
inductive Fits (before : μ → μ → Prop) : Bool → List (Frame σ ε ν μ) → List μ → Prop where
  | ended {returning} : Fits before returning [] []
  | todo {code rest held after back} (ordered : Ordered before code held after back)
      (ends : Fits before false rest after) (returns : Fits before true rest back) :
      Fits before false (.todo code :: rest) held
  | dropped {code rest held} (returns : Fits before true rest held) :
      Fits before true (.todo code :: rest) held
  | release {returning m rest held} (rest_ : Fits before returning rest held) :
      Fits before returning (.release m :: rest) (m :: held)
  | boundary {returning rest held} (ends : Fits before false rest held) :
      Fits before returning (.boundary :: rest) held

end Discipline

section Safety

open Foundation.Frame Threads

variable {τ σ ε ν μ : Type} {before : μ → μ → Prop} {k k' : Threads τ σ ε ν μ} {t u : τ}

/-- The thread holds the mutexes `held`, each taken behind the older ones, and its
frames fit them. -/
structure Owns (before : μ → μ → Prop) (k : Threads τ σ ε ν μ) (t : τ) (held : List μ) :
    Prop where
  sorted : held.Pairwise fun new old => before old new
  holds : ∀ m, m ∈ held ↔ k.holder m = some t
  fits : Fits before (k.control t).returning (k.control t).frames held

/-- Every thread is ordered. -/
def Orderly (before : μ → μ → Prop) (k : Threads τ σ ε ν μ) : Prop :=
  ∀ t, ∃ held, Owns before k t held

namespace Owns

variable {held : List μ}

/-- Two mutexes of one thread are in order. -/
theorem pair (h : Owns before k t held) {m m' : μ} (hm : k.holder m = some t)
    (hm' : k.holder m' = some t) (hne : m ≠ m') : before m m' ∨ before m' m := by
  have : Std.Symm fun m m' => before m m' ∨ before m' m := ⟨fun _ _ => Or.symm⟩
  exact (h.sorted.imp fun hb => Or.inr hb).forall ((h.holds m).mpr hm) ((h.holds m').mpr hm') hne

/-- A mutex about to be taken stands behind all the thread holds. -/
theorem behind (h : Owns before k t held) {m m' : μ} (hr : k.Requests t m)
    (hm' : k.holder m' = some t) : before m' m := by
  have hmem : m' ∈ held := (h.holds m').mpr hm'
  have hfits := h.fits
  simp only [Threads.Requests, Control.asks] at hr
  split at hr
  case h_1 n rest hcontrol =>
    obtain rfl := Option.some.inj hr
    rw [hcontrol] at hfits
    cases hfits with
    | todo ordered _ _ =>
      cases ordered with
      | lock behind => exact behind m' hmem
  case h_2 n body rest hcontrol =>
    obtain rfl := Option.some.inj hr
    rw [hcontrol] at hfits
    cases hfits with
    | todo ordered _ _ =>
      cases ordered with
      | guarded behind _ => exact behind m' hmem
  case h_3 => exact absurd hr nofun

end Owns

namespace Orderly

/-- One thread makes a step; the others go on with what they had. -/
theorem of_self (h : Orderly before k) (control : ∀ u, u ≠ t → k'.control u = k.control u)
    (holder : ∀ u, u ≠ t → ∀ m, k'.holder m = some u ↔ k.holder m = some u)
    (self : ∃ held, Owns before k' t held) : Orderly before k' := by
  intro u
  by_cases hu : u = t
  · exact hu ▸ self
  · obtain ⟨held, sorted, holds, fits⟩ := h u
    refine ⟨held, sorted, fun m => (holds m).trans (holder u hu m).symm, ?_⟩
    rw [control u hu]
    exact fits

variable [DecidableEq τ] {held : List μ} {returning : Bool} {frames : List (Frame σ ε ν μ)}

/-- The thread goes on with frames that fit what it holds; the memory may change. -/
theorem goto (h : Orderly before k) (self : Owns before k t held)
    (fits : Fits before returning frames held) (memory : σ) :
    Orderly before ({ k with memory }.goto t returning frames) := by
  refine h.of_self (t := t) (fun u hu => ?_) (fun u _ m => Iff.rfl)
    ⟨held, self.sorted, self.holds, ?_⟩
  · exact Function.update_of_ne hu _ _
  · simp only [Threads.goto, Function.update_self]
    exact fits

variable [DecidableEq μ] {m : μ}

/-- The thread takes a mutex behind those it holds. -/
theorem acquire (h : Orderly before k) (self : Owns before k t held)
    (behind : ∀ m' ∈ held, before m' m) (fits : Fits before false frames (m :: held))
    (hs : k.acquire t m frames = some k') : Orderly before k' := by
  simp only [Threads.acquire] at hs
  split at hs
  case isFalse => exact absurd hs nofun
  case isTrue hfree =>
    obtain rfl := Option.some.inj hs
    refine h.of_self (t := t) (fun u hu => ?_) (fun u hu m' => ?_)
      ⟨m :: held, List.pairwise_cons.mpr ⟨behind, self.sorted⟩, fun m' => ?_, ?_⟩
    · exact Function.update_of_ne hu _ _
    · by_cases hm : m' = m
      · subst hm
        simp [Threads.goto, Threads.setHolder, hfree, Ne.symm hu]
      · simp [Threads.goto, Threads.setHolder, hm]
    · by_cases hm : m' = m
      · simp [Threads.goto, Threads.setHolder, hm]
      · simp [Threads.goto, Threads.setHolder, hm, self.holds m']
    · simp only [Threads.goto, Function.update_self]
      exact fits

/-- The thread gives up the mutex it took last. -/
theorem surrender (irrefl : ∀ m, ¬ before m m) (h : Orderly before k)
    (self : Owns before k t (m :: held)) (fits : Fits before returning frames held)
    (hs : k.surrender t m returning frames = some k') : Orderly before k' := by
  simp only [Threads.surrender] at hs
  split at hs
  case isFalse => exact absurd hs nofun
  case isTrue hmine =>
    obtain rfl := Option.some.inj hs
    obtain ⟨newest, sorted⟩ := List.pairwise_cons.mp self.sorted
    have hgone : m ∉ held := fun hmem => irrefl m (newest m hmem)
    refine h.of_self (t := t) (fun u hu => ?_) (fun u hu m' => ?_) ⟨held, sorted, fun m' => ?_, ?_⟩
    · exact Function.update_of_ne hu _ _
    · by_cases hm : m' = m
      · subst hm
        simp [Threads.goto, Threads.setHolder, hmine, Ne.symm hu]
      · simp [Threads.goto, Threads.setHolder, hm]
    · by_cases hm : m' = m
      · subst hm
        simp [Threads.goto, Threads.setHolder, hgone]
      · have := self.holds m'
        simp only [List.mem_cons, hm, false_or] at this
        simp [Threads.goto, Threads.setHolder, hm, this]
    · simp only [Threads.goto, Function.update_self]
      exact fits

/-- A statement keeps the threads ordered, unless it is a note. -/
theorem exec (irrefl : ∀ m, ¬ before m m) (h : Orderly before k) {e : ε} {code : Code σ ε ν μ}
    {rest : List (Frame σ ε ν μ)} (self : Owns before k t held)
    (fits : Fits before false (.todo code :: rest) held) (unnoted : ∀ event, code ≠ .note event)
    (hs : k.exec t e rest code = some k') : Orderly before k' := by
  cases fits with
  | todo ordered ends returns =>
    cases ordered with
    | skip =>
        obtain rfl := Option.some.inj hs
        exact h.goto self ends k.memory
    | ret =>
        obtain rfl := Option.some.inj hs
        exact h.goto self returns k.memory
    | note => exact absurd rfl (unnoted _)
    | lock behind => exact h.acquire self behind ends hs
    | unlock => exact h.surrender irrefl self ends hs
    | guarded behind inside =>
        exact h.acquire self behind (.todo inside (.release ends) (.release returns)) hs
    | seq begins second =>
        obtain rfl := Option.some.inj hs
        exact h.goto self (.todo begins (.todo second ends returns) (.dropped returns)) k.memory
    | call inside =>
        obtain rfl := Option.some.inj hs
        exact h.goto self (.todo inside (.boundary ends) (.boundary ends)) k.memory
    | atom each =>
        obtain ⟨⟨memory, a⟩, -, rfl⟩ := Option.map_eq_some_iff.mp hs
        exact h.goto self (.todo (each a) ends returns) memory
    | loop each =>
        obtain ⟨⟨memory, _ | ⟨a, b⟩⟩, -, rfl⟩ := Option.map_eq_some_iff.mp hs
        · exact h.goto self ends memory
        · exact h.goto self (.todo (each b) (.todo (.loop each) ends returns) (.dropped returns))
            memory

/-- A step keeps the threads ordered, unless it executes a note. -/
theorem step (irrefl : ∀ m, ¬ before m m) (h : Orderly before k) {action : τ × ε}
    (unnoted : k.Unnoted action) (hs : k.step action = some k') : Orderly before k' := by
  obtain ⟨t, e⟩ := action
  obtain ⟨held, self⟩ := h t
  have fits := self.fits
  cases hcontrol : k.control t with
  | mk returning frames =>
    simp only [Threads.step, hcontrol] at hs
    rw [hcontrol] at fits
    cases frames with
    | nil => exact absurd hs (by simp)
    | cons frame rest =>
      cases frame with
      | todo code =>
          cases returning with
          | false =>
              refine h.exec irrefl self fits (fun event heq => ?_) hs
              simp [Threads.Unnoted, hcontrol, heq, Control.noting] at unnoted
          | true =>
              obtain rfl := Option.some.inj hs
              cases fits with
              | dropped returns => exact h.goto self returns k.memory
      | release m =>
          cases fits with
          | release rest_ => exact h.surrender irrefl self rest_ (by simpa using hs)
      | boundary =>
          cases fits with
          | boundary ends =>
              obtain rfl := Option.some.inj (by simpa using hs)
              exact h.goto self ends k.memory

end Orderly

section Undisturbed

variable [DecidableEq τ] [DecidableEq μ] {e : ε} {held after back : List μ} {m : μ}
  {returning : Bool} {frames : List (Frame σ ε ν μ)}

/-- The thread holds the mutexes `held` in order, and nobody holds another one. -/
structure Sole (before : μ → μ → Prop) (k : Threads τ σ ε ν μ) (t : τ) (held : List μ) : Prop where
  sorted : held.Pairwise fun new old => before old new
  holds : ∀ m, k.holder m = if m ∈ held then some t else none

/-- From `k` the thread alone arrives in `k'`, in front of `frames`. -/
structure Arrives (before : μ → μ → Prop) (k : Threads τ σ ε ν μ) (t : τ) (e : ε) (s : σ)
    (held : List μ) (returning : Bool) (frames : List (Frame σ ε ν μ))
    (k' : Threads τ σ ε ν μ) : Prop where
  runs : ∃ count, run Threads.step k (List.replicate count (t, e)) = some k'
  memory : k'.memory = s
  sole : Sole before k' t held
  control : k'.control = Function.update k.control t ⟨returning, frames⟩

namespace Sole

variable (frames)

theorem acquire (irrefl : ∀ m, ¬ before m m) (h : Sole before k t held)
    (behind : ∀ m' ∈ held, before m' m) :
    ∃ k', k.acquire t m frames = some k' ∧ k'.memory = k.memory ∧ Sole before k' t (m :: held) ∧
      k'.control = Function.update k.control t ⟨false, frames⟩ := by
  have hfree : k.holder m = none := by
    rw [h.holds, if_neg fun hmem => irrefl m (behind m hmem)]
  refine ⟨_, if_pos hfree, rfl, ⟨List.pairwise_cons.mpr ⟨behind, h.sorted⟩, fun m' => ?_⟩, rfl⟩
  by_cases hm : m' = m
  · simp [Threads.goto, Threads.setHolder, hm]
  · simp [Threads.goto, Threads.setHolder, hm, h.holds m']

theorem surrender (r : Bool) (irrefl : ∀ m, ¬ before m m) (h : Sole before k t (m :: held)) :
    ∃ k', k.surrender t m r frames = some k' ∧ k'.memory = k.memory ∧
      Sole before k' t held ∧ k'.control = Function.update k.control t ⟨r, frames⟩ := by
  obtain ⟨newest, sorted⟩ := List.pairwise_cons.mp h.sorted
  have hgone : m ∉ held := fun hmem => irrefl m (newest m hmem)
  have hmine : k.holder m = some t := by simp [h.holds m]
  refine ⟨_, if_pos hmine, rfl, ⟨sorted, fun m' => ?_⟩, rfl⟩
  by_cases hm : m' = m
  · simp [Threads.goto, Threads.setHolder, hm, hgone]
  · simp [Threads.goto, Threads.setHolder, hm, h.holds m']

end Sole

namespace Arrives

variable {s : σ} {rest : List (Frame σ ε ν μ)} {mid : List μ} {r : Bool}

/-- One step, and then as before. -/
theorem of_step (hs : k.step (t, e) = some k') (control : k'.control =
      Function.update k.control t ⟨r, rest⟩) {k'' : Threads τ σ ε ν μ}
    (h : Arrives before k' t e s held returning frames k'') :
    Arrives before k t e s held returning frames k'' where
  runs := by
    obtain ⟨count, hr⟩ := h.runs
    exact ⟨count + 1, by rw [List.replicate_succ, run_cons, hs]; exact hr⟩
  memory := h.memory
  sole := h.sole
  control := by rw [h.control, control, Function.update_idem]

theorem trans (h : Arrives before k t e s mid r rest k') {s' : σ} {k'' : Threads τ σ ε ν μ}
    (h' : Arrives before k' t e s' held returning frames k'') :
    Arrives before k t e s' held returning frames k'' where
  runs := by
    obtain ⟨count, hr⟩ := h.runs
    obtain ⟨count', hr'⟩ := h'.runs
    exact ⟨count + count', by rw [← List.replicate_append_replicate, run_append, hr]; exact hr'⟩
  memory := h'.memory
  sole := h'.sole
  control := by rw [h'.control, h.control, Function.update_idem]

theorem one (hs : k.step (t, e) = some k') (memory : k'.memory = s)
    (sole : Sole before k' t held)
    (control : k'.control = Function.update k.control t ⟨returning, frames⟩) :
    Arrives before k t e s held returning frames k' :=
  ⟨⟨1, by simp [hs]⟩, memory, sole, control⟩

end Arrives

theorem step_todo {code : Code σ ε ν μ} (hc : k.control t = ⟨false, .todo code :: frames⟩) :
    k.step (t, e) = k.exec t e frames code := by
  simp [Threads.step, hc]

/-- A thread alone does what `alone` says: it takes every mutex it asks for, and stands
behind the program at the end. -/
theorem arrives_of_alone (irrefl : ∀ m, ¬ before m m) {code : Code σ ε ν μ}
    (ordered : Ordered before code held after back) {s : σ}
    (hcontrol : k.control t = ⟨false, .todo code :: frames⟩) (sole : Sole before k t held)
    (h : code.alone e k.memory = some (s, returning)) :
    ∃ k', Arrives before k t e s (if returning then back else after) returning frames k' := by
  induction ordered generalizing k s returning frames with
  | skip =>
      cases h
      exact ⟨_, .one (step_todo hcontrol) rfl ⟨sole.sorted, sole.holds⟩ rfl⟩
  | ret =>
      cases h
      exact ⟨_, .one (step_todo hcontrol) rfl ⟨sole.sorted, sole.holds⟩ rfl⟩
  | note => exact absurd h nofun
  | lock behind =>
      cases h
      obtain ⟨k', hs, hmem, hsole, hk'⟩ := sole.acquire frames irrefl behind
      exact ⟨k', .one ((step_todo hcontrol).trans hs) hmem hsole hk'⟩
  | unlock =>
      cases h
      obtain ⟨k', hs, hmem, hsole, hk'⟩ :=
        sole.surrender frames false irrefl
      exact ⟨k', .one ((step_todo hcontrol).trans hs) hmem hsole hk'⟩
  | @guarded m body held after back behind inside ih =>
      obtain ⟨k₁, hs, hmem, hsole, hk₁⟩ := sole.acquire (.todo body :: .release m :: frames) irrefl
        behind
      have hcontrol₁ : k₁.control t = ⟨false, .todo body :: .release m :: frames⟩ := by
        rw [hk₁, Function.update_self]
      obtain ⟨k₂, h₂⟩ := ih hcontrol₁ hsole (hmem ▸ h)
      have hsole₂ : Sole before k₂ t (m :: if returning then back else after) := by
        cases returning <;> exact h₂.sole
      obtain ⟨k₃, hs₃, hmem₃, hsole₃, hk₃⟩ := hsole₂.surrender frames returning irrefl
      have hstep₃ : k₂.step (t, e) = some k₃ := by
        rw [← hs₃]
        simp [Threads.step, h₂.control]
      exact ⟨k₃, .of_step ((step_todo hcontrol).trans hs) hk₁
        (h₂.trans (.one hstep₃ (hmem₃.trans h₂.memory) hsole₃ hk₃))⟩
  | @seq first second held middle after back begins ends ih ih' =>
      have hcontrol₁ : (k.goto t false (.todo first :: .todo second :: frames)).control t =
          ⟨false, .todo first :: .todo second :: frames⟩ := Function.update_self ..
      simp only [Code.alone_seq, Option.bind_eq_some_iff] at h
      obtain ⟨⟨s₁, r⟩, h₁, h⟩ := h
      obtain ⟨k₂, h₂⟩ := ih hcontrol₁ ⟨sole.sorted, sole.holds⟩ h₁
      cases r with
      | true =>
          cases h
          have hstep₃ : k₂.step (t, e) = some (k₂.goto t true frames) := by
            simp [Threads.step, h₂.control]
          exact ⟨_, .of_step (step_todo hcontrol) rfl
            (h₂.trans (.one hstep₃ h₂.memory ⟨h₂.sole.sorted, h₂.sole.holds⟩ rfl))⟩
      | false =>
          have hcontrol₂ : k₂.control t = ⟨false, .todo second :: frames⟩ := by
            rw [h₂.control, Function.update_self]
          obtain ⟨k₃, h₃⟩ := ih' hcontrol₂ h₂.sole (h₂.memory.symm ▸ h)
          exact ⟨k₃, .of_step (step_todo hcontrol) rfl (h₂.trans h₃)⟩
  | @call body held after back inside ih =>
      have hcontrol₁ : (k.goto t false (.todo body :: .boundary :: frames)).control t =
          ⟨false, .todo body :: .boundary :: frames⟩ := Function.update_self ..
      simp only [Code.alone_call, Option.map_eq_some_iff] at h
      obtain ⟨⟨s₁, r⟩, h₁, heq⟩ := h
      cases heq
      obtain ⟨k₂, h₂⟩ := ih hcontrol₁ ⟨sole.sorted, sole.holds⟩ h₁
      have hstep₃ : k₂.step (t, e) = some (k₂.goto t false frames) := by
        simp [Threads.step, h₂.control]
      have hsole₂ : Sole before k₂ t after := by
        cases r <;> exact h₂.sole
      exact ⟨_, .of_step (step_todo hcontrol) rfl
        (h₂.trans (.one hstep₃ h₂.memory ⟨hsole₂.sorted, hsole₂.holds⟩ rfl))⟩
  | @atom α f next held after back each ih =>
      simp only [Code.alone_atom, Option.bind_eq_some_iff] at h
      obtain ⟨⟨memory, a⟩, hf, h⟩ := h
      have hs : k.step (t, e) = some ({ k with memory }.goto t false (.todo (next a) :: frames)) := by
        rw [step_todo hcontrol]
        simp [Threads.exec, hf]
      have hcontrol₁ : ({ k with memory }.goto t false (.todo (next a) :: frames)).control t =
          ⟨false, .todo (next a) :: frames⟩ := Function.update_self ..
      obtain ⟨k₂, h₂⟩ := ih a hcontrol₁ ⟨sole.sorted, sole.holds⟩ h
      exact ⟨k₂, .of_step hs rfl h₂⟩
  | loop each ih => exact absurd h nofun

end Undisturbed

/-- Threads that hold nothing and run ordered programs are ordered. -/
theorem orderly_of_ordered (free : ∀ m, k.holder m = none)
    (programs : ∀ t, ∃ code, k.control t = ⟨false, [.todo code]⟩ ∧ Ordered before code [] [] []) :
    Orderly before k := by
  intro t
  obtain ⟨code, hcontrol, ordered⟩ := programs t
  refine ⟨[], .nil, fun m => ?_, ?_⟩
  · simp [free m]
  · rw [hcontrol]
    exact .todo ordered .ended .ended

section Circles

variable {rank : μ → Nat}

/-- A thread never asks for a mutex it holds. -/
theorem Orderly.not_own (ranked : ∀ m m', before m m' → rank m < rank m')
    (h : Orderly before k) {m : μ} (hr : k.Requests t m) : k.holder m ≠ some t := by
  intro hm
  obtain ⟨held, self⟩ := h t
  exact Nat.lt_irrefl _ (ranked m m (self.behind hr hm))

/-- The mutex a waiting thread asks for ranks below the one asked for by its holder. -/
theorem Orderly.climbs (ranked : ∀ m m', before m m' → rank m < rank m') (h : Orderly before k)
    (hw : Relation.TransGen k.Waits t u) :
    ∃ m m', k.Requests t m ∧ k.holder m' = some u ∧ rank m ≤ rank m' := by
  induction hw with
  | single hw =>
      obtain ⟨m, hr, hm⟩ := hw
      exact ⟨m, m, hr, hm, Nat.le_refl _⟩
  | @tail v w _ hw ih =>
      obtain ⟨m, m', hr, hm', hle⟩ := ih
      obtain ⟨n, hn, hm⟩ := hw
      obtain ⟨held, self⟩ := h v
      have hlt := ranked m' n (self.behind hn hm')
      exact ⟨m, n, hr, hm, by omega⟩

/-- No threads wait for each other in a circle. -/
theorem Orderly.no_circle (ranked : ∀ m m', before m m' → rank m < rank m')
    (h : Orderly before k) : ¬ Relation.TransGen k.Waits t t := by
  intro hw
  obtain ⟨m, m', hr, hm', hle⟩ := h.climbs ranked hw
  obtain ⟨held, self⟩ := h t
  have hlt := ranked m' m (self.behind hr hm')
  omega

end Circles

end Safety

end Foundation
