import Mathlib

/-!
# Signals and the frames of their handlers

A process has a mask of blocked signals and a set of pending ones; a signal that is already
pending is not recorded twice. A pending signal that is not blocked interrupts whatever the
process is doing, also the handler of another signal. The frame of a handler keeps the mask
that its return restores, and its own signal is blocked while it runs.

`Nested` says that the frames are of different signals, all of them blocked, and that this
is still so after every return; `base` is the mask behind the last return.
-/

namespace Foundation

universe u v w

/-- A handler of `signo` in progress. -/
structure SignalFrame (S : Type u) (P : Type v) where
  signo : S
  saved : List S
  pc : P

/-- The signals of a process; something is known of the sender of each pending one. -/
structure Signals (S : Type u) (I : Type v) (P : Type w) where
  mask : List S
  pending : List (S × I)
  frames : List (SignalFrame S P)

namespace Signals

variable {S : Type u} {I : Type v} {P : Type w}

section

variable [DecidableEq S]

/-- What is known of the sender of a pending signal. -/
def info (q : Signals S I P) (signo : S) : Option I :=
  (q.pending.find? fun entry => entry.1 = signo).map Prod.snd

/-- The signal becomes pending, if it is not. -/
def raise (q : Signals S I P) (signo : S) (sender : I) : Signals S I P :=
  match q.info signo with
  | some _ => q
  | none => { q with pending := q.pending ++ [(signo, sender)] }

/-- The signal is no longer pending. -/
def take (q : Signals S I P) (signo : S) : Signals S I P :=
  { q with pending := q.pending.eraseP fun entry => entry.1 = signo }

/-- The signal is delivered to its handler, whose return restores the mask `saved`. -/
def deliver (q : Signals S I P) (signo : S) (saved : List S) (pc : P) : Signals S I P :=
  { q.take signo with
    mask := signo :: q.mask
    frames := ⟨signo, saved, pc⟩ :: q.frames }

end

/-- The handler goes on. -/
def goto (q : Signals S I P) (pc : P) : Signals S I P :=
  { q with frames := q.frames.modifyHead fun frame => { frame with pc } }

/-- The handler returns. -/
def resume (q : Signals S I P) : Signals S I P :=
  match q.frames with
  | [] => q
  | frame :: rest => { q with mask := frame.saved, frames := rest }

theorem goto_frames {q : Signals S I P} {frame : SignalFrame S P} {rest : List (SignalFrame S P)}
    (h : q.frames = frame :: rest) (pc : P) : (q.goto pc).frames = { frame with pc } :: rest := by
  rw [goto, h]
  rfl

theorem resume_eq {q : Signals S I P} {frame : SignalFrame S P} {rest : List (SignalFrame S P)}
    (h : q.frames = frame :: rest) : q.resume = { q with mask := frame.saved, frames := rest } := by
  rw [resume, h]

/-- The signals of the frames are blocked and different, now and after each return. -/
def Nested : List S → List (SignalFrame S P) → Prop
  | _, [] => True
  | mask, frame :: rest =>
      (∀ other ∈ frame :: rest, other.signo ∈ mask) ∧ frame.signo ∉ rest.map SignalFrame.signo ∧
        Nested frame.saved rest

/-- The mask that the last return restores. -/
def base (mask : List S) : List (SignalFrame S P) → List S
  | [] => mask
  | frame :: rest => base frame.saved rest

variable {q : Signals S I P} {mask saved : List S} {frames : List (SignalFrame S P)}
  {frame : SignalFrame S P} {signo : S} {pc : P}

theorem Nested.blocked (h : Nested mask frames) (mem : frame ∈ frames) : frame.signo ∈ mask := by
  cases frames with
  | nil => cases mem
  | cons first rest => exact h.1 frame mem

/-- An unblocked signal interrupts what runs. -/
theorem Nested.deliver (h : Nested mask frames) (free : signo ∉ mask)
    (restores : saved = mask ∨ frames = []) :
    Nested (signo :: mask) (⟨signo, saved, pc⟩ :: frames) := by
  refine ⟨fun other hother => ?_, fun hmem => ?_, ?_⟩
  · rcases List.mem_cons.mp hother with rfl | hframe
    · exact List.mem_cons_self
    · exact List.mem_cons_of_mem _ (h.blocked hframe)
  · obtain ⟨other, hother, rfl⟩ := List.mem_map.mp hmem
    exact free (h.blocked hother)
  · rcases restores with rfl | rfl
    · exact h
    · trivial

theorem Nested.resume (h : Nested mask (frame :: frames)) : Nested frame.saved frames := h.2.2

theorem Nested.goto (h : Nested mask (frame :: frames)) :
    Nested mask ({ frame with pc } :: frames) := by
  refine ⟨fun other hother => ?_, h.2.1, h.2.2⟩
  rcases List.mem_cons.mp hother with rfl | hrest
  · exact h.1 frame List.mem_cons_self
  · exact h.1 other (List.mem_cons_of_mem _ hrest)

/-- No signal interrupts its own handler, however deep. -/
theorem Nested.nodup (h : Nested mask frames) : (frames.map SignalFrame.signo).Nodup := by
  induction frames generalizing mask with
  | nil => exact List.nodup_nil
  | cons first rest ih => exact List.nodup_cons.mpr ⟨h.2.1, ih h.2.2⟩

/-- The frames of signals out of a list are at most as many as its elements. -/
theorem Nested.length_le (h : Nested mask frames) {known : List S}
    (mem : ∀ frame ∈ frames, frame.signo ∈ known) : frames.length ≤ known.length := by
  rw [← List.length_map SignalFrame.signo]
  refine (List.subperm_of_subset h.nodup fun signo hsigno => ?_).length_le
  obtain ⟨frame, hframe, rfl⟩ := List.mem_map.mp hsigno
  exact mem frame hframe

section

variable [DecidableEq S] {other : S} {sender : I}

@[simp] theorem raise_mask : (q.raise signo sender).mask = q.mask := by
  rw [raise]
  split <;> rfl

@[simp] theorem raise_frames : (q.raise signo sender).frames = q.frames := by
  rw [raise]
  split <;> rfl

/-- A signal that is pending keeps its first sender. -/
theorem info_raise : (q.raise signo sender).info other =
    if other = signo then some ((q.info signo).getD sender) else q.info other := by
  rw [raise]
  split
  next first hfirst =>
    split
    next heq => rw [heq, hfirst, Option.getD_some]
    next => rfl
  next hnone =>
    rw [hnone, info, List.find?_append, Option.map_or]
    split
    next heq =>
      subst heq
      have hfind : (q.pending.find? fun entry => entry.1 = other) = none := by
        simpa [info] using hnone
      simp [hfind]
    next hne =>
      have hother : ([(signo, sender)].find? fun entry => entry.1 = other) = none := by
        simpa using Ne.symm hne
      rw [hother, Option.map_none, Option.or_none, info]

theorem info_take (ne : other ≠ signo) : (q.take signo).info other = q.info other := by
  rw [info, info, take]
  refine congrArg _ ?_
  induction q.pending with
  | nil => rfl
  | cons entry rest ih =>
      by_cases hfirst : entry.1 = signo
      · have hne : entry.1 ≠ other := fun he => ne (he.symm.trans hfirst)
        rw [List.eraseP_cons_of_pos (by simpa using hfirst),
          List.find?_cons_of_neg (by simpa using hne)]
      · rw [List.eraseP_cons_of_neg (by simpa using hfirst), List.find?_cons, List.find?_cons, ih]

/-- A signal that is pending is taken. -/
theorem length_take (h : q.info signo = some sender) :
    (q.take signo).pending.length + 1 = q.pending.length := by
  obtain ⟨entry, hfind, -⟩ := Option.map_eq_some_iff.mp h
  have hmem := List.mem_of_find?_eq_some hfind
  have hlength := List.length_eraseP_of_mem hmem (List.find?_some hfind)
  have hpos := List.length_pos_of_mem hmem
  rw [take, hlength]
  omega

/-- What is pending behind a signal that is taken. -/
theorem mem_take (h : q.info signo = some sender) {entry : S × I} :
    entry ∈ q.pending ↔ entry ∈ (q.take signo).pending ∨ entry = (signo, sender) := by
  obtain ⟨first, hfind, hsender⟩ := Option.map_eq_some_iff.mp h
  obtain ⟨hsigno, front, back, hpending, hfront⟩ := List.find?_eq_some_iff_append.mp hfind
  have hfirst : first = (signo, sender) := Prod.ext (by simpa using hsigno) hsender
  have htake : (q.take signo).pending = front ++ back := by
    rw [take, hpending, List.eraseP_append_right _ (by simpa using hfront),
      List.eraseP_cons_of_pos (by simpa using hsigno)]
  rw [htake, hpending, hfirst]
  simp only [List.mem_append, List.mem_cons]
  tauto

theorem mem_raise {entry : S × I} (h : entry ∈ q.pending) :
    entry ∈ (q.raise signo sender).pending := by
  rw [raise]
  split
  · exact h
  · exact List.mem_append_left _ h

/-- A signal that was not pending. -/
theorem mem_raise_self (h : q.info signo = none) :
    (signo, sender) ∈ (q.raise signo sender).pending := by
  rw [raise, h]
  exact List.mem_append_right _ List.mem_cons_self

/-- Nothing is pending. -/
theorem pending_eq_nil (h : ∀ signo, q.info signo = none) : q.pending = [] := by
  cases hpending : q.pending with
  | nil => rfl
  | cons entry rest =>
      have hnone := h entry.1
      simp [info, hpending] at hnone

end

end Signals

end Foundation
