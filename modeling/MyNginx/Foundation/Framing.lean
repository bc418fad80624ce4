import Mathlib

/-!
# Length-prefixed frames in a stream

A format has headers of a fixed positive length; `bodyLen` reads a header and
either rejects it or announces the length of the body that follows. `parse`
reads a whole stream: a rejected header is dropped and reading restarts behind
it, a complete frame is delivered, and what is left at the end is the frame
still being received.

`parse_append` is the law an incremental receiver relies on: after any part of
the stream only the unfinished tail matters for what comes later. So the
frames delivered by a receiver do not depend on how the stream was cut.
-/

namespace Foundation

universe u

structure Format (α : Type u) where
  headLen : Nat
  headLen_pos : 0 < headLen
  bodyLen : List α → Option Nat

namespace Format

variable {α : Type u} (F : Format α)

/-- The complete frames of a stream, and the unfinished tail. -/
def parse (xs : List α) : List (List α) × List α :=
  if xs.length < F.headLen then ([], xs)
  else
    match F.bodyLen (xs.take F.headLen) with
    | none => parse (xs.drop F.headLen)
    | some n =>
        if xs.length < F.headLen + n then ([], xs)
        else
          let later := parse (xs.drop (F.headLen + n))
          (xs.take (F.headLen + n) :: later.1, later.2)
termination_by xs.length
decreasing_by
  all_goals
    have := F.headLen_pos
    simp only [List.length_drop]
    omega

/-- The frames a receiver has to deliver. -/
def frames (xs : List α) : List (List α) := (F.parse xs).1

/-- The tail a receiver has to keep. -/
def rest (xs : List α) : List α := (F.parse xs).2

variable {F} {xs ys : List α} {n : Nat}

theorem parse_short (h : xs.length < F.headLen) : F.parse xs = ([], xs) := by
  rw [parse, if_pos h]

theorem parse_bad (h : ¬ xs.length < F.headLen) (hb : F.bodyLen (xs.take F.headLen) = none) :
    F.parse xs = F.parse (xs.drop F.headLen) := by
  rw [parse, if_neg h, hb]

theorem parse_partial (h : ¬ xs.length < F.headLen)
    (hb : F.bodyLen (xs.take F.headLen) = some n) (hn : xs.length < F.headLen + n) :
    F.parse xs = ([], xs) := by
  rw [parse, if_neg h, hb]
  exact if_pos hn

theorem parse_frame (hb : F.bodyLen (xs.take F.headLen) = some n)
    (hn : ¬ xs.length < F.headLen + n) :
    F.parse xs = (xs.take (F.headLen + n) :: (F.parse (xs.drop (F.headLen + n))).1,
      (F.parse (xs.drop (F.headLen + n))).2) := by
  rw [parse, if_neg (by omega), hb]
  exact if_neg hn

@[simp] theorem frames_nil : F.frames [] = [] := by
  rw [frames, parse_short (by simpa using F.headLen_pos)]

@[simp] theorem rest_nil : F.rest [] = [] := by
  rw [rest, parse_short (by simpa using F.headLen_pos)]

/-- Only the unfinished tail of what was read matters for what follows. -/
theorem parse_append (xs ys : List α) :
    F.parse (xs ++ ys) =
      (F.frames xs ++ F.frames (F.rest xs ++ ys), F.rest (F.rest xs ++ ys)) := by
  induction hl : xs.length using Nat.strongRecOn generalizing xs with
  | ind len ih =>
      have hpos := F.headLen_pos
      by_cases hs : xs.length < F.headLen
      · simp only [frames, rest, parse_short hs, List.nil_append]
      have hhead : (xs ++ ys).take F.headLen = xs.take F.headLen :=
        List.take_append_of_le_length (by omega)
      have hlong : ¬ (xs ++ ys).length < F.headLen := by simp; omega
      cases hb : F.bodyLen (xs.take F.headLen) with
      | none =>
          have hdrop : (xs ++ ys).drop F.headLen = xs.drop F.headLen ++ ys :=
            List.drop_append_of_le_length (by omega)
          rw [parse_bad hlong (by rw [hhead, hb]), hdrop,
            ih (xs.drop F.headLen).length (by simp; omega) _ rfl]
          simp only [frames, rest, parse_bad hs hb]
      | some n =>
          by_cases hn : xs.length < F.headLen + n
          · simp only [frames, rest, parse_partial hs hb hn, List.nil_append]
          have hdrop : (xs ++ ys).drop (F.headLen + n) = xs.drop (F.headLen + n) ++ ys :=
            List.drop_append_of_le_length (by omega)
          have htake : (xs ++ ys).take (F.headLen + n) = xs.take (F.headLen + n) :=
            List.take_append_of_le_length (by omega)
          rw [parse_frame (n := n) (by rw [hhead, hb]) (by simp; omega), hdrop, htake,
            ih (xs.drop (F.headLen + n)).length (by simp; omega) _ rfl]
          simp only [frames, rest, parse_frame hb hn, List.cons_append]

theorem frames_append (xs ys : List α) :
    F.frames (xs ++ ys) = F.frames xs ++ F.frames (F.rest xs ++ ys) := by
  rw [frames, parse_append]

theorem rest_append (xs ys : List α) : F.rest (xs ++ ys) = F.rest (F.rest xs ++ ys) := by
  rw [rest, parse_append]

/-- A tail shorter than a header is kept as it is. -/
theorem frames_short (h : xs.length < F.headLen) : F.frames xs = [] := by
  rw [frames, parse_short h]

theorem rest_short (h : xs.length < F.headLen) : F.rest xs = xs := by
  rw [rest, parse_short h]

/-- A rejected header alone leaves nothing behind. -/
theorem frames_bad (hl : xs.length = F.headLen) (hb : F.bodyLen xs = none) :
    F.frames xs = [] := by
  rw [frames, parse_bad (by omega) (by rwa [List.take_of_length_le (Nat.le_of_eq hl)]),
    List.drop_of_length_le (Nat.le_of_eq hl)]
  exact frames_nil

theorem rest_bad (hl : xs.length = F.headLen) (hb : F.bodyLen xs = none) : F.rest xs = [] := by
  rw [rest, parse_bad (by omega) (by rwa [List.take_of_length_le (Nat.le_of_eq hl)]),
    List.drop_of_length_le (Nat.le_of_eq hl)]
  exact rest_nil

/-- An accepted header with an incomplete body is kept whole. -/
theorem frames_partial (h : F.headLen ≤ xs.length)
    (hb : F.bodyLen (xs.take F.headLen) = some n) (hn : xs.length < F.headLen + n) :
    F.frames xs = [] := by
  rw [frames, parse_partial (by omega) hb hn]

theorem rest_partial (h : F.headLen ≤ xs.length)
    (hb : F.bodyLen (xs.take F.headLen) = some n) (hn : xs.length < F.headLen + n) :
    F.rest xs = xs := by
  rw [rest, parse_partial (by omega) hb hn]

/-- A stream that is exactly one frame. -/
theorem frames_whole (hb : F.bodyLen (xs.take F.headLen) = some n)
    (hl : xs.length = F.headLen + n) : F.frames xs = [xs] := by
  rw [frames, parse_frame hb (by omega), List.take_of_length_le (Nat.le_of_eq hl),
    List.drop_of_length_le (Nat.le_of_eq hl)]
  exact congrArg _ frames_nil

theorem rest_whole (hb : F.bodyLen (xs.take F.headLen) = some n)
    (hl : xs.length = F.headLen + n) : F.rest xs = [] := by
  rw [rest, parse_frame hb (by omega), List.drop_of_length_le (Nat.le_of_eq hl)]
  exact rest_nil

end Format

end Foundation
