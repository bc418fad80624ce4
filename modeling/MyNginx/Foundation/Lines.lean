import Mathlib

/-!
# Files of bytes, read line by line with a bounded buffer

A file is its bytes. `lines` cuts it behind every newline; `fgets` takes at most a line
and at most as many bytes as fit in its buffer. `reads_eq` says what the successive reads
of a file are: the lines in their order, each cut in pieces of the buffer size.
-/

namespace Foundation

abbrev newline : UInt8 := 10

/-- The string at the start of a buffer: the bytes before the first zero byte. -/
def cstr (buf : List UInt8) : List UInt8 := buf.takeWhile (· ≠ 0)

/-- The bytes up to the first newline, which belongs to the line. -/
def firstLine : List UInt8 → List UInt8
  | [] => []
  | b :: bytes => if b = newline then [b] else b :: firstLine bytes

theorem firstLine_ne_nil {b : UInt8} {bytes : List UInt8} : firstLine (b :: bytes) ≠ [] := by
  simp only [firstLine]
  split <;> exact List.cons_ne_nil _ _

theorem firstLine_length_pos {bytes : List UInt8} (h : bytes ≠ []) :
    0 < (firstLine bytes).length := by
  cases bytes with
  | nil => exact absurd rfl h
  | cons b bytes => exact List.length_pos_iff.mpr firstLine_ne_nil

/-- What is left of the line behind some of its bytes. -/
theorem firstLine_drop {bytes : List UInt8} {n : Nat} (h : n < (firstLine bytes).length) :
    firstLine (bytes.drop n) = (firstLine bytes).drop n := by
  induction n generalizing bytes with
  | zero => rfl
  | succ n ih =>
      cases bytes with
      | nil => cases h
      | cons b bytes =>
          by_cases hb : b = newline
          · simp [firstLine, hb] at h
          · simp only [firstLine, hb, if_false, List.length_cons, List.drop_succ_cons] at h ⊢
            exact ih (Nat.lt_of_succ_lt_succ h)

/-- The physical lines, each with its newline; the last one may have none. -/
def lines : List UInt8 → List (List UInt8)
  | [] => []
  | b :: bytes => firstLine (b :: bytes) :: lines ((b :: bytes).drop (firstLine (b :: bytes)).length)
  termination_by bytes => bytes.length
  decreasing_by
    have hpos := List.length_pos_iff.mpr (@firstLine_ne_nil b bytes)
    rw [List.length_drop, List.length_cons]
    omega

@[simp] theorem lines_nil : lines [] = [] := by rw [lines]

theorem lines_of_ne_nil {bytes : List UInt8} (h : bytes ≠ []) :
    lines bytes = firstLine bytes :: lines (bytes.drop (firstLine bytes).length) := by
  cases bytes with
  | nil => exact absurd rfl h
  | cons b bytes => rw [lines]

theorem firstLine_firstLine (bytes : List UInt8) : firstLine (firstLine bytes) = firstLine bytes := by
  induction bytes with
  | nil => rfl
  | cons b bytes ih =>
      by_cases hb : b = newline
      · simp [firstLine, hb]
      · simp [firstLine, hb, ih]

/-- A line is its only line. -/
theorem lines_of_mem {bytes line : List UInt8} (h : line ∈ lines bytes) :
    line ≠ [] ∧ lines line = [line] := by
  have hfirst : ∀ bytes : List UInt8, bytes ≠ [] →
      firstLine bytes ≠ [] ∧ lines (firstLine bytes) = [firstLine bytes] := by
    intro bytes hne
    have hline : firstLine bytes ≠ [] := List.ne_nil_of_length_pos (firstLine_length_pos hne)
    refine ⟨hline, ?_⟩
    rw [lines_of_ne_nil hline, firstLine_firstLine, List.drop_length, lines_nil]
  induction hn : bytes.length using Nat.strongRecOn generalizing bytes with
  | _ n ih =>
      by_cases hne : bytes = []
      · rw [hne, lines_nil] at h
        cases h
      · rw [lines_of_ne_nil hne] at h
        rcases List.mem_cons.mp h with rfl | hrest
        · exact hfirst bytes hne
        · have hpos := firstLine_length_pos hne
          have hlength := List.length_pos_iff.mpr hne
          exact ih _ (by rw [List.length_drop]; omega) hrest rfl

/-- A line cut behind every `n` bytes. -/
def pieces (n : Nat) : List UInt8 → List (List UInt8)
  | [] => []
  | b :: line => (b :: line.take (n - 1)) :: pieces n (line.drop (n - 1))
  termination_by line => line.length
  decreasing_by
    rw [List.length_drop, List.length_cons]
    omega

variable {n : Nat}

@[simp] theorem pieces_nil : pieces n [] = [] := by rw [pieces]

theorem pieces_of_ne_nil {line : List UInt8} (h : line ≠ []) (pos : 0 < n) :
    pieces n line = line.take n :: pieces n (line.drop n) := by
  obtain ⟨n, rfl⟩ := Nat.exists_eq_add_one_of_ne_zero (Nat.ne_zero_of_lt pos)
  cases line with
  | nil => exact absurd rfl h
  | cons b line => rw [pieces, List.take_succ_cons, List.drop_succ_cons, Nat.add_sub_cancel]

/-- A short line is one piece. -/
theorem pieces_of_le {line : List UInt8} (h : line ≠ []) (short : line.length ≤ n) :
    pieces n line = [line] := by
  have hpos := List.length_pos_iff.mpr h
  rw [pieces_of_ne_nil h (Nat.lt_of_lt_of_le hpos short), List.take_of_length_le short,
    List.drop_of_length_le short, pieces_nil]

/-- The bytes of the next line that fit in `n` bytes. -/
def takeLine : Nat → List UInt8 → List UInt8
  | 0, _ => []
  | _ + 1, [] => []
  | n + 1, b :: bytes => if b = newline then [b] else b :: takeLine n bytes

theorem takeLine_eq (n : Nat) (bytes : List UInt8) :
    takeLine n bytes = (firstLine bytes).take n := by
  induction n generalizing bytes with
  | zero => rfl
  | succ n ih =>
      cases bytes with
      | nil => rfl
      | cons b bytes =>
          simp only [takeLine, firstLine]
          split
          · rw [List.take_succ_cons, List.take_nil]
          · rw [ih, List.take_succ_cons]

/-- A stream stands somewhere in its file, and may have noticed that it ends there. -/
structure Stream where
  rest : List UInt8
  eof : Bool

/-- `fgets` with a buffer of `size` bytes. It notices the end of the file when it looks for
a byte behind it. -/
def fgets (size : Nat) (fp : Stream) : Option (List UInt8) × Stream :=
  let line := takeLine (size - 1) fp.rest
  let rest := fp.rest.drop line.length
  let wanting := rest = [] ∧ line.length < size - 1 ∧ line.getLast? ≠ some newline
  (if line = [] then none else some line, ⟨rest, fp.eof || decide wanting⟩)

/-- What the successive reads with room for `n` bytes give. -/
def reads (n : Nat) (bytes : List UInt8) : List (List UInt8) :=
  (lines bytes).flatMap (pieces n)

@[simp] theorem reads_nil : reads n [] = [] := by simp [reads]

/-- The first read and the others. -/
theorem reads_eq {bytes : List UInt8} (h : bytes ≠ []) (pos : 0 < n) :
    reads n bytes = takeLine n bytes :: reads n (bytes.drop (takeLine n bytes).length) := by
  have hline : firstLine bytes ≠ [] := List.ne_nil_of_length_pos (firstLine_length_pos h)
  rw [reads, lines_of_ne_nil h, List.flatMap_cons, takeLine_eq]
  by_cases hshort : (firstLine bytes).length ≤ n
  · rw [pieces_of_le hline hshort, List.take_of_length_le hshort]
    rfl
  · -- The rest of a long line is the first line of what is left.
    have hlt : n < (firstLine bytes).length := Nat.not_le.mp hshort
    have hrest := firstLine_drop hlt
    have hne : bytes.drop n ≠ [] := by
      intro hnil
      rw [hnil] at hrest
      have hlen := congrArg List.length hrest
      rw [List.length_drop] at hlen
      simp only [firstLine, List.length_nil] at hlen
      omega
    rw [pieces_of_ne_nil hline pos, List.length_take, Nat.min_eq_left (Nat.le_of_lt hlt), reads,
      lines_of_ne_nil hne, List.flatMap_cons, hrest, List.drop_drop, List.length_drop,
      Nat.add_sub_cancel' (Nat.le_of_lt hlt), List.cons_append]

theorem firstLine_append {line : List UInt8} (h : newline ∉ line) (rest : List UInt8) :
    firstLine (line ++ newline :: rest) = line ++ [newline] := by
  induction line with
  | nil => rw [List.nil_append, firstLine, if_pos rfl, List.nil_append]
  | cons b line ih =>
      rw [List.mem_cons, not_or] at h
      rw [List.cons_append, firstLine, if_neg (Ne.symm h.1), ih h.2, List.cons_append]

theorem firstLine_eq_self {line : List UInt8} (h : newline ∉ line) : firstLine line = line := by
  induction line with
  | nil => rfl
  | cons b line ih =>
      rw [List.mem_cons, not_or] at h
      rw [firstLine, if_neg (Ne.symm h.1), ih h.2]

theorem lines_append {line : List UInt8} (h : newline ∉ line) (rest : List UInt8) :
    lines (line ++ newline :: rest) = (line ++ [newline]) :: lines rest := by
  have hdrop : (line ++ newline :: rest).drop (line ++ [newline]).length = rest := by
    rw [List.append_cons line newline rest, List.drop_left]
  rw [lines_of_ne_nil (by simp), firstLine_append h, hdrop]

/-- The lines of a file that is written line by line. -/
theorem lines_flatMap {written : List (List UInt8)} (h : ∀ line ∈ written, newline ∉ line) :
    lines (written.flatMap fun line => line ++ [newline]) =
      written.map fun line => line ++ [newline] := by
  induction written with
  | nil => exact lines_nil
  | cons line written ih =>
      rw [List.forall_mem_cons] at h
      rw [List.flatMap_cons, List.append_assoc, List.singleton_append, lines_append h.1, ih h.2,
        List.map_cons]

/-- A line that fits in the buffer with its newline is read at once. -/
theorem reads_append {line : List UInt8} (h : newline ∉ line) (short : line.length < n)
    (rest : List UInt8) :
    reads n (line ++ newline :: rest) = (line ++ [newline]) :: reads n rest := by
  have htake : takeLine n (line ++ newline :: rest) = line ++ [newline] := by
    rw [takeLine_eq, firstLine_append h, List.take_of_length_le]
    rw [List.length_append, List.length_singleton]
    exact short
  have happend : line ++ newline :: rest = (line ++ [newline]) ++ rest := List.append_cons ..
  have hdrop : (line ++ newline :: rest).drop (line ++ [newline]).length = rest := by
    rw [happend, List.drop_left]
  rw [reads_eq (by simp) (Nat.zero_lt_of_lt short), htake, hdrop]

/-- So is the rest of a file without a newline. -/
theorem reads_last {line : List UInt8} (h : newline ∉ line) (some : line ≠ [])
    (short : line.length ≤ n) : reads n line = [line] := by
  have hpos : 0 < n := Nat.lt_of_lt_of_le (List.length_pos_iff.mpr some) short
  have htake : takeLine n line = line := by
    rw [takeLine_eq, firstLine_eq_self h, List.take_of_length_le short]
  rw [reads_eq some hpos, htake, List.drop_length, reads_nil]

theorem takeLine_length_pos {bytes : List UInt8} (h : bytes ≠ []) (pos : 0 < n) :
    0 < (takeLine n bytes).length := by
  have hline := firstLine_length_pos h
  rw [takeLine_eq, List.length_take]
  omega

/-- A read in front of the end of the file. -/
theorem fgets_some {size : Nat} {rest : List UInt8} (h : rest ≠ []) (pos : 0 < size - 1) :
    ∃ fp : Stream, fgets size ⟨rest, false⟩ = (some (takeLine (size - 1) rest), fp) ∧
      fp.rest = rest.drop (takeLine (size - 1) rest).length ∧ (fp.eof = true → fp.rest = []) := by
  have hne := List.ne_nil_of_length_pos (takeLine_length_pos h pos)
  refine ⟨(fgets size ⟨rest, false⟩).2, ?_, rfl, fun heof => ?_⟩
  · simp only [fgets, hne, if_false]
  · simp only [fgets, Bool.false_or, decide_eq_true_eq] at heof
    exact heof.1

end Foundation
