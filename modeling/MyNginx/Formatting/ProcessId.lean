import MyNginx.Formatting.Arguments

/-!
# Calls with `%P`

What `fmt_string` does at `%P` is to print the letter; the directives behind it take the
arguments passed for the one in front of them. So a call prints as if the letter were part of
the text, or is undefined if a string is to be printed and a number passed. A record is then
composed exactly as that of the other call.
-/

namespace MyNginx

namespace Format

open Foundation

variable {last b size : Nat}

theorem length_le_format (call : List Piece) : call.length ≤ (format call).length := by
  induction call with
  | nil => exact Nat.le_refl _
  | cons piece call ih =>
      have hpos : 0 < piece.spelling.length := List.length_pos_iff.mpr piece.spelling_ne_nil
      rw [format, List.flatMap_cons, List.length_append, List.length_cons]
      rw [format] at ih
      omega

/-- The pieces in front of the rest of a format are carried out first. -/
theorem fmtLoop_front (last : Nat) (front : List Piece) (fmt : List UInt8) (args : List Arg)
    {fuel : Nat} (enough : (format front).length + fmt.length ≤ fuel) (out : Output) :
    fmtLoop last fuel out (format front ++ fmt) (arguments front ++ args) = (do
      let out ← runPieces last out front
      fmtLoop last (fuel - front.length) out fmt args) := by
  induction front generalizing fuel out with
  | nil => rfl
  | cons piece front ih =>
      have hlength := length_le_format (piece :: front)
      cases hbelow : out.below last with
      | false =>
          rw [runPieces_stop hbelow, ok_bind,
            fmtLoop_stop hbelow (by rw [List.length_append]; exact enough),
            fmtLoop_stop hbelow (by omega)]
      | true =>
          have hpos : 0 < piece.spelling.length := List.length_pos_iff.mpr piece.spelling_ne_nil
          rw [format, List.flatMap_cons, List.length_append] at enough
          cases fuel with
          | zero => omega
          | succ fuel =>
              have hrest : (format front).length + fmt.length ≤ fuel := by
                rw [format]
                omega
              rw [format, arguments, List.flatMap_cons, List.flatMap_cons, List.append_assoc,
                List.append_assoc, fmtLoop_piece hbelow, runPieces, hbelow, if_pos rfl, bind_assoc,
                List.length_cons, Nat.add_sub_add_right]
              congr 1
              funext out
              exact ih hrest out

/-- At `%P` the loop does what it does at the letter. -/
theorem fmtLoop_processId (fuel : Nat) (out : Output) (fmt : List UInt8) (args : List Arg) :
    fmtLoop last (fuel + 1) out (percent :: letterBigP :: fmt) args =
      fmtLoop last (fuel + 1) out (letterBigP :: fmt) args := by
  have hdirective := body_directive (c := letterBigP) (by decide) last out ⟨[], [], none⟩ fmt args
  have hletter : body last out letterBigP fmt args = (do
      let out ← out.put letterBigP
      return (out, fmt, args)) := if_neg (by decide)
  have hbody : body last out percent (letterBigP :: fmt) args =
      body last out letterBigP fmt args := by
    rw [hletter]
    exact hdirective
  rw [fmtLoop_cons, fmtLoop_cons, hbody]

def bigP : Piece := .literal letterBigP (by decide)

/-- A call with `%P` prints the letter, and the directives behind it take the arguments that
are left, the one for `%P` among them. -/
theorem fmtString_processId (front rest : List Piece) (extra : List Arg) (out : Output) :
    fmtString last out (format front ++ (percent :: letterBigP :: format rest))
        (arguments front ++ (arguments rest ++ extra)) =
      runPieces last out (front ++ bigP :: rest) := by
  have hlength := length_le_format front
  have hrest := length_le_format rest
  rw [fmtString, fmtLoop_front last front _ _ (by simp), runPieces_append]
  congr 1
  funext out
  obtain ⟨fuel, hfuel⟩ : ∃ fuel, (format front ++ (percent :: letterBigP :: format rest)).length -
      front.length = fuel + 1 := ⟨_, (Nat.sub_add_cancel (by simp; omega)).symm⟩
  have henough : (format (bigP :: rest)).length ≤ fuel + 1 := by
    have hformat : (format (bigP :: rest)).length = (format rest).length + 1 := by
      rw [format, List.flatMap_cons, List.length_append, ← format, Nat.add_comm]
      rfl
    simp only [List.length_append, List.length_cons] at hfuel
    omega
  rw [hfuel, fmtLoop_processId]
  have hpieces := fmtLoop_front last (bigP :: rest) [] extra (by simpa using henough) out
  rw [List.append_nil] at hpieces
  refine hpieces.trans ?_
  cases hrun : runPieces last out (bigP :: rest) with
  | error fault => rfl
  | ok out =>
      rw [ok_bind]
      cases fuel + 1 - (bigP :: rest).length <;> rfl

/-- A string behind it takes the process id for one. -/
theorem fmtString_badArgument (last : Nat) (front : List Piece)
    (defined : ∀ piece ∈ front, piece.Defined) (value : BitVec 32) (extra : List Arg) (cells : Cells UInt8)
    (room : b + (output front).length + 1 < last) :
    fmtString last ⟨cells, some b⟩
        (format front ++ (percent :: letterBigP :: percent :: letterS :: []))
        (arguments front ++ .word value :: extra) = .error .badArgument := by
  have hlength := length_le_format front
  rw [fmtString, fmtLoop_front last front _ _ (by simp), runPieces_full defined cells (by omega),
    ok_bind]
  obtain ⟨fuel, hfuel⟩ : ∃ fuel, (format front ++
      (percent :: letterBigP :: percent :: letterS :: [])).length - front.length = fuel + 2 :=
    ⟨_, (Nat.sub_add_cancel (by simp; omega)).symm⟩
  have hbelow : (printed cells b (output front)).below last = true := decide_eq_true (by omega)
  have hthen : (printed (cells.storeUp b (output front)) (b + (output front).length)
      [letterBigP]).below last = true := decide_eq_true (by simpa [Nat.add_assoc] using room)
  have hletter : body last (printed cells b (output front)) letterBigP [percent, letterS]
      (.word value :: extra) = .ok (printed (cells.storeUp b (output front))
        (b + (output front).length) [letterBigP], [percent, letterS], .word value :: extra) := rfl
  rw [hfuel, fmtLoop_processId, fmtLoop_cons, hbelow, if_pos rfl, hletter]
  change fmtLoop last (fuel + 1) _ [percent, letterS] _ = _
  rw [fmtLoop_cons, hthen, if_pos rfl]
  rfl

/-- Pieces with room for their texts stay in the array, and so do those behind them. -/
theorem stays_append {front back : List Piece} (defined : ∀ piece ∈ front, piece.Defined)
    (room : b + (output front).length < last) (inside : last ≤ size)
    (stays : Stays last size (b + (output front).length) back) :
    Stays last size b (front ++ back) := by
  induction front generalizing b with
  | nil => exact stays
  | cons piece front ih =>
      rw [output_cons, List.length_append] at room stays
      refine fun _ => ⟨?_, ih (fun other h => defined other (List.mem_cons_of_mem piece h))
        (by omega) (by rwa [Nat.add_assoc])⟩
      have hfits : piece.Fits last b := (defined piece List.mem_cons_self).fits (by omega)
      cases piece with
      | literal | percentSign | string => trivial
      | int | pid => exact hfits
      | double spec frac => exact ⟨hfits.1, by omega, by omega⟩

end Format

namespace Log

open Foundation Format

variable {tm : Tm} {curPid : BitVec 32} {strerror : BitVec 32 → List UInt8} {level : Level}
  {errnum : BitVec 32} {fmt fmt' : List UInt8} {args args' : List Arg}

/-- The record depends on what the call prints. -/
theorem logErrorCore_congr
    (same : ∀ out, fmtString maxErrorStr out fmt args = fmtString maxErrorStr out fmt' args') :
    logErrorCore tm curPid strerror level errnum fmt args =
      logErrorCore tm curPid strerror level errnum fmt' args' := by
  simp only [logErrorCore, same]

/-- What stands in front of the message. -/
def headPieces (tm : Tm) (level : Level) (curPid : BitVec 32) : List Piece :=
  timePieces tm ++ (levelPieces level ++ pidPieces curPid)

theorem length_digits_le {n : Nat} (h : n ≤ 2 ^ 31) : (unitsOf .decimal n).length ≤ 10 := by
  simp only [unitsOf]
  split
  · exact Nat.le_of_ble_eq_true rfl
  · rw [List.length_map]
    exact (Nat.digits_length_le_iff (by decide) n).mpr (by omega)

/-- A number of 32 bits. -/
theorem length_signed_word_le (zero : UInt8) (value : BitVec 32) :
    (signed zero .decimal 0 value.toInt).length ≤ 11 := by
  have hvalue : value.toInt.natAbs ≤ 2 ^ 31 := by
    have hlow := BitVec.le_toInt value
    have hhigh := BitVec.toInt_lt (x := value)
    omega
  have hdigits := length_digits_le hvalue
  rw [signed, List.length_append, length_padded, if_pos rfl, signText]
  split
  · exact Nat.add_comm 1 _ ▸ Nat.succ_le_succ hdigits
  · exact Nat.le_trans (Nat.le_of_eq (Nat.zero_add _)) (Nat.le_succ_of_le hdigits)

theorem length_headPieces (tm : Tm) (level : Level) (curPid : BitVec 32) :
    (output (headPieces tm level curPid)).length ≤ 63 := by
  have htime := length_timeText tm
  have hpid := length_signed_word_le space curPid
  have hlevel : (cstr (errLevels level)).length ≤ 6 := by cases level <;> decide
  have houtput : output (headPieces tm level curPid) = timeText tm ++
      ((32 :: 91 :: (cstr (errLevels level) ++ [93, 32])) ++
        (32 :: (signed space .decimal 0 curPid.toInt ++ [32]))) := by
    rw [headPieces, output, List.flatMap_append, List.flatMap_append]
    rfl
  rw [houtput]
  simp only [List.length_append, List.length_cons, List.length_nil]
  omega

theorem defined_headPieces (tm : Tm) (level : Level) (curPid : BitVec 32) :
    ∀ piece ∈ headPieces tm level curPid, piece.Defined := by
  intro piece hmem
  simp only [headPieces, timePieces, levelPieces, pidPieces, List.mem_append, List.mem_cons,
    List.not_mem_nil, or_false] at hmem
  rcases hmem with (rfl | rfl | rfl | rfl | rfl | rfl | rfl | rfl | rfl | rfl | rfl) |
    (rfl | rfl | rfl | rfl | rfl) | (rfl | rfl | rfl) <;> trivial

/-- A short call composes its record, whatever the error text is. -/
theorem logErrorCore_ok (call : List Piece) (defined : ∀ piece ∈ call, piece.Defined)
    (short : (output call).length ≤ 1900) :
    ∃ out, logErrorCore tm curPid strerror level errnum (format call) (arguments call) =
      .ok out := by
  have hhead := length_headPieces tm level curPid
  have hnumber := length_signed_word_le space errnum
  refine ((recordSafe_iff call).mpr ?_).record.imp fun _ => And.left
  have hrecord : record tm curPid strerror level errnum call =
      (headPieces tm level curPid ++ call) ++ errnoPieces strerror errnum := by
    simp only [record, headPieces, List.append_assoc]
  rw [hrecord]
  have houtput : (output (headPieces tm level curPid ++ call)).length =
      (output (headPieces tm level curPid)).length + (output call).length := by
    rw [output, List.flatMap_append, List.length_append]
    rfl
  refine stays_append ?_ (by rw [houtput, maxErrorStr]; omega) (Nat.le_succ _) ?_
  · intro piece hmem
    rcases List.mem_append.mp hmem with h | h
    · exact defined_headPieces tm level curPid piece h
    · exact defined piece h
  · rw [errnoPieces]
    split
    · have hlength : (output (numberPieces errnum)).length ≤ 15 := by
        have hpieces : output (numberPieces errnum) =
            32 :: 91 :: (signed space .decimal 0 errnum.toInt ++ [58, 32]) := rfl
        rw [hpieces]
        simp only [List.length_append, List.length_cons, List.length_nil]
        omega
      refine stays_append ?_ (by rw [houtput, maxErrorStr]; omega) (Nat.le_succ _) ?_
      · intro piece hmem
        simp only [numberPieces, List.mem_cons, List.not_mem_nil, or_false] at hmem
        rcases hmem with rfl | rfl | rfl | rfl | rfl <;> trivial
      · exact fun _ => ⟨trivial, fun _ => ⟨trivial, trivial⟩⟩
    · trivial

/-- A record that does not reach the last byte of the window is ended by a newline. -/
theorem endRecord_printed {text : List UInt8} {last : Nat} (short : text.length < last - 1) :
    endRecord last (printed Cells.empty 0 text) =
      .ok (printed Cells.empty 0 (text ++ [newline])) := by
  rw [← printed_append, ← put_some]
  change Output.put newline
    ⟨_, some (if last - 1 ≤ 0 + text.length then last - 1 - 1 else 0 + text.length)⟩ = _
  rw [if_neg (by omega)]
  rfl

/-- A short call without an error number is composed in full, between the head of the record
and the newline. -/
theorem logErrorCore_text (call : List Piece) (defined : ∀ piece ∈ call, piece.Defined)
    (short : (output call).length ≤ 1900) :
    logErrorCore tm curPid strerror level 0 (format call) (arguments call) =
      .ok (printed Cells.empty 0
        (output (headPieces tm level curPid) ++ (output call ++ [newline]))) := by
  have hhead := length_headPieces tm level curPid
  have hrecord : record tm curPid strerror level 0 call = headPieces tm level curPid ++ call := by
    simp only [record, errnoPieces, headPieces, List.append_assoc, List.append_nil, ne_eq,
      not_true_eq_false, if_false]
  have houtput : output (headPieces tm level curPid ++ call) =
      output (headPieces tm level curPid) ++ output call := by
    rw [output, List.flatMap_append]
    rfl
  have hlength : (output (headPieces tm level curPid ++ call)).length ≤ 1963 := by
    rw [houtput, List.length_append]
    omega
  have hdefined : ∀ piece ∈ headPieces tm level curPid ++ call, piece.Defined := by
    rw [List.forall_mem_append]
    exact ⟨defined_headPieces tm level curPid, defined⟩
  have hrun : runPieces maxErrorStr (Output.start 0) (headPieces tm level curPid ++ call) =
      .ok (printed Cells.empty 0 (output (headPieces tm level curPid ++ call))) :=
    runPieces_full hdefined Cells.empty (by rw [maxErrorStr]; omega)
  rw [logErrorCore_eq, hrecord, hrun, ok_bind, endRecord_printed (by rw [maxErrorStr]; omega),
    houtput, List.append_assoc]

/-- The record of a call that takes a number for a string is undefined. -/
theorem logErrorCore_badArgument (front : List Piece) (defined : ∀ piece ∈ front, piece.Defined)
    (value : BitVec 32) (extra : List Arg) (short : (output front).length ≤ 1900) :
    logErrorCore tm curPid strerror level errnum
        (format front ++ (percent :: letterBigP :: percent :: letterS :: []))
        (arguments front ++ .word value :: extra) = .error .badArgument := by
  have hhead := length_headPieces tm level curPid
  have hrun : runPieces maxErrorStr (Output.start 0) (headPieces tm level curPid) =
      .ok (printed Cells.empty 0 (output (headPieces tm level curPid))) :=
    runPieces_full (defined_headPieces tm level curPid) Cells.empty (by rw [maxErrorStr]; omega)
  have hcopy : cpymem (timeText tm) = printed Cells.empty 0 (timeText tm) := by
    rw [cpymem, printed, Nat.zero_add]
  have hstart : ∀ next : Output → Except Fault Output, (do
      let out ← fmtString maxErrorStr (printed Cells.empty 0 (timeText tm)) (bytes " [%s] ")
        [.str (errLevels level)]
      let out ← fmtString maxErrorStr out (bytes " %p ") [.word curPid]
      next out) = next (printed Cells.empty 0 (output (headPieces tm level curPid))) := by
    intro next
    have hpieces := hrun
    rw [headPieces, runPieces_append, runPieces_timePieces tm (show 40 ≤ maxErrorStr by decide),
      ok_bind, runPieces_append] at hpieces
    simp only [levelPieces_eq, pidPieces_eq]
    rw [← bind_assoc, hpieces]
    rfl
  simp only [logErrorCore, printTime_run, ok_bind, strcurrtime_printed (length_timeText tm)
    (fun _ => timeText_ne_zero), hcopy]
  rw [hstart]
  have hbad := fmtString_badArgument maxErrorStr front defined value extra
    (Cells.empty.storeUp 0 (output (headPieces tm level curPid)))
    (b := 0 + (output (headPieces tm level curPid)).length) (by rw [maxErrorStr]; omega)
  rw [printed, hbad]
  rfl

end Log

end MyNginx
