import MyNginx.App.Log
import MyNginx.Formatting.Truncation

/-!
# The window of a record

`log_error_core` prints the parts of a record one behind the other with the same end, so
that a record is one list of pieces. It stays in its array when each number that begins in
the window has its room; other than for truncation, a string without room does no harm, since
the pointer is set back for the newline, and the fraction of a double may end on the last
byte of the array, behind the window.
-/

namespace MyNginx

namespace Format

open Foundation

variable {cells : Cells UInt8} {b last size : Nat}

/-- What a piece does at the address `b`, below `last`, stays in an array of `size` bytes. -/
def Piece.Stays (last size b : Nat) : Piece → Prop
  | literal .. | percentSign _ | string .. => True
  | double spec frac =>
      Converts frac ∧ b + (double spec frac).output.length < last + max 1 spec.widthFrac ∧
        b + (double spec frac).output.length ≤ size
  | piece => b + piece.output.length ≤ last

instance : (piece : Piece) → Decidable (piece.Stays last size b)
  | .literal .. | .percentSign _ | .string .. => instDecidableTrue
  | .double .. => inferInstanceAs (Decidable (_ ∧ _ ∧ _))
  | .int .. | .pid .. => inferInstanceAs (Decidable (_ ≤ _))

/-- Every piece that begins below `last` stays in the array. -/
def Stays (last size b : Nat) : List Piece → Prop
  | [] => True
  | piece :: call =>
      b < last → piece.Stays last size b ∧ Stays last size (b + piece.output.length) call

instance decidableStays (last size b : Nat) : (call : List Piece) → Decidable (Stays last size b call)
  | [] => .isTrue trivial
  | piece :: call =>
      haveI := decidableStays last size (b + piece.output.length) call
      inferInstanceAs (Decidable (b < last → _ ∧ _))

theorem Piece.Stays.inside {piece : Piece} (h : piece.Stays last size b) (below : b < last)
    (prints : piece.Prints last b) (inside : last ≤ size) : b + piece.output.length ≤ size := by
  cases piece with
  | literal c plain => exact Nat.le_trans below inside
  | percentSign spec => exact Nat.le_trans below inside
  | int spec value => exact Nat.le_trans h inside
  | pid spec value => exact Nat.le_trans h inside
  | string spec lpStr => exact Nat.le_trans (Nat.le_of_lt prints) inside
  | double spec frac => exact h.2.2

/-- Only a string stays in the array without being printed. -/
theorem Piece.Stays.string {piece : Piece} (h : piece.Stays last size b)
    (not : ¬piece.Prints last b) : piece.isString = true := by
  cases piece with
  | literal c plain => exact absurd trivial not
  | percentSign spec => exact absurd trivial not
  | int spec value => exact absurd h not
  | pid spec value => exact absurd h not
  | string spec lpStr => rfl
  | double spec frac => exact absurd ⟨h.1, h.2.1⟩ not

theorem Piece.Prints.strays {piece : Piece} (h : piece.Prints last b)
    (not : ¬piece.Stays last size b) : size < b + piece.output.length := by
  cases piece with
  | literal c plain => exact absurd trivial not
  | percentSign spec => exact absurd trivial not
  | int spec value => exact absurd h not
  | pid spec value => exact absurd h not
  | string spec lpStr => exact absurd trivial not
  | double spec frac =>
      by_contra hle
      exact not ⟨h.1, h.2, Nat.not_lt.mp hle⟩

theorem Piece.stays_string {piece : Piece} (string : piece.isString = true) :
    piece.Stays last size b := by
  cases piece with
  | string spec lpStr => trivial
  | _ => exact Bool.noConfusion string

theorem stays_of_le (h : last ≤ b) (call : List Piece) : Stays last size b call := by
  cases call with
  | nil => trivial
  | cons piece call => exact fun hlt => absurd hlt (Nat.not_lt.mpr h)

theorem runPieces_stays (cells : Cells UInt8) {call : List Piece} (stays : Stays last size b call)
    (inside : last ≤ size) :
    ∃ out p, runPieces last ⟨cells, some b⟩ call = .ok out ∧ out.buf = some p ∧
      ∀ address, size ≤ address → out.cells address = cells address := by
  induction call generalizing cells b with
  | nil => exact ⟨_, b, rfl, rfl, fun _ _ => rfl⟩
  | cons piece call ih =>
      by_cases hlt : b < last
      · obtain ⟨hpiece, hrest⟩ := stays hlt
        by_cases hprints : piece.Prints last b
        · obtain ⟨out, p, hrun, hp, hkept⟩ := ih (cells.storeUp b piece.output) hrest
          refine ⟨out, p, ?_, hp, ?_⟩
          · rw [runPieces_cons hlt hprints]
            exact hrun
          · intro address hle
            rw [hkept address hle]
            exact Cells.storeUp_of_ge (Nat.le_trans (hpiece.inside hlt hprints inside) hle)
        · have hstring : piece.isString = true := hpiece.string hprints
          exact ⟨_, _, (runPieces_string cells hlt hprints hstring call).2, rfl, fun _ _ => rfl⟩
      · exact ⟨_, b, runPieces_stop (not_below (Nat.not_lt.mp hlt)) _, rfl, fun _ _ => rfl⟩

/-- Otherwise the pointer is lost, or a byte behind the array is overwritten. -/
theorem runPieces_strays (cells : Cells UInt8) {call : List Piece} (strays : ¬Stays last size b call)
    (inside : last ≤ size) :
    Lost (runPieces last ⟨cells, some b⟩ call) ∨
      ∃ out address, runPieces last ⟨cells, some b⟩ call = .ok out ∧ size ≤ address ∧
        (out.cells address).isSome := by
  induction call generalizing cells b with
  | nil => exact absurd trivial strays
  | cons piece call ih =>
      obtain ⟨hlt, hnot⟩ := Classical.not_imp.mp strays
      by_cases hprints : piece.Prints last b
      · rw [runPieces_cons hlt hprints]
        by_cases hpiece : piece.Stays last size b
        · exact ih _ fun hrest => hnot ⟨hpiece, hrest⟩
        · have hover := hprints.strays hpiece
          have hstop : last ≤ b + piece.output.length := by omega
          refine Or.inr ⟨_, size, runPieces_stop (not_below hstop) _, Nat.le_refl _, ?_⟩
          obtain ⟨i, rfl⟩ := Nat.exists_eq_add_of_le (Nat.le_trans (Nat.le_of_lt hlt) inside)
          change (cells.storeUp b piece.output (b + i)).isSome
          rw [Cells.storeUp_getElem _ _ (by omega)]
          rfl
      · cases hstring : piece.isString with
        | false => exact Or.inl (runPieces_lost hlt hprints hstring call)
        | true =>
            obtain ⟨hend, -⟩ := runPieces_string cells hlt hprints hstring call
            exact absurd ⟨Piece.stays_string hstring, stays_of_le hend call⟩ hnot

theorem runPieces_append (out : Output) (front back : List Piece) :
    runPieces last out (front ++ back) = (do
      let out ← runPieces last out front
      runPieces last out back) := by
  induction front generalizing out with
  | nil => rfl
  | cons piece front ih =>
      rw [List.cons_append, runPieces, runPieces]
      cases hbelow : out.below last with
      | false => rw [if_neg Bool.false_ne_true, if_neg Bool.false_ne_true, ok_bind,
          runPieces_stop hbelow]
      | true =>
          rw [if_pos rfl, if_pos rfl, bind_assoc]
          congr 1
          funext out
          exact ih out

end Format

namespace Log

open Foundation Format

/-! ### The pieces of a record -/

/-- A directive without flags. -/
def plain : Spec := ⟨[], [], none⟩

def twoDigits : Spec := ⟨[0, 2], [], none⟩

/-- A literal character of a format. -/
def char (c : UInt8) (plain : c ≠ 0 ∧ c ≠ percent) : Piece := .literal c plain

def timePieces (tm : Tm) : List Piece :=
  [.int ⟨[4], [], none⟩ (tm.year + 1900), char 47 (by decide), .int twoDigits (tm.mon + 1),
    char 47 (by decide), .int twoDigits tm.mday, char 32 (by decide), .int twoDigits tm.hour,
    char 58 (by decide), .int twoDigits tm.min, char 58 (by decide), .int twoDigits tm.sec]

def levelPieces (level : Level) : List Piece :=
  [char 32 (by decide), char 91 (by decide), .string plain (errLevels level), char 93 (by decide),
    char 32 (by decide)]

def pidPieces (curPid : BitVec 32) : List Piece :=
  [char 32 (by decide), .pid plain curPid, char 32 (by decide)]

def numberPieces (errnum : BitVec 32) : List Piece :=
  [char 32 (by decide), char 91 (by decide), .int plain errnum, char 58 (by decide),
    char 32 (by decide)]

def errnoPieces (strerror : BitVec 32 → List UInt8) (errnum : BitVec 32) : List Piece :=
  if errnum ≠ 0 then numberPieces errnum ++ [.string plain (strerror errnum), char 93 (by decide)]
  else []

/-- All of a record but the newline. -/
def record (tm : Tm) (curPid : BitVec 32) (strerror : BitVec 32 → List UInt8) (level : Level)
    (errnum : BitVec 32) (call : List Piece) : List Piece :=
  timePieces tm ++ (levelPieces level ++ (pidPieces curPid ++
    (call ++ errnoPieces strerror errnum)))

/-- What `log_error_core` and its helpers pass to `fmt_string`. -/
theorem printTime_eq (tm : Tm) :
    printTime tm = runPieces (2 ^ 64 - 1) (Output.start 0) (timePieces tm) := by
  rw [← fmtString_eq]
  rfl

theorem levelPieces_eq (last : Nat) (out : Output) (level : Level) :
    fmtString last out (bytes " [%s] ") [.str (errLevels level)] =
      runPieces last out (levelPieces level) := by
  rw [← fmtString_eq]
  rfl

theorem pidPieces_eq (last : Nat) (out : Output) (curPid : BitVec 32) :
    fmtString last out (bytes " %p ") [.word curPid] = runPieces last out (pidPieces curPid) := by
  rw [← fmtString_eq]
  rfl

theorem logErrno_eq (strerror : BitVec 32 → List UInt8) (last : Nat) (out : Output)
    {errnum : BitVec 32} (h : errnum ≠ 0) :
    logErrno strerror last out errnum = runPieces last out (errnoPieces strerror errnum) := by
  rw [errnoPieces, if_pos h, runPieces_append]
  simp only [← fmtString_eq]
  rfl

/-! ### The time -/

theorem length_signed_le (zero : UInt8) (hex : Base) {width : Nat} (h : width ≠ 0) (i64 : Int) :
    (signed zero hex width i64).length ≤ width + 1 := by
  rw [signed, List.length_append, length_padded, if_neg h, signText]
  split
  · exact Nat.le_of_eq (Nat.add_comm 1 width)
  · exact Nat.le_trans (Nat.le_of_eq (Nat.zero_add width)) (Nat.le_succ width)

theorem digit_ne_zero (d : Fin 10) : Base.decimal.digit d ≠ 0 := by
  revert d
  decide

theorem unitsOf_ne_zero {n : Nat} {c : UInt8} (h : c ∈ unitsOf .decimal n) : c ≠ 0 := by
  simp only [unitsOf] at h
  split at h
  · rw [List.mem_singleton] at h
    exact h ▸ by decide
  · obtain ⟨d, hd, rfl⟩ := List.mem_map.mp h
    exact digit_ne_zero ⟨d, Nat.digits_lt_base (by decide) hd⟩

theorem signed_ne_zero {zero : UInt8} (h : zero ≠ 0) {width : Nat} {i64 : Int} {c : UInt8}
    (mem : c ∈ signed zero .decimal width i64) : c ≠ 0 := by
  rcases List.mem_append.mp mem with hsign | hnumber
  · rw [signText] at hsign
    split at hsign
    · rw [List.mem_singleton] at hsign
      exact hsign ▸ by decide
    · cases hsign
  · rcases List.mem_append.mp hnumber with hpad | hunit
    · rw [List.eq_of_mem_replicate hpad]
      exact h
    · rw [List.mem_reverse] at hunit
      exact unitsOf_ne_zero (List.mem_of_mem_take hunit)

/-- The text of the time. -/
def timeText (tm : Tm) : List UInt8 := output (timePieces tm)

theorem timeText_eq (tm : Tm) :
    timeText tm = signed space .decimal 4 (tm.year + 1900).toInt ++ (47 ::
      (signed digitZero .decimal 2 (tm.mon + 1).toInt ++ (47 ::
        (signed digitZero .decimal 2 tm.mday.toInt ++ (32 ::
          (signed digitZero .decimal 2 tm.hour.toInt ++ (58 ::
            (signed digitZero .decimal 2 tm.min.toInt ++ (58 ::
              (signed digitZero .decimal 2 tm.sec.toInt ++ [])))))))))) := rfl

theorem length_timeText (tm : Tm) : (timeText tm).length < 40 := by
  have four : 4 ≠ 0 := by decide
  have two : 2 ≠ 0 := by decide
  have hyear := length_signed_le space .decimal four (tm.year + 1900).toInt
  have htwo := fun i64 => length_signed_le digitZero .decimal two i64
  have hmon := htwo (tm.mon + 1).toInt
  have hmday := htwo tm.mday.toInt
  have hhour := htwo tm.hour.toInt
  have hmin := htwo tm.min.toInt
  have hsec := htwo tm.sec.toInt
  rw [timeText_eq]
  simp only [List.length_append, List.length_cons, List.length_nil]
  omega

theorem timeText_ne_zero {tm : Tm} {c : UInt8} (h : c ∈ timeText tm) : c ≠ 0 := by
  have hyear := fun i64 => @signed_ne_zero space (by decide) 4 i64 c
  have htwo := fun i64 => @signed_ne_zero digitZero (by decide) 2 i64 c
  rw [timeText_eq] at h
  simp only [List.mem_append, List.mem_cons, List.not_mem_nil, or_false] at h
  rcases h with h | rfl | h | rfl | h | rfl | h | rfl | h | rfl | h
  · exact hyear _ h
  · decide
  · exact htwo _ h
  · decide
  · exact htwo _ h
  · decide
  · exact htwo _ h
  · decide
  · exact htwo _ h
  · decide
  · exact htwo _ h

theorem runPieces_timePieces (tm : Tm) {last : Nat} (h : 40 ≤ last) :
    runPieces last (Output.start 0) (timePieces tm) =
      .ok (printed Cells.empty 0 (timeText tm)) := by
  have hlength := length_timeText tm
  apply runPieces_full
  · intro piece hmem
    simp only [timePieces, List.mem_cons, List.not_mem_nil, or_false] at hmem
    rcases hmem with rfl | rfl | rfl | rfl | rfl | rfl | rfl | rfl | rfl | rfl | rfl <;> trivial
  · rw [timeText] at hlength
    omega

theorem printTime_run (tm : Tm) :
    printTime tm = .ok (printed Cells.empty 0 (timeText tm)) := by
  rw [printTime_eq, runPieces_timePieces tm (by omega)]

/-- The string in an array of zero bytes behind which a short text has been stored. -/
theorem strcurrtime_printed {text : List UInt8} (short : text.length < 40)
    (plain : ∀ c ∈ text, c ≠ 0) : strcurrtime (printed Cells.empty 0 text) = text := by
  have harray : ((List.range 40).map fun i =>
      ((printed Cells.empty 0 text).cells i).getD 0) = text ++ List.replicate (40 - text.length) 0 := by
    apply List.ext_getElem
    · simp only [List.length_map, List.length_range, List.length_append, List.length_replicate]
      omega
    · intro i hi _
      rw [List.length_map, List.length_range] at hi
      rw [List.getElem_map, List.getElem_range]
      change (Cells.empty.storeUp 0 text i).getD 0 = _
      by_cases hlt : i < text.length
      · have hbyte := Cells.storeUp_getElem Cells.empty 0 hlt
        rw [Nat.zero_add] at hbyte
        rw [hbyte, List.getElem_append_left hlt]
        rfl
      · rw [Cells.storeUp_of_ge (by omega), List.getElem_append_right (Nat.not_lt.mp hlt),
          List.getElem_replicate]
        rfl
  rw [strcurrtime, harray, cstr, List.takeWhile_append_of_pos (fun c hc => by simpa using plain c hc)]
  simp

/-! ### The record -/

variable {tm : Tm} {curPid : BitVec 32} {strerror : BitVec 32 → List UInt8} {level : Level}
  {errnum : BitVec 32}

/-- A record is printed piece by piece, and ended. -/
theorem logErrorCore_eq (call : List Piece) :
    logErrorCore tm curPid strerror level errnum (format call) (arguments call) = (do
      let out ← runPieces maxErrorStr (Output.start 0)
        (record tm curPid strerror level errnum call)
      endRecord maxErrorStr out) := by
  have hcopy : cpymem (timeText tm) = printed Cells.empty 0 (timeText tm) := by
    rw [cpymem, printed, Nat.zero_add]
  have herrno : ∀ out, (if errnum ≠ 0 then logErrno strerror maxErrorStr out errnum else .ok out) =
      runPieces maxErrorStr out (errnoPieces strerror errnum) := by
    intro out
    by_cases h : errnum ≠ 0
    · rw [if_pos h, logErrno_eq strerror maxErrorStr out h]
    · rw [if_neg h, errnoPieces, if_neg h]
      rfl
  simp only [logErrorCore, printTime_run, ok_bind, strcurrtime_printed (length_timeText tm)
    (fun _ => timeText_ne_zero), hcopy, levelPieces_eq, pidPieces_eq, fmtString_eq, herrno]
  simp only [record, runPieces_append, runPieces_timePieces tm (show 40 ≤ maxErrorStr by decide),
    ok_bind, bind_assoc]

/-- The newline goes to an address below the end of the window. -/
theorem endRecord_some {out : Output} {p last : Nat} (hp : out.buf = some p) (h : 1 < last) :
    ∃ address, address < last ∧
      endRecord last out = .ok ⟨out.cells.store address newline, some (address + 1)⟩ := by
  simp only [endRecord, hp]
  refine ⟨if last - 1 ≤ p then last - 1 - 1 else p, ?_, rfl⟩
  split <;> omega

theorem endRecord_null {out : Output} (h : out.buf = none) (last : Nat) :
    endRecord last out = .error .nullPointer := by
  simp only [endRecord, h]

/-- Nothing is stored from the address `size` on. -/
def WritesBelow (size : Nat) (out : Output) : Prop :=
  ∀ address, (out.cells address).isSome → address < size

/-- The function composes its record, and writes inside its two arrays only. -/
structure RecordSafe (tm : Tm) (curPid : BitVec 32) (strerror : BitVec 32 → List UInt8)
    (level : Level) (errnum : BitVec 32) (fmt : List UInt8) (args : List Arg) : Prop where
  time : ∃ out, printTime tm = .ok out ∧ WritesBelow 40 out
  record : ∃ out, logErrorCore tm curPid strerror level errnum fmt args = .ok out ∧
    WritesBelow (maxErrorStr + 1) out

theorem printTime_safe (tm : Tm) : ∃ out, printTime tm = .ok out ∧ WritesBelow 40 out := by
  refine ⟨_, printTime_run tm, ?_⟩
  intro address hsome
  simp only [printed] at hsome
  have hrange := Cells.storeUp_empty_isSome.mp hsome
  have hlength := length_timeText tm
  omega

/-- A store keeps what is behind the array. -/
theorem isSome_store {cells : Cells UInt8} {address : Nat} (h : (cells address).isSome)
    (other : Nat) (c : UInt8) : (cells.store other c address).isSome := by
  by_cases heq : address = other
  · rw [heq, Cells.store_self]
    rfl
  · rw [Cells.store_ne heq]
    exact h

theorem recordSafe_iff (call : List Piece) :
    RecordSafe tm curPid strerror level errnum (format call) (arguments call) ↔
      Stays maxErrorStr (maxErrorStr + 1) 0 (record tm curPid strerror level errnum call) := by
  have hlast : 1 < maxErrorStr := by decide
  constructor
  · intro safe
    obtain ⟨out, hrun, hbelow⟩ := safe.record
    rw [logErrorCore_eq] at hrun
    by_contra hstrays
    cases hpieces : runPieces maxErrorStr (Output.start 0)
        (record tm curPid strerror level errnum call) with
    | error fault =>
        rw [hpieces] at hrun
        cases hrun
    | ok before =>
        rw [hpieces, ok_bind] at hrun
        cases hbuf : before.buf with
        | none =>
            rw [endRecord_null hbuf] at hrun
            cases hrun
        | some p =>
            obtain ⟨newlineAt, -, hend⟩ := endRecord_some hbuf hlast
            obtain rfl := Except.ok.inj (hend.symm.trans hrun)
            rcases runPieces_strays Cells.empty hstrays (Nat.le_succ _) with
              hlost | ⟨other, address, hother, hle, hsome⟩
            · rw [hlost before hpieces] at hbuf
              cases hbuf
            · obtain rfl : before = other := Except.ok.inj (hpieces.symm.trans hother)
              exact absurd (hbelow address (isSome_store hsome _ _)) (Nat.not_lt.mpr hle)
  · intro stays
    refine ⟨printTime_safe tm, ?_⟩
    obtain ⟨out, p, hrun, hp, hkept⟩ :=
      runPieces_stays Cells.empty stays (Nat.le_succ _)
    obtain ⟨address, hlt, hend⟩ := endRecord_some hp hlast
    refine ⟨_, by rw [logErrorCore_eq, Output.start, hrun, ok_bind, hend], ?_⟩
    intro other hsome
    by_contra hle
    have hne : other ≠ address := by omega
    change (out.cells.store address newline other).isSome at hsome
    rw [Cells.store_ne hne, hkept other (Nat.not_lt.mp hle)] at hsome
    exact Bool.noConfusion hsome

/-- A call is truncated safely exactly if its doubles can be converted and each piece that
begins in its window has the room it needs; the log writes inside its arrays exactly if each
piece of the record that begins in the window stays in the array. -/
theorem formatting_bounded_iff (call : List Piece) (b room : Nat) (tm : Tm) (curPid : BitVec 32)
    (strerror : BitVec 32 → List UInt8) (level : Level) (errnum : BitVec 32) :
    (Truncates b room (format call) (arguments call) ↔
      (∀ piece ∈ call, piece.Defined) ∧ Fits (b + room) b call) ∧
    (RecordSafe tm curPid strerror level errnum (format call) (arguments call) ↔
      Stays maxErrorStr (maxErrorStr + 1) 0 (record tm curPid strerror level errnum call)) :=
  ⟨truncates_iff call b room, recordSafe_iff call⟩

/-- A time of day, for the records below. -/
def noon : Tm := ⟨126, 0, 5, 12, 0, 0⟩

/-- `%d` with 12345 and three bytes of room returns a null pointer; in the log, behind a long
string, the newline is stored through it. -/
theorem number_without_room :
    ¬Truncates 0 3 (bytes "%d") [.word 12345] ∧
      ¬RecordSafe noon 4711 (fun _ => []) .crit 0 (bytes "%s%d")
        [.str (List.replicate 2012 97), .word 12345] := by
  constructor
  · rintro ⟨whole, text, out, -, hrun, hshows, -⟩
    have hnull : (fmtString (0 + 3) (Output.start 0) (bytes "%d") [.word 12345]).map (·.buf) =
        .ok none := by decide
    rw [hrun] at hnull
    have hbuf : out.buf = none := Except.ok.inj hnull
    rw [hshows.buf] at hbuf
    cases hbuf
  · intro safe
    obtain ⟨out, hrun, -⟩ := safe.record
    have hfault : (logErrorCore noon 4711 (fun _ => []) .crit 0 (bytes "%s%d")
        [.str (List.replicate 2012 97), .word 12345]).map (·.buf) = .error .nullPointer := by
      decide +kernel
    rw [hrun] at hfault
    cases hfault

end Log

end MyNginx
