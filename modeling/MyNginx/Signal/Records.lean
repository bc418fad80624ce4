import MyNginx.Formatting.ProcessId
import MyNginx.Signal.Signal

/-!
# The records of the signal handler

`log_error_core` composes a record before it looks at the level, so that a call may be
undefined although nothing would be written. The first line of the handler is undefined
exactly for a signal with a sender; the lines about children are defined, and give the
process id in the place of the signal or of the exit code.
-/

namespace MyNginx

namespace Signal

open Foundation Format Log

variable {tm : Tm} {curPid : BitVec 32} {strerror : BitVec 32 → List UInt8}

/-- The call is defined. -/
def Composes (tm : Tm) (curPid : BitVec 32) (strerror : BitVec 32 → List UInt8) (call : Call) :
    Prop :=
  ∃ out, logErrorCore tm curPid strerror call.level call.errnum call.fmt call.args = .ok out

theorem output_literals {text : List UInt8} {plain : ∀ c ∈ text, c ≠ 0 ∧ c ≠ percent} :
    output (literals text plain) = text := by
  induction text with
  | nil => rfl
  | cons c text ih =>
      rw [literals, List.pmap_cons, output_cons, ← literals, ih]
      rfl

theorem length_literals {text : List UInt8} {plain : ∀ c ∈ text, c ≠ 0 ∧ c ≠ percent} :
    (output (literals text plain)).length = text.length := by
  rw [output_literals]

theorem length_cstr_le (text : List UInt8) : (cstr text).length ≤ text.length :=
  (List.takeWhile_prefix _).length_le

theorem length_signame {sig : SignalT} (mem : sig ∈ signals) : sig.signame.length ≤ 15 := by
  revert sig
  decide

theorem length_append_output (front back : List Piece) :
    (output (front ++ back)).length = (output front).length + (output back).length := by
  rw [output, List.flatMap_append, List.length_append]
  rfl

theorem length_word (value : BitVec 32) : (Piece.int Log.plain value).output.length ≤ 11 :=
  length_signed_word_le space value

theorem defined_append {front back : List Piece} (hfront : ∀ piece ∈ front, piece.Defined)
    (hback : ∀ piece ∈ back, piece.Defined) : ∀ piece ∈ front ++ back, piece.Defined := by
  intro piece hmem
  exact (List.mem_append.mp hmem).elim (hfront piece) (hback piece)

theorem defined_signalFrom (signo : BitVec 32) (signame : List UInt8) :
    ∀ piece ∈ signalFrom signo signame, piece.Defined := by
  refine defined_append defined_literals (List.forall_mem_cons.mpr ⟨trivial, ?_⟩)
  exact defined_append defined_literals (List.forall_mem_cons.mpr ⟨trivial, defined_literals⟩)

theorem length_signalFrom (signo : BitVec 32) (signame : List UInt8) :
    (output (signalFrom signo signame)).length ≤ 40 + signame.length := by
  have hword := length_word signo
  have hname := length_cstr_le signame
  have hstring : (Piece.string Log.plain signame).output = cstr signame := rfl
  have htexts : (bytes "signal ").length = 7 ∧ (bytes " (").length = 2 ∧
      (bytes ") received from ").length = 16 := ⟨rfl, rfl, rfl⟩
  simp only [signalFrom, length_append_output, output_cons, List.length_append, length_literals,
    hstring, htexts]
  omega

theorem plain_signal : ∀ c ∈ bytes "signal ", c ≠ 0 ∧ c ≠ percent := plain_of_all (by decide)

theorem plain_bracket : ∀ c ∈ bytes " (", c ≠ 0 ∧ c ≠ percent := plain_of_all (by decide)

theorem plain_received : ∀ c ∈ bytes ") received ", c ≠ 0 ∧ c ≠ percent :=
  plain_of_all (by decide)

theorem plain_pid : ∀ c ∈ bytes "pid = ", c ≠ 0 ∧ c ≠ percent := plain_of_all (by decide)

theorem plain_mark : ∀ c ∈ bytes "!", c ≠ 0 ∧ c ≠ percent := plain_of_all (by decide)

/-- What is printed of a signal without a sender. -/
def receivedPieces (sig : SignalT) : List Piece :=
  literals (bytes "signal ") plain_signal ++
    .int Log.plain (BitVec.ofNat 32 sig.signo) ::
      (literals (bytes " (") plain_bracket ++ .string Log.plain sig.signame ::
        (literals (bytes ") received ") plain_received ++ [.string Log.plain []]))

/-- The first line of the handler is defined exactly if the signal has no sender. -/
theorem composes_signalReceived {sig : SignalT} (mem : sig ∈ signals) (siPid : BitVec 32) :
    Composes tm curPid strerror (signalReceived sig siPid) ↔ siPid = 0 := by
  have hname := length_signame mem
  constructor
  · rintro ⟨out, hok⟩
    by_contra hsender
    have hfront := length_signalFrom (BitVec.ofNat 32 sig.signo) sig.signame
    rw [signalReceived, if_pos hsender] at hok
    have hbad : Except.ok out = Except.error Fault.badArgument :=
      hok.symm.trans (logErrorCore_badArgument (signalFrom (BitVec.ofNat 32 sig.signo) sig.signame)
        (defined_signalFrom _ _) siPid [.str []] (by omega))
    cases hbad
  · rintro rfl
    have hword := length_word (BitVec.ofNat 32 sig.signo)
    have hcstr := length_cstr_le sig.signame
    have hstring : (Piece.string Log.plain sig.signame).output = cstr sig.signame := rfl
    have hempty : (Piece.string Log.plain []).output = [] := rfl
    have htexts : (bytes "signal ").length = 7 ∧ (bytes " (").length = 2 ∧
        (bytes ") received ").length = 11 := ⟨rfl, rfl, rfl⟩
    refine logErrorCore_ok (receivedPieces sig) ?_ ?_
    · refine defined_append defined_literals (List.forall_mem_cons.mpr ⟨trivial, ?_⟩)
      refine defined_append defined_literals (List.forall_mem_cons.mpr ⟨trivial, ?_⟩)
      exact defined_append defined_literals (List.forall_mem_singleton.mpr trivial)
    · simp only [receivedPieces, length_append_output, output_cons, List.length_append,
        length_literals, hstring, hempty, htexts, output_nil, List.length_nil]
      omega

/-- A text spells itself and takes no argument. -/
theorem format_literals {text : List UInt8} {plain : ∀ c ∈ text, c ≠ 0 ∧ c ≠ percent} :
    format (literals text plain) = text ∧ arguments (literals text plain) = [] := by
  induction text with
  | nil => exact ⟨rfl, rfl⟩
  | cons c text ih =>
      obtain ⟨hformat, harguments⟩ := @ih fun d hd => plain d (List.mem_cons_of_mem _ hd)
      constructor
      · rw [literals, List.pmap_cons, format, List.flatMap_cons, ← format, ← literals, hformat]
        rfl
      · rw [literals, List.pmap_cons, arguments, List.flatMap_cons, ← arguments, ← literals,
          harguments]
        rfl

/-- What is printed behind the process id of a child, which is not printed there. -/
def statusPieces (text : List UInt8) (plain : ∀ c ∈ text, c ≠ 0 ∧ c ≠ percent) (pid : BitVec 32) :
    List Piece :=
  literals text plain ++ .int Log.plain pid :: literals (bytes "!") plain_mark

/-- What is printed of a child. -/
def childPieces (text : List UInt8) (plain : ∀ c ∈ text, c ≠ 0 ∧ c ≠ percent) (pid : BitVec 32) :
    List Piece :=
  literals (bytes "pid = ") plain_pid ++ bigP :: statusPieces text plain pid

/-- A line `pid = %P` with one more number is the record of a line that has the letter in the
place of the process id, and the process id in the place of the other number. -/
theorem childLine_record (level : Level) {text : List UInt8}
    (plain : ∀ c ∈ text, c ≠ 0 ∧ c ≠ percent) (pid value : BitVec 32) :
    logErrorCore tm curPid strerror level 0
        (bytes "pid = " ++ (percent :: letterBigP :: (text ++ bytes "%d!")))
        [.word pid, .word value] =
      logErrorCore tm curPid strerror level 0 (format (childPieces text plain pid))
        (arguments (childPieces text plain pid)) := by
  refine logErrorCore_congr fun out => ?_
  have hfront : format (literals (bytes "pid = ") plain_pid) = bytes "pid = " ∧
      arguments (literals (bytes "pid = ") plain_pid) = [] := format_literals
  have hrest : format (statusPieces text plain pid) = text ++ bytes "%d!" ∧
      arguments (statusPieces text plain pid) = [.word pid] := by
    obtain ⟨hformat, harguments⟩ := @format_literals text plain
    constructor
    · rw [statusPieces, format, List.flatMap_append, ← format, hformat]
      rfl
    · rw [statusPieces, arguments, List.flatMap_append, ← arguments, harguments]
      rfl
  rw [fmtString_eq, childPieces, ← fmtString_processId _ _ [.word value], hfront.1, hfront.2,
    hrest.1, hrest.2]
  rfl

theorem length_childPieces {text : List UInt8} {plain : ∀ c ∈ text, c ≠ 0 ∧ c ≠ percent}
    (pid : BitVec 32) : (output (childPieces text plain pid)).length ≤ 20 + text.length := by
  have hword := length_word pid
  have hletter : bigP.output.length = 1 := rfl
  have htexts : (bytes "pid = ").length = 6 ∧ (bytes "!").length = 1 := ⟨rfl, rfl⟩
  simp only [childPieces, statusPieces, length_append_output, output_cons, List.length_append,
    length_literals, hletter, htexts]
  omega

theorem defined_childPieces {text : List UInt8} {plain : ∀ c ∈ text, c ≠ 0 ∧ c ≠ percent}
    (pid : BitVec 32) : ∀ piece ∈ childPieces text plain pid, piece.Defined := by
  refine defined_append defined_literals (List.forall_mem_cons.mpr ⟨trivial, ?_⟩)
  exact defined_append defined_literals (List.forall_mem_cons.mpr ⟨trivial, defined_literals⟩)

/-- What such a line shows. -/
theorem childLine_text (level : Level) {text : List UInt8}
    (plain : ∀ c ∈ text, c ≠ 0 ∧ c ≠ percent) (short : text.length ≤ 100) (pid value : BitVec 32) :
    logErrorCore tm curPid strerror level 0
        (bytes "pid = " ++ (percent :: letterBigP :: (text ++ bytes "%d!")))
        [.word pid, .word value] =
      .ok (printed Cells.empty 0 (output (headPieces tm level curPid) ++
        (bytes "pid = P" ++ (text ++ (signed space .decimal 0 pid.toInt ++ bytes "!\n"))))) := by
  have hlength := @length_childPieces text plain pid
  have houtput : output (childPieces text plain pid) =
      bytes "pid = P" ++ (text ++ (signed space .decimal 0 pid.toInt ++ bytes "!")) := by
    rw [childPieces, statusPieces, output, List.flatMap_append, List.flatMap_cons,
      List.flatMap_append, List.flatMap_cons, ← output, ← output, ← output, output_literals,
      output_literals, output_literals]
    rfl
  rw [childLine_record level plain pid value,
    logErrorCore_text (childPieces text plain pid) (defined_childPieces pid) (by omega), houtput]
  simp only [List.append_assoc]
  rfl

theorem composes_childLine (level : Level) {text : List UInt8}
    (plain : ∀ c ∈ text, c ≠ 0 ∧ c ≠ percent) (short : text.length ≤ 100) (pid value : BitVec 32) :
    Composes tm curPid strerror ⟨level, 0,
      bytes "pid = " ++ (percent :: letterBigP :: (text ++ bytes "%d!")),
      [.word pid, .word value]⟩ :=
  ⟨_, childLine_text level plain short pid value⟩

theorem composes_statusLine (pid status : BitVec 32) :
    Composes tm curPid strerror (statusLine pid status) := by
  rw [statusLine]
  split
  · exact @composes_childLine tm curPid strerror .alert (bytes " exited on signal ")
      (plain_of_all (by decide)) (by decide) pid (wtermsig status)
  · exact @composes_childLine tm curPid strerror .notice (bytes " exited with code ")
      (plain_of_all (by decide)) (by decide) pid (wexitstatus status)

/-- A text without directives is defined, with any error number. -/
theorem composes_text (level : Level) (errnum : BitVec 32) {text : List UInt8}
    (plain : ∀ c ∈ text, c ≠ 0 ∧ c ≠ percent) (short : text.length ≤ 1900) :
    Composes tm curPid strerror ⟨level, errnum, text, []⟩ := by
  have hlength : (output (literals text plain)).length ≤ 1900 :=
    Nat.le_trans (Nat.le_of_eq length_literals) short
  obtain ⟨out, hout⟩ : Composes tm curPid strerror
      ⟨level, errnum, format (literals text plain), arguments (literals text plain)⟩ :=
    logErrorCore_ok (literals text plain) defined_literals hlength
  rw [format_literals.1, format_literals.2] at hout
  exact ⟨out, hout⟩

theorem composes_waitpidFailed (err : BitVec 32) :
    Composes tm curPid strerror (waitpidFailed err) :=
  composes_text .info err (plain_of_all (by decide)) (by decide)

end Signal

end MyNginx
