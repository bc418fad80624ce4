import MyNginx.App.Format

/-!
# Composing a record of the log

`log_error_core` prints a record into `errstr`, an array of one byte more than
`MAX_ERROR_STR`: the time, the level, the process id, the message, the text of an error
number if there is one, and a newline. What `localtime_r` and `strerror` return are
parameters. The record is composed whatever the level; writing it out is left out.
-/

namespace MyNginx

open Foundation

namespace Log

open Format

def maxErrorStr : Nat := 2048

/-- The bytes of a literal in plain characters. -/
def bytes (literal : String) : List UInt8 := literal.toList.map fun c => UInt8.ofNat c.toNat

inductive Level where
  | stderr
  | emerg
  | alert
  | crit
  | error
  | warn
  | notice
  | info
  | debug
  deriving DecidableEq, Repr

/-- `err_levels`. -/
def errLevels : Level → List UInt8
  | .stderr => bytes "stderr"
  | .emerg => bytes "emerg"
  | .alert => bytes "alert"
  | .crit => bytes "crit"
  | .error => bytes "error"
  | .warn => bytes "warn"
  | .notice => bytes "notice"
  | .info => bytes "info"
  | .debug => bytes "debug"

/-- What `localtime_r` fills in. -/
structure Tm where
  year : BitVec 32
  mon : BitVec 32
  mday : BitVec 32
  hour : BitVec 32
  min : BitVec 32
  sec : BitVec 32
  deriving DecidableEq, Repr

/-- The array `strcurrtime` of 40 zero bytes after the time is printed into it; the end of
its window is the highest address. -/
def printTime (tm : Tm) : Except Fault Output :=
  fmtString (2 ^ 64 - 1) (Output.start 0) (bytes "%4d/%02d/%02d %02d:%02d:%02d")
    [.word (tm.year + 1900), .word (tm.mon + 1), .word tm.mday, .word tm.hour, .word tm.min,
      .word tm.sec]

/-- The string in it. -/
def strcurrtime (out : Output) : List UInt8 :=
  cstr ((List.range 40).map fun i => (out.cells i).getD 0)

/-- `cpymem` to the start of `errstr`. -/
def cpymem (src : List UInt8) : Output := ⟨Cells.empty.storeUp 0 src, some src.length⟩

/-- `log_errno`. -/
def logErrno (strerror : BitVec 32 → List UInt8) (last : Nat) (out : Output)
    (errnum : BitVec 32) : Except Fault Output := do
  let out ← fmtString last out (bytes " [%d: ") [.word errnum]
  fmtString last out (bytes "%s]") [.str (strerror errnum)]

/-- The newline, in front of the last byte of the window if the record is long. The null
pointer is no such case. -/
def endRecord (last : Nat) (out : Output) : Except Fault Output :=
  match out.buf with
  | none => .error .nullPointer
  | some p => Output.put newline ⟨out.cells, some (if last - 1 ≤ p then last - 1 - 1 else p)⟩

/-- `log_error_core`, up to the record in `errstr`. -/
def logErrorCore (tm : Tm) (curPid : BitVec 32) (strerror : BitVec 32 → List UInt8)
    (level : Level) (errnum : BitVec 32) (fmt : List UInt8) (args : List Arg) :
    Except Fault Output := do
  let last := maxErrorStr
  let time ← printTime tm
  let out := cpymem (strcurrtime time)
  let out ← fmtString last out (bytes " [%s] ") [.str (errLevels level)]
  let out ← fmtString last out (bytes " %p ") [.word curPid]
  let out ← fmtString last out fmt args
  let out ← (if errnum ≠ 0 then logErrno strerror last out errnum else .ok out)
  endRecord last out

end Log

end MyNginx
