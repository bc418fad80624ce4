import MyNginx.App.Log

/-!
# The log and its level

`log_s` has the level and the descriptor of the log. A record is composed for every call of
`log_error_core`, and written if its level is not above the one of the log. For the programs
that call it, a call is its arguments.
-/

namespace MyNginx

namespace Log

open Format

/-- The number of a level, which `err_levels` is indexed with. -/
def Level.number : Level → Int
  | .stderr => 0
  | .emerg => 1
  | .alert => 2
  | .crit => 3
  | .error => 4
  | .warn => 5
  | .notice => 6
  | .info => 7
  | .debug => 8

/-- A call of `log_error_core`. -/
structure Call where
  level : Level
  errnum : BitVec 32
  fmt : List UInt8
  args : List Arg
  deriving DecidableEq

/-- The calls that are written at the level `logLevel`, the negation of the test in front of
`write`. -/
def Call.written (logLevel : Int) (call : Call) : Bool := call.level.number ≤ logLevel

end Log

end MyNginx
