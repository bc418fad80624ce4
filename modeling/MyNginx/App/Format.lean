import Mathlib
import MyNginx.App.FuncString
import MyNginx.Foundation.Cells

/-!
# Formatting into a window

`fmt_string` prints from `buf` on and means to stay below `last`. Addresses are natural
numbers, and the null pointer, which `ui64_string` and `frac_string` return when they lack
room, is no address. The pointer `buf + (width - 1)` is not reduced: a width that would
carry it past the end of the address space lacks room as well. The loop counters of type
`int` are unbounded.

A double is the rational number it stands for, or none if it is an infinity or no number.
The source also computes a scaled fraction for `%f` and uses it nowhere; what it hands to
`frac_string` is the whole number, converted to an integer.
-/

namespace MyNginx

namespace Format

open Foundation

abbrev percent : UInt8 := 37
abbrev minus : UInt8 := 45
abbrev dot : UInt8 := 46
abbrev digitZero : UInt8 := 48
abbrev digitNine : UInt8 := 57
abbrev letterX : UInt8 := 88
abbrev letterD : UInt8 := 100
abbrev letterF : UInt8 := 102
abbrev letterP : UInt8 := 112
abbrev letterS : UInt8 := 115
abbrev letterU : UInt8 := 117
abbrev letterx : UInt8 := 120

/-- What makes a call undefined. -/
inductive Fault where
  | nullPointer
  | pastEnd
  | badArgument
  | badConversion
  | outOfFuel
  deriving DecidableEq, Repr

/-- An argument: an `int`, `u_int` or `pid_t`, a string, or a `double`. -/
inductive Arg where
  | word (value : BitVec 32)
  | str (lpStr : List UInt8)
  | double (frac : Option ℚ)
  deriving DecidableEq

/-- What has been stored so far, and the pointer behind it. -/
structure Output where
  cells : Cells UInt8
  buf : Option Nat

namespace Output

/-- The start of a buffer at the address `buf`. -/
def start (buf : Nat) : Output := ⟨Cells.empty, some buf⟩

/-- `*buf++ = c`. -/
def put (c : UInt8) (out : Output) : Except Fault Output :=
  match out.buf with
  | none => .error .nullPointer
  | some buf => .ok ⟨out.cells.store buf c, some (buf + 1)⟩

/-- `buf < last`, which the null pointer is as well. -/
def below (last : Nat) (out : Output) : Bool :=
  match out.buf with
  | none => true
  | some buf => buf < last

end Output

/-- The value of `hexadecimal`. -/
inductive Base where
  | decimal
  | lower
  | upper
  deriving DecidableEq, Repr

/-- A decimal digit, or an entry of `hex` or `HEX`. -/
def Base.digit (hexadecimal : Base) (unit : Nat) : UInt8 :=
  if unit < 10 then digitZero + UInt8.ofNat unit
  else
    match hexadecimal with
    | .upper => 55 + UInt8.ofNat unit
    | _ => 87 + UInt8.ofNat unit

/-- What the digit loops push, the unit place first. The decimal one pushes at least one
digit. -/
def unitsOf (hexadecimal : Base) (ui64 : Nat) : List UInt8 :=
  match hexadecimal with
  | .decimal => if ui64 = 0 then [digitZero] else (Nat.digits 10 ui64).map Base.decimal.digit
  | _ => (Nat.digits 16 ui64).map hexadecimal.digit

/-- `ui64_string`. -/
def ui64String (last ui64 : Nat) (zero : UInt8) (hexadecimal : Base) (width : Nat)
    (out : Output) : Except Fault Output :=
  match out.buf with
  | none => .error .nullPointer
  | some buf =>
      let unitQue := unitsOf hexadecimal ui64
      let width := if width = 0 then unitQue.length else width
      let nonZero := min unitQue.length width
      -- `buf + (width - 1) < last`; the digits go downwards from that address.
      if buf + width ≤ last then
        let cells := out.cells.storeDown (buf + width) (unitQue.take nonZero)
        .ok ⟨cells.storeDown (buf + width - nonZero) (List.replicate (width - nonZero) zero),
          some (buf + width)⟩
      else .ok ⟨out.cells, none⟩

/-- `frac_string`; the digits come from a stack, so the first ones are kept. -/
def fracString (last ui64 : Nat) (zero : UInt8) (hexadecimal : Base) (widthFrac : Nat)
    (out : Output) : Except Fault Output :=
  match out.buf with
  | none => .error .nullPointer
  | some buf =>
      let unitStk := (unitsOf hexadecimal ui64).reverse
      let widthFrac := if widthFrac = 0 then unitStk.length else widthFrac
      let nonZero := min unitStk.length widthFrac
      if buf < last then
        let cells := out.cells.storeUp buf (unitStk.take nonZero)
        .ok ⟨cells.storeUp (buf + nonZero) (List.replicate (widthFrac - nonZero) zero),
          some (buf + widthFrac)⟩
      else .ok ⟨out.cells, none⟩

def isDigit (c : UInt8) : Bool := digitZero ≤ c ∧ c ≤ digitNine

/-- The loops that read a width, in unsigned arithmetic of 64 bits. -/
def readNumber (width : Nat) : List UInt8 → Nat × List UInt8
  | [] => (width, [])
  | c :: fmt =>
      if isDigit c then readNumber ((width * 10 + (c.toNat - digitZero.toNat)) % 2 ^ 64) fmt
      else (width, c :: fmt)

structure Flags where
  sign : Bool
  hex : Base
  widthFrac : Nat

/-- The loop over the flags, which a precision ends. -/
def readFlags (flags : Flags) : List UInt8 → Flags × List UInt8
  | [] => (flags, [])
  | c :: fmt =>
      if c = letterU then readFlags { flags with sign := false } fmt
      else if c = letterX then readFlags { flags with sign := false, hex := .upper } fmt
      else if c = letterx then readFlags { flags with sign := false, hex := .lower } fmt
      else if c = dot then
        let (widthFrac, fmt) := readNumber flags.widthFrac fmt
        ({ flags with widthFrac }, fmt)
      else (flags, c :: fmt)

/-- The end of `fmt_string`'s loop body, for a signed number. -/
def signedString (last : Nat) (i64 : Int) (zero : UInt8) (hex : Base) (width : Nat)
    (out : Output) : Except Fault Output := do
  let out ← (if i64 < 0 then out.put minus else .ok out)
  ui64String last i64.natAbs zero hex width out

/-- The conversion of a number that is not negative to `int64_t`, undefined out of range. -/
def toInt64 (frac : ℚ) : Except Fault Nat :=
  if frac.floor < 2 ^ 63 then .ok frac.floor.toNat else .error .badConversion

/-- `case 'f'`. -/
def doubleString (last : Nat) (frac : Option ℚ) (zero : UInt8) (width widthFrac : Nat)
    (out : Output) : Except Fault Output := do
  match frac with
  | none => .error .badConversion
  | some frac =>
      let out ← (if frac < 0 then out.put minus else .ok out)
      let frac := if frac < 0 then -frac else frac
      let ui64 ← toInt64 frac
      let out ← ui64String last ui64 zero .decimal width out
      if widthFrac = 0 then .ok out
      else
        let out ← (if out.below last then out.put dot else .ok out)
        fracString last frac.floor.toNat digitZero .decimal widthFrac out

/-- `case 's'`: the string is copied if it ends before `last`, and skipped in any case. -/
def copyString (last : Nat) (lpStr : List UInt8) (out : Output) : Except Fault Output :=
  match out.buf with
  | none => .error .nullPointer
  | some buf =>
      let size := lpStr.length
      .ok ⟨if buf + size < last then out.cells.storeUp buf lpStr else out.cells, some (buf + size)⟩

/-- The `switch` behind the flags. Its default case copies the terminator of a format that
ends here and steps over it. -/
def dispatch (last : Nat) (out : Output) (zero : UInt8) (width : Nat) (flags : Flags)
    (fmt : List UInt8) (args : List Arg) : Except Fault (Output × List UInt8 × List Arg) :=
  match fmt with
  | [] => .error .pastEnd
  | c :: fmt =>
      if c = percent then do
        let out ← out.put percent
        return (out, fmt, args)
      else if c = letterD then
        match args with
        | .word value :: args => do
            let out ← (if flags.sign then signedString last value.toInt zero flags.hex width out
              else ui64String last value.toNat zero flags.hex width out)
            return (out, fmt, args)
        | _ => .error .badArgument
      else if c = letterS then
        match args with
        | .str lpStr :: args => do
            let out ← copyString last (cstr lpStr) out
            return (out, fmt, args)
        | _ => .error .badArgument
      else if c = letterP then
        match args with
        | .word value :: args => do
            let out ← signedString last value.toInt zero flags.hex width out
            return (out, fmt, args)
        | _ => .error .badArgument
      else if c = letterF then
        match args with
        | .double frac :: args => do
            let out ← doubleString last frac zero width flags.widthFrac out
            return (out, fmt, args)
        | _ => .error .badArgument
      else do
        let out ← out.put c
        return (out, fmt, args)

/-- The body of the loop behind a `%`. -/
def directive (last : Nat) (out : Output) (fmt : List UInt8) (args : List Arg) :
    Except Fault (Output × List UInt8 × List Arg) :=
  let zero := if fmt.head? = some digitZero then digitZero else space
  let (width, fmt) := readNumber 0 fmt
  let (flags, fmt) := readFlags ⟨true, .decimal, 0⟩ fmt
  dispatch last out zero width flags fmt args

/-- The loop of `fmt_string`, for at most `fuel` rounds. -/
def fmtLoop (last : Nat) : Nat → Output → List UInt8 → List Arg → Except Fault Output
  | _, out, [], _ => .ok out
  | 0, _, _, _ => .error .outOfFuel
  | fuel + 1, out, c :: fmt, args =>
      if out.below last then
        if c = percent then do
          let (out, fmt, args) ← directive last out fmt args
          fmtLoop last fuel out fmt args
        else do
          let out ← out.put c
          fmtLoop last fuel out fmt args
      else .ok out

/-- `fmt_string`. Every round reads a byte of the format. -/
def fmtString (last : Nat) (out : Output) (fmt : List UInt8) (args : List Arg) :
    Except Fault Output :=
  fmtLoop last fmt.length out fmt args

end Format

end MyNginx
