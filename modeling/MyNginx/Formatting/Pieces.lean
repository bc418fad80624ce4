import MyNginx.App.Format

/-!
# Calls with a supported format

A call of `fmt_string` whose format is made of literals and the supported directives, with
the arguments that these take, is a list of pieces: `format` and `arguments` are what the
function receives, `output` is what the pieces print one behind the other. `fmtString_eq`
takes the reading of the format away: the function does what the pieces do in their order,
as long as the pointer is below the end of the window.
-/

namespace MyNginx

namespace Format

open Foundation

/-! ### Pieces -/

inductive Flag where
  | u
  | X
  | x
  deriving DecidableEq, Repr

def Flag.byte : Flag → UInt8
  | u => letterU
  | X => letterX
  | x => letterx

/-- The base after a flag; only `u` leaves it. -/
def Flag.hex (hex : Base) : Flag → Base
  | u => hex
  | X => .upper
  | x => .lower

/-- Digits are written as numerals. -/
instance neZeroTen : NeZero 10 := ⟨by decide⟩

def digitByte (d : Fin 10) : UInt8 := digitZero + UInt8.ofNat d

/-- One more digit of a number, in 64 bits. -/
def pushDigit (n : Nat) (d : Fin 10) : Nat := (n * 10 + d.val) % 2 ^ 64

/-- What may stand between the `%` and the letter of a directive. -/
structure Spec where
  digits : List (Fin 10)
  flags : List Flag
  precision : Option (List (Fin 10))
  deriving DecidableEq

namespace Spec

def spelling (spec : Spec) : List UInt8 :=
  spec.digits.map digitByte ++ (spec.flags.map Flag.byte ++
    match spec.precision with
    | none => []
    | some digits => dot :: digits.map digitByte)

def number (digits : List (Fin 10)) : Nat := digits.foldl pushDigit 0

def width (spec : Spec) : Nat := number spec.digits

/-- The padding. -/
def zero (spec : Spec) : UInt8 := if spec.digits.head? = some 0 then digitZero else space

def sign (spec : Spec) : Bool := spec.flags.isEmpty

def hex (spec : Spec) : Base := spec.flags.foldl Flag.hex .decimal

def widthFrac (spec : Spec) : Nat := number (spec.precision.getD [])

end Spec

/-- A literal byte, `%%`, or a directive with its argument. -/
inductive Piece where
  | literal (c : UInt8) (plain : c ≠ 0 ∧ c ≠ percent)
  | percentSign (spec : Spec)
  | int (spec : Spec) (value : BitVec 32)
  | pid (spec : Spec) (value : BitVec 32)
  | string (spec : Spec) (lpStr : List UInt8)
  | double (spec : Spec) (frac : Option ℚ)

/-! ### Texts -/

/-- The digits of a number, in a field. -/
def padded (zero : UInt8) (hexadecimal : Base) (width ui64 : Nat) : List UInt8 :=
  let units := unitsOf hexadecimal ui64
  let width := if width = 0 then units.length else width
  List.replicate (width - min units.length width) zero ++
    (units.take (min units.length width)).reverse

def signText (negative : Prop) [Decidable negative] : List UInt8 :=
  if negative then [minus] else []

def signed (zero : UInt8) (hexadecimal : Base) (width : Nat) (i64 : Int) : List UInt8 :=
  signText (i64 < 0) ++ padded zero hexadecimal width i64.natAbs

/-- What stands for the fraction. -/
def fractionText (widthFrac ui64 : Nat) : List UInt8 :=
  let units := (unitsOf .decimal ui64).reverse
  units.take (min units.length widthFrac) ++
    List.replicate (widthFrac - min units.length widthFrac) digitZero

/-- The sign of a double and its whole part. -/
def wholeText (zero : UInt8) (width : Nat) (frac : ℚ) : List UInt8 :=
  signText (frac < 0) ++ padded zero .decimal width |frac|.floor.toNat

def doubleText (zero : UInt8) (width widthFrac : Nat) (frac : ℚ) : List UInt8 :=
  wholeText zero width frac ++
    if widthFrac = 0 then [] else dot :: fractionText widthFrac |frac|.floor.toNat

namespace Piece

def spelling : Piece → List UInt8
  | literal c _ => [c]
  | percentSign spec => percent :: (spec.spelling ++ [percent])
  | int spec _ => percent :: (spec.spelling ++ [letterD])
  | pid spec _ => percent :: (spec.spelling ++ [letterP])
  | string spec _ => percent :: (spec.spelling ++ [letterS])
  | double spec _ => percent :: (spec.spelling ++ [letterF])

def arguments : Piece → List Arg
  | literal .. | percentSign _ => []
  | int _ value | pid _ value => [.word value]
  | string _ lpStr => [.str lpStr]
  | double _ frac => [.double frac]

def output : Piece → List UInt8
  | literal c _ => [c]
  | percentSign _ => [percent]
  | int spec value =>
      if spec.sign then signed spec.zero spec.hex spec.width value.toInt
      else padded spec.zero spec.hex spec.width value.toNat
  | pid spec value => signed spec.zero spec.hex spec.width value.toInt
  | string _ lpStr => cstr lpStr
  | double spec frac => frac.elim [] (doubleText spec.zero spec.width spec.widthFrac)

/-- What the loop does at the piece. -/
def run (last : Nat) (out : Output) : Piece → Except Fault Output
  | literal c _ => out.put c
  | percentSign _ => out.put percent
  | int spec value =>
      if spec.sign then signedString last value.toInt spec.zero spec.hex spec.width out
      else ui64String last value.toNat spec.zero spec.hex spec.width out
  | pid spec value => signedString last value.toInt spec.zero spec.hex spec.width out
  | string _ lpStr => copyString last (cstr lpStr) out
  | double spec frac => doubleString last frac spec.zero spec.width spec.widthFrac out

end Piece

def format (call : List Piece) : List UInt8 := call.flatMap Piece.spelling

def arguments (call : List Piece) : List Arg := call.flatMap Piece.arguments

/-- The text of a call, printed in full. -/
def output (call : List Piece) : List UInt8 := call.flatMap Piece.output

@[simp] theorem output_nil : output [] = [] := rfl

@[simp] theorem output_cons (piece : Piece) (call : List Piece) :
    output (piece :: call) = piece.output ++ output call := List.flatMap_cons

/-- The pieces in their order, while the pointer is below the end. -/
def runPieces (last : Nat) (out : Output) : List Piece → Except Fault Output
  | [] => .ok out
  | piece :: call =>
      if out.below last then do
        let out ← piece.run last out
        runPieces last out call
      else .ok out

/-! ### Reading a directive -/

theorem isDigit_digitByte (d : Fin 10) : isDigit (digitByte d) = true := by
  revert d
  decide

theorem digitByte_eq_zero (d : Fin 10) : digitByte d = digitZero ↔ d = 0 := by
  revert d
  decide

theorem toNat_digitByte (d : Fin 10) : (digitByte d).toNat - digitZero.toNat = d.val := by
  revert d
  decide

theorem readNumber_stop {width : Nat} {fmt : List UInt8}
    (stop : ∀ c ∈ fmt.head?, isDigit c = false) : readNumber width fmt = (width, fmt) := by
  cases fmt with
  | nil => rfl
  | cons c fmt =>
      have hc : isDigit c = false := stop c rfl
      rw [readNumber, hc]
      rfl

theorem readNumber_digits {fmt : List UInt8} (stop : ∀ c ∈ fmt.head?, isDigit c = false)
    (digits : List (Fin 10)) (width : Nat) :
    readNumber width (digits.map digitByte ++ fmt) =
      (digits.foldl pushDigit width, fmt) := by
  induction digits generalizing width with
  | nil => exact readNumber_stop stop
  | cons d digits ih =>
      rw [List.map_cons, List.cons_append, readNumber, isDigit_digitByte, if_pos rfl,
        toNat_digitByte, ih, List.foldl_cons, pushDigit]

/-- The byte ends the width, the flags and the precision. -/
def Stops (c : UInt8) : Prop :=
  isDigit c = false ∧ c ≠ letterU ∧ c ≠ letterX ∧ c ≠ letterx ∧ c ≠ dot

instance : DecidablePred Stops := fun _ => inferInstanceAs (Decidable (_ ∧ _))

/-- The precision, if there is one, and the letter. -/
theorem readFlags_precision {c : UInt8} (stops : Stops c) (fmt : List UInt8)
    (sign : Bool) (hex : Base) (precision : Option (List (Fin 10))) :
    readFlags ⟨sign, hex, 0⟩ ((match precision with
        | none => []
        | some digits => dot :: digits.map digitByte) ++ c :: fmt) =
      (⟨sign, hex, Spec.number (precision.getD [])⟩, c :: fmt) := by
  obtain ⟨hdigit, hu, hX, hx, hdot⟩ := stops
  cases precision with
  | none =>
      rw [List.nil_append, readFlags, if_neg hu, if_neg hX, if_neg hx, if_neg hdot]
      rfl
  | some digits =>
      have hstop : ∀ b ∈ (c :: fmt).head?, isDigit b = false := by
        intro b hb
        rw [List.head?_cons, Option.mem_some_iff] at hb
        exact hb ▸ hdigit
      have hnumber := readNumber_digits hstop digits 0
      rw [List.cons_append, readFlags, if_neg (by decide), if_neg (by decide), if_neg (by decide),
        if_pos rfl]
      simp only [hnumber]
      rfl

/-- The flags in front of that. -/
theorem readFlags_append (flags : List Flag) (sign : Bool) (hex : Base) (fmt : List UInt8) :
    readFlags ⟨sign, hex, 0⟩ (flags.map Flag.byte ++ fmt) =
      readFlags ⟨sign && flags.isEmpty, flags.foldl Flag.hex hex, 0⟩ fmt := by
  induction flags generalizing sign hex with
  | nil => simp
  | cons flag flags ih =>
      rw [List.map_cons, List.cons_append, List.foldl_cons, List.isEmpty_cons, Bool.and_false]
      cases flag with
      | u =>
          rw [Flag.byte, readFlags, if_pos rfl, ih]
          rfl
      | X =>
          rw [Flag.byte, readFlags, if_neg (by decide), if_pos rfl, ih]
          rfl
      | x =>
          rw [Flag.byte, readFlags, if_neg (by decide), if_neg (by decide), if_pos rfl, ih]
          rfl

/-- What follows the width. -/
def Spec.rest (spec : Spec) : List UInt8 :=
  spec.flags.map Flag.byte ++
    match spec.precision with
    | none => []
    | some digits => dot :: digits.map digitByte

theorem Spec.rest_stop {c : UInt8} (stops : Stops c) (spec : Spec) (fmt : List UInt8) :
    ∀ b ∈ (spec.rest ++ c :: fmt).head?, isDigit b = false := by
  obtain ⟨digits, flags, precision⟩ := spec
  intro b hb
  cases flags with
  | cons flag flags =>
      obtain rfl : flag.byte = b := by simpa [Spec.rest] using hb
      cases flag <;> decide
  | nil =>
      cases precision with
      | none =>
          obtain rfl : c = b := by simpa [Spec.rest] using hb
          exact stops.1
      | some digits =>
          obtain rfl : dot = b := by simpa [Spec.rest] using hb
          decide

/-- The width and the padding. -/
theorem readNumber_spelling {c : UInt8} (stops : Stops c) (spec : Spec)
    (fmt : List UInt8) :
    readNumber 0 (spec.spelling ++ c :: fmt) = (spec.width, spec.rest ++ c :: fmt) ∧
      (if (spec.spelling ++ c :: fmt).head? = some digitZero then digitZero else space) =
        spec.zero := by
  have hstop := spec.rest_stop stops fmt
  have hspelling : spec.spelling ++ c :: fmt =
      spec.digits.map digitByte ++ (spec.rest ++ c :: fmt) := List.append_assoc ..
  rw [hspelling]
  constructor
  · exact readNumber_digits hstop spec.digits 0
  · cases hdigits : spec.digits with
    | nil =>
        have hne : (spec.rest ++ c :: fmt).head? ≠ some digitZero := by
          intro hhead
          have hdigit := hstop digitZero hhead
          exact absurd hdigit (by decide)
        rw [List.map_nil, List.nil_append, if_neg hne, Spec.zero, hdigits]
        rfl
    | cons d digits =>
        have hd := digitByte_eq_zero d
        simp only [List.map_cons, List.cons_append, List.head?_cons, Option.some.injEq, hd,
          Spec.zero, hdigits]

/-- Everything between the `%` and the letter. -/
theorem directive_spelling {c : UInt8} (stops : Stops c) (last : Nat) (out : Output)
    (spec : Spec) (fmt : List UInt8) (args : List Arg) :
    directive last out (spec.spelling ++ c :: fmt) args =
      dispatch last out spec.zero spec.width ⟨spec.sign, spec.hex, spec.widthFrac⟩ (c :: fmt)
        args := by
  obtain ⟨hnumber, hzero⟩ := readNumber_spelling stops spec fmt
  simp only [directive, hzero, hnumber, Spec.rest, List.append_assoc, readFlags_append,
    Bool.true_and]
  rw [readFlags_precision stops]
  rfl

/-! ### The loop -/

theorem Piece.spelling_ne_nil (piece : Piece) : piece.spelling ≠ [] := by
  cases piece <;> exact List.cons_ne_nil _ _

/-- The body of the loop, at a byte of the format. -/
def body (last : Nat) (out : Output) (c : UInt8) (fmt : List UInt8) (args : List Arg) :
    Except Fault (Output × List UInt8 × List Arg) :=
  if c = percent then directive last out fmt args
  else do
    let out ← out.put c
    return (out, fmt, args)

theorem fmtLoop_cons (last fuel : Nat) (out : Output) (c : UInt8) (fmt : List UInt8)
    (args : List Arg) :
    fmtLoop last (fuel + 1) out (c :: fmt) args =
      if out.below last then do
        let (out, fmt, args) ← body last out c fmt args
        fmtLoop last fuel out fmt args
      else .ok out := by
  rw [fmtLoop, body]
  split
  · split
    · rfl
    · rw [bind_assoc]
      rfl
  · rfl

/-- A directive of the format, whatever its letter. -/
theorem body_directive {c : UInt8} (stops : Stops c) (last : Nat) (out : Output) (spec : Spec)
    (fmt : List UInt8) (args : List Arg) :
    body last out percent (spec.spelling ++ [c] ++ fmt) args =
      dispatch last out spec.zero spec.width ⟨spec.sign, spec.hex, spec.widthFrac⟩ (c :: fmt)
        args := by
  rw [body, if_pos rfl, List.append_assoc, List.singleton_append, directive_spelling stops]

/-- A byte of a piece, with the rest of it. -/
theorem Piece.spelling_eq (piece : Piece) :
    piece.spelling = piece.spelling.head piece.spelling_ne_nil :: piece.spelling.tail :=
  (List.cons_head_tail _).symm

/-- The loop body does what the piece says, and takes the arguments of the piece. -/
theorem body_piece (last : Nat) (out : Output) (piece : Piece) (fmt : List UInt8)
    (args : List Arg) :
    body last out (piece.spelling.head piece.spelling_ne_nil) (piece.spelling.tail ++ fmt)
      (piece.arguments ++ args) = (do
        let out ← piece.run last out
        return (out, fmt, args)) := by
  cases piece with
  | literal c plain => exact if_neg plain.2
  | percentSign spec =>
      change body last out percent (spec.spelling ++ [percent] ++ fmt) args = _
      rw [body_directive (by decide)]
      simp only [dispatch, Piece.run]
      rw [if_pos trivial]
  | int spec value =>
      change body last out percent (spec.spelling ++ [letterD] ++ fmt) (.word value :: args) = _
      rw [body_directive (by decide)]
      simp only [dispatch, Piece.run]
      rw [if_neg (by decide), if_pos trivial]
  | pid spec value =>
      change body last out percent (spec.spelling ++ [letterP] ++ fmt) (.word value :: args) = _
      rw [body_directive (by decide)]
      simp only [dispatch, Piece.run]
      rw [if_neg (by decide), if_neg (by decide), if_neg (by decide), if_pos trivial]
  | string spec lpStr =>
      change body last out percent (spec.spelling ++ [letterS] ++ fmt) (.str lpStr :: args) = _
      rw [body_directive (by decide)]
      simp only [dispatch, Piece.run]
      rw [if_neg (by decide), if_neg (by decide), if_pos trivial]
  | double spec frac =>
      change body last out percent (spec.spelling ++ [letterF] ++ fmt) (.double frac :: args) = _
      rw [body_directive (by decide)]
      simp only [dispatch, Piece.run]
      rw [if_neg (by decide), if_neg (by decide), if_neg (by decide), if_neg (by decide),
        if_pos trivial]

/-- One round at a piece. -/
theorem fmtLoop_piece {last : Nat} {out : Output} (below : out.below last = true) (fuel : Nat)
    (piece : Piece) (fmt : List UInt8) (args : List Arg) :
    fmtLoop last (fuel + 1) out (piece.spelling ++ fmt) (piece.arguments ++ args) = (do
      let out ← piece.run last out
      fmtLoop last fuel out fmt args) := by
  rw [piece.spelling_eq, List.cons_append, fmtLoop_cons, below, if_pos rfl, body_piece, bind_assoc]
  rfl

/-- The loop stops at the end of the window. -/
theorem fmtLoop_stop {last : Nat} {out : Output} (below : out.below last = false) {fuel : Nat}
    {fmt : List UInt8} (enough : fmt.length ≤ fuel) (args : List Arg) :
    fmtLoop last fuel out fmt args = .ok out := by
  cases fmt with
  | nil => cases fuel <;> rfl
  | cons c fmt =>
      cases fuel with
      | zero => cases enough
      | succ fuel => rw [fmtLoop, below, if_neg Bool.false_ne_true]

theorem fmtLoop_eq {last : Nat} (call : List Piece) {fuel : Nat}
    (enough : (format call).length ≤ fuel) (out : Output) :
    fmtLoop last fuel out (format call) (arguments call) = runPieces last out call := by
  induction call generalizing fuel out with
  | nil => cases fuel <;> rfl
  | cons piece call ih =>
      cases hbelow : out.below last with
      | false => rw [fmtLoop_stop hbelow enough, runPieces, hbelow, if_neg Bool.false_ne_true]
      | true =>
          have hpos : 0 < piece.spelling.length :=
            List.length_pos_iff.mpr piece.spelling_ne_nil
          rw [format, List.flatMap_cons, List.length_append] at enough
          cases fuel with
          | zero => omega
          | succ fuel =>
              have hrest : (format call).length ≤ fuel := by
                rw [format]
                omega
              rw [format, arguments, List.flatMap_cons, List.flatMap_cons, fmtLoop_piece hbelow,
                runPieces, hbelow, if_pos rfl]
              congr 1
              funext out
              exact ih hrest out

/-- What the function does is what the pieces do. -/
theorem fmtString_eq (last : Nat) (out : Output) (call : List Piece) :
    fmtString last out (format call) (arguments call) = runPieces last out call :=
  fmtLoop_eq call (Nat.le_refl _) out

end Format

end MyNginx
