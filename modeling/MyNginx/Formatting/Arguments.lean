import Mathlib
import MyNginx.Formatting.Record

/-!
# Arguments and directives

The calls of the log use the supported directives and `%P`, for a process id.
`fmt_string` does not know `%P`: it copies the letter and leaves the argument to the next
directive that takes one. So every directive takes the argument passed for it, in all
windows, exactly if the call has no `%P` that the loop can get to.
-/

namespace MyNginx

namespace Format

open Foundation Relation

abbrev letterBigP : UInt8 := 80

/-- A piece of a call of the log: a supported one, or `%P` with a process id. -/
inductive LogPiece where
  | supported (piece : Piece)
  | processId (spec : Spec) (value : BitVec 32)

namespace LogPiece

def spelling : LogPiece → List UInt8
  | supported piece => piece.spelling
  | processId spec _ => percent :: (spec.spelling ++ [letterBigP])

/-- The argument that is passed for the piece, if it is a directive that takes one. -/
def arguments : LogPiece → List Arg
  | supported piece => piece.arguments
  | processId _ value => [.word value]

end LogPiece

def logFormat (call : List LogPiece) : List UInt8 := call.flatMap LogPiece.spelling

def logArguments (call : List LogPiece) : List Arg := call.flatMap LogPiece.arguments

/-- Where the loop stands: what is printed, and what is left of the format and the arguments. -/
structure Place where
  out : Output
  fmt : List UInt8
  args : List Arg

/-- One round of the loop. -/
inductive Round (last : Nat) : Place → Place → Prop
  | intro {out out' : Output} {c : UInt8} {fmt fmt' : List UInt8} {args args' : List Arg}
      (below : out.below last = true) (h : body last out c fmt args = .ok (out', fmt', args')) :
      Round last ⟨out, c :: fmt, args⟩ ⟨out', fmt', args'⟩

/-- In every window, when the loop stands in front of a part of the call, the arguments left
are those of this part. So each directive has taken its own argument. -/
def TakesOwn (call : List LogPiece) : Prop :=
  ∀ last b part out args, part <:+ call →
    ReflTransGen (Round last) ⟨Output.start b, logFormat call, logArguments call⟩
      ⟨out, logFormat part, args⟩ → args = logArguments part

/-- There is no `%P` behind doubles that can all be converted. -/
def NoProcessId : List LogPiece → Prop
  | [] => True
  | .processId .. :: _ => False
  | .supported piece :: call => piece.Defined → NoProcessId call

variable {last b : Nat} {call : List LogPiece}

/-! ### Rounds -/

/-- The rounds are those of `fmt_string`. -/
theorem Round.fmtLoop_eq {place place' : Place} (round : Round last place place') (fuel : Nat) :
    fmtLoop last (fuel + 1) place.out place.fmt place.args =
      fmtLoop last fuel place'.out place'.fmt place'.args := by
  cases round with
  | intro below h =>
      dsimp only
      rw [fmtLoop_cons, below, if_pos rfl, h]
      rfl

/-- A round at a supported piece. -/
theorem round_supported {out : Output} {piece : Piece} {fmt : List UInt8} {args : List Arg}
    {place : Place} :
    Round last ⟨out, piece.spelling ++ fmt, piece.arguments ++ args⟩ place ↔
      out.below last = true ∧
        ∃ out' : Output, piece.run last out = .ok out' ∧ place = ⟨out', fmt, args⟩ := by
  have hbody := body_piece last out piece fmt args
  rw [piece.spelling_eq, List.cons_append]
  constructor
  · intro round
    cases round with
    | intro below h =>
        rw [hbody] at h
        cases hrun : piece.run last out with
        | error fault =>
            rw [hrun] at h
            cases h
        | ok out' =>
            rw [hrun] at h
            cases h
            exact ⟨below, _, rfl, rfl⟩
  · rintro ⟨below, out', hrun, rfl⟩
    refine .intro below ?_
    rw [hbody, hrun]
    rfl

/-- A round at `%P` takes no argument. -/
theorem round_processId {out out' : Output} (below : out.below last = true)
    (put : out.put letterBigP = .ok out') (spec : Spec) (fmt : List UInt8) (args : List Arg) :
    Round last ⟨out, percent :: (spec.spelling ++ [letterBigP]) ++ fmt, args⟩ ⟨out', fmt, args⟩ := by
  rw [List.cons_append]
  refine .intro below ?_
  rw [body_directive (by decide)]
  simp only [dispatch, if_neg (show letterBigP ≠ percent by decide),
    if_neg (show letterBigP ≠ letterD by decide), if_neg (show letterBigP ≠ letterS by decide),
    if_neg (show letterBigP ≠ letterP by decide), if_neg (show letterBigP ≠ letterF by decide), put]
  rfl

theorem LogPiece.spelling_ne_nil (piece : LogPiece) : piece.spelling ≠ [] := by
  cases piece with
  | supported piece => exact piece.spelling_ne_nil
  | processId spec value => exact List.cons_ne_nil _ _

/-- The format that is left tells the part of the call. -/
theorem suffix_eq {part part' : List LogPiece} (h : part <:+ call) (h' : part' <:+ call)
    (format : logFormat part = logFormat part') : part = part' := by
  have hlonger : ∀ {front back : List LogPiece}, back <:+ front →
      logFormat back = logFormat front → back = front := by
    rintro front back ⟨extra, rfl⟩ heq
    have hnil : logFormat extra = [] := by
      rw [logFormat, logFormat, List.flatMap_append] at heq
      exact List.self_eq_append_left.mp heq
    cases extra with
    | nil => rfl
    | cons piece extra =>
        rw [logFormat, List.flatMap_cons] at hnil
        exact absurd (List.append_eq_nil_iff.mp hnil).1 piece.spelling_ne_nil
  rcases List.suffix_or_suffix_of_suffix h h' with hsub | hsub
  · exact hlonger hsub format
  · exact (hlonger hsub format.symm).symm

/-! ### Calls without `%P` -/

/-- A directive that has been carried out had an argument that can be converted. -/
theorem defined_of_run {piece : Piece} {out out' : Output} (h : piece.run last out = .ok out') :
    piece.Defined := by
  cases piece with
  | double spec frac =>
      cases frac with
      | none => cases h
      | some x =>
          by_contra hconverts
          have hlarge : ¬|x|.floor < 2 ^ 63 := hconverts
          simp only [Piece.run, doubleString, magnitude_eq, toInt64, if_neg hlarge] at h
          cases hsign : (if x < 0 then out.put minus else .ok out) with
          | error fault =>
              rw [hsign] at h
              cases h
          | ok out'' =>
              rw [hsign] at h
              cases h
  | _ => trivial

/-- The loop stands in front of parts of the call, with their arguments. -/
theorem reaches_part {out : Output} {place : Place} (plain : NoProcessId call)
    (reaches : ReflTransGen (Round last) ⟨out, logFormat call, logArguments call⟩ place) :
    ∃ part, part <:+ call ∧ NoProcessId part ∧ place.fmt = logFormat part ∧
      place.args = logArguments part := by
  induction reaches with
  | refl => exact ⟨call, List.suffix_refl call, plain, rfl, rfl⟩
  | @tail middle place _ round ih =>
      obtain ⟨part, hsuffix, hplain, hfmt, hargs⟩ := ih
      obtain ⟨out, fmt, args⟩ := middle
      dsimp only at hfmt hargs
      subst hfmt hargs
      cases part with
      | nil => cases round
      | cons piece part =>
          cases piece with
          | processId spec value => exact hplain.elim
          | supported piece =>
              rw [logFormat, logArguments, List.flatMap_cons, List.flatMap_cons] at round
              obtain ⟨-, out', hrun, rfl⟩ := round_supported.mp round
              exact ⟨part, (List.suffix_cons _ _).trans hsuffix, hplain (defined_of_run hrun), rfl,
                rfl⟩

/-! ### Calls with one -/

/-- With room for their texts the loop carries out the pieces in front of a part. -/
theorem reaches_behind (front : List Piece) (defined : ∀ piece ∈ front, piece.Defined)
    (part : List LogPiece) (cells : Cells UInt8) (room : b + (output front).length < last) :
    ∃ cells', ReflTransGen (Round last)
      ⟨⟨cells, some b⟩, logFormat (front.map .supported ++ part),
        logArguments (front.map .supported ++ part)⟩
      ⟨⟨cells', some (b + (output front).length)⟩, logFormat part, logArguments part⟩ := by
  induction front generalizing cells b with
  | nil => exact ⟨cells, .refl⟩
  | cons piece front ih =>
      rw [output_cons, List.length_append] at room
      have hfits : piece.Fits last b := (defined piece List.mem_cons_self).fits (by omega)
      have hrun : piece.run last ⟨cells, some b⟩ = .ok (printed cells b piece.output) :=
        Piece.run_prints (hfits.prints (by omega)).1
      have hbelow : Output.below last ⟨cells, some b⟩ = true := decide_eq_true (by omega)
      obtain ⟨cells', hrest⟩ := ih
        (fun other h => defined other (List.mem_cons_of_mem piece h))
        (cells.storeUp b piece.output) (b := b + piece.output.length) (by omega)
      rw [Nat.add_assoc, ← List.length_append, ← output_cons] at hrest
      exact ⟨cells', .head (round_supported.mpr ⟨hbelow, _, hrun, rfl⟩) hrest⟩

/-- Behind a `%P` the arguments are those of the directive in front. -/
theorem not_takesOwn (front : List Piece) (defined : ∀ piece ∈ front, piece.Defined) (spec : Spec)
    (value : BitVec 32) (part : List LogPiece) :
    ¬TakesOwn (front.map .supported ++ .processId spec value :: part) := by
  intro own
  have hroom : 0 + (output front).length < (output front).length + 1 := by omega
  obtain ⟨cells, hfront⟩ := reaches_behind front defined (.processId spec value :: part)
    Cells.empty hroom
  have hbelow : Output.below ((output front).length + 1)
      ⟨cells, some (0 + (output front).length)⟩ = true := decide_eq_true hroom
  have hround := round_processId hbelow (put_some letterBigP) spec (logFormat part)
    (logArguments (.processId spec value :: part))
  have hargs := own _ 0 part _ _
    (List.suffix_append_of_suffix (List.suffix_cons _ _)) (hfront.tail hround)
  rw [logArguments, List.flatMap_cons] at hargs
  have hlength := congrArg List.length hargs
  simp only [LogPiece.arguments, logArguments, List.singleton_append, List.length_cons] at hlength
  omega

theorem exists_processId (h : ¬NoProcessId call) :
    ∃ (front : List Piece) (spec : Spec) (value : BitVec 32) (part : List LogPiece),
      call = front.map .supported ++ .processId spec value :: part ∧
        ∀ piece ∈ front, piece.Defined := by
  induction call with
  | nil => exact absurd trivial h
  | cons piece call ih =>
      cases piece with
      | processId spec value => exact ⟨[], spec, value, call, rfl, fun _ h => by cases h⟩
      | supported piece =>
          obtain ⟨hdefined, hrest⟩ := Classical.not_imp.mp h
          obtain ⟨front, spec, value, part, rfl, hfront⟩ := ih hrest
          exact ⟨piece :: front, spec, value, part, rfl, List.forall_mem_cons.mpr ⟨hdefined, hfront⟩⟩

/-- Each directive takes the argument passed for it, in every window, exactly if there is no
`%P` but behind a double whose conversion is undefined. -/
theorem takesOwn_iff (call : List LogPiece) : TakesOwn call ↔ NoProcessId call := by
  constructor
  · intro own
    by_contra h
    obtain ⟨front, spec, value, part, rfl, hdefined⟩ := exists_processId h
    exact not_takesOwn front hdefined spec value part own
  · intro plain last b part out args hsuffix reaches
    obtain ⟨part', hsuffix', -, hfmt, hargs⟩ := reaches_part plain reaches
    dsimp only at hfmt hargs
    rw [hargs, suffix_eq hsuffix hsuffix' hfmt]

/-! ### The call of the signal handler -/

def literals (text : List UInt8) (plain : ∀ c ∈ text, c ≠ 0 ∧ c ≠ percent) : List Piece :=
  text.pmap (fun c h => .literal c h) plain

theorem plain_of_all {text : List UInt8}
    (hall : text.all (fun c => c != 0 && c != percent) = true) :
    ∀ c ∈ text, c ≠ 0 ∧ c ≠ percent := by
  intro c hmem
  have hplain := List.all_eq_true.mp hall c hmem
  simpa using hplain

theorem defined_literals {text : List UInt8} {plain : ∀ c ∈ text, c ≠ 0 ∧ c ≠ percent} :
    ∀ piece ∈ literals text plain, piece.Defined := by
  intro piece hmem
  obtain ⟨c, _, rfl⟩ := List.mem_pmap.mp hmem
  trivial

/-- The call of `signal_handler` for a signal with a sender, up to the sender. -/
def signalFrom (signo : BitVec 32) (signame : List UInt8) : List Piece :=
  literals (Log.bytes "signal ") (plain_of_all (by decide)) ++ .int Log.plain signo ::
    (literals (Log.bytes " (") (plain_of_all (by decide)) ++ .string Log.plain signame ::
      literals (Log.bytes ") received from ") (plain_of_all (by decide)))

/-- All of it. -/
def signalReceived (signo siPid : BitVec 32) (signame action : List UInt8) : List LogPiece :=
  (signalFrom signo signame).map .supported ++
    [.processId Log.plain siPid, .supported (.string Log.plain action)]

/-- Whatever the signal and its sender are, the action is not what `%s` is given. -/
theorem signalReceived_misses (signo siPid : BitVec 32) (signame action : List UInt8) :
    ¬TakesOwn (signalReceived signo siPid signame action) := by
  apply not_takesOwn
  intro piece hmem
  simp only [signalFrom, List.mem_append, List.mem_cons] at hmem
  rcases hmem with h | rfl | h | rfl | h
  · exact defined_literals piece h
  · trivial
  · exact defined_literals piece h
  · trivial
  · exact defined_literals piece h

/-- The log of a hangup signal that the process 4711 has sent: `%s` is given its number. -/
theorem hangup_misses :
    ¬TakesOwn (signalReceived 1 4711 (Log.bytes "SIGHUP") []) ∧
      fmtString 2048 (Output.start 0) (Log.bytes "signal %d (%s) received from %P%s")
        [.word 1, .str (Log.bytes "SIGHUP"), .word 4711, .str []] = .error .badArgument :=
  ⟨signalReceived_misses 1 4711 (Log.bytes "SIGHUP") [], rfl⟩

end Format

end MyNginx
