import MyNginx.Formatting.Pieces

/-!
# The window of a formatting call

A directive needs room for its text. `Piece.Fits` says how much, each kind of directive in
its own way, and `Fits` asks for it at every piece that begins inside the window. This is
exactly when a call is cut off safely at the end of the window: `runPieces_fits` gives the
text it prints, and in front of a piece that lacks its room the call loses its pointer,
leaves the window, or steps over bytes it has not stored (`runPieces_misfit`).
-/

namespace MyNginx

namespace Format

open Foundation

/-! ### What the helpers print -/

/-- The state behind a text. -/
def printed (cells : Cells UInt8) (b : Nat) (text : List UInt8) : Output :=
  ⟨cells.storeUp b text, some (b + text.length)⟩

/-- There is no pointer to go on with. -/
def Lost (result : Except Fault Output) : Prop := ∀ out, result = .ok out → out.buf = none

variable {cells : Cells UInt8} {b last : Nat}

theorem printed_append (front back : List UInt8) :
    printed (cells.storeUp b front) (b + front.length) back = printed cells b (front ++ back) := by
  rw [printed, printed, Cells.storeUp_append, List.length_append, Nat.add_assoc]

theorem put_some (c : UInt8) : Output.put c ⟨cells, some b⟩ = .ok (printed cells b [c]) := rfl

theorem lost_error (fault : Fault) : Lost (.error fault) := fun _ h => nomatch h

theorem lost_null : Lost (.ok ⟨cells, none⟩) := by
  intro out h
  cases h
  rfl

theorem ok_bind (out : Output) (next : Output → Except Fault Output) :
    (.ok out >>= next) = next out := rfl

theorem Lost.bind {result : Except Fault Output} (lost : Lost result)
    {next : Output → Except Fault Output} (h : ∀ cells, Lost (next ⟨cells, none⟩)) :
    Lost (result >>= next) := by
  cases result with
  | error fault => exact lost_error fault
  | ok out =>
      obtain ⟨cells, buf⟩ := out
      obtain rfl : buf = none := lost _ rfl
      exact h cells

theorem length_padded (zero : UInt8) (hexadecimal : Base) (width ui64 : Nat) :
    (padded zero hexadecimal width ui64).length =
      if width = 0 then (unitsOf hexadecimal ui64).length else width := by
  simp only [padded, List.length_append, List.length_replicate, List.length_reverse,
    List.length_take]
  split <;> omega

/-- `ui64_string` prints the number or, without room for it, nothing. -/
theorem ui64String_eq (cells : Cells UInt8) (b last ui64 : Nat) (zero : UInt8) (hexadecimal : Base) (width : Nat) :
    ui64String last ui64 zero hexadecimal width ⟨cells, some b⟩ =
      if b + (padded zero hexadecimal width ui64).length ≤ last then
        .ok (printed cells b (padded zero hexadecimal width ui64))
      else .ok ⟨cells, none⟩ := by
  have hlength := length_padded zero hexadecimal width ui64
  simp only [ui64String, printed, hlength]
  generalize hw : (if width = 0 then (unitsOf hexadecimal ui64).length else width) = w
  rw [hw] at hlength
  have hcells : (cells.storeDown (b + w) ((unitsOf hexadecimal ui64).take
        (min (unitsOf hexadecimal ui64).length w))).storeDown
          (b + w - min (unitsOf hexadecimal ui64).length w)
          (List.replicate (w - min (unitsOf hexadecimal ui64).length w) zero) =
      cells.storeUp b (padded zero hexadecimal width ui64) := by
    have htext : ((unitsOf hexadecimal ui64).take (min (unitsOf hexadecimal ui64).length w) ++
        List.replicate (w - min (unitsOf hexadecimal ui64).length w) zero).reverse =
          padded zero hexadecimal width ui64 := by
      simp only [padded, hw, List.reverse_append, List.reverse_replicate]
    have htake : ((unitsOf hexadecimal ui64).take (min (unitsOf hexadecimal ui64).length w)).length =
        min (unitsOf hexadecimal ui64).length w := by
      rw [List.length_take]
      omega
    have hdown := Cells.storeDown_append cells (b + w)
      ((unitsOf hexadecimal ui64).take (min (unitsOf hexadecimal ui64).length w))
      (List.replicate (w - min (unitsOf hexadecimal ui64).length w) zero)
    rw [htake] at hdown
    rw [← hdown, Cells.storeDown_eq, htext]
    · congr 1
      rw [← List.length_reverse, htext, hlength]
      omega
    · rw [← List.length_reverse, htext, hlength]
      omega
  rw [hcells]

theorem length_fractionText (widthFrac ui64 : Nat) :
    (fractionText widthFrac ui64).length = widthFrac := by
  simp only [fractionText, List.length_append, List.length_replicate, List.length_take]
  omega

/-- `frac_string` prints all its digits as soon as there is room for one. -/
theorem fracString_eq {widthFrac : Nat} (some : widthFrac ≠ 0) (cells : Cells UInt8)
    (b last ui64 : Nat) :
    fracString last ui64 digitZero .decimal widthFrac ⟨cells, .some b⟩ =
      if b < last then .ok (printed cells b (fractionText widthFrac ui64))
      else .ok ⟨cells, none⟩ := by
  have htake : ((unitsOf .decimal ui64).reverse.take
      (min (unitsOf .decimal ui64).reverse.length widthFrac)).length =
        min (unitsOf .decimal ui64).reverse.length widthFrac := by
    rw [List.length_take]
    omega
  have hup := Cells.storeUp_append cells b
    ((unitsOf .decimal ui64).reverse.take
      (min (unitsOf .decimal ui64).reverse.length widthFrac))
    (List.replicate (widthFrac - min (unitsOf .decimal ui64).reverse.length widthFrac)
      digitZero)
  rw [htake] at hup
  simp only [fracString, printed, length_fractionText, if_neg some]
  rw [← hup, fractionText]

theorem put_sign (negative : Prop) [Decidable negative] :
    (if negative then Output.put minus ⟨cells, some b⟩ else .ok ⟨cells, some b⟩) =
      .ok (printed cells b (signText negative)) := by
  rw [signText]
  split <;> rfl

theorem signedString_eq (last : Nat) (i64 : Int) (zero : UInt8) (hex : Base) (width : Nat) :
    signedString last i64 zero hex width ⟨cells, some b⟩ =
      if b + (signed zero hex width i64).length ≤ last then
        .ok (printed cells b (signed zero hex width i64))
      else .ok ⟨cells.storeUp b (signText (i64 < 0)), none⟩ := by
  have hnumber := ui64String_eq (cells.storeUp b (signText (i64 < 0)))
    (b + (signText (i64 < 0)).length) last i64.natAbs zero hex width
  rw [printed_append, Nat.add_assoc, ← List.length_append] at hnumber
  rw [signedString, put_sign]
  exact hnumber

/-- The conversion of a double is defined. -/
def Converts : Option ℚ → Prop
  | none => False
  | some x => |x|.floor < 2 ^ 63

instance : DecidablePred Converts := fun frac => by
  cases frac <;> unfold Converts <;> infer_instance

theorem magnitude_eq (frac : ℚ) : (if frac < 0 then -frac else frac) = |frac| := by
  split
  · rw [abs_of_neg ‹_›]
  · rw [abs_of_nonneg (not_lt.mp ‹_›)]

theorem doubleString_undefined {frac : Option ℚ} (h : ¬Converts frac) (zero : UInt8)
    (width widthFrac : Nat) :
    Lost (doubleString last frac zero width widthFrac ⟨cells, some b⟩) := by
  cases frac with
  | none => exact lost_error _
  | some x =>
      simp only [doubleString, put_sign, magnitude_eq, toInt64,
        if_neg (show ¬|x|.floor < 2 ^ 63 from h)]
      exact lost_error _

/-- The sign and the whole part come first. -/
theorem doubleString_eq {x : ℚ} (defined : |x|.floor < 2 ^ 63) (zero : UInt8)
    (width widthFrac : Nat) :
    doubleString last (some x) zero width widthFrac ⟨cells, some b⟩ = (do
      let out ← (if b + (wholeText zero width x).length ≤ last then
          .ok (printed cells b (wholeText zero width x))
        else .ok ⟨cells.storeUp b (signText (x < 0)), none⟩)
      if widthFrac = 0 then .ok out
      else
        let out ← (if out.below last then out.put dot else .ok out)
        fracString last |x|.floor.toNat digitZero .decimal widthFrac out) := by
  have hwhole := ui64String_eq (cells.storeUp b (signText (x < 0)))
    (b + (signText (x < 0)).length) last |x|.floor.toNat zero .decimal width
  rw [printed_append, Nat.add_assoc, ← List.length_append] at hwhole
  simp only [doubleString, put_sign, magnitude_eq, toInt64, if_pos defined]
  change (ui64String last |x|.floor.toNat zero .decimal width (printed cells b (signText (x < 0))) >>=
    _) = _
  rw [printed, hwhole]
  rfl

theorem length_doubleText (zero : UInt8) (width widthFrac : Nat) (x : ℚ) :
    (doubleText zero width widthFrac x).length =
      (wholeText zero width x).length + if widthFrac = 0 then 0 else widthFrac + 1 := by
  rw [doubleText, List.length_append]
  split
  · rfl
  · rw [List.length_cons, length_fractionText]

/-- A double is printed when its whole part and, if there is a fraction, one byte behind the
point have room. The rest of the fraction needs none. -/
theorem doubleString_prints {x : ℚ} (defined : |x|.floor < 2 ^ 63) (zero : UInt8)
    {width widthFrac : Nat}
    (room : b + (doubleText zero width widthFrac x).length < last + max 1 widthFrac) :
    doubleString last (some x) zero width widthFrac ⟨cells, some b⟩ =
      .ok (printed cells b (doubleText zero width widthFrac x)) := by
  rw [length_doubleText] at room
  rw [doubleString_eq defined]
  by_cases hnone : widthFrac = 0
  · subst hnone
    rw [if_pos (by simp at room; omega), doubleText, if_pos rfl, List.append_nil]
    rfl
  · rw [if_neg hnone] at room
    have hpoint : b + (wholeText zero width x).length + 1 < last := by omega
    have hbelow : (printed cells b (wholeText zero width x)).below last = true :=
      decide_eq_true (by omega)
    have hfraction := fracString_eq hnone (cells.storeUp b (wholeText zero width x ++ [dot]))
      (b + (wholeText zero width x ++ [dot]).length) last |x|.floor.toNat
    rw [List.length_append, List.length_singleton, ← Nat.add_assoc, if_pos hpoint] at hfraction
    rw [if_pos (by omega), ok_bind, if_neg hnone, hbelow, if_pos rfl, printed, put_some, ok_bind,
      printed_append]
    rw [printed, List.length_append, List.length_singleton, ← Nat.add_assoc, hfraction,
      ← List.length_singleton, Nat.add_assoc, ← List.length_append, printed_append, doubleText,
      if_neg hnone, List.append_assoc, List.singleton_append]

theorem doubleString_lost {x : ℚ} (defined : |x|.floor < 2 ^ 63) (zero : UInt8)
    {width widthFrac : Nat}
    (room : last + max 1 widthFrac ≤ b + (doubleText zero width widthFrac x).length) :
    Lost (doubleString last (some x) zero width widthFrac ⟨cells, some b⟩) := by
  rw [length_doubleText] at room
  rw [doubleString_eq defined]
  by_cases hwhole : b + (wholeText zero width x).length ≤ last
  · have hfrac : widthFrac ≠ 0 := by
      intro hzero
      simp [hzero] at room
      omega
    rw [if_pos hwhole, ok_bind, if_neg hfrac]
    rw [if_neg hfrac] at room
    by_cases hpoint : b + (wholeText zero width x).length < last
    · have hbelow : (printed cells b (wholeText zero width x)).below last = true :=
        decide_eq_true hpoint
      rw [hbelow, if_pos rfl, printed, put_some, ok_bind, printed, fracString_eq hfrac,
        if_neg (by rw [List.length_singleton]; omega)]
      exact lost_null
    · have hbelow : (printed cells b (wholeText zero width x)).below last = false :=
        decide_eq_false hpoint
      rw [hbelow, if_neg Bool.false_ne_true, ok_bind, printed, fracString_eq hfrac, if_neg hpoint]
      exact lost_null
  · rw [if_neg hwhole]
    apply Lost.bind lost_null
    intro cells
    split
    · exact lost_null
    · exact lost_error _

/-! ### Pieces in the window -/

namespace Piece

/-- The arguments that the directive can convert. -/
def Defined : Piece → Prop
  | double _ frac => Converts frac
  | _ => True

/-- The room a piece needs at the address `b`, below `last`, to be printed as a whole: the
byte behind a string, too, and nothing for the bytes that the guard of the loop has checked. -/
def Fits (last b : Nat) : Piece → Prop
  | literal .. | percentSign _ => True
  | string _ lpStr => b + (cstr lpStr).length < last
  | double spec frac => Converts frac ∧ b + (double spec frac).output.length ≤ last
  | piece => b + piece.output.length ≤ last

/-- The piece is printed as a whole, but perhaps past the end. -/
def Prints (last b : Nat) : Piece → Prop
  | literal .. | percentSign _ => True
  | string _ lpStr => b + (cstr lpStr).length < last
  | double spec frac =>
      Converts frac ∧ b + (double spec frac).output.length < last + max 1 spec.widthFrac
  | piece => b + piece.output.length ≤ last

def isString : Piece → Bool
  | string .. => true
  | _ => false

instance (piece : Piece) : Decidable (piece.Fits last b) := by
  cases piece <;> unfold Fits <;> infer_instance

variable {piece : Piece}

theorem run_prints (h : piece.Prints last b) :
    piece.run last ⟨cells, some b⟩ = .ok (printed cells b piece.output) := by
  cases piece with
  | literal c plain => rfl
  | percentSign spec => rfl
  | int spec value =>
      simp only [Prints, output] at h
      simp only [run, output]
      split at h
      · rw [if_pos ‹_›, signedString_eq, if_pos h, if_pos ‹_›]
      · rw [if_neg ‹_›, ui64String_eq, if_pos h, if_neg ‹_›]
  | pid spec value =>
      simp only [Prints, output] at h
      rw [run, signedString_eq, if_pos h, output]
  | string spec lpStr =>
      simp only [run, copyString, if_pos (show b + (cstr lpStr).length < last from h)]
      rfl
  | double spec frac =>
      cases frac with
      | none => exact h.1.elim
      | some x => exact doubleString_prints h.1 spec.zero h.2

/-- A string without room is stepped over. -/
theorem run_string {spec : Spec} {lpStr : List UInt8} (h : last ≤ b + (cstr lpStr).length) :
    (string spec lpStr).run last ⟨cells, some b⟩ = .ok ⟨cells, some (b + (cstr lpStr).length)⟩ := by
  simp only [run, copyString, if_neg (Nat.not_lt.mpr h)]

/-- A number without room costs the pointer. -/
theorem run_lost (h : ¬piece.Prints last b) (number : piece.isString = false) :
    Lost (piece.run last ⟨cells, some b⟩) := by
  cases piece with
  | literal c plain => exact absurd trivial h
  | percentSign spec => exact absurd trivial h
  | int spec value =>
      simp only [Prints, output] at h
      simp only [run]
      split at h
      · rw [if_pos ‹_›, signedString_eq, if_neg h]
        exact lost_null
      · rw [if_neg ‹_›, ui64String_eq, if_neg h]
        exact lost_null
  | pid spec value =>
      simp only [Prints, output] at h
      rw [run, signedString_eq, if_neg h]
      exact lost_null
  | string spec lpStr => exact Bool.noConfusion number
  | double spec frac =>
      by_cases hdefined : Converts frac
      · cases frac with
        | none => exact hdefined.elim
        | some x =>
            have hroom : ¬b + (double spec (some x)).output.length < last + max 1 spec.widthFrac :=
              fun hlt => h ⟨hdefined, hlt⟩
            exact doubleString_lost hdefined spec.zero (Nat.not_lt.mp hroom)
      · exact doubleString_undefined hdefined _ _ _

/-- Nothing can be done with a null pointer. -/
theorem run_null (piece : Piece) : Lost (piece.run last ⟨cells, none⟩) := by
  have hsigned : ∀ (i64 : Int) (zero : UInt8) (hex : Base) (width : Nat),
      Lost (signedString last i64 zero hex width ⟨cells, none⟩) := by
    intro i64 zero hex width
    rw [signedString]
    split <;> exact lost_error _
  cases piece with
  | literal c plain => exact lost_error _
  | percentSign spec => exact lost_error _
  | int spec value =>
      rw [run]
      split
      · exact hsigned _ _ _ _
      · exact lost_error _
  | pid spec value => exact hsigned _ _ _ _
  | string spec lpStr => exact lost_error _
  | double spec frac =>
      cases frac with
      | none => exact lost_error _
      | some x =>
          simp only [run, doubleString]
          by_cases hneg : x < 0
          · rw [if_pos hneg]
            exact lost_error _
          · rw [if_neg hneg, if_neg hneg, ok_bind, toInt64]
            split <;> exact lost_error _

theorem Fits.prints (h : piece.Fits last b) (below : b < last) :
    piece.Prints last b ∧ b + piece.output.length ≤ last := by
  cases piece with
  | literal c plain => exact ⟨trivial, below⟩
  | percentSign spec => exact ⟨trivial, below⟩
  | int spec value => exact ⟨h, h⟩
  | pid spec value => exact ⟨h, h⟩
  | string spec lpStr => exact ⟨h, Nat.le_of_lt h⟩
  | double spec frac => exact ⟨⟨h.1, by have := h.2; omega⟩, h.2⟩

/-- What is printed without fitting leaves the window. -/
theorem Prints.overruns (h : piece.Prints last b) (not : ¬piece.Fits last b) :
    last < b + piece.output.length := by
  cases piece with
  | literal c plain => exact absurd trivial not
  | percentSign spec => exact absurd trivial not
  | int spec value => exact absurd h not
  | pid spec value => exact absurd h not
  | string spec lpStr => exact absurd h not
  | double spec frac =>
      by_contra hle
      exact not ⟨h.1, by omega⟩

theorem Fits.defined (h : piece.Fits last b) : piece.Defined := by
  cases piece with
  | double spec frac => exact h.1
  | _ => trivial

theorem Defined.fits (h : piece.Defined) (room : b + piece.output.length < last) :
    piece.Fits last b := by
  cases piece with
  | literal c plain => trivial
  | percentSign spec => trivial
  | int spec value => exact Nat.le_of_lt room
  | pid spec value => exact Nat.le_of_lt room
  | string spec lpStr => exact room
  | double spec frac => exact ⟨h, Nat.le_of_lt room⟩

end Piece

/-- Every piece that begins below `last`, when the first one begins at `b`, has its room. -/
def Fits (last b : Nat) : List Piece → Prop
  | [] => True
  | piece :: call => b < last → piece.Fits last b ∧ Fits last (b + piece.output.length) call

instance decidableFits (last b : Nat) : (call : List Piece) → Decidable (Fits last b call)
  | [] => .isTrue trivial
  | piece :: call =>
      haveI := decidableFits last (b + piece.output.length) call
      inferInstanceAs (Decidable (b < last → _ ∧ _))

/-! ### Runs -/

theorem runPieces_stop {out : Output} (h : out.below last = false) (call : List Piece) :
    runPieces last out call = .ok out := by
  cases call with
  | nil => rfl
  | cons piece call => rw [runPieces, h, if_neg Bool.false_ne_true]

theorem runPieces_null (call : List Piece) : Lost (runPieces last ⟨cells, none⟩ call) := by
  induction call generalizing cells with
  | nil => exact lost_null
  | cons piece call ih =>
      rw [runPieces, Output.below, if_pos rfl]
      exact piece.run_null.bind fun cells => ih

/-- One piece of a run. -/
theorem runPieces_cons (below : b < last) {piece : Piece} (h : piece.Prints last b)
    (call : List Piece) :
    runPieces last ⟨cells, some b⟩ (piece :: call) =
      runPieces last (printed cells b piece.output) call := by
  have hbelow : Output.below last ⟨cells, some b⟩ = true := decide_eq_true below
  rw [runPieces, hbelow, if_pos rfl, Piece.run_prints h, ok_bind]

theorem not_below (h : last ≤ b) : Output.below last ⟨cells, some b⟩ = false :=
  decide_eq_false (Nat.not_lt.mpr h)

theorem runPieces_lost (below : b < last) {piece : Piece} (h : ¬piece.Prints last b)
    (number : piece.isString = false) (call : List Piece) :
    Lost (runPieces last ⟨cells, some b⟩ (piece :: call)) := by
  have hbelow : Output.below last ⟨cells, some b⟩ = true := decide_eq_true below
  rw [runPieces, hbelow, if_pos rfl]
  exact (Piece.run_lost h number).bind fun cells => runPieces_null call

theorem runPieces_string (cells : Cells UInt8) (below : b < last) {piece : Piece} (h : ¬piece.Prints last b)
    (string : piece.isString = true) (call : List Piece) :
    last ≤ b + piece.output.length ∧ runPieces last ⟨cells, some b⟩ (piece :: call) =
      .ok ⟨cells, some (b + piece.output.length)⟩ := by
  have hbelow : Output.below last ⟨cells, some b⟩ = true := decide_eq_true below
  cases piece with
  | string spec lpStr =>
      have hend : last ≤ b + (cstr lpStr).length := Nat.not_lt.mp h
      refine ⟨hend, ?_⟩
      rw [runPieces, hbelow, if_pos rfl, Piece.run_string hend, ok_bind,
        runPieces_stop (not_below hend), Piece.output]
  | _ => exact Bool.noConfusion string

/-- With the room for its pieces a call prints a part of its text, and all of it if there is
room for that. -/
theorem runPieces_fits (cells : Cells UInt8) {call : List Piece} (fits : Fits last b call) (hb : b ≤ last) :
    ∃ text, runPieces last ⟨cells, some b⟩ call = .ok (printed cells b text) ∧
      text <+: output call ∧ b + text.length ≤ last ∧
        (b + (output call).length ≤ last → text = output call) := by
  induction call generalizing cells b with
  | nil => exact ⟨[], rfl, List.prefix_refl _, hb, fun _ => rfl⟩
  | cons piece call ih =>
      by_cases hlt : b < last
      · obtain ⟨hpiece, hrest⟩ := fits hlt
        obtain ⟨hprints, hroom⟩ := hpiece.prints hlt
        obtain ⟨text, hrun, hprefix, hend, hwhole⟩ :=
          ih (cells.storeUp b piece.output) hrest hroom
        refine ⟨piece.output ++ text, ?_, ?_, ?_, ?_⟩
        · rw [runPieces_cons hlt hprints, ← printed_append]
          exact hrun
        · rw [output_cons]
          exact (List.prefix_append_right_inj _).mpr hprefix
        · rw [List.length_append]
          omega
        · intro hle
          rw [output_cons, List.length_append] at hle
          rw [hwhole (by omega), output_cons]
      · refine ⟨[], runPieces_stop (not_below (Nat.not_lt.mp hlt)) _, List.nil_prefix, hb, ?_⟩
        intro hle
        exact (List.eq_nil_of_length_eq_zero (by omega)).symm

/-- Without it the pointer is lost, leaves the window, or has passed bytes that were not
stored. -/
theorem runPieces_misfit (cells : Cells UInt8) {call : List Piece}
    (misfit : ¬Fits last b call) (fresh : ∀ address, b ≤ address → cells address = none) :
    Lost (runPieces last ⟨cells, some b⟩ call) ∨
      ∃ out p, runPieces last ⟨cells, some b⟩ call = .ok out ∧ out.buf = some p ∧
        (last < p ∨ ∃ address, b ≤ address ∧ address < p ∧ out.cells address = none) := by
  induction call generalizing cells b with
  | nil => exact absurd trivial misfit
  | cons piece call ih =>
      obtain ⟨hlt, hnot⟩ := Classical.not_imp.mp misfit
      by_cases hprints : piece.Prints last b
      · rw [runPieces_cons hlt hprints]
        by_cases hpiece : piece.Fits last b
        · have hfresh : ∀ address, b + piece.output.length ≤ address →
              cells.storeUp b piece.output address = none := by
            intro address hle
            rw [Cells.storeUp_of_ge hle]
            exact fresh address (by omega)
          rcases ih _ (fun hrest => hnot ⟨hpiece, hrest⟩) hfresh with
            hlost | ⟨out, p, hrun, hp, hend⟩
          · exact Or.inl hlost
          · refine Or.inr ⟨out, p, hrun, hp, hend.imp_right ?_⟩
            intro ⟨address, hle, hbyte⟩
            exact ⟨address, by omega, hbyte⟩
        · have hover := hprints.overruns hpiece
          refine Or.inr ⟨_, _, runPieces_stop (not_below (Nat.le_of_lt hover)) _, rfl, Or.inl hover⟩
      · cases hstring : piece.isString with
        | false => exact Or.inl (runPieces_lost hlt hprints hstring call)
        | true =>
            obtain ⟨hend, hrun⟩ := runPieces_string cells hlt hprints hstring call
            refine Or.inr ⟨_, _, hrun, rfl, Or.inr ⟨b, Nat.le_refl b, ?_, fresh b (Nat.le_refl b)⟩⟩
            exact Nat.lt_of_lt_of_le hlt hend

end Format

end MyNginx
