import MyNginx.Formatting.Truncation
import MyNginx.Foundation.Numerals

/-!
# Numbers in a field

`ui64_string` prints the digits of a number into a field of a given width, where a width of
zero stands for none. It keeps the digits of the low places that fit, and has no digit for
the number zero in hexadecimal. So a number is printed in full, and can be read back,
exactly if the field is wide enough for its digits and, for a hexadecimal zero, is a field
that is filled with zeros.
-/

namespace MyNginx

namespace Format

open Foundation

def Base.radix : Base → Nat
  | .decimal => 10
  | _ => 16

/-- The minimal digits of a number, a single `0` for zero. -/
def number (hexadecimal : Base) (n : Nat) : List UInt8 :=
  numeral hexadecimal.radix hexadecimal.digit n

/-- The value of a digit in any of the bases. -/
def digitValue (c : UInt8) : Nat :=
  if c ≤ digitNine then c.toNat - 48 else if c < 97 then c.toNat - 55 else c.toNat - 87

/-- The number a text shows, behind spaces. -/
def readBack (hexadecimal : Base) (text : List UInt8) : Nat :=
  readNumeral hexadecimal.radix digitValue (text.dropWhile (· = space))

/-- A number in a field that leaves no digit out. -/
def field (zero : UInt8) (hexadecimal : Base) (width ui64 : Nat) : List UInt8 :=
  List.replicate (max width (number hexadecimal ui64).length - (number hexadecimal ui64).length)
    zero ++ number hexadecimal ui64

/-- The function returns the pointer behind the text, has stored it, and nothing else. -/
def Writes (result : Except Fault Output) (b : Nat) (text : List UInt8) : Prop :=
  ∃ out, result = .ok out ∧ Shows out b text ∧
    ∀ address, (out.cells address).isSome → b ≤ address ∧ address < b + text.length

/-- `ui64_string` prints a number in full, so that it can be read back. -/
def PrintsNumber (last b ui64 : Nat) (zero : UInt8) (hexadecimal : Base) (width : Nat) : Prop :=
  Writes (ui64String last ui64 zero hexadecimal width (Output.start b)) b
      (field zero hexadecimal width ui64) ∧
    readBack hexadecimal (field zero hexadecimal width ui64) = ui64

variable {b last : Nat} {hexadecimal : Base} {zero : UInt8}

theorem one_lt_radix (hexadecimal : Base) : 1 < hexadecimal.radix := by
  cases hexadecimal <;> decide

/-! ### Texts in memory -/

theorem writes_printed (b : Nat) (text : List UInt8) :
    Writes (.ok (printed Cells.empty b text)) b text :=
  ⟨_, rfl, shows_printed text, fun _ => Cells.storeUp_empty_isSome.mp⟩

/-- What is stored tells the text. -/
theorem writes_printed_iff {text other : List UInt8} :
    Writes (.ok (printed Cells.empty b text)) b other ↔ text = other := by
  constructor
  · rintro ⟨out, hout, hshows, -⟩
    obtain rfl := Except.ok.inj hout
    have hlength : text.length = other.length :=
      Nat.add_left_cancel (Option.some.inj hshows.buf)
    apply List.ext_getElem hlength
    intro i hi hi'
    have hbyte := Cells.storeUp_getElem Cells.empty b hi
    exact Option.some.inj (hbyte.symm.trans (hshows.bytes i hi'))
  · intro h
    subst h
    exact writes_printed b text

/-! ### Digits -/

theorem digitValue_digit (hexadecimal : Base) :
    ∀ d < hexadecimal.radix, digitValue (hexadecimal.digit d) = d := by
  cases hexadecimal <;> decide

theorem digit_ne_space (hexadecimal : Base) :
    ∀ d < hexadecimal.radix, hexadecimal.digit d ≠ space := by
  cases hexadecimal <;> decide

theorem digit_zero (hexadecimal : Base) : hexadecimal.digit 0 = digitZero := by
  cases hexadecimal <;> decide

theorem number_zero (hexadecimal : Base) : number hexadecimal 0 = [digitZero] := by
  rw [number, numeral_zero, digit_zero]

theorem length_number_pos (hexadecimal : Base) (n : Nat) : 0 < (number hexadecimal n).length :=
  length_numeral_pos _ _ n

theorem readNumeral_number (hexadecimal : Base) (n : Nat) :
    readNumeral hexadecimal.radix digitValue (number hexadecimal n) = n :=
  readNumeral_numeral (one_lt_radix _) (digitValue_digit _) n

/-- The digits that the loops push are those of the numeral, but for a hexadecimal zero. -/
theorem unitsOf_eq {ui64 : Nat} (h : hexadecimal = .decimal ∨ ui64 ≠ 0) :
    unitsOf hexadecimal ui64 = (number hexadecimal ui64).reverse := by
  by_cases hzero : ui64 = 0
  · subst hzero
    obtain rfl := h.resolve_right fun hne => hne rfl
    rfl
  · rw [number, numeral_of_ne_zero hzero, List.reverse_reverse]
    cases hexadecimal
    · exact if_neg hzero
    · rfl
    · rfl

theorem unitsOf_zero (h : hexadecimal ≠ .decimal) : unitsOf hexadecimal 0 = [] := by
  cases hexadecimal with
  | decimal => exact absurd rfl h
  | lower => simp [unitsOf]
  | upper => simp [unitsOf]

/-- Padding does not change the number. -/
theorem readBack_field (pad : zero = space ∨ zero = digitZero) (width ui64 : Nat) :
    readBack hexadecimal (field zero hexadecimal width ui64) = ui64 := by
  have hhead : ∀ c ∈ number hexadecimal ui64, ¬ (decide (c = space)) = true := by
    intro c hc
    obtain ⟨d, hd, rfl⟩ := isNumeral_numeral (one_lt_radix _) c hc
    simpa using digit_ne_space hexadecimal d hd
  have hnumber : (number hexadecimal ui64).dropWhile (· = space) = number hexadecimal ui64 := by
    apply List.dropWhile_eq_self_iff.mpr
    intro hpos
    exact hhead _ (List.getElem_mem hpos)
  rw [readBack, field]
  rcases pad with rfl | rfl
  · rw [List.dropWhile_append_of_pos, hnumber, readNumeral_number]
    intro c hc
    exact decide_eq_true (List.eq_of_mem_replicate hc)
  · have hstay : ∀ k, (List.replicate k digitZero ++ number hexadecimal ui64).dropWhile
        (· = space) = List.replicate k digitZero ++ number hexadecimal ui64 := by
      intro k
      cases k with
      | zero => exact hnumber
      | succ k => rfl
    rw [hstay, readNumeral_replicate (by decide), readNumeral_number]

/-! ### The field -/

theorem padded_eq_field {width ui64 : Nat} (some : hexadecimal = .decimal ∨ ui64 ≠ 0)
    (wide : width = 0 ∨ (number hexadecimal ui64).length ≤ width) :
    padded zero hexadecimal width ui64 = field zero hexadecimal width ui64 := by
  have hunits := unitsOf_eq some
  have hlength : (unitsOf hexadecimal ui64).length = (number hexadecimal ui64).length := by
    rw [hunits, List.length_reverse]
  have hpos := length_number_pos hexadecimal ui64
  simp only [padded, field, hlength]
  rw [hunits, List.take_of_length_le (by rw [List.length_reverse]; split <;> omega),
    List.reverse_reverse]
  congr 2
  split <;> omega

theorem padded_zero_eq_field (h : hexadecimal ≠ .decimal) {width : Nat} (some : width ≠ 0) :
    padded digitZero hexadecimal width 0 = field digitZero hexadecimal width 0 := by
  have hlength : (number hexadecimal 0).length = 1 := by rw [number_zero, List.length_singleton]
  have hsum : max width 1 - 1 + 1 = width := by omega
  rw [field, hlength, number_zero]
  simp only [padded, unitsOf_zero h, List.length_nil, if_neg some, Nat.zero_min, Nat.sub_zero,
    List.take_nil, List.reverse_nil, List.append_nil]
  rw [← List.replicate_succ', hsum]

theorem length_field (zero : UInt8) (hexadecimal : Base) (width ui64 : Nat) :
    (field zero hexadecimal width ui64).length = max width (number hexadecimal ui64).length := by
  rw [field, List.length_append, List.length_replicate]
  omega

theorem padded_eq_field_iff {width ui64 : Nat} :
    padded zero hexadecimal width ui64 = field zero hexadecimal width ui64 ↔
      (width = 0 ∨ (number hexadecimal ui64).length ≤ width) ∧
        (hexadecimal = .decimal ∨ ui64 ≠ 0 ∨ (zero = digitZero ∧ width ≠ 0)) := by
  constructor
  · intro h
    have hlength := congrArg List.length h
    rw [length_padded, length_field] at hlength
    constructor
    · by_contra hnot
      rw [not_or] at hnot
      rw [if_neg hnot.1] at hlength
      omega
    · by_contra hnot
      simp only [not_or, not_and, not_not] at hnot
      obtain ⟨hhex, rfl, hpad⟩ := hnot
      have hone : (number hexadecimal 0).length = 1 := by
        rw [number_zero, List.length_singleton]
      rw [unitsOf_zero hhex, hone] at hlength
      by_cases hwidth : width = 0
      · rw [if_pos hwidth, hwidth] at hlength
        cases hlength
      · -- The last byte of the field is a digit on one side and padding on the other.
        have hlast := congrArg List.getLast? h
        simp only [padded, field, unitsOf_zero hhex, List.length_nil, if_neg hwidth, Nat.zero_min,
          Nat.sub_zero, List.take_nil, List.reverse_nil, List.append_nil, number_zero] at hlast
        rw [List.getLast?_replicate, if_neg hwidth, List.getLast?_concat] at hlast
        exact hwidth (hpad (Option.some.inj hlast))
  · rintro ⟨hwide, hdigit⟩
    by_cases hsome : hexadecimal = .decimal ∨ ui64 ≠ 0
    · exact padded_eq_field hsome hwide
    · simp only [not_or, not_not] at hsome
      obtain ⟨hhex, rfl⟩ := hsome
      rcases hdigit with hdecimal | hne | ⟨rfl, hwidth⟩
      · exact absurd hdecimal hhex
      · exact absurd rfl hne
      · exact padded_zero_eq_field hhex hwidth

/-- With room for all digits and for the field, the number is printed in full exactly if its
digits fit in the field, if one is given, and it is not a hexadecimal zero in a field of
spaces or in none. -/
theorem printsNumber_iff (ui64 : BitVec 64) (width : Nat)
    (pad : zero = space ∨ zero = digitZero)
    (room : b + max width (number hexadecimal ui64.toNat).length ≤ last) :
    PrintsNumber last b ui64.toNat zero hexadecimal width ↔
      (width = 0 ∨ (number hexadecimal ui64.toNat).length ≤ width) ∧
        (hexadecimal = .decimal ∨ ui64 ≠ 0 ∨ (zero = digitZero ∧ width ≠ 0)) := by
  have hroom : b + (padded zero hexadecimal width ui64.toNat).length ≤ last := by
    have hpadded := length_padded zero hexadecimal width ui64.toNat
    by_cases hsome : hexadecimal = .decimal ∨ ui64.toNat ≠ 0
    · have hunits : (unitsOf hexadecimal ui64.toNat).length =
          (number hexadecimal ui64.toNat).length := by
        rw [unitsOf_eq hsome, List.length_reverse]
      rw [hunits] at hpadded
      split at hpadded <;> omega
    · simp only [not_or, not_not] at hsome
      rw [hsome.2, unitsOf_zero hsome.1, List.length_nil] at hpadded
      rw [hsome.2]
      split at hpadded <;> omega
  have hne : ui64.toNat ≠ 0 ↔ ui64 ≠ 0 := by
    simp [BitVec.toNat_eq]
  rw [PrintsNumber, Output.start, ui64String_eq, if_pos hroom, writes_printed_iff,
    padded_eq_field_iff, hne, and_iff_left (readBack_field pad width _)]

/-- `%05d` of 42. -/
theorem printsNumber_wide : PrintsNumber 8 0 42 digitZero .decimal 5 :=
  (printsNumber_iff 42 5 (.inr rfl) (by decide)).mpr (by decide)

/-- `%2d` of 12345 leaves three digits out, and `%2x` of 0 the only one. -/
theorem not_printsNumber_narrow :
    ¬PrintsNumber 8 0 12345 space .decimal 2 ∧ ¬PrintsNumber 8 0 0 space .lower 2 := by
  constructor
  · rintro ⟨⟨out, hrun, hshows, -⟩, -⟩
    have hbuf : (ui64String 8 12345 space .decimal 2 (Output.start 0)).map (·.buf) =
        .ok (some 2) := by decide
    rw [hrun] at hbuf
    have hend := hshows.buf.symm.trans (Except.ok.inj hbuf)
    exact absurd hend (by decide)
  · rintro ⟨⟨out, hrun, hshows, -⟩, -⟩
    have hcell : (ui64String 8 0 space .lower 2 (Output.start 0)).map (·.cells 1) =
        .ok (some space) := by decide
    rw [hrun] at hcell
    have hdigit := (hshows.bytes 1 (by decide)).symm.trans (Except.ok.inj hcell)
    exact absurd hdigit (by decide)

end Format

end MyNginx
