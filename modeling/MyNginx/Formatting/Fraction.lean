import MyNginx.Formatting.Numbers

/-!
# Digits behind the point

For `%.wf` the text behind the point should be the first `w` decimal places of the value.
`frac_string` is given the whole number again, so what stands there are the leading digits
of the whole number, filled up with zeros. The two texts agree for the values whose places
happen to repeat the whole number in this way.
-/

namespace MyNginx

namespace Format

open Foundation

/-- `%.wf`, where `w` is given by its digits. -/
def fractionFormat (w : List (Fin 10)) : List UInt8 :=
  percent :: dot :: (w.map digitByte ++ [letterF])

/-- The number `n + k / 10 ^ w` with `w` decimal places. -/
def fixedPoint (w n k : Nat) : List UInt8 :=
  number .decimal n ++ dot ::
    (List.replicate (w - (number .decimal k).length) digitZero ++ number .decimal k)

/-- The first `w` digits of `n`, filled up with zeros, as a number. -/
def leadingDigits (w n : Nat) : Nat := n * 10 ^ w / 10 ^ (number .decimal n).length

variable {b last n k : Nat}

theorem isNumeral_number (n : Nat) : IsNumeral 10 Base.decimal.digit (number .decimal n) :=
  isNumeral_numeral (by decide)

theorem isNumeral_zeros (k : Nat) :
    IsNumeral 10 Base.decimal.digit (List.replicate k digitZero) := by
  intro c hc
  exact ⟨0, by decide, List.eq_of_mem_replicate hc⟩

theorem IsNumeral.append {front back : List UInt8}
    (hfront : IsNumeral 10 Base.decimal.digit front)
    (hback : IsNumeral 10 Base.decimal.digit back) :
    IsNumeral 10 Base.decimal.digit (front ++ back) := by
  intro c hc
  rcases List.mem_append.mp hc with h | h
  · exact hfront c h
  · exact hback c h

theorem readNumeral_zeros (k : Nat) :
    readNumeral 10 digitValue (List.replicate k digitZero) = 0 := by
  have hzeros : readNumeral 10 digitValue (List.replicate k digitZero ++ []) = _ :=
    readNumeral_replicate (show digitValue digitZero = 0 by decide) k []
  rwa [List.append_nil] at hzeros

/-- A number below `10 ^ w` fills at most `w` places. -/
theorem length_number_le {w : Nat} (hw : 0 < w) (hk : k < 10 ^ w) :
    (number .decimal k).length ≤ w :=
  (length_numeral_le_iff (by decide) hw).mpr hk

theorem fractionText_eq (w n : Nat) :
    fractionText w n = (number .decimal n).take w ++
      List.replicate (w - (number .decimal n).length) digitZero := by
  have hunits : (unitsOf .decimal n).reverse = number .decimal n := by
    rw [unitsOf_eq (.inl rfl), List.reverse_reverse]
  have htake : (number .decimal n).take (min (number .decimal n).length w) =
      (number .decimal n).take w := List.take_eq_take_iff.mpr (by omega)
  have hzeros : w - min (number .decimal n).length w = w - (number .decimal n).length := by omega
  simp only [fractionText, hunits, htake, hzeros]

/-- The places that are printed are the leading digits of the whole number. -/
theorem readNumeral_fractionText (w n : Nat) :
    readNumeral 10 digitValue (fractionText w n) = leadingDigits w n := by
  have hread : readNumeral 10 digitValue (number .decimal n) = n := readNumeral_number .decimal n
  rw [fractionText_eq, readNumeral_append, readNumeral_zeros, List.length_replicate, Nat.add_zero,
    readNumeral_take (b := 10) (digitValue_digit .decimal) (isNumeral_number n), hread,
    leadingDigits]
  rcases Nat.le_total (number .decimal n).length w with hle | hle
  · obtain ⟨d, rfl⟩ := Nat.exists_eq_add_of_le hle
    rw [Nat.sub_eq_zero_of_le hle, Nat.pow_zero, Nat.div_one, Nat.add_sub_cancel_left, Nat.pow_add,
      Nat.mul_comm (10 ^ _), ← Nat.mul_assoc, Nat.mul_div_cancel _ (Nat.pow_pos (by decide))]
  · obtain ⟨d, hd⟩ := Nat.exists_eq_add_of_le hle
    rw [hd, Nat.add_sub_cancel_left, Nat.sub_eq_zero_of_le (Nat.le_add_right w d), Nat.pow_zero,
      Nat.mul_one, Nat.pow_add, Nat.mul_comm (10 ^ w), Nat.mul_div_mul_right _ _
        (Nat.pow_pos (by decide))]

/-- They are those of the value exactly if they have its number. -/
theorem fractionText_eq_iff {w : Nat} (hw : 0 < w) (hk : k < 10 ^ w) :
    fractionText w n = List.replicate (w - (number .decimal k).length) digitZero ++
        number .decimal k ↔ k = leadingDigits w n := by
  have hread : readNumeral 10 digitValue
      (List.replicate (w - (number .decimal k).length) digitZero ++ number .decimal k) = k := by
    rw [readNumeral_replicate (by decide)]
    exact readNumeral_number .decimal k
  rw [← readNumeral_fractionText]
  constructor
  · intro h
    rw [h, hread]
  · intro h
    have hshort := length_number_le hw hk
    apply readNumeral_injective (digitValue_digit .decimal)
    · rw [fractionText_eq]
      exact IsNumeral.append (fun c hc => isNumeral_number n c (List.mem_of_mem_take hc))
        (isNumeral_zeros _)
    · exact IsNumeral.append (isNumeral_zeros _) (isNumeral_number k)
    · rw [length_fractionText, List.length_append, List.length_replicate]
      omega
    · exact h.symm.trans hread.symm

/-- The whole part of the value. -/
theorem floor_fixedPoint {w : Nat} (hk : k < 10 ^ w) :
    |(n + k / 10 ^ w : ℚ)|.floor = n := by
  have hpow : (0 : ℚ) < 10 ^ w := by positivity
  have hnonneg : (0 : ℚ) ≤ k / 10 ^ w := by positivity
  have hlt : (k / 10 ^ w : ℚ) < 1 := by
    rw [div_lt_one hpow]
    exact_mod_cast hk
  rw [abs_of_nonneg (by positivity)]
  change ⌊(n + k / 10 ^ w : ℚ)⌋ = (n : ℤ)
  apply Int.floor_eq_iff.mpr
  constructor
  · push_cast
    linarith
  · push_cast
    linarith

/-- `%.wf` prints the value with its `w` decimal places exactly if these are the leading
digits of the whole number, filled up with zeros. -/
theorem fixedPoint_iff {w : List (Fin 10)} (hw : 1 ≤ Spec.number w ∧ Spec.number w ≤ 15)
    (hn : n < 2 ^ 63) (hk : k < 10 ^ Spec.number w)
    (room : b + (fixedPoint (Spec.number w) n k).length < last) :
    Writes (fmtString last (Output.start b) (fractionFormat w)
        [.double (some (n + k / 10 ^ Spec.number w))]) b (fixedPoint (Spec.number w) n k) ↔
      k = leadingDigits (Spec.number w) n := by
  have hfloor : |(n + k / 10 ^ Spec.number w : ℚ)|.floor = n := floor_fixedPoint hk
  have hpos : ¬(n + k / 10 ^ Spec.number w : ℚ) < 0 := not_lt.mpr (by positivity)
  have hsome : Spec.number w ≠ 0 := by omega
  have hshort := length_number_le hw.1 hk
  have houtput : output [.double ⟨[], [], some w⟩ (some (n + k / 10 ^ Spec.number w))] =
      number .decimal n ++ dot :: fractionText (Spec.number w) n := by
    have hdouble : doubleText space 0 (Spec.number w) (n + k / 10 ^ Spec.number w) =
        number .decimal n ++ dot :: fractionText (Spec.number w) n := by
      simp only [doubleText, wholeText, signText, if_neg hpos, if_neg hsome, hfloor, Int.toNat_natCast,
        List.nil_append, padded_eq_field (.inl rfl) (.inl rfl), field, Nat.zero_max, Nat.sub_self,
        List.replicate_zero]
    rw [output_cons, output_nil, List.append_nil]
    exact hdouble
  have hdefined : ∀ piece ∈ [Piece.double ⟨[], [], some w⟩ (some (n + k / 10 ^ Spec.number w))],
      piece.Defined := by
    intro piece hmem
    rw [List.mem_singleton.mp hmem]
    change |(n + k / 10 ^ Spec.number w : ℚ)|.floor < 2 ^ 63
    rw [hfloor]
    exact_mod_cast hn
  have hroom : b + (output [Piece.double ⟨[], [], some w⟩
      (some (n + k / 10 ^ Spec.number w))]).length < last := by
    rw [fixedPoint] at room
    simp only [List.length_append, List.length_cons, List.length_replicate] at room
    rw [houtput, List.length_append, List.length_cons, length_fractionText]
    omega
  have hformat : fractionFormat w =
      format [.double ⟨[], [], some w⟩ (some (n + k / 10 ^ Spec.number w))] :=
    (List.append_nil _).symm
  have hargs : [Arg.double (some (n + k / 10 ^ Spec.number w))] =
      arguments [.double ⟨[], [], some w⟩ (some (n + k / 10 ^ Spec.number w))] := rfl
  rw [hformat, hargs, fmtString_eq, Output.start, runPieces_full hdefined _ hroom, houtput,
    writes_printed_iff, fixedPoint, List.append_cancel_left_eq, List.cons.injEq]
  rw [and_iff_right rfl, fractionText_eq_iff hw.1 hk]

/-- 3.30 with two places. -/
theorem fixedPoint_repeated :
    Writes (fmtString 8 (Output.start 0) (fractionFormat [2])
      [.double (some ((3 : ℕ) + (30 : ℕ) / 10 ^ Spec.number [2]))]) 0 (fixedPoint 2 3 30) :=
  (fixedPoint_iff (w := [2]) (n := 3) (k := 30) (by decide) (by decide) (by decide)
    (by decide)).mpr (by decide)

/-- 2.05 with two places is printed as 2.20. -/
theorem fixedPoint_wrong :
    ¬Writes (fmtString 8 (Output.start 0) (fractionFormat [2])
      [.double (some ((2 : ℕ) + (5 : ℕ) / 10 ^ Spec.number [2]))]) 0 (fixedPoint 2 2 5) := by
  rintro ⟨out, hrun, hshows, -⟩
  have hcell : (fmtString 8 (Output.start 0) (fractionFormat [2])
      [.double (some ((2 : ℕ) + (5 : ℕ) / 10 ^ Spec.number [2]))]).map (·.cells 2) =
        .ok (some (digitZero + 2)) := by
    decide +kernel
  rw [hrun] at hcell
  have hplace := (hshows.bytes 2 (by decide)).symm.trans (Except.ok.inj hcell)
  exact absurd hplace (by decide)

end Format

end MyNginx
