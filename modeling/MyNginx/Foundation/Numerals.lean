import Mathlib

/-!
# Positional numerals

A numeral is the list of the digits of a number, the most significant one first. It begins
with a zero only if that is all of it. `readNumeral` is the way back; it also reads
numerals with additional zeros in front.
-/

namespace Foundation

universe u

variable {α : Type u} {b n : Nat} {digit : Nat → α} {value : α → Nat}

/-- The digits of `n`; zero has one. -/
def numeral (b : Nat) (digit : Nat → α) (n : Nat) : List α :=
  if n = 0 then [digit 0] else ((Nat.digits b n).map digit).reverse

/-- The number of a list of digits. -/
def readNumeral (b : Nat) (value : α → Nat) (text : List α) : Nat :=
  text.foldl (fun n c => n * b + value c) 0

/-- `text` consists of digits. -/
def IsNumeral (b : Nat) (digit : Nat → α) (text : List α) : Prop := ∀ c ∈ text, ∃ d < b, c = digit d

theorem numeral_zero (b : Nat) (digit : Nat → α) : numeral b digit 0 = [digit 0] := rfl

theorem numeral_of_ne_zero (h : n ≠ 0) :
    numeral b digit n = ((Nat.digits b n).map digit).reverse := if_neg h

theorem numeral_ne_nil (b : Nat) (digit : Nat → α) (n : Nat) : numeral b digit n ≠ [] := by
  by_cases h : n = 0
  · rw [h, numeral_zero]
    exact List.cons_ne_nil _ _
  · rw [numeral_of_ne_zero h, ne_eq, List.reverse_eq_nil_iff, List.map_eq_nil_iff]
    exact Nat.digits_ne_nil_iff_ne_zero.mpr h

theorem length_numeral_pos (b : Nat) (digit : Nat → α) (n : Nat) :
    0 < (numeral b digit n).length :=
  List.length_pos_iff.mpr (numeral_ne_nil b digit n)

/-- Every position holds a digit. -/
theorem isNumeral_numeral (hb : 1 < b) : IsNumeral b digit (numeral b digit n) := by
  intro c h
  by_cases hn : n = 0
  · rw [hn, numeral_zero, List.mem_singleton] at h
    exact ⟨0, Nat.zero_lt_of_lt hb, h⟩
  · rw [numeral_of_ne_zero hn, List.mem_reverse] at h
    obtain ⟨d, hd, rfl⟩ := List.mem_map.mp h
    exact ⟨d, Nat.digits_lt_base hb hd, rfl⟩

/-- A numeral of at most `k` digits is that of a number below `b ^ k`. -/
theorem length_numeral_le_iff (hb : 1 < b) {k : Nat} (hk : 0 < k) :
    (numeral b digit n).length ≤ k ↔ n < b ^ k := by
  by_cases h : n = 0
  · rw [h, numeral_zero, List.length_singleton]
    exact ⟨fun _ => Nat.pow_pos (Nat.zero_lt_of_lt hb), fun _ => hk⟩
  · rw [numeral_of_ne_zero h, List.length_reverse, List.length_map]
    exact Nat.digits_length_le_iff hb n

theorem readNumeral_reverse (inverse : ∀ d < b, value (digit d) = d) {digits : List Nat}
    (small : ∀ d ∈ digits, d < b) :
    readNumeral b value (digits.map digit).reverse = Nat.ofDigits b digits := by
  induction digits with
  | nil => rfl
  | cons d digits ih =>
      have hd := inverse d (small d List.mem_cons_self)
      have hrest := ih fun d' h => small d' (List.mem_cons_of_mem d h)
      rw [readNumeral] at hrest
      rw [List.map_cons, List.reverse_cons, readNumeral, List.foldl_append, hrest, Nat.ofDigits_cons]
      change Nat.ofDigits b digits * b + value (digit d) = _
      rw [hd]
      exact (Nat.add_comm _ _).trans (congrArg (d + ·) (Nat.mul_comm _ _))

/-- A numeral reads back as its number. -/
theorem readNumeral_numeral (hb : 1 < b) (inverse : ∀ d < b, value (digit d) = d) (n : Nat) :
    readNumeral b value (numeral b digit n) = n := by
  by_cases h : n = 0
  · rw [h, numeral_zero]
    change 0 * b + value (digit 0) = 0
    rw [inverse 0 (Nat.zero_lt_of_lt hb), Nat.zero_mul]
  · rw [numeral_of_ne_zero h, readNumeral_reverse inverse fun d => Nat.digits_lt_base hb,
      Nat.ofDigits_digits]

/-- Zeros in front do not count. -/
theorem readNumeral_replicate {zero : α} (hzero : value zero = 0) (k : Nat) (text : List α) :
    readNumeral b value (List.replicate k zero ++ text) = readNumeral b value text := by
  induction k with
  | zero => rfl
  | succ k ih =>
      rw [List.replicate_succ, List.cons_append, readNumeral, List.foldl_cons, hzero, Nat.zero_mul]
      exact ih

theorem readNumeral_cons (c : α) (text : List α) :
    readNumeral b value (c :: text) = value c * b ^ text.length + readNumeral b value text := by
  have hfold : ∀ acc, text.foldl (fun n c => n * b + value c) acc =
      acc * b ^ text.length + readNumeral b value text := by
    induction text with
    | nil =>
        intro acc
        rw [List.foldl_nil, List.length_nil, Nat.pow_zero, Nat.mul_one]
        rfl
    | cons c text ih =>
        intro acc
        rw [readNumeral, List.foldl_cons, List.foldl_cons, ih, ih, List.length_cons, Nat.pow_succ]
        ring
  rw [readNumeral, List.foldl_cons, hfold, Nat.zero_mul, Nat.zero_add]

theorem readNumeral_append (front back : List α) :
    readNumeral b value (front ++ back) =
      readNumeral b value front * b ^ back.length + readNumeral b value back := by
  induction front with
  | nil => rw [List.nil_append, readNumeral, readNumeral, List.foldl_nil, Nat.zero_mul, Nat.zero_add]
  | cons c front ih =>
      rw [List.cons_append, readNumeral_cons, readNumeral_cons, ih, List.length_append, Nat.pow_add]
      ring

theorem readNumeral_lt (inverse : ∀ d < b, value (digit d) = d) {text : List α}
    (digits : IsNumeral b digit text) : readNumeral b value text < b ^ text.length := by
  induction text with
  | nil => exact Nat.one_pos
  | cons c text ih =>
      have hrest := ih fun c' h => digits c' (List.mem_cons_of_mem c h)
      obtain ⟨d, hd, rfl⟩ := digits c List.mem_cons_self
      rw [readNumeral_cons, inverse d hd, List.length_cons, Nat.pow_succ, Nat.mul_comm _ b]
      calc d * b ^ text.length + readNumeral b value text
          < d * b ^ text.length + b ^ text.length := Nat.add_lt_add_left hrest _
        _ = (d + 1) * b ^ text.length := (Nat.succ_mul _ _).symm
        _ ≤ b * b ^ text.length := Nat.mul_le_mul_right _ hd

/-- The leading digits of a numeral. -/
theorem readNumeral_take (inverse : ∀ d < b, value (digit d) = d) {text : List α}
    (digits : IsNumeral b digit text) (k : Nat) :
    readNumeral b value (text.take k) = readNumeral b value text / b ^ (text.length - k) := by
  have hsmall := readNumeral_lt inverse fun c h => digits c (List.mem_of_mem_drop (i := k) h)
  have happend : readNumeral b value (text.take k ++ text.drop k) = _ := readNumeral_append ..
  rw [List.take_append_drop] at happend
  rw [List.length_drop] at hsmall happend
  have hpos : 0 < b ^ (text.length - k) := Nat.lt_of_le_of_lt (Nat.zero_le _) hsmall
  rw [happend, Nat.mul_comm, Nat.mul_add_div hpos, Nat.div_eq_of_lt hsmall, Nat.add_zero]

/-- Two numerals of one length with the same value. -/
theorem readNumeral_injective (inverse : ∀ d < b, value (digit d) = d) {front back : List α}
    (hfront : IsNumeral b digit front) (hback : IsNumeral b digit back)
    (length : front.length = back.length)
    (h : readNumeral b value front = readNumeral b value back) : front = back := by
  induction front generalizing back with
  | nil => exact (List.eq_nil_of_length_eq_zero length.symm).symm
  | cons c front ih =>
      cases back with
      | nil => cases length
      | cons c' back =>
          have hfront' : IsNumeral b digit front :=
            fun c'' h => hfront c'' (List.mem_cons_of_mem c h)
          have hback' : IsNumeral b digit back :=
            fun c'' h => hback c'' (List.mem_cons_of_mem c' h)
          have hlength : front.length = back.length := Nat.succ.inj length
          obtain ⟨d, hd, rfl⟩ := hfront c List.mem_cons_self
          obtain ⟨d', hd', rfl⟩ := hback c' List.mem_cons_self
          have hsmall := readNumeral_lt inverse hfront'
          have hsmall' := readNumeral_lt inverse hback'
          rw [readNumeral_cons, readNumeral_cons, inverse d hd, inverse d' hd', hlength] at h
          rw [hlength] at hsmall
          have hpos : 0 < b ^ back.length := Nat.lt_of_le_of_lt (Nat.zero_le _) hsmall
          have hdigit : d = d' := by
            have hdiv := congrArg (· / b ^ back.length) h
            simpa only [Nat.mul_comm d, Nat.mul_comm d', Nat.mul_add_div hpos,
              Nat.div_eq_of_lt hsmall, Nat.div_eq_of_lt hsmall', Nat.add_zero] using hdiv
          subst hdigit
          rw [ih hfront' hback' hlength (Nat.add_left_cancel h)]

end Foundation
