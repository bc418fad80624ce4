import Mathlib

/-!
# Reflected feedback shift registers

A register of `w` bits that moves right by one place and adds a feedback
polynomial when the bit moved out was set. Both the register and what is added
to it act linearly, so the low and the high bits can be followed separately:
`absorb_eq` is the usual step by a table of 256 words. When the polynomial has
its highest bit, a step loses nothing, and two inputs that differ in at most
`w` consecutive bits, given by whole bytes, leave different registers.
-/

namespace Foundation.ShiftRegister

variable {w : Nat} (poly : BitVec w)

def step (x : BitVec w) : BitVec w :=
  (x >>> 1) ^^^ (if x.getLsbD 0 then poly else 0#w)

/-- A byte is added to the lowest eight bits, which are then moved out. -/
def absorb (x : BitVec w) (byte : UInt8) : BitVec w :=
  (step poly)^[8] (x ^^^ byte.toBitVec.setWidth w)

def digest (x : BitVec w) (bytes : List UInt8) : BitVec w :=
  bytes.foldl (absorb poly) x

variable {poly}

theorem step_xor (x y : BitVec w) : step poly (x ^^^ y) = step poly x ^^^ step poly y := by
  apply BitVec.eq_of_getLsbD_eq
  intro i hi
  simp only [step, BitVec.getLsbD_xor, BitVec.getLsbD_ushiftRight]
  cases x.getLsbD 0 <;> cases y.getLsbD 0 <;> cases x.getLsbD (1 + i) <;>
    cases y.getLsbD (1 + i) <;> simp

theorem iterate_step_xor (n : Nat) (x y : BitVec w) :
    (step poly)^[n] (x ^^^ y) = (step poly)^[n] x ^^^ (step poly)^[n] y := by
  induction n generalizing x y with
  | zero => rfl
  | succ n ih => rw [Function.iterate_succ_apply, step_xor, ih]; rfl

/-- Without a set bit among the lowest ones nothing is added. -/
theorem iterate_step_high (n : Nat) (x : BitVec w) (low : ∀ i < n, x.getLsbD i = false) :
    (step poly)^[n] x = x >>> n := by
  induction n generalizing x with
  | zero => simp
  | succ n ih =>
      have hstep : step poly x = x >>> 1 := by simp [step, low 0 (Nat.succ_pos n)]
      have hlow : ∀ i < n, (x >>> 1).getLsbD i = false := by
        intro i hi
        rw [BitVec.getLsbD_ushiftRight]
        exact low (1 + i) (by omega)
      rw [Function.iterate_succ_apply, hstep, ih _ hlow, ← BitVec.shiftRight_add, Nat.add_comm]

/-- The lowest `n` bits of a register. -/
def lowBits (n : Nat) (x : BitVec w) : BitVec w := (x.setWidth n).setWidth w

theorem getLsbD_lowBits (n : Nat) (x : BitVec w) (i : Nat) :
    (lowBits n x).getLsbD i = (decide (i < n) && x.getLsbD i) := by
  simp only [lowBits, BitVec.getLsbD_setWidth]
  by_cases hi : i < w
  · simp [hi]
  · simp [hi, BitVec.getLsbD_of_ge x i (by omega)]

theorem iterate_step_eq (n : Nat) (x : BitVec w) :
    (step poly)^[n] x = (x >>> n) ^^^ (step poly)^[n] (lowBits n x) := by
  have hsplit : x = (x ^^^ lowBits n x) ^^^ lowBits n x := by
    rw [BitVec.xor_assoc, BitVec.xor_self, BitVec.xor_zero]
  have hlow : ∀ i < n, (x ^^^ lowBits n x).getLsbD i = false := by
    intro i hi
    simp [getLsbD_lowBits, hi]
  have hhigh : (x ^^^ lowBits n x) >>> n = x >>> n := by
    apply BitVec.eq_of_getLsbD_eq
    intro i _
    have hge : ¬ n + i < n := by omega
    simp [getLsbD_lowBits, hge]
  conv_lhs => rw [hsplit]
  rw [iterate_step_xor, iterate_step_high n _ hlow, hhigh]

/-- The step by a table: the word for the byte that leaves is added to what stays. -/
theorem absorb_eq (x : BitVec w) (byte : UInt8) :
    absorb poly x byte =
      (x >>> 8) ^^^ (step poly)^[8] (lowBits 8 x ^^^ byte.toBitVec.setWidth w) := by
  rw [absorb, iterate_step_xor, iterate_step_eq 8 x, iterate_step_xor, BitVec.xor_assoc]

@[simp] theorem digest_nil (x : BitVec w) : digest poly x [] = x := rfl

@[simp] theorem digest_cons (x : BitVec w) (byte : UInt8) (bytes : List UInt8) :
    digest poly x (byte :: bytes) = digest poly (absorb poly x byte) bytes := rfl

theorem digest_append (x : BitVec w) (front back : List UInt8) :
    digest poly x (front ++ back) = digest poly (digest poly x front) back :=
  List.foldl_append

section Bursts

/-- The bytes as one word, the first one lowest. -/
def pack (w : Nat) : List UInt8 → BitVec w
  | [] => 0#w
  | byte :: bytes => byte.toBitVec.setWidth w ^^^ (pack w bytes <<< 8)

theorem getLsbD_pack_of_ge (bytes : List UInt8) {i : Nat} (h : 8 * bytes.length ≤ i) :
    (pack w bytes).getLsbD i = false := by
  induction bytes generalizing i with
  | nil => simp [pack]
  | cons byte bytes ih =>
      rw [List.length_cons] at h
      have hhigh := ih (i := i - 8) (by omega)
      have hbyte : byte.toBitVec.getLsbD i = false :=
        BitVec.getLsbD_of_ge byte.toBitVec i (by omega)
      simp [pack, hhigh, hbyte]

theorem getLsbD_pack_cons (byte : UInt8) (bytes : List UInt8) {i : Nat} (hi : i < w) :
    (pack w (byte :: bytes)).getLsbD i =
      if i < 8 then byte.toBitVec.getLsbD i else (pack w bytes).getLsbD (i - 8) := by
  simp only [pack, BitVec.getLsbD_xor, BitVec.getLsbD_setWidth, BitVec.getLsbD_shiftLeft, hi]
  by_cases h8 : i < 8
  · simp [h8]
  · simp [h8, BitVec.getLsbD_of_ge byte.toBitVec i (by omega)]

/-- As many bytes as the register holds can be read off their word. -/
theorem pack_injective {bytes bytes' : List UInt8} (length : bytes.length = bytes'.length)
    (fits : 8 * bytes.length ≤ w) (h : pack w bytes = pack w bytes') : bytes = bytes' := by
  have hbits : ∀ i, (pack w bytes).getLsbD i = (pack w bytes').getLsbD i := fun i => by rw [h]
  clear h
  induction bytes generalizing bytes' with
  | nil => exact (List.eq_nil_of_length_eq_zero length.symm).symm
  | cons byte bytes ih =>
      cases bytes' with
      | nil => cases length
      | cons byte' bytes' =>
          simp only [List.length_cons, Nat.add_right_cancel_iff] at length fits
          have hfirst : byte = byte' := by
            apply UInt8.toBitVec_inj.mp
            apply BitVec.eq_of_getLsbD_eq
            intro i hi
            have hbit := hbits i
            rwa [getLsbD_pack_cons _ _ (by omega), getLsbD_pack_cons _ _ (by omega), if_pos hi,
              if_pos hi] at hbit
          have hrest : bytes = bytes' := by
            apply ih length (by omega)
            intro i
            by_cases hi : i + 8 < w
            · have hbit := hbits (i + 8)
              rwa [getLsbD_pack_cons _ _ hi, getLsbD_pack_cons _ _ hi, if_neg (by omega),
                if_neg (by omega), Nat.add_sub_cancel] at hbit
            · rw [getLsbD_pack_of_ge bytes (by omega), getLsbD_pack_of_ge bytes' (by omega)]
          rw [hfirst, hrest]

/-- Bytes that fit the register can be added to it all at once. -/
theorem digest_eq_pack (x : BitVec w) (bytes : List UInt8) (fits : 8 * bytes.length ≤ w) :
    digest poly x bytes = (step poly)^[8 * bytes.length] (x ^^^ pack w bytes) := by
  induction bytes generalizing x with
  | nil => simp [pack]
  | cons byte bytes ih =>
      rw [List.length_cons] at fits
      have hlow : ∀ i < 8, (pack w bytes <<< 8).getLsbD i = false := by
        intro i hi
        simp [hi]
      have hback : pack w bytes <<< 8 >>> 8 = pack w bytes := by
        apply BitVec.eq_of_getLsbD_eq
        intro i hi
        have hge : ¬ 8 + i < 8 := by omega
        rw [BitVec.getLsbD_ushiftRight, BitVec.getLsbD_shiftLeft, Nat.add_sub_cancel_left]
        by_cases hi8 : 8 + i < w
        · simp only [hi8, hge, decide_true, decide_false, Bool.not_false, Bool.true_and]
        · simp [hi8, getLsbD_pack_of_ge bytes (i := i) (by omega)]
      have hmerge : (step poly)^[8] (x ^^^ pack w (byte :: bytes)) =
          absorb poly x byte ^^^ pack w bytes := by
        rw [pack, ← BitVec.xor_assoc, iterate_step_xor, iterate_step_high 8 _ hlow, hback]
        rfl
      rw [digest_cons, ih _ (by omega), List.length_cons, Nat.mul_succ,
        Function.iterate_add_apply, hmerge]

/-- The bit moved out comes back as the highest one, so a step can be undone. -/
theorem step_injective (feedback : poly.getLsbD (w - 1) = true) :
    Function.Injective (step poly) := by
  intro x y h
  have hbits : ∀ i, (step poly x).getLsbD i = (step poly y).getLsbD i := fun i => by rw [h]
  simp only [step, BitVec.getLsbD_xor, BitVec.getLsbD_ushiftRight] at hbits
  have hout : x.getLsbD 0 = y.getLsbD 0 := by
    have hlast := hbits (w - 1)
    rw [BitVec.getLsbD_of_ge x (1 + (w - 1)) (by omega),
      BitVec.getLsbD_of_ge y (1 + (w - 1)) (by omega)] at hlast
    cases hx : x.getLsbD 0 <;> cases hy : y.getLsbD 0 <;> simp_all
  apply BitVec.eq_of_getLsbD_eq
  intro i hi
  cases i with
  | zero => exact hout
  | succ i =>
      have hbit := hbits i
      rw [hout, Bool.xor_left_inj] at hbit
      rwa [Nat.add_comm 1 i] at hbit

theorem digest_injective (feedback : poly.getLsbD (w - 1) = true) (bytes : List UInt8) :
    Function.Injective fun x => digest poly x bytes := by
  induction bytes with
  | nil => exact Function.injective_id
  | cons byte bytes ih =>
      intro x y h
      have habsorb : absorb poly x byte = absorb poly y byte := ih h
      exact (BitVec.xor_left_inj _).mp ((step_injective feedback).iterate 8 habsorb)

/-- Two inputs that differ in a window no wider than the register leave different words. -/
theorem digest_burst (feedback : poly.getLsbD (w - 1) = true) (x : BitVec w)
    (front back : List UInt8) {bytes bytes' : List UInt8} (length : bytes.length = bytes'.length)
    (fits : 8 * bytes.length ≤ w) (ne : bytes ≠ bytes') :
    digest poly x (front ++ bytes ++ back) ≠ digest poly x (front ++ bytes' ++ back) := by
  intro h
  simp only [digest_append] at h
  have hwindow : digest poly (digest poly x front) bytes =
      digest poly (digest poly x front) bytes' := digest_injective feedback back h
  rw [digest_eq_pack _ bytes fits, digest_eq_pack _ bytes' (by omega), ← length] at hwindow
  have hword := (step_injective feedback).iterate _ hwindow
  exact ne (pack_injective length fits ((BitVec.xor_right_inj _).mp hword))

end Bursts

end Foundation.ShiftRegister
