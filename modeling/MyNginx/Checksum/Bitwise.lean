import MyNginx.Misc.Crc32
import MyNginx.Foundation.ShiftRegister

/-!
# What the table computes

`Init_CRC32_Table` builds its entries with left shifts between two calls of
`Reflect`, for a register that `Get_CRC` moves to the right. `reflect_reverse`
says that `Reflect` of a whole word is its reversal; a step of the table is then
a reversed step of the reflected register, and `getCrc_eq_bitwiseCrc` follows by
induction over the bytes.
-/

namespace MyNginx

namespace Crc32

open Foundation

/-- The polynomial of the reflected register. -/
def reflectedPolynomial : Word := 0xEDB88320

/-- The test of a single bit. -/
theorem and_twoPow_ne_zero (x : Word) {i : Nat} (hi : i < 32) :
    (x &&& BitVec.twoPow 32 i != 0) = x.getLsbD i := by
  have hpow : BitVec.twoPow 32 i ≠ 0#32 := by
    intro hzero
    have hbit := congrArg (fun y : Word => y.getLsbD i) hzero
    simp [hi] at hbit
  rw [BitVec.and_twoPow]
  cases x.getLsbD i with
  | false => simp
  | true => simpa using hpow

/-- The rounds that are left set the bits below `rounds`, the highest one first. -/
theorem getLsbD_reflectLoop {ch rounds : Nat} (ref value : Word) {i : Nat}
    (last : i + rounds = ch + 1) (short : rounds ≤ 32) (j : Nat) :
    (reflectLoop ch ref value i rounds).getLsbD j =
      (value.getLsbD j || (decide (j < rounds) && ref.getLsbD (rounds - 1 - j))) := by
  induction rounds generalizing ref value i with
  | zero => simp [reflectLoop]
  | succ rounds ih =>
      have hplace : ch - i = rounds := by omega
      have hone : (1 : Word) = BitVec.twoPow 32 0 := by decide
      have hlow : (ref &&& 1 != 0) = ref.getLsbD 0 := by
        rw [hone, and_twoPow_ne_zero ref (by omega)]
      have hset : (1#32 <<< rounds).getLsbD j = decide (j = rounds) := by
        rw [← BitVec.twoPow_eq, BitVec.getLsbD_twoPow]
        simp only [show rounds < 32 by omega, decide_true, Bool.true_and, eq_comm]
      have hvalue : (if (ref &&& 1 != 0) = true then value ||| 1#32 <<< rounds else value).getLsbD j =
          (value.getLsbD j || (ref.getLsbD 0 && decide (j = rounds))) := by
        rw [hlow]
        cases ref.getLsbD 0 with
        | false => simp only [Bool.false_eq_true, if_false, Bool.false_and, Bool.or_false]
        | true => simp only [if_true, BitVec.getLsbD_or, hset, Bool.true_and]
      rw [reflectLoop, ih _ _ (by omega) (by omega), hplace, hvalue, BitVec.getLsbD_ushiftRight,
        Bool.or_assoc]
      -- The bit set in this round is the one at `rounds`.
      rcases Nat.lt_trichotomy j rounds with hlt | rfl | hgt
      · have hnext : 1 + (rounds - 1 - j) = rounds + 1 - 1 - j := by omega
        simp [hnext, hlt, Nat.ne_of_lt hlt, Nat.lt_succ_of_lt hlt]
      · simp
      · have hge : ¬ j < rounds + 1 := by omega
        simp [hge, Nat.not_lt_of_lt hgt, Nat.ne_of_gt hgt]

theorem getLsbD_reverse (x : Word) {j : Nat} (hj : j < 32) :
    x.reverse.getLsbD j = x.getLsbD (31 - j) := by
  rw [BitVec.getLsbD_reverse, BitVec.getMsbD_eq_getLsbD]
  simp only [hj, decide_true, Bool.true_and]

theorem reflect_reverse (ref : Word) : reflect ref 32 = ref.reverse := by
  apply BitVec.eq_of_getLsbD_eq
  intro j hj
  rw [reflect, getLsbD_reflectLoop ref 0 (by omega) (by omega), getLsbD_reverse ref hj]
  simp [hj]

/-- The low byte, reversed and moved to the top, is the reversal of the word. -/
theorem reflect_eight (i : Word) (byte : i.toNat < 256) : reflect i 8 <<< 24 = i.reverse := by
  apply BitVec.eq_of_getLsbD_eq
  intro j hj
  have hhigh : ∀ k, 8 ≤ k → i.getLsbD k = false := by
    intro k hk
    exact Nat.testBit_lt_two_pow
      (Nat.lt_of_lt_of_le byte (Nat.pow_le_pow_right (Nat.succ_pos 1) hk))
  rw [BitVec.getLsbD_shiftLeft, reflect, getLsbD_reflectLoop i 0 (by omega) (by omega),
    getLsbD_reverse i hj]
  by_cases hlow : j < 24
  · simp [hlow, hhigh (31 - j) (by omega)]
  · have hplace : 8 - 1 - (j - 24) = 31 - j := by omega
    simp [hlow, hj, hplace, show j - 24 < 8 by omega]

theorem tableStep_reverse (x : Word) :
    tableStep x.reverse = (ShiftRegister.step reflectedPolynomial x).reverse := by
  have htop : (x.reverse &&& (1#32 <<< 31) != 0) = x.getLsbD 0 := by
    have hbit := and_twoPow_ne_zero x.reverse (show 31 < 32 by omega)
    rwa [getLsbD_reverse x (by omega), BitVec.twoPow_eq] at hbit
  have hpolynomial : ulPolynomial = reflectedPolynomial.reverse := by decide +kernel
  apply BitVec.eq_of_getLsbD_eq
  intro j hj
  rw [tableStep, htop, getLsbD_reverse _ hj, hpolynomial]
  have hadd : (if x.getLsbD 0 = true then reflectedPolynomial.reverse else 0#32).getLsbD j =
      (if x.getLsbD 0 = true then reflectedPolynomial else 0#32).getLsbD (31 - j) := by
    cases x.getLsbD 0 with
    | false => simp
    | true => exact getLsbD_reverse _ hj
  have hmove : (x.reverse <<< 1).getLsbD j = (x >>> 1).getLsbD (31 - j) := by
    rw [BitVec.getLsbD_shiftLeft, BitVec.getLsbD_ushiftRight]
    cases j with
    | zero => simp
    | succ j =>
        have hplace : 1 + (31 - (j + 1)) = 31 - j := by omega
        rw [hplace, Nat.add_sub_cancel, getLsbD_reverse x (by omega)]
        simp [hj]
  rw [BitVec.getLsbD_xor, ShiftRegister.step, BitVec.getLsbD_xor, hmove]
  exact congrArg _ hadd

theorem crc32Table_eq (i : Word) (byte : i.toNat < 256) :
    crc32Table i = (ShiftRegister.step reflectedPolynomial)^[8] i := by
  have hrepeat : ∀ n, Nat.repeat tableStep n i.reverse =
      ((ShiftRegister.step reflectedPolynomial)^[n] i).reverse := by
    intro n
    induction n with
    | zero => rfl
    | succ n ih => rw [Nat.repeat, ih, tableStep_reverse, Function.iterate_succ_apply']
  rw [crc32Table, reflect_eight i byte, hrepeat, reflect_reverse, BitVec.reverse_reverse_eq]

theorem getCrc_step (crc : Word) (byte : UInt8) :
    (crc >>> 8) ^^^ crc32Table ((crc &&& 0xff) ^^^ BitVec.ofNat 32 byte.toNat) =
      ShiftRegister.absorb reflectedPolynomial crc byte := by
  have hbyte : BitVec.ofNat 32 byte.toNat = byte.toBitVec.setWidth 32 := by
    apply BitVec.eq_of_toNat_eq
    simp
  have hlow : crc &&& 0xff = ShiftRegister.lowBits 8 crc := by
    apply BitVec.eq_of_toNat_eq
    have hmask : (0xff : Word).toNat = 2 ^ 8 - 1 := rfl
    rw [BitVec.toNat_and, hmask, Nat.and_two_pow_sub_one_eq_mod, ShiftRegister.lowBits,
      BitVec.toNat_setWidth, BitVec.toNat_setWidth]
    omega
  have hindex : (ShiftRegister.lowBits 8 crc ^^^ byte.toBitVec.setWidth 32).toNat < 2 ^ 8 := by
    rw [BitVec.toNat_xor]
    apply Nat.xor_lt_two_pow
    · rw [ShiftRegister.lowBits, BitVec.toNat_setWidth, BitVec.toNat_setWidth]
      omega
    · rw [BitVec.toNat_setWidth]
      exact Nat.lt_of_le_of_lt (Nat.mod_le _ _) byte.toBitVec.isLt
  rw [hbyte, hlow, crc32Table_eq _ hindex, ShiftRegister.absorb_eq]

theorem getCrc_foldl (crc : Word) (buffer : List UInt8) :
    buffer.foldl (fun (crc : Word) byte =>
        (crc >>> 8) ^^^ crc32Table ((crc &&& 0xff) ^^^ BitVec.ofNat 32 byte.toNat)) crc =
      ShiftRegister.digest reflectedPolynomial crc buffer := by
  induction buffer generalizing crc with
  | nil => rfl
  | cons byte buffer ih => rw [List.foldl_cons, getCrc_step, ih, ShiftRegister.digest_cons]

theorem getCrc_eq_complement (buffer : List UInt8) :
    getCrc buffer = ~~~ ShiftRegister.digest reflectedPolynomial 0xFFFFFFFF#32 buffer := by
  rw [getCrc, getCrc_foldl]
  exact BitVec.xor_allOnes

/-- One step of the checksum by bits: shift right by one, and add the polynomial if
the bit shifted out was 1. -/
def bitwiseStep (register : Word) : Word :=
  if register.getLsbD 0 then (register >>> 1) ^^^ 0xEDB88320#32 else register >>> 1

/-- The checksum by bits: every byte is added to the low eight bits of a register that
starts with all bits set, and shifted out; the result is complemented. -/
def bitwiseCrc (buffer : List UInt8) : Word :=
  ~~~ buffer.foldl
    (fun register byte => bitwiseStep^[8] (register ^^^ byte.toBitVec.setWidth 32)) 0xFFFFFFFF#32

theorem bitwiseStep_eq : bitwiseStep = ShiftRegister.step reflectedPolynomial := by
  funext register
  rw [bitwiseStep, ShiftRegister.step]
  split
  · rfl
  · exact BitVec.xor_zero.symm

theorem getCrc_eq_bitwiseCrc (buffer : List UInt8) : getCrc buffer = bitwiseCrc buffer := by
  rw [getCrc_eq_complement, bitwiseCrc, bitwiseStep_eq]
  rfl

end Crc32

end MyNginx
