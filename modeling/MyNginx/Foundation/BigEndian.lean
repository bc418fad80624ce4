import Mathlib

/-!
# Unsigned numbers in network byte order

`decode` reads a list of bytes as a number, the most significant byte first;
`encode n v` writes the lowest `n` bytes of `v` in that order. On either kind
of machine they are what the conversions between host and network order
compute from the bytes of a field.
-/

namespace Foundation.BigEndian

def decode (bytes : List UInt8) : Nat :=
  bytes.foldl (fun acc b => acc * 256 + b.toNat) 0

def encode : Nat → Nat → List UInt8
  | 0, _ => []
  | n + 1, v => encode n (v / 256) ++ [UInt8.ofNat v]

@[simp] theorem decode_nil : decode [] = 0 := rfl

@[simp] theorem decode_concat (bytes : List UInt8) (b : UInt8) :
    decode (bytes ++ [b]) = decode bytes * 256 + b.toNat := by
  simp [decode]

@[simp] theorem length_encode (n v : Nat) : (encode n v).length = n := by
  induction n generalizing v with
  | zero => rfl
  | succ n ih => simp [encode, ih]

theorem decode_encode (n v : Nat) : decode (encode n v) = v % 256 ^ n := by
  induction n generalizing v with
  | zero => simp [encode, Nat.mod_one]
  | succ n ih =>
      have hb : (UInt8.ofNat v).toNat = v % 256 := by simp
      rw [encode, decode_concat, ih, hb, Nat.pow_succ, Nat.mul_comm (256 ^ n) 256, Nat.mod_mul]
      omega

theorem decode_lt (bytes : List UInt8) : decode bytes < 256 ^ bytes.length := by
  induction bytes using List.reverseRecOn with
  | nil => simp
  | append_singleton bytes b ih =>
      have hb : b.toNat < 256 := b.toNat_lt
      rw [decode_concat, List.length_append, List.length_singleton, Nat.pow_succ]
      omega

end Foundation.BigEndian
