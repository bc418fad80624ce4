import Mathlib

/-!
# The checksum of `c_crc32.cxx`

`crc32_table` is computed as the constructor does it. An `unsigned int` is a
`BitVec 32`.
-/

namespace MyNginx

namespace Crc32

abbrev Word := BitVec 32

/-- The rounds `i, i + 1, …, ch` of the loop of `Reflect`. -/
def reflectLoop (ch : Nat) (ref value : Word) (i : Nat) : Nat → Word
  | 0 => value
  | rounds + 1 =>
      let value := if ref &&& 1 != 0 then value ||| (1#32 <<< (ch - i)) else value
      reflectLoop ch (ref >>> 1) value (i + 1) rounds

/-- `Reflect`: swap the low `ch` bits end for end. -/
def reflect (ref : Word) (ch : Nat) : Word := reflectLoop ch ref 0 1 ch

def ulPolynomial : Word := 0x04c11db7

/-- One round of the inner loop of `Init_CRC32_Table`. -/
def tableStep (entry : Word) : Word :=
  (entry <<< 1) ^^^ (if entry &&& (1#32 <<< 31) != 0 then ulPolynomial else 0)

/-- `crc32_table[i]`. -/
def crc32Table (i : Word) : Word :=
  reflect (Nat.repeat tableStep 8 (reflect i 8 <<< 24)) 32

/-- `Get_CRC` of the bytes of a buffer. -/
def getCrc (buffer : List UInt8) : Word :=
  let crc : Word := buffer.foldl
    (fun (crc : Word) byte =>
      (crc >>> 8) ^^^ crc32Table ((crc &&& 0xff) ^^^ BitVec.ofNat 32 byte.toNat))
    0xffffffff
  crc ^^^ 0xffffffff

end Crc32

end MyNginx
