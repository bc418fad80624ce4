import Mathlib
import MyNginx.Foundation.Lines

/-!
# Trimming strings

A C string is the list of its bytes, without the terminator. A pointer into a string is
what the string has from there on, and storing a zero byte at such a place cuts it off.
-/

namespace MyNginx

abbrev space : UInt8 := 32
abbrev carriageReturn : UInt8 := 13
abbrev hash : UInt8 := 35
abbrev equals : UInt8 := 61
abbrev bracket : UInt8 := 91

/-- `Ltrim`. -/
def ltrim : List UInt8 → List UInt8
  | [] => []
  | b :: line => if b ≠ space then b :: line else ltrim line

/-- What `Rtrim` removes at the end of a string. -/
def isTrailing (b : UInt8) : Bool := b = space || b = Foundation.newline || b = carriageReturn

/-- `Rtrim`: the string it leaves, and the pointer it returns, which is null when nothing
is left. -/
def rtrim (string : List UInt8) : List UInt8 × Option (List UInt8) :=
  let string := string.rdropWhile isTrailing
  (string, if string = [] then none else some string)

theorem ltrim_eq (line : List UInt8) : ltrim line = line.dropWhile (· = space) := by
  induction line with
  | nil => rfl
  | cons b line ih =>
      simp only [ltrim, List.dropWhile_cons]
      by_cases hb : b = space <;> simp [hb, ih]

/-- The end of a string stops being trimmed at a byte that stays. -/
theorem rdropWhile_append_cons {b : UInt8} (h : isTrailing b = false) (front back : List UInt8) :
    (front ++ b :: back).rdropWhile isTrailing = front ++ b :: back.rdropWhile isTrailing := by
  induction back using List.reverseRecOn with
  | nil =>
      rw [List.rdropWhile_nil, List.rdropWhile_concat_neg _ _ _ (by simp [h])]
  | append_singleton back c ih =>
      have hassoc : front ++ b :: (back ++ [c]) = (front ++ b :: back) ++ [c] := by simp
      rw [hassoc]
      by_cases hc : isTrailing c = true
      · rw [List.rdropWhile_concat_pos _ _ _ hc, List.rdropWhile_concat_pos _ _ _ hc, ih]
      · rw [List.rdropWhile_concat_neg _ _ _ hc, List.rdropWhile_concat_neg _ _ _ hc, ← hassoc]

end MyNginx
