import MyNginx.App.FuncString
import MyNginx.Foundation.Heap
import MyNginx.Foundation.Numerals

/-!
# Reading the configuration file

`CConfig::Load` keeps one item of each line it accepts. The two copies it makes are not
checked: what they need is that their source is no null pointer and fits, with its
terminator, in the member it is copied to. `GetString` and `GetInt` look an item up by its
name; `atoi` is undefined for a number that is no `int`.
-/

namespace MyNginx

open Foundation

def lineSize : Nat := 200

/-- An array member of `n` bytes. -/
abbrev CharArray (n : Nat) := { bytes : List UInt8 // bytes.length = n }

structure ConfItem where
  itemname : CharArray 30
  itemvalue : CharArray 60
  deriving DecidableEq, Repr

namespace ConfItem

/-- After `memset`. -/
def zero : ConfItem where
  itemname := ⟨List.replicate 30 0, List.length_replicate⟩
  itemvalue := ⟨List.replicate 60 0, List.length_replicate⟩

/-- The strings that the other functions of `CConfig` see. -/
def name (item : ConfItem) : List UInt8 := cstr item.itemname

def value (item : ConfItem) : List UInt8 := cstr item.itemvalue

end ConfItem

namespace CConfig

/-- What makes a copy undefined. -/
inductive Fault where
  | nullSource
  | overflow
  deriving DecidableEq, Repr

/-- `strcpy` to the start of an array member. -/
def strcpy {n : Nat} (dst : CharArray n) : Option (List UInt8) → Except Fault (CharArray n)
  | none => .error .nullSource
  | some src =>
      if h : src.length < n then
        .ok ⟨overwrite dst.1 0 (src ++ [0]), by
          rw [length_overwrite, dst.2]
          rw [List.length_append, List.length_singleton, dst.2, Nat.zero_add]
          exact h⟩
      else .error .overflow

/-- The body of the loop, for what `fgets` has stored in `line`. -/
def loadLine (line : List UInt8) : Except Fault (Option ConfItem) :=
  let strline := ltrim (cstr line)
  match strline with
  | [] => .ok none
  | first :: _ =>
      -- A negative `char` is a byte above 127.
      if 127 < first then .ok none
      else if first = newline ∨ first = carriageReturn ∨ first = hash ∨ first = bracket then .ok none
      else
        -- The first byte that is cleared ends the string, and with it the loop.
        let strline := strline.takeWhile (· ≠ hash)
        let strline := (rtrim strline).1
        if equals ∈ strline then
          let sepline := strline.dropWhile (· ≠ equals)
          let strline := strline.takeWhile (· ≠ equals)
          (strcpy ConfItem.zero.itemvalue (some (ltrim sepline.tail))).bind fun itemvalue =>
          (strcpy ConfItem.zero.itemname (rtrim strline).2).map fun itemname =>
            some { itemname, itemvalue }
        else .ok none

/-- The loop of `Load`, for at most `fuel` rounds. -/
def loadLoop : Nat → Stream → List ConfItem → Option (Except Fault (List ConfItem))
  | 0, _, _ => none
  | fuel + 1, fp, items =>
      if fp.eof then some (.ok items)
      else
        match fgets (lineSize - 1) fp with
        | (none, fp) => loadLoop fuel fp items
        | (some line, fp) =>
            match loadLine line with
            | .error fault => some (.error fault)
            | .ok none => loadLoop fuel fp items
            | .ok (some item) => loadLoop fuel fp (items ++ [item])

/-- `Load`; there is no file if `fopen` fails. -/
def load (items : List ConfItem) : Option (List UInt8) →
    Option (Except Fault (Bool × List ConfItem))
  | none => some (.ok (false, items))
  | some content =>
      (loadLoop (content.length + 2) ⟨content, false⟩ items).map fun result =>
        result.map fun items => (true, items)

/-- `GetString`, with a null pointer if there is no such item. -/
def getString (itemname : List UInt8) : List ConfItem → Option (List UInt8)
  | [] => none
  | item :: items =>
      if item.name = itemname then some item.value else getString itemname items

abbrev plus : UInt8 := 43
abbrev minus : UInt8 := 45

/-- What `isspace` accepts. -/
def isSpace (c : UInt8) : Bool := c = space || (9 ≤ c && c ≤ 13)

def isDecimal (c : UInt8) : Bool := 48 ≤ c && c ≤ 57

/-- The number that the leading digits of a string spell. -/
def digitsOf (string : List UInt8) : Nat :=
  readNumeral 10 (fun c => c.toNat - 48) (string.takeWhile isDecimal)

/-- `atoi`. -/
def atoi (string : List UInt8) : Option Int :=
  let n : Int :=
    match string.dropWhile isSpace with
    | [] => 0
    | c :: digits =>
        if c = minus then -digitsOf digits
        else if c = plus then digitsOf digits
        else digitsOf (c :: digits)
  if -2 ^ 31 ≤ n ∧ n < 2 ^ 31 then some n else none

/-- `GetInt`. -/
def getInt (itemname : List UInt8) (byDefault : Int) : List ConfItem → Option Int
  | [] => some byDefault
  | item :: items =>
      if item.name = itemname then atoi item.value else getInt itemname byDefault items

end CConfig

end MyNginx
