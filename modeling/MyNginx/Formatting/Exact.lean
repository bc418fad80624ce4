import MyNginx.Formatting.Numbers

/-!
# Formats without widths

A format without widths and precisions, made of literals, `%d`, `%ud`, `%s`, `%p` and `%%`,
has an obvious reference text. With a byte more room than this text needs, `fmt_string`
prints exactly it.
-/

namespace MyNginx

namespace Format

open Foundation

/-- What such a format is made of, with the arguments. -/
inductive Item where
  | literal (c : UInt8) (plain : c ≠ 0 ∧ c ≠ percent)
  | percentSign
  | int (value : BitVec 32)
  | unsigned (value : BitVec 32)
  | pid (value : BitVec 32)
  | string (lpStr : List UInt8)

namespace Item

def spelling : Item → List UInt8
  | literal c _ => [c]
  | percentSign => [percent, percent]
  | int _ => [percent, letterD]
  | unsigned _ => [percent, letterU, letterD]
  | pid _ => [percent, letterP]
  | string _ => [percent, letterS]

def arguments : Item → List Arg
  | literal .. | percentSign => []
  | int value | unsigned value | pid value => [.word value]
  | string lpStr => [.str lpStr]

/-- A number in the usual decimal notation. -/
def decimal (i64 : Int) : List UInt8 :=
  if i64 < 0 then minus :: number .decimal i64.natAbs else number .decimal i64.natAbs

/-- The reference text. -/
def text : Item → List UInt8
  | literal c _ => [c]
  | percentSign => [percent]
  | int value | pid value => decimal value.toInt
  | unsigned value => decimal value.toNat
  | string lpStr => cstr lpStr

/-- The item as a piece of a call. -/
def piece : Item → Piece
  | literal c plain => .literal c plain
  | percentSign => .percentSign ⟨[], [], none⟩
  | int value => .int ⟨[], [], none⟩ value
  | unsigned value => .int ⟨[], [.u], none⟩ value
  | pid value => .pid ⟨[], [], none⟩ value
  | string lpStr => .string ⟨[], [], none⟩ lpStr

theorem spelling_piece (item : Item) : item.piece.spelling = item.spelling := by
  cases item <;> rfl

theorem arguments_piece (item : Item) : item.piece.arguments = item.arguments := by
  cases item <;> rfl

theorem defined_piece (item : Item) : item.piece.Defined := by
  cases item <;> trivial

/-- Without a width a number has its minimal digits. -/
theorem padded_none (zero : UInt8) (ui64 : Nat) :
    padded zero .decimal 0 ui64 = number .decimal ui64 := by
  rw [padded_eq_field (.inl rfl) (.inl rfl), field, Nat.zero_max, Nat.sub_self,
    List.replicate_zero, List.nil_append]

theorem signed_none (zero : UInt8) (i64 : Int) : signed zero .decimal 0 i64 = decimal i64 := by
  rw [signed, padded_none, signText, decimal]
  split <;> rfl

theorem output_piece (item : Item) : item.piece.output = item.text := by
  cases item with
  | literal c plain => rfl
  | percentSign => rfl
  | int value => exact signed_none space value.toInt
  | unsigned value =>
      change padded space .decimal 0 value.toNat = decimal value.toNat
      rw [padded_none, decimal, if_neg (Int.not_lt.mpr (Int.natCast_nonneg _)), Int.natAbs_natCast]
  | pid value => exact signed_none space value.toInt
  | string lpStr => rfl

end Item

/-- The format, its arguments and the reference text of a list of items. -/
def spellings (items : List Item) : List UInt8 := items.flatMap Item.spelling

def itemArguments (items : List Item) : List Arg := items.flatMap Item.arguments

def texts (items : List Item) : List UInt8 := items.flatMap Item.text

theorem format_pieces (items : List Item) :
    format (items.map Item.piece) = spellings items ∧
      arguments (items.map Item.piece) = itemArguments items ∧
        output (items.map Item.piece) = texts items := by
  simp only [format, arguments, output, spellings, itemArguments, texts, List.flatMap_map,
    Item.spelling_piece, Item.arguments_piece, Item.output_piece, and_self]

/-- With a byte more room than the reference text needs, `fmt_string` prints this text, and
returns the pointer behind it. -/
theorem fmtString_exact (items : List Item) {b last : Nat}
    (room : b + (texts items).length < last) :
    Writes (fmtString last (Output.start b) (spellings items) (itemArguments items)) b
      (texts items) := by
  obtain ⟨hformat, harguments, houtput⟩ := format_pieces items
  have hdefined : ∀ piece ∈ items.map Item.piece, piece.Defined := by
    intro piece hmem
    obtain ⟨item, -, rfl⟩ := List.mem_map.mp hmem
    exact item.defined_piece
  rw [← houtput] at room
  rw [← hformat, ← harguments, fmtString_eq, Output.start, runPieces_full hdefined _ room, houtput]
  exact writes_printed b (texts items)

/-- `%d%%` of the least `int` needs thirteen bytes. -/
theorem fmtString_exact_least :
    Writes (fmtString 13 (Output.start 0) (spellings [.int (BitVec.intMin 32), .percentSign])
        (itemArguments [.int (BitVec.intMin 32), .percentSign])) 0
      [45, 50, 49, 52, 55, 52, 56, 51, 54, 52, 56, 37] :=
  fmtString_exact [.int (BitVec.intMin 32), .percentSign] (by decide)

end Format

end MyNginx
