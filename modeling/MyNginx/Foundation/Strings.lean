import Mathlib
import MyNginx.Foundation.Heap

/-!
# Terminated strings in blocks of memory

The memory is a family of blocks, and a pointer is an offset in one of them. A store is
undefined unless all its cells lie inside the block, and so is the string at a pointer if
no terminator follows. `packed` lays strings out one behind the other, each with its
terminator, and `places` says where they start: packed strings are read back from their
places (`reads_packed`), which do not overlap (`places_apart`) and stay inside
(`places_inside`).
-/

namespace Foundation

universe u v

structure Pointer (β : Type u) where
  block : β
  offset : Nat
  deriving DecidableEq, Repr

abbrev Memory (β : Type u) (α : Type v) := β → List α

variable {β : Type u} {α : Type v}

section Places

variable {b : β} {offset : Nat} {str : List α} {strings : List (List α)}

/-- The room that strings need with their terminators. -/
def packedSize (strings : List (List α)) : Nat := (strings.map fun str => str.length + 1).sum

/-- Where packed strings start, if the first one starts at `offset`. -/
def places (b : β) (offset : Nat) : List (List α) → List (Pointer β)
  | [] => []
  | str :: strings => ⟨b, offset⟩ :: places b (offset + (str.length + 1)) strings

@[simp] theorem packedSize_nil : packedSize ([] : List (List α)) = 0 := rfl

@[simp] theorem packedSize_cons :
    packedSize (str :: strings) = str.length + 1 + packedSize strings := by
  rw [packedSize, List.map_cons, List.sum_cons, packedSize]

theorem packedSize_append (strings more : List (List α)) :
    packedSize (strings ++ more) = packedSize strings + packedSize more := by
  rw [packedSize, List.map_append, List.sum_append, packedSize, packedSize]

@[simp] theorem length_places (strings : List (List α)) :
    (places b offset strings).length = strings.length := by
  induction strings generalizing offset with
  | nil => rfl
  | cons str strings ih => rw [places, List.length_cons, ih, List.length_cons]

theorem block_of_mem_places {p : Pointer β} (h : p ∈ places b offset strings) : p.block = b := by
  induction strings generalizing offset with
  | nil => cases h
  | cons str strings ih =>
      cases h with
      | head => rfl
      | tail _ h => exact ih h

/-- Each string lies with its terminator between the offset and a bound for the packing. -/
theorem places_within {bound : Nat} (h : offset + packedSize strings ≤ bound) :
    List.Forall₂ (fun (p : Pointer β) (str : List α) =>
        p.block = b ∧ offset ≤ p.offset ∧ p.offset + (str.length + 1) ≤ bound)
      (places b offset strings) strings := by
  induction strings generalizing offset with
  | nil => exact .nil
  | cons str strings ih =>
      rw [packedSize_cons] at h
      have hfirst : offset + (str.length + 1) ≤ bound := by omega
      have hrest := @ih (offset + (str.length + 1)) (by omega)
      refine .cons ⟨rfl, Nat.le_refl _, hfirst⟩ (hrest.imp fun p other hother => ?_)
      exact ⟨hother.1, Nat.le_trans (Nat.le_add_right _ _) hother.2.1, hother.2.2⟩

/-- The places lie apart, with the room that each string needs. -/
theorem places_apart : ((places b offset strings).zip strings).Pairwise fun first second =>
    first.1.offset + (first.2.length + 1) ≤ second.1.offset := by
  induction strings generalizing offset with
  | nil => exact .nil
  | cons str strings ih =>
      refine .cons (fun entry hentry => ?_) ih
      have hwithin := List.forall₂_iff_zip.mp
        (places_within (b := b) (Nat.le_refl (offset + (str.length + 1) + packedSize strings)))
      exact (hwithin.2 hentry).2.1

end Places

section Packed

variable [Zero α]

/-- Strings one behind the other, each with its terminator. -/
def packed : List (List α) → List α
  | [] => []
  | str :: strings => str ++ 0 :: packed strings

@[simp] theorem length_packed (strings : List (List α)) :
    (packed strings).length = packedSize strings := by
  induction strings with
  | nil => rfl
  | cons str strings ih =>
      rw [packed, List.length_append, List.length_cons, ih, packedSize_cons]
      omega

theorem packed_append (strings more : List (List α)) :
    packed (strings ++ more) = packed strings ++ packed more := by
  induction strings with
  | nil => rfl
  | cons str strings ih =>
      rw [List.cons_append, packed, packed, ih, List.append_assoc, List.cons_append]

end Packed

namespace Memory

section Store

variable [DecidableEq β] {m : Memory β α} {b : β} {p : Pointer β} {front old cells back : List α}

/-- Store cells from a pointer on. -/
def store (m : Memory β α) (p : Pointer β) (cells : List α) : Option (Memory β α) :=
  if p.offset + cells.length ≤ (m p.block).length then
    some (Function.update m p.block (overwrite (m p.block) p.offset cells))
  else none

/-- A store replaces as many cells as it brings. -/
theorem store_eq (h : m b = front ++ old ++ back) (hlen : cells.length = old.length) :
    m.store ⟨b, front.length⟩ cells = some (Function.update m b (front ++ cells ++ back)) := by
  have hfits : front.length + cells.length ≤ (m b).length := by
    rw [h, List.length_append, List.length_append]
    omega
  have htake : (m b).take front.length = front := by
    rw [h, List.append_assoc, List.take_left]
  have hdrop : (m b).drop (front.length + cells.length) = back := by
    rw [h, hlen, ← List.length_append, List.drop_left]
  rw [store, if_pos hfits, overwrite, htake, hdrop]

theorem store_eq_none (h : (m p.block).length < p.offset + cells.length) :
    m.store p cells = none := by
  rw [store, if_neg (Nat.not_le_of_lt h)]

end Store

section Read

variable [DecidableEq α] [Zero α] {m m' : Memory β α} {b : β} {p : Pointer β}
  {str front back : List α} {strings : List (List α)}

/-- The string at a pointer. -/
def string (m : Memory β α) (p : Pointer β) : Option (List α) :=
  let cells := (m p.block).drop p.offset
  if 0 ∈ cells then some (cells.takeWhile (· ≠ 0)) else none

theorem takeWhile_terminated (h : (0 : α) ∉ str) (back : List α) :
    (str ++ 0 :: back).takeWhile (· ≠ 0) = str := by
  have hstr : ∀ a ∈ str, decide (a ≠ 0) = true := by
    intro a ha
    exact decide_eq_true fun hzero => h (hzero ▸ ha)
  rw [List.takeWhile_append_of_pos hstr, List.takeWhile_cons_of_neg (by simp), List.append_nil]

theorem string_eq (h : m b = front ++ str ++ 0 :: back) (hstr : 0 ∉ str) :
    m.string ⟨b, front.length⟩ = some str := by
  have hdrop : (m b).drop front.length = str ++ 0 :: back := by
    rw [h, List.append_assoc, List.drop_left]
  simp only [string, hdrop, takeWhile_terminated hstr]
  rw [if_pos (by simp)]

/-- Only the block of the pointer matters. -/
theorem string_congr (h : m' p.block = m p.block) : m'.string p = m.string p := by
  simp only [string, h]

/-- Each of the strings is at its pointer. -/
def Reads (m : Memory β α) (pointers : List (Pointer β)) (strings : List (List α)) : Prop :=
  List.Forall₂ (fun p str => m.string p = some str) pointers strings

/-- Packed strings are read back from their places. -/
theorem reads_packed (h : m b = front ++ packed strings ++ back)
    (hzero : ∀ str ∈ strings, 0 ∉ str) : m.Reads (places b front.length strings) strings := by
  induction strings generalizing front with
  | nil => exact .nil
  | cons str strings ih =>
      have hfirst : m b = front ++ str ++ 0 :: (packed strings ++ back) := by
        rw [h, packed]
        simp only [List.append_assoc, List.cons_append]
      have hrest : m b = (front ++ (str ++ [0])) ++ packed strings ++ back := by
        rw [hfirst]
        simp only [List.append_assoc, List.cons_append, List.nil_append]
      have hlength : (front ++ (str ++ [0])).length = front.length + (str.length + 1) := by
        simp only [List.length_append, List.length_singleton]
      have ih := ih hrest fun other hother => hzero other (List.mem_cons_of_mem _ hother)
      rw [hlength] at ih
      exact .cons (string_eq hfirst (hzero str List.mem_cons_self)) ih

/-- Pointers into blocks that did not change. -/
theorem Reads.congr {pointers : List (Pointer β)} (h : m.Reads pointers strings)
    (heq : ∀ p ∈ pointers, m' p.block = m p.block) : m'.Reads pointers strings := by
  induction h with
  | nil => exact .nil
  | @cons p str pointers strings hread hrest ih =>
      refine .cons ?_ (ih fun q hq => heq q (List.mem_cons_of_mem _ hq))
      rw [string_congr (heq p List.mem_cons_self)]
      exact hread

end Read

section Copy

variable [DecidableEq β] [Zero α]

/-- `strncpy`: at most `n` cells of the string, and zeros up to `n` if it is shorter. -/
def strncpy (m : Memory β α) (dst : Pointer β) (src : List α) (n : Nat) : Option (Memory β α) :=
  m.store dst ((src ++ List.replicate (n - src.length) 0).take n)

/-- `memset` with zero. -/
def clear (m : Memory β α) (dst : Pointer β) (n : Nat) : Option (Memory β α) :=
  m.store dst (List.replicate n 0)

/-- `strcpy`. -/
def strcpy (m : Memory β α) (dst : Pointer β) (src : List α) : Option (Memory β α) :=
  m.store dst (src ++ [0])

/-- `strcat`. -/
def strcat [DecidableEq α] (m : Memory β α) (dst : Pointer β) (src : List α) :
    Option (Memory β α) :=
  (m.string dst).bind fun front => m.strcpy ⟨dst.block, dst.offset + front.length⟩ src

theorem strncpy_terminated (m : Memory β α) (dst : Pointer β) (src : List α) :
    m.strncpy dst src (src.length + 1) = m.store dst (src ++ [0]) := by
  rw [strncpy, Nat.add_sub_cancel_left, List.replicate_one, List.take_of_length_le (by simp)]

/-- A string copied to the end of what is filled of a cleared block. -/
theorem strncpy_cleared {m : Memory β α} {b : β} {cells str : List α} {n : Nat}
    (h : m b = cells ++ List.replicate (str.length + 1 + n) 0) :
    m.strncpy ⟨b, cells.length⟩ str (str.length + 1) =
      some (Function.update m b ((cells ++ (str ++ [0])) ++ List.replicate n 0)) := by
  rw [List.replicate_add, ← List.append_assoc] at h
  rw [strncpy_terminated, store_eq h (by simp)]

theorem strncpy_length (m : Memory β α) (dst : Pointer β) (src : List α) :
    m.strncpy dst src src.length = m.store dst src := by
  rw [strncpy, Nat.sub_self, List.replicate_zero, List.append_nil, List.take_length]

end Copy

end Memory

end Foundation
