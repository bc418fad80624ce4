import Mathlib

/-!
# Blocks of dynamically allocated memory

A heap maps block numbers to the contents of live blocks. `alloc` takes a
number that no block had before, so a pointer kept after `free` never becomes
valid again; reading, updating or freeing a block that is not live gives `none`.
`overwrite` is the copy of consecutive cells into a block of fixed size.
-/

namespace Foundation

universe u

variable {α : Type u}

/-- Store `cells` at positions `off, off + 1, …` of a list; the caller checks the bounds. -/
def overwrite (block : List α) (off : Nat) (cells : List α) : List α :=
  block.take off ++ cells ++ block.drop (off + cells.length)

theorem length_overwrite {block cells : List α} {off : Nat}
    (h : off + cells.length ≤ block.length) :
    (overwrite block off cells).length = block.length := by
  simp only [overwrite, List.length_append, List.length_take, List.length_drop]
  omega

/-- A write extends the prefix known so far by exactly the written cells. -/
theorem take_overwrite_add {block cells : List α} {off : Nat} (h : off ≤ block.length) :
    (overwrite block off cells).take (off + cells.length) = block.take off ++ cells := by
  have hlen : (block.take off ++ cells).length = off + cells.length := by
    simp [Nat.min_eq_left h]
  rw [overwrite, ← hlen, List.take_left]

/-- Cells behind the written interval keep their contents. -/
theorem drop_overwrite {block cells : List α} {off n : Nat} (h : off ≤ block.length)
    (hn : off + cells.length ≤ n) : (overwrite block off cells).drop n = block.drop n := by
  have hlen : (block.take off ++ cells).length = off + cells.length := by
    simp [Nat.min_eq_left h]
  rw [overwrite, List.drop_append, List.drop_of_length_le (by omega), List.nil_append, hlen,
    List.drop_drop]
  congr 1
  omega

/-- Live blocks by number; every number from `next` on is unused. -/
structure Heap (α : Type u) where
  next : Nat
  cell : Nat → Option α

namespace Heap

def empty : Heap α := ⟨0, fun _ => none⟩

/-- The contents of a live block. -/
def get (h : Heap α) (b : Nat) : Option α := h.cell b

/-- Allocate a fresh block holding `a`. -/
def alloc (h : Heap α) (a : α) : Nat × Heap α :=
  (h.next, ⟨h.next + 1, fun b => if b = h.next then some a else h.cell b⟩)

/-- Make a block dead; nothing happens when it already is. -/
def release (h : Heap α) (b : Nat) : Heap α :=
  ⟨h.next, fun b' => if b' = b then none else h.cell b'⟩

/-- Free a live block; freeing twice is an error. -/
def free (h : Heap α) (b : Nat) : Option (Heap α) :=
  (h.get b).map fun _ => h.release b

/-- The heap in which block `b` holds `a`. -/
def set (h : Heap α) (b : Nat) (a : α) : Heap α :=
  ⟨h.next, fun b' => if b' = b then some a else h.cell b'⟩

/-- Replace the contents of a live block. -/
def update (h : Heap α) (b : Nat) (f : α → Option α) : Option (Heap α) :=
  (h.get b).bind fun a => (f a).map (h.set b)

@[simp] theorem alloc_fst (h : Heap α) (a : α) : (h.alloc a).1 = h.next := rfl

@[simp] theorem alloc_next (h : Heap α) (a : α) : (h.alloc a).2.next = h.next + 1 := rfl

@[simp] theorem get_alloc_self (h : Heap α) (a : α) : (h.alloc a).2.get h.next = some a := by
  simp [alloc, get]

theorem get_alloc_ne {h : Heap α} {a : α} {b : Nat} (hb : b ≠ h.next) :
    (h.alloc a).2.get b = h.get b := by
  simp [alloc, get, hb]

@[simp] theorem release_next (h : Heap α) (b : Nat) : (h.release b).next = h.next := rfl

@[simp] theorem get_release_self (h : Heap α) (b : Nat) : (h.release b).get b = none := by
  simp [release, get]

theorem get_release_ne {h : Heap α} {b b' : Nat} (hb : b' ≠ b) :
    (h.release b).get b' = h.get b' := by
  simp [release, get, hb]

theorem get_release_some {h : Heap α} {b b' : Nat} {a : α}
    (hg : (h.release b).get b' = some a) : h.get b' = some a := by
  by_cases hb : b' = b
  · subst hb
    simp at hg
  · rwa [get_release_ne hb] at hg

theorem free_eq_some {h h' : Heap α} {b : Nat} :
    h.free b = some h' ↔ ∃ a, h.get b = some a ∧ h' = h.release b := by
  simp only [free, Option.map_eq_some_iff]
  exact ⟨fun ⟨a, hg, he⟩ => ⟨a, hg, he.symm⟩, fun ⟨a, hg, he⟩ => ⟨a, hg, he.symm⟩⟩

@[simp] theorem set_next (h : Heap α) (b : Nat) (a : α) : (h.set b a).next = h.next := rfl

@[simp] theorem get_set_self (h : Heap α) (b : Nat) (a : α) : (h.set b a).get b = some a := by
  simp [set, get]

theorem get_set_ne {h : Heap α} {a : α} {b b' : Nat} (hb : b' ≠ b) :
    (h.set b a).get b' = h.get b' := by
  simp [set, get, hb]

theorem update_of_get {h : Heap α} {b : Nat} {a a' : α} {f : α → Option α}
    (hg : h.get b = some a) (hf : f a = some a') : h.update b f = some (h.set b a') := by
  simp only [update, hg, Option.bind_some, hf, Option.map_some]

theorem update_eq_some {h h' : Heap α} {b : Nat} {f : α → Option α} :
    h.update b f = some h' ↔ ∃ a a', h.get b = some a ∧ f a = some a' ∧ h' = h.set b a' := by
  simp only [update, Option.bind_eq_some_iff, Option.map_eq_some_iff]
  constructor
  · rintro ⟨a, hg, a', hf, he⟩
    exact ⟨a, a', hg, hf, he.symm⟩
  · rintro ⟨a, a', hg, hf, he⟩
    exact ⟨a, hg, a', hf, he.symm⟩

end Heap

end Foundation
