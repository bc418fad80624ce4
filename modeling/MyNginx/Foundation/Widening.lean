import Mathlib
import MyNginx.Foundation.Heap

/-!
# Heaps that differ by one block

Two computations that allocate in the same order, one of them once more than the other, have
the same blocks under different numbers: those allocated after the additional block `k` are
one further on. `Widens k` says so of two heaps. Every operation on a block and its
counterpart keeps it, so that what is read does not tell the two heaps apart.
-/

namespace Foundation

universe u

section Rel

variable {α β γ δ : Type u} {R : α → β → Prop} {S : γ → δ → Prop} {a : Option α} {b : Option β}

/-- Both have a result, and the results correspond, or neither has one. -/
theorem rel_map {f : α → γ} {g : β → δ} (rel : Option.Rel R a b)
    (h : ∀ x y, R x y → S (f x) (g y)) : Option.Rel S (a.map f) (b.map g) := by
  cases rel with
  | none => exact .none
  | some hxy => exact .some (h _ _ hxy)

theorem rel_bind {f : α → Option γ} {g : β → Option δ} (rel : Option.Rel R a b)
    (h : ∀ x y, a = some x → R x y → Option.Rel S (f x) (g y)) :
    Option.Rel S (a.bind f) (b.bind g) := by
  cases rel with
  | none => exact .none
  | some hxy => exact h _ _ rfl hxy

end Rel

namespace Heap

variable {α : Type u} {h h' : Heap α} {k : Nat}

/-- The number of a block where one more block has been allocated at `k`. -/
def shift (k b : Nat) : Nat := if b < k then b else b + 1

theorem shift_of_lt {k b : Nat} (h : b < k) : shift k b = b := if_pos h

theorem shift_injective (k : Nat) : Function.Injective (shift k) := by
  intro b b' hb
  simp only [shift] at hb
  split at hb <;> split at hb <;> omega

/-- `h'` is `h` with one more block, which was allocated at `k`. -/
structure Widens (k : Nat) (h h' : Heap α) : Prop where
  le : k ≤ h.next
  next : h'.next = h.next + 1
  get : ∀ b, h'.get (shift k b) = h.get b

/-- The heap behind one more allocation. -/
theorem widens_alloc (fresh : ∀ b, h.next ≤ b → h.get b = none) (a : α) :
    Widens h.next h (h.alloc a).2 where
  le := Nat.le_refl _
  next := rfl
  get b := by
    by_cases hb : b < h.next
    · rw [shift, if_pos hb, get_alloc_ne (Nat.ne_of_lt hb)]
    · rw [shift, if_neg hb, get_alloc_ne (by omega), fresh b (Nat.not_lt.mp hb),
        fresh (b + 1) (by omega)]

theorem Widens.shift_next (wide : Widens k h h') : shift k h.next = h'.next := by
  rw [shift, if_neg (Nat.not_lt.mpr wide.le), wide.next]

theorem Widens.alloc (wide : Widens k h h') (a : α) : Widens k (h.alloc a).2 (h'.alloc a).2 where
  le := Nat.le_succ_of_le wide.le
  next := congrArg (· + 1) wide.next
  get b := by
    by_cases hb : b = h.next
    · rw [hb, wide.shift_next, get_alloc_self, get_alloc_self]
    · have hne : shift k b ≠ h'.next := by
        rw [← wide.shift_next]
        exact fun he => hb (shift_injective k he)
      rw [get_alloc_ne hb, get_alloc_ne hne, wide.get]

theorem Widens.set (wide : Widens k h h') (b : Nat) (a : α) :
    Widens k (h.set b a) (h'.set (shift k b) a) where
  le := wide.le
  next := wide.next
  get b' := by
    by_cases hb : b' = b
    · rw [hb, get_set_self, get_set_self]
    · rw [get_set_ne hb, get_set_ne fun he => hb (shift_injective k he), wide.get]

theorem Widens.release (wide : Widens k h h') (b : Nat) :
    Widens k (h.release b) (h'.release (shift k b)) where
  le := wide.le
  next := wide.next
  get b' := by
    by_cases hb : b' = b
    · rw [hb, get_release_self, get_release_self]
    · rw [get_release_ne hb, get_release_ne fun he => hb (shift_injective k he), wide.get]

theorem Widens.update (wide : Widens k h h') (b : Nat) (f : α → Option α) :
    Option.Rel (Widens k) (h.update b f) (h'.update (shift k b) f) := by
  rw [Heap.update, Heap.update, wide.get]
  cases h.get b with
  | none => exact .none
  | some a =>
      simp only [Option.bind_some]
      cases f a with
      | none => exact .none
      | some a' => exact .some (wide.set b a')

theorem Widens.free (wide : Widens k h h') (b : Nat) :
    Option.Rel (Widens k) (h.free b) (h'.free (shift k b)) := by
  rw [Heap.free, Heap.free, wide.get]
  cases h.get b with
  | none => exact .none
  | some a => exact .some (wide.release b)

end Heap

end Foundation
