import Mathlib

/-!
# Stores to consecutive addresses

`Cells` says what a computation has stored at each address, and nothing where it has
stored nothing. A buffer is filled upwards from its start or, where the last byte is known
first, downwards from its end; `storeDown_eq` turns the second into the first, so that
`storeUp` is the normal form of both.
-/

namespace Foundation

universe u

variable {α : Type u}

abbrev Cells (α : Type u) := Nat → Option α

namespace Cells

def empty : Cells α := fun _ => none

def store (cells : Cells α) (address : Nat) (a : α) : Cells α :=
  Function.update cells address (some a)

/-- Store at `start, start + 1, …`. -/
def storeUp (cells : Cells α) (start : Nat) : List α → Cells α
  | [] => cells
  | a :: as => storeUp (cells.store start a) (start + 1) as

/-- Store at `stop - 1, stop - 2, …`. -/
def storeDown (cells : Cells α) (stop : Nat) : List α → Cells α
  | [] => cells
  | a :: as => storeDown (cells.store (stop - 1) a) (stop - 1) as

variable {cells : Cells α} {start stop address : Nat} {as : List α} {a : α}

@[simp] theorem empty_apply : (empty : Cells α) address = none := rfl

@[simp] theorem store_self : cells.store address a address = some a := Function.update_self ..

theorem store_ne {other : Nat} (h : other ≠ address) : cells.store address a other = cells other :=
  Function.update_of_ne h ..

@[simp] theorem storeUp_nil : cells.storeUp start [] = cells := rfl

theorem storeUp_singleton : cells.storeUp start [a] = cells.store start a := rfl

theorem storeUp_append (cells : Cells α) (start : Nat) (front back : List α) :
    cells.storeUp start (front ++ back) =
      (cells.storeUp start front).storeUp (start + front.length) back := by
  induction front generalizing cells start with
  | nil => rfl
  | cons a front ih =>
      simp only [List.cons_append, storeUp, ih, List.length_cons]
      rw [Nat.add_assoc start 1, Nat.add_comm 1]

theorem storeUp_of_lt (h : address < start) : cells.storeUp start as address = cells address := by
  induction as generalizing cells start with
  | nil => rfl
  | cons a as ih =>
      rw [storeUp, ih (Nat.lt_succ_of_lt h), store_ne (Nat.ne_of_lt h)]

theorem storeUp_of_ge (h : start + as.length ≤ address) :
    cells.storeUp start as address = cells address := by
  induction as generalizing cells start with
  | nil => rfl
  | cons a as ih =>
      rw [List.length_cons] at h
      rw [storeUp, ih (by omega), store_ne (by omega)]

theorem storeUp_getElem (cells : Cells α) (start : Nat) {i : Nat} (h : i < as.length) :
    cells.storeUp start as (start + i) = some as[i] := by
  induction as generalizing cells start i with
  | nil => cases h
  | cons a as ih =>
      cases i with
      | zero =>
          change (cells.store start a).storeUp (start + 1) as start = some a
          rw [storeUp_of_lt (Nat.lt_add_one start), store_self]
      | succ i =>
          have hstep := ih (cells.store start a) (start + 1) (Nat.lt_of_succ_lt_succ h)
          rw [storeUp, List.getElem_cons_succ, ← hstep]
          congr 1
          omega

/-- A store elsewhere can be made before or after. -/
theorem store_storeUp (h : start + as.length ≤ address) :
    (cells.store address a).storeUp start as = (cells.storeUp start as).store address a := by
  induction as generalizing cells start with
  | nil => rfl
  | cons b as ih =>
      rw [List.length_cons] at h
      have hne : address ≠ start := by omega
      have hswap : (cells.store address a).store start b = (cells.store start b).store address a :=
        Function.update_comm hne ..
      rw [storeUp, storeUp, hswap, ih (by omega)]

theorem storeDown_eq (h : as.length ≤ stop) :
    cells.storeDown stop as = cells.storeUp (stop - as.length) as.reverse := by
  induction as generalizing cells stop with
  | nil => rfl
  | cons a as ih =>
      rw [List.length_cons] at h
      have hstart : stop - 1 - as.length = stop - (a :: as).length := by
        rw [List.length_cons]
        omega
      have hlast : stop - (a :: as).length + as.reverse.length = stop - 1 := by
        rw [List.length_cons, List.length_reverse]
        omega
      rw [storeDown, ih (by omega), hstart, List.reverse_cons, storeUp_append, hlast,
        storeUp_singleton, store_storeUp (Nat.le_of_eq hlast)]

theorem storeDown_append (cells : Cells α) (stop : Nat) (front back : List α) :
    cells.storeDown stop (front ++ back) =
      (cells.storeDown stop front).storeDown (stop - front.length) back := by
  induction front generalizing cells stop with
  | nil => rfl
  | cons a front ih =>
      simp only [List.cons_append, storeDown, ih, List.length_cons]
      rw [Nat.sub_sub, Nat.add_comm 1]

/-- What the filled part of a buffer holds, when nothing was stored before. -/
theorem storeUp_empty_isSome :
    ((empty : Cells α).storeUp start as address).isSome ↔
      start ≤ address ∧ address < start + as.length := by
  constructor
  · intro h
    by_contra hout
    have hnone : (empty : Cells α).storeUp start as address = none := by
      by_cases hlt : address < start
      · rw [storeUp_of_lt hlt, empty_apply]
      · rw [storeUp_of_ge (by omega), empty_apply]
    rw [hnone] at h
    exact Bool.noConfusion h
  · intro ⟨hle, hlt⟩
    obtain ⟨i, rfl⟩ := Nat.exists_eq_add_of_le hle
    rw [storeUp_getElem _ _ (by omega)]
    rfl

end Cells

end Foundation
