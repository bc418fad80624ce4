import Mathlib

/-!
# Descriptors

What the open descriptors of a process refer to. The kernel gives out the lowest number that
is free. `Adds` says which descriptors a piece of code leaves open, and that it leaves the
others alone.
-/

namespace Foundation

universe u

variable {ρ : Type u} {x y : ρ} {fd n : Nat}

structure Descriptors (ρ : Type u) where
  get : Nat → Option ρ
  bound : Nat
  closed : ∀ fd, bound ≤ fd → get fd = none

namespace Descriptors

variable (t : Descriptors ρ)

/-- The lowest number that is free. -/
def lowest : Nat := ((List.range t.bound).find? fun fd => (t.get fd).isNone).getD t.bound

theorem get_lowest : t.get t.lowest = none := by
  rw [lowest]
  cases h : (List.range t.bound).find? fun fd => (t.get fd).isNone with
  | none => exact t.closed _ (Nat.le_refl _)
  | some fd =>
      obtain ⟨hfree, -, -⟩ := List.find?_range_eq_some.mp h
      exact Option.isNone_iff_eq_none.mp hfree

def set (fd : Nat) (entry : Option ρ) : Descriptors ρ where
  get := Function.update t.get fd entry
  bound := max t.bound (fd + 1)
  closed other h := by
    have hne : other ≠ fd := by omega
    rw [Function.update_of_ne hne]
    exact t.closed other (by omega)

@[simp] theorem get_set_self (entry : Option ρ) : (t.set fd entry).get fd = entry :=
  Function.update_self ..

@[simp] theorem get_set_of_ne {other : Nat} (h : other ≠ fd) (entry : Option ρ) :
    (t.set fd entry).get other = t.get other :=
  Function.update_of_ne h ..

/-- `open` or `socket`, which returns `lowest`. -/
def add (x : ρ) : Descriptors ρ := t.set t.lowest (some x)

def close (fd : Nat) : Descriptors ρ := t.set fd none

/-- `dup2`. -/
def dup (old new : Nat) : Descriptors ρ := t.set new (t.get old)

/-- A call that changes what a descriptor refers to. -/
def modify (fd : Nat) (f : ρ → ρ) : Descriptors ρ := t.set fd ((t.get fd).map f)

end Descriptors

open Descriptors

/-- Besides the descriptors that were open before, these are open, and refer to that. -/
structure Adds (t t' : Descriptors ρ) (new : List (Nat × ρ)) : Prop where
  distinct : (new.map Prod.fst).Nodup
  free : ∀ entry ∈ new, t.get entry.1 = none
  opened : ∀ entry ∈ new, t'.get entry.1 = some entry.2
  kept : ∀ fd, fd ∉ new.map Prod.fst → t'.get fd = t.get fd

namespace Adds

variable {t t' : Descriptors ρ} {new front back : List (Nat × ρ)} {entry : Nat × ρ}

theorem refl (t : Descriptors ρ) : Adds t t [] := ⟨List.nodup_nil, by simp, by simp, by simp⟩

theorem ne_of_mem (h : Adds t t' new) (mem : entry ∈ new) (taken : t.get fd ≠ none) :
    entry.1 ≠ fd := by
  rintro rfl
  exact taken (h.free entry mem)

theorem congr {t'' : Descriptors ρ} (h : Adds t t' new) (same : ∀ fd, t''.get fd = t'.get fd) :
    Adds t t'' new :=
  ⟨h.distinct, h.free, fun entry hmem => (same _).trans (h.opened entry hmem),
    fun fd hfd => (same fd).trans (h.kept fd hfd)⟩

/-- One more descriptor is opened. -/
theorem insert (h : Adds t t' (front ++ back)) (free : t'.get fd = none) (x : ρ) :
    Adds t (t'.set fd (some x)) (front ++ (fd, x) :: back) := by
  have hcases : ∀ entry, entry ∈ front ++ (fd, x) :: back ↔
      entry = (fd, x) ∨ entry ∈ front ++ back := fun entry => by
    simp only [List.mem_append, List.mem_cons]
    tauto
  have hne : ∀ entry ∈ front ++ back, entry.1 ≠ fd := fun entry hmem heq => by
    have hopen := h.opened entry hmem
    rw [heq, free] at hopen
    cases hopen
  have hnew : fd ∉ (front ++ back).map Prod.fst := fun hmem => by
    obtain ⟨entry, hentry, heq⟩ := List.mem_map.mp hmem
    exact hne entry hentry heq
  refine ⟨?_, fun entry hmem => ?_, fun entry hmem => ?_, fun other hother => ?_⟩
  · rw [List.map_append, List.map_cons, List.nodup_middle, List.nodup_cons, ← List.map_append]
    exact ⟨hnew, h.distinct⟩
  · rcases (hcases entry).mp hmem with rfl | hold
    · rw [← h.kept fd hnew, free]
    · exact h.free entry hold
  · rcases (hcases entry).mp hmem with rfl | hold
    · exact get_set_self ..
    · rw [get_set_of_ne _ (hne entry hold)]
      exact h.opened entry hold
  · have hother' : other ≠ fd ∧ other ∉ (front ++ back).map Prod.fst := by
      simp only [List.map_append, List.map_cons, List.mem_append, List.mem_cons] at hother ⊢
      tauto
    rw [get_set_of_ne _ hother'.1]
    exact h.kept other hother'.2

theorem add (h : Adds t t' new) (x : ρ) : Adds t (t'.add x) (new ++ [(t'.lowest, x)]) := by
  rw [← List.append_nil new] at h
  exact h.insert t'.get_lowest x

theorem close (h : Adds t t' (front ++ entry :: back)) :
    Adds t (t'.close entry.1) (front ++ back) := by
  have hdistinct := h.distinct
  rw [List.map_append, List.map_cons, List.nodup_middle, List.nodup_cons, ← List.map_append]
    at hdistinct
  have hold : ∀ other ∈ front ++ back, other ∈ front ++ entry :: back := fun other hmem => by
    simp only [List.mem_append, List.mem_cons] at hmem ⊢
    tauto
  refine ⟨hdistinct.2, fun other hmem => h.free other (hold other hmem), fun other hmem => ?_,
    fun fd hfd => ?_⟩
  · have hne : other.1 ≠ entry.1 := fun heq => hdistinct.1 (heq ▸ List.mem_map_of_mem hmem)
    rw [Descriptors.close, get_set_of_ne _ hne]
    exact h.opened other (hold other hmem)
  · by_cases heq : fd = entry.1
    · subst heq
      rw [Descriptors.close, get_set_self]
      exact (h.free entry (by simp)).symm
    · rw [Descriptors.close, get_set_of_ne _ heq]
      refine h.kept fd fun hmem => hfd ?_
      simp only [List.map_append, List.map_cons, List.mem_append, List.mem_cons] at hmem ⊢
      tauto

/-- Something is done to what a new descriptor refers to. -/
theorem modify (h : Adds t t' (front ++ (fd, x) :: back)) (f : ρ → ρ) :
    Adds t (t'.modify fd f) (front ++ (fd, f x) :: back) := by
  have hopen : t'.get fd = some x := h.opened (fd, x) (by simp)
  have hclosed : (t'.close fd).get fd = none := get_set_self ..
  refine (h.close.insert hclosed (f x)).congr fun other => ?_
  by_cases hother : other = fd
  · subst hother
    rw [Descriptors.modify, get_set_self, get_set_self, hopen]
    rfl
  · rw [Descriptors.modify, get_set_of_ne _ hother, get_set_of_ne _ hother, Descriptors.close,
      get_set_of_ne _ hother]

/-- Another descriptor is made to refer to something else. -/
theorem redirect (h : Adds t t' new) (taken : t.get fd ≠ none) (entry : Option ρ) :
    Adds (t.set fd entry) (t'.set fd entry) new := by
  have hne : ∀ entry ∈ new, entry.1 ≠ fd := fun entry hmem => h.ne_of_mem hmem taken
  refine ⟨h.distinct, fun other hmem => ?_, fun other hmem => ?_, fun other hfd => ?_⟩
  · rw [get_set_of_ne _ (hne other hmem)]
    exact h.free other hmem
  · rw [get_set_of_ne _ (hne other hmem)]
    exact h.opened other hmem
  · by_cases heq : other = fd
    · subst heq
      rw [get_set_self, get_set_self]
    · rw [get_set_of_ne _ heq, get_set_of_ne _ heq]
      exact h.kept other hfd

end Adds

end Foundation
