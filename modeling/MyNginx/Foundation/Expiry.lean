import Mathlib

/-!
# Entries ordered by a key

A multimap is a list of pairs ordered by key, in which a new entry comes behind all
entries whose key is not larger. For a bound `now`, an ordered list is its due entries,
with a key up to `now`, followed by the later ones; the due entries can be taken from
the front one by one, and an entry inserted with a later key is not in their way.
-/

namespace Foundation

namespace Expiry

universe u v

variable {κ : Type u} {α : Type v} [LinearOrder κ] {now key : κ} {entries front back : List (κ × α)}

/-- Insert behind all entries whose key is not larger. -/
def schedule (key : κ) (a : α) : List (κ × α) → List (κ × α)
  | [] => [(key, a)]
  | entry :: rest =>
      if key < entry.1 then (key, a) :: entry :: rest else entry :: schedule key a rest

/-- The keys do not decrease. -/
def Ordered (entries : List (κ × α)) : Prop := entries.Pairwise fun a b => a.1 ≤ b.1

/-- The entries whose time has come. -/
def due (now : κ) (entries : List (κ × α)) : List (κ × α) :=
  entries.filter fun entry => decide (entry.1 ≤ now)

/-- The other entries. -/
def later (now : κ) (entries : List (κ × α)) : List (κ × α) :=
  entries.filter fun entry => decide (now < entry.1)

theorem mem_due {entry : κ × α} : entry ∈ due now entries ↔ entry ∈ entries ∧ entry.1 ≤ now := by
  simp [due]

theorem mem_later {entry : κ × α} :
    entry ∈ later now entries ↔ entry ∈ entries ∧ now < entry.1 := by
  simp [later]

/-- The due entries stand in front. -/
theorem Ordered.split (ordered : Ordered entries) (now : κ) :
    entries = due now entries ++ later now entries := by
  induction entries with
  | nil => rfl
  | cons entry rest ih =>
      obtain ⟨hfirst, hrest⟩ := List.pairwise_cons.mp ordered
      by_cases hdue : entry.1 ≤ now
      · have hnot : ¬ now < entry.1 := not_lt.mpr hdue
        simp only [due, later, hdue, hnot, decide_true, decide_false, List.filter_cons_of_pos,
          List.filter_cons_of_neg, Bool.false_eq_true, not_false_eq_true, List.cons_append]
        exact congrArg (entry :: ·) (ih hrest)
      · have hlt : now < entry.1 := not_le.mp hdue
        -- Behind a later entry everything is later.
        have hall : ∀ b ∈ entry :: rest, now < b.1 := by
          intro b hb
          rcases List.mem_cons.mp hb with rfl | hb
          · exact hlt
          · exact lt_of_lt_of_le hlt (hfirst b hb)
        have hnone : due now (entry :: rest) = [] :=
          List.filter_eq_nil_iff.mpr fun b hb => by simpa using hall b hb
        have hlater : later now (entry :: rest) = entry :: rest :=
          List.filter_eq_self.mpr fun b hb => by simpa using hall b hb
        rw [hnone, hlater]
        rfl

theorem schedule_perm (key : κ) (a : α) (entries : List (κ × α)) :
    (schedule key a entries).Perm ((key, a) :: entries) := by
  induction entries with
  | nil => exact .refl _
  | cons entry rest ih =>
      simp only [schedule]
      split
      · exact .refl _
      · exact (ih.cons entry).trans (.swap _ _ _)

theorem Ordered.schedule (ordered : Ordered entries) (key : κ) (a : α) :
    Ordered (schedule key a entries) := by
  induction entries with
  | nil => exact List.pairwise_singleton _ _
  | cons entry rest ih =>
      obtain ⟨hfirst, hrest⟩ := List.pairwise_cons.mp ordered
      simp only [Expiry.schedule]
      split
      next hlt =>
        refine List.pairwise_cons.mpr ⟨fun b hb => ?_, ordered⟩
        rcases List.mem_cons.mp hb with rfl | hb
        · exact le_of_lt hlt
        · exact le_trans (le_of_lt hlt) (hfirst b hb)
      next hle =>
        refine List.pairwise_cons.mpr ⟨fun b hb => ?_, ih hrest⟩
        rcases List.mem_cons.mp ((schedule_perm key a rest).mem_iff.mp hb) with rfl | hb
        · exact not_lt.mp hle
        · exact hfirst b hb

/-- Entries with a smaller key are passed over. -/
theorem schedule_append (h : ∀ entry ∈ front, entry.1 ≤ key) (a : α) :
    schedule key a (front ++ back) = front ++ schedule key a back := by
  induction front with
  | nil => rfl
  | cons entry rest ih =>
      have hnot : ¬ key < entry.1 := not_lt.mpr (h entry List.mem_cons_self)
      rw [List.cons_append, schedule, if_neg hnot, ih fun b hb => h b (List.mem_cons_of_mem _ hb)]
      rfl

/-- Entries are inserted again with one key, in their order. -/
def renew (key : κ) (front back : List (κ × α)) : List (κ × α) :=
  front.foldl (fun entries entry => schedule key entry.2 entries) back

theorem renew_cons (entry : κ × α) :
    renew key (entry :: front) back = renew key front (schedule key entry.2 back) := rfl

theorem renew_perm (key : κ) (front back : List (κ × α)) :
    (renew key front back).Perm (front.map (fun entry => (key, entry.2)) ++ back) := by
  induction front generalizing back with
  | nil => exact .refl _
  | cons entry rest ih =>
      rw [renew_cons, List.map_cons, List.cons_append]
      exact (ih _).trans (((schedule_perm key entry.2 back).append_left _).trans List.perm_middle)

theorem Ordered.renew (ordered : Ordered back) (key : κ) (front : List (κ × α)) :
    Ordered (renew key front back) := by
  induction front generalizing back with
  | nil => exact ordered
  | cons entry rest ih => exact ih (ordered.schedule key entry.2)

end Expiry

end Foundation
