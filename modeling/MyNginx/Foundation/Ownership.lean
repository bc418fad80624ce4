import Mathlib
import MyNginx.Foundation.Heap

/-!
# Who holds which block

Clients of a heap have one pointer each. A client that holds its block is the only one
with a pointer to it, and the block is live; the pointer of a client that holds nothing
may dangle, but never into a block that somebody else holds. The heap is `Tidy` when
every live block is held.

`Owned.act` is the rule for a client that acts alone: it may write to its own block,
free it, allocate new ones and keep one of them. The heap stays tidy exactly when it
leaves no block live without holding it. `Owned.letGo` is the rule for clients that
give up their pointers without freeing anything.
-/

namespace Foundation

universe u v

variable {α : Type u} {ι : Type v}

/-- Whoever holds a block holds it alone. -/
structure Owned (h : Heap α) (ptr : ι → Option Nat) (holds : ι → Prop) : Prop where
  live : ∀ i, holds i → ∃ b, ptr i = some b ∧ h.get b ≠ none
  unique : ∀ i j b, ptr i = some b → holds j → ptr j = some b → i = j
  past : ∀ i b, ptr i = some b → b < h.next
  fresh : ∀ b, h.next ≤ b → h.get b = none

/-- Every live block is held. -/
def Tidy (h : Heap α) (ptr : ι → Option Nat) (holds : ι → Prop) : Prop :=
  ∀ b, h.get b ≠ none → ∃ i, holds i ∧ ptr i = some b

/-- Nothing differs but the block `b`. -/
structure Heap.Only (b : Nat) (h h' : Heap α) : Prop where
  next : h'.next = h.next
  other : ∀ b', b' ≠ b → h'.get b' = h.get b'

theorem Heap.Only.refl (b : Nat) (h : Heap α) : Heap.Only b h h := ⟨rfl, fun _ _ => rfl⟩

theorem Heap.Only.trans {b : Nat} {h h' h'' : Heap α} (first : Heap.Only b h h')
    (second : Heap.Only b h' h'') : Heap.Only b h h'' :=
  ⟨second.next.trans first.next, fun b' hb => (second.other b' hb).trans (first.other b' hb)⟩

theorem Heap.only_set (h : Heap α) (b : Nat) (a : α) : Heap.Only b h (h.set b a) :=
  ⟨rfl, fun _ hb => Heap.get_set_ne hb⟩

theorem Heap.only_release (h : Heap α) (b : Nat) : Heap.Only b h (h.release b) :=
  ⟨rfl, fun _ hb => Heap.get_release_ne hb⟩

/-- A client with pointer `p` acts on the heap and has the pointer `p'` then. -/
structure Act (h : Heap α) (p : Option Nat) (held : Prop) (h' : Heap α) (p' : Option Nat)
    (held' : Prop) : Prop where
  grows : h.next ≤ h'.next
  others : ∀ b, b < h.next → p ≠ some b → h'.get b = h.get b
  fresh : ∀ b, h'.next ≤ b → h'.get b = none
  ptr : ∀ b, p' = some b → p = some b ∨ h.next ≤ b ∧ b < h'.next
  holds : held' → ∃ b, p' = some b ∧ h'.get b ≠ none ∧ (held ∧ p = some b ∨ h.next ≤ b)

variable {h h' : Heap α} {ptr ptr' : ι → Option Nat} {holds holds' : ι → Prop}

theorem Owned.act (owned : Owned h ptr holds) {i : ι}
    (act : Act h (ptr i) (holds i) h' (ptr' i) (holds' i))
    (other : ∀ j, j ≠ i → ptr' j = ptr j ∧ (holds' j → holds j)) : Owned h' ptr' holds' where
  live j hj := by
    by_cases hij : j = i
    · subst hij
      obtain ⟨b, hb, hlive, -⟩ := act.holds hj
      exact ⟨b, hb, hlive⟩
    · obtain ⟨hptr, hholds⟩ := other j hij
      obtain ⟨b, hb, hlive⟩ := owned.live j (hholds hj)
      refine ⟨b, hptr.trans hb, ?_⟩
      rw [act.others b (owned.past j b hb) fun hi => hij (owned.unique i j b hi (hholds hj) hb).symm]
      exact hlive
  unique j k b hj hk hkb := by
    by_cases hji : j = i
    · by_cases hki : k = i
      · rw [hji, hki]
      · obtain ⟨hptr, hholds⟩ := other k hki
        rw [hptr] at hkb
        rw [hji] at hj
        rcases act.ptr b hj with hold | ⟨hnew, -⟩
        · exact absurd (owned.unique i k b hold (hholds hk) hkb).symm hki
        · exact absurd (owned.past k b hkb) (Nat.not_lt.mpr hnew)
    · obtain ⟨hptr, -⟩ := other j hji
      rw [hptr] at hj
      by_cases hki : k = i
      · subst hki
        obtain ⟨b', hb', -, hor⟩ := act.holds hk
        obtain rfl := Option.some.inj (hkb.symm.trans hb')
        rcases hor with ⟨hheld, hold⟩ | hnew
        · exact owned.unique j k b hj hheld hold
        · exact absurd (owned.past j b hj) (Nat.not_lt.mpr hnew)
      · obtain ⟨hptr', hholds'⟩ := other k hki
        exact owned.unique j k b hj (hholds' hk) (hptr'.symm.trans hkb)
  past j b hj := by
    by_cases hji : j = i
    · rw [hji] at hj
      rcases act.ptr b hj with hold | ⟨-, hlt⟩
      · exact Nat.lt_of_lt_of_le (owned.past i b hold) act.grows
      · exact hlt
    · rw [(other j hji).1] at hj
      exact Nat.lt_of_lt_of_le (owned.past j b hj) act.grows
  fresh := act.fresh

/-- A client that leaves no live block behind keeps a tidy heap tidy, and only such a
client does. -/
theorem Owned.tidy_act_iff (owned : Owned h ptr holds) (tidy : Tidy h ptr holds) {i : ι}
    (act : Act h (ptr i) (holds i) h' (ptr' i) (holds' i))
    (other : ∀ j, j ≠ i → ptr' j = ptr j ∧ (holds' j ↔ holds j)) :
    Tidy h' ptr' holds' ↔
      ∀ b, h'.get b ≠ none → (ptr i = some b ∨ h.next ≤ b) → holds' i ∧ ptr' i = some b := by
  constructor
  · intro htidy b hlive hown
    obtain ⟨j, hj, hptr⟩ := htidy b hlive
    by_cases hji : j = i
    · exact hji ▸ ⟨hj, hptr⟩
    · obtain ⟨hsame, hiff⟩ := other j hji
      rw [hsame] at hptr
      rcases hown with hi | hnew
      · exact absurd (owned.unique i j b hi (hiff.mp hj) hptr).symm hji
      · exact absurd (owned.past j b hptr) (Nat.not_lt.mpr hnew)
  · intro hown b hlive
    by_cases hi : ptr i = some b ∨ h.next ≤ b
    · exact ⟨i, hown b hlive hi⟩
    · obtain ⟨hne, hlt⟩ := not_or.mp hi
      rw [act.others b (Nat.not_le.mp hlt) hne] at hlive
      obtain ⟨j, hj, hptr⟩ := tidy b hlive
      have hji : j ≠ i := by
        rintro rfl
        exact hne hptr
      obtain ⟨hsame, hiff⟩ := other j hji
      exact ⟨j, hiff.mpr hj, hsame.trans hptr⟩

/-- The pointer of a client that holds nothing dangles, in a tidy heap. -/
theorem Owned.dead (owned : Owned h ptr holds) (tidy : Tidy h ptr holds) {i : ι} {b : Nat}
    (hb : ptr i = some b) (idle : ¬ holds i) : h.get b = none := by
  by_contra hlive
  obtain ⟨j, hj, hjb⟩ := tidy b hlive
  exact idle (owned.unique i j b hb hj hjb ▸ hj)

section Acts

variable {i : ι} {b : Nat} {p' : Option Nat} {held' : Prop} {a : α}

/-- A client that does nothing, except perhaps letting go. -/
theorem Owned.act_stay (owned : Owned h ptr holds) (fewer : held' → holds i) :
    Act h (ptr i) (holds i) h (ptr i) held' where
  grows := Nat.le_refl _
  others _ _ _ := rfl
  fresh := owned.fresh
  ptr _ hb := .inl hb
  holds held := by
    obtain ⟨b, hb, hlive⟩ := owned.live i (fewer held)
    exact ⟨b, hb, hlive, .inl ⟨fewer held, hb⟩⟩

/-- A client that forgets its pointer. -/
theorem Owned.act_forget (owned : Owned h ptr holds) (idle : ¬ held') :
    Act h (ptr i) (holds i) h none held' where
  grows := Nat.le_refl _
  others _ _ _ := rfl
  fresh := owned.fresh
  ptr _ hb := by cases hb
  holds held := absurd held idle

/-- A client that works on the block it holds. -/
theorem Owned.act_own (owned : Owned h ptr holds) (hi : holds i) (hb : ptr i = some b)
    (only : Heap.Only b h h') (info : ∀ b', p' = some b' → b' = b)
    (keeps : held' → p' = some b ∧ h'.get b ≠ none) :
    Act h (ptr i) (holds i) h' p' held' where
  grows := Nat.le_of_eq only.next.symm
  others b' _ hne := only.other b' fun he => hne (he ▸ hb)
  fresh b' hle := by
    have hlt := owned.past i b hb
    rw [only.next] at hle
    rw [only.other b' (by omega)]
    exact owned.fresh b' hle
  ptr b' hb' := .inl (info b' hb' ▸ hb)
  holds held := ⟨b, (keeps held).1, (keeps held).2, .inl ⟨hi, hb⟩⟩

/-- A client that allocates a block and works on that. -/
theorem Owned.act_new (owned : Owned h ptr holds) (only : Heap.Only h.next (h.alloc a).2 h')
    (info : ∀ b', p' = some b' → b' = h.next)
    (keeps : held' → p' = some h.next ∧ h'.get h.next ≠ none) :
    Act h (ptr i) (holds i) h' p' held' where
  grows := by
    rw [only.next, Heap.alloc_next]
    exact Nat.le_succ _
  others b' hlt _ := by
    rw [only.other b' (Nat.ne_of_lt hlt), Heap.get_alloc_ne (Nat.ne_of_lt hlt)]
  fresh b' hle := by
    rw [only.next, Heap.alloc_next] at hle
    rw [only.other b' (by omega), Heap.get_alloc_ne (by omega)]
    exact owned.fresh b' (by omega)
  ptr b' hb' := by
    rw [info b' hb', only.next, Heap.alloc_next]
    exact .inr ⟨Nat.le_refl _, Nat.lt_succ_self _⟩
  holds held := ⟨h.next, (keeps held).1, (keeps held).2, .inr (Nat.le_refl _)⟩

theorem Owned.tidy_stay_iff (owned : Owned h ptr holds) (tidy : Tidy h ptr holds)
    (fewer : holds' i → holds i) (same : ptr' i = ptr i)
    (other : ∀ j, j ≠ i → ptr' j = ptr j ∧ (holds' j ↔ holds j)) :
    Tidy h ptr' holds' ↔ (holds i → holds' i) := by
  rw [owned.tidy_act_iff tidy (same ▸ owned.act_stay fewer) other]
  constructor
  · intro hown hi
    obtain ⟨b, hb, hlive⟩ := owned.live i hi
    exact (hown b hlive (.inl hb)).1
  · intro hkeep b hlive hor
    rcases hor with hb | hnew
    · by_cases hi : holds i
      · exact ⟨hkeep hi, same.trans hb⟩
      · exact absurd (owned.dead tidy hb hi) hlive
    · exact absurd (owned.fresh b hnew) hlive

theorem Owned.tidy_forget (owned : Owned h ptr holds) (tidy : Tidy h ptr holds)
    (idle : ¬ holds i) (idle' : ¬ holds' i) (forgot : ptr' i = none)
    (other : ∀ j, j ≠ i → ptr' j = ptr j ∧ (holds' j ↔ holds j)) : Tidy h ptr' holds' := by
  refine (owned.tidy_act_iff tidy (forgot ▸ owned.act_forget idle') other).mpr ?_
  intro b hlive hor
  rcases hor with hb | hnew
  · exact absurd (owned.dead tidy hb idle) hlive
  · exact absurd (owned.fresh b hnew) hlive

theorem Owned.tidy_own (owned : Owned h ptr holds) (tidy : Tidy h ptr holds) (hi : holds i)
    (hb : ptr i = some b) (only : Heap.Only b h h') (info : ∀ b', ptr' i = some b' → b' = b)
    (keeps : holds' i → ptr' i = some b ∧ h'.get b ≠ none)
    (done : h'.get b ≠ none → holds' i)
    (other : ∀ j, j ≠ i → ptr' j = ptr j ∧ (holds' j ↔ holds j)) : Tidy h' ptr' holds' := by
  refine (owned.tidy_act_iff tidy (owned.act_own hi hb only info keeps) other).mpr ?_
  intro b' hlive hor
  have hsame : b' = b := by
    by_contra hne
    rw [only.other b' hne] at hlive
    rcases hor with hb' | hnew
    · exact hne (Option.some.inj (hb'.symm.trans hb))
    · exact hlive (owned.fresh b' hnew)
  subst hsame
  exact ⟨done hlive, (keeps (done hlive)).1⟩

/-- After an allocation the heap is tidy exactly when the new block is held or freed. -/
theorem Owned.tidy_new_iff (owned : Owned h ptr holds) (tidy : Tidy h ptr holds)
    (idle : ¬ holds i) (only : Heap.Only h.next (h.alloc a).2 h')
    (info : ∀ b', ptr' i = some b' → b' = h.next)
    (keeps : holds' i → ptr' i = some h.next ∧ h'.get h.next ≠ none)
    (other : ∀ j, j ≠ i → ptr' j = ptr j ∧ (holds' j ↔ holds j)) :
    Tidy h' ptr' holds' ↔ (h'.get h.next ≠ none → holds' i) := by
  rw [owned.tidy_act_iff tidy (owned.act_new only info keeps) other]
  constructor
  · exact fun hown hlive => (hown h.next hlive (.inr (Nat.le_refl _))).1
  · intro hdone b hlive hor
    have hsame : b = h.next := by
      by_contra hne
      rw [only.other b hne, Heap.get_alloc_ne hne] at hlive
      rcases hor with hb | hnew
      · exact hlive (owned.dead tidy hb idle)
      · exact hlive (owned.fresh b hnew)
    subst hsame
    exact ⟨hdone hlive, (keeps (hdone hlive)).1⟩

end Acts

/-- Clients that let go without freeing anything. -/
theorem Owned.letGo (owned : Owned h ptr holds) (same : ∀ i, ptr' i = ptr i)
    (fewer : ∀ i, holds' i → holds i) : Owned h ptr' holds' where
  live i hi := by
    rw [same]
    exact owned.live i (fewer i hi)
  unique i j b hi hj hjb := by
    rw [same] at hi hjb
    exact owned.unique i j b hi (fewer j hj) hjb
  past i b hi := by
    rw [same] at hi
    exact owned.past i b hi
  fresh := owned.fresh

/-- A tidy heap stays tidy if and only if nobody who held a block let go. -/
theorem Owned.tidy_letGo_iff (owned : Owned h ptr holds) (tidy : Tidy h ptr holds)
    (same : ∀ i, ptr' i = ptr i) (fewer : ∀ i, holds' i → holds i) :
    Tidy h ptr' holds' ↔ ∀ i, holds i → holds' i := by
  constructor
  · intro htidy i hi
    obtain ⟨b, hb, hlive⟩ := owned.live i hi
    obtain ⟨j, hj, hjb⟩ := htidy b hlive
    rw [same] at hjb
    exact owned.unique i j b hb (fewer j hj) hjb ▸ hj
  · intro hkeep b hlive
    obtain ⟨i, hi, hb⟩ := tidy b hlive
    exact ⟨i, hkeep i hi, (same i).trans hb⟩

end Foundation
