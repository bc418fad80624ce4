import Mathlib

/-!
# Pools of reusable objects

Objects are numbered as they are created. Some are reserved for good; every
other one waits in a free queue, is open on a handle, or sits in a delayed list
between its retirement and its return to the free queue. A step takes an object
out of the free queue, or creates one when the queue is empty, and either opens
it on a handle nobody owns or puts it back; or it retires an open object, or
returns a delayed one. Counters are kept beside the lists, and every use of an
object is numbered and logged when it ends.

`Inv` says that each object is in exactly one place, that no handle has two
owners, that the counters are right and that no use ends twice. Its second
argument lists the objects taken out and not yet placed.
-/

namespace Foundation

universe u

structure ObjectPool (H : Type u) where
  objects : List Nat
  free : List Nat
  delayed : List Nat
  reserved : List Nat
  handle : Nat → Option H
  total : Int
  freeCount : Int
  delayedCount : Int
  online : Int
  use : Nat → Nat
  closed : List (Nat × Nat)
  uncounted : List (Nat × Nat)
  retired : List (Nat × Nat)
  refused : List (Nat × Nat)
  stopped : Bool

namespace ObjectPool

variable {H : Type u}

/-- The object is open for a user: it has a handle and is not reserved. -/
def IsOpen (p : ObjectPool H) (c : Nat) : Prop :=
  c ∈ p.objects ∧ p.handle c ≠ none ∧ c ∉ p.reserved

instance (p : ObjectPool H) (c : Nat) : Decidable (p.IsOpen c) :=
  inferInstanceAs (Decidable (_ ∧ _ ∧ _))

/-- One for an open object, as the other places have their number of occurrences. -/
def openCount (p : ObjectPool H) (c : Nat) : Nat := if p.IsOpen c then 1 else 0

/-- Take an object out: the first free one, or a new one. -/
inductive Taken (p : ObjectPool H) : Nat → ObjectPool H → Prop
  | reuse {c : Nat} {rest : List Nat} (first : p.free = c :: rest) :
      Taken p c { p with free := rest, freeCount := p.freeCount - 1 }
  | create (none_free : p.free = []) :
      Taken p p.objects.length
        { p with
          objects := p.objects ++ [p.objects.length]
          total := p.total + 1
          handle := Function.update p.handle p.objects.length none }

/-- A taken object starts a use on a handle. -/
def open_ (p : ObjectPool H) (c : Nat) (h : H) : ObjectPool H :=
  { p with
    handle := Function.update p.handle c (some h)
    use := Function.update p.use c (p.use c + 1)
    online := p.online + 1 }

/-- A taken object starts a use that ends at once. -/
def refuse (p : ObjectPool H) (c : Nat) : ObjectPool H :=
  { p with
    handle := Function.update p.handle c none
    free := p.free ++ [c]
    freeCount := p.freeCount + 1
    use := Function.update p.use c (p.use c + 1)
    refused := p.refused ++ [(c, p.use c + 1)] }

/-- The use of an open object ends. -/
def retire (p : ObjectPool H) (c : Nat) : ObjectPool H :=
  { p with
    handle := Function.update p.handle c none
    online := p.online - 1
    delayed := p.delayed ++ [c]
    delayedCount := p.delayedCount + 1
    closed := p.closed ++ [(c, p.use c)]
    uncounted := p.uncounted ++ [(c, p.use c)]
    retired := p.retired ++ [(c, p.use c)] }

/-- A delayed object returns to the free queue. -/
def recycle (p : ObjectPool H) (c : Nat) (others : List Nat) : ObjectPool H :=
  { p with
    delayed := others
    free := p.free ++ [c]
    freeCount := p.freeCount + 1 }

/-- A taken object gets a handle for good. -/
def reserve (p : ObjectPool H) (c : Nat) (h : H) : ObjectPool H :=
  { p with
    handle := Function.update p.handle c (some h)
    reserved := p.reserved ++ [c] }

/-- `n` new objects. -/
def initial (H : Type u) (n : Nat) (handle : Nat → Option H) : ObjectPool H where
  objects := List.range n
  free := List.range n
  delayed := []
  reserved := []
  handle := handle
  total := n
  freeCount := n
  delayedCount := 0
  online := 0
  use := fun _ => 0
  closed := []
  uncounted := []
  retired := []
  refused := []
  stopped := false

/-- The steps of a pool that has at most `limit` objects open. Once it is
stopped, delayed objects may be returned without being counted. -/
inductive Step (limit : Int) : ObjectPool H → ObjectPool H → Prop
  | admits {p q : ObjectPool H} {c : Nat} {h : H} (taken : Taken p c q) (room : p.online < limit)
      (fresh : ∀ d ∈ p.objects, p.handle d ≠ some h) : Step limit p (q.open_ c h)
  | refuse {p q : ObjectPool H} {c : Nat} (taken : Taken p c q) : Step limit p (q.refuse c)
  | retire {p : ObjectPool H} {c : Nat} (isOpen : p.IsOpen c) : Step limit p (p.retire c)
  | recycle {p : ObjectPool H} {c : Nat} {front back : List Nat}
      (split : p.delayed = front ++ c :: back) :
      Step limit p
        { p.recycle c (front ++ back) with delayedCount := p.delayedCount - 1 }
  | drain {p : ObjectPool H} {c : Nat} {front back : List Nat} (stopped : p.stopped = true)
      (split : p.delayed = front ++ c :: back) : Step limit p (p.recycle c (front ++ back))
  | stop {p : ObjectPool H} : Step limit p { p with stopped := true }

/-- The uses that have ended. -/
def ended (p : ObjectPool H) : List (Nat × Nat) := p.closed ++ p.refused

structure Inv (limit : Int) (p : ObjectPool H) (hand : List Nat) : Prop where
  numbered : p.objects = List.range p.objects.length
  balanced : ∀ c, p.free.count c + p.delayed.count c + p.reserved.count c + p.openCount c +
    hand.count c = p.objects.count c
  injective : ∀ c ∈ p.objects, ∀ d ∈ p.objects, ∀ h, p.handle c = some h →
    p.handle d = some h → c = d
  total_eq : p.total = p.objects.length
  freeCount_eq : p.freeCount = p.free.length
  delayedCount_eq : p.stopped = false → p.delayedCount = p.delayed.length
  online_eq : p.online = (p.objects.map p.openCount).sum
  online_le : p.online ≤ max 0 limit
  together : p.uncounted = p.closed ∧ p.retired = p.closed
  once : p.ended.Nodup
  ended_le : ∀ c u, (c, u) ∈ p.ended → u ≤ p.use c ∧ (u = p.use c → ¬ p.IsOpen c)

variable {limit : Int} {p q : ObjectPool H} {hand : List Nat} {c d : Nat} {h : H}

theorem openCount_of_isOpen (ho : p.IsOpen c) : p.openCount c = 1 := if_pos ho

theorem openCount_of_not (ho : ¬ p.IsOpen c) : p.openCount c = 0 := if_neg ho

theorem isOpen_iff_openCount : p.IsOpen c ↔ p.openCount c = 1 := by
  by_cases ho : p.IsOpen c
  · simp [ho, openCount_of_isOpen]
  · simp [ho, openCount_of_not]

theorem Inv.nodup (inv : Inv limit p hand) : p.objects.Nodup := by
  rw [inv.numbered]
  exact List.nodup_range

theorem Inv.count_le (inv : Inv limit p hand) (c : Nat) : p.objects.count c ≤ 1 :=
  List.nodup_iff_count_le_one.mp inv.nodup c

/-- Changing one term of a sum over a list without duplicates. -/
theorem sum_map_update {l : List Nat} (nodup : l.Nodup) (mem : c ∈ l) {f g : Nat → Nat}
    (same : ∀ d, d ≠ c → g d = f d) : (l.map g).sum + f c = (l.map f).sum + g c := by
  induction l with
  | nil => cases mem
  | cons a l ih =>
      obtain ⟨hnot, hnodup⟩ := List.nodup_cons.mp nodup
      simp only [List.map_cons, List.sum_cons]
      rcases List.mem_cons.mp mem with rfl | hmem
      · have hsame : l.map g = l.map f := by
          refine List.map_congr_left fun d hd => same d ?_
          rintro rfl
          exact hnot hd
        rw [hsame]
        omega
      · have hne : a ≠ c := by
          rintro rfl
          exact hnot hmem
        have := ih hnodup hmem
        rw [same a hne]
        omega

/-- An object in a list of a balanced pool exists, and is in no other place. -/
theorem Inv.place (inv : Inv limit p hand)
    (mem : 0 < p.free.count c + p.delayed.count c + p.reserved.count c + hand.count c) :
    c ∈ p.objects ∧ ¬ p.IsOpen c ∧
      p.free.count c + p.delayed.count c + p.reserved.count c + hand.count c = 1 := by
  have hbal := inv.balanced c
  have hle := inv.count_le c
  refine ⟨List.count_pos_iff.mp (by omega), ?_, by omega⟩
  rw [isOpen_iff_openCount]
  omega

theorem Inv.handle_none (inv : Inv limit p hand)
    (mem : 0 < p.free.count c + p.delayed.count c + hand.count c) : p.handle c = none := by
  obtain ⟨hobject, hclosed, hone⟩ := inv.place (c := c) (by omega)
  by_contra hsome
  refine hclosed ⟨hobject, hsome, ?_⟩
  rw [← List.count_eq_zero]
  omega

theorem openCount_congr (same : q.IsOpen c ↔ p.IsOpen c) : q.openCount c = p.openCount c := by
  by_cases ho : p.IsOpen c
  · rw [openCount_of_isOpen ho, openCount_of_isOpen (same.mpr ho)]
  · rw [openCount_of_not ho, openCount_of_not (mt same.mp ho)]

/-- A new object is not open, and creating it changes nothing for the others. -/
theorem isOpen_create :
    ({ p with
      objects := p.objects ++ [p.objects.length]
      total := p.total + 1
      handle := Function.update p.handle p.objects.length none } : ObjectPool H).IsOpen d ↔
      d ≠ p.objects.length ∧ p.IsOpen d := by
  by_cases hd : d = p.objects.length
  · simp [IsOpen, hd]
  · simp [IsOpen, hd]

/-- Taking an object out puts it in the hand. -/
theorem Taken.inv (taken : Taken p c q) (inv : Inv limit p []) : Inv limit q [c] := by
  cases taken with
  | reuse first =>
      rename_i rest
      refine { inv with balanced := ?_, freeCount_eq := ?_ }
      · intro d
        have hcount : p.free.count d = rest.count d + [c].count d := by
          rw [first, List.count_cons, List.count_singleton]
        have hbal := inv.balanced d
        have hopen := openCount_congr (p := p) (c := d)
          (q := { p with free := rest, freeCount := p.freeCount - 1 }) Iff.rfl
        rw [List.count_nil] at hbal
        show rest.count d + p.delayed.count d + p.reserved.count d + _ + _ = p.objects.count d
        omega
      · have hlen : p.free.length = rest.length + 1 := by rw [first, List.length_cons]
        have hfree := inv.freeCount_eq
        show p.freeCount - 1 = rest.length
        omega
  | create none_free =>
      have hnew : p.objects.length ∉ p.objects := by
        rw [inv.numbered]
        simp
      have hclosed : p.openCount p.objects.length = 0 := openCount_of_not fun ho => hnew ho.1
      set q : ObjectPool H := { p with
        objects := p.objects ++ [p.objects.length]
        total := p.total + 1
        handle := Function.update p.handle p.objects.length none } with hq
      have hopen : q.openCount = p.openCount := by
        funext d
        by_cases hd : d = p.objects.length
        · rw [hd, hclosed]
          exact openCount_of_not fun ho => (isOpen_create.mp ho).1 rfl
        · exact openCount_congr (isOpen_create.trans (and_iff_right hd))
      refine ⟨?_, ?_, ?_, ?_, inv.freeCount_eq, inv.delayedCount_eq, ?_, inv.online_le,
        inv.together, inv.once, ?_⟩
      · show p.objects ++ [p.objects.length] = List.range (p.objects ++ [p.objects.length]).length
        rw [List.length_append, List.length_singleton, List.range_succ, ← inv.numbered]
      · intro d
        have hbal := inv.balanced d
        rw [List.count_nil] at hbal
        rw [hopen]
        show _ + _ = (p.objects ++ [p.objects.length]).count d
        rw [List.count_append]
        show p.free.count d + p.delayed.count d + p.reserved.count d + _ + _ = _
        omega
      · intro a ha b hb h hah hbh
        have hne : ∀ x ∈ p.objects ++ [p.objects.length], q.handle x = some h →
            x ∈ p.objects ∧ p.handle x = some h := by
          intro x hx hxh
          have hxne : x ≠ p.objects.length := by
            rintro rfl
            simp [hq] at hxh
          refine ⟨by simpa [hxne] using hx, by simpa [hq, hxne] using hxh⟩
        obtain ⟨ha', hah'⟩ := hne a ha hah
        obtain ⟨hb', hbh'⟩ := hne b hb hbh
        exact inv.injective a ha' b hb' h hah' hbh'
      · show p.total + 1 = ((p.objects ++ [p.objects.length]).length : Nat)
        rw [inv.total_eq, List.length_append]
        simp
      · show p.online = ((p.objects ++ [p.objects.length]).map q.openCount).sum
        rw [hopen, List.map_append, List.sum_append, inv.online_eq]
        simp [hclosed]
      · intro a u hu
        obtain ⟨hle, hend⟩ := inv.ended_le a u hu
        exact ⟨hle, fun heq ho => hend heq (isOpen_create.mp ho).2⟩

/-- A taken object has no handle. -/
theorem Taken.handle_none (taken : Taken p c q) (inv : Inv limit p []) :
    c ∈ q.objects ∧ q.handle c = none ∧ c ∉ q.reserved ∧ c ∉ q.free := by
  have hinv := taken.inv inv
  have hhand : 0 < ([c] : List Nat).count c := by simp
  obtain ⟨hobject, hclosed, hone⟩ := hinv.place (c := c) (by omega)
  refine ⟨hobject, hinv.handle_none (by omega), ?_, ?_⟩
  · rw [← List.count_eq_zero]
    omega
  · rw [← List.count_eq_zero]
    omega

/-- A new object is created only when none is free. -/
theorem Taken.length_objects (taken : Taken p c q) :
    q.objects.length = p.objects.length ∨
      p.free = [] ∧ q.objects.length = p.objects.length + 1 := by
  cases taken with
  | reuse => exact .inl rfl
  | create none_free => exact .inr ⟨none_free, by simp⟩

theorem Inv.online_nonneg (inv : Inv limit p hand) : 0 ≤ p.online := by
  rw [inv.online_eq]
  exact Int.natCast_nonneg _

theorem Taken.online_eq (taken : Taken p c q) : q.online = p.online := by
  cases taken <;> rfl

theorem Taken.fresh (taken : Taken p c q) (fresh : ∀ d ∈ p.objects, p.handle d ≠ some h) :
    ∀ d ∈ q.objects, q.handle d ≠ some h := by
  cases taken with
  | reuse => exact fresh
  | create =>
      intro d hd
      by_cases hne : d = p.objects.length
      · simp [hne]
      · simpa [hne] using fresh d (by simpa [hne] using hd)

/-- An object that is taken out had no handle, if it existed before. -/
theorem Taken.idle (taken : Taken p c q) (inv : Inv limit p []) (mem : c ∈ p.objects) :
    p.handle c = none := by
  cases taken with
  | reuse first =>
      refine inv.handle_none ?_
      rw [first, List.count_cons_self]
      omega
  | create =>
      rw [inv.numbered] at mem
      simp at mem

theorem Taken.reserved_eq (taken : Taken p c q) : q.reserved = p.reserved := by
  cases taken <;> rfl

theorem Taken.mem_free (taken : Taken p c q) (mem : d ∈ q.free) : d ∈ p.free := by
  cases taken with
  | reuse first =>
      rw [first]
      exact List.mem_cons_of_mem _ mem
  | create => exact mem

theorem Taken.mem_objects (taken : Taken p c q) (inv : Inv limit p []) :
    d ∈ q.objects ↔ d = c ∨ d ∈ p.objects := by
  have hmem := (taken.handle_none inv).1
  cases taken with
  | reuse first =>
      refine ⟨.inr, ?_⟩
      rintro (rfl | hd)
      · exact hmem
      · exact hd
  | create => simp [or_comm]

/-- Closing an object leaves the others open as they were. -/
theorem isOpen_update_none (objects : q.objects = p.objects) (reserved : q.reserved = p.reserved)
    (handle : q.handle = Function.update p.handle c none) :
    q.IsOpen d ↔ d ≠ c ∧ p.IsOpen d := by
  by_cases hd : d = c
  · simp [IsOpen, handle, hd]
  · simp [IsOpen, objects, reserved, handle, hd]

theorem injective_update_none (handle : q.handle = Function.update p.handle c none)
    {a : Nat} (ha : q.handle a = some h) : p.handle a = some h := by
  rw [handle] at ha
  by_cases hac : a = c
  · simp [hac] at ha
  · simpa [hac] using ha

/-- A handle nobody has stays without a second owner. -/
theorem injective_update_some
    (injective : ∀ c ∈ p.objects, ∀ d ∈ p.objects, ∀ h, p.handle c = some h →
      p.handle d = some h → c = d)
    (fresh : ∀ d ∈ p.objects, p.handle d ≠ some h)
    (handle : q.handle = Function.update p.handle c (some h)) {a b : Nat} {h' : H}
    (ha : a ∈ p.objects) (hb : b ∈ p.objects) (hah : q.handle a = some h')
    (hbh : q.handle b = some h') : a = b := by
  have hcase : ∀ x, q.handle x = some h' →
      x = c ∧ h' = h ∨ x ≠ c ∧ p.handle x = some h' := by
    intro x hx
    rw [handle] at hx
    by_cases hxc : x = c
    · simp [hxc] at hx
      exact .inl ⟨hxc, hx.symm⟩
    · exact .inr ⟨hxc, by simpa [hxc] using hx⟩
  rcases hcase a hah with ⟨rfl, rfl⟩ | ⟨-, ha'⟩
  · rcases hcase b hbh with ⟨rfl, -⟩ | ⟨-, hb'⟩
    · rfl
    · exact absurd hb' (fresh b hb)
  · rcases hcase b hbh with ⟨rfl, rfl⟩ | ⟨-, hb'⟩
    · exact absurd ha' (fresh a ha)
    · exact injective a ha b hb h' ha' hb'

theorem Inv.open_ (inv : Inv limit p [c]) (fresh : ∀ d ∈ p.objects, p.handle d ≠ some h)
    (room : p.online < limit) : Inv limit (p.open_ c h) [] := by
  obtain ⟨hobject, hclosed, hone⟩ := inv.place (c := c) (by simp)
  have hreserved : c ∉ p.reserved := by
    rw [← List.count_eq_zero]
    rw [List.count_singleton_self] at hone
    omega
  have hopen : (p.open_ c h).openCount c = 1 :=
    openCount_of_isOpen ⟨hobject, by simp [ObjectPool.open_], hreserved⟩
  have hother : ∀ d, d ≠ c → (p.open_ c h).openCount d = p.openCount d := by
    intro d hd
    refine openCount_congr ?_
    simp [IsOpen, ObjectPool.open_, hd]
  have hsum := sum_map_update inv.nodup hobject hother
  rw [hopen, openCount_of_not hclosed] at hsum
  refine ⟨inv.numbered, ?_, ?_, inv.total_eq, inv.freeCount_eq, inv.delayedCount_eq, ?_, ?_,
    inv.together, inv.once, ?_⟩
  · intro d
    have hbal := inv.balanced d
    rw [List.count_nil]
    by_cases hd : d = c
    · subst hd
      rw [List.count_singleton_self, openCount_of_not hclosed] at hbal
      rw [hopen]
      exact hbal
    · rw [List.count_singleton, if_neg (by simpa using fun he => hd he.symm)] at hbal
      rw [hother d hd]
      exact hbal
  · exact fun a ha b hb h' => injective_update_some inv.injective fresh rfl ha hb
  · show p.online + 1 = ((p.objects.map (p.open_ c h).openCount).sum : Nat)
    rw [inv.online_eq]
    omega
  · show p.online + 1 ≤ max 0 limit
    omega
  · intro a u hu
    obtain ⟨hle, hend⟩ := inv.ended_le a u hu
    by_cases hac : a = c
    · subst hac
      simp only [ObjectPool.open_, Function.update_self]
      exact ⟨by omega, fun heq => by omega⟩
    · simp only [ObjectPool.open_, Function.update_of_ne hac]
      refine ⟨hle, fun heq ho => hend heq ?_⟩
      rw [isOpen_iff_openCount] at ho ⊢
      rw [← hother a hac]
      exact ho

theorem Inv.refuse (inv : Inv limit p [c]) : Inv limit (p.refuse c) [] := by
  obtain ⟨hobject, hclosed, hone⟩ := inv.place (c := c) (by simp)
  have hopen : ∀ d, (p.refuse c).IsOpen d ↔ p.IsOpen d := by
    intro d
    refine (isOpen_update_none (p := p) (q := p.refuse c) rfl rfl rfl).trans
      (and_iff_right_of_imp ?_)
    rintro ho rfl
    exact hclosed ho
  have hcount : (p.refuse c).openCount = p.openCount :=
    funext fun d => openCount_congr (hopen d)
  refine ⟨inv.numbered, ?_, ?_, inv.total_eq, ?_, inv.delayedCount_eq, ?_, inv.online_le,
    inv.together, ?_, ?_⟩
  · intro d
    have hbal := inv.balanced d
    rw [hcount]
    show (p.free ++ [c]).count d + p.delayed.count d + p.reserved.count d + _ + _ =
      p.objects.count d
    rw [List.count_append, List.count_nil]
    omega
  · intro a ha b hb h hah hbh
    exact inv.injective a ha b hb h (injective_update_none rfl hah) (injective_update_none rfl hbh)
  · show p.freeCount + 1 = ((p.free ++ [c]).length : Nat)
    rw [inv.freeCount_eq]
    simp
  · rw [hcount]
    exact inv.online_eq
  · have hnew : (c, p.use c + 1) ∉ p.ended := fun hmem => by
      have := (inv.ended_le _ _ hmem).1
      omega
    show (p.closed ++ (p.refused ++ [(c, p.use c + 1)])).Nodup
    rw [← List.append_assoc]
    exact List.nodup_append.mpr ⟨inv.once, by simp, by
      rintro x hx y hy rfl
      rw [List.mem_singleton.mp hy] at hx
      exact hnew hx⟩
  · intro a u hu
    have hu' : (a, u) ∈ p.ended ∨ (a, u) = (c, p.use c + 1) := by
      simp only [ended, ObjectPool.refuse, List.mem_append, List.mem_singleton] at hu ⊢
      tauto
    by_cases hac : a = c
    · subst hac
      have hnot : ¬ (p.refuse a).IsOpen a := fun ho => hclosed ((hopen a).mp ho)
      simp only [ObjectPool.refuse, Function.update_self]
      refine ⟨?_, fun _ => hnot⟩
      rcases hu' with hu' | hu'
      · have := (inv.ended_le _ _ hu').1
        omega
      · simp only [Prod.mk.injEq] at hu'
        omega
    · simp only [ObjectPool.refuse, Function.update_of_ne hac]
      rcases hu' with hu' | hu'
      · exact ⟨(inv.ended_le _ _ hu').1, fun heq ho =>
          (inv.ended_le _ _ hu').2 heq ((hopen a).mp ho)⟩
      · simp only [Prod.mk.injEq] at hu'
        exact absurd hu'.1 hac

theorem Inv.retire (inv : Inv limit p []) (isOpen : p.IsOpen c) : Inv limit (p.retire c) [] := by
  have hopen : ∀ d, (p.retire c).IsOpen d ↔ d ≠ c ∧ p.IsOpen d := fun d =>
    isOpen_update_none (p := p) rfl rfl rfl
  have hself : (p.retire c).openCount c = 0 := openCount_of_not fun ho => ((hopen c).mp ho).1 rfl
  have hother : ∀ d, d ≠ c → (p.retire c).openCount d = p.openCount d := fun d hd =>
    openCount_congr ((hopen d).trans (and_iff_right hd))
  have hsum := sum_map_update inv.nodup isOpen.1 hother
  rw [hself, openCount_of_isOpen isOpen] at hsum
  have hnew : (c, p.use c) ∉ p.ended := fun hmem => (inv.ended_le _ _ hmem).2 rfl isOpen
  refine ⟨inv.numbered, ?_, ?_, inv.total_eq, inv.freeCount_eq, ?_, ?_, ?_, ?_, ?_, ?_⟩
  · intro d
    have hbal := inv.balanced d
    show p.free.count d + (p.delayed ++ [c]).count d + p.reserved.count d + _ + _ =
      p.objects.count d
    rw [List.count_append]
    by_cases hd : d = c
    · subst hd
      rw [openCount_of_isOpen isOpen] at hbal
      rw [hself, List.count_singleton_self]
      omega
    · rw [hother d hd, List.count_singleton, if_neg (by simpa using fun he => hd he.symm)]
      omega
  · intro a ha b hb h hah hbh
    exact inv.injective a ha b hb h (injective_update_none rfl hah) (injective_update_none rfl hbh)
  · intro hstopped
    show p.delayedCount + 1 = ((p.delayed ++ [c]).length : Nat)
    rw [inv.delayedCount_eq hstopped]
    simp
  · show p.online - 1 = ((p.objects.map (p.retire c).openCount).sum : Nat)
    rw [inv.online_eq]
    omega
  · have hle := inv.online_le
    show p.online - 1 ≤ max 0 limit
    omega
  · obtain ⟨huncounted, hretired⟩ := inv.together
    simp only [ObjectPool.retire, huncounted, hretired, and_self]
  · have hperm : (p.retire c).ended.Perm ((c, p.use c) :: p.ended) := by
      simp only [ended, ObjectPool.retire, List.append_assoc, List.singleton_append]
      exact List.perm_middle
    exact hperm.nodup_iff.mpr (List.nodup_cons.mpr ⟨hnew, inv.once⟩)
  · intro a u hu
    have hu' : (a, u) ∈ p.ended ∨ (a, u) = (c, p.use c) := by
      simp only [ended, ObjectPool.retire, List.mem_append, List.mem_singleton] at hu ⊢
      tauto
    rcases hu' with hu' | hu'
    · obtain ⟨hle, hend⟩ := inv.ended_le a u hu'
      exact ⟨hle, fun heq ho => hend heq ((hopen a).mp ho).2⟩
    · simp only [Prod.mk.injEq] at hu'
      obtain ⟨rfl, rfl⟩ := hu'
      exact ⟨Nat.le_refl _, fun _ ho => ((hopen a).mp ho).1 rfl⟩

/-- Returning a delayed object, whatever happens to the counter. -/
theorem Inv.recycle (inv : Inv limit p []) {front back : List Nat}
    (split : p.delayed = front ++ c :: back) (count : Int)
    (count_eq : p.stopped = false → count = p.delayedCount - 1) :
    Inv limit { p.recycle c (front ++ back) with delayedCount := count } [] := by
  refine { inv with balanced := ?_, freeCount_eq := ?_, delayedCount_eq := ?_ }
  · intro d
    have hbal := inv.balanced d
    have hsplit : p.delayed.count d = (front ++ back).count d + [c].count d := by
      rw [split]
      simp only [List.count_append, List.count_cons, List.count_nil]
      omega
    have hopen := openCount_congr (p := p) (c := d)
      (q := { p.recycle c (front ++ back) with delayedCount := count }) Iff.rfl
    rw [hopen]
    show (p.free ++ [c]).count d + (front ++ back).count d + p.reserved.count d + _ + _ =
      p.objects.count d
    rw [List.count_append]
    omega
  · show p.freeCount + 1 = ((p.free ++ [c]).length : Nat)
    rw [inv.freeCount_eq]
    simp
  · intro hstopped
    have hlen : p.delayed.length = (front ++ back).length + 1 := by
      rw [split]
      simp only [List.length_append, List.length_cons]
      omega
    have hcount := inv.delayedCount_eq hstopped
    show count = ((front ++ back).length : Nat)
    rw [count_eq hstopped]
    omega

/-- Reserving a taken object on a handle nobody has. -/
theorem Inv.reserve (inv : Inv limit p [c]) (fresh : ∀ d ∈ p.objects, p.handle d ≠ some h) :
    Inv limit (p.reserve c h) [] := by
  obtain ⟨-, hclosed, -⟩ := inv.place (c := c) (by simp)
  have hopen : ∀ d, (p.reserve c h).IsOpen d ↔ p.IsOpen d := by
    intro d
    by_cases hd : d = c
    · subst hd
      refine ⟨fun ho => absurd ho.2.2 ?_, fun ho => absurd ho hclosed⟩
      simp [ObjectPool.reserve]
    · simp [IsOpen, ObjectPool.reserve, hd]
  have hcount : (p.reserve c h).openCount = p.openCount :=
    funext fun d => openCount_congr (hopen d)
  refine ⟨inv.numbered, ?_, ?_, inv.total_eq, inv.freeCount_eq, inv.delayedCount_eq, ?_,
    inv.online_le, inv.together, inv.once, fun a u hu => ?_⟩
  · intro d
    have hbal := inv.balanced d
    rw [hcount]
    show p.free.count d + p.delayed.count d + (p.reserved ++ [c]).count d + _ + _ =
      p.objects.count d
    rw [List.count_append, List.count_nil]
    omega
  · exact fun a ha b hb h' => injective_update_some inv.injective fresh rfl ha hb
  · rw [hcount]
    exact inv.online_eq
  · obtain ⟨hle, hend⟩ := inv.ended_le a u hu
    exact ⟨hle, fun heq ho => hend heq ((hopen a).mp ho)⟩

theorem inv_initial {n : Nat} {handle : Nat → Option H} (closed : ∀ c < n, handle c = none) :
    Inv limit (initial H n handle) [] := by
  have hopen : ∀ c, ¬ (initial H n handle).IsOpen c := fun c ho =>
    ho.2.1 (closed c (List.mem_range.mp ho.1))
  have hcount : (initial H n handle).openCount = fun _ => 0 :=
    funext fun c => openCount_of_not (hopen c)
  refine ⟨by simp [initial], fun c => ?_, ?_, by simp [initial], by simp [initial],
    fun _ => rfl, ?_, ?_, ⟨rfl, rfl⟩, List.nodup_nil, fun _ _ hu => by cases hu⟩
  · rw [hcount]
    simp [initial]
  · intro a ha b _ h hah _
    rw [show (initial H n handle).handle a = none from closed a (List.mem_range.mp ha)] at hah
    cases hah
  · rw [hcount]
    simp [initial]
  · exact Int.le_max_left 0 limit

/-- Every step keeps the pool in order. -/
theorem Step.inv (step : Step limit p q) (inv : Inv limit p []) : Inv limit q [] := by
  cases step with
  | admits taken room fresh =>
      exact (taken.inv inv).open_ (taken.fresh fresh) (by rwa [taken.online_eq])
  | refuse taken => exact (taken.inv inv).refuse
  | retire isOpen => exact inv.retire isOpen
  | recycle split => exact inv.recycle split _ fun _ => rfl
  | drain stopped split =>
      exact inv.recycle split p.delayedCount fun h => by simp [stopped] at h
  | stop => exact { inv with delayedCount_eq := fun h => by cases h }

end ObjectPool

end Foundation
