import MyNginx.App.Conf

/-!
# What the configuration loader needs of a file

`Load` works on what `fgets` reads: a physical line, or a piece of 198 bytes of a longer
one. For each of them it is said here which name and which value it stands for, without
the buffer the loader cuts up; the loader is undefined when one of them does not fit.
-/

namespace MyNginx

open Foundation

namespace CConfig

/-- The string in a line, behind the leading spaces. -/
def text (line : List UInt8) : List UInt8 := (cstr line).dropWhile (· = space)

/-- The string is not blank, begins with a byte that is accepted, and has its first `=` in
front of any `#`. -/
def IsSetting (line : List UInt8) : Prop :=
  match text line with
  | [] => False
  | first :: rest =>
      first ≤ 127 ∧ first ≠ newline ∧ first ≠ carriageReturn ∧ first ≠ hash ∧ first ≠ bracket ∧
        equals ∈ (first :: rest).takeWhile (· ≠ hash)

instance : DecidablePred IsSetting := fun line => by
  unfold IsSetting
  split <;> infer_instance

/-- What stands in front of the `=`. -/
def settingName (line : List UInt8) : List UInt8 :=
  ((text line).takeWhile (· ≠ equals)).rdropWhile isTrailing

/-- What stands behind it, up to a comment. -/
def settingValue (line : List UInt8) : List UInt8 :=
  ((((text line).takeWhile (· ≠ hash)).dropWhile (· ≠ equals)).tail.rdropWhile isTrailing).dropWhile
    (· = space)

/-- A name of 1 to 29 bytes and a value of at most 59. -/
def Fits (line : List UInt8) : Prop :=
  settingName line ≠ [] ∧ (settingName line).length < 30 ∧ (settingValue line).length < 60

instance : DecidablePred Fits := fun _ => inferInstanceAs (Decidable (_ ∧ _ ∧ _))

variable {line : List UInt8}

theorem zero_not_mem_text : (0 : UInt8) ∉ text line := by
  intro hmem
  have hcstr : (0 : UInt8) ∈ cstr line := (List.dropWhile_sublist _).subset hmem
  have hne := List.mem_takeWhile_imp hcstr
  simp at hne

theorem zero_not_mem_settingName : (0 : UInt8) ∉ settingName line := fun hmem =>
  zero_not_mem_text ((List.takeWhile_prefix _).subset ((List.rdropWhile_prefix _ _).subset hmem))

theorem zero_not_mem_settingValue : (0 : UInt8) ∉ settingValue line := by
  intro hmem
  have htail := (List.rdropWhile_prefix _ _).subset ((List.dropWhile_sublist _).subset hmem)
  exact zero_not_mem_text ((List.takeWhile_prefix _).subset
    ((List.dropWhile_sublist _).subset (List.mem_of_mem_tail htail)))

/-- Splitting at the first `=`. -/
theorem split_equals {front : List UInt8} (h : equals ∉ front) (back : List UInt8) :
    (front ++ equals :: back).takeWhile (· ≠ equals) = front ∧
      (front ++ equals :: back).dropWhile (· ≠ equals) = equals :: back := by
  have hall : ∀ b ∈ front, (fun b => decide (b ≠ equals)) b = true := by
    intro b hb
    have hne : b ≠ equals := fun he => h (he ▸ hb)
    simpa using hne
  constructor
  · rw [List.takeWhile_append_of_pos hall]
    simp
  · rw [List.dropWhile_append_of_pos hall]
    simp

/-- A string that fits is copied. -/
theorem strcpy_fits {n : Nat} (dst : CharArray n) {src : List UInt8} (fits : src.length < n)
    (zero : (0 : UInt8) ∉ src) :
    ∃ copy : CharArray n, strcpy dst (some src) = .ok copy ∧ cstr copy = src := by
  have hlen : (src ++ [0]).length ≤ dst.1.length := by
    rw [List.length_append, List.length_singleton, dst.2]
    exact fits
  have hlength : (overwrite dst.1 0 (src ++ [0])).length = n := by
    rw [length_overwrite (by rw [Nat.zero_add]; exact hlen), dst.2]
  refine ⟨⟨overwrite dst.1 0 (src ++ [0]), hlength⟩, by rw [strcpy, dif_pos fits], ?_⟩
  have hall : ∀ b ∈ src, (fun b => decide (b ≠ (0 : UInt8))) b = true := by
    intro b hb
    have hne : b ≠ 0 := fun he => zero (he ▸ hb)
    simpa using hne
  simp only [overwrite, cstr, List.take_zero, List.nil_append, List.append_assoc]
  rw [List.takeWhile_append_of_pos hall]
  simp

/-- The copies of a line with a setting. -/
theorem loadLine_setting (h : IsSetting line) :
    loadLine line = (strcpy ConfItem.zero.itemvalue (some (settingValue line))).bind fun itemvalue =>
      (strcpy ConfItem.zero.itemname
        (if settingName line = [] then none else some (settingName line))).map fun itemname =>
          some { itemname, itemvalue } := by
  have hltrim : ltrim (cstr line) = text line := ltrim_eq _
  cases htext : text line with
  | nil =>
      rw [IsSetting, htext] at h
      exact h.elim
  | cons first rest =>
      rw [IsSetting, htext] at h
      obtain ⟨hchar, hnewline, hreturn, hhash, hbracket, hmem⟩ := h
      obtain ⟨front, back, hnote, hfront⟩ := List.eq_append_cons_of_mem hmem
      obtain ⟨htake, hdrop⟩ := split_equals hfront back
      obtain ⟨htake', hdrop'⟩ := split_equals hfront (back.rdropWhile isTrailing)
      have htrim := rdropWhile_append_cons (b := equals) (by decide) front back
      have hname : settingName line = front.rdropWhile isTrailing := by
        have hwhole := List.takeWhile_append_dropWhile (p := (· ≠ hash)) (l := first :: rest)
        rw [settingName, htext, ← hwhole, hnote, List.append_assoc, List.cons_append,
          (split_equals hfront _).1]
      have hvalue : settingValue line = (back.rdropWhile isTrailing).dropWhile (· = space) := by
        rw [settingValue, htext, hnote, hdrop, List.tail_cons]
      simp only [loadLine, hltrim, htext, UInt8.not_lt.mpr hchar, hnewline, hreturn, hhash, hbracket,
        or_self, if_false, hnote, rtrim, htrim, htake', hdrop', List.tail_cons, ltrim_eq, hname,
        hvalue]
      rw [if_pos (by simp)]

/-- A line without a setting is passed over. -/
theorem loadLine_skipped (h : ¬ IsSetting line) : loadLine line = .ok none := by
  have hltrim : ltrim (cstr line) = text line := ltrim_eq _
  cases htext : text line with
  | nil => simp only [loadLine, hltrim, htext]
  | cons first rest =>
      rw [IsSetting, htext] at h
      simp only [loadLine, hltrim, htext]
      split
      · rfl
      next hchar =>
      split
      · rfl
      next hfirst =>
      split
      next hmem =>
        have hnote := (List.rdropWhile_prefix _ _).subset hmem
        exact absurd ⟨UInt8.not_lt.mp hchar, by tauto⟩ h
      next => rfl

/-- The loader of a line that holds no setting, of one that does not fit, and of one that
does. -/
theorem loadLine_eq (line : List UInt8) :
    ¬ IsSetting line ∧ loadLine line = .ok none ∨
      IsSetting line ∧ ¬ Fits line ∧ (∃ fault, loadLine line = .error fault) ∨
      IsSetting line ∧ Fits line ∧ ∃ item : ConfItem, loadLine line = .ok (some item) ∧
        item.name = settingName line ∧ item.value = settingValue line := by
  by_cases hsetting : IsSetting line
  swap
  · exact .inl ⟨hsetting, loadLine_skipped hsetting⟩
  rw [loadLine_setting hsetting]
  by_cases hvalue : (settingValue line).length < 60
  swap
  · refine .inr (.inl ⟨hsetting, fun hfits => hvalue hfits.2.2, .overflow, ?_⟩)
    rw [strcpy, dif_neg hvalue]
    rfl
  obtain ⟨itemvalue, hcopy, hstring⟩ :=
    strcpy_fits ConfItem.zero.itemvalue hvalue zero_not_mem_settingValue
  rw [hcopy]
  by_cases hnil : settingName line = []
  · refine .inr (.inl ⟨hsetting, fun hfits => hfits.1 hnil, .nullSource, ?_⟩)
    rw [if_pos hnil]
    rfl
  rw [if_neg hnil]
  by_cases hname : (settingName line).length < 30
  swap
  · refine .inr (.inl ⟨hsetting, fun hfits => hname hfits.2.1, .overflow, ?_⟩)
    show (strcpy ConfItem.zero.itemname (some (settingName line))).map _ = _
    rw [strcpy, dif_neg hname]
    rfl
  obtain ⟨itemname, hcopy', hstring'⟩ :=
    strcpy_fits ConfItem.zero.itemname hname zero_not_mem_settingName
  refine .inr (.inr ⟨hsetting, ⟨hnil, hname, hvalue⟩, ⟨itemname, itemvalue⟩, ?_, hstring', hstring⟩)
  show (strcpy ConfItem.zero.itemname (some (settingName line))).map _ = _
  rw [hcopy']
  rfl

/-- The loop over what `fgets` reads. -/
def loadReads : List (List UInt8) → List ConfItem → Except Fault (List ConfItem)
  | [], items => .ok items
  | line :: rest, items =>
      (loadLine line).bind fun item => loadReads rest (items ++ item.toList)

/-- The room for bytes in the buffer of the loader. -/
def capacity : Nat := lineSize - 2

/-- The loop ends: each round takes bytes from the file or notices its end. -/
theorem loadLoop_eq (fuel : Nat) (fp : Stream) (items : List ConfItem)
    (atEnd : fp.eof = true → fp.rest = [])
    (enough : fp.rest.length + (if fp.eof then 1 else 2) ≤ fuel) :
    loadLoop fuel fp items = some (loadReads (reads capacity fp.rest) items) := by
  induction fuel generalizing fp items with
  | zero => split at enough <;> omega
  | succ fuel ih =>
      obtain ⟨rest, eof⟩ := fp
      cases eof with
      | true =>
          obtain rfl : rest = [] := atEnd rfl
          rw [reads_nil]
          rfl
      | false =>
          simp only [Bool.false_eq_true, if_false] at enough
          by_cases hrest : rest = []
          · subst hrest
            have hnext := ih ⟨[], true⟩ items (fun _ => rfl) (by simpa using enough)
            rw [← hnext]
            rfl
          · have hpos := takeLine_length_pos hrest (n := capacity) (by decide)
            have hlength := List.length_pos_iff.mpr hrest
            obtain ⟨next, hread, hnext, heof⟩ :=
              fgets_some hrest (show 0 < lineSize - 1 - 1 by decide)
            have henough : next.rest.length + (if next.eof then 1 else 2) ≤ fuel := by
              rw [hnext, List.length_drop]
              have hle : (if next.eof then 1 else 2) ≤ 2 := by split <;> decide
              have hcapacity : lineSize - 1 - 1 = capacity := rfl
              rw [hcapacity]
              omega
            rw [reads_eq hrest (by decide)]
            simp only [loadLoop, Bool.false_eq_true, if_false, hread, loadReads]
            rw [show takeLine (lineSize - 1 - 1) rest = takeLine capacity rest from rfl] at hnext ⊢
            rw [← hnext]
            cases loadLine (takeLine capacity rest) with
            | error fault => rfl
            | ok item =>
                cases item with
                | none =>
                    have hrest := ih next items heof henough
                    simpa [Except.bind] using hrest
                | some item => exact ih next (items ++ [item]) heof henough

/-- `Load` works through the lines of the file and the pieces of the long ones. -/
theorem load_eq (items : List ConfItem) (content : List UInt8) :
    load items (some content) = some ((loadReads (reads capacity content) items).map fun items =>
      (true, items)) := by
  have hloop := loadLoop_eq (content.length + 2) ⟨content, false⟩ items nofun (Nat.le_refl _)
  rw [load, hloop]
  rfl

/-- What is loaded when everything fits. -/
theorem loadReads_of_fits {lines : List (List UInt8)}
    (fits : ∀ line ∈ lines, IsSetting line → Fits line) :
    ∃ loaded : List ConfItem, (∀ items, loadReads lines items = .ok (items ++ loaded)) ∧
      loaded.map (fun item => (item.name, item.value)) =
        (lines.filter fun line => decide (IsSetting line)).map fun line =>
          (settingName line, settingValue line) := by
  induction lines with
  | nil => exact ⟨[], fun items => by rw [loadReads, List.append_nil], rfl⟩
  | cons line lines ih =>
      obtain ⟨loaded, hload, hmap⟩ := ih fun other h => fits other (List.mem_cons_of_mem _ h)
      rcases loadLine_eq line with ⟨hnot, hline⟩ | ⟨hsetting, hnot, -⟩ |
        ⟨hsetting, -, item, hline, hname, hvalue⟩
      · refine ⟨loaded, fun items => ?_, by rw [hmap]; simp [hnot]⟩
        rw [loadReads, hline]
        simpa [Except.bind] using hload items
      · exact absurd (fits line List.mem_cons_self hsetting) hnot
      · refine ⟨item :: loaded, fun items => ?_, by simp [hsetting, hname, hvalue, hmap]⟩
        rw [loadReads, hline]
        simpa [Except.bind] using hload (items ++ [item])

/-- When something does not fit, a copy of it is undefined. -/
theorem loadReads_of_not {lines : List (List UInt8)} (items : List ConfItem)
    (not : ¬ ∀ line ∈ lines, IsSetting line → Fits line) :
    ∃ fault, loadReads lines items = .error fault := by
  induction lines generalizing items with
  | nil => exact absurd (fun line h => by cases h) not
  | cons line lines ih =>
      rcases loadLine_eq line with ⟨hnot, hline⟩ | ⟨-, -, fault, hline⟩ |
        ⟨hsetting, hfits, item, hline, -⟩
      · have hrest : ¬ ∀ other ∈ lines, IsSetting other → Fits other := fun h =>
          not (List.forall_mem_cons.mpr ⟨fun hsetting => absurd hsetting hnot, h⟩)
        obtain ⟨fault, hload⟩ := ih items hrest
        refine ⟨fault, ?_⟩
        rw [loadReads, hline]
        simpa [Except.bind] using hload
      · exact ⟨fault, by rw [loadReads, hline]; rfl⟩
      · have hrest : ¬ ∀ other ∈ lines, IsSetting other → Fits other := fun h =>
          not (List.forall_mem_cons.mpr ⟨fun _ => hfits, h⟩)
        obtain ⟨fault, hload⟩ := ih (items ++ [item]) hrest
        refine ⟨fault, ?_⟩
        rw [loadReads, hline]
        simpa [Except.bind] using hload

/-- Every copy that `Load` makes is defined exactly when each line with a setting, long
lines being cut behind every 198 bytes, has a name of 1 to 29 bytes and a value of at most
59. -/
theorem load_defined_iff (items : List ConfItem) (content : List UInt8) :
    (∃ loaded, load items (some content) = some (.ok (true, loaded))) ↔
      ∀ line ∈ reads capacity content, IsSetting line → Fits line := by
  rw [load_eq]
  constructor
  · rintro ⟨loaded, hload⟩
    by_contra hnot
    obtain ⟨fault, hfault⟩ := loadReads_of_not items hnot
    rw [hfault] at hload
    cases Option.some.inj hload
  · intro hfits
    obtain ⟨loaded, hload, -⟩ := loadReads_of_fits hfits
    exact ⟨items ++ loaded, by rw [hload]; rfl⟩

/-- A line that begins with `=` makes the loader copy from a null pointer. -/
theorem load_undefined : ¬ ∀ (items : List ConfItem) (content : List UInt8),
    ∃ loaded, load items (some content) = some (.ok (true, loaded)) := by
  intro hclaim
  obtain ⟨loaded, hload⟩ := hclaim [] [equals, newline]
  have hfault : load [] (some [equals, newline]) = some (.error .nullSource) := by decide
  rw [hfault] at hload
  cases Option.some.inj hload

end CConfig

end MyNginx
