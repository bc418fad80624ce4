import MyNginx.Config.Loading

/-!
# Physical lines and items

`Load` tells lines apart by what `fgets` reads, so a line of more than 198 bytes counts as
several. A piece of such a line is treated like a line of its own: the tail of a comment
may be taken for a setting, and a setting may be lost or taken twice.
-/

namespace MyNginx

open Foundation

namespace CConfig

/-- The name and the value of the setting in a line, if it holds one. -/
def lineSettings (line : List UInt8) : List (List UInt8 × List UInt8) :=
  if IsSetting line then [(settingName line, settingValue line)] else []

/-- The names and the values of items. -/
def contents (items : List ConfItem) : List (List UInt8 × List UInt8) :=
  items.map fun item => (item.name, item.value)

/-- The items of a file are those of its physical lines, taken one by one: a line with a
setting gives one item, with its name and its value, and any other line none. -/
def OnePerLine (content : List UInt8) : Prop :=
  ∃ groups : List (List ConfItem),
    load [] (some content) = some (.ok (true, groups.flatten)) ∧
      List.Forall₂ (fun line group => load [] (some line) = some (.ok (true, group)) ∧
        contents group = lineSettings line) (lines content) groups

/-- Cutting the line leaves exactly one piece with a setting, if it holds one, and that piece
fits and has the name and the value of the line; otherwise it leaves none. -/
def CutsWell (line : List UInt8) : Prop :=
  (∀ piece ∈ pieces capacity line, IsSetting piece → Fits piece) ∧
    (pieces capacity line).flatMap lineSettings = lineSettings line

variable {line content : List UInt8}

theorem reads_line (h : line ∈ lines content) : reads capacity line = pieces capacity line := by
  rw [reads, (lines_of_mem h).2, List.flatMap_singleton]

theorem filter_lineSettings (ls : List (List UInt8)) :
    (ls.filter fun line => decide (IsSetting line)).map
      (fun line => (settingName line, settingValue line)) = ls.flatMap lineSettings := by
  induction ls with
  | nil => rfl
  | cons line ls ih =>
      rw [List.flatMap_cons, ← ih, lineSettings]
      by_cases hsetting : IsSetting line <;> simp [hsetting]

/-- What is loaded when everything fits. -/
theorem contents_of_fits {ls : List (List UInt8)} (fits : ∀ line ∈ ls, IsSetting line → Fits line) :
    ∃ loaded : List ConfItem, (∀ items, loadReads ls items = .ok (items ++ loaded)) ∧
      contents loaded = ls.flatMap lineSettings := by
  obtain ⟨loaded, hload, hmap⟩ := loadReads_of_fits fits
  exact ⟨loaded, hload, hmap.trans (filter_lineSettings ls)⟩

/-- A line that fits in the buffer is one piece. -/
theorem cutsWell_short (h : line ∈ lines content) (short : line.length ≤ capacity)
    (fits : IsSetting line → Fits line) : CutsWell line := by
  rw [CutsWell, pieces_of_le (lines_of_mem h).1 short, List.flatMap_singleton]
  refine ⟨fun piece hpiece => ?_, rfl⟩
  rw [List.mem_singleton.mp hpiece]
  exact fits

/-- What a line gives on its own. -/
theorem load_line (h : line ∈ lines content) :
    CutsWell line ↔ ∃ group, load [] (some line) = some (.ok (true, group)) ∧
      contents group = lineSettings line := by
  have hpieces := reads_line h
  constructor
  · rintro ⟨hfits, hcuts⟩
    obtain ⟨loaded, hload, hcontents⟩ := contents_of_fits hfits
    refine ⟨loaded, ?_, hcontents.trans hcuts⟩
    rw [load_eq, hpieces, hload, List.nil_append]
    rfl
  · rintro ⟨group, hgroup, hsettings⟩
    have hfits := (load_defined_iff [] line).mp ⟨group, hgroup⟩
    rw [hpieces] at hfits
    refine ⟨hfits, ?_⟩
    obtain ⟨loaded, hload, hcontents⟩ := contents_of_fits hfits
    rw [load_eq, hpieces, hload, List.nil_append] at hgroup
    obtain rfl : loaded = group := by
      simpa [Except.map] using hgroup
    exact hcontents.symm.trans hsettings

theorem loadReads_append (front back : List (List UInt8)) (items : List ConfItem) :
    loadReads (front ++ back) items = (loadReads front items).bind (loadReads back) := by
  induction front generalizing items with
  | nil => rfl
  | cons line front ih =>
      rw [List.cons_append, loadReads, loadReads]
      cases loadLine line with
      | error fault => rfl
      | ok item => exact ih _

theorem forall₂_left {α β : Type} {R : α → β → Prop} {as : List α} {bs : List β}
    (h : List.Forall₂ R as bs) {a : α} (mem : a ∈ as) : ∃ b, R a b := by
  induction h with
  | nil => cases mem
  | cons hab _ ih =>
      rcases List.mem_cons.mp mem with rfl | hrest
      · exact ⟨_, hab⟩
      · exact ih hrest

/-- Lines that are cut well, one after the other. -/
theorem loadReads_lines {ls : List (List UInt8)} (cuts : ∀ line ∈ ls, CutsWell line)
    (known : ∀ line ∈ ls, line ∈ lines content) :
    ∃ groups : List (List ConfItem),
      (∀ items, loadReads (ls.flatMap (pieces capacity)) items = .ok (items ++ groups.flatten)) ∧
        List.Forall₂ (fun line group => load [] (some line) = some (.ok (true, group)) ∧
          contents group = lineSettings line) ls groups := by
  induction ls with
  | nil => exact ⟨[], fun items => by simp [loadReads], .nil⟩
  | cons line ls ih =>
      obtain ⟨groups, hload, hgroups⟩ := ih (fun other h => cuts other (List.mem_cons_of_mem _ h))
        fun other h => known other (List.mem_cons_of_mem _ h)
      have hline := known line List.mem_cons_self
      obtain ⟨hfits, hcuts⟩ := cuts line List.mem_cons_self
      obtain ⟨loaded, hpieces, hcontents⟩ := contents_of_fits hfits
      refine ⟨loaded :: groups, fun items => ?_, .cons ⟨?_, hcontents.trans hcuts⟩ hgroups⟩
      · rw [List.flatMap_cons, loadReads_append, hpieces]
        show loadReads _ (items ++ loaded) = _
        rw [hload, List.flatten_cons, List.append_assoc]
      · rw [load_eq, reads_line hline, hpieces, List.nil_append]
        rfl

/-- The items of a file are the settings of its physical lines exactly when each line of more
than 198 bytes is cut well. -/
theorem onePerLine_iff (content : List UInt8)
    (fits : ∀ line ∈ lines content, IsSetting line → Fits line) :
    OnePerLine content ↔
      ∀ line ∈ lines content, capacity < line.length → CutsWell line := by
  constructor
  · rintro ⟨groups, -, hgroups⟩ line hline -
    exact (load_line hline).mpr (forall₂_left hgroups hline)
  · intro hcuts
    have hall : ∀ line ∈ lines content, CutsWell line := by
      intro line hline
      by_cases hlong : capacity < line.length
      · exact hcuts line hline hlong
      · exact cutsWell_short hline (Nat.not_lt.mp hlong) (fits line hline)
    obtain ⟨groups, hload, hgroups⟩ := loadReads_lines hall fun line h => h
    refine ⟨groups, ?_, hgroups⟩
    rw [load_eq, reads, hload, List.nil_append]
    rfl

/-- When every line is cut well, the items are the settings of the lines, with their names and
values. -/
theorem load_settings (items : List ConfItem) (content : List UInt8)
    (cuts : ∀ line ∈ lines content, CutsWell line) :
    ∃ loaded : List ConfItem, load items (some content) = some (.ok (true, items ++ loaded)) ∧
      contents loaded = (lines content).flatMap lineSettings := by
  have hfits : ∀ piece ∈ reads capacity content, IsSetting piece → Fits piece := by
    intro piece hpiece
    obtain ⟨line, hline, hmem⟩ := List.mem_flatMap.mp hpiece
    exact (cuts line hline).1 piece hmem
  obtain ⟨loaded, hload, hcontents⟩ := contents_of_fits hfits
  refine ⟨loaded, ?_, ?_⟩
  · rw [load_eq, hload]
    rfl
  · rw [hcontents, reads, List.flatMap_assoc]
    exact List.flatMap_congr fun line hline => (cuts line hline).2

/-- `GetString` answers with the first value that goes with the name. -/
theorem getString_eq_find (itemname : List UInt8) (items : List ConfItem) :
    getString itemname items =
      ((contents items).find? fun content => content.1 = itemname).map Prod.snd := by
  induction items with
  | nil => rfl
  | cons item items ih =>
      rw [contents, List.map_cons, ← contents, List.find?_cons, getString, ih]
      by_cases heq : item.name = itemname <;> simp [heq]

/-- A comment of 198 bytes is followed by a setting on its line. -/
def longComment : List UInt8 := hash :: List.replicate 197 120 ++ [97, equals, 98, newline]

/-- A line of 199 bytes whose end is beyond the buffer. -/
def longBlank : List UInt8 := 97 :: equals :: 98 :: List.replicate 195 space ++ [newline]

/-- A setting with many spaces behind it. -/
theorem onePerLine_longBlank : OnePerLine longBlank := by
  have hlines : lines longBlank = [longBlank] := by
    rw [lines_of_ne_nil (by decide), show firstLine longBlank = longBlank by decide +kernel,
      List.drop_length, lines_nil]
  refine (onePerLine_iff longBlank fun line hline _ => ?_).mpr fun line hline _ => ?_
  · rw [hlines, List.mem_singleton] at hline
    subst hline
    decide +kernel
  · rw [hlines, List.mem_singleton] at hline
    subst hline
    have hpieces : pieces capacity longBlank =
        [longBlank.take capacity, longBlank.drop capacity] := by
      rw [pieces_of_ne_nil (by decide) (by decide),
        pieces_of_le (by decide +kernel) (by decide +kernel)]
    rw [CutsWell, hpieces]
    decide +kernel

/-- The end of a long comment becomes an item. -/
theorem longComment_item : ¬ ∀ content : List UInt8, (0 : UInt8) ∉ content →
    (∀ line ∈ lines content, IsSetting line → Fits line) → OnePerLine content := by
  intro hclaim
  have hlines : lines longComment = [longComment] := by
    rw [lines_of_ne_nil (by decide), show firstLine longComment = longComment by decide +kernel,
      List.drop_length, lines_nil]
  have hnot : ¬ IsSetting longComment := by decide +kernel
  obtain ⟨groups, -, hgroups⟩ := hclaim longComment (by decide +kernel) fun line hline hsetting => by
    rw [hlines, List.mem_singleton] at hline
    exact absurd (hline ▸ hsetting) hnot
  rw [hlines] at hgroups
  obtain ⟨group, hload, hcontents⟩ := forall₂_left hgroups (List.mem_singleton_self _)
  have hone : (load [] (some longComment)).map (fun result => result.toOption.map fun loaded =>
      contents loaded.2) = some (some [([97], [98])]) := by decide +kernel
  rw [hload] at hone
  rw [lineSettings, if_neg hnot] at hcontents
  simp [Except.toOption, hcontents] at hone

end CConfig

end MyNginx
