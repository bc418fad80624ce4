import MyNginx.Config.Loading

/-!
# Written settings are read back

A file is written line by line: settings, with any spaces around the name and in front of
the value, and between them blank lines, comments and headings. `Load` reads back the
settings in their order, so that `GetString` and `GetInt` answer with the first setting of
a name.
-/

namespace MyNginx

open Foundation

namespace CConfig

/-! ### Files -/

/-- No space and no carriage return at either end. -/
def Trimmed (string : List UInt8) : Prop :=
  ∀ c, c = space ∨ c = carriageReturn → string.head? ≠ some c ∧ string.getLast? ≠ some c

/-- A name and a value that fit into an item. -/
structure Setting where
  name : List UInt8
  value : List UInt8
  some_name : name ≠ []
  name_short : name.length ≤ 29
  name_plain : ∀ c ∈ name, 32 ≤ c ∧ c ≤ 126 ∧ c ≠ equals ∧ c ≠ hash
  name_first : name.head? ≠ some bracket
  name_trimmed : Trimmed name
  value_short : value.length ≤ 59
  value_plain : ∀ c ∈ value, c ≠ hash ∧ c ≠ 0 ∧ c ≠ newline
  value_trimmed : Trimmed value

/-- A line of a file, without its end. -/
inductive ConfLine where
  | setting (setting : Setting) (before behind after : Nat)
  | blank (bytes : List UInt8) (blank : ∀ c ∈ bytes, c ≠ newline ∧ isSpace c = true)
  | comment (before : Nat) (bytes : List UInt8) (plain : newline ∉ bytes)
  | heading (before : Nat) (bytes : List UInt8) (plain : newline ∉ bytes)

namespace ConfLine

def bytes : ConfLine → List UInt8
  | setting s before behind after =>
      List.replicate before space ++ (s.name ++ (List.replicate behind space ++
        equals :: (List.replicate after space ++ s.value)))
  | blank bytes _ => bytes
  | comment before bytes _ => List.replicate before space ++ hash :: bytes
  | heading before bytes _ => List.replicate before space ++ bracket :: bytes

def settings : ConfLine → List Setting
  | setting s .. => [s]
  | _ => []

end ConfLine

/-- The end of a line. -/
inductive Ending where
  | lf
  | crlf

def Ending.bytes : Ending → List UInt8
  | lf => [newline]
  | crlf => [carriageReturn, newline]

/-- The lines of a file with their ends, and perhaps a last one that has none. -/
structure ConfFile where
  lines : List (ConfLine × Ending)
  last : Option ConfLine
  short : ∀ line ∈ lines, line.1.bytes.length ≤ 190
  last_short : ∀ line ∈ last, line.bytes.length ≤ 190

namespace ConfFile

def content (file : ConfFile) : List UInt8 :=
  (file.lines.flatMap fun line => line.1.bytes ++ line.2.bytes) ++
    file.last.elim [] ConfLine.bytes

def settings (file : ConfFile) : List Setting :=
  (file.lines.flatMap fun line => line.1.settings) ++ file.last.elim [] ConfLine.settings

end ConfFile

/-- The value of the first setting with a name. -/
def lookup (name : List UInt8) (settings : List Setting) : Option (List UInt8) :=
  (settings.find? (·.name = name)).map Setting.value

def decimalDigit (d : Nat) : UInt8 := 48 + UInt8.ofNat d

/-- The decimal form of an integer. -/
def decimalForm (n : Int) : List UInt8 :=
  if n < 0 then minus :: numeral 10 decimalDigit n.natAbs else numeral 10 decimalDigit n.natAbs

/-! ### Trimming -/

variable {front back string : List UInt8}

theorem rdropWhile_trailing (h : ∀ c ∈ back, isTrailing c = true) (front : List UInt8) :
    (front ++ back).rdropWhile isTrailing = front.rdropWhile isTrailing := by
  induction back using List.reverseRecOn with
  | nil => rw [List.append_nil]
  | append_singleton back c ih =>
      have hc : isTrailing c = true := h c (by simp)
      rw [← List.append_assoc, List.rdropWhile_concat_pos _ _ _ hc,
        ih fun b hb => h b (List.mem_append_left _ hb)]

theorem dropWhile_spaces (n : Nat) (string : List UInt8) :
    (List.replicate n space ++ string).dropWhile (· = space) = string.dropWhile (· = space) :=
  List.dropWhile_append_of_pos fun _ h => decide_eq_true (List.eq_of_mem_replicate h)

theorem Trimmed.dropWhile (trimmed : Trimmed string) : string.dropWhile (· = space) = string := by
  cases string with
  | nil => rfl
  | cons c string =>
      have hc : c ≠ space := fun h => (trimmed space (.inl rfl)).1 (congrArg some h)
      exact List.dropWhile_cons_of_neg (by simpa using hc)

/-- What ends with a trimmed string without newlines has nothing to be removed at its end. -/
theorem Trimmed.rdropWhile (trimmed : Trimmed string) (h : newline ∉ string) (some : string ≠ [])
    (front : List UInt8) : (front ++ string).rdropWhile isTrailing = front ++ string := by
  cases string using List.reverseRecOn with
  | nil => exact absurd rfl some
  | append_singleton string c =>
      have hlast : (string ++ [c]).getLast? = .some c := List.getLast?_concat
      have hspace : c ≠ space := fun heq =>
        (trimmed space (.inl rfl)).2 (hlast.trans (congrArg _ heq))
      have hreturn : c ≠ carriageReturn := fun heq =>
        (trimmed carriageReturn (.inr rfl)).2 (hlast.trans (congrArg _ heq))
      have hnewline : c ≠ newline := fun heq => h (by simp [heq])
      rw [← List.append_assoc]
      exact List.rdropWhile_concat_neg _ _ _ (by simp [isTrailing, hspace, hreturn, hnewline])

/-! ### Lines -/

/-- What may stand behind a line: its end, or nothing. -/
def IsEnding (tail : List UInt8) : Prop := ∀ c ∈ tail, c = newline ∨ c = carriageReturn

variable {tail : List UInt8}

theorem Ending.isEnding (ending : Ending) : IsEnding ending.bytes := by
  cases ending <;> simp [IsEnding, Ending.bytes]

theorem IsEnding.trailing (h : IsEnding tail) : ∀ c ∈ tail, isTrailing c = true := by
  intro c hc
  rcases h c hc with rfl | rfl <;> decide

theorem cstr_eq (h : (0 : UInt8) ∉ string) : cstr string = string := by
  apply List.takeWhile_eq_self_iff.mpr
  intro c hc
  simpa using fun heq : c = 0 => h (heq ▸ hc)

theorem cstr_append (h : (0 : UInt8) ∉ front) (back : List UInt8) :
    cstr (front ++ back) = front ++ cstr back := by
  apply List.takeWhile_append_of_pos
  intro c hc
  simpa using fun heq : c = 0 => h (heq ▸ hc)

/-- The string behind the spaces that a line begins with. -/
theorem text_spaces (n : Nat) (string : List UInt8) :
    text (List.replicate n space ++ string) = text string := by
  have hzero : (0 : UInt8) ∉ List.replicate n space := fun h =>
    absurd (List.eq_of_mem_replicate h) (by decide)
  rw [text, cstr_append hzero, dropWhile_spaces, text]

namespace Setting

variable (s : Setting) (before behind after : Nat)

theorem name_no_newline : newline ∉ s.name := fun h =>
  absurd (s.name_plain newline h).1 (by decide)

/-- What a setting leaves of its line. -/
def rest (tail : List UInt8) : List UInt8 := List.replicate after space ++ (s.value ++ tail)

theorem text_line (ending : IsEnding tail) :
    text ((ConfLine.setting s before behind after).bytes ++ tail) =
      s.name ++ List.replicate behind space ++ equals :: s.rest after tail := by
  have hzero : (0 : UInt8) ∉ s.name ++ (List.replicate behind space ++
      equals :: (List.replicate after space ++ (s.value ++ tail))) := by
    simp only [List.mem_append, List.mem_cons, List.mem_replicate, not_or, not_and]
    refine ⟨fun h => ?_, fun _ => by decide, by decide, fun _ => by decide, fun h => ?_, fun h => ?_⟩
    · exact absurd (s.name_plain 0 h).1 (by decide)
    · exact (s.value_plain 0 h).2.1 rfl
    · rcases ending 0 h with heq | heq <;> exact absurd heq (by decide)
  have hbytes : (ConfLine.setting s before behind after).bytes ++ tail =
      List.replicate before space ++ (s.name ++ (List.replicate behind space ++
        equals :: (List.replicate after space ++ (s.value ++ tail)))) := by
    simp only [ConfLine.bytes, List.append_assoc, List.cons_append]
  rw [hbytes, text_spaces, text, cstr_eq hzero, rest, List.append_assoc]
  cases hname : s.name with
  | nil => exact absurd hname s.some_name
  | cons c name =>
      have hspace : c ≠ space := fun heq =>
        (s.name_trimmed space (.inl rfl)).1 (by rw [hname, heq]; rfl)
      rw [List.cons_append]
      exact List.dropWhile_cons_of_neg (by simpa using hspace)

theorem equals_not_mem : equals ∉ s.name ++ List.replicate behind space := by
  intro h
  rcases List.mem_append.mp h with h | h
  · exact (s.name_plain equals h).2.2.1 rfl
  · exact absurd (List.eq_of_mem_replicate h) (by decide)

/-- The string has no comment. -/
theorem no_hash (ending : IsEnding tail) :
    ∀ c ∈ s.name ++ List.replicate behind space ++ equals :: s.rest after tail, c ≠ hash := by
  intro c hc
  simp only [rest, List.mem_append, List.mem_cons, List.mem_replicate] at hc
  rcases hc with (h | ⟨-, rfl⟩) | rfl | ⟨-, rfl⟩ | h | h
  · exact (s.name_plain c h).2.2.2
  · decide
  · decide
  · decide
  · exact (s.value_plain c h).1
  · rcases ending c h with rfl | rfl <;> decide

theorem isSetting_line (ending : IsEnding tail) :
    IsSetting ((ConfLine.setting s before behind after).bytes ++ tail) := by
  have htext := s.text_line before behind after ending
  have hnote : ∀ c ∈ s.name ++ List.replicate behind space ++ equals :: s.rest after tail,
      decide (c ≠ hash) = true := fun c hc => decide_eq_true (s.no_hash behind after ending c hc)
  cases hname : s.name with
  | nil => exact absurd hname s.some_name
  | cons c name =>
      have hmem : c ∈ s.name := by simp [hname]
      obtain ⟨hlow, hhigh, -, hhash⟩ := s.name_plain c hmem
      have hbracket : c ≠ bracket := fun heq => s.name_first (by rw [hname, heq]; rfl)
      have hcontrol : ∀ d : UInt8, d < 32 → c ≠ d := fun d hd heq =>
        absurd hlow (UInt8.not_le.mpr (heq ▸ hd))
      have hequals : equals ∈ c :: (name ++ List.replicate behind space ++
          equals :: s.rest after tail) := by simp
      rw [hname, List.cons_append, List.cons_append] at htext hnote
      rw [IsSetting, htext]
      refine ⟨UInt8.le_trans hhigh (by decide), hcontrol _ (by decide), hcontrol _ (by decide),
        hhash, hbracket, ?_⟩
      rw [List.takeWhile_eq_self_iff.mpr hnote]
      exact hequals

theorem settingName_line (ending : IsEnding tail) :
    settingName ((ConfLine.setting s before behind after).bytes ++ tail) = s.name := by
  have hspaces : ∀ c ∈ List.replicate behind space, isTrailing c = true := by
    intro c hc
    rw [List.eq_of_mem_replicate hc]
    decide
  rw [settingName, s.text_line before behind after ending,
    (split_equals (s.equals_not_mem behind) _).1, rdropWhile_trailing hspaces]
  exact s.name_trimmed.rdropWhile s.name_no_newline s.some_name []

theorem settingValue_line (ending : IsEnding tail) :
    settingValue ((ConfLine.setting s before behind after).bytes ++ tail) = s.value := by
  have hnewline : newline ∉ s.value := fun h => (s.value_plain newline h).2.2 rfl
  have hnote : (s.name ++ List.replicate behind space ++ equals :: s.rest after tail).takeWhile
      (· ≠ hash) = s.name ++ List.replicate behind space ++ equals :: s.rest after tail :=
    List.takeWhile_eq_self_iff.mpr fun c hc =>
      decide_eq_true (s.no_hash behind after ending c hc)
  have hspaces : ∀ c ∈ List.replicate after space, isTrailing c = true := by
    intro c hc
    rw [List.eq_of_mem_replicate hc]
    decide
  rw [settingValue, s.text_line before behind after ending, hnote,
    (split_equals (s.equals_not_mem behind) _).2, List.tail_cons, rest, ← List.append_assoc,
    rdropWhile_trailing ending.trailing]
  by_cases hvalue : s.value = []
  · rw [hvalue, List.append_nil, ← List.nil_append (List.replicate after space),
      rdropWhile_trailing hspaces]
    rfl
  · -- The value ends the string, so that the spaces in front of it stay until the left trim.
    rw [s.value_trimmed.rdropWhile hnewline hvalue, dropWhile_spaces, s.value_trimmed.dropWhile]

theorem fits_line (ending : IsEnding tail) :
    Fits ((ConfLine.setting s before behind after).bytes ++ tail) := by
  rw [Fits, s.settingName_line before behind after ending,
    s.settingValue_line before behind after ending]
  exact ⟨s.some_name, Nat.lt_succ_of_le s.name_short, Nat.lt_succ_of_le s.value_short⟩

end Setting

/-- A line whose string begins with `#` or `[` is passed over. -/
theorem not_isSetting_mark {mark : UInt8} (h : mark = hash ∨ mark = bracket) (before : Nat)
    (bytes : List UInt8) : ¬IsSetting (List.replicate before space ++ mark :: bytes) := by
  have hstring : cstr (mark :: bytes) = mark :: cstr bytes := by
    rcases h with rfl | rfl <;> exact List.takeWhile_cons_of_pos (by decide)
  have htext : text (List.replicate before space ++ mark :: bytes) = mark :: cstr bytes := by
    rw [text_spaces, text, hstring]
    rcases h with rfl | rfl <;> exact List.dropWhile_cons_of_neg (by decide)
  rw [IsSetting, htext]
  rintro ⟨-, -, -, hhash, hbracket, -⟩
  exact h.elim hhash hbracket

/-- So is a line without a `=`. -/
theorem not_isSetting_blank {line : List UInt8} (h : equals ∉ line) : ¬IsSetting line := by
  have htext : equals ∉ text line := fun hmem =>
    h ((List.takeWhile_prefix _).subset ((List.dropWhile_sublist _).subset hmem))
  rw [IsSetting]
  split
  · exact not_false
  · next first rest heq =>
      rintro ⟨-, -, -, -, -, hmem⟩
      exact htext (heq ▸ (List.takeWhile_prefix _).subset hmem)

/-- Reads that all fit, and hold the given settings. -/
def ReadsBack (reads : List (List UInt8)) (settings : List Setting) : Prop :=
  (∀ line ∈ reads, IsSetting line → Fits line) ∧
    (reads.filter fun line => decide (IsSetting line)).map
      (fun line => (settingName line, settingValue line)) = settings.map fun s => (s.name, s.value)

theorem ReadsBack.nil : ReadsBack [] [] := ⟨fun _ h => (List.not_mem_nil h).elim, rfl⟩

theorem ReadsBack.append {front back : List (List UInt8)} {settings settings' : List Setting}
    (h : ReadsBack front settings) (h' : ReadsBack back settings') :
    ReadsBack (front ++ back) (settings ++ settings') := by
  constructor
  · intro line hmem
    rcases List.mem_append.mp hmem with hline | hline
    · exact h.1 line hline
    · exact h'.1 line hline
  · rw [List.filter_append, List.map_append, h.2, h'.2, List.map_append]

theorem ReadsBack.skipped {line : List UInt8} (h : ¬IsSetting line) : ReadsBack [line] [] := by
  constructor
  · intro other hmem hsetting
    exact absurd (List.mem_singleton.mp hmem ▸ hsetting) h
  · rw [List.filter_cons_of_neg (by simpa using h)]
    rfl

namespace ConfLine

variable (line : ConfLine)

/-- A line is read back as its setting, if it has one. -/
theorem readsBack (ending : IsEnding tail) : ReadsBack [line.bytes ++ tail] line.settings := by
  cases line with
  | setting s before behind after =>
      constructor
      · intro other hmem _
        rw [List.mem_singleton.mp hmem]
        exact s.fits_line before behind after ending
      · rw [List.filter_cons_of_pos (by simpa using s.isSetting_line before behind after ending),
          List.filter_nil, List.map_singleton, s.settingName_line before behind after ending,
          s.settingValue_line before behind after ending]
        rfl
  | blank bytes blank =>
      apply ReadsBack.skipped (not_isSetting_blank _)
      intro hmem
      rcases List.mem_append.mp hmem with h | h
      · exact absurd (blank equals h).2 (by decide)
      · rcases ending equals h with heq | heq <;> exact absurd heq (by decide)
  | comment before bytes plain =>
      apply ReadsBack.skipped
      rw [ConfLine.bytes, List.append_assoc]
      exact not_isSetting_mark (.inl rfl) before _
  | heading before bytes plain =>
      apply ReadsBack.skipped
      rw [ConfLine.bytes, List.append_assoc]
      exact not_isSetting_mark (.inr rfl) before _

theorem newline_not_mem : newline ∉ line.bytes := by
  cases line with
  | setting s before behind after =>
      simp only [ConfLine.bytes, List.mem_append, List.mem_cons, List.mem_replicate, not_or, not_and]
      exact ⟨fun _ => by decide, s.name_no_newline, fun _ => by decide, by decide,
        fun _ => by decide, fun h => (s.value_plain newline h).2.2 rfl⟩
  | blank bytes blank => exact fun h => (blank newline h).1 rfl
  | comment before bytes plain =>
      simp only [ConfLine.bytes, List.mem_append, List.mem_cons, List.mem_replicate, not_or, not_and]
      exact ⟨fun _ => by decide, by decide, plain⟩
  | heading before bytes plain =>
      simp only [ConfLine.bytes, List.mem_append, List.mem_cons, List.mem_replicate, not_or, not_and]
      exact ⟨fun _ => by decide, by decide, plain⟩

end ConfLine

/-- An empty line has no setting. -/
theorem ConfLine.settings_of_nil {line : ConfLine} (h : line.bytes = []) : line.settings = [] := by
  cases line with
  | setting s before behind after => simp [ConfLine.bytes] at h
  | _ => rfl

/-! ### Reading a file -/

/-- A line with its end is read at once, whatever follows. -/
theorem reads_confLine (line : ConfLine) (ending : Ending) (short : line.bytes.length ≤ 190)
    (rest : List UInt8) :
    reads capacity (line.bytes ++ ending.bytes ++ rest) =
      (line.bytes ++ ending.bytes) :: reads capacity rest := by
  have hcapacity : capacity = 198 := rfl
  cases ending with
  | lf =>
      have hreads := reads_append (n := capacity) line.newline_not_mem (by omega) rest
      rw [Ending.bytes, List.append_assoc, List.singleton_append, hreads]
  | crlf =>
      have hplain : newline ∉ line.bytes ++ [carriageReturn] := by
        rw [List.mem_append, List.mem_singleton, not_or]
        exact ⟨line.newline_not_mem, by decide⟩
      have hshort : (line.bytes ++ [carriageReturn]).length < capacity := by
        rw [List.length_append, List.length_singleton]
        omega
      have hreads := reads_append hplain hshort rest
      have hsplit : line.bytes ++ Ending.crlf.bytes = line.bytes ++ [carriageReturn] ++ [newline] :=
        List.append_cons ..
      rw [hsplit, List.append_assoc, List.singleton_append, hreads]

theorem reads_lastLine (line : ConfLine) (short : line.bytes.length ≤ 190) :
    ReadsBack (reads capacity line.bytes) line.settings := by
  by_cases hnil : line.bytes = []
  · rw [hnil, reads_nil, ConfLine.settings_of_nil hnil]
    exact .nil
  · have hline : ReadsBack [line.bytes ++ []] line.settings :=
      line.readsBack fun _ h => (List.not_mem_nil h).elim
    rw [List.append_nil] at hline
    rw [reads_last line.newline_not_mem hnil (Nat.le_trans short (by decide))]
    exact hline

theorem ConfFile.readsBack (file : ConfFile) :
    ReadsBack (reads capacity file.content) file.settings := by
  obtain ⟨lines, last, short, last_short⟩ := file
  simp only [ConfFile.content, ConfFile.settings]
  induction lines with
  | nil =>
      cases last with
      | none =>
          simp only [List.flatMap_nil, Option.elim_none, List.append_nil, reads_nil]
          exact .nil
      | some line => exact reads_lastLine line (last_short line rfl)
  | cons line lines ih =>
      have hline := line.1.readsBack line.2.isEnding
      have hrest := ih fun other h => short other (List.mem_cons_of_mem line h)
      rw [List.flatMap_cons, List.append_assoc, reads_confLine line.1 line.2
        (short line List.mem_cons_self), List.flatMap_cons, List.append_assoc]
      exact hline.append hrest

/-! ### Looking up -/

/-- The items hold the settings. -/
def Holds (items : List ConfItem) (settings : List Setting) : Prop :=
  items.map (fun item => (item.name, item.value)) = settings.map fun s => (s.name, s.value)

theorem getString_eq {items : List ConfItem} {settings : List Setting}
    (holds : Holds items settings) (name : List UInt8) :
    getString name items = lookup name settings := by
  induction items generalizing settings with
  | nil =>
      obtain rfl := List.map_eq_nil_iff.mp holds.symm
      rfl
  | cons item items ih =>
      cases settings with
      | nil => cases holds
      | cons s settings =>
          obtain ⟨hhead, htail⟩ := List.cons.inj holds
          obtain ⟨hname, hvalue⟩ := Prod.mk.inj hhead
          have hrest := ih htail
          rw [lookup] at hrest
          rw [getString, lookup, List.find?_cons, hname, hvalue]
          by_cases heq : s.name = name
          · simp [heq]
          · simpa [heq] using hrest

theorem getInt_eq (items : List ConfItem) (name : List UInt8) (byDefault : Int) :
    getInt name byDefault items = (getString name items).elim (some byDefault) atoi := by
  induction items with
  | nil => rfl
  | cons item items ih =>
      rw [getInt, getString]
      split
      · rfl
      · exact ih

/-! ### Numbers -/

theorem decimalDigit_plain : ∀ d < 10, isDecimal (decimalDigit d) = true ∧
    isSpace (decimalDigit d) = false ∧ decimalDigit d ≠ minus ∧ decimalDigit d ≠ plus := by
  decide

theorem digitsOf_numeral (n : Nat) : digitsOf (numeral 10 decimalDigit n) = n := by
  have hall : (numeral 10 decimalDigit n).takeWhile isDecimal = numeral 10 decimalDigit n := by
    apply List.takeWhile_eq_self_iff.mpr
    intro c hc
    obtain ⟨d, hd, rfl⟩ := isNumeral_numeral (by decide) c hc
    exact (decimalDigit_plain d hd).1
  rw [digitsOf, hall]
  exact readNumeral_numeral (by decide) (by decide) n

/-- The decimal form of an `int` is read back. -/
theorem atoi_decimalForm {n : Int} (h : -2 ^ 31 ≤ n ∧ n < 2 ^ 31) :
    atoi (decimalForm n) = some n := by
  have hread := digitsOf_numeral n.natAbs
  by_cases hneg : n < 0
  · have hdrop : (minus :: numeral 10 decimalDigit n.natAbs).dropWhile isSpace =
        minus :: numeral 10 decimalDigit n.natAbs := List.dropWhile_cons_of_neg (by decide)
    have hn : -(n.natAbs : Int) = n := by omega
    simp only [atoi, decimalForm, if_pos hneg, hdrop, if_true, hread, hn, if_pos h]
  · have hn : (n.natAbs : Int) = n := by omega
    cases hnumeral : numeral 10 decimalDigit n.natAbs with
    | nil => exact absurd hnumeral (numeral_ne_nil _ _ _)
    | cons c digits =>
        have hdigits : IsNumeral 10 decimalDigit (numeral 10 decimalDigit n.natAbs) :=
          isNumeral_numeral (by decide)
        obtain ⟨d, hd, rfl⟩ := hdigits c (by simp [hnumeral])
        obtain ⟨-, hspace, hminus, hplus⟩ := decimalDigit_plain d hd
        have hdrop : (decimalDigit d :: digits).dropWhile isSpace = decimalDigit d :: digits :=
          List.dropWhile_cons_of_neg (by simp [hspace])
        rw [hnumeral] at hread
        simp only [atoi, decimalForm, if_neg hneg, hnumeral, hdrop, if_neg hminus, if_neg hplus, hread,
          hn, if_pos h]

/-- Every setting of a file is read back: the strings, and the integers in their decimal form.
An absent name gives a null pointer, or the default. -/
theorem load_roundTrip (file : ConfFile) :
    ∃ items, load [] (some file.content) = some (.ok (true, items)) ∧ ∀ name,
      getString name items = lookup name file.settings ∧ ∀ byDefault : Int,
        (lookup name file.settings = none → getInt name byDefault items = some byDefault) ∧
        ∀ n : Int, -2 ^ 31 ≤ n ∧ n < 2 ^ 31 → lookup name file.settings = some (decimalForm n) →
          getInt name byDefault items = some n := by
  obtain ⟨hfits, hreads⟩ := file.readsBack
  obtain ⟨items, hload, hitems⟩ := loadReads_of_fits hfits
  have hholds : Holds items file.settings := hitems.trans hreads
  refine ⟨items, ?_, fun name => ⟨getString_eq hholds name, fun byDefault => ⟨?_, ?_⟩⟩⟩
  · rw [load_eq, hload]
    rfl
  · intro habsent
    rw [getInt_eq, getString_eq hholds, habsent, Option.elim_none]
  · intro n hn hvalue
    rw [getInt_eq, getString_eq hholds, hvalue, Option.elim_some, atoi_decimalForm hn]

end CConfig

end MyNginx
