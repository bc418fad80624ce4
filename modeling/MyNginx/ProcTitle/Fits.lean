import MyNginx.ProcTitle.Relocation

/-!
# Room for the title of the master process

The array of the title has a byte for each character of the arguments, one for each
argument, and the room of the environment. What is written to it is the name of the process,
a blank and the characters of the arguments: the room for the name comes from the number of
arguments and the environment alone.
-/

namespace MyNginx

open Foundation

namespace ProcessImage

/-- The memory with a text in an array of zero bytes. -/
def withTitle (m : Memory Block UInt8) (size : Nat) (text : List UInt8) : Memory Block UInt8 :=
  Function.update m .title (text ++ List.replicate (size - text.length) 0)

section Text

variable {m : Memory Block UInt8} {size : Nat} {text src : List UInt8}

/-- A string is stored behind the text exactly when it fits with its terminator. -/
theorem store_behind (room : text.length ≤ size) :
    (withTitle m size text).store ⟨.title, text.length⟩ (src ++ [0]) =
      if text.length + src.length < size then some (withTitle m size (text ++ src)) else none := by
  have hblock : withTitle m size text .title = text ++ List.replicate (size - text.length) 0 :=
    Function.update_self ..
  by_cases fits : text.length + src.length < size
  · have hsplit : List.replicate (size - text.length) (0 : UInt8) =
        List.replicate (src.length + 1) 0 ++
          List.replicate (size - (text.length + src.length + 1)) 0 := by
      rw [← List.replicate_add]
      congr 1
      omega
    rw [hsplit, ← List.append_assoc] at hblock
    rw [if_pos fits, Memory.store_eq hblock (by simp), withTitle, Function.update_idem, withTitle]
    have hlast : List.replicate (size - (text ++ src).length) (0 : UInt8) =
        0 :: List.replicate (size - (text.length + src.length + 1)) 0 := by
      rw [← List.replicate_succ, List.length_append]
      congr 1
      omega
    rw [hlast]
    simp only [List.append_assoc, List.cons_append, List.nil_append]
  · have hfull : (withTitle m size text .title).length < text.length + (src ++ [0]).length := by
      rw [hblock, List.length_append, List.length_replicate, List.length_append,
        List.length_singleton]
      omega
    rw [if_neg fits]
    exact Memory.store_eq_none hfull

theorem string_title (room : text.length < size) (noZero : 0 ∉ text) :
    (withTitle m size text).string ⟨.title, 0⟩ = some text := by
  have hroom : size - text.length = size - text.length - 1 + 1 := by omega
  have hblock : withTitle m size text .title =
      [] ++ text ++ 0 :: List.replicate (size - text.length - 1) 0 := by
    rw [withTitle, Function.update_self, ← List.replicate_succ, ← hroom, List.nil_append]
  exact Memory.string_eq hblock noZero

theorem strcpy_title :
    Memory.strcpy (withTitle m size []) ⟨.title, 0⟩ src =
      if src.length < size then some (withTitle m size src) else none := by
  have hnone : ([] : List UInt8).length ≤ size := Nat.zero_le size
  have hstore := @store_behind m size [] src hnone
  rw [List.length_nil, Nat.zero_add, List.nil_append] at hstore
  exact hstore

theorem strcat_title (src : List UInt8) (room : text.length < size) (noZero : 0 ∉ text) :
    Memory.strcat (withTitle m size text) ⟨.title, 0⟩ src =
      if text.length + src.length < size then some (withTitle m size (text ++ src)) else none := by
  rw [Memory.strcat, string_title room noZero, Option.bind_some, Memory.strcpy, Nat.zero_add]
  exact store_behind (Nat.le_of_lt room)

end Text

/-- The characters of the first strings. -/
def firstBytes (strings : List CString) (n : Nat) : List UInt8 :=
  ((stringBytes strings).take n).flatten

theorem firstBytes_succ {strings : List CString} {n : Nat} (h : n < (stringBytes strings).length) :
    firstBytes strings (n + 1) = firstBytes strings n ++ (stringBytes strings)[n] := by
  rw [firstBytes, List.take_succ_eq_append_getElem h, List.flatten_append, List.flatten_singleton]
  rfl

theorem zero_notMem_firstBytes (strings : List CString) (n : Nat) : 0 ∉ firstBytes strings n := by
  intro h
  obtain ⟨str, hstr, hmem⟩ := List.mem_flatten.mp h
  exact zero_notMem_of_mem_stringBytes (List.mem_of_mem_take hstr) hmem

/-- The room of strings, apart from their characters, is a byte for each. -/
theorem totalSize_eq (strings : List CString) :
    totalSize strings = (firstBytes strings strings.length).length + strings.length := by
  rw [firstBytes, ← length_stringBytes, List.take_length, totalSize]
  induction stringBytes strings with
  | nil => rfl
  | cons str rest ih =>
      rw [packedSize_cons, ih, List.flatten_cons, List.length_append, List.length_cons]
      omega

section Arguments

variable {m : Memory Block UInt8} {size : Nat} {text : List UInt8} {pointers : List Address}
  {strings : List CString}

/-- The arguments are appended one by one, as far as there is room for them. -/
theorem appendArgs_eq (room : text.length < size) (noZero : 0 ∉ text)
    (reads : m.Reads pointers (stringBytes strings)) (argmem : ∀ p ∈ pointers, p.block = .argmem)
    {n : Nat} (hn : n ≤ strings.length) :
    appendArgs (pointers.map some) (withTitle m size text) n =
      if text.length + (firstBytes strings n).length < size then
        some (withTitle m size (text ++ firstBytes strings n))
      else none := by
  induction n with
  | zero => simp [appendArgs, firstBytes, room]
  | succ n ih =>
      have hs : n < (stringBytes strings).length := by
        rw [length_stringBytes]
        exact hn
      have hp : n < pointers.length := reads.length_eq ▸ hs
      have hslot : (pointers.map some)[n]?.join = some pointers[n] := by
        rw [List.getElem?_map, List.getElem?_eq_getElem hp]
        rfl
      rw [appendArgs, ih (Nat.le_of_succ_le hn), firstBytes_succ hs]
      by_cases fits : text.length + (firstBytes strings n).length < size
      · have hread : (withTitle m size (text ++ firstBytes strings n)).string pointers[n] =
            some (stringBytes strings)[n] := by
          rw [← reads_getElem reads hp hs]
          refine Memory.string_congr (Function.update_of_ne ?_ _ _)
          rw [argmem _ (List.getElem_mem hp)]
          decide
        have hzero : 0 ∉ text ++ firstBytes strings n := by
          rw [List.mem_append, not_or]
          exact ⟨noZero, zero_notMem_firstBytes strings n⟩
        rw [← List.length_append] at fits
        rw [← List.length_append, if_pos fits, Option.bind_some, hslot, Option.bind_some, hread,
          Option.bind_some, strcat_title _ fits hzero, List.length_append, List.length_append,
          Nat.add_assoc, List.append_assoc]
      · rw [if_neg fits, if_neg (by rw [List.length_append]; omega)]
        rfl

end Arguments

/-- `MASTER_PROCESS_TITLE` and the blank behind it. -/
def titleFront : List UInt8 := masterProcessTitle ++ Log.bytes " "

theorem length_titleFront : titleFront.length = 15 := by decide +kernel

theorem zero_notMem_titleFront : 0 ∉ titleFront := by decide +kernel

/-- The title: behind its front the arguments, without anything between them. -/
def titleText (args : List CString) : List UInt8 := titleFront ++ firstBytes args args.length

/-- The array of the title is composed as far as there is room for it. -/
theorem composeTitle_eq {args env : List CString} {s : ProcessImage} (moved : Moved args env s) :
    s.composeTitle =
      if (titleText args).length < totalSize args + totalSize env then
        some { s with
          memory := withTitle s.memory (totalSize args + totalSize env) (titleText args) }
      else none := by
  let size := totalSize args + totalSize env
  have hsize : s.arglen + s.environlen = size := by rw [moved.arglen, moved.environlen]
  have hcopy : Memory.strcpy (s.allocate .title size).memory ⟨.title, 0⟩ masterProcessTitle =
      if masterProcessTitle.length < size then some (withTitle s.memory size masterProcessTitle)
      else none := strcpy_title
  have hargs := reads_places moved.argmem
  have hblock : ∀ p ∈ places Block.argmem 0 (stringBytes args), p.block = .argmem :=
    fun p hp => block_of_mem_places hp
  have hname : masterProcessTitle.length < titleFront.length := by decide +kernel
  have hzero : 0 ∉ masterProcessTitle := by decide +kernel
  have hlength : (titleText args).length =
      titleFront.length + (firstBytes args args.length).length := by
    rw [titleText, List.length_append]
  rw [composeTitle, hsize, hcopy]
  by_cases front : titleFront.length < size
  · have hcat := strcat_title (m := s.memory) (Log.bytes " ") (hname.trans front) hzero
    rw [← List.length_append, ← titleFront, if_pos front] at hcat
    have happend : appendArgs s.argv (withTitle s.memory size titleFront) s.argc =
        if (titleText args).length < size then some (withTitle s.memory size (titleText args))
        else none := by
      rw [moved.argv, moved.argc, hlength]
      exact appendArgs_eq front zero_notMem_titleFront hargs hblock (Nat.le_refl _)
    rw [if_pos (hname.trans front), Option.bind_some, hcat, Option.bind_some]
    change (appendArgs s.argv (withTitle s.memory size titleFront) s.argc).map _ = _
    rw [happend]
    split <;> rfl
  · have full : ¬ (titleText args).length < size := by omega
    rw [if_neg full]
    by_cases name : masterProcessTitle.length < size
    · have hcat := strcat_title (m := s.memory) (Log.bytes " ") name hzero
      rw [← List.length_append, ← titleFront, if_neg front] at hcat
      rw [if_pos name, Option.bind_some, hcat]
      rfl
    · rw [if_neg name]
      rfl

/-- The title is in its array. -/
def Composed (args : List CString) (s : Option ProcessImage) : Prop :=
  ∃ image, s = some image ∧ image.memory.string ⟨.title, 0⟩ = some (titleText args)

/-- The title of the master process fits in its array with its terminator exactly when the
number of arguments and the room of the environment make up for the name of the process. -/
theorem title_fits_iff (args env : List CString) :
    Composed args ((start args env).bind composeTitle) ↔ 16 ≤ args.length + totalSize env := by
  obtain ⟨s, hstart, moved⟩ := start_moved args env
  have hroom : (titleText args).length < totalSize args + totalSize env ↔
      16 ≤ args.length + totalSize env := by
    rw [titleText, List.length_append, length_titleFront, totalSize_eq args]
    omega
  rw [hstart, Option.bind_some, composeTitle_eq moved, ← hroom]
  constructor
  · rintro ⟨image, himage, -⟩
    by_contra full
    rw [if_neg full] at himage
    cases himage
  · intro room
    have hzero : 0 ∉ titleText args := by
      rw [titleText, List.mem_append, not_or]
      exact ⟨zero_notMem_titleFront, zero_notMem_firstBytes args _⟩
    exact ⟨_, if_pos room, string_title room hzero⟩

/-- `./nginx` in an empty environment. -/
theorem title_overflows :
    ¬ Composed [⟨Log.bytes "./nginx", by decide +kernel⟩]
      ((start [⟨Log.bytes "./nginx", by decide +kernel⟩] []).bind composeTitle) := by
  rintro ⟨image, himage, -⟩
  have hnone : (start [⟨Log.bytes "./nginx", by decide +kernel⟩] []).bind composeTitle = none := by
    decide +kernel
  rw [hnone] at himage
  cases himage

end ProcessImage

end MyNginx
