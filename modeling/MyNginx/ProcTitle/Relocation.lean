import Mathlib
import MyNginx.App.ProcTitle
import MyNginx.Foundation.Transition

/-!
# The environment moves away from the title

The two loops of `init_setproctitle` lay the copies out one behind the other, and end where
the sizes that `main` has added up end. The pointers of the process then lead to the
copies, so that a title, which is written where the originals were, changes no string that
is read later. Without any argument there is no pointer to the originals to write through.
-/

namespace MyNginx

open Foundation

@[simp] theorem length_stringBytes (strings : List CString) :
    (stringBytes strings).length = strings.length := List.length_map _

theorem zero_notMem_of_mem_stringBytes {strings : List CString} {str : List UInt8}
    (h : str ∈ stringBytes strings) : 0 ∉ str := by
  obtain ⟨string, -, rfl⟩ := List.mem_map.mp h
  exact string.noZero

namespace ProcessImage

section Loops

variable {memory : Memory Block UInt8} {pointers : List Address} {strings : List (List UInt8)}

/-- An array of pointers up to the null pointer at its end. -/
theorem getElem?_terminated {i : Nat} (h : i ≤ pointers.length) :
    (pointers.map some ++ [none])[i]? = some pointers[i]? := by
  rcases Nat.lt_or_eq_of_le h with hlt | rfl
  · rw [List.getElem?_append_left (by rw [List.length_map]; exact hlt), List.getElem?_map,
      List.getElem?_eq_getElem hlt]
    rfl
  · rw [List.getElem?_append_right (by rw [List.length_map]), List.length_map, Nat.sub_self,
      List.getElem?_eq_none (Nat.le_refl _)]
    rfl

theorem reads_getElem {i : Nat} (reads : memory.Reads pointers strings)
    (hp : i < pointers.length) (hs : i < strings.length) :
    memory.string pointers[i] = some strings[i] := by
  induction reads generalizing i with
  | nil => cases hp
  | cons hread hrest ih =>
      cases i with
      | zero => exact hread
      | succ i => exact ih (Nat.lt_of_succ_lt_succ hp) (Nat.lt_of_succ_lt_succ hs)

theorem sumArgs_eq (reads : memory.Reads pointers strings) {n : Nat} (hn : n ≤ strings.length) :
    sumArgs memory (pointers.map some ++ [none]) n = some (packedSize (strings.take n)) := by
  have hlength : pointers.length = strings.length := reads.length_eq
  induction n with
  | zero => rfl
  | succ n ih =>
      have hp : n < pointers.length := by omega
      have htake : strings.take (n + 1) = strings.take n ++ [strings[n]] :=
        List.take_succ_eq_append_getElem hn
      have hslot : (pointers.map some ++ [none])[n]?.join = some pointers[n] := by
        rw [getElem?_terminated (Nat.le_of_lt hp), Option.join_some, List.getElem?_eq_getElem hp]
      rw [sumArgs, ih (Nat.le_of_succ_le hn), Option.bind_some, hslot, Option.bind_some,
        reads_getElem reads hp hn, htake, packedSize_append]
      rfl

theorem sumEnviron_eq (reads : memory.Reads pointers strings) (sum : Nat) :
    sumEnviron memory sum (pointers.map some ++ [none]) = some (sum + packedSize strings) := by
  induction reads generalizing sum with
  | nil => rfl
  | @cons p str pointers strings hread hrest ih =>
      rw [List.map_cons, List.cons_append, sumEnviron, hread, Option.bind_some, ih,
        packedSize_cons, Nat.add_assoc]

/-- What `redirect` does to the images of a process whose first strings are `done`. -/
structure Redirects (array : ProcessImage → List (Option Address))
    (redirect : ProcessImage → Nat → Address → Option ProcessImage) (pointers : List Address)
    (image : Memory Block UInt8 → List Address → ProcessImage) : Prop where
  memory : ∀ m done, (image m done).memory = m
  withMemory : ∀ m m' done, { image m done with memory := m' } = image m' done
  slot : ∀ m done, done.length ≤ pointers.length →
    (array (image m done))[done.length]? = some pointers[done.length]?
  redirect : ∀ m done dst, done.length < pointers.length →
    redirect (image m done) done.length dst = some (image m (done ++ [dst]))

variable {array : ProcessImage → List (Option Address)}
  {redirect : ProcessImage → Nat → Address → Option ProcessImage}
  {image : Memory Block UInt8 → List Address → ProcessImage} {b : Block}

/-- The rest of a loop packs the strings that are left behind those that are done. -/
theorem moveStrings_eq (redirects : Redirects array redirect pointers image) {done : List Address}
    {cells : List UInt8} (within : done.length ≤ pointers.length)
    (reads : memory.Reads (pointers.drop done.length) strings)
    (apart : ∀ p ∈ pointers, p.block ≠ b)
    (cleared : memory b = cells ++ List.replicate (packedSize strings) 0) {fuel : Nat}
    (enough : strings.length < fuel) :
    moveStrings array redirect (image memory done) done.length ⟨b, cells.length⟩ fuel =
      some (image (Function.update memory b (cells ++ packed strings))
        (done ++ places b cells.length strings)) := by
  have hlength := reads.length_eq
  rw [List.length_drop] at hlength
  induction strings generalizing done cells memory fuel with
  | nil =>
      obtain ⟨fuel, rfl⟩ := Nat.exists_eq_add_one_of_ne_zero (Nat.ne_of_gt enough)
      have hend : pointers[done.length]? = none :=
        List.getElem?_eq_none (Nat.le_of_sub_eq_zero hlength)
      have hslot : (array (image memory done))[done.length]? = some none :=
        hend ▸ redirects.slot memory done within
      have hcells : cells ++ packed [] = memory b := cleared.symm
      simp only [moveStrings, hslot]
      rw [hcells, Function.update_eq_self, places, List.append_nil]
  | cons str strings ih =>
      obtain ⟨fuel, rfl⟩ := Nat.exists_eq_add_one_of_ne_zero (Nat.ne_of_gt
        (Nat.lt_of_le_of_lt (Nat.zero_le _) enough))
      rw [List.length_cons] at hlength
      have hlt : done.length < pointers.length := by omega
      have hdrop := List.drop_eq_getElem_cons hlt
      rw [hdrop] at reads
      have hslot : (array (image memory done))[done.length]? = some (some pointers[done.length]) :=
        List.getElem?_eq_getElem hlt ▸ redirects.slot memory done within
      rw [packedSize_cons] at cleared
      have hcopy := Memory.strncpy_cleared cleared
      -- The string is copied, its terminator included, and its place is recorded.
      simp only [moveStrings, hslot, redirects.memory, hcopy, redirects.withMemory,
        redirects.redirect _ _ _ hlt, (List.forall₂_cons.mp reads).1, Option.bind_some]
      -- The rest finds the strings that are left unchanged.
      have hrest : Memory.Reads (Function.update memory b
            ((cells ++ (str ++ [0])) ++ List.replicate (packedSize strings) 0))
          (pointers.drop (done ++ [(⟨b, cells.length⟩ : Address)]).length) strings := by
        rw [List.length_append, List.length_singleton]
        refine Memory.Reads.congr (List.forall₂_cons.mp reads).2 fun p hp => ?_
        exact Function.update_of_ne (apart p (List.mem_of_mem_drop hp)) _ _
      have hnext := ih (by rw [List.length_append]; exact hlt) hrest (Function.update_self ..)
        (Nat.lt_of_succ_lt_succ enough)
        (by rw [List.length_append, List.length_singleton]; omega)
      simp only [List.length_append, List.length_singleton] at hnext
      rw [hnext]
      simp only [Function.update_idem, packed, places, List.append_assoc, List.cons_append,
        List.nil_append]

/-- A loop packs all strings into a cleared block. -/
theorem moveStrings_start (redirects : Redirects array redirect pointers image)
    (reads : memory.Reads pointers strings) (apart : ∀ p ∈ pointers, p.block ≠ b)
    (cleared : memory b = List.replicate (packedSize strings) 0) {fuel : Nat}
    (enough : strings.length < fuel) :
    moveStrings array redirect (image memory []) 0 ⟨b, 0⟩ fuel =
      some (image (Function.update memory b (packed strings)) (places b 0 strings)) := by
  have hnone : ([] : List Address).length ≤ pointers.length := Nat.zero_le _
  have hcleared : memory b = ([] : List UInt8) ++ List.replicate (packedSize strings) 0 := cleared
  exact moveStrings_eq redirects hnone reads apart hcleared enough

/-- The first loop: `environ` is redirected while it is read. -/
theorem redirects_environ (s : ProcessImage) (pointers : List Address) :
    Redirects environ redirectEnviron pointers fun memory done => { s with
      memory
      environ := done.map some ++ ((pointers.drop done.length).map some ++ [none]) } where
  memory _ _ := rfl
  withMemory _ _ _ := rfl
  slot _ done within := by
    rw [List.getElem?_append_right (by rw [List.length_map]), List.length_map, Nat.sub_self,
      getElem?_terminated (Nat.zero_le _), List.getElem?_drop, Nat.add_zero]
  redirect _ done dst hlt := by
    simp only [redirectEnviron, List.drop_eq_getElem_cons hlt, List.map_cons, List.cons_append]
    rw [List.set_append_right _ _ (by rw [List.length_map]), List.length_map, Nat.sub_self,
      List.set_cons_zero]
    simp only [List.map_append, List.map_cons, List.map_nil, List.append_assoc, List.cons_append,
      List.nil_append, List.length_append, List.length_singleton]

/-- The second loop: `g_argv` is filled, `g_init_argv` stays. -/
theorem redirects_argv {s : ProcessImage} (h : s.initArgv = pointers.map some ++ [none]) :
    Redirects initArgv redirectArgv pointers fun memory done => { s with
      memory
      argv := done.map some ++ List.replicate (pointers.length - done.length) none } where
  memory _ _ := rfl
  withMemory _ _ _ := rfl
  slot _ done within := by
    rw [h, getElem?_terminated within]
  redirect _ done dst hlt := by
    obtain ⟨n, hn⟩ := Nat.exists_eq_add_of_lt hlt
    have hroom : pointers.length - done.length = n + 1 := by omega
    have hleft : pointers.length - (done.length + 1) = n := by omega
    have hslot : done.length <
        (done.map some ++ List.replicate (n + 1) (none : Option Address)).length := by
      rw [List.length_append, List.length_map, List.length_replicate]
      omega
    simp only [redirectArgv, hroom]
    rw [if_pos hslot, List.set_append_right _ _ (by rw [List.length_map]), List.length_map,
      Nat.sub_self, List.replicate_succ, List.set_cons_zero]
    simp only [List.map_append, List.map_cons, List.map_nil, List.append_assoc, List.cons_append,
      List.nil_append, List.length_append, List.length_singleton, hleft]

end Loops

/-- The arguments and the environment have their copies, and nothing leads to the originals
but the first argument, which titles are written to. -/
structure Moved (args env : List CString) (s : ProcessImage) : Prop where
  inits : (s.memory .inits).length = totalSize args + totalSize env
  envmem : s.memory .envmem = packed (stringBytes env)
  argmem : s.memory .argmem = packed (stringBytes args)
  environ : s.environ = (places .envmem 0 (stringBytes env)).map some ++ [none]
  argv : s.argv = (places .argmem 0 (stringBytes args)).map some
  initArgv : s.initArgv.length = args.length + 1
  first : args ≠ [] → s.initArgv[0]?.join = some ⟨.inits, 0⟩
  argc : s.argc = args.length
  arglen : s.arglen = totalSize args
  environlen : s.environlen = totalSize env

theorem totalSize_append (strings more : List CString) :
    totalSize (strings ++ more) = totalSize strings + totalSize more := by
  rw [totalSize, stringBytes, List.map_append, packedSize_append]
  rfl

/-- The original strings, before anything is moved. -/
theorem reads_inits {m : Memory Block UInt8} {args env : List CString}
    (h : m .inits = packed (stringBytes (args ++ env))) :
    m.Reads (places .inits 0 (stringBytes args)) (stringBytes args) ∧
      m.Reads (places .inits (totalSize args) (stringBytes env)) (stringBytes env) := by
  have hsplit : m .inits = packed (stringBytes args) ++ packed (stringBytes env) := by
    rw [h, stringBytes, List.map_append, packed_append]
    rfl
  have hlength : (packed (stringBytes args)).length = totalSize args := length_packed _
  have hfront : m .inits = [] ++ packed (stringBytes args) ++ packed (stringBytes env) := hsplit
  have hback : m .inits = packed (stringBytes args) ++ packed (stringBytes env) ++ [] := by
    rw [hsplit, List.append_nil]
  constructor
  · exact Memory.reads_packed hfront fun str => zero_notMem_of_mem_stringBytes
  · rw [← hlength]
    exact Memory.reads_packed hback fun str => zero_notMem_of_mem_stringBytes

/-- What `main` has recorded when it calls `init_setproctitle`. -/
def measured (args env : List CString) : ProcessImage :=
  { exec args env with
    argc := args.length, initArgv := pointerArray 0 args
    arglen := totalSize args, environlen := totalSize env }

theorem main_eq (args env : List CString) :
    (exec args env).main args.length (pointerArray 0 args) = some (measured args env) := by
  have hinits : (exec args env).memory .inits = packed (stringBytes (args ++ env)) := by
    simp [exec]
  obtain ⟨hargs, henv⟩ := reads_inits hinits
  have harglen := sumArgs_eq hargs (Nat.le_refl _)
  rw [List.take_length, length_stringBytes] at harglen
  have henvironlen := sumEnviron_eq henv 0
  rw [Nat.zero_add] at henvironlen
  simp only [main, pointerArray, exec] at harglen henvironlen ⊢
  rw [harglen, henvironlen]
  rfl

section Moves

variable {s : ProcessImage} {pointers : List Address} {strings : List (List UInt8)} {b : Block}

/-- What is stored in another block does not touch the original strings. -/
theorem reads_update (reads : s.memory.Reads pointers strings)
    (inits : ∀ p ∈ pointers, p.block = .inits) (other : b ≠ .inits) (cells : List UInt8) :
    Memory.Reads (Function.update s.memory b cells) pointers strings := by
  refine reads.congr fun p hp => Function.update_of_ne ?_ _ _
  rw [inits p hp]
  exact other.symm

/-- The loop over the environment fills its block. -/
theorem moveEnviron_eq (environ : s.environ = pointers.map some ++ [none])
    (reads : s.memory.Reads pointers strings) (inits : ∀ p ∈ pointers, p.block = .inits)
    (environlen : s.environlen = packedSize strings) :
    (s.allocate .envmem s.environlen).moveEnviron = some { s with
      memory := Function.update s.memory .envmem (packed strings)
      environ := (places .envmem 0 strings).map some ++ [none] } := by
  have hlength : strings.length < s.environ.length := by
    rw [environ, List.length_append, List.length_map, reads.length_eq]
    exact Nat.lt_add_one _
  have hdone : (places Block.envmem 0 strings).length = pointers.length := by
    rw [length_places, reads.length_eq]
  have hcleared : (s.allocate .envmem s.environlen).memory .envmem =
      List.replicate (packedSize strings) 0 := by
    simp [allocate, environlen]
  have hreads : (s.allocate .envmem s.environlen).memory.Reads pointers strings :=
    reads_update reads inits (by decide) _
  have hmove := moveStrings_start (redirects_environ (s.allocate .envmem s.environlen) pointers)
    hreads (fun p hp => by rw [inits p hp]; decide) hcleared hlength
  simp only [List.length_nil, List.drop_zero, List.map_nil, List.nil_append, ← environ, hdone,
    List.drop_length] at hmove
  rw [allocate, Function.update_idem] at hmove
  exact hmove

/-- The loop over the arguments fills its block. -/
theorem moveArgs_eq (initArgv : s.initArgv = pointers.map some ++ [none])
    (reads : s.memory.Reads pointers strings) (inits : ∀ p ∈ pointers, p.block = .inits)
    (argc : s.argc = strings.length) (arglen : s.arglen = packedSize strings) :
    { s.allocate .argmem s.arglen with argv := List.replicate s.argc none }.moveArgs = some { s with
      memory := Function.update s.memory .argmem (packed strings)
      argv := (places .argmem 0 strings).map some } := by
  have hlength : strings.length < s.initArgv.length := by
    rw [initArgv, List.length_append, List.length_map, reads.length_eq]
    exact Nat.lt_add_one _
  have hdone : (places Block.argmem 0 strings).length = pointers.length := by
    rw [length_places, reads.length_eq]
  have hcleared : (s.allocate .argmem s.arglen).memory .argmem =
      List.replicate (packedSize strings) 0 := by
    simp [allocate, arglen]
  have hreads : (s.allocate .argmem s.arglen).memory.Reads pointers strings :=
    reads_update reads inits (by decide) _
  have hmove := moveStrings_start (redirects_argv (s := s.allocate .argmem s.arglen) initArgv)
    hreads (fun p hp => by rw [inits p hp]; decide) hcleared hlength
  simp only [List.length_nil, List.map_nil, List.nil_append, Nat.sub_zero, hdone,
    Nat.sub_self, List.replicate_zero, List.append_nil] at hmove
  rw [allocate, Function.update_idem, reads.length_eq, ← argc] at hmove
  exact hmove

/-- The two loops, one behind the other. -/
theorem initSetproctitle_eq {args env : List (List UInt8)} {argPointers envPointers : List Address}
    (initArgv : s.initArgv = argPointers.map some ++ [none])
    (environ : s.environ = envPointers.map some ++ [none])
    (args_read : s.memory.Reads argPointers args) (env_read : s.memory.Reads envPointers env)
    (args_inits : ∀ p ∈ argPointers, p.block = .inits)
    (env_inits : ∀ p ∈ envPointers, p.block = .inits)
    (argc : s.argc = args.length) (arglen : s.arglen = packedSize args)
    (environlen : s.environlen = packedSize env) :
    s.initSetproctitle = some { s with
      memory :=
        Function.update (Function.update s.memory .envmem (packed env)) .argmem (packed args)
      environ := (places .envmem 0 env).map some ++ [none]
      argv := (places .argmem 0 args).map some } := by
  simp only [initSetproctitle, moveEnviron_eq environ env_read env_inits environlen,
    Option.bind_some]
  have hargs := reads_update args_read args_inits (by decide : Block.envmem ≠ .inits) (packed env)
  exact moveArgs_eq initArgv hargs args_inits argc arglen

end Moves

theorem start_moved (args env : List CString) :
    ∃ s, start args env = some s ∧ Moved args env s := by
  have hinits : (exec args env).memory .inits = packed (stringBytes (args ++ env)) := by
    simp [exec]
  obtain ⟨hargs, henv⟩ := reads_inits hinits
  have hinit := initSetproctitle_eq (s := measured args env) rfl rfl hargs henv
    (fun p hp => block_of_mem_places hp) (fun p hp => block_of_mem_places hp)
    (length_stringBytes args).symm rfl rfl
  refine ⟨_, by rw [start, main_eq]; exact hinit, ?_⟩
  constructor
  case inits => simpa [measured, hinits, totalSize] using totalSize_append args env
  case envmem => simp
  case argmem => simp
  case initArgv => simp [measured, pointerArray]
  case first =>
    intro hargs
    cases args with
    | nil => exact absurd rfl hargs
    | cons arg args => rfl
  all_goals rfl

/-- Strings at pointers into a block of a size, with their terminators and without overlap. -/
structure Apart (b : Block) (size : Nat) (pointers : List Address) (strings : List (List UInt8)) :
    Prop where
  inside : List.Forall₂ (fun p str => p.block = b ∧ p.offset + (str.length + 1) ≤ size)
    pointers strings
  apart : (pointers.zip strings).Pairwise fun first second =>
    first.1.offset + (first.2.length + 1) ≤ second.1.offset

/-- What `init_setproctitle` makes of its allocations. -/
structure Relocated (args env : List CString) (s : ProcessImage) : Prop where
  environ : ∃ pointers, s.environ = pointers.map some ++ [none] ∧
    Apart .envmem s.environlen pointers (stringBytes env)
  argv : ∃ pointers, s.argv = pointers.map some ∧ Apart .argmem s.arglen pointers (stringBytes args)
  envmem : s.memory .envmem = packed (stringBytes env) ∧ (s.memory .envmem).length = s.environlen
  argmem : s.memory .argmem = packed (stringBytes args) ∧ (s.memory .argmem).length = s.arglen

/-- Each `environ[i]` and each `g_argv[i]` reads as the original string. -/
structure Intact (args env : List CString) (s : ProcessImage) : Prop where
  environ : ∃ pointers, s.environ = pointers.map some ++ [none] ∧
    s.memory.Reads pointers (stringBytes env)
  argv : ∃ pointers, s.argv = pointers.map some ∧ s.memory.Reads pointers (stringBytes args)

/-- A call of `setproctitle` writes to the block of the original strings only, and leaves a
title that is shorter than the block in it, with zero bytes behind. -/
structure WritesTitle (before : ProcessImage) (title : List UInt8) (after : ProcessImage) :
    Prop where
  frame : ∀ b, b ≠ .inits → after.memory b = before.memory b
  size : (after.memory .inits).length = (before.memory .inits).length
  block : title.length < (before.memory .inits).length →
    after.memory .inits =
      title ++ List.replicate ((before.memory .inits).length - title.length) 0

section Titles

variable {args env : List CString} {s : ProcessImage} {title : List UInt8}

theorem apart_places (b : Block) (strings : List (List UInt8)) :
    Apart b (packedSize strings) (places b 0 strings) strings where
  inside := by
    have hbound : 0 + packedSize strings ≤ packedSize strings := Nat.le_of_eq (Nat.zero_add _)
    exact (places_within hbound).imp fun p str h => ⟨h.1, h.2.2⟩
  apart := places_apart

theorem Moved.relocated (moved : Moved args env s) : Relocated args env s where
  environ := ⟨_, moved.environ, by rw [moved.environlen]; exact apart_places ..⟩
  argv := ⟨_, moved.argv, by rw [moved.arglen]; exact apart_places ..⟩
  envmem := ⟨moved.envmem, by rw [moved.envmem, length_packed, moved.environlen, totalSize]⟩
  argmem := ⟨moved.argmem, by rw [moved.argmem, length_packed, moved.arglen, totalSize]⟩

theorem reads_places {m : Memory Block UInt8} {b : Block} {strings : List CString}
    (h : m b = packed (stringBytes strings)) :
    m.Reads (places b 0 (stringBytes strings)) (stringBytes strings) := by
  have hwhole : m b = [] ++ packed (stringBytes strings) ++ [] := by
    rw [h, List.append_nil, List.nil_append]
  exact Memory.reads_packed hwhole fun _ => zero_notMem_of_mem_stringBytes

theorem Moved.intact (moved : Moved args env s) : Intact args env s where
  environ := ⟨_, moved.environ, reads_places moved.envmem⟩
  argv := ⟨_, moved.argv, reads_places moved.argmem⟩

/-- A title that does not fit changes nothing. -/
theorem setproctitle_long (moved : Moved args env s)
    (long : totalSize args + totalSize env ≤ title.length) : s.setproctitle title = some s := by
  rw [setproctitle, moved.arglen, moved.environlen, if_pos long]

/-- Without any argument there is no room for `g_init_argv[1]`. -/
theorem setproctitle_undefined (moved : Moved [] env s)
    (short : title.length < totalSize [] + totalSize env) : s.setproctitle title = none := by
  have hroom : ¬ 1 < s.initArgv.length := by
    rw [moved.initArgv]
    exact Nat.lt_irrefl 1
  rw [setproctitle, moved.arglen, moved.environlen, if_neg (Nat.not_le_of_lt short), if_neg hroom]

/-- The two stores of a title fill the block. -/
theorem store_title {m : Memory Block UInt8} {size : Nat} (hsize : (m .inits).length = size)
    (short : title.length < size) :
    (m.strncpy ⟨.inits, 0⟩ title title.length).bind (fun memory =>
        memory.clear ⟨.inits, 0 + title.length⟩ (size - title.length)) =
      some (Function.update m .inits (title ++ List.replicate (size - title.length) 0)) := by
  have hfront : m .inits = [] ++ (m .inits).take title.length ++ (m .inits).drop title.length := by
    rw [List.nil_append, List.take_append_drop]
  have htake : title.length = ((m .inits).take title.length).length := by
    rw [List.length_take, hsize, Nat.min_eq_left (Nat.le_of_lt short)]
  have hdrop : (List.replicate (size - title.length) (0 : UInt8)).length =
      ((m .inits).drop title.length).length := by
    rw [List.length_replicate, List.length_drop, hsize]
  have hcopy : m.store ⟨.inits, 0⟩ title =
      some (Function.update m .inits (title ++ (m .inits).drop title.length)) := by
    have hstore := Memory.store_eq hfront htake
    exact hstore
  have hcopied : Function.update m .inits (title ++ (m .inits).drop title.length) .inits =
      title ++ (m .inits).drop title.length ++ [] := by
    rw [Function.update_self, List.append_nil]
  have hclear := Memory.store_eq hcopied hdrop
  rw [Function.update_idem, List.append_nil] at hclear
  rw [Memory.strncpy_length, hcopy, Option.bind_some, Memory.clear, Nat.zero_add]
  exact hclear

theorem setproctitle_short (moved : Moved args env s) (some_args : args ≠ [])
    (short : title.length < totalSize args + totalSize env) :
    s.setproctitle title = some { s with
      memory := Function.update s.memory .inits
        (title ++ List.replicate (totalSize args + totalSize env - title.length) 0)
      initArgv := s.initArgv.set 1 none } := by
  have hroom : 1 < s.initArgv.length := by
    rw [moved.initArgv]
    exact Nat.lt_add_of_pos_left (List.length_pos_iff.mpr some_args)
  have hfirst : (s.initArgv.set 1 none)[0]?.join = some ⟨.inits, 0⟩ := by
    rw [List.getElem?_set_ne Nat.one_ne_zero]
    exact moved.first some_args
  have hstore := store_title moved.inits short
  rw [Option.bind_eq_some_iff] at hstore
  obtain ⟨memory, hcopy, hclear⟩ := hstore
  rw [setproctitle, moved.arglen, moved.environlen, if_neg (Nat.not_le_of_lt short), if_pos hroom]
  simp only [hfirst, Option.bind_some, hcopy, hclear, Option.map_some]

/-- What a call does to a process whose strings have been moved. -/
theorem setproctitle_moved (moved : Moved args env s)
    (defined : args ≠ [] ∨ totalSize args + totalSize env ≤ title.length) :
    ∃ after, s.setproctitle title = some after ∧ Moved args env after ∧
      WritesTitle s title after := by
  by_cases long : totalSize args + totalSize env ≤ title.length
  · refine ⟨s, setproctitle_long moved long, moved, fun _ _ => rfl, rfl, fun short => ?_⟩
    rw [moved.inits] at short
    exact absurd long (Nat.not_le_of_lt short)
  · have some_args := defined.resolve_right long
    have short := Nat.lt_of_not_le long
    refine ⟨_, setproctitle_short moved some_args short, ?_, ?_⟩
    · have hlength : title.length + (totalSize args + totalSize env - title.length) =
          totalSize args + totalSize env := Nat.add_sub_cancel' (Nat.le_of_lt short)
      constructor
      case inits => simpa using hlength
      case envmem => simpa using moved.envmem
      case argmem => simpa using moved.argmem
      case initArgv => simpa using moved.initArgv
      case first =>
        intro _
        rw [List.getElem?_set_ne Nat.one_ne_zero]
        exact moved.first some_args
      case environ => exact moved.environ
      case argv => exact moved.argv
      case argc => exact moved.argc
      case arglen => exact moved.arglen
      case environlen => exact moved.environlen
    · have hblock : Function.update s.memory .inits (title ++ List.replicate
          (totalSize args + totalSize env - title.length) 0) .inits = title ++ List.replicate
            ((s.memory .inits).length - title.length) 0 := by
        rw [Function.update_self, moved.inits]
      refine ⟨fun b hb => Function.update_of_ne hb _ _, (congrArg List.length hblock).trans ?_,
        fun _ => hblock⟩
      rw [List.length_append, List.length_replicate, moved.inits,
        Nat.add_sub_cancel' (Nat.le_of_lt short)]

/-- A call of `setproctitle`, in a process that no undefined operation has ended. -/
def setTitle (s : Option ProcessImage) (title : CString) : Option (Option ProcessImage) :=
  some (s.bind fun image => image.setproctitle title.bytes)

/-- The process is defined, and its strings are intact. -/
def StaysIntact (args env : List CString) (s : Option ProcessImage) : Prop :=
  ∃ image, s = some image ∧ Intact args env image

/-- The call is defined, and writes the title where it belongs. -/
def SetsTitle (s : Option ProcessImage) (title : CString) : Prop :=
  ∃ before after, s = some before ∧ before.setproctitle title.bytes = some after ∧
    WritesTitle before title.bytes after

variable {titles : List CString}

theorem titles_intact (moved : Moved args env s)
    (defined : ∀ title ∈ titles,
      args ≠ [] ∨ totalSize args + totalSize env ≤ title.bytes.length) :
    Throughout setTitle (StaysIntact args env) (some s) titles ∧
      Along setTitle SetsTitle (some s) titles := by
  induction titles generalizing s with
  | nil => exact ⟨⟨s, rfl, moved.intact⟩, trivial⟩
  | cons title titles ih =>
      obtain ⟨after, hset, hmoved, hwrites⟩ :=
        setproctitle_moved moved (defined title List.mem_cons_self)
      have hstep : setTitle (some s) title = some (some after) := congrArg some hset
      obtain ⟨hintact, hsets⟩ :=
        ih hmoved fun other hother => defined other (List.mem_cons_of_mem _ hother)
      rw [throughout_cons_of_some hstep, along_cons_of_some hstep]
      exact ⟨⟨⟨s, rfl, moved.intact⟩, hintact⟩, ⟨s, after, rfl, hset, hwrites⟩, hsets⟩

/-- Without any argument the first short title ends the process. -/
theorem titles_long (moved : Moved [] env s)
    (sets : Along setTitle SetsTitle (some s) titles) :
    ∀ title ∈ titles, totalSize [] + totalSize env ≤ title.bytes.length := by
  induction titles with
  | nil => exact nofun
  | cons title titles ih =>
      obtain ⟨hsets, hrest⟩ := sets _ rfl
      have long : totalSize [] + totalSize env ≤ title.bytes.length := by
        by_contra short
        obtain ⟨before, after, hbefore, hset, -⟩ := hsets
        obtain rfl := Option.some.inj hbefore
        rw [setproctitle_undefined moved (Nat.lt_of_not_le short)] at hset
        cases hset
      have hstep : setTitle (some s) title = some (some s) :=
        congrArg some (setproctitle_long moved long)
      rw [along_cons_of_some hstep] at sets
      exact List.forall_mem_cons.mpr ⟨long, ih sets.2⟩

end Titles

/-- The copies of `init_setproctitle` are packed in their allocations, and every sequence of
titles leaves them intact and stays in the original block, exactly when there is an argument
or no title is shorter than the block. -/
theorem relocation_preserves_iff (args env titles : List CString) :
    (∃ s, start args env = some s ∧ Relocated args env s ∧
      Throughout setTitle (StaysIntact args env) (some s) titles ∧
        Along setTitle SetsTitle (some s) titles) ↔
      args ≠ [] ∨ ∀ title ∈ titles, totalSize args + totalSize env ≤ title.bytes.length := by
  obtain ⟨s, hstart, moved⟩ := start_moved args env
  constructor
  · rintro ⟨t, ht, -, -, sets⟩
    obtain rfl := Option.some.inj (hstart.symm.trans ht)
    by_cases hargs : args = []
    · subst hargs
      exact .inr (titles_long moved sets)
    · exact .inl hargs
  · intro defined
    refine ⟨s, hstart, moved.relocated, titles_intact moved fun title htitle => ?_⟩
    exact defined.imp_right fun long => long title htitle

/-- No argument, one environment string, and the empty title. -/
theorem relocation_undefined : ¬ ∃ s, start [] [⟨[65], by decide⟩] = some s ∧
    Relocated [] [⟨[65], by decide⟩] s ∧
      Throughout setTitle (StaysIntact [] [⟨[65], by decide⟩]) (some s) [⟨[], by decide⟩] ∧
        Along setTitle SetsTitle (some s) [⟨[], by decide⟩] := by
  rintro ⟨s, hstart, -, -, sets⟩
  obtain ⟨⟨before, after, hbefore, hset, -⟩, -⟩ := sets _ rfl
  obtain rfl := Option.some.inj hbefore
  have hnone : (start [] [⟨[65], by decide⟩]).bind (fun image => image.setproctitle []) = none := by
    decide +kernel
  rw [hstart, Option.bind_some] at hnone
  rw [hnone] at hset
  cases hset

end ProcessImage

end MyNginx
