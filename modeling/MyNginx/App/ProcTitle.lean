import MyNginx.App.Log
import MyNginx.Foundation.Strings

/-!
# The title of a process

When the program starts, its arguments and its environment lie in one block, each string
behind the other. `main` adds up what they need, `init_setproctitle` moves copies of them
to two blocks of that size, and `setproctitle` writes a title where they were. The title of
the master process is composed in an array of the same size as the first block. An
operation is `none` where the source is undefined: a store or a string outside its block, a
null pointer, an index outside an array.
-/

namespace MyNginx

open Foundation

/-- A string without its terminator. -/
structure CString where
  bytes : List UInt8
  noZero : 0 ∉ bytes
  deriving DecidableEq, Repr

/-- The bytes of strings. -/
def stringBytes (strings : List CString) : List (List UInt8) := strings.map CString.bytes

/-- What `strlen` adds up to over strings, with their terminators. -/
def totalSize (strings : List CString) : Nat := packedSize (stringBytes strings)

/-- The block of the original strings, the two that `init_setproctitle` allocates, and the
array of `master_process_cycle`. -/
inductive Block where
  | inits
  | envmem
  | argmem
  | title
  deriving DecidableEq, Repr

abbrev Address := Pointer Block

/-- The memory with the strings of a process, and the variables that point into it. The
arrays `environ` and `g_init_argv` end with a null pointer. -/
structure ProcessImage where
  memory : Memory Block UInt8
  environ : List (Option Address)
  initArgv : List (Option Address)
  argv : List (Option Address)
  argc : Nat
  arglen : Nat
  environlen : Nat

/-- The array of pointers to strings that lie behind the first `offset` bytes. -/
def pointerArray (offset : Nat) (strings : List CString) : List (Option Address) :=
  (places Block.inits offset (stringBytes strings)).map some ++ [none]

namespace ProcessImage

/-- Before `main`: the strings in their block, and the variables zero. -/
def exec (args env : List CString) : ProcessImage where
  memory := Function.update (fun _ => []) .inits (packed (stringBytes (args ++ env)))
  environ := pointerArray (totalSize args) env
  initArgv := []
  argv := []
  argc := 0
  arglen := 0
  environlen := 0

/-- The sum of `strlen(argv[i]) + 1` over the first `n` arguments. -/
def sumArgs (memory : Memory Block UInt8) (argv : List (Option Address)) : Nat → Option Nat
  | 0 => some 0
  | i + 1 =>
      (sumArgs memory argv i).bind fun sum =>
        argv[i]?.join.bind fun p => (memory.string p).map fun str => sum + (str.length + 1)

/-- The sum of `strlen(environ[i]) + 1` up to the null pointer. -/
def sumEnviron (memory : Memory Block UInt8) : Nat → List (Option Address) → Option Nat
  | _, [] => none
  | sum, none :: _ => some sum
  | sum, some p :: environ =>
      (memory.string p).bind fun str => sumEnviron memory (sum + (str.length + 1)) environ

/-- What `main` records of its arguments and the environment. -/
def main (s : ProcessImage) (argc : Nat) (argv : List (Option Address)) : Option ProcessImage :=
  (sumArgs s.memory argv argc).bind fun arglen =>
    (sumEnviron s.memory 0 s.environ).map fun environlen =>
      { s with argc, initArgv := argv, arglen, environlen }

/-- The loops of `init_setproctitle` from `i` on, for at most `fuel` rounds: as long as there
is a pointer in the array, its string is copied to `dst`, and `redirect` records where. -/
def moveStrings (array : ProcessImage → List (Option Address))
    (redirect : ProcessImage → Nat → Address → Option ProcessImage) (s : ProcessImage) (i : Nat)
    (dst : Address) : Nat → Option ProcessImage
  | 0 => none
  | fuel + 1 =>
      match (array s)[i]? with
      | none => none
      | some none => some s
      | some (some src) =>
          (s.memory.string src).bind fun str =>
            let size := str.length + 1
            (s.memory.strncpy dst str size).bind fun memory =>
              (redirect { s with memory } i dst).bind fun s =>
                moveStrings array redirect s (i + 1) ⟨dst.block, dst.offset + size⟩ fuel

/-- The assignment to `environ[i]`, which has just been read. -/
def redirectEnviron (s : ProcessImage) (i : Nat) (envtmp : Address) : Option ProcessImage :=
  some { s with environ := s.environ.set i (some envtmp) }

/-- The assignment to `g_argv[i]`. -/
def redirectArgv (s : ProcessImage) (i : Nat) (argtmp : Address) : Option ProcessImage :=
  if i < s.argv.length then some { s with argv := s.argv.set i (some argtmp) } else none

/-- The loop over the environment. -/
def moveEnviron (s : ProcessImage) : Option ProcessImage :=
  moveStrings environ redirectEnviron s 0 ⟨.envmem, 0⟩ s.environ.length

/-- The loop over the arguments. -/
def moveArgs (s : ProcessImage) : Option ProcessImage :=
  moveStrings initArgv redirectArgv s 0 ⟨.argmem, 0⟩ s.initArgv.length

/-- A block of zero bytes. -/
def allocate (s : ProcessImage) (b : Block) (size : Nat) : ProcessImage :=
  { s with memory := Function.update s.memory b (List.replicate size 0) }

/-- `init_setproctitle`. -/
def initSetproctitle (s : ProcessImage) : Option ProcessImage :=
  let s := s.allocate .envmem s.environlen
  s.moveEnviron.bind fun s =>
    let s := s.allocate .argmem s.arglen
    { s with argv := List.replicate s.argc none }.moveArgs

/-- The process behind `init_setproctitle`. -/
def start (args env : List CString) : Option ProcessImage :=
  ((exec args env).main args.length (pointerArray 0 args)).bind initSetproctitle

/-- `setproctitle`. -/
def setproctitle (s : ProcessImage) (title : List UInt8) : Option ProcessImage :=
  let titlelen := title.length
  let sumSize := s.arglen + s.environlen
  if sumSize ≤ titlelen then some s
  else if 1 < s.initArgv.length then
    let s := { s with initArgv := s.initArgv.set 1 none }
    s.initArgv[0]?.join.bind fun ptmp =>
      (s.memory.strncpy ptmp title titlelen).bind fun memory =>
        (memory.clear ⟨ptmp.block, ptmp.offset + titlelen⟩ (sumSize - titlelen)).map fun memory =>
          { s with memory }
  else none

/-- `MASTER_PROCESS_TITLE`. -/
def masterProcessTitle : List UInt8 := Log.bytes "master process"

/-- The first `n` arguments are appended to the title. -/
def appendArgs (argv : List (Option Address)) (memory : Memory Block UInt8) :
    Nat → Option (Memory Block UInt8)
  | 0 => some memory
  | i + 1 =>
      (appendArgs argv memory i).bind fun memory =>
        argv[i]?.join.bind fun p =>
          (memory.string p).bind fun str => memory.strcat ⟨.title, 0⟩ str

/-- The array `title` of `master_process_cycle`, up to the call of `setproctitle`. -/
def composeTitle (s : ProcessImage) : Option ProcessImage :=
  let s := s.allocate .title (s.arglen + s.environlen)
  (s.memory.strcpy ⟨.title, 0⟩ masterProcessTitle).bind fun memory =>
    (memory.strcat ⟨.title, 0⟩ (Log.bytes " ")).bind fun memory =>
      (appendArgs s.argv memory s.argc).map fun memory => { s with memory }

end ProcessImage

end MyNginx
