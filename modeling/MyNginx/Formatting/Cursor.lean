import MyNginx.Formatting.Truncation

/-!
# The format cursor

`fmt_string` reads its format up to the terminator. A directive that the format cuts off
behind its width, its flags or its precision ends at the terminator too, and the default
case of the `switch` then copies the terminator and steps over it. A format keeps the
cursor inside in every window and with all arguments exactly if it has no such directive;
the number of rounds is never more than its length.
-/

namespace MyNginx

namespace Format

open Foundation

/-- A format behind the width, the flags and the precision of a directive. -/
def afterSpec (fmt : List UInt8) : List UInt8 :=
  (readFlags ⟨true, .decimal, 0⟩ (readNumber 0 fmt).2).2

/-- The format ends inside of a directive, in front of its letter. -/
inductive Unfinished : List UInt8 → Prop
  | here {fmt : List UInt8} (h : afterSpec fmt = []) : Unfinished (percent :: fmt)
  | directive {fmt rest : List UInt8} {c : UInt8} (h : afterSpec fmt = c :: rest)
      (later : Unfinished rest) : Unfinished (percent :: fmt)
  | literal {fmt : List UInt8} {c : UInt8} (h : c ≠ percent) (later : Unfinished fmt) :
      Unfinished (c :: fmt)

/-- The loop neither passes the terminator nor makes more rounds than the format has bytes. -/
def StaysInside {α : Type} (result : Except Fault α) : Prop :=
  ∀ fault, result = .error fault → fault ≠ .pastEnd ∧ fault ≠ .outOfFuel

/-! ### What the helpers do to the cursor -/

section Inside

variable {α β : Type} {last : Nat} {out : Output}

theorem staysInside_ok (a : α) : StaysInside (.ok a) := fun _ h => nomatch h

theorem staysInside_error {fault : Fault} (h : fault ≠ .pastEnd ∧ fault ≠ .outOfFuel) :
    StaysInside (.error fault : Except Fault α) := by
  intro fault' heq
  cases heq
  exact h

theorem staysInside_ite {p : Prop} [Decidable p] {result result' : Except Fault α}
    (h : StaysInside result) (h' : StaysInside result') :
    StaysInside (if p then result else result') := by
  split
  · exact h
  · exact h'

theorem StaysInside.bind {result : Except Fault α} {next : α → Except Fault β}
    (h : StaysInside result) (h' : ∀ a, result = .ok a → StaysInside (next a)) :
    StaysInside (result >>= next) := by
  cases result with
  | error fault => exact staysInside_error (h fault rfl)
  | ok a => exact h' a rfl

theorem staysInside_put (c : UInt8) (out : Output) : StaysInside (out.put c) := by
  rw [Output.put]
  split
  · exact staysInside_error (by decide)
  · exact staysInside_ok _

theorem staysInside_put_if {p : Prop} [Decidable p] (c : UInt8) (out : Output) :
    StaysInside (if p then out.put c else .ok out) :=
  staysInside_ite (staysInside_put c out) (staysInside_ok _)

theorem staysInside_ui64String (last ui64 : Nat) (zero : UInt8) (hexadecimal : Base) (width : Nat)
    (out : Output) : StaysInside (ui64String last ui64 zero hexadecimal width out) := by
  rw [ui64String]
  split
  · exact staysInside_error (by decide)
  · exact staysInside_ite (staysInside_ok _) (staysInside_ok _)

theorem staysInside_fracString (last ui64 : Nat) (zero : UInt8) (hexadecimal : Base)
    (widthFrac : Nat) (out : Output) :
    StaysInside (fracString last ui64 zero hexadecimal widthFrac out) := by
  rw [fracString]
  split
  · exact staysInside_error (by decide)
  · exact staysInside_ite (staysInside_ok _) (staysInside_ok _)

theorem staysInside_signedString (last : Nat) (i64 : Int) (zero : UInt8) (hex : Base) (width : Nat)
    (out : Output) : StaysInside (signedString last i64 zero hex width out) :=
  (staysInside_put_if minus out).bind fun out _ => staysInside_ui64String last _ zero hex width out

theorem staysInside_toInt64 (frac : ℚ) : StaysInside (toInt64 frac) :=
  staysInside_ite (staysInside_ok _) (staysInside_error (by decide))

theorem staysInside_doubleString (last : Nat) (frac : Option ℚ) (zero : UInt8)
    (width widthFrac : Nat) (out : Output) :
    StaysInside (doubleString last frac zero width widthFrac out) := by
  cases frac with
  | none => exact staysInside_error (by decide)
  | some x =>
      apply (staysInside_put_if minus out).bind
      intro out _
      apply (staysInside_toInt64 _).bind
      intro ui64 _
      apply (staysInside_ui64String last ui64 zero .decimal width out).bind
      intro out _
      apply staysInside_ite (staysInside_ok _)
      apply (staysInside_put_if dot out).bind
      intro out _
      exact staysInside_fracString last _ digitZero .decimal widthFrac out

theorem staysInside_copyString (last : Nat) (lpStr : List UInt8) (out : Output) :
    StaysInside (copyString last lpStr out) := by
  rw [copyString]
  split
  · exact staysInside_error (by decide)
  · exact staysInside_ok _

/-- A result stays inside and leaves a given format. -/
def Leaves (fmt : List UInt8) (result : Except Fault (Output × List UInt8 × List Arg)) : Prop :=
  StaysInside result ∧ ∀ out fmt' args, result = .ok (out, fmt', args) → fmt' = fmt

theorem leaves_print {result : Except Fault Output} (h : StaysInside result) (fmt : List UInt8)
    (args : List Arg) :
    Leaves fmt (do
      let out ← result
      return (out, fmt, args)) := by
  constructor
  · exact h.bind fun out _ => staysInside_ok _
  · intro out fmt' args' heq
    cases result with
    | error fault => cases heq
    | ok out' =>
        cases heq
        rfl

theorem leaves_badArgument (fmt : List UInt8) : Leaves fmt (.error .badArgument) :=
  ⟨staysInside_error (by decide), fun _ _ _ h => nomatch h⟩

/-- In front of a byte the `switch` steps over this byte. -/
theorem dispatch_leaves (last : Nat) (out : Output) (zero : UInt8) (width : Nat) (flags : Flags)
    (c : UInt8) (fmt : List UInt8) (args : List Arg) :
    Leaves fmt (dispatch last out zero width flags (c :: fmt) args) := by
  unfold dispatch
  dsimp only
  split
  · exact leaves_print (staysInside_put percent out) fmt args
  split
  · split
    · exact leaves_print
        (staysInside_ite (staysInside_signedString _ _ _ _ _ _) (staysInside_ui64String _ _ _ _ _ _)) fmt _
    · exact leaves_badArgument fmt
  split
  · split
    · exact leaves_print (staysInside_copyString _ _ _) fmt _
    · exact leaves_badArgument fmt
  split
  · split
    · exact leaves_print (staysInside_signedString _ _ _ _ _ _) fmt _
    · exact leaves_badArgument fmt
  split
  · split
    · exact leaves_print (staysInside_doubleString _ _ _ _ _ _) fmt _
    · exact leaves_badArgument fmt
  · exact leaves_print (staysInside_put c out) fmt args

end Inside

/-! ### Formats without a directive that is cut off -/

theorem readNumber_length (width : Nat) (fmt : List UInt8) :
    (readNumber width fmt).2.length ≤ fmt.length := by
  induction fmt generalizing width with
  | nil => exact Nat.le_refl 0
  | cons c fmt ih =>
      rw [readNumber]
      split
      · exact Nat.le_succ_of_le (ih _)
      · exact Nat.le_refl _

theorem readFlags_length (flags : Flags) (fmt : List UInt8) :
    (readFlags flags fmt).2.length ≤ fmt.length := by
  induction fmt generalizing flags with
  | nil => exact Nat.le_refl 0
  | cons c fmt ih =>
      rw [readFlags]
      split
      · exact Nat.le_succ_of_le (ih _)
      split
      · exact Nat.le_succ_of_le (ih _)
      split
      · exact Nat.le_succ_of_le (ih _)
      split
      · exact Nat.le_succ_of_le (readNumber_length _ fmt)
      · exact Nat.le_refl _

theorem afterSpec_length (fmt : List UInt8) : (afterSpec fmt).length ≤ fmt.length :=
  Nat.le_trans (readFlags_length _ _) (readNumber_length 0 fmt)

theorem directive_eq (last : Nat) (out : Output) (fmt : List UInt8) (args : List Arg) :
    ∃ zero width flags,
      directive last out fmt args = dispatch last out zero width flags (afterSpec fmt) args :=
  ⟨_, _, _, rfl⟩

/-- What one round leaves is shorter than the format, and is finished if the format is. -/
theorem body_inside {c : UInt8} {fmt : List UInt8} (finished : ¬Unfinished (c :: fmt)) (last : Nat)
    (out : Output) (args : List Arg) :
    StaysInside (body last out c fmt args) ∧
      ∀ out' fmt' args', body last out c fmt args = .ok (out', fmt', args') →
        fmt'.length ≤ fmt.length ∧ ¬Unfinished fmt' := by
  by_cases hc : c = percent
  · subst hc
    obtain ⟨zero, width, flags, hdirective⟩ := directive_eq last out fmt args
    rw [body, if_pos rfl, hdirective]
    cases hrest : afterSpec fmt with
    | nil => exact absurd (.here hrest) finished
    | cons letter rest =>
        obtain ⟨hinside, hleaves⟩ := dispatch_leaves last out zero width flags letter rest args
        refine ⟨hinside, ?_⟩
        intro out' fmt' args' hok
        obtain rfl := hleaves out' fmt' args' hok
        have hlength := afterSpec_length fmt
        rw [hrest, List.length_cons] at hlength
        exact ⟨by omega, fun later => finished (.directive hrest later)⟩
  · rw [body, if_neg hc]
    obtain ⟨hinside, hleaves⟩ := leaves_print (staysInside_put c out) fmt args
    refine ⟨hinside, ?_⟩
    intro out' fmt' args' hok
    obtain rfl := hleaves out' fmt' args' hok
    exact ⟨Nat.le_refl _, fun later => finished (.literal hc later)⟩

theorem fmtLoop_inside {fmt : List UInt8} (finished : ¬Unfinished fmt) (last : Nat) {fuel : Nat}
    (enough : fmt.length ≤ fuel) (out : Output) (args : List Arg) :
    StaysInside (fmtLoop last fuel out fmt args) := by
  induction fuel generalizing fmt out args with
  | zero =>
      obtain rfl := List.eq_nil_of_length_eq_zero (Nat.le_zero.mp enough)
      exact staysInside_ok _
  | succ fuel ih =>
      cases fmt with
      | nil => exact staysInside_ok _
      | cons c fmt =>
          obtain ⟨hinside, hnext⟩ := body_inside finished last out args
          rw [fmtLoop_cons]
          split
          · apply hinside.bind
            intro ⟨out', fmt', args'⟩ hok
            obtain ⟨hshorter, hfinished⟩ := hnext out' fmt' args' hok
            exact ih hfinished (Nat.le_trans hshorter (Nat.le_of_succ_le_succ enough)) out' args'
          · exact staysInside_ok _

/-! ### Formats with one -/

/-- With room for a text and one byte more, the text is printed. -/
def Passes (print : Nat → Output → Except Fault Output) (b : Nat) (text : List UInt8) : Prop :=
  ∀ last cells, b + text.length < last → print last ⟨cells, some b⟩ = .ok (printed cells b text)

theorem passes_put (c : UInt8) (b : Nat) : Passes (fun _ out => out.put c) b [c] :=
  fun _ _ _ => put_some c

theorem passes_ui64String (ui64 : Nat) (zero : UInt8) (hexadecimal : Base) (width b : Nat) :
    Passes (fun last out => ui64String last ui64 zero hexadecimal width out) b
      (padded zero hexadecimal width ui64) :=
  fun _ _ room => (ui64String_eq ..).trans (if_pos (Nat.le_of_lt room))

theorem passes_signedString (i64 : Int) (zero : UInt8) (hex : Base) (width b : Nat) :
    Passes (fun last out => signedString last i64 zero hex width out) b
      (signed zero hex width i64) :=
  fun _ _ room => (signedString_eq ..).trans (if_pos (Nat.le_of_lt room))

theorem passes_copyString (lpStr : List UInt8) (b : Nat) :
    Passes (fun last out => copyString last lpStr out) b lpStr := by
  intro last cells room
  simp only [copyString, if_pos room]
  rfl

theorem passes_doubleString {x : ℚ} (defined : |x|.floor < 2 ^ 63) (zero : UInt8)
    (width widthFrac b : Nat) :
    Passes (fun last out => doubleString last (some x) zero width widthFrac out) b
      (doubleText zero width widthFrac x) :=
  fun _ _ room => doubleString_prints defined zero (Nat.lt_of_lt_of_le room (Nat.le_add_right _ _))

/-- With an argument of the right type, where the letter takes one, a directive prints and
takes this argument. -/
theorem dispatch_passes (b : Nat) (zero : UInt8) (width : Nat) (flags : Flags) (c : UInt8)
    (fmt : List UInt8) : ∃ own print text, Passes print b text ∧ ∀ last out args,
      dispatch last out zero width flags (c :: fmt) (own ++ args) = (do
        let out ← print last out
        return (out, fmt, args)) := by
  by_cases hpercent : c = percent
  · subst hpercent
    refine ⟨[], _, _, passes_put percent b, ?_⟩
    intro last out args
    simp only [dispatch, List.nil_append, if_true]
  by_cases hd : c = letterD
  · subst hd
    by_cases hsign : flags.sign = true
    · refine ⟨[.word 0], _, _, passes_signedString (0 : BitVec 32).toInt zero flags.hex width b, ?_⟩
      intro last out args
      simp only [dispatch, List.singleton_append, if_neg hpercent, if_true, if_pos hsign]
    · refine ⟨[.word 0], _, _, passes_ui64String (0 : BitVec 32).toNat zero flags.hex width b, ?_⟩
      intro last out args
      simp only [dispatch, List.singleton_append, if_neg hpercent, if_true, if_neg hsign]
  by_cases hs : c = letterS
  · subst hs
    refine ⟨[.str []], _, _, passes_copyString (cstr []) b, ?_⟩
    intro last out args
    simp only [dispatch, List.singleton_append, if_neg hpercent, if_neg hd, if_true]
  by_cases hp : c = letterP
  · subst hp
    refine ⟨[.word 0], _, _, passes_signedString (0 : BitVec 32).toInt zero flags.hex width b, ?_⟩
    intro last out args
    simp only [dispatch, List.singleton_append, if_neg hpercent, if_neg hd, if_neg hs, if_true]
  by_cases hf : c = letterF
  · subst hf
    have hdefined : |(0 : ℚ)|.floor < 2 ^ 63 := by decide
    refine ⟨[.double (some 0)], _, _,
      passes_doubleString hdefined zero width flags.widthFrac b, ?_⟩
    intro last out args
    simp only [dispatch, List.singleton_append, if_neg hpercent, if_neg hd, if_neg hs, if_neg hp,
      if_true]
  · refine ⟨[], _, _, passes_put c b, ?_⟩
    intro last out args
    simp only [dispatch, List.nil_append, if_neg hpercent, if_neg hd, if_neg hs, if_neg hp,
      if_neg hf]

/-- The cursor passes the terminator of such a format, in every window from some size on. -/
theorem fmtLoop_passes {fmt : List UInt8} (unfinished : Unfinished fmt) (b : Nat) :
    ∃ args bound, ∀ last cells fuel, bound ≤ last → fmt.length ≤ fuel →
      fmtLoop last fuel ⟨cells, some b⟩ fmt args = .error .pastEnd := by
  induction unfinished generalizing b with
  | @here fmt h =>
      refine ⟨[], b + 1, fun last cells fuel hlast hfuel => ?_⟩
      obtain ⟨fuel, rfl⟩ := Nat.exists_eq_add_of_le' (Nat.lt_of_lt_of_le (Nat.succ_pos _) hfuel)
      have hbelow : Output.below last ⟨cells, some b⟩ = true := decide_eq_true hlast
      obtain ⟨zero, width, flags, hdirective⟩ := directive_eq last ⟨cells, some b⟩ fmt []
      rw [fmtLoop_cons, hbelow, if_pos rfl, body, if_pos rfl, hdirective, h]
      rfl
  | @directive fmt rest c h later ih =>
      have hlength := afterSpec_length fmt
      rw [h, List.length_cons] at hlength
      obtain ⟨zero, width, flags, hdirective⟩ :
          ∃ zero width flags, ∀ last out args, directive last out fmt args =
            dispatch last out zero width flags (afterSpec fmt) args :=
        ⟨_, _, _, fun _ _ _ => rfl⟩
      obtain ⟨own, print, text, hpasses, hdispatch⟩ := dispatch_passes b zero width flags c rest
      obtain ⟨args, bound, hrest⟩ := ih (b + text.length)
      refine ⟨own ++ args, max bound (b + text.length + 1), fun last cells fuel hlast hfuel => ?_⟩
      obtain ⟨fuel, rfl⟩ := Nat.exists_eq_add_of_le' (Nat.lt_of_lt_of_le (Nat.succ_pos _) hfuel)
      rw [List.length_cons] at hfuel
      have hbelow : Output.below last ⟨cells, some b⟩ = true := decide_eq_true (by omega)
      rw [fmtLoop_cons, hbelow, if_pos rfl, body, if_pos rfl, hdirective, h, hdispatch,
        hpasses last cells (by omega)]
      exact hrest last _ fuel (by omega) (by omega)
  | @literal fmt c h later ih =>
      obtain ⟨args, bound, hrest⟩ := ih (b + 1)
      refine ⟨args, max bound (b + 1), fun last cells fuel hlast hfuel => ?_⟩
      obtain ⟨fuel, rfl⟩ := Nat.exists_eq_add_of_le' (Nat.lt_of_lt_of_le (Nat.succ_pos _) hfuel)
      rw [List.length_cons] at hfuel
      have hbelow : Output.below last ⟨cells, some b⟩ = true := decide_eq_true (by omega)
      rw [fmtLoop_cons, hbelow, if_pos rfl, body, if_neg h]
      exact hrest last _ fuel (by omega) (by omega)

/-- The cursor stays inside of a format, in every window and with all arguments, exactly if
no directive of the format is cut off by its end. -/
theorem cursor_inside_iff (fmt : List UInt8) :
    (∀ last b args, StaysInside (fmtString last (Output.start b) fmt args)) ↔ ¬Unfinished fmt := by
  constructor
  · intro inside unfinished
    obtain ⟨args, bound, hpasses⟩ := fmtLoop_passes unfinished 0
    have hfault : fmtString bound (Output.start 0) fmt args = .error .pastEnd :=
      hpasses bound _ _ (Nat.le_refl _) (Nat.le_refl _)
    exact (inside bound 0 args .pastEnd hfault).1 rfl
  · intro finished last b args
    exact fmtLoop_inside finished last (Nat.le_refl _) _ args

/-- A format that is a single `%`. -/
theorem cursor_past_end : ¬StaysInside (fmtString 8 (Output.start 0) [percent] []) := by
  intro inside
  have hfault : fmtString 8 (Output.start 0) [percent] [] = .error .pastEnd := rfl
  exact (inside .pastEnd hfault).1 rfl

end Format

end MyNginx
