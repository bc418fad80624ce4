import MyNginx.Formatting.Window

/-!
# Truncation at the end of the window

A call is truncated safely if it returns a pointer into its window, has stored a part of
its full text up to there, and nothing outside. The full text is what the same call prints
into every window from some size on. `truncates_iff` says which calls are: those whose
arguments can be converted and whose pieces have the room they need.
-/

namespace MyNginx

namespace Format

open Foundation

/-- The text is in memory from `b` on, and the pointer behind it. -/
structure Shows (out : Output) (b : Nat) (text : List UInt8) : Prop where
  buf : out.buf = some (b + text.length)
  bytes : ∀ i (h : i < text.length), out.cells (b + i) = some text[i]

/-- What a call prints with an unlimited window. -/
def PrintsInFull (b : Nat) (fmt : List UInt8) (args : List Arg) (whole : List UInt8) : Prop :=
  ∃ bound, ∀ last, bound ≤ last →
    ∃ out, fmtString last (Output.start b) fmt args = .ok out ∧ Shows out b whole

/-- A call with a window of `room` bytes from `b` on ends with a pointer into the window,
behind a part of what it prints in full, and writes nothing else. -/
def Truncates (b room : Nat) (fmt : List UInt8) (args : List Arg) : Prop :=
  ∃ whole text out, PrintsInFull b fmt args whole ∧
    fmtString (b + room) (Output.start b) fmt args = .ok out ∧ Shows out b text ∧
    text <+: whole ∧ text.length ≤ room ∧ (whole.length ≤ room → text = whole) ∧
    ∀ address, (out.cells address).isSome → b ≤ address ∧ address < b + room

variable {b last : Nat}

theorem shows_printed (text : List UInt8) : Shows (printed Cells.empty b text) b text where
  buf := rfl
  bytes _ h := Cells.storeUp_getElem _ _ h

/-- With room for the whole text and one byte more, every piece has its room. -/
theorem fits_of_room {call : List Piece} (defined : ∀ piece ∈ call, piece.Defined)
    (room : b + (output call).length < last) : Fits last b call := by
  induction call generalizing b with
  | nil => trivial
  | cons piece call ih =>
      rw [output_cons, List.length_append] at room
      intro hlt
      constructor
      · exact (defined piece List.mem_cons_self).fits (by omega)
      · apply ih
        · intro piece hmem
          exact defined piece (List.mem_cons_of_mem _ hmem)
        · omega

theorem defined_of_fits {call : List Piece} (fits : Fits last b call)
    (room : b + (output call).length < last) : ∀ piece ∈ call, piece.Defined := by
  induction call generalizing b with
  | nil =>
      intro piece hmem
      cases hmem
  | cons piece call ih =>
      rw [output_cons, List.length_append] at room
      obtain ⟨hpiece, hrest⟩ := fits (by omega)
      intro other hmem
      rcases List.mem_cons.mp hmem with rfl | hmem
      · exact hpiece.defined
      · exact ih hrest (by omega) other hmem

theorem runPieces_full {call : List Piece} (defined : ∀ piece ∈ call, piece.Defined)
    (cells : Cells UInt8) (room : b + (output call).length < last) :
    runPieces last ⟨cells, some b⟩ call = .ok (printed cells b (output call)) := by
  obtain ⟨text, hrun, -, -, hwhole⟩ :=
    runPieces_fits cells (fits_of_room defined room) (by omega)
  rw [hrun, hwhole (Nat.le_of_lt room)]

theorem printsInFull {call : List Piece} (defined : ∀ piece ∈ call, piece.Defined) :
    PrintsInFull b (format call) (arguments call) (output call) := by
  refine ⟨b + (output call).length + 1, ?_⟩
  intro last hlast
  refine ⟨printed Cells.empty b (output call), ?_, shows_printed _⟩
  rw [fmtString_eq]
  exact runPieces_full defined _ hlast

/-- A call that shows a text inside its window has had room for its pieces. -/
theorem fits_of_shows {call : List Piece} {out : Output} {text : List UInt8}
    (run : fmtString last (Output.start b) (format call) (arguments call) = .ok out)
    (shows : Shows out b text) (inside : b + text.length ≤ last) : Fits last b call := by
  rw [fmtString_eq] at run
  by_contra misfit
  rcases runPieces_misfit Cells.empty misfit (fun _ _ => rfl) with
    hlost | ⟨other, p, hrun, hp, hend⟩
  · have hnull := hlost out run
    rw [shows.buf] at hnull
    cases hnull
  · obtain rfl : out = other := Except.ok.inj (run.symm.trans hrun)
    obtain rfl : b + text.length = p := Option.some.inj (shows.buf.symm.trans hp)
    rcases hend with hover | ⟨address, hle, hlt, hnone⟩
    · omega
    · obtain ⟨i, rfl⟩ := Nat.exists_eq_add_of_le hle
      have hbyte := shows.bytes i (by omega)
      rw [hnone] at hbyte
      cases hbyte

theorem truncates_iff (call : List Piece) (b room : Nat) :
    Truncates b room (format call) (arguments call) ↔
      (∀ piece ∈ call, piece.Defined) ∧ Fits (b + room) b call := by
  constructor
  · rintro ⟨whole, text, out, ⟨bound, hfull⟩, hrun, hshows, -, hroom, -, -⟩
    refine ⟨?_, fits_of_shows hrun hshows (by omega)⟩
    have hbound : bound ≤ bound + (b + whole.length) + (b + (output call).length + 1) := by omega
    obtain ⟨full, hrun', hshows'⟩ := hfull _ hbound
    exact defined_of_fits (fits_of_shows hrun' hshows' (by omega)) (by omega)
  · intro ⟨hdefined, hfits⟩
    obtain ⟨text, hrun, hprefix, hend, hwhole⟩ :=
      runPieces_fits Cells.empty hfits (by omega)
    refine ⟨output call, text, printed Cells.empty b text, printsInFull hdefined, ?_,
      shows_printed text, hprefix, by omega, ?_, ?_⟩
    · rw [fmtString_eq]
      exact hrun
    · intro hle
      exact hwhole (by omega)
    · intro address hsome
      have hrange := Cells.storeUp_empty_isSome.mp hsome
      omega

/-- A string that would fill the window has no room. -/
example : ¬Fits 3 0 [.string ⟨[], [], none⟩ [97, 98, 99]] := by decide

end Format

end MyNginx
