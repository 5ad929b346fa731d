import Mathlib.Data.List.Chain
import Tripwire.Proofs.Token.Munch

/-!
Tokens tile the text that they are scanned from, and places carry over from one text
to the next.

The places that scanning reports are those of the pieces that the text is cut into,
so everything is shown of `locate` by induction on the pieces.
-/

namespace Tripwire

open Lexeme

/-- Tokens that tile a text which begins at a cursor. -/
structure Tiling (cursor : Cursor) (cs : List Char) (located : List Located) (final : Cursor) :
    Prop where
  first : located.head?.map (·.start) = some cursor
  chained : located.IsChain fun l next => next.start.offset = l.stop
  filled : ∀ l ∈ located, l.token ≠ .finish → l.start.offset < l.stop
  finish : ∃ tokens, located = tokens ++ [finishAt final] ∧
    ∀ l ∈ tokens, l.token ≠ .finish
  final : cursor.Behind cs final
  /-- The tokens' slices, put together, are the text. -/
  slices : ∃ pieces : List (List Char), pieces.flatten = cs ∧
    List.Forall₂ (fun l piece => l.Slice cursor cs piece) located pieces
  places : ∀ l ∈ located, ∃ before, before <+: cs ∧ cursor.Behind before l.start

/-- A text which begins at a cursor cannot be scanned further than to some place. -/
structure Halts (cursor : Cursor) (cs : List Char) (error : ScanError) (final : Cursor) :
    Prop where
  /-- The place is behind the lexemes that could be read. -/
  place : ∃ pieces rest, Munches cs pieces rest ∧ rest ≠ [] ∧ Stuck rest ∧
    cursor.Behind (consumed pieces) final
  stretch : error.stretch = ⟨final.offset, final.offset + 1, final.line, final.column⟩

variable {cs : List Char} {pieces : List (List Char × Token)} {l : Located}
  {base cursor : Cursor}

theorem head_locate (cursor : Cursor) (pieces : List (List Char × Token)) :
    (locate cursor pieces ++ [finishAt (cursor.advance (consumed pieces))]).head?.map (·.start) =
      some cursor := by
  cases pieces <;> rfl

theorem chained_locate (cursor : Cursor) (pieces : List (List Char × Token)) :
    (locate cursor pieces ++ [finishAt (cursor.advance (consumed pieces))]).IsChain
      fun l next => next.start.offset = l.stop := by
  induction pieces generalizing cursor with
  | nil => exact .singleton _
  | cons head pieces ih =>
    obtain ⟨piece, token⟩ := head
    rw [consumed_cons, Cursor.advance_append, locate, List.cons_append]
    refine List.isChain_cons.mpr ⟨fun next member => ?_, ih _⟩
    have start := head_locate (cursor.advance piece) pieces
    rw [Option.mem_def.mp member] at start
    exact congrArg Cursor.offset (Option.some.inj start)

theorem filled_locate (filled : ∀ piece token, (piece, token) ∈ pieces → piece ≠ [])
    (member : l ∈ locate cursor pieces) : l.start.offset < l.stop := by
  obtain ⟨front, piece, token, back, rfl, rfl⟩ := mem_locate member
  have size := bytes_pos (filled piece token (List.mem_append_right _ List.mem_cons_self))
  simp only [Cursor.offset_advance]
  omega

/-- Behind some characters of a text the places are slices of that text. -/
theorem slices_locate (before : List Char) (whole : cs = before ++ consumed pieces) :
    List.Forall₂ (fun l piece => l.Slice cursor cs piece)
      (locate (cursor.advance before) pieces ++ [finishAt (cursor.advance cs)])
      (pieces.map Prod.fst ++ [[]]) := by
  induction pieces generalizing before with
  | nil =>
    refine .cons ⟨cs, [], by simp, ?_, rfl⟩ .nil
    exact Cursor.offset_advance cursor cs
  | cons head pieces ih =>
    obtain ⟨piece, token⟩ := head
    rw [consumed_cons, ← List.append_assoc] at whole
    refine .cons ⟨before, consumed pieces, whole, ?_, ?_⟩ ?_
    · exact Cursor.offset_advance cursor before
    · exact Cursor.offset_advance _ piece
    · rw [← Cursor.advance_append]
      exact ih _ whole

theorem places_locate (member : l ∈ locate cursor pieces) :
    ∃ before, before <+: consumed pieces ∧ cursor.Behind before l.start := by
  obtain ⟨front, piece, token, back, rfl, rfl⟩ := mem_locate member
  refine ⟨consumed front, ?_, Cursor.behind_advance cursor _⟩
  rw [consumed_append]
  exact List.prefix_append _ _

theorem tiling_of_munches (munches : Munches cs pieces []) (cursor : Cursor) :
    Tiling cursor cs (locate cursor pieces ++ [finishAt (cursor.advance cs)])
      (cursor.advance cs) := by
  have whole := munches.whole
  have named {l : Located} (member : l ∈ locate cursor pieces) : l.token ≠ .finish := by
    obtain ⟨front, piece, token, back, rfl, rfl⟩ := mem_locate member
    exact (munches.isLexeme (List.mem_append_right _ List.mem_cons_self)).ne_finish
  exact {
    first := whole ▸ head_locate cursor pieces
    chained := whole ▸ chained_locate cursor pieces
    filled := fun l member shown => by
      rcases List.mem_append.mp member with inside | last
      · exact filled_locate (fun _ _ piece => (munches.isLexeme piece).ne_nil) inside
      · obtain rfl := List.mem_singleton.mp last
        exact absurd rfl shown
    finish := ⟨_, rfl, fun _ => named⟩
    final := Cursor.behind_advance cursor cs
    slices := by
      refine ⟨pieces.map Prod.fst ++ [[]], ?_, slices_locate [] whole⟩
      rw [whole, List.flatten_append, consumed, List.flatMap_def]
      exact List.append_nil _
    places := fun l member => by
      rcases List.mem_append.mp member with inside | last
      · rw [whole]
        exact places_locate inside
      · obtain rfl := List.mem_singleton.mp last
        exact ⟨cs, List.prefix_refl cs, Cursor.behind_advance cursor cs⟩ }

/-- Scanning reaches the place behind the lexemes that it takes. -/
theorem place_scan {rest : List Char} (munches : Munches cs pieces rest) (stuck : Stuck rest) :
    (scan cursor cs).2 = cursor.advance (consumed pieces) :=
  congrArg Prod.snd (scan_of_munches munches stuck cursor)

/-! ### Scanning on -/

def Located.shift (base : Cursor) (l : Located) : Located :=
  ⟨l.token, base.shift l.start, base.offset + l.stop⟩

def Stretch.shift (base : Cursor) (s : Stretch) : Stretch :=
  let place := base.shift ⟨s.start, s.line, s.column⟩
  ⟨place.offset, base.offset + s.stop, place.line, place.column⟩

def ScanError.shift (base : Cursor) (error : ScanError) : ScanError :=
  { error with stretch := error.stretch.shift base }

theorem locate_shift (base : Cursor) (before : List Char) (pieces : List (List Char × Token)) :
    locate (base.advance before) pieces =
      (locate (Cursor.start.advance before) pieces).map (Located.shift base) := by
  induction pieces generalizing before with
  | nil => rfl
  | cons head pieces ih =>
    obtain ⟨piece, token⟩ := head
    simp only [locate, ← Cursor.advance_append, ih, List.map_cons, Located.shift]
    rw [← Cursor.advance_eq_shift, Cursor.advance_eq_shift base (before ++ piece)]
    rfl

/-- The result of a scan, with all places shifted. -/
def shifted (base : Cursor) (result : Except ScanError (List Located) × Cursor) :
    Except ScanError (List Located) × Cursor :=
  ((result.1.map (List.map (Located.shift base))).mapError (ScanError.shift base),
    base.shift result.2)

theorem report_shift (base : Cursor) (pieces : List (List Char × Token)) (rest : List Char) :
    report base pieces rest = shifted base (report .start pieces rest) := by
  have located := locate_shift base [] pieces
  have place := Cursor.advance_eq_shift base (consumed pieces)
  simp only [Cursor.advance, List.foldl_nil] at located
  by_cases ended : rest = []
  · simp only [report, shifted, ended, if_true, located, place, Except.map, Except.mapError,
      List.map_append]
    rfl
  · simp only [report, shifted, ended, if_false, place]
    rfl

/-- Scanning from a place is scanning from the beginning, shifted by that place. -/
theorem scan_shift (base : Cursor) (cs : List Char) :
    scan base cs = shifted base (scan .start cs) := by
  obtain ⟨pieces, rest, munches, stuck⟩ := exists_munches cs
  rw [scan_of_munches munches stuck, scan_of_munches munches stuck, report_shift]

/-- The tokens of a text tile it; where no token can be read scanning halts; and from the
place that was reached the next text is scanned as from the beginning, shifted. -/
theorem scan_tiles (cursor : Cursor) (cs : List Char) :
    (∀ located, (scan cursor cs).1 = .ok located →
      Tiling cursor cs located (scan cursor cs).2) ∧
    (∀ error, (scan cursor cs).1 = .error error → Halts cursor cs error (scan cursor cs).2) ∧
    ∀ more, scan (scan cursor cs).2 more = shifted (scan cursor cs).2 (scan .start more) := by
  refine ⟨fun located scanned => ?_, fun error scanned => ?_, fun more => scan_shift _ more⟩
  · obtain ⟨pieces, munches, rfl⟩ := scan_eq_ok_iff.mp scanned
    rw [place_scan munches stuck_nil, ← munches.whole]
    exact tiling_of_munches munches cursor
  · obtain ⟨pieces, rest, munches, more, stuck, rfl⟩ := scan_eq_error_iff.mp scanned
    rw [place_scan munches stuck]
    exact ⟨⟨pieces, rest, munches, more, stuck, Cursor.behind_advance cursor _⟩, rfl⟩

end Tripwire
