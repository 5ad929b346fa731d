import Mathlib.Data.List.DropRight
import Tripwire.Token.Scan

/-!
Places in a text.

The place behind some characters counts their bytes, their newlines and what stands
behind the last newline (`behind_advance`).  Scanning on from a place gives the
places of scanning from the beginning, shifted by that place (`advance_eq_shift`).
-/

namespace Tripwire

/-- The length of some characters in bytes. -/
def bytes (cs : List Char) : Nat := (String.ofList cs).utf8ByteSize

@[simp] theorem bytes_append (cs ds : List Char) : bytes (cs ++ ds) = bytes cs + bytes ds := by
  rw [bytes, String.ofList_append, String.utf8ByteSize_append, bytes, bytes]

theorem bytes_singleton (c : Char) : bytes [c] = c.utf8Size := by
  rw [bytes, String.ofList_cons, String.utf8ByteSize_append, String.utf8ByteSize_singleton]
  rfl

theorem bytes_pos {cs : List Char} (filled : cs ≠ []) : 0 < bytes cs := by
  obtain ⟨c, rest, rfl⟩ := List.exists_cons_of_ne_nil filled
  have first := c.utf8Size_pos
  rw [← List.singleton_append, bytes_append, bytes_singleton]
  omega

/-- The bytes at the front of a text tell the characters at its front. -/
theorem eq_of_bytes {first second cs ds : List Char} (same : first ++ cs = second ++ ds)
    (length : bytes first = bytes second) : first = second ∧ cs = ds := by
  have equal {first second rest : List Char} (length : bytes first = bytes second)
      (glued : second = first ++ rest) : rest = [] := by
    rw [glued, bytes_append] at length
    cases rest with
    | nil => rfl
    | cons c rest =>
      have more := bytes_pos (List.cons_ne_nil c rest)
      omega
  rcases List.append_eq_append_iff.mp same with ⟨rest, glued, tail⟩ | ⟨rest, glued, tail⟩
  · obtain rfl := equal length glued
    exact ⟨by rw [glued, List.append_nil], tail⟩
  · obtain rfl := equal length.symm glued
    exact ⟨by rw [glued, List.append_nil], tail.symm⟩

namespace Cursor

variable {cursor place base : Cursor} {cs ds : List Char}

/-- A place stands behind some characters that begin at a cursor. -/
structure Behind (cursor : Cursor) (cs : List Char) (place : Cursor) : Prop where
  offset : place.offset = cursor.offset + bytes cs
  line : place.line = cursor.line + cs.count '\n'
  /-- On a later line columns count from the last newline. -/
  column_of_newline : '\n' ∈ cs → place.column = (cs.rtakeWhile (· ≠ '\n')).length + 1
  column_of_noNewline : '\n' ∉ cs → place.column = cursor.column + cs.length

theorem Behind.unique {other : Cursor} (behind : cursor.Behind cs place)
    (otherBehind : cursor.Behind cs other) : place = other := by
  have offset : place.offset = other.offset := behind.offset.trans otherBehind.offset.symm
  have line : place.line = other.line := behind.line.trans otherBehind.line.symm
  have column : place.column = other.column := by
    by_cases newline : '\n' ∈ cs
    · rw [behind.column_of_newline newline, otherBehind.column_of_newline newline]
    · rw [behind.column_of_noNewline newline, otherBehind.column_of_noNewline newline]
  cases place
  cases other
  simp only at offset line column
  rw [offset, line, column]

theorem behind_nil (cursor : Cursor) : cursor.Behind [] cursor :=
  ⟨rfl, rfl, nofun, fun _ => rfl⟩

theorem Behind.step (behind : cursor.Behind cs place) (c : Char) :
    cursor.Behind (cs ++ [c]) (place.step c) := by
  by_cases newline : c = '\n'
  · subst newline
    exact {
      offset := by
        rw [Cursor.step, if_pos rfl, bytes_append, bytes_singleton, behind.offset, Nat.add_assoc]
      line := by
        rw [Cursor.step, if_pos rfl, List.count_append, List.count_singleton_self, behind.line,
          Nat.add_assoc]
      column_of_newline := fun _ => by
        rw [Cursor.step, if_pos rfl, List.rtakeWhile_concat_neg _ _ _ (by simp)]
        rfl
      column_of_noNewline := fun none => absurd (List.mem_append_right cs List.mem_cons_self) none }
  · have apart : [c].count '\n' = 0 := by simp [newline]
    exact {
      offset := by
        rw [Cursor.step, if_neg newline, bytes_append, bytes_singleton, behind.offset,
          Nat.add_assoc]
      line := by rw [Cursor.step, if_neg newline, List.count_append, apart, behind.line]; rfl
      column_of_newline := fun member => by
        have before : '\n' ∈ cs := by
          rcases List.mem_append.mp member with before | last
          · exact before
          · exact absurd (List.mem_singleton.mp last).symm newline
        rw [Cursor.step, if_neg newline, List.rtakeWhile_concat_pos _ _ _ (by simp [newline]),
          List.length_append, List.length_singleton, ← behind.column_of_newline before]
      column_of_noNewline := fun none => by
        have before : '\n' ∉ cs := fun member => none (List.mem_append_left _ member)
        rw [Cursor.step, if_neg newline, List.length_append,
          behind.column_of_noNewline before]
        rfl }

theorem behind_advance (cursor : Cursor) (cs : List Char) : cursor.Behind cs (cursor.advance cs) := by
  induction cs using List.reverseRecOn with
  | nil => exact behind_nil cursor
  | append_singleton cs c ih =>
    rw [advance_append]
    exact ih.step c

theorem offset_advance (cursor : Cursor) (cs : List Char) :
    (cursor.advance cs).offset = cursor.offset + bytes cs :=
  (behind_advance cursor cs).offset

/-- The place that stands to a base as a cursor stands to the beginning. -/
def shift (base cursor : Cursor) : Cursor where
  offset := base.offset + cursor.offset
  line := base.line + (cursor.line - 1)
  column := if cursor.line = 1 then base.column + (cursor.column - 1) else cursor.column

theorem Behind.shift (behind : start.Behind cs place) (base : Cursor) :
    base.Behind cs (base.shift place) where
  offset := by simp only [Cursor.shift, behind.offset, start, Nat.zero_add]
  line := by simp only [Cursor.shift, behind.line, start, Nat.add_sub_cancel_left]
  column_of_newline newline := by
    have later : place.line ≠ 1 := by
      have lines := List.count_pos_iff.mpr newline
      rw [behind.line]
      show 1 + cs.count '\n' ≠ 1
      omega
    simp only [Cursor.shift, later, if_false, behind.column_of_newline newline]
  column_of_noNewline none := by
    have first : place.line = 1 := by
      rw [behind.line, List.count_eq_zero.mpr none]
      rfl
    simp only [Cursor.shift, first, if_true, behind.column_of_noNewline none, start,
      Nat.add_sub_cancel_left]

/-- To advance from a base is to advance from the beginning and to shift. -/
theorem advance_eq_shift (base : Cursor) (cs : List Char) :
    base.advance cs = base.shift (start.advance cs) :=
  (behind_advance base cs).unique ((behind_advance start cs).shift base)

end Cursor
end Tripwire
