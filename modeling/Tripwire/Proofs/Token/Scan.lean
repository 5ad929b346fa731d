import Tripwire.Token.Scan

/-!
Scanning a text piece by piece, when it is known which token stands at the front
of each.
-/

namespace Tripwire

def visible (located : List Located) : List Token :=
  (located.filter fun l => !l.token.isBlank).map (·.token)

theorem visible_append (first second : List Located) :
    visible (first ++ second) = visible first ++ visible second := by
  simp only [visible, List.filter_append, List.map_append]

/-- Before some rest, characters are scanned to tokens, the blank ones left out. -/
def Scans (cs : List Char) (tokens : List Token) (rest : List Char) : Prop :=
  ∀ cursor, ∃ (located : List Located) (next : Cursor),
    (scan cursor (cs ++ rest)).1 = (scan next rest).1.map (located ++ ·) ∧
      visible located = tokens

variable {cs rest : List Char} {token : Token} {tokens : List Token}

theorem scan_nil (cursor : Cursor) :
    (scan cursor []).1 = .ok [⟨.finish, cursor, cursor.offset⟩] := by
  rw [scan, if_pos rfl]

/-- Behind the token at the front scanning goes on. -/
theorem scan_append (cursor : Cursor) (filled : cs ≠ [])
    (found : Lexeme.lex? (cs ++ rest) = some (token, cs.length)) :
    scan cursor (cs ++ rest) =
      ((scan (cursor.advance cs) rest).1.map
          (⟨token, cursor, (cursor.advance cs).offset⟩ :: ·),
        (scan (cursor.advance cs) rest).2) := by
  have some : cs ++ rest ≠ [] := List.append_ne_nil_of_left_ne_nil filled rest
  rw [scan, if_neg some]
  split
  next refused => rw [refused] at found; cases found
  next other width taken =>
    rw [taken] at found
    cases found
    rw [List.take_left, List.drop_left]

theorem scan_of_lex? (cursor : Cursor) (filled : cs ≠ [])
    (found : Lexeme.lex? (cs ++ rest) = some (token, cs.length)) :
    ∃ next : Cursor, (scan cursor (cs ++ rest)).1 =
      (scan next rest).1.map ([⟨token, cursor, next.offset⟩] ++ ·) :=
  ⟨cursor.advance cs, congrArg Prod.fst (scan_append cursor filled found)⟩

theorem scans_token (filled : cs ≠ [])
    (found : Lexeme.lex? (cs ++ rest) = some (token, cs.length))
    (shown : token.isBlank = false) : Scans cs [token] rest := by
  intro cursor
  obtain ⟨next, scanned⟩ := scan_of_lex? cursor filled found
  exact ⟨_, next, scanned, by simp [visible, shown]⟩

theorem scans_blank {text : String} (filled : cs ≠ [])
    (found : Lexeme.lex? (cs ++ rest) = some (.blank text, cs.length)) : Scans cs [] rest := by
  intro cursor
  obtain ⟨next, scanned⟩ := scan_of_lex? cursor filled found
  exact ⟨_, next, scanned, rfl⟩

theorem Scans.append {first second : List Char} {one other : List Token}
    (before : Scans first one (second ++ rest)) (after : Scans second other rest) :
    Scans (first ++ second) (one ++ other) rest := by
  intro cursor
  obtain ⟨front, middle, frontScanned, frontVisible⟩ := before cursor
  obtain ⟨back, next, backScanned, backVisible⟩ := after middle
  refine ⟨front ++ back, next, ?_, ?_⟩
  · rw [List.append_assoc, frontScanned, backScanned]
    cases (scan next rest).1 with
    | error cause => rfl
    | ok located => simp only [Except.map, List.append_assoc]
  · rw [visible_append, frontVisible, backVisible]

theorem Scans.cons {first second : List Char} (before : Scans first [token] (second ++ rest))
    (after : Scans second tokens rest) : Scans (first ++ second) (token :: tokens) rest :=
  before.append after

theorem Scans.skip {first second : List Char} (before : Scans first [] (second ++ rest))
    (after : Scans second tokens rest) : Scans (first ++ second) tokens rest :=
  before.append after

/-- A whole text is scanned to its tokens and the end of the input. -/
theorem Scans.whole (scans : Scans cs tokens []) :
    ∃ located, (scan .start cs).1 = .ok located ∧ visible located = tokens ++ [.finish] := by
  obtain ⟨located, next, scanned, shown⟩ := scans .start
  rw [List.append_nil, scan_nil] at scanned
  refine ⟨_, scanned, ?_⟩
  rw [visible_append, shown]
  rfl

end Tripwire
