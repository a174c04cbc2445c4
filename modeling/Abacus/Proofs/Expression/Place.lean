import Abacus.Proofs.Expression.Meaning

/-!
# Place — where the characters and the tokens of an expression stand

White space is dropped before an expression is cut into tokens, but a mark remembers the byte offset
of its character.  So a place in the list of marks is a place in the text as it was given
(`exists_of_marks_eq_append`), and the position of a lexeme is the one of its first character
(`tokenAt_of_lexemes_eq_ok`).
-/

namespace Abacus.Expression

/-! ## Characters -/

/-- The character that is not white space and has so many of its kind before it, and its byte
offset in the text. -/
def StandsAt (text : String) (index : Nat) (c : Char) (position : Nat) : Prop :=
  ∃ before after : String, text = before ++ String.singleton c ++ after ∧
    Text.isBlank c = false ∧ (written before).length = index ∧ before.utf8ByteSize = position

theorem written_append (first second : String) :
    written (first ++ second) = written first ++ written second := by
  rw [written, String.toList_append, List.filter_append]
  rfl

theorem written_singleton {c : Char} (h : Text.isBlank c = false) :
    written (String.singleton c) = [c] := by
  rw [written, String.toList_singleton, List.filter_singleton, h]
  rfl

/-- The mark of a character that is kept, and what stands before that character. -/
theorem exists_of_filter_marksFrom {start : Nat} {text : List Char} {earlier later : List Mark}
    {mark : Mark}
    (h : ((marksFrom start text).filter fun mark => !Text.isBlank mark.char) =
      earlier ++ mark :: later) :
    ∃ before after, text = before ++ mark.char :: after ∧ Text.isBlank mark.char = false ∧
      (before.filter fun c => !Text.isBlank c) = earlier.map Mark.char ∧
        mark.position = start + (String.ofList before).utf8ByteSize := by
  induction text generalizing start earlier with
  | nil => exact absurd h (by simp [marksFrom])
  | cons c rest ih =>
      rw [marksFrom] at h
      have hsize (before : List Char) : start + (String.ofList (c :: before)).utf8ByteSize =
          start + c.utf8Size + (String.ofList before).utf8ByteSize := by
        rw [String.ofList_cons, String.utf8ByteSize_append, String.utf8ByteSize_singleton,
          Nat.add_assoc]
      cases hblank : Text.isBlank c with
      | true =>
          rw [List.filter_cons_of_neg (by simp [hblank])] at h
          obtain ⟨before, after, rfl, hkept, hearlier, hposition⟩ := ih h
          refine ⟨c :: before, after, rfl, hkept, ?_, ?_⟩
          · rw [List.filter_cons_of_neg (by simp [hblank]), hearlier]
          · rw [hsize, hposition]
      | false =>
          rw [List.filter_cons_of_pos (by simp [hblank])] at h
          cases earlier with
          | nil =>
              obtain ⟨rfl, -⟩ := List.cons.inj h
              exact ⟨[], rest, rfl, hblank, rfl, rfl⟩
          | cons first earlier =>
              obtain ⟨rfl, hrest⟩ := List.cons.inj h
              obtain ⟨before, after, rfl, hkept, hearlier, hposition⟩ := ih hrest
              refine ⟨c :: before, after, rfl, hkept, ?_, ?_⟩
              · rw [List.filter_cons_of_pos (by simp [hblank]), hearlier, List.map_cons]
              · rw [hsize, hposition]

/-- **A place among the marks is a place in the text**: the marks before it are what is written
before it, and its position is how many bytes the text has before it. -/
theorem exists_of_marks_eq_append {text : String} {earlier later : List Mark} {mark : Mark}
    (h : marks text = earlier ++ mark :: later) :
    ∃ before after : String, text = before ++ String.singleton mark.char ++ after ∧
      Text.isBlank mark.char = false ∧ written before = earlier.map Mark.char ∧
        written after = later.map Mark.char ∧ before.utf8ByteSize = mark.position := by
  obtain ⟨before, after, htext, hkept, hearlier, hposition⟩ := exists_of_filter_marksFrom h
  have hsplit : text = String.ofList before ++ String.singleton mark.char ++ String.ofList after := by
    rw [← String.toList_inj]
    simp [htext]
  have hbefore : written (String.ofList before) = earlier.map Mark.char := by
    rw [written, String.toList_ofList, hearlier]
  refine ⟨String.ofList before, String.ofList after, hsplit, hkept, hbefore, ?_, ?_⟩
  · -- what is written before the mark is known, so the rest of the marks is what is written after it
    have hwritten : (marks text).map Mark.char = written text := map_char_marks text
    rw [h, hsplit, written_append, written_append, hbefore, written_singleton hkept, List.map_append,
      List.map_cons, List.append_assoc] at hwritten
    exact (List.cons.inj (List.append_cancel_left hwritten)).2.symm
  · rw [hposition, Nat.zero_add]

/-- A mark stands where its position says. -/
theorem standsAt_of_marks {text : String} {earlier later : List Mark} {mark : Mark}
    (h : marks text = earlier ++ mark :: later) :
    StandsAt text earlier.length mark.char mark.position := by
  obtain ⟨before, after, htext, hkept, hbefore, -, hposition⟩ := exists_of_marks_eq_append h
  refine ⟨before, after, htext, hkept, ?_, hposition⟩
  rw [hbefore, List.length_map]

/-! ## Tokens -/

/-- The characters of tokens, one after the other. -/
def spelled (tokens : List Token) : List Char :=
  tokens.flatMap Token.spelling

/-- After just the earlier tokens the text goes on with the token, at the given byte offset. -/
def TokenAt (text : String) (earlier : List Token) (token : Token) (position : Nat) : Prop :=
  ∃ (before after : String) (c : Char), text = before ++ String.singleton c ++ after ∧
    Text.isBlank c = false ∧ written before = spelled earlier ∧
      token.spelling <+: written (String.singleton c ++ after) ∧ before.utf8ByteSize = position

/-- A token of its own is spelled by its character. -/
theorem Token.spelling_of_ofChar? {c : Char} {token : Token} (h : Token.ofChar? c = some token) :
    token.spelling = [c] := by
  rw [Token.ofChar?] at h
  split at h
  · next hopening =>
      obtain rfl := Option.some.inj h
      rw [eq_of_beq hopening, Token.spelling]
  · split at h
    · next hclosing =>
        obtain rfl := Option.some.inj h
        rw [eq_of_beq hclosing, Token.spelling]
    · obtain ⟨op, hop, rfl⟩ := Option.map_eq_some_iff.mp h
      rw [← Operator.ofChar?_eq_some_iff.mp hop, Token.spelling]

/-- The first lexeme is spelled by the first marks and has the position of the first of them; the
other marks are cut into the other lexemes. -/
theorem exists_of_lexemes_eq_cons {marks : List Mark} {lexeme : Lexeme} {later : List Lexeme}
    (h : lexemes marks = .ok (lexeme :: later)) :
    ∃ mark more rest, marks = mark :: more ++ rest ∧ mark.position = lexeme.position ∧
      (mark :: more).map Mark.char = lexeme.token.spelling ∧ lexemes rest = .ok later := by
  cases marks with
  | nil =>
      rw [lexemes] at h
      cases h
  | cons mark marks =>
      rw [lexemes] at h
      split at h
      · dsimp only at h
        split at h
        · obtain ⟨found, hfound, heq⟩ := bind_eq_ok_iff.mp h
          obtain ⟨rfl, rfl⟩ := List.cons.inj (Except.ok.inj heq)
          refine ⟨mark, marks.takeWhile fun next => isNumeric next.char,
            marks.dropWhile fun next => isNumeric next.char, ?_, rfl, rfl, hfound⟩
          rw [List.cons_append, List.takeWhile_append_dropWhile]
        · cases h
      · split at h
        · cases h
        · next token htoken =>
            split at h
            · cases h
            · obtain ⟨found, hfound, heq⟩ := bind_eq_ok_iff.mp h
              obtain ⟨rfl, rfl⟩ := List.cons.inj (Except.ok.inj heq)
              exact ⟨mark, [], marks, rfl, rfl, (Token.spelling_of_ofChar? htoken).symm, hfound⟩

/-- A place among the lexemes is a place among the marks. -/
theorem exists_marks_of_lexemes {marks : List Mark} {earlier later : List Lexeme} {lexeme : Lexeme}
    (h : lexemes marks = .ok (earlier ++ lexeme :: later)) :
    ∃ before mark after, marks = before ++ mark :: after ∧ mark.position = lexeme.position ∧
      before.map Mark.char = spelled (earlier.map Lexeme.token) ∧
        lexeme.token.spelling <+: (mark :: after).map Mark.char := by
  induction earlier generalizing marks with
  | nil =>
      obtain ⟨mark, more, rest, rfl, hposition, hspelling, -⟩ := exists_of_lexemes_eq_cons h
      refine ⟨[], mark, more ++ rest, rfl, hposition, rfl, rest.map Mark.char, ?_⟩
      rw [← hspelling, ← List.map_append]
      rfl
  | cons first earlier ih =>
      obtain ⟨mark, more, rest, rfl, -, hspelling, hrest⟩ := exists_of_lexemes_eq_cons h
      obtain ⟨before, found, after, rfl, hposition, hbefore, hprefix⟩ := ih hrest
      refine ⟨mark :: more ++ before, found, after, by simp, hposition, ?_, hprefix⟩
      rw [List.map_append, hspelling, hbefore]
      rfl

/-- **The position of a lexeme is the byte offset of its token in the text.** -/
theorem tokenAt_of_lexemes_eq_ok {text : String} {earlier later : List Lexeme} {lexeme : Lexeme}
    (h : lexemes (marks text) = .ok (earlier ++ lexeme :: later)) :
    TokenAt text (earlier.map Lexeme.token) lexeme.token lexeme.position := by
  obtain ⟨marksBefore, mark, marksAfter, hmarks, hposition, hspelled, hprefix⟩ :=
    exists_marks_of_lexemes h
  obtain ⟨before, after, htext, hkept, hbefore, hafter, hsize⟩ := exists_of_marks_eq_append hmarks
  refine ⟨before, after, mark.char, htext, hkept, hbefore.trans hspelled, ?_, hsize.trans hposition⟩
  rw [written_append, written_singleton hkept, hafter]
  exact hprefix

end Abacus.Expression
