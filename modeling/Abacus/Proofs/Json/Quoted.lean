import Abacus.Proofs.Json.Grammar

/-!
# Quoted text — what is spelled is read

Each way to spell a character is one piece or two, and they denote the character whatever comes
after them (`IsSpelling.read`).  The closing mark spells no character.  So the pieces up to the
closing mark are those of the text, and nothing that follows the mark is touched.  What is written
for a character is one of its spellings, so what is written is read back.
-/

namespace Abacus.Json.Quoted

open Text (hexDigit hexValue? hexValue?_hexDigit)

/-! ## One character -/

/-- Four digits that denote no half of a pair denote a character, whatever comes after them. -/
theorem join_unit {bits : Nat} (hhigh : isHighHalf bits = false) (hlow : isLowHalf bits = false)
    (later : List Piece) :
    join (.unit bits :: later) = (join later).map (Char.ofNat bits :: ·) := by
  rw [join.eq_def]
  split
  · next heq => exact nomatch heq
  · next heq => exact nomatch heq
  · next high low rest heq =>
    obtain ⟨hbits, rfl⟩ := List.cons.inj heq
    obtain rfl := Piece.unit.inj hbits
    simp [hhigh, hlow]
  · next bits rest hpair heq =>
    obtain ⟨hbits, rfl⟩ := List.cons.inj heq
    obtain rfl := Piece.unit.inj hbits
    simp [hhigh, hlow]

/-- A spelling is taken apart into pieces that denote the character, and the rest comes after
them. -/
theorem IsSpelling.read {spelling : List Char} {c : Char} (h : IsSpelling spelling c) :
    ∃ found : List Piece,
      (∀ {text rest : List Char} {later : List Piece}, pieces text = some (later, rest) →
        pieces (spelling ++ text) = some (found ++ later, rest)) ∧
      ∀ later, join (found ++ later) = (join later).map (c :: ·) := by
  cases h with
  | itself hquote hslash hcontrol =>
      refine ⟨[.char c], ?_, fun later => rfl⟩
      intro text rest later h
      rw [List.singleton_append, pieces]
      · rw [if_neg (by simp [hslash, hcontrol]), h]
        rfl
      · exact hquote
      · exact fun _ _ _ _ _ heq => absurd heq hslash
      · exact fun _ _ heq => absurd heq hslash
  | @letter letter _ hstands =>
      refine ⟨[.char c], ?_, fun later => rfl⟩
      intro text rest later h
      have hletter : letter ≠ 'u' := by
        rintro rfl
        exact nomatch hstands
      rw [List.cons_append, List.singleton_append, pieces]
      · rw [hstands, h]
        rfl
      · exact fun _ _ _ _ _ heq => absurd heq hletter
  | @unit _ _ _ _ bits hbits hhigh hlow =>
      refine ⟨[.unit bits], ?_, join_unit hhigh hlow⟩
      intro text rest later h
      simp only [List.cons_append, List.nil_append]
      rw [pieces, hbits, h]
      rfl
  | @pair _ _ _ _ _ _ _ _ high low hbits hhigh hbits' hlow =>
      refine ⟨[.unit high, .unit low], ?_, ?_⟩
      · intro text rest later h
        simp only [List.cons_append, List.nil_append]
        rw [pieces, hbits, pieces, hbits', h]
        rfl
      · intro later
        rw [List.cons_append, List.singleton_append, join, hhigh, hlow]
        rfl

/-- What is written for a character spells it. -/
theorem isSpelling_escape (c : Char) : IsSpelling (escape c) c := by
  have named (letter : Char) {d : Char} (hc : c = d) (hd : escaped? letter = some d)
      (hescape : escape d = ['\\', letter]) : IsSpelling (escape c) c := by
    rw [hc, hescape]
    exact .letter hd
  have numbered {n : Nat} (h : c.toNat = n) : c = Char.ofNat n := by
    rw [← h, Char.ofNat_toNat]
  by_cases hquote : c = '"'
  · exact named '"' hquote rfl (by decide)
  by_cases hslash : c = '\\'
  · exact named '\\' hslash rfl (by decide)
  by_cases hn : c = '\n'
  · exact named 'n' hn rfl (by decide)
  by_cases hr : c = '\r'
  · exact named 'r' hr rfl (by decide)
  by_cases ht : c = '\t'
  · exact named 't' ht rfl (by decide)
  by_cases hb : c.toNat = 8
  · exact named 'b' (numbered hb) rfl (by decide)
  by_cases hf : c.toNat = 12
  · exact named 'f' (numbered hf) rfl (by decide)
  by_cases hcontrol : c.toNat < 32
  · -- the two digits after the zeros are those of a number below thirty-two
    have hescape : escape c =
        ['\\', 'u', '0', '0', hexDigit (c.toNat / 16), hexDigit (c.toNat % 16)] := by
      simp [escape, hquote, hslash, hn, hr, ht, hb, hf, hcontrol]
    have hunit : hexUnit? '0' '0' (hexDigit (c.toNat / 16)) (hexDigit (c.toNat % 16)) =
        some c.toNat := by
      have hfirst : hexValue? (hexDigit (c.toNat / 16)) = some (c.toNat / 16) :=
        hexValue?_hexDigit (by omega)
      have hsecond : hexValue? (hexDigit (c.toNat % 16)) = some (c.toNat % 16) :=
        hexValue?_hexDigit (by omega)
      have hzero : hexValue? '0' = some 0 := by decide
      have hsum : ((0 * 16 + 0) * 16 + c.toNat / 16) * 16 + c.toNat % 16 = c.toNat := by omega
      rw [hexUnit?, hzero, hfirst, hsecond]
      exact congrArg some hsum
    have hhigh : isHighHalf c.toNat = false := by
      simp only [isHighHalf, Bool.and_eq_false_iff, decide_eq_false_iff_not]
      omega
    have hlow : isLowHalf c.toNat = false := by
      simp only [isLowHalf, Bool.and_eq_false_iff, decide_eq_false_iff_not]
      omega
    have hspelling := IsSpelling.unit hunit hhigh hlow
    rwa [Char.ofNat_toNat, ← hescape] at hspelling
  · have hescape : escape c = [c] := by
      simp [escape, hquote, hslash, hn, hr, ht, hb, hf, hcontrol]
    rw [hescape]
    exact .itself hquote hslash hcontrol

/-! ## A text -/

/-- A text that is spelled and closed is taken apart into pieces that denote it. -/
theorem IsSpelled.pieces {text chars : List Char} (h : IsSpelled text chars) (rest : List Char) :
    ∃ found, pieces (text ++ '"' :: rest) = some (found, rest) ∧ join found = some chars := by
  induction h with
  | nil => exact ⟨[], rfl, rfl⟩
  | @cons _ text c _ hspelling _ ih =>
      obtain ⟨later, hlater, hjoin⟩ := ih
      obtain ⟨found, hfound, hdenotes⟩ := hspelling.read
      refine ⟨found ++ later, ?_, ?_⟩
      · rw [List.append_assoc, hfound hlater]
      · rw [hdenotes, hjoin]
        rfl

/-- **A text that is spelled is read**, and what follows it is left. -/
theorem IsSpelled.read {text : List Char} {s : String} (h : IsSpelled text s.toList)
    (rest : List Char) : read (text ++ '"' :: rest) = some (some s, rest) := by
  obtain ⟨found, hfound, hjoin⟩ := h.pieces rest
  rw [Quoted.read, hfound]
  show some ((join found).map String.ofList, rest) = _
  rw [hjoin, Option.map_some, String.ofList_toList]

/-- What is written for some characters spells them. -/
theorem isSpelled_flatMap_escape (chars : List Char) : IsSpelled (chars.flatMap escape) chars := by
  induction chars with
  | nil => exact .nil
  | cons c chars ih => exact .cons (isSpelling_escape c) ih

/-- A text is written as a quoted one. -/
theorem isQuoted_write (text : String) : IsQuoted (write text) text :=
  ⟨_, isSpelled_flatMap_escape text.toList, rfl⟩

/-- **Reading gives back what is written**, and leaves what follows it. -/
theorem read_write (text : String) (rest : List Char) :
    read (text.toList.flatMap escape ++ '"' :: rest) = some (some text, rest) :=
  (isSpelled_flatMap_escape text.toList).read rest

/-- Two texts that are written alike, with more after them, are the same, and so is the rest. -/
theorem write_append_inj {first second : String} {rest rest' : List Char}
    (h : write first ++ rest = write second ++ rest') : first = second ∧ rest = rest' := by
  have hchars : first.toList.flatMap escape ++ '"' :: rest =
      second.toList.flatMap escape ++ '"' :: rest' := by
    simpa [write] using h
  have hread := congrArg read hchars
  rw [read_write, read_write] at hread
  obtain ⟨htext, hrest⟩ := Prod.mk.inj (Option.some.inj hread)
  exact ⟨Option.some.inj htext, hrest⟩

end Abacus.Json.Quoted
