import Abacus.Proofs.Json.Grammar

/-!
# Numerals — a numeral is read as far as it goes

Each part of a numeral is read when what follows cannot belong to it: digits when no digit
follows, and the parts that may be absent when the character that begins them does not follow.
-/

namespace Abacus.Json

/-- The text does not begin with a character that could go on with a numeral. -/
def EndsNumeral (rest : List Char) : Prop :=
  ∀ c ∈ rest.head?, c.isDigit = false ∧ c ≠ '.' ∧ c ≠ 'e' ∧ c ≠ 'E'

/-! ## Parts -/

theorem AreDigits.exists_cons {text : List Char} (h : AreDigits text) :
    ∃ c rest, text = c :: rest ∧ c.isDigit = true := by
  obtain ⟨c, rest, rfl⟩ := List.exists_cons_of_ne_nil h.1
  exact ⟨c, rest, rfl, h.2 c List.mem_cons_self⟩

/-- Digits are read up to the first character that is none. -/
theorem AreDigits.read {digits rest : List Char} (h : AreDigits digits)
    (hrest : ∀ c ∈ rest.head?, c.isDigit = false) :
    Numeral.readDigits (digits ++ rest) = some (digits, rest) := by
  have hnone : rest.takeWhile Char.isDigit = [] ∧ rest.dropWhile Char.isDigit = rest := by
    cases rest with
    | nil => exact ⟨rfl, rfl⟩
    | cons c rest =>
        have hc : ¬ c.isDigit = true := by simp [hrest c rfl]
        exact ⟨List.takeWhile_cons_of_neg hc, List.dropWhile_cons_of_neg hc⟩
  rw [Numeral.readDigits, List.takeWhile_append_of_pos h.2, List.dropWhile_append_of_pos h.2,
    hnone.1, hnone.2, List.append_nil]
  exact if_neg (by simpa using h.1)

/-- The digits before the point are read. -/
theorem AreWhole.read {digits rest : List Char} (h : AreWhole digits)
    (hrest : ∀ c ∈ rest.head?, c.isDigit = false) :
    Numeral.readWhole (digits ++ rest) = some (digits, rest) := by
  rw [Numeral.readWhole, h.1.read hrest]
  dsimp only [Option.bind_eq_bind, Option.bind_some]
  split
  · -- two digits that begin with a zero
    exact nomatch h.2 rfl
  · rfl

/-- A fraction is read, or its absence. -/
theorem IsFraction.read {text rest : List Char} {fraction : Option (List Char)}
    (h : IsFraction text fraction) (hdigit : ∀ c ∈ rest.head?, c.isDigit = false)
    (hpoint : ∀ c ∈ rest.head?, c ≠ '.') :
    Numeral.readFraction (text ++ rest) = some (fraction, rest) := by
  cases h with
  | absent =>
      show Numeral.readFraction rest = _
      rw [Numeral.readFraction.eq_def]
      split
      · exact absurd rfl (hpoint '.' rfl)
      · rfl
  | digits hdigits =>
      rw [List.cons_append, Numeral.readFraction, hdigits.read hdigit]
      rfl

/-- An exponent is read, or its absence. -/
theorem IsExponent.read {text rest : List Char} {exponent : Option (Bool × List Char)}
    (h : IsExponent text exponent) (hrest : EndsNumeral rest) :
    Numeral.readExponent (text ++ rest) = some (exponent, rest) := by
  have hdigit : ∀ c ∈ rest.head?, c.isDigit = false := fun c hc => (hrest c hc).1
  cases h with
  | absent =>
      cases rest with
      | nil => rfl
      | cons c rest =>
          obtain ⟨-, -, hsmall, hcapital⟩ := hrest c rfl
          rw [List.nil_append, Numeral.readExponent.eq_def]
          exact if_neg (by simp [hsmall, hcapital])
  | @digits mark sign digits below hmark hsign hdigits =>
      have hmark : (mark == 'e' || mark == 'E') = true := by
        rcases hmark with rfl | rfl
        · decide
        · decide
      rw [List.cons_append, List.append_assoc, Numeral.readExponent.eq_def]
      dsimp only
      rw [if_pos hmark]
      cases hsign with
      | absent =>
          obtain ⟨c, tail, rfl, hc⟩ := hdigits.exists_cons
          have hminus : c ≠ '-' := by
            rintro rfl
            exact absurd hc (by decide)
          have hplus : c ≠ '+' := by
            rintro rfl
            exact absurd hc (by decide)
          rw [List.nil_append]
          split
          · next heq => exact absurd (List.cons.inj heq).1 hminus
          · next heq => exact absurd (List.cons.inj heq).1 hplus
          · rw [hdigits.read hdigit]
            rfl
      | plus =>
          show (Numeral.readDigits (digits ++ rest) >>= _) = _
          rw [hdigits.read hdigit]
          rfl
      | minus =>
          show (Numeral.readDigits (digits ++ rest) >>= _) = _
          rw [hdigits.read hdigit]
          rfl

/-! ## Numerals -/

/-- What follows the digits before the point is no digit. -/
theorem IsFraction.head?_not_digit {text rest : List Char} {fraction : Option (List Char)}
    (h : IsFraction text fraction) (hrest : ∀ c ∈ rest.head?, c.isDigit = false) :
    ∀ c ∈ (text ++ rest).head?, c.isDigit = false := by
  cases h with
  | absent => exact hrest
  | digits _ =>
      rintro c hc
      obtain rfl := Option.some.inj hc
      decide

/-- What follows a fraction is neither a digit nor a point. -/
theorem IsExponent.head? {text rest : List Char} {exponent : Option (Bool × List Char)}
    (h : IsExponent text exponent) (hrest : EndsNumeral rest) :
    ∀ c ∈ (text ++ rest).head?, c.isDigit = false ∧ c ≠ '.' := by
  cases h with
  | absent => exact fun c hc => ⟨(hrest c hc).1, (hrest c hc).2.1⟩
  | digits hmark _ _ =>
      rintro c hc
      obtain rfl := Option.some.inj hc
      rcases hmark with rfl | rfl
      · decide
      · decide

/-- A numeral begins with a digit or a minus. -/
theorem IsNumeral.exists_cons {text : List Char} {numeral : Numeral} (h : IsNumeral text numeral) :
    ∃ c rest, text = c :: rest ∧ (c.isDigit = true ∨ c = '-') := by
  cases h with
  | mk hminus hwhole _ _ =>
      cases hminus with
      | absent =>
          obtain ⟨c, rest, rfl, hc⟩ := hwhole.1.exists_cons
          exact ⟨c, _, rfl, Or.inl hc⟩
      | present => exact ⟨'-', _, rfl, Or.inr rfl⟩

/-- **A numeral is read**, if what follows cannot go on with it. -/
theorem IsNumeral.read {text rest : List Char} {numeral : Numeral} (h : IsNumeral text numeral)
    (hrest : EndsNumeral rest) : Numeral.read (text ++ rest) = some (numeral, rest) := by
  cases h with
  | @mk minus whole fractionText exponentText negative fraction exponent hminus hwhole hfraction
      hexponent =>
      have hafter := hexponent.head? hrest
      have hdigit : ∀ c ∈ (exponentText ++ rest).head?, c.isDigit = false :=
        fun c hc => (hafter c hc).1
      have hpoint : ∀ c ∈ (exponentText ++ rest).head?, c ≠ '.' := fun c hc => (hafter c hc).2
      have hwhole' := hwhole.read (hfraction.head?_not_digit hdigit)
      have hfraction' := hfraction.read hdigit hpoint
      have hexponent' := hexponent.read hrest
      rw [List.append_assoc, List.append_assoc, List.append_assoc, Numeral.read.eq_def]
      cases hminus with
      | present =>
          simp only [List.cons_append, List.nil_append, Option.bind_eq_bind, hwhole',
            Option.bind_some, hfraction', hexponent']
          rfl
      | absent =>
          obtain ⟨c, tail, hcons, hc⟩ := hwhole.1.exists_cons
          have hminus : c ≠ '-' := by
            rintro rfl
            exact absurd hc (by decide)
          rw [List.nil_append]
          split
          next hsign =>
          split at hsign
          · next heq =>
            rw [hcons] at heq
            exact absurd (List.cons.inj heq).1 hminus
          · obtain ⟨rfl, rfl⟩ := Prod.mk.inj hsign
            dsimp only [Option.bind_eq_bind]
            rw [hwhole', Option.bind_some, hfraction', Option.bind_some, hexponent']
            rfl

end Abacus.Json
