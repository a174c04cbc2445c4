import Abacus.Decimal.Layout

/-!
# Layout — the characters of a number

However its digits are set out, the text of a finite number holds digits, signs, points and the
letter of an exponent, and nothing else.
-/

namespace Abacus.Decimal

/-- The character can stand in the text of a finite number. -/
def IsPart (c : Char) : Prop :=
  c.isDigit = true ∨ c ∈ ['+', '-', '.', 'e']

instance : DecidablePred IsPart :=
  fun _ => inferInstanceAs (Decidable (_ ∨ _))

/-- The characters all can stand in the text of a finite number. -/
def AreParts (text : List Char) : Prop :=
  ∀ c ∈ text, IsPart c

@[simp] theorem areParts_nil : AreParts [] :=
  fun _ h => nomatch h

@[simp] theorem areParts_cons_iff {c : Char} {text : List Char} :
    AreParts (c :: text) ↔ IsPart c ∧ AreParts text :=
  List.forall_mem_cons

@[simp] theorem areParts_append_iff {first second : List Char} :
    AreParts (first ++ second) ↔ AreParts first ∧ AreParts second :=
  List.forall_mem_append

@[simp] theorem areParts_numeral (n : Nat) : AreParts (numeral n) :=
  fun _ h => Or.inl (isDigit_of_mem_numeral h)

@[simp] theorem areParts_zeros (n : Nat) : AreParts (zeros n) := by
  intro c h
  rw [List.eq_of_mem_replicate h]
  exact Or.inl rfl

@[simp] theorem isPart_point : IsPart '.' := by
  simp [IsPart]

theorem areParts_signedNumeral (n : Int) : AreParts (signedNumeral n) := by
  rw [signedNumeral]
  split
  · simp [IsPart]
  · simp

/-- An integer is told by its numeral. -/
theorem signedNumeral_injective : Function.Injective signedNumeral := by
  have hminus (n : Nat) : '-' ∉ numeral n := fun h => absurd (isDigit_of_mem_numeral h) (by decide)
  have hnumeral {n m : Nat} (h : numeral n = numeral m) : n = m := by
    rw [← valueOf_numeral n, h, valueOf_numeral]
  intro n m h
  rw [signedNumeral, signedNumeral] at h
  split at h
  · split at h
    · have := hnumeral (List.cons.inj h).2
      omega
    · exact absurd (h ▸ List.mem_cons_self) (hminus m.natAbs)
  · split at h
    · exact absurd (h ▸ List.mem_cons_self) (hminus n.natAbs)
    · have := hnumeral h
      omega

theorem areParts_positional (d : Decimal) : AreParts d.positional := by
  have hdigits := areParts_numeral d.digits
  rw [positional]
  split
  · simp
  · dsimp only
    split
    · rw [areParts_append_iff, areParts_cons_iff]
      exact ⟨fun c h => hdigits c (List.mem_of_mem_take h), isPart_point,
        fun c h => hdigits c (List.mem_of_mem_drop h)⟩
    · simp [IsPart]

theorem areParts_exponential (plus : Bool) (d : Decimal) : AreParts (d.exponential plus) := by
  have hdigits := areParts_numeral d.digits
  have hletter : IsPart 'e' := by simp [IsPart]
  have hsign : AreParts (if plus && 0 ≤ d.leading then ['+'] else []) := by
    split
    · simp [IsPart]
    · simp
  rw [exponential, areParts_append_iff, areParts_append_iff, areParts_cons_iff]
  refine ⟨⟨?_, hletter, hsign⟩, areParts_signedNumeral d.leading⟩
  -- a point is put after the first of several digits
  split
  · next first second rest h =>
      rw [h] at hdigits
      simp only [areParts_cons_iff] at hdigits ⊢
      exact ⟨hdigits.1, isPart_point, hdigits.2⟩
  · exact hdigits

end Abacus.Decimal

namespace Abacus.Double

open Decimal

theorem areParts_withSign_iff {negative : Bool} {digits : List Char} :
    AreParts (withSign negative digits) ↔ AreParts digits := by
  cases negative with
  | false => rfl
  | true => simp [withSign, IsPart]

/-- The positional text of a finite double. -/
theorem areParts_plain (negative : Bool) (m : Magnitude) :
    AreParts (plain (.finite negative m)).toList := by
  rw [plain, String.toList_ofList, areParts_withSign_iff]
  exact areParts_positional _

/-- The characters of the words for the doubles that are not finite. -/
def wordLetters : List Char :=
  ['N', 'a', 'i', 'n', 'f']

/-- What is neither in a number nor in one of the words is in no plain text. -/
theorem not_mem_plain {c : Char} (hpart : ¬ IsPart c) (hletter : c ∉ wordLetters) (x : Double) :
    c ∉ x.plain.toList := by
  intro h
  cases x with
  | nan =>
      have hword : ∀ c ∈ "NaN".toList, c ∈ wordLetters := by simp [wordLetters]
      exact hletter (hword c h)
  | infinite negative =>
      have hword : ∀ c ∈ ['i', 'n', 'f'], c ∈ wordLetters := by simp [wordLetters]
      rw [plain, String.toList_ofList, withSign] at h
      split at h
      · rcases List.mem_cons.mp h with rfl | h
        · exact hpart (by simp [IsPart])
        · exact hletter (hword c h)
      · exact hletter (hword c h)
  | finite negative m => exact hpart (areParts_plain negative m c h)

/-- The text of a finite double that shows a point or an exponent. -/
theorem areParts_pointed (tie : Tie) (least : Int) (plus negative : Bool) (m : Magnitude) :
    AreParts (pointed tie least plus negative m).toList := by
  rw [pointed, String.toList_ofList, areParts_withSign_iff]
  split
  · rw [withPoint]
    split
    · exact areParts_positional _
    · simp [areParts_positional, IsPart]
  · exact areParts_exponential plus _

end Abacus.Double
