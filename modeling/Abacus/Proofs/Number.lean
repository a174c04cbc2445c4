import Abacus.Proofs.Decimal.Reading

/-!
# Numbers as callers send them — what is read at the start of a text

A text means an infinity if it begins with one of three words, and otherwise the double nearest to the
longest number at its start, in ASCII digits (`IsMeant`).  The reader looks for the longest number in
digits of any script, and makes nothing of it if some of its digits are not ASCII.  So what is read is
what is meant just if no digits of another script go on with the number (`isMeant_parse_iff`).
-/

namespace Abacus

namespace Decimal

/-- The number that is written, without its sign. -/
def Written.toRat (w : Written) : ℚ :=
  valueOf (w.whole ++ w.fraction) * (10 : ℚ) ^
    ((if w.exponentNegative then -(valueOf w.exponent : ℤ) else valueOf w.exponent) - w.fraction.length)

/-- What is read of a number is the double nearest to it. -/
theorem Written.toDouble_eq (w : Written) : w.toDouble = .ofRat w.negative w.toRat := by
  rw [toDouble, toDouble_eq_ofRat]
  rfl

theorem Written.isAscii_iff {w : Written} :
    w.isAscii = true ↔ ∀ c ∈ w.whole ++ w.fraction ++ w.exponent, c.isDigit = true :=
  List.all_eq_true

theorem isDigitClass_isDigit : IsDigitClass Char.isDigit where
  digit _ h := h
  other c hc := by
    simp only [List.mem_cons, List.not_mem_nil, or_false] at hc
    rcases hc with rfl | rfl | rfl | rfl | rfl <;> rfl

end Decimal

namespace Number

open Decimal (IsLongest IsWritten isDigitClass_isDigit readWritten)

/-- The text begins with a word for an infinity, and whether it is the one below zero. -/
inductive BeginsWithWord (text : List Char) : Bool → Prop where
  | bare : "Infinity".toList <+: text → BeginsWithWord text false
  | plus : "+Infinity".toList <+: text → BeginsWithWord text false
  | minus : "-Infinity".toList <+: text → BeginsWithWord text true

/-- What a text means that does not begin with white space. -/
inductive IsMeant (text : List Char) : Option Double → Prop where
  | word {negative : Bool} : BeginsWithWord text negative → IsMeant text (some (.infinite negative))
  | number {taken : List Char} {w : Decimal.Written} : (¬ ∃ negative, BeginsWithWord text negative) →
      IsLongest Char.isDigit text taken w → IsMeant text (some (.ofRat w.negative w.toRat))
  | nothing : (¬ ∃ negative, BeginsWithWord text negative) →
      (∀ taken w, taken <+: text → ¬ IsWritten Char.isDigit taken w) → IsMeant text none

section Reading

variable {text taken : List Char} {w : Decimal.Written}

/-- No number is at the start of a text that begins with a word. -/
theorem readWritten_of_word {negative : Bool} (h : BeginsWithWord text negative) :
    readWritten Char.isDigit text = none := by
  rcases h with ⟨rest, rfl⟩ | ⟨rest, rfl⟩ | ⟨rest, rfl⟩ <;> rfl

/-- Words are looked for first. -/
theorem parse_of_word {s : String} {negative : Bool}
    (h : BeginsWithWord (Text.dropBlanks s.toList) negative) :
    parse s = some (.infinite negative) := by
  rw [parse]
  generalize Text.dropBlanks s.toList = text at h
  rcases h with ⟨rest, rfl⟩ | ⟨rest, rfl⟩ | ⟨rest, rfl⟩ <;> rfl

/-- Without a word a number is looked for. -/
theorem parse_of_not_word {s : String}
    (h : ¬ ∃ negative, BeginsWithWord (Text.dropBlanks s.toList) negative) :
    parse s = readPrefix (Text.dropBlanks s.toList) := by
  rw [parse, if_neg, if_neg]
  · exact fun hminus => h ⟨true, .minus (List.isPrefixOf_iff_prefix.mp hminus)⟩
  · rw [Bool.or_eq_true]
    rintro (hbare | hplus)
    · exact h ⟨false, .bare (List.isPrefixOf_iff_prefix.mp hbare)⟩
    · exact h ⟨false, .plus (List.isPrefixOf_iff_prefix.mp hplus)⟩

/-- A number in ASCII digits is one in digits of any script. -/
theorem isWritten_isDecimalDigit (h : IsWritten Char.isDigit taken w) :
    IsWritten Text.isDecimalDigit taken w :=
  h.of_digits fun c hc => Text.isDecimalDigit_of_isDigit (h.digits c hc)

/-- The longest number in ASCII digits is the longest one in any digits that are ASCII. -/
theorem isLongest_isDigit_iff (h : IsLongest Text.isDecimalDigit text taken w) :
    IsLongest Char.isDigit text taken w ↔ w.isAscii = true := by
  rw [Decimal.Written.isAscii_iff]
  exact ⟨fun hascii => hascii.written.digits, fun hascii => ⟨h.starts, h.written.of_digits hascii,
    fun other w' hother hwritten => h.longest other w' hother (isWritten_isDecimalDigit hwritten)⟩⟩

/-- Without a word, what is read is what is meant if no digits of another script are taken. -/
theorem isMeant_readPrefix_iff (hword : ¬ ∃ negative, BeginsWithWord text negative) :
    IsMeant text (readPrefix text) ↔ ∀ taken w, IsLongest Char.isDigit text taken w →
      IsLongest Text.isDecimalDigit text taken w := by
  rw [readPrefix]
  cases hread : readWritten Text.isDecimalDigit text with
  | none =>
      have hnone := (Decimal.readWritten_eq_none_iff isDigitClass_isDecimalDigit).mp hread
      refine iff_of_true (.nothing hword fun taken w hstarts hwritten => ?_) fun taken w hlongest => ?_
      · exact hnone taken w hstarts (isWritten_isDecimalDigit hwritten)
      · exact absurd (isWritten_isDecimalDigit hlongest.written) (hnone taken w hlongest.starts)
  | some found =>
      obtain ⟨w, rest⟩ := found
      obtain ⟨taken, -, htext⟩ := Decimal.exists_written hread
      have hlongest : IsLongest Text.isDecimalDigit text taken w :=
        (Decimal.isLongest_iff isDigitClass_isDecimalDigit).mpr ⟨rest, htext, hread⟩
      dsimp only
      by_cases hascii : w.isAscii = true
      · have hascii' := (isLongest_isDigit_iff hlongest).mpr hascii
        rw [if_pos hascii, w.toDouble_eq]
        refine iff_of_true (.number hword hascii') fun taken' w' hlongest' => ?_
        obtain ⟨rfl, rfl⟩ := hascii'.unique isDigitClass_isDigit hlongest'
        exact hlongest
      · rw [if_neg hascii]
        -- a number in ASCII digits is meant, if there is one, but none is read
        constructor
        · rintro (_ | _ | ⟨_, hnone⟩) taken' w' hlongest'
          exact absurd hlongest'.written (hnone taken' w' hlongest'.starts)
        · refine fun hall => .nothing hword fun other w' hother hwritten => ?_
          obtain ⟨rest', hrest'⟩ := hother
          obtain ⟨w'', rest'', hread', -⟩ := hwritten.read isDigitClass_isDigit rest'
          rw [hrest'] at hread'
          obtain ⟨taken'', -, htext''⟩ := Decimal.exists_written hread'
          have hlongest'' : IsLongest Char.isDigit text taken'' w'' :=
            (Decimal.isLongest_iff isDigitClass_isDigit).mpr ⟨rest'', htext'', hread'⟩
          obtain ⟨rfl, rfl⟩ := hlongest.unique isDigitClass_isDecimalDigit (hall _ _ hlongest'')
          exact hascii ((isLongest_isDigit_iff hlongest).mp hlongest'')

end Reading

/-- **What is read** of a text is what it means, just if the longest number at its start in ASCII digits
is also the longest one in digits of any script. -/
theorem isMeant_parse_iff (s : String) :
    IsMeant (Text.dropBlanks s.toList) (parse s) ↔
      ∀ taken w, IsLongest Char.isDigit (Text.dropBlanks s.toList) taken w →
        IsLongest Text.isDecimalDigit (Text.dropBlanks s.toList) taken w := by
  by_cases hword : ∃ negative, BeginsWithWord (Text.dropBlanks s.toList) negative
  · obtain ⟨negative, hword⟩ := hword
    have hnone := (Decimal.readWritten_eq_none_iff isDigitClass_isDigit).mp (readWritten_of_word hword)
    rw [parse_of_word hword]
    exact iff_of_true (.word hword) fun taken w hlongest =>
      absurd hlongest.written (hnone taken w hlongest.starts)
  · rw [parse_of_not_word hword]
    exact isMeant_readPrefix_iff hword

example : parse "12.5px" = some (.ofRat false (25 / 2)) := by decide +kernel

/-- A digit of another script behind a number makes it unreadable. -/
theorem not_isMeant_parse_digit : ¬ ∀ s, IsMeant (Text.dropBlanks s.toList) (parse s) := by
  intro h
  have hmeant := h "5\u0663"
  have hread : parse "5\u0663" = none := by decide +kernel
  rw [hread] at hmeant
  obtain - | - | ⟨-, hnone⟩ := hmeant
  have hfive : Decimal.AreOf Char.isDigit ['5'] :=
    ⟨List.cons_ne_nil _ _, List.all_eq_true.mp rfl⟩
  have hwritten := IsWritten.mk .absent (.whole hfive) .absent
  exact hnone ['5'] _ ⟨['\u0663'], by decide +kernel⟩ hwritten

end Number

end Abacus
