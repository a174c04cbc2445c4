import Abacus.Number
import Abacus.Proofs.Decimal.Shortest
import Abacus.Proofs.Decimal.Written
import Abacus.Proofs.Json.Numeral
import Abacus.Proofs.Json.Writer

/-!
# Numerals — the texts of finite doubles

However the digits of a decimal are set out, the text is a numeral that stands for the same number
(`denotes_positional`, `denotes_exponential`).  The shortest decimal of a magnitude rounds to that
magnitude, so the texts of a finite double tell it (`finite_eq_of_denotes`).  And a numeral is read to
its last character, by the lenient reader of numbers too (`Number.parse_of_isNumeral`).  An integer of
sixty-four bits in JSON is read back from its numeral (`Json.Number.isReadBack_integer`).
-/

namespace Abacus

open Json (AreDigits AreWhole IsExponent IsFraction IsMinus IsNumeral IsSign)
open Decimal (numeral valueOf zeros)

/-! ## The number of a numeral -/

/-- The power of ten that an exponent stands for. -/
def Json.powerOf : Option (Bool × List Char) → ℤ
  | none => 0
  | some (below, digits) => if below then -(valueOf digits : ℤ) else valueOf digits

/-- The decimal that a numeral stands for, without its sign. -/
def Json.Numeral.decimal (n : Json.Numeral) : Decimal :=
  .ofParts n.whole (n.fraction.getD []) (Json.powerOf n.exponent)

/-- The text is a numeral with the given sign that stands for the given number. -/
def Json.Denotes (text : List Char) (negative : Bool) (value : ℚ) : Prop :=
  ∃ n, IsNumeral text n ∧ n.negative = negative ∧ n.decimal.toRat = value

open Json (Denotes)

/-- A text is a numeral in one way only. -/
theorem Json.IsNumeral.unique {text : List Char} {n n' : Json.Numeral} (h : IsNumeral text n)
    (h' : IsNumeral text n') : n = n' := by
  have hend : Json.EndsNumeral [] := fun _ hc => nomatch hc
  have hread := h.read hend
  rw [h'.read hend] at hread
  exact (Prod.mk.inj (Option.some.inj hread)).1.symm

theorem Json.Denotes.unique {text : List Char} {negative negative' : Bool} {value value' : ℚ}
    (h : Denotes text negative value) (h' : Denotes text negative' value') :
    negative = negative' ∧ value = value' := by
  obtain ⟨n, hn, hsign, hvalue⟩ := h
  obtain ⟨n', hn', hsign', hvalue'⟩ := h'
  obtain rfl := hn.unique hn'
  exact ⟨hsign.symm.trans hsign', hvalue.symm.trans hvalue'⟩

/-! ## Digits -/

namespace Decimal

theorem areDigits_numeral (n : ℕ) : AreDigits (numeral n) :=
  ⟨Nat.toDigits_ne_nil, fun _ => isDigit_of_mem_numeral⟩

theorem isDigit_of_mem_zeros {places : ℕ} {c : Char} (h : c ∈ zeros places) : c.isDigit = true := by
  rw [List.eq_of_mem_replicate h]
  rfl

/-- The digits of a number other than zero can stand before a point. -/
theorem areWhole_of_head {digits : List Char} (h : AreDigits digits)
    (hhead : digits.head? ≠ some '0') : AreWhole digits :=
  ⟨h, fun heq => absurd heq hhead⟩

theorem areWhole_numeral (n : ℕ) : AreWhole (numeral n) := by
  rcases Nat.eq_zero_or_pos n with rfl | hpos
  · exact ⟨areDigits_numeral 0, fun _ => rfl⟩
  · exact areWhole_of_head (areDigits_numeral n) (head_numeral hpos.ne')

/-- Zeros in front of digits do not change their number. -/
theorem valueOf_zeros_append (places : ℕ) (digits : List Char) :
    valueOf (zeros places ++ digits) = valueOf digits := by
  rw [valueOf, Nat.ofDigitChars_append, zeros, Nat.ofDigitChars_replicate_zero, Nat.mul_zero, valueOf]

theorem toRat_ofParts (whole fraction : List Char) (exponent : ℤ) :
    (ofParts whole fraction exponent).toRat =
      valueOf (whole ++ fraction) * (10 : ℚ) ^ (exponent - fraction.length) := rfl

/-- Zeros behind digits can stand before a point, if the digits do not begin with a zero. -/
theorem areWhole_append_zeros {digits places : ℕ} (h : digits ≠ 0 ∨ places = 0) :
    AreWhole (numeral digits ++ zeros places) := by
  rcases h with hdigits | rfl
  · rw [← numeral_mul_pow hdigits]
    exact areWhole_numeral _
  · rw [zeros, List.replicate_zero, List.append_nil]
    exact areWhole_numeral _

/-! ## The layouts -/

/-- The sign in front of a numeral is read off it. -/
theorem denotes_withSign {digits : List Char} {value : ℚ} (h : Denotes digits false value)
    (negative : Bool) : Denotes (Double.withSign negative digits) negative value := by
  cases negative with
  | false => exact h
  | true =>
      obtain ⟨n, hn, hsign, hvalue⟩ := h
      obtain @⟨minus, whole, fraction, exponent, negative, _, _, hminus, hwhole, hfraction, hexponent⟩
        := hn
      cases hminus with
      | absent => exact ⟨_, .mk .present hwhole hfraction hexponent, rfl, hvalue⟩
      | present => exact nomatch hsign

/-- A decimal with a fraction is set out as digits, a point and as many digits as it has places. -/
theorem exists_positional_eq {d : Decimal} (h : d.exponent < 0) :
    ∃ whole fraction, d.positional = whole ++ '.' :: fraction ∧ AreWhole whole ∧ AreDigits fraction ∧
      d.exponent = -fraction.length ∧ valueOf (whole ++ fraction) = d.digits := by
  obtain ⟨digits, exponent⟩ := d
  obtain ⟨places, rfl⟩ : ∃ places : ℕ, exponent = -places :=
    ⟨(-exponent).toNat, by dsimp only at h; omega⟩
  rw [positional, if_neg (not_le.mpr h)]
  simp only [neg_neg, Int.toNat_natCast]
  have hdigits := areDigits_numeral digits
  have hplaces : 0 < places := by
    dsimp only at h
    omega
  split
  · next hshort =>
    -- the point stands among the digits
    refine ⟨_, _, rfl, areWhole_of_head ⟨?_, fun c hc => hdigits.2 c (List.mem_of_mem_take hc)⟩ ?_,
      ⟨?_, fun c hc => hdigits.2 c (List.mem_of_mem_drop hc)⟩, ?_, ?_⟩
    · rw [← List.length_pos_iff, List.length_take]
      omega
    · rw [List.head?_take, if_neg (by omega)]
      refine head_numeral ?_
      rintro rfl
      rw [show (numeral 0).length = 1 from rfl] at hshort
      omega
    · rw [← List.length_pos_iff, List.length_drop]
      omega
    · rw [List.length_drop]
      omega
    · rw [List.take_append_drop, valueOf_numeral]
  · next hlong =>
    refine ⟨numeral 0, zeros (places - (numeral digits).length) ++ numeral digits, rfl, areWhole_numeral 0,
      ⟨List.append_ne_nil_of_right_ne_nil _ hdigits.1, fun c hc => ?_⟩, ?_, ?_⟩
    · rcases List.mem_append.mp hc with hzero | hdigit
      · exact isDigit_of_mem_zeros hzero
      · exact hdigits.2 c hdigit
    · rw [List.length_append, zeros, List.length_replicate]
      omega
    · rw [show numeral 0 = zeros 1 from rfl, valueOf_zeros_append, valueOf_zeros_append, valueOf_numeral]

/-- **The positional text** of a decimal is a numeral of its number. -/
theorem denotes_positional {d : Decimal} (h : d.digits ≠ 0 ∨ d.exponent ≤ 0) :
    Denotes d.positional false d.toRat := by
  rcases le_or_gt 0 d.exponent with hnonneg | hneg
  · obtain ⟨digits, exponent⟩ := d
    obtain ⟨places, rfl⟩ := Int.eq_ofNat_of_zero_le hnonneg
    have hwhole : AreWhole (numeral digits ++ zeros places) := areWhole_append_zeros (by
      dsimp only at h
      omega)
    rw [positional_natCast]
    refine ⟨⟨false, numeral digits ++ zeros places, none, none⟩, ?_, rfl, ?_⟩
    · have hnumeral := IsNumeral.mk .absent hwhole .absent .absent
      simpa using hnumeral
    · show (ofParts (numeral digits ++ zeros places) [] 0).toRat = _
      rw [toRat_ofParts, List.append_nil, valueOf_append_zeros, toRat]
      simp
  · obtain ⟨whole, fraction, htext, hwhole, hfraction, hlength, hvalue⟩ := exists_positional_eq hneg
    rw [htext]
    refine ⟨⟨false, whole, some fraction, none⟩, ?_, rfl, ?_⟩
    · have hnumeral := IsNumeral.mk .absent hwhole (.digits hfraction) .absent
      simpa using hnumeral
    · show (ofParts whole fraction 0).toRat = _
      rw [toRat_ofParts, hvalue, zero_sub, toRat, hlength]

/-- The power of ten at the end of an exponential text. -/
theorem isExponent_signedNumeral (plus : Bool) (power : ℤ) :
    ∃ exponent, IsExponent ('e' :: ((if plus && 0 ≤ power then ['+'] else []) ++
        signedNumeral power)) exponent ∧ Json.powerOf exponent = power := by
  rw [signedNumeral]
  rcases lt_or_ge power 0 with hneg | hnonneg
  · rw [if_pos hneg, if_neg (by simp [hneg])]
    refine ⟨some (true, numeral power.natAbs), .digits (Or.inl rfl) .minus (areDigits_numeral _), ?_⟩
    rw [Json.powerOf, if_pos rfl, valueOf_numeral]
    omega
  · have hvalue : Json.powerOf (some (false, numeral power.natAbs)) = power := by
      rw [Json.powerOf, if_neg (by decide), valueOf_numeral]
      omega
    rw [if_neg (not_lt.mpr hnonneg)]
    cases plus with
    | true =>
        rw [if_pos (by simp [hnonneg])]
        exact ⟨_, .digits (Or.inl rfl) .plus (areDigits_numeral _), hvalue⟩
    | false =>
        rw [if_neg (by simp)]
        exact ⟨_, .digits (Or.inl rfl) .absent (areDigits_numeral _), hvalue⟩

/-- A decimal is set out in exponential form as its first digit, the others after a point if there are
any, and the power of ten. -/
theorem exists_exponential_eq (plus : Bool) (d : Decimal) :
    ∃ first point fraction, numeral d.digits = first :: fraction.getD [] ∧ IsFraction point fraction ∧
      d.exponential plus = first :: (point ++ 'e' :: ((if plus && 0 ≤ d.leading then ['+'] else []) ++
        signedNumeral d.leading)) := by
  have hdigits := areDigits_numeral d.digits
  rw [exponential]
  split
  · next first second rest heq =>
    rw [heq] at hdigits
    have hrest : AreDigits (second :: rest) :=
      ⟨List.cons_ne_nil second rest, fun c hc => hdigits.2 c (List.mem_cons_of_mem first hc)⟩
    exact ⟨first, _, some (second :: rest), heq, .digits hrest, by simp⟩
  · next hsingle =>
    obtain ⟨first, rest, heq, -⟩ := hdigits.exists_cons
    cases rest with
    | nil => exact ⟨first, _, none, heq, .absent, by simp [heq]⟩
    | cons second rest => exact absurd heq (hsingle first second rest)

/-- **The exponential text** of a decimal is a numeral of its number. -/
theorem denotes_exponential (plus : Bool) (d : Decimal) :
    Denotes (d.exponential plus) false d.toRat := by
  obtain ⟨exponent, hexponent, hpower⟩ := isExponent_signedNumeral plus d.leading
  obtain ⟨first, point, fraction, heq, hfraction, htext⟩ := exists_exponential_eq plus d
  have hdigits := areDigits_numeral d.digits
  have hvalue := valueOf_numeral d.digits
  have hleading : d.leading = (numeral d.digits).length - 1 + d.exponent := rfl
  rw [heq] at hdigits hvalue hleading
  have hfirst : AreWhole [first] := by
    refine ⟨⟨List.cons_ne_nil first [], ?_⟩, ?_⟩
    · intro c hc
      rw [List.mem_singleton.mp hc]
      exact hdigits.2 first List.mem_cons_self
    · intro hzero
      rw [Option.some.inj hzero]
  rw [htext]
  refine ⟨⟨false, [first], fraction, exponent⟩, ?_, rfl, ?_⟩
  · have hnumeral := IsNumeral.mk .absent hfirst hfraction hexponent
    simpa using hnumeral
  · show (ofParts [first] (fraction.getD []) (Json.powerOf exponent)).toRat = _
    rw [hpower, toRat_ofParts, List.singleton_append, hvalue, toRat, hleading, List.length_cons]
    congr 2
    push_cast
    ring

/-- A point and a zero that are put behind a positional text do not change its number. -/
theorem denotes_withPoint {d : Decimal} (h : d.digits ≠ 0 ∨ d.exponent ≤ 0) :
    Denotes (Double.withPoint d.positional) false d.toRat := by
  rw [Double.withPoint]
  split
  · exact denotes_positional h
  · next hpoint =>
    have hnonneg : 0 ≤ d.exponent :=
      le_of_not_gt fun hneg => hpoint (List.contains_iff_mem.mpr (point_mem_positional hneg))
    obtain ⟨digits, exponent⟩ := d
    obtain ⟨places, rfl⟩ := Int.eq_ofNat_of_zero_le hnonneg
    have hwhole : AreWhole (numeral digits ++ zeros places) := areWhole_append_zeros (by
      dsimp only at h
      omega)
    have hzero : AreDigits (numeral 0) := areDigits_numeral 0
    rw [positional_natCast]
    have hnumeral := IsNumeral.mk .absent hwhole (.digits hzero) .absent
    rw [show numeral 0 = ['0'] from rfl] at hnumeral
    refine ⟨_, by simpa using hnumeral, rfl, ?_⟩
    show (ofParts (numeral digits ++ zeros places) (zeros 1) 0).toRat = _
    have hmore : numeral digits ++ zeros places ++ zeros 1 = numeral digits ++ zeros (places + 1) := by
      rw [List.append_assoc, zeros, zeros, zeros, List.replicate_append_replicate]
    rw [toRat_ofParts, hmore, valueOf_append_zeros, toRat]
    simp only [zeros, List.length_replicate]
    push_cast
    rw [pow_succ]
    norm_num
    ring

/-! ## Doubles -/

/-- The shortest decimal of a magnitude is set out as a numeral. -/
theorem digits_or_exponent_shortest (tie : Tie) (m : Magnitude) :
    (shortest tie m).digits ≠ 0 ∨ (shortest tie m).exponent ≤ 0 := by
  by_cases h : m.index = 0
  · right
    rw [shortest_of_index_eq_zero tie h]
  · exact Or.inl (digits_shortest_ne_zero tie h)

/-- The sign and the magnitude of a finite double are told by a numeral of the shortest decimal. -/
theorem finite_eq_of_denotes {text : List Char} {tie tie' : Tie} {negative negative' : Bool}
    {m m' : Magnitude} (h : Denotes text negative (shortest tie m).toRat)
    (h' : Denotes text negative' (shortest tie' m').toRat) :
    Double.finite negative m = .finite negative' m' := by
  obtain ⟨hsign, hvalue⟩ := h.unique h'
  have hindex : m.index = m'.index :=
    (nearest_shortest tie m).symm.trans ((nearest_shortest tie' m').congr hvalue)
  rw [hsign, show m = m' by cases m; cases m'; simp_all]

end Decimal

namespace Double

open Decimal

/-- **The positional text** of a finite double is a numeral of its shortest decimal. -/
theorem denotes_plain (negative : Bool) (m : Magnitude) :
    Denotes (plain (.finite negative m)).toList negative (shortest .up m).toRat := by
  rw [plain, String.toList_ofList]
  exact denotes_withSign (denotes_positional (digits_or_exponent_shortest .up m)) negative

/-- So is the text that shows a point or an exponent. -/
theorem denotes_pointed (tie : Tie) (least : ℤ) (plus negative : Bool) (m : Magnitude) :
    Denotes (pointed tie least plus negative m).toList negative (shortest tie m).toRat := by
  rw [pointed, String.toList_ofList]
  refine denotes_withSign ?_ negative
  split
  · exact denotes_withPoint (digits_or_exponent_shortest tie m)
  · exact denotes_exponential plus _

/-- The exponential text of a double that is not zero is a numeral of its rounded decimal. -/
theorem denotes_rounded (plus : Bool) (places : ℕ) (negative : Bool) {m : Magnitude}
    (h : m.index ≠ 0) :
    Denotes (exponential plus places (.finite negative m)).toList negative (rounded places m).toRat := by
  rw [exponential, String.toList_ofList, if_neg h]
  exact denotes_withSign (denotes_exponential plus _) negative

end Double

/-! ## Reading -/

namespace Decimal

variable {isDigit : Char → Bool}

/-- ASCII digits are digits of every class. -/
theorem IsDigitClass.areOf (hclass : IsDigitClass isDigit) {digits : List Char} (h : AreDigits digits) :
    AreOf isDigit digits :=
  ⟨h.1, fun c hc => hclass.digit c (h.2 c hc)⟩

/-- A numeral is a number, whatever else counts as a digit, and stands for the same decimal. -/
theorem IsDigitClass.exists_isWritten (hclass : IsDigitClass isDigit) {text : List Char} {n : Json.Numeral}
    (h : IsNumeral text n) :
    ∃ w, IsWritten isDigit text w ∧ w.isAscii = true ∧ w.toDouble = n.decimal.toDouble n.negative := by
  obtain @⟨minus, whole, fractionText, exponentText, negative, fraction, exponent, hminus, hwhole,
    hfraction, hexponent⟩ := h
  have hsign : IsSign minus negative := by
    cases hminus with
    | absent => exact .absent
    | present => exact .minus
  obtain ⟨hplaces, hfraction⟩ : IsPlaces isDigit (whole ++ fractionText) whole (fraction.getD []) ∧
      ∀ c ∈ fraction.getD [], c.isDigit = true := by
    cases hfraction with
    | absent =>
        rw [List.append_nil]
        exact ⟨.whole (hclass.areOf hwhole.1), fun _ hc => nomatch hc⟩
    | digits hsome => exact ⟨.point (hclass.areOf hwhole.1) (hclass.areOf hsome).2, hsome.2⟩
  obtain ⟨below, digits, hpower, hdigits, hvalue⟩ : ∃ below digits,
      IsPower isDigit exponentText below digits ∧ (∀ c ∈ digits, c.isDigit = true) ∧
        Json.powerOf exponent = if below then -(valueOf digits : ℤ) else valueOf digits := by
    cases hexponent with
    | absent => exact ⟨false, [], .absent, (fun _ hc => nomatch hc), rfl⟩
    | digits hmark hsign hsome =>
        exact ⟨_, _, .digits hmark hsign (hclass.areOf hsome), hsome.2, rfl⟩
  refine ⟨⟨negative, whole, fraction.getD [], below, digits⟩, ?_, ?_, ?_⟩
  · have hwritten := IsWritten.mk hsign hplaces hpower
    rwa [List.append_assoc] at hwritten
  · rw [Written.isAscii, List.all_append, List.all_append, Bool.and_eq_true, Bool.and_eq_true]
    exact ⟨⟨List.all_eq_true.mpr hwhole.1.2, List.all_eq_true.mpr hfraction⟩,
      List.all_eq_true.mpr hdigits⟩
  · rw [Written.toDouble, Json.Numeral.decimal, hvalue]

/-- **A numeral is read** to its last character, as the decimal that it stands for. -/
theorem IsDigitClass.readWritten (hclass : IsDigitClass isDigit) {text : List Char} {n : Json.Numeral}
    (h : IsNumeral text n) :
    ∃ w, Decimal.readWritten isDigit text = some (w, []) ∧ w.isAscii = true ∧
      w.toDouble = n.decimal.toDouble n.negative := by
  obtain ⟨w, hwritten, hascii, hvalue⟩ := hclass.exists_isWritten h
  obtain ⟨w', rest, hread, hsuffix, hexact⟩ := hwritten.read hclass []
  rw [List.append_nil, hexact rfl, List.suffix_nil.mp hsuffix] at hread
  exact ⟨w, hread, hascii, hvalue⟩

end Decimal

namespace Number

/-- The decimal digits of every script are a class of digits. -/
theorem isDigitClass_isDecimalDigit : Decimal.IsDigitClass Text.isDecimalDigit where
  digit _ := Text.isDecimalDigit_of_isDigit
  other c hc := by
    simp only [List.mem_cons, List.not_mem_nil, or_false] at hc
    rcases hc with rfl | rfl | rfl | rfl | rfl <;> rfl

/-- A numeral holds digits, signs, points and the letter of an exponent, and nothing else. -/
theorem mem_of_isNumeral {text : List Char} {n : Json.Numeral} (h : IsNumeral text n) {c : Char}
    (hc : c ∈ text) : c.isDigit = true ∨ c ∈ ['+', '-', '.', 'e', 'E'] := by
  obtain @⟨minus, whole, fractionText, exponentText, negative, fraction, exponent, hminus, hwhole,
    hfraction, hexponent⟩ := h
  rcases List.mem_append.mp hc with hc | hc
  · cases hminus with
    | absent => exact nomatch hc
    | present => exact Or.inr (by simpa using Or.inr (Or.inl (List.mem_singleton.mp hc)))
  · rcases List.mem_append.mp hc with hc | hc
    · exact Or.inl (hwhole.1.2 c hc)
    · rcases List.mem_append.mp hc with hc | hc
      · cases hfraction with
        | absent => exact nomatch hc
        | digits hdigits =>
            rcases List.mem_cons.mp hc with rfl | hc
            · exact Or.inr (by simp)
            · exact Or.inl (hdigits.2 c hc)
      · cases hexponent with
        | absent => exact nomatch hc
        | digits hmark hsign hdigits =>
            rcases List.mem_cons.mp hc with rfl | hc
            · exact Or.inr (by rcases hmark with rfl | rfl <;> simp)
            · rcases List.mem_append.mp hc with hc | hc
              · cases hsign with
                | absent => exact nomatch hc
                | plus => exact Or.inr (by simpa using Or.inl (List.mem_singleton.mp hc))
                | minus => exact Or.inr (by simpa using Or.inr (Or.inl (List.mem_singleton.mp hc)))
              · exact Or.inl (hdigits.2 c hc)

/-- **A numeral is read** to its last character by the lenient reader of numbers. -/
theorem parse_of_isNumeral {text : String} {n : Json.Numeral} (h : IsNumeral text.toList n) :
    ∃ w, Decimal.readWritten Text.isDecimalDigit text.toList = some (w, []) ∧
      parse text = some w.toDouble ∧ w.toDouble = n.decimal.toDouble n.negative := by
  obtain ⟨w, hread, hascii, hvalue⟩ := isDigitClass_isDecimalDigit.readWritten h
  refine ⟨w, hread, ?_, hvalue⟩
  have hprefix : readPrefix text.toList = some w.toDouble := by
    rw [readPrefix, hread]
    exact if_pos hascii
  have hdrop : Text.dropBlanks text.toList = text.toList := by
    obtain ⟨c, rest, htext, hbegin⟩ := h.exists_cons
    have hblank : Text.isBlank c = false := by
      rcases hbegin with hdigit | rfl
      · exact Text.isBlank_of_isDigit hdigit
      · decide
    rw [Text.dropBlanks, htext, List.dropWhile_cons_of_neg (by simp [hblank])]
  -- no word for infinity is made of the characters of numerals
  have hword {word : List Char} (hletter : 'I' ∈ word) : ¬ word.isPrefixOf text.toList = true := by
    intro hprefix
    have hmem := (List.isPrefixOf_iff_prefix.mp hprefix).mem hletter
    rcases mem_of_isNumeral h hmem with hdigit | hother
    · exact absurd hdigit (by decide)
    · exact absurd hother (by decide)
  rw [parse, hdrop, if_neg ?_, if_neg (hword (by decide)), hprefix]
  rw [Bool.or_eq_true, not_or]
  exact ⟨hword (by decide), hword (by decide)⟩

end Number

/-! ## Integers in JSON -/

/-- More digits do not make a number less. -/
theorem Decimal.le_ofDigitChars (digits : List Char) (n : Nat) : n ≤ Nat.ofDigitChars 10 digits n := by
  induction digits generalizing n with
  | nil => exact Nat.le_refl n
  | cons c rest ih =>
      rw [Nat.ofDigitChars_cons]
      exact Nat.le_trans (by omega) (ih _)

/-- Digits are taken over up to the last one if their number fits into sixty-four bits. -/
theorem Json.Numeral.accumulate_eq {digits : List Char} {significand : Nat}
    (h : Nat.ofDigitChars 10 digits significand < Json.Numeral.wordLimit) :
    Json.Numeral.accumulate significand digits =
      (Nat.ofDigitChars 10 digits significand, 0) := by
  induction digits generalizing significand with
  | nil => rfl
  | cons c rest ih =>
      rw [Nat.ofDigitChars_cons] at h ⊢
      rw [Json.Numeral.accumulate, ← ih h]
      exact if_pos (Nat.lt_of_le_of_lt (Decimal.le_ofDigitChars rest _) h)

/-- A whole number of sixty-four bits is read back from what is written for it. -/
theorem Json.Number.isReadBack_integer {n : Nat} (h : n < Json.Numeral.wordLimit) :
    (Json.Number.integer n).IsReadBack := by
  refine ⟨⟨false, Decimal.numeral n, none, none⟩, ?_, ?_⟩
  · have hnumeral := Json.IsNumeral.mk .absent (Decimal.areWhole_numeral n) .absent .absent
    rw [Json.Number.write, Decimal.signedNumeral, if_neg (by omega), Int.natAbs_natCast]
    simpa using hnumeral
  · have hvalue : Nat.ofDigitChars 10 (Decimal.numeral n) 0 = n := Decimal.valueOf_numeral n
    rw [Json.Numeral.toNumber?, Json.Numeral.accumulate_eq (by rwa [hvalue]), hvalue]
    rfl

/-- So is a negative integer of sixty-four bits with a sign. -/
theorem Json.Number.isReadBack_neg {n : Nat} (hpos : n ≠ 0) (h : n ≤ 0x8000000000000000) :
    (Json.Number.integer (-n)).IsReadBack := by
  refine ⟨⟨true, Decimal.numeral n, none, none⟩, ?_, ?_⟩
  · have hnumeral := Json.IsNumeral.mk .present (Decimal.areWhole_numeral n) .absent .absent
    rw [Json.Number.write, Decimal.signedNumeral, if_pos (by omega), Int.natAbs_neg,
      Int.natAbs_natCast]
    simpa using hnumeral
  · have hvalue : Nat.ofDigitChars 10 (Decimal.numeral n) 0 = n := Decimal.valueOf_numeral n
    have hless : n < Json.Numeral.wordLimit := Nat.lt_of_le_of_lt h (by decide)
    rw [Json.Numeral.toNumber?, Json.Numeral.accumulate_eq (by rwa [hvalue]), hvalue]
    exact (if_neg Bool.false_ne_true).trans (if_pos (by simp [hpos, h]))

end Abacus
