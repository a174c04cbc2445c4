import Mathlib.Data.List.TakeWhile
import Abacus.Decimal.Reading
import Abacus.Proofs.Json.Grammar

/-!
# Written numbers — the longest one at the start of a text

    written := sign (digits ('.' digit*)? | '.' digits) (('e' | 'E') sign digits)?
    sign    := ('+' | '-')?

The rules say which texts are numbers, for any class of digits (`IsWritten`).  Each part of a number is
read as far as it goes, and no part can begin inside another one.  So the reader takes the longest number
at the start of a text (`isLongest_iff`), and finds none only where no prefix is a number
(`readWritten_eq_none_iff`).  A number has one reading only (`IsWritten.unique`).
-/

namespace Abacus.Decimal

open Json (IsSign)

/-- Digits, and at least one. -/
def AreOf (isDigit : Char → Bool) (text : List Char) : Prop :=
  text ≠ [] ∧ ∀ c ∈ text, isDigit c = true

/-- Digits before and after a point, or without one. -/
inductive IsPlaces (isDigit : Char → Bool) : List Char → List Char → List Char → Prop where
  | whole {whole : List Char} : AreOf isDigit whole → IsPlaces isDigit whole whole []
  | point {whole fraction : List Char} : AreOf isDigit whole → (∀ c ∈ fraction, isDigit c = true) →
      IsPlaces isDigit (whole ++ '.' :: fraction) whole fraction
  | bare {fraction : List Char} : AreOf isDigit fraction →
      IsPlaces isDigit ('.' :: fraction) [] fraction

/-- An exponent, or its absence. -/
inductive IsPower (isDigit : Char → Bool) : List Char → Bool → List Char → Prop where
  | absent : IsPower isDigit [] false []
  | digits {mark : Char} {sign digits : List Char} {below : Bool} :
      mark = 'e' ∨ mark = 'E' → IsSign sign below → AreOf isDigit digits →
        IsPower isDigit (mark :: (sign ++ digits)) below digits

/-- The text is a number. -/
inductive IsWritten (isDigit : Char → Bool) : List Char → Written → Prop where
  | mk {sign places power whole fraction digits : List Char} {negative below : Bool} :
      IsSign sign negative → IsPlaces isDigit places whole fraction →
        IsPower isDigit power below digits →
          IsWritten isDigit (sign ++ (places ++ power)) ⟨negative, whole, fraction, below, digits⟩

/-- No longer prefix of the text is a number. -/
structure IsLongest (isDigit : Char → Bool) (text taken : List Char) (w : Written) : Prop where
  starts : taken <+: text
  written : IsWritten isDigit taken w
  longest : ∀ other w', other <+: text → IsWritten isDigit other w' → other.length ≤ taken.length

/-- A class of digits that holds the ASCII digits and none of the other characters of numerals. -/
structure IsDigitClass (isDigit : Char → Bool) : Prop where
  digit : ∀ c, c.isDigit = true → isDigit c = true
  other : ∀ c ∈ ['+', '-', '.', 'e', 'E'], isDigit c = false

variable {isDigit : Char → Bool} {text rest : List Char}

/-! ## Signs and digits -/

/-- A sign is read, or its absence before another character. -/
theorem readSign_eq {sign : List Char} {negative : Bool} (h : IsSign sign negative)
    (hrest : ∀ c ∈ rest.head?, c ≠ '-' ∧ c ≠ '+') : readSign (sign ++ rest) = (negative, rest) := by
  cases h with
  | plus => rfl
  | minus => rfl
  | absent =>
      rw [List.nil_append, readSign.eq_def]
      split
      · exact absurd rfl (hrest _ rfl).1
      · exact absurd rfl (hrest _ rfl).2
      · rfl

/-- What is read as a sign is one. -/
theorem exists_sign (text : List Char) :
    ∃ sign, IsSign sign (readSign text).1 ∧ text = sign ++ (readSign text).2 := by
  rw [readSign.eq_def]
  split
  · exact ⟨_, .minus, rfl⟩
  · exact ⟨_, .plus, rfl⟩
  · exact ⟨_, .absent, rfl⟩

/-- No digits are taken where the first character is none. -/
theorem span_eq (h : ∀ c ∈ rest.head?, isDigit c = false) :
    rest.takeWhile isDigit = [] ∧ rest.dropWhile isDigit = rest := by
  cases rest with
  | nil => exact ⟨rfl, rfl⟩
  | cons c rest =>
      have hc : ¬ isDigit c = true := by simp [h c rfl]
      exact ⟨List.takeWhile_cons_of_neg hc, List.dropWhile_cons_of_neg hc⟩

/-- The digits that are taken are some, unless there is none. -/
theorem areOf_takeWhile (h : ¬ (text.takeWhile isDigit).isEmpty = true) :
    AreOf isDigit (text.takeWhile isDigit) :=
  ⟨by simpa using h, fun _ => List.mem_takeWhile_imp⟩

/-! ## Places -/

/-- Places begin with a digit or a point. -/
theorem IsPlaces.exists_cons {places whole fraction : List Char}
    (h : IsPlaces isDigit places whole fraction) :
    ∃ c rest, places = c :: rest ∧ (isDigit c = true ∨ c = '.') := by
  cases h with
  | whole hwhole =>
      obtain ⟨c, rest, rfl⟩ := List.exists_cons_of_ne_nil hwhole.1
      exact ⟨c, rest, rfl, Or.inl (hwhole.2 c List.mem_cons_self)⟩
  | point hwhole _ =>
      obtain ⟨c, rest, rfl⟩ := List.exists_cons_of_ne_nil hwhole.1
      exact ⟨c, _, rfl, Or.inl (hwhole.2 c List.mem_cons_self)⟩
  | bare _ => exact ⟨'.', _, rfl, Or.inr rfl⟩

/-- What is read as places is some. -/
theorem exists_places {whole fraction : List Char}
    (h : readPlaces isDigit text = some (whole, fraction, rest)) :
    ∃ places, IsPlaces isDigit places whole fraction ∧ text = places ++ rest := by
  have htext := List.takeWhile_append_dropWhile (p := isDigit) (l := text)
  rw [readPlaces] at h
  dsimp only at h
  split at h
  · next after hpoint =>
    have hafter := List.takeWhile_append_dropWhile (p := isDigit) (l := after)
    rw [hpoint] at htext
    split at h
    · exact nomatch h
    · next hsome =>
      obtain ⟨rfl, hpair⟩ := Prod.mk.inj (Option.some.inj h)
      obtain ⟨rfl, rfl⟩ := Prod.mk.inj hpair
      by_cases hwhole : (text.takeWhile isDigit).isEmpty = true
      · have hfraction : AreOf isDigit (after.takeWhile isDigit) :=
          areOf_takeWhile (by simpa [hwhole] using hsome)
        rw [List.isEmpty_iff] at hwhole
        rw [hwhole] at htext ⊢
        exact ⟨_, .bare hfraction, by rw [← htext, List.cons_append, hafter]; rfl⟩
      · refine ⟨_, .point (areOf_takeWhile hwhole) fun _ => List.mem_takeWhile_imp, ?_⟩
        rw [List.append_assoc, List.cons_append, hafter, htext]
  · split at h
    · exact nomatch h
    · next hwhole =>
      obtain ⟨rfl, hpair⟩ := Prod.mk.inj (Option.some.inj h)
      obtain ⟨rfl, rfl⟩ := Prod.mk.inj hpair
      exact ⟨_, .whole (areOf_takeWhile hwhole), htext.symm⟩

/-- After a point the digits are read as far as they go. -/
theorem readPlaces_point (hclass : IsDigitClass isDigit) {whole fraction : List Char}
    (after : List Char) (hwhole : ∀ c ∈ whole, isDigit c = true) (hfraction : ∀ c ∈ fraction, isDigit c = true)
    (hsome : whole ≠ [] ∨ fraction ≠ []) :
    readPlaces isDigit (whole ++ '.' :: (fraction ++ after)) =
      some (whole, fraction ++ after.takeWhile isDigit, after.dropWhile isDigit) := by
  have hpoint : ∀ c ∈ ('.' :: (fraction ++ after)).head?, isDigit c = false := by
    rintro c hc
    obtain rfl := Option.some.inj hc
    exact hclass.other '.' (by simp)
  obtain ⟨htake, hdrop⟩ := span_eq hpoint
  rw [readPlaces, List.takeWhile_append_of_pos hwhole, List.dropWhile_append_of_pos hwhole, htake, hdrop,
    List.append_nil, ← List.takeWhile_append_of_pos hfraction, ← List.dropWhile_append_of_pos hfraction]
  refine if_neg ?_
  rw [List.takeWhile_append_of_pos hfraction]
  rcases hsome with hwhole | hfraction
  · simp [hwhole]
  · simp [hfraction]

/-- **Places are read** as far as they go, and just so far before the letter of an exponent. -/
theorem IsPlaces.read (hclass : IsDigitClass isDigit) {places whole fraction : List Char}
    (h : IsPlaces isDigit places whole fraction) (after : List Char) :
    ∃ whole' fraction' rest, readPlaces isDigit (places ++ after) = some (whole', fraction', rest) ∧
      rest <:+ after ∧
      ((∀ c ∈ after.head?, c = 'e' ∨ c = 'E') → whole' = whole ∧ fraction' = fraction ∧ rest = after) := by
  have hmark (hafter : ∀ c ∈ after.head?, c = 'e' ∨ c = 'E') :
      after.takeWhile isDigit = [] ∧ after.dropWhile isDigit = after := by
    refine span_eq fun c hc => hclass.other c ?_
    rcases hafter c hc with rfl | rfl <;> simp
  cases h with
  | whole hwhole =>
      have hsome : ¬ (places ++ after.takeWhile isDigit).isEmpty = true := by simp [hwhole.1]
      rw [readPlaces, List.takeWhile_append_of_pos hwhole.2, List.dropWhile_append_of_pos hwhole.2]
      dsimp only
      split
      · next rest heq =>
        have hrest : rest.dropWhile isDigit <:+ after :=
          (List.dropWhile_suffix _).trans (((List.suffix_cons '.' rest).trans
            (heq ▸ List.dropWhile_suffix isDigit)))
        rw [if_neg (by simp [hwhole.1])]
        refine ⟨_, _, _, rfl, hrest, fun hafter => ?_⟩
        rw [(hmark hafter).2] at heq
        rcases hafter '.' (heq ▸ rfl) with heq | heq <;> exact absurd heq (by decide)
      · rw [if_neg hsome]
        refine ⟨_, _, _, rfl, List.dropWhile_suffix _, fun hafter => ?_⟩
        rw [(hmark hafter).1, (hmark hafter).2, List.append_nil]
        exact ⟨rfl, rfl, rfl⟩
  | point hwhole hfraction =>
      rw [List.append_assoc, List.cons_append,
        readPlaces_point hclass after hwhole.2 hfraction (Or.inl hwhole.1)]
      refine ⟨_, _, _, rfl, List.dropWhile_suffix _, fun hafter => ?_⟩
      rw [(hmark hafter).1, (hmark hafter).2, List.append_nil]
      exact ⟨rfl, rfl, rfl⟩
  | bare hfraction =>
      have hnone : ∀ c ∈ ([] : List Char), isDigit c = true := fun c hc => nomatch hc
      have hread := readPlaces_point hclass after hnone hfraction.2 (Or.inr hfraction.1)
      refine ⟨_, _, _, hread, List.dropWhile_suffix _, fun hafter => ?_⟩
      rw [(hmark hafter).1, (hmark hafter).2, List.append_nil]
      exact ⟨rfl, rfl, rfl⟩

/-! ## Exponents -/

/-- What is read as an exponent is one, or its absence. -/
theorem exists_power (isDigit : Char → Bool) (text : List Char) :
    ∃ power below digits rest, readExponent isDigit text = (below, digits, rest) ∧
      IsPower isDigit power below digits ∧ text = power ++ rest := by
  have habsent : ∃ power below digits rest, (false, [], text) = (below, digits, rest) ∧
      IsPower isDigit power below digits ∧ text = power ++ rest :=
    ⟨_, _, _, _, rfl, .absent, rfl⟩
  rw [readExponent.eq_def]
  split
  · next mark rest =>
    split
    · next hmark =>
      obtain ⟨sign, hsign, hrest⟩ := exists_sign rest
      dsimp only
      split
      · exact habsent
      · next hsome =>
        refine ⟨_, _, _, _, rfl, .digits (by simpa using hmark) hsign (areOf_takeWhile hsome), ?_⟩
        rw [List.cons_append, List.append_assoc, List.takeWhile_append_dropWhile, ← hrest]
    · exact habsent
  · exact habsent

/-- **An exponent is read** as far as it goes. -/
theorem IsPower.read (hclass : IsDigitClass isDigit) {power digits : List Char} {below : Bool}
    (h : IsPower isDigit power below digits) (rest : List Char) :
    ∃ below' digits' rest', readExponent isDigit (power ++ rest) = (below', digits', rest') ∧
      rest' <:+ rest ∧ (rest = [] → below' = below ∧ digits' = digits) := by
  cases h with
  | absent =>
      obtain ⟨power, below, digits, rest', hread, -, htext⟩ := exists_power isDigit rest
      refine ⟨_, _, _, hread, ⟨power, htext.symm⟩, ?_⟩
      rintro rfl
      cases hread
      exact ⟨rfl, rfl⟩
  | @digits mark sign digits below hmark hsign hdigits =>
      have hmark : (mark == 'e' || mark == 'E') = true := by
        rcases hmark with rfl | rfl <;> rfl
      have hsigned : readSign (sign ++ (digits ++ rest)) = (below, digits ++ rest) := by
        refine readSign_eq hsign fun c hc => ?_
        obtain ⟨d, digits, rfl⟩ := List.exists_cons_of_ne_nil hdigits.1
        obtain rfl := Option.some.inj hc
        have hdigit := hdigits.2 d List.mem_cons_self
        constructor
        · rintro rfl
          exact absurd hdigit (by simp [hclass.other])
        · rintro rfl
          exact absurd hdigit (by simp [hclass.other])
      rw [List.cons_append, List.append_assoc, readExponent.eq_def]
      dsimp only
      rw [if_pos hmark, hsigned]
      dsimp only
      rw [List.takeWhile_append_of_pos hdigits.2, List.dropWhile_append_of_pos hdigits.2,
        if_neg (by simp [hdigits.1])]
      refine ⟨_, _, _, rfl, List.dropWhile_suffix _, ?_⟩
      rintro rfl
      rw [List.takeWhile_nil, List.append_nil]
      exact ⟨rfl, rfl⟩

/-! ## Numbers -/

/-- What is read as a number is one. -/
theorem exists_written {w : Written} (h : readWritten isDigit text = some (w, rest)) :
    ∃ taken, IsWritten isDigit taken w ∧ text = taken ++ rest := by
  obtain ⟨sign, hsign, htext⟩ := exists_sign text
  rw [readWritten] at h
  dsimp only at h
  split at h
  · exact nomatch h
  · next whole fraction after hplaces =>
    obtain ⟨places, hplaces, hunsigned⟩ := exists_places hplaces
    obtain ⟨power, below, digits, rest', hread, hpower, hafter⟩ := exists_power isDigit after
    rw [hread] at h
    obtain ⟨rfl, rfl⟩ := Prod.mk.inj (Option.some.inj h)
    refine ⟨_, .mk hsign hplaces hpower, ?_⟩
    rw [htext, hunsigned, hafter]
    simp

/-- **A number is read** as far as it goes. -/
theorem IsWritten.read (hclass : IsDigitClass isDigit) {taken : List Char} {w : Written}
    (h : IsWritten isDigit taken w) (rest : List Char) :
    ∃ w' rest', readWritten isDigit (taken ++ rest) = some (w', rest') ∧ rest' <:+ rest ∧
      (rest = [] → w' = w) := by
  obtain @⟨sign, places, power, whole, fraction, digits, negative, below, hsign, hplaces, hpower⟩ := h
  have hsigned : readSign (sign ++ (places ++ (power ++ rest))) = (negative, places ++ (power ++ rest)) := by
    refine readSign_eq hsign fun c hc => ?_
    obtain ⟨d, tail, rfl, hbegin⟩ := hplaces.exists_cons
    obtain rfl := Option.some.inj hc
    constructor
    · rintro rfl
      exact absurd hbegin (by simp [hclass.other])
    · rintro rfl
      exact absurd hbegin (by simp [hclass.other])
  obtain ⟨whole', fraction', after, hread, hsuffix, hexact⟩ := hplaces.read hclass (power ++ rest)
  have hwritten : readWritten isDigit (sign ++ (places ++ power) ++ rest) =
      some (⟨negative, whole', fraction', (readExponent isDigit after).1,
        (readExponent isDigit after).2.1⟩, (readExponent isDigit after).2.2) := by
    rw [List.append_assoc, List.append_assoc, readWritten, hsigned]
    dsimp only
    rw [hread]
  rw [hwritten]
  refine ⟨_, _, rfl, ?_⟩
  cases hpower with
  | absent =>
      obtain ⟨power, below, digits, rest', hread', -, hafter⟩ := exists_power isDigit after
      rw [hread']
      refine ⟨(List.suffix_append power rest').trans (hafter ▸ hsuffix), ?_⟩
      rintro rfl
      obtain ⟨rfl, rfl, rfl⟩ := hexact (fun c hc => nomatch hc)
      cases hread'
      rfl
  | digits hmark hsign hdigits =>
      obtain ⟨rfl, rfl, rfl⟩ := hexact (fun c hc => by
        obtain rfl := Option.some.inj hc
        exact hmark)
      obtain ⟨below', digits', rest', hread', hsuffix', hexact'⟩ :=
        (IsPower.digits hmark hsign hdigits).read hclass rest
      rw [hread']
      refine ⟨hsuffix', fun hnil => ?_⟩
      obtain ⟨rfl, rfl⟩ := hexact' hnil
      rfl

/-- The digits of a number are of its class. -/
theorem IsWritten.digits {taken : List Char} {w : Written} (h : IsWritten isDigit taken w) :
    ∀ c ∈ w.whole ++ w.fraction ++ w.exponent, isDigit c = true := by
  obtain ⟨-, hplaces, hpower⟩ := h
  have hboth : ∀ whole fraction places : List Char, IsPlaces isDigit places whole fraction →
      ∀ c ∈ whole ++ fraction, isDigit c = true := by
    rintro _ _ _ (hwhole | ⟨hwhole, hfraction⟩ | hfraction) c hc
    · exact hwhole.2 c (by simpa using hc)
    · exact (List.mem_append.mp hc).elim (hwhole.2 c) (hfraction c)
    · exact hfraction.2 c hc
  intro c hc
  rcases List.mem_append.mp hc with hc | hc
  · exact hboth _ _ _ hplaces c hc
  · cases hpower with
    | absent => exact nomatch hc
    | digits _ _ hdigits => exact hdigits.2 c hc

/-- A number is one for every class of digits that its own are of. -/
theorem IsWritten.of_digits {isDigit' : Char → Bool} {taken : List Char} {w : Written}
    (h : IsWritten isDigit taken w)
    (hdigits : ∀ c ∈ w.whole ++ w.fraction ++ w.exponent, isDigit' c = true) :
    IsWritten isDigit' taken w := by
  obtain ⟨hsign, hplaces, hpower⟩ := h
  simp only [List.mem_append] at hdigits
  refine .mk hsign ?_ ?_
  · cases hplaces with
    | whole hwhole => exact .whole ⟨hwhole.1, fun c hc => hdigits c (Or.inl (Or.inl hc))⟩
    | point hwhole _ =>
        exact .point ⟨hwhole.1, fun c hc => hdigits c (Or.inl (Or.inl hc))⟩
          fun c hc => hdigits c (Or.inl (Or.inr hc))
    | bare hfraction => exact .bare ⟨hfraction.1, fun c hc => hdigits c (Or.inl (Or.inr hc))⟩
  · cases hpower with
    | absent => exact .absent
    | digits hmark hsign hsome =>
        exact .digits hmark hsign ⟨hsome.1, fun c hc => hdigits c (Or.inr hc)⟩

/-- A number has one reading only. -/
theorem IsWritten.unique (hclass : IsDigitClass isDigit) {taken : List Char} {w w' : Written}
    (h : IsWritten isDigit taken w) (h' : IsWritten isDigit taken w') : w = w' := by
  obtain ⟨v, rest, hread, -, hv⟩ := h.read hclass []
  obtain ⟨v', rest', hread', -, hv'⟩ := h'.read hclass []
  rw [hread] at hread'
  obtain ⟨rfl, rfl⟩ := Prod.mk.inj (Option.some.inj hread')
  exact (hv rfl).symm.trans (hv' rfl)

/-- **The longest number** at the start of a text is the one that is read. -/
theorem isLongest_iff (hclass : IsDigitClass isDigit) {taken : List Char} {w : Written} :
    IsLongest isDigit text taken w ↔
      ∃ rest, text = taken ++ rest ∧ readWritten isDigit text = some (w, rest) := by
  constructor
  · rintro ⟨⟨rest, rfl⟩, hwritten, hlongest⟩
    obtain ⟨w', rest', hread, hsuffix, -⟩ := hwritten.read hclass rest
    obtain ⟨taken', hwritten', htext⟩ := exists_written hread
    -- the number that is read is not longer, and what is left after it is not longer either
    have hlength := hlongest taken' w' ⟨rest', htext.symm⟩ hwritten'
    have htotal := congrArg List.length htext
    rw [List.length_append, List.length_append] at htotal
    obtain rfl := hsuffix.eq_of_length_le (by omega)
    obtain rfl := List.append_cancel_right htext
    rw [hwritten.unique hclass hwritten']
    exact ⟨rest', rfl, hread⟩
  · rintro ⟨rest, rfl, hread⟩
    obtain ⟨taken', hwritten, htext⟩ := exists_written hread
    obtain rfl := List.append_cancel_right htext
    refine ⟨List.prefix_append taken rest, hwritten, ?_⟩
    rintro other w' ⟨rest', hother⟩ hwritten'
    obtain ⟨v, rest'', hread', hsuffix, -⟩ := hwritten'.read hclass rest'
    rw [hother, hread] at hread'
    obtain ⟨-, rfl⟩ := Prod.mk.inj (Option.some.inj hread')
    have htotal := congrArg List.length hother
    rw [List.length_append, List.length_append] at htotal
    have := hsuffix.length_le
    omega

/-- There is one longest number at most. -/
theorem IsLongest.unique (hclass : IsDigitClass isDigit) {taken taken' : List Char} {w w' : Written}
    (h : IsLongest isDigit text taken w) (h' : IsLongest isDigit text taken' w') :
    taken = taken' ∧ w = w' := by
  obtain ⟨rest, htext, hread⟩ := (isLongest_iff hclass).mp h
  obtain ⟨rest', htext', hread'⟩ := (isLongest_iff hclass).mp h'
  rw [hread] at hread'
  obtain ⟨rfl, rfl⟩ := Prod.mk.inj (Option.some.inj hread')
  exact ⟨List.append_cancel_right (htext.symm.trans htext'), rfl⟩

/-- No number is read just where no prefix of the text is one. -/
theorem readWritten_eq_none_iff (hclass : IsDigitClass isDigit) :
    readWritten isDigit text = none ↔ ∀ taken w, taken <+: text → ¬ IsWritten isDigit taken w := by
  constructor
  · rintro hnone taken w ⟨rest, rfl⟩ hwritten
    obtain ⟨w', rest', hread, -⟩ := hwritten.read hclass rest
    exact nomatch hnone.symm.trans hread
  · intro hall
    rw [Option.eq_none_iff_forall_ne_some]
    rintro ⟨w, rest⟩ hread
    obtain ⟨taken, hwritten, htext⟩ := exists_written hread
    exact hall taken w ⟨rest, htext.symm⟩ hwritten

end Abacus.Decimal
