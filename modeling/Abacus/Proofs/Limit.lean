import Abacus.Number
import Abacus.CommandLine.Invocation
import Abacus.Proofs.Decimal.Written
import Abacus.Proofs.Except

/-!
# Limits — the number that a limit asks for

A limit is told in decimal digits in a query and on the command line.  Both read the number that the
digits denote, as long as it is not too great: the command line takes up to sixty-four bits
(`amount?_numeral`), a query one less and the default in place of what is greater
(`Limit.ofText_numeral`).  A query may hold any text.  Its limit is the number that is asked for at the
start of it, cut to sixty-four bits, just if that number is not too great and no digit of another script
comes after it, or if it is the default anyway (`Limit.isMeant_ofText_iff`).
-/

namespace Abacus

open Decimal (numeral)

/-- A numeral begins with a digit. -/
theorem Decimal.exists_numeral_eq_cons (n : Nat) :
    ∃ c rest, numeral n = c :: rest ∧ c.isDigit = true := by
  obtain ⟨c, rest, h⟩ := List.exists_cons_of_length_pos (l := numeral n) Nat.length_toDigits_pos
  exact ⟨c, rest, h, isDigit_of_mem_numeral (h ▸ List.mem_cons_self)⟩

/-- A digit is no character that is none. -/
theorem Decimal.ne_of_isDigit {c d : Char} (hc : c.isDigit = true) (hd : d.isDigit = false) : c ≠ d := by
  rintro rfl
  exact Bool.false_ne_true (hd.symm.trans hc)

namespace Limit

open Decimal (valueOf)
open Json (AreDigits)

/-! ## Any text -/

/-- The text begins with digits, with a plus in front or without one, and so it goes on after them. -/
structure AsksFor (text digits rest : List Char) : Prop where
  starts : text = digits ++ rest ∨ text = '+' :: (digits ++ rest)
  digits : AreDigits digits
  ends : ∀ c ∈ rest.head?, c.isDigit = false

/-- The limit that a caller means who may have sent a text. -/
inductive IsMeant (text : Option String) : Nat → Prop where
  | asked {s : String} {digits rest : List Char} : text = some s →
      AsksFor (Text.dropBlanks s.toList) digits rest → 0 < valueOf digits →
        IsMeant text (min (valueOf digits) CommandLine.greatestLimit)
  | default : (∀ s digits rest, text = some s → AsksFor (Text.dropBlanks s.toList) digits rest →
      ¬ 0 < valueOf digits) → IsMeant text default

section Reading

variable {text digits rest digits' rest' : List Char} {s : String}

/-- The sign is taken off what asks for a number. -/
theorem AsksFor.readSign (h : AsksFor text digits rest) :
    Decimal.readSign text = (false, digits ++ rest) := by
  rcases h.starts with rfl | rfl
  · refine Decimal.readSign_eq .absent fun c hc => ?_
    obtain ⟨d, digits, rfl⟩ := List.exists_cons_of_ne_nil h.digits.1
    obtain rfl := Option.some.inj hc
    have hd := h.digits.2 d List.mem_cons_self
    exact ⟨Decimal.ne_of_isDigit hd (by decide), Decimal.ne_of_isDigit hd (by decide)⟩
  · rfl

/-- A text asks for one number only. -/
theorem AsksFor.unique (h : AsksFor text digits rest) (h' : AsksFor text digits' rest') :
    digits = digits' ∧ rest = rest' := by
  have hboth := (Prod.mk.inj (h.readSign.symm.trans h'.readSign)).2
  have htake := congrArg (List.takeWhile Char.isDigit) hboth
  rw [List.takeWhile_append_of_pos h.digits.2, List.takeWhile_append_of_pos h'.digits.2,
    (Decimal.span_eq h.ends).1, (Decimal.span_eq h'.ends).1, List.append_nil, List.append_nil] at htake
  rw [htake] at hboth
  exact ⟨htake, List.append_cancel_left hboth⟩

/-- The digits that are asked for are taken, and those of other scripts after them. -/
theorem AsksFor.takeWhile (h : AsksFor text digits rest) :
    (digits ++ rest).takeWhile Text.isDecimalDigit = digits ++ rest.takeWhile Text.isDecimalDigit :=
  List.takeWhile_append_of_pos fun c hc => Text.isDecimalDigit_of_isDigit (h.digits.2 c hc)

/-- The number that is asked for is read if no digit of another script comes after it. -/
theorem parse?_of_asksFor (h : AsksFor (Text.dropBlanks s.toList) digits rest)
    (hrest : ∀ c ∈ rest.head?, Text.isDecimalDigit c = false) :
    parse? s = if valueOf digits = 0 || greatest < valueOf digits then none
      else some (valueOf digits) := by
  rw [parse?, h.readSign]
  dsimp only
  rw [h.takeWhile, (Decimal.span_eq hrest).1, List.append_nil, List.all_eq_true.mpr h.digits.2,
    show digits.isEmpty = false by simp [h.digits.1]]
  rfl

/-- Nothing is read if one does. -/
theorem parse?_of_digit (h : AsksFor (Text.dropBlanks s.toList) digits rest) {c : Char}
    (hc : c ∈ rest.head?) (hdigit : Text.isDecimalDigit c = true) : parse? s = none := by
  have hother : ((digits ++ rest).takeWhile Text.isDecimalDigit).all Char.isDigit = false := by
    rw [h.takeWhile, List.head?_eq_some_iff.mp hc |>.choose_spec, List.takeWhile_cons_of_pos hdigit,
      List.all_append, List.all_cons, h.ends c hc, Bool.false_and, Bool.and_false]
  rw [parse?, h.readSign]
  dsimp only
  rw [hother, Bool.not_false, Bool.or_true, Bool.true_or, if_pos rfl]

/-- What is read is asked for. -/
theorem exists_asksFor {n : Nat} (h : parse? s = some n) :
    ∃ digits rest, AsksFor (Text.dropBlanks s.toList) digits rest := by
  obtain ⟨sign, hsign, htext⟩ := Decimal.exists_sign (Text.dropBlanks s.toList)
  rw [parse?] at h
  dsimp only at h
  split at h
  · exact nomatch h
  · next hread =>
    simp only [Bool.or_eq_true, not_or, Bool.not_eq_true, Bool.not_eq_false'] at hread
    obtain ⟨⟨hsome, hascii⟩, hsigned⟩ := hread
    rw [hsigned] at hsign
    generalize (Decimal.readSign (Text.dropBlanks s.toList)).2 = unsigned at *
    have hends := List.head?_dropWhile_not Text.isDecimalDigit unsigned
    refine ⟨unsigned.takeWhile Text.isDecimalDigit, unsigned.dropWhile Text.isDecimalDigit, ?_,
      ⟨by simpa using hsome, List.all_eq_true.mp hascii⟩, fun c hc => ?_⟩
    · rw [List.takeWhile_append_dropWhile, htext]
      cases hsign with
      | absent => exact Or.inl rfl
      | plus => exact Or.inr rfl
    · rw [hc] at hends
      refine Bool.eq_false_iff.mpr fun hdigit => ?_
      exact Bool.false_ne_true (hends.symm.trans (Text.isDecimalDigit_of_isDigit hdigit))

/-- The number that is asked for is the limit, if it is not too great and if no digit of another script
comes after it. -/
theorem ofText_of_asksFor (h : AsksFor (Text.dropBlanks s.toList) digits rest) (hpos : 0 < valueOf digits)
    (hle : valueOf digits ≤ greatest) (hrest : ∀ c ∈ rest.head?, Text.isDecimalDigit c = false) :
    ofText (some s) = valueOf digits := by
  have hread : ¬ (decide (valueOf digits = 0) || decide (greatest < valueOf digits)) = true := by
    simp [hpos.ne', hle]
  rw [ofText, Option.bind_some, parse?_of_asksFor h hrest, if_neg hread]
  rfl

/-- The default is the limit otherwise. -/
theorem ofText_eq_default_of_asksFor (h : AsksFor (Text.dropBlanks s.toList) digits rest)
    (hnot : ¬ (0 < valueOf digits ∧ valueOf digits ≤ greatest ∧
      ∀ c ∈ rest.head?, Text.isDecimalDigit c = false)) : ofText (some s) = default := by
  have hnone : parse? s = none := by
    by_cases hrest : ∀ c ∈ rest.head?, Text.isDecimalDigit c = false
    · have hbounds : valueOf digits = 0 ∨ greatest < valueOf digits := by
        by_contra hneither
        exact hnot ⟨by omega, by omega, hrest⟩
      rw [parse?_of_asksFor h hrest, if_pos]
      simpa using hbounds
    · obtain ⟨c, hc⟩ := not_forall.mp hrest
      obtain ⟨hmem, hdigit⟩ := Classical.not_imp.mp hc
      exact parse?_of_digit h hmem (Bool.not_eq_false _ ▸ hdigit)
  rw [ofText, Option.bind_some, hnone]
  rfl

/-- The limit of a text that does not, or asks for none. -/
theorem ofText_eq_default {text : Option String}
    (h : ∀ s digits rest, text = some s → AsksFor (Text.dropBlanks s.toList) digits rest →
      ¬ 0 < valueOf digits) : ofText text = default := by
  cases text with
  | none => rfl
  | some s =>
      cases hread : parse? s with
      | none =>
          rw [ofText, Option.bind_some, hread]
          rfl
      | some n =>
          obtain ⟨digits, rest, hasks⟩ := exists_asksFor hread
          exact ofText_eq_default_of_asksFor hasks fun hnot => h s digits rest rfl hasks hnot.1

/-- Only one limit is meant by a text that asks for a number. -/
theorem isMeant_iff_of_asksFor (h : AsksFor (Text.dropBlanks s.toList) digits rest)
    (hpos : 0 < valueOf digits) {n : Nat} :
    IsMeant (some s) n ↔ n = min (valueOf digits) CommandLine.greatestLimit := by
  constructor
  · rintro (⟨heq, h', -⟩ | hnone)
    · obtain rfl := Option.some.inj heq
      obtain ⟨rfl, -⟩ := h.unique h'
      rfl
    · exact absurd hpos (hnone s digits rest rfl h)
  · rintro rfl
    exact .asked rfl h hpos

end Reading

/-- **The limit** of a query is above zero.  It is the one that is meant, just if the number that is asked
for is the default, or not too great and without a digit of another script behind it. -/
theorem isMeant_ofText_iff (text : Option String) :
    0 < ofText text ∧ (IsMeant text (ofText text) ↔
      ∀ s digits rest, text = some s → AsksFor (Text.dropBlanks s.toList) digits rest →
        0 < valueOf digits → valueOf digits = default ∨
          valueOf digits ≤ greatest ∧ ∀ c ∈ rest.head?, Text.isDecimalDigit c = false) := by
  refine ⟨ofText_pos text, ?_⟩
  by_cases hasks : ∃ s digits rest, text = some s ∧ AsksFor (Text.dropBlanks s.toList) digits rest ∧
      0 < valueOf digits
  · obtain ⟨s, digits, rest, rfl, hasks, hpos⟩ := hasks
    have hone : (∀ s' digits rest, some s = some s' → AsksFor (Text.dropBlanks s'.toList) digits rest →
        0 < valueOf digits → valueOf digits = default ∨
          valueOf digits ≤ greatest ∧ ∀ c ∈ rest.head?, Text.isDecimalDigit c = false) ↔
        valueOf digits = default ∨
          valueOf digits ≤ greatest ∧ ∀ c ∈ rest.head?, Text.isDecimalDigit c = false := by
      refine ⟨fun hall => hall s digits rest rfl hasks hpos, ?_⟩
      rintro hthis s' digits' rest' heq hasks' -
      obtain rfl := Option.some.inj heq
      obtain ⟨rfl, rfl⟩ := hasks.unique hasks'
      exact hthis
    have hgreatest : greatest = 0x7FFFFFFFFFFFFFFF := rfl
    have hlimit : CommandLine.greatestLimit = 0xFFFFFFFFFFFFFFFF := rfl
    have hdefault : default = 50 := rfl
    rw [hone, isMeant_iff_of_asksFor hasks hpos]
    by_cases hread : valueOf digits ≤ greatest ∧ ∀ c ∈ rest.head?, Text.isDecimalDigit c = false
    · rw [ofText_of_asksFor hasks hpos hread.1 hread.2]
      exact iff_of_true (by omega) (Or.inr hread)
    · rw [ofText_eq_default_of_asksFor hasks fun hall => hread hall.2, or_iff_left hread]
      omega
  · have hnone : ∀ s digits rest, text = some s → AsksFor (Text.dropBlanks s.toList) digits rest →
        ¬ 0 < valueOf digits :=
      fun s digits rest htext h hpos => hasks ⟨s, digits, rest, htext, h, hpos⟩
    rw [ofText_eq_default hnone]
    exact iff_of_true (.default hnone) fun s digits rest htext h hpos =>
      absurd hpos (hnone s digits rest htext h)

/-- A number of sixty-four bits that does not fit into sixty-three is not the limit. -/
theorem not_isMeant_ofText_great : ¬ ∀ text, IsMeant text (ofText text) := by
  intro h
  have hmeant := h (some "9223372036854775808")
  have hasks : AsksFor (Text.dropBlanks "9223372036854775808".toList) "9223372036854775808".toList [] :=
    ⟨Or.inl (by decide +kernel), ⟨by decide +kernel, List.all_eq_true.mp (by decide +kernel)⟩,
      fun _ hc => nomatch hc⟩
  rw [isMeant_iff_of_asksFor hasks (by decide +kernel)] at hmeant
  exact absurd hmeant (by decide +kernel)

example : ofText (some "25rows") = 25 := by decide +kernel

/-! ## Digits alone -/

/-- The limit in a text of digits alone is the number that they denote. -/
theorem parse?_numeral (n : Nat) :
    parse? (String.ofList (numeral n)) = if n = 0 || greatest < n then none else some n := by
  obtain ⟨c, rest, hcons, hc⟩ := Decimal.exists_numeral_eq_cons n
  have hdigits : AreDigits (numeral n) :=
    ⟨by simp [hcons], fun d => Decimal.isDigit_of_mem_numeral⟩
  have hblank : Text.dropBlanks (numeral n) = numeral n := by
    rw [hcons, Text.dropBlanks, List.dropWhile_cons_of_neg (by simp [Text.isBlank_of_isDigit hc])]
  have hnone {d : Char} (hd : d ∈ ([] : List Char).head?) : False := nomatch hd
  have hasks : AsksFor (Text.dropBlanks (String.ofList (numeral n)).toList) (numeral n) [] := by
    rw [String.toList_ofList, hblank]
    exact ⟨Or.inl (List.append_nil _).symm, hdigits, fun d hd => (hnone hd).elim⟩
  rw [parse?_of_asksFor hasks fun d hd => (hnone hd).elim, Decimal.valueOf_numeral]

/-- A query asks for the number that its limit denotes, or for the default if that is too great. -/
theorem ofText_numeral (n : Nat) :
    ofText (some (String.ofList (numeral n))) = if n ≤ greatest then orDefault n else default := by
  rw [ofText, Option.bind_some, parse?_numeral, orDefault]
  by_cases hzero : n = 0
  · simp [hzero]
  · by_cases hle : n ≤ greatest
    · simp [hzero, hle, Nat.not_lt.mpr hle]
    · simp [hzero, hle, Nat.not_le.mp hle]

end Limit

namespace CommandLine

/-- An amount in decimal digits is the number that they denote. -/
theorem amount?_numeral {greatest n : Nat} (h : n ≤ greatest) :
    amount? greatest (String.ofList (numeral n)) = some n := by
  obtain ⟨c, rest, hcons, hc⟩ := Decimal.exists_numeral_eq_cons n
  have hdigits : ∀ d ∈ numeral n, d.isDigit = true := fun d => Decimal.isDigit_of_mem_numeral
  have hempty : (numeral n).isEmpty = false := by
    rw [hcons]
    rfl
  rw [amount?, String.toList_ofList]
  split
  · next heq =>
    rw [hcons] at heq
    exact absurd (List.cons.inj heq).1 (Decimal.ne_of_isDigit hc (by decide))
  · simp [hempty, Nat.not_lt.mpr h]
    exact hdigits

/-- The arguments that ask for the history in JSON, with a limit. -/
def historyArguments (limit : Nat) : List String :=
  ["history", "--json", "--limit", String.ofList (numeral limit)]

/-- An argument that does not begin with a dash is a value. -/
theorem Level.piece_eq_value {level : Level} {placed : Nat} {text : String} {c : Char}
    {rest : List Char} (h : text.toList = c :: rest) (hc : c ≠ '-') :
    level.piece placed text = .ok .value := by
  rw [piece, h]
  split
  · next heq => exact absurd (List.cons.inj heq).1 hc
  · next heq => exact absurd (List.cons.inj heq).1 hc
  · rfl

/-- What is read of the arguments after the command. -/
def historyReading (limit : Nat) : Reading :=
  ⟨[(.switch "json" none, none), (.setting "limit" (some 'l'), some (String.ofList (numeral limit)))],
    [], none⟩

/-- What is read of all of these arguments. -/
def historyReadings (limit : Nat) : List Reading :=
  [⟨[], [], some ("history", ["--json", "--limit", String.ofList (numeral limit)])⟩,
    historyReading limit]

theorem historyLevel_read (limit : Nat) :
    historyLevel.read ["--json", "--limit", String.ofList (numeral limit)] =
      .ok (historyReading limit) := by
  obtain ⟨c, rest, hcons, hc⟩ := Decimal.exists_numeral_eq_cons limit
  have hchars : (String.ofList (numeral limit)).toList = c :: rest :=
    (String.toList_ofList ..).trans hcons
  have hdash : c ≠ '-' := Decimal.ne_of_isDigit hc (by decide)
  have hdashes : (String.ofList (numeral limit) == "--") = false := by
    rw [beq_eq_false_iff_ne]
    intro h
    rw [h] at hchars
    exact hdash (List.cons.inj hchars).1.symm
  have hread : historyLevel.readFrom none false .empty
      ["--json", "--limit", String.ofList (numeral limit)] = .ok (historyReading limit) := by
    -- the first argument is a switch, and the second waits for its value
    show historyLevel.readFrom (some (.setting "limit" (some 'l'))) false
      ⟨[(.switch "json" none, none)], [], none⟩ [String.ofList (numeral limit)] = _
    rw [Level.readFrom, hdashes, Level.piece_eq_value hchars hdash]
    rfl
  rw [Level.read, hread]
  rfl

/-- The arguments are read as a look at the history in JSON with the limit, unless what the
environment says about telling what is done is no truth value. -/
theorem read_historyArguments {limit : Nat} (h : limit ≤ greatestLimit) (environment : Environment) :
    Invocation.read environment (historyArguments limit) =
      (verbosity environment (historyReadings limit)).map fun isVerbose =>
        ⟨databaseOf environment (historyReadings limit), isVerbose, .history limit true⟩ := by
  have htop : topLevel.read (historyArguments limit) =
      .ok ⟨[], [], some ("history", ["--json", "--limit", String.ofList (numeral limit)])⟩ := rfl
  have haction : Action.ofHistory (historyReading limit) = .ok (.history limit true) := by
    show (orRefuse (amount? greatestLimit (String.ofList (numeral limit))) >>= fun limit => _) = _
    rw [amount?_numeral h]
    rfl
  have hread : Action.read environment.port "history"
      ["--json", "--limit", String.ofList (numeral limit)] =
        .ok (.history limit true, [historyReading limit]) := by
    show (historyLevel.read _ >>= fun reading => _) = _
    rw [historyLevel_read]
    show (Action.ofHistory (historyReading limit) >>= fun action => _) = _
    rw [haction]
    rfl
  rw [Invocation.read, htop]
  show (Action.read environment.port "history" _ >>= fun found => _) = _
  rw [hread]
  rfl

end CommandLine

end Abacus
