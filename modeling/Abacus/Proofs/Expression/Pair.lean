import Abacus.Function
import Abacus.Proofs.Display.Return
import Abacus.Proofs.Expression.Meaning

/-!
# Pair — two numbers and an operator, calculated and written out

An operation on two finite doubles can be written as an expression: their plain texts in parentheses,
with the symbol of the operator between them.  The text of a double is a numeral without an exponent,
and an expression reads such a numeral as the double nearest to it, which is the double itself
(`literal_positional`).  A minus before it is read as a sign of the expression.  So the text is parsed
as the operation on the two (`parse_pair`), and what is left to compare is how the two ways of
calculating fail: the quotient by a zero, which one of them refuses beforehand, is never finite
(`computeExpression_pair_iff`).
-/

namespace Abacus

open Json (AreDigits IsNumeral)

namespace Expression

/-! ## Numerals as literals -/

/-- There is no point among digits. -/
theorem count_point {digits : List Char} (h : ∀ c ∈ digits, c.isDigit = true) :
    digits.count '.' = 0 :=
  List.count_eq_zero.mpr fun hpoint => absurd (h '.' hpoint) (by decide)

/-- Digits with a fraction or without one are a literal of their number. -/
theorem literal_of_isFraction {whole text : List Char} {fraction : Option (List Char)}
    (hwhole : AreDigits whole) (h : Json.IsFraction text fraction) :
    isLiteral (whole ++ text) = true ∧
      literalValue (whole ++ text) = (Decimal.ofParts whole (fraction.getD []) 0).toDouble false := by
  obtain ⟨first, rest, hcons, hfirst⟩ := hwhole.exists_cons
  have hdigit : (whole ++ text).any Char.isDigit = true :=
    List.any_eq_true.mpr ⟨first, by simp [hcons], hfirst⟩
  rw [isLiteral, hdigit, Bool.true_and, decide_eq_true_iff, List.count_append, count_point hwhole.2,
    literalValue, List.takeWhile_append_of_pos hwhole.2, List.dropWhile_append_of_pos hwhole.2]
  cases h with
  | absent => simp
  | digits hfraction =>
      refine ⟨?_, ?_⟩
      · simp [count_point hfraction.2]
      · simp [Char.isDigit]

/-- A numeral with neither a sign nor an exponent is a literal of its number. -/
theorem literal_of_isNumeral {text : List Char} {n : Json.Numeral} (h : IsNumeral text n)
    (hnumeric : ∀ c ∈ text, isNumeric c = true) :
    isLiteral text = true ∧ literalValue text = n.decimal.toDouble false := by
  obtain @⟨minus, whole, fractionText, exponentText, negative, fraction, exponent, hminus, hwhole,
    hfraction, hexponent⟩ := h
  cases hminus with
  | present => exact absurd (hnumeric '-' (by simp)) (by decide)
  | absent =>
      cases hexponent with
      | digits hmark hsign hdigits =>
          rcases hmark with rfl | rfl
          · exact absurd (hnumeric 'e' (by simp)) (by decide)
          · exact absurd (hnumeric 'E' (by simp)) (by decide)
      | absent =>
          rw [List.nil_append, List.append_nil]
          exact literal_of_isFraction hwhole.1 hfraction

/-- There are digits and at most a point in a positional text. -/
theorem isNumeric_positional (d : Decimal) : ∀ c ∈ d.positional, isNumeric c = true := by
  have hdigits {digits : List Char} (h : ∀ c ∈ digits, c.isDigit = true) :
      ∀ c ∈ digits, isNumeric c = true := fun c hc => by rw [isNumeric, h c hc, Bool.true_or]
  rcases Int.lt_or_le d.exponent 0 with hneg | hnonneg
  · obtain ⟨whole, fraction, htext, hwhole, hfraction, -⟩ := Decimal.exists_positional_eq hneg
    rw [htext]
    intro c hc
    rcases List.mem_append.mp hc with hc | hc
    · exact hdigits hwhole.1.2 c hc
    · rcases List.mem_cons.mp hc with rfl | hc
      · decide
      · exact hdigits hfraction.2 c hc
  · obtain ⟨digits, exponent⟩ := d
    obtain ⟨places, rfl⟩ := Int.eq_ofNat_of_zero_le hnonneg
    rw [Decimal.positional_natCast]
    intro c hc
    rcases List.mem_append.mp hc with hc | hc
    · exact hdigits (Decimal.areDigits_numeral digits).2 c hc
    · exact hdigits (fun _ => Decimal.isDigit_of_mem_zeros) c hc

/-- **The positional text of a magnitude is a literal of it.** -/
theorem literal_positional (m : Magnitude) :
    isLiteral (Decimal.shortest .up m).positional = true ∧
      literalValue (Decimal.shortest .up m).positional = .finite false m := by
  obtain ⟨n, hn, -, hvalue⟩ :=
    Decimal.denotes_positional (Decimal.digits_or_exponent_shortest .up m)
  obtain ⟨hliteral, hread⟩ := literal_of_isNumeral hn (isNumeric_positional _)
  refine ⟨hliteral, ?_⟩
  rw [hread, Decimal.toDouble_eq_ofRat, hvalue, ← Decimal.toDouble_eq_ofRat, Decimal.toDouble_eq_round,
    (Decimal.nearest_shortest .up m).round_eq false]

/-! ## Tokens as texts -/

/-- A text that is cut into tokens has arithmetic characters only. -/
theorem IsCut.isArithmetic {text : List Char} {tokens : List Token} (h : IsCut text tokens) {c : Char}
    (hc : c ∈ text) : isArithmetic c = true := by
  induction h with
  | nil => exact nomatch hc
  | number nonempty numeric ends later ih =>
      rcases List.mem_append.mp hc with hc | hc
      · simp [Expression.isArithmetic, numeric c hc]
      · exact ih hc
  | operator op later ih =>
      rcases List.mem_cons.mp hc with rfl | hc
      · cases op <;> decide
      · exact ih hc
  | opening later ih =>
      rcases List.mem_cons.mp hc with rfl | hc
      · decide
      · exact ih hc
  | closing later ih =>
      rcases List.mem_cons.mp hc with rfl | hc
      · decide
      · exact ih hc

/-- An arithmetic character is not white space. -/
theorem isBlank_of_isArithmetic {c : Char} (h : isArithmetic c = true) : Text.isBlank c = false := by
  simp only [Expression.isArithmetic, isNumeric, Bool.or_eq_true, beq_iff_eq] at h
  rcases h with (((((((hdigit | rfl) | rfl) | rfl) | rfl) | rfl) | rfl) | rfl)
  · exact Text.isBlank_of_isDigit hdigit
  all_goals decide

/-- Each token has characters. -/
theorem IsCut.ne_nil {text : List Char} {first : Token} {rest : List Token}
    (h : IsCut text (first :: rest)) : text ≠ [] := by
  cases h with
  | number nonempty numeric ends later => exact List.append_ne_nil_of_left_ne_nil nonempty _
  | operator op later => exact List.cons_ne_nil _ _
  | opening later => exact List.cons_ne_nil _ _
  | closing later => exact List.cons_ne_nil _ _

/-- A text that is cut into the tokens of a sum, with no operator repeated and literals for numbers, is
parsed as the tree of the sum. -/
theorem parse_of_isCut {text : String} {tokens : List Token} {tree : Tree}
    (hcut : IsCut text.toList tokens) (hnone : ¬ RepeatsOperator text.toList)
    (hliterals : ∀ digits, .number digits ∈ tokens → isLiteral digits = true)
    (hsum : IsSum 256 tokens tree) : parse text = .ok tree := by
  have hkept : (marks text).map Mark.char = text.toList := by
    rw [map_char_marks, List.filter_eq_self]
    intro c hc
    rw [isBlank_of_isArithmetic (hcut.isArithmetic hc)]
    rfl
  have hmarks : (marks text).isEmpty = false := by
    obtain ⟨first, rest, rfl, -⟩ := hsum.beginsWell
    obtain ⟨c, later, htext⟩ := List.exists_cons_of_ne_nil hcut.ne_nil
    have hc : c ∈ text.toList := htext ▸ List.mem_cons_self
    exact isEmpty_marks_iff.mpr ⟨c, hc, isBlank_of_isArithmetic (hcut.isArithmetic hc)⟩
  have hallowed : hasAllowedCharacters text = true := by
    rw [hasAllowedCharacters_iff hmarks]
    intro c hc
    rw [isAllowed, hcut.isArithmetic hc, Bool.true_or]
  rw [← hkept] at hcut hnone
  obtain ⟨found, hfound, hsame⟩ := exists_lexemes_iff.mpr
    ⟨hcut, hnone, hcut.hasNumbers_iff.mpr hliterals⟩
  rw [← hsame] at hsum
  exact parse_eq_ok_iff.mpr ⟨hmarks, hallowed, found, hfound, read_eq_ok_iff.mpr hsum⟩

/-- No operator is written as a parenthesis. -/
theorem symbol_ne_parenthesis (op : Operator) :
    op.symbol ≠ '(' ∧ op.symbol ≠ ')' := by
  cases op <;> decide

/-- A character that is no operator, or is not followed by itself, is no repeated operator. -/
theorem repeatsOperator_cons_of_ne {c : Char} {rest : List Char}
    (h : ∀ op : Operator, op.symbol ≠ c ∨ rest.head? ≠ some c) :
    RepeatsOperator (c :: rest) ↔ RepeatsOperator rest := by
  rw [repeatsOperator_cons_iff, or_iff_right]
  rintro ⟨op, hsymbol, hnext⟩
  exact (h op).elim (absurd hsymbol) (absurd hnext)

/-! ## A number in parentheses -/

section Enclosed

variable (negative : Bool) (digits : List Char)

/-- The tokens of a number in parentheses, with a minus before its digits if it has one. -/
def enclosed : List Token :=
  .opening :: ((if negative then [.operator .minus] else []) ++ [.number digits, .closing])

/-- The number, with its sign put before it. -/
def signedTree : Tree :=
  if negative then .signed true (.number digits) else .number digits

/-- A number in parentheses is an operand. -/
theorem isOperand_enclosed (room : Nat) :
    IsOperand (room + 2) (enclosed negative digits) (signedTree negative digits) := by
  cases negative with
  | false => exact .group (.product (.operand .number))
  | true => exact .group (.product (.operand (.minus .number)))

variable {negative digits} {rest : List Char} (nonempty : digits ≠ [])
  (numeric : ∀ c ∈ digits, isNumeric c = true)
include nonempty numeric

/-- The text of a number in parentheses is cut into its tokens. -/
theorem isCut_enclosed (negative : Bool) {tokens : List Token} (h : IsCut rest tokens) :
    IsCut ('(' :: (Double.withSign negative digits ++ ')' :: rest))
      (enclosed negative digits ++ tokens) := by
  have hdigits : IsCut (digits ++ ')' :: rest) (.number digits :: .closing :: tokens) := by
    refine .number nonempty numeric ?_ (.closing h)
    intro c hc
    obtain rfl := Option.some.inj hc
    decide
  cases negative with
  | false => exact .opening hdigits
  | true => exact .opening (.operator .minus hdigits)

/-- No operator is repeated in it. -/
theorem repeatsOperator_enclosed_iff :
    RepeatsOperator ('(' :: (Double.withSign negative digits ++ ')' :: rest)) ↔
      RepeatsOperator rest := by
  have hdigits : RepeatsOperator (digits ++ ')' :: rest) ↔ RepeatsOperator rest := by
    rw [repeatsOperator_append_iff numeric, repeatsOperator_cons_of_ne]
    exact fun op => Or.inl (symbol_ne_parenthesis op).2
  rw [repeatsOperator_cons_of_ne]
  · cases negative with
    | false => exact hdigits
    | true =>
        obtain ⟨c, more, rfl⟩ := List.exists_cons_of_ne_nil nonempty
        refine (repeatsOperator_cons_of_ne fun op => Or.inr fun hminus => ?_).trans hdigits
        obtain rfl := Option.some.inj hminus
        exact absurd (numeric '-' List.mem_cons_self) (by decide)
  · exact fun op => Or.inl (symbol_ne_parenthesis op).1

end Enclosed

/-- Two operands with any operator between them are a sum. -/
theorem isSum_joined {room : Nat} (op : Operator) {left right : List Token} {l r : Tree}
    (hl : IsOperand room left l) (hr : IsOperand room right r) :
    IsSum room (left ++ .operator op :: right) (.joined op l r) := by
  by_cases hadditive : op = .plus ∨ op = .minus
  · exact .joined hadditive (.product (.operand hl)) (.operand hr)
  · exact .product (.joined (Operator.times_or_over hadditive) (.operand hl) hr)

/-! ## Two numbers -/

/-- Two numbers in parentheses with an operator between them. -/
def pair (a : Double) (op : Operator) (b : Double) : String :=
  "(" ++ a.plain ++ ")" ++ String.singleton op.symbol ++ "(" ++ b.plain ++ ")"

theorem toList_pair (a : Double) (op : Operator) (b : Double) :
    (pair a op b).toList =
      '(' :: (a.plain.toList ++ ')' :: op.symbol :: '(' :: (b.plain.toList ++ [')'])) := by
  simp [pair]

/-- The tree of the text of a double. -/
theorem value_signedTree (negative : Bool) (m : Magnitude) :
    (signedTree negative (Decimal.shortest .up m).positional).value = .finite negative m := by
  obtain ⟨-, hvalue⟩ := literal_positional m
  cases negative with
  | false => exact hvalue
  | true => exact congrArg Double.negate hvalue

variable {negative negative' : Bool} {m m' : Magnitude}

/-- **The text of two numbers is parsed** as the operation on them. -/
theorem parse_pair (op : Operator) :
    parse (pair (.finite negative m) op (.finite negative' m')) =
      .ok (.joined op (signedTree negative (Decimal.shortest .up m).positional)
        (signedTree negative' (Decimal.shortest .up m').positional)) := by
  have hnonempty (m : Magnitude) : (Decimal.shortest .up m).positional ≠ [] := by
    intro hnil
    have hliteral := (literal_positional m).1
    rw [hnil] at hliteral
    exact absurd hliteral (by decide)
  have hnumeric (m : Magnitude) := isNumeric_positional (Decimal.shortest .up m)
  have htext := toList_pair (.finite negative m) op (.finite negative' m')
  simp only [Double.plain, String.toList_ofList] at htext
  refine parse_of_isCut ?_ ?_ ?_ (isSum_joined op (isOperand_enclosed negative _ 254)
    (isOperand_enclosed negative' _ 254))
  · have hright := isCut_enclosed (hnonempty m') (hnumeric m') negative' .nil
    rw [List.append_nil] at hright
    rw [htext]
    exact isCut_enclosed (hnonempty m) (hnumeric m) negative (.operator op hright)
  · rw [htext, repeatsOperator_enclosed_iff (hnonempty m) (hnumeric m), repeatsOperator_cons_of_ne,
      repeatsOperator_enclosed_iff (hnonempty m') (hnumeric m')]
    · rintro ⟨op, h⟩
      exact absurd (List.infix_nil.mp h) (List.cons_ne_nil _ _)
    · exact fun _ => Or.inr fun h => (symbol_ne_parenthesis op).1 (Option.some.inj h).symm
  · intro digits hdigits
    have hsame : digits = (Decimal.shortest .up m).positional ∨
        digits = (Decimal.shortest .up m').positional := by
      cases negative <;> cases negative' <;> simpa [enclosed] using hdigits
    rcases hsame with rfl | rfl
    · exact (literal_positional m).1
    · exact (literal_positional m').1

end Expression

/-! ## The two ways of calculating -/

/-- A text that is parsed has the value of its tree, if that is finite. -/
theorem computeExpression_of_parse {text : String} {tree : Expression.Tree}
    (h : Expression.parse text = .ok tree) :
    computeExpression text =
      if tree.value.isFinite then .ok tree.value
      else .error (.evaluation Expression.Fault.notFinite.message) := by
  rw [computeExpression, Expression.evaluate, h]
  dsimp only [bind, Except.bind]
  split <;> rfl

/-- A quotient by a zero is not finite. -/
theorem Double.isFinite_div_of_isZero {a b : Double} (hb : b.isZero = true) :
    (a / b).isFinite = false := by
  cases b with
  | nan => exact nomatch hb
  | infinite negative => exact nomatch hb
  | finite negative m =>
      have hzero : m.index = 0 := beq_iff_eq.mp hb
      cases a with
      | nan => rfl
      | infinite negative' => rfl
      | finite negative' m' =>
          show (Double.div _ _).isFinite = false
          rw [Double.div, if_pos hzero]
          split <;> rfl

theorem Operator.isFinite_apply_of_isZero {op : Operator} {a b : Double}
    (h : op = .over ∧ b.isZero = true) : (op.apply a b).isFinite = false := by
  obtain ⟨rfl, hzero⟩ := h
  exact Double.isFinite_div_of_isZero hzero

section Pair

open Expression (pair parse_pair)

variable {a b : Double} (ha : a.isFinite = true) (hb : b.isFinite = true) (op : Operator)
include ha hb

/-- The text of two numbers has the value of the operation on them, if that is finite. -/
theorem computeExpression_pair :
    computeExpression (pair a op b) =
      if (op.apply a b).isFinite then .ok (op.apply a b)
      else .error (.evaluation Expression.Fault.notFinite.message) := by
  obtain ⟨negative, m, rfl⟩ := Double.exists_eq_finite ha
  obtain ⟨negative', m', rfl⟩ := Double.exists_eq_finite hb
  rw [computeExpression_of_parse (parse_pair op)]
  simp only [Expression.Tree.value, Expression.value_signedTree]

/-- The operation on two numbers, by the symbol of the operator. -/
theorem computeBasic_symbol :
    computeBasic a b (String.singleton op.symbol) =
      if op == .over && b.isZero then .error .divisionByZero else finiteResult (op.apply a b) := by
  have hop : Operator.ofText? (String.singleton op.symbol) = some op := by
    cases op <;> decide
  rw [computeBasic, ha, hb, hop]
  rfl

/-- The operation has a value if that is finite, and a quotient by a zero is not. -/
theorem computeBasic_of_isFinite (hfinite : (op.apply a b).isFinite = true) :
    computeBasic a b (String.singleton op.symbol) = .ok (op.apply a b) := by
  have hdivides : ¬ (op == .over && b.isZero) = true := by
    intro h
    have hzero : op = .over ∧ b.isZero = true := by simpa using h
    exact nomatch hfinite.symm.trans (Operator.isFinite_apply_of_isZero hzero)
  rw [computeBasic_symbol ha hb, if_neg hdivides, finiteResult, if_pos hfinite]

theorem exists_computeBasic_eq_error (hfinite : (op.apply a b).isFinite = false) :
    ∃ refusal, computeBasic a b (String.singleton op.symbol) = .error refusal := by
  rw [computeBasic_symbol ha hb, finiteResult, hfinite]
  split
  · exact ⟨_, rfl⟩
  · exact ⟨_, rfl⟩

/-- **Two numbers are calculated alike** as operands and as a text.  Their plain texts are read back as
the numbers themselves, an expression of the two texts has a value just if the operation has, and then
the same one, to the sign of a zero.  Both fail for a quotient by a zero of either sign and for a result
that is not finite, and only then. -/
theorem computeExpression_pair_iff :
    Number.parse a.plain = some a ∧ Number.parse b.plain = some b ∧
      (∀ value, computeExpression (pair a op b) = .ok value ↔
        computeBasic a b (String.singleton op.symbol) = .ok value) ∧
      ((∃ refusal, computeExpression (pair a op b) = .error refusal) ↔
        ∃ refusal, computeBasic a b (String.singleton op.symbol) = .error refusal) ∧
      ((∃ refusal, computeBasic a b (String.singleton op.symbol) = .error refusal) ↔
        op = .over ∧ b.isZero = true ∨ (op.apply a b).isFinite = false) := by
  have hread {x : Double} (hx : x.isFinite = true) : Number.parse x.plain = some x := by
    obtain ⟨negative, m, rfl⟩ := Double.exists_eq_finite hx
    exact Display.parse_plain negative m
  have hexpression := computeExpression_pair ha hb op
  refine ⟨hread ha, hread hb, ?_⟩
  cases hfinite : (op.apply a b).isFinite with
  | true =>
      have hnone : ¬ (op = .over ∧ b.isZero = true ∨ true = false) := by
        rintro (hzero | h)
        · exact nomatch hfinite.symm.trans (Operator.isFinite_apply_of_isZero hzero)
        · exact nomatch h
      rw [hfinite, if_pos rfl] at hexpression
      rw [hexpression, computeBasic_of_isFinite ha hb op hfinite]
      refine ⟨fun value => Iff.rfl, Iff.rfl, ?_⟩
      exact iff_of_false (fun ⟨_, h⟩ => nomatch h) hnone
  | false =>
      obtain ⟨refusal, hrefused⟩ := exists_computeBasic_eq_error ha hb op hfinite
      rw [hfinite, if_neg Bool.false_ne_true] at hexpression
      rw [hexpression, hrefused]
      refine ⟨fun value => iff_of_false (fun h => nomatch h) (fun h => nomatch h), ?_, ?_⟩
      · exact iff_of_true ⟨_, rfl⟩ ⟨_, rfl⟩
      · exact iff_of_true ⟨_, rfl⟩ (Or.inr rfl)

end Pair

/-- Minus zero times a number below zero is zero, and a quotient by minus zero fails, both ways. -/
theorem computeExpression_pair_minus_zero :
    let zero := Double.zero true
    let other := Decimal.toDouble true ⟨25, -1⟩
    zero.isFinite = true ∧ other.isFinite = true ∧
      computeExpression "(-0)*(-2.5)" = .ok (.zero false) ∧
      ∃ refusal, computeExpression "(-2.5)/(-0)" = .error refusal := by
  intro zero other
  have hzero : zero.isFinite = true := by decide +kernel
  have hother : other.isFinite = true := by decide +kernel
  have htimes : Expression.pair zero .times other = "(-0)*(-2.5)" := by decide +kernel
  have hover : Expression.pair other .over zero = "(-2.5)/(-0)" := by decide +kernel
  obtain ⟨-, -, hvalue, -, -⟩ := computeExpression_pair_iff hzero hother .times
  obtain ⟨-, -, -, hfails, hcauses⟩ := computeExpression_pair_iff hother hzero .over
  rw [← htimes, ← hover]
  refine ⟨hzero, hother, (hvalue _).mpr (by decide +kernel), ?_⟩
  exact hfails.mpr (hcauses.mpr (Or.inl ⟨rfl, by decide +kernel⟩))

end Abacus
