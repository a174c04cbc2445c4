import Abacus.Expression.Evaluation
import Abacus.Proofs.Decimal.Reading
import Abacus.Proofs.Expression.Cut
import Abacus.Proofs.Expression.Reading

/-!
# Meaning — which texts have a value, and which value

A text denotes a value when its characters are allowed, no operator is repeated and every stretch
of digits and points is a number once white space is deleted, and the tokens that are left are
derived by the grammar with at most 256 signs and groups open at once.  The value is that of the
derivation, if it is finite.  Evaluation answers with exactly this value, and with a refusal to
evaluate where there is none.

The derivations of `IsSumOf` carry the value themselves: a number is the double nearest to what its
digits say, and each other rule is one operation on doubles.  No tree and no function of the
evaluation takes part in them.  They derive the same tokens as the grammar of trees, and their values
are those of its trees (`IsSumOf.exists_tree`, `IsSum.isSumOf`).
-/

namespace Abacus.Expression

/-! ## Derivations with values -/

/-- Digits, or digits around a point, and the double nearest to the number that they are. -/
inductive IsLiteralOf : List Char → Double → Prop where
  | whole {digits : List Char} : (∀ c ∈ digits, c.isDigit = true) →
      IsLiteralOf digits (.ofRat false (Decimal.valueOf digits))
  | pointed {whole fraction : List Char} : (∀ c ∈ whole, c.isDigit = true) →
      (∀ c ∈ fraction, c.isDigit = true) →
        IsLiteralOf (whole ++ '.' :: fraction)
          (.ofRat false (Decimal.valueOf (whole ++ fraction) / 10 ^ fraction.length))

mutual

/-- The tokens are a sum with the given value. -/
inductive IsSumOf : (room : Nat) → List Token → Double → Prop where
  | product {room : Nat} {tokens : List Token} {value : Double} :
      IsProductOf room tokens value → IsSumOf room tokens value
  | plus {room : Nat} {left right : List Token} {x y : Double} :
      IsSumOf room left x → IsProductOf room right y →
        IsSumOf room (left ++ .operator .plus :: right) (x + y)
  | minus {room : Nat} {left right : List Token} {x y : Double} :
      IsSumOf room left x → IsProductOf room right y →
        IsSumOf room (left ++ .operator .minus :: right) (x - y)

/-- The tokens are a product with the given value. -/
inductive IsProductOf : (room : Nat) → List Token → Double → Prop where
  | operand {room : Nat} {tokens : List Token} {value : Double} :
      IsOperandOf room tokens value → IsProductOf room tokens value
  | times {room : Nat} {left right : List Token} {x y : Double} :
      IsProductOf room left x → IsOperandOf room right y →
        IsProductOf room (left ++ .operator .times :: right) (x * y)
  | over {room : Nat} {left right : List Token} {x y : Double} :
      IsProductOf room left x → IsOperandOf room right y →
        IsProductOf room (left ++ .operator .over :: right) (x / y)

/-- The tokens are an operand with the given value. -/
inductive IsOperandOf : (room : Nat) → List Token → Double → Prop where
  | number {room : Nat} {digits : List Char} {value : Double} :
      IsLiteralOf digits value → IsOperandOf room [.number digits] value
  | plus {room : Nat} {tokens : List Token} {value : Double} :
      IsOperandOf room tokens value → IsOperandOf (room + 1) (.operator .plus :: tokens) value
  | minus {room : Nat} {tokens : List Token} {value : Double} :
      IsOperandOf room tokens value → IsOperandOf (room + 1) (.operator .minus :: tokens) (-value)
  | group {room : Nat} {tokens : List Token} {value : Double} :
      IsSumOf room tokens value →
        IsOperandOf (room + 1) (.opening :: tokens ++ [.closing]) value

end

/-- The characters of a text that are not white space. -/
def written (text : String) : List Char :=
  text.toList.filter fun c => !Text.isBlank c

/-- The text is an expression with the given value. -/
structure Denotes (text : String) (value : Double) : Prop where
  notBlank : ∃ c ∈ text.toList, Text.isBlank c = false
  allowed : ∀ c ∈ text.toList,
    c.isDigit = true ∨ c ∈ ['.', '+', '-', '*', '/', '(', ')'] ∨ Text.isBlank c = true
  noRepetition : ¬ RepeatsOperator (written text)
  numbers : HasNumbers (written text)
  derived : ∃ tokens, IsCut (written text) tokens ∧ IsSumOf 256 tokens value
  finite : value.isFinite = true

/-! ## Values and trees -/

/-- A literal is read as the double nearest to its number. -/
theorem IsLiteralOf.literalValue_eq {digits : List Char} {value : Double}
    (h : IsLiteralOf digits value) : literalValue digits = value := by
  cases h with
  | whole hdigits =>
      rw [literalValue, List.takeWhile_eq_self_iff.mpr hdigits, List.dropWhile_eq_nil_iff.mpr hdigits,
        List.drop_nil, Decimal.toDouble_eq_ofRat, Decimal.ofParts, Decimal.toRat]
      simp
  | @pointed whole fraction hwhole hfraction =>
      rw [literalValue, List.takeWhile_append_of_pos hwhole, List.dropWhile_append_of_pos hwhole,
        List.takeWhile_cons_of_neg (by simp), List.dropWhile_cons_of_neg (by simp), List.append_nil,
        List.drop_one, List.tail_cons, Decimal.toDouble_eq_ofRat, Decimal.ofParts, Decimal.toRat,
        zero_sub, zpow_neg, zpow_natCast, div_eq_mul_inv]

/-- A stretch of digits with at most one point is a literal of its value. -/
theorem isLiteralOf_literalValue {digits : List Char} (hnumeric : ∀ c ∈ digits, isNumeric c = true)
    (hpoints : digits.count '.' ≤ 1) : IsLiteralOf digits (literalValue digits) := by
  have hdigit {c : Char} (hc : isNumeric c = true) (hne : c ≠ '.') : c.isDigit = true := by
    simpa [isNumeric, hne] using hc
  by_cases hpoint : '.' ∈ digits
  · obtain ⟨whole, fraction, rfl⟩ := List.append_of_mem hpoint
    have hnone : '.' ∉ whole ∧ '.' ∉ fraction := by
      rw [List.count_append, List.count_cons_self] at hpoints
      constructor
      · exact List.count_eq_zero.mp (by omega)
      · exact List.count_eq_zero.mp (by omega)
    have hwhole : ∀ c ∈ whole, c.isDigit = true := fun c hc =>
      hdigit (hnumeric c (by simp [hc])) (ne_of_mem_of_not_mem hc hnone.1)
    have hfraction : ∀ c ∈ fraction, c.isDigit = true := fun c hc =>
      hdigit (hnumeric c (by simp [hc])) (ne_of_mem_of_not_mem hc hnone.2)
    have h := IsLiteralOf.pointed hwhole hfraction
    rwa [← h.literalValue_eq] at h
  · have h := IsLiteralOf.whole fun c hc =>
      hdigit (hnumeric c hc) (ne_of_mem_of_not_mem hc hpoint)
    rwa [← h.literalValue_eq] at h

mutual

/-- An operand with a value is the operand of a tree with that value. -/
theorem IsOperandOf.exists_tree {room : Nat} {tokens : List Token} {value : Double} :
    IsOperandOf room tokens value → ∃ tree, IsOperand room tokens tree ∧ tree.value = value
  | .number h => ⟨_, .number, h.literalValue_eq⟩
  | .plus h => by
      obtain ⟨tree, htree, hvalue⟩ := h.exists_tree
      exact ⟨_, .plus htree, hvalue⟩
  | .minus h => by
      obtain ⟨tree, htree, rfl⟩ := h.exists_tree
      exact ⟨_, .minus htree, rfl⟩
  | .group h => by
      obtain ⟨tree, htree, hvalue⟩ := h.exists_tree
      exact ⟨_, .group htree, hvalue⟩

/-- A product with a value is the product of a tree with that value. -/
theorem IsProductOf.exists_tree {room : Nat} {tokens : List Token} {value : Double} :
    IsProductOf room tokens value → ∃ tree, IsProduct room tokens tree ∧ tree.value = value
  | .operand h => by
      obtain ⟨tree, htree, hvalue⟩ := h.exists_tree
      exact ⟨_, .operand htree, hvalue⟩
  | .times hleft hright => by
      obtain ⟨l, hl, rfl⟩ := hleft.exists_tree
      obtain ⟨r, hr, rfl⟩ := hright.exists_tree
      exact ⟨_, .joined (Or.inl rfl) hl hr, rfl⟩
  | .over hleft hright => by
      obtain ⟨l, hl, rfl⟩ := hleft.exists_tree
      obtain ⟨r, hr, rfl⟩ := hright.exists_tree
      exact ⟨_, .joined (Or.inr rfl) hl hr, rfl⟩

/-- A sum with a value is the sum of a tree with that value. -/
theorem IsSumOf.exists_tree {room : Nat} {tokens : List Token} {value : Double} :
    IsSumOf room tokens value → ∃ tree, IsSum room tokens tree ∧ tree.value = value
  | .product h => by
      obtain ⟨tree, htree, hvalue⟩ := h.exists_tree
      exact ⟨_, .product htree, hvalue⟩
  | .plus hleft hright => by
      obtain ⟨l, hl, rfl⟩ := hleft.exists_tree
      obtain ⟨r, hr, rfl⟩ := hright.exists_tree
      exact ⟨_, .joined (Or.inl rfl) hl hr, rfl⟩
  | .minus hleft hright => by
      obtain ⟨l, hl, rfl⟩ := hleft.exists_tree
      obtain ⟨r, hr, rfl⟩ := hright.exists_tree
      exact ⟨_, .joined (Or.inr rfl) hl hr, rfl⟩

end

/-- The numbers among the tokens are literals, which the grammar of trees does not ask for. -/
def HasLiterals (tokens : List Token) : Prop :=
  ∀ digits, .number digits ∈ tokens → IsLiteralOf digits (literalValue digits)

theorem HasLiterals.tail {token : Token} {rest : List Token} (h : HasLiterals (token :: rest)) :
    HasLiterals rest :=
  fun digits hmem => h digits (List.mem_cons_of_mem _ hmem)

theorem HasLiterals.left {left right : List Token} {token : Token}
    (h : HasLiterals (left ++ token :: right)) : HasLiterals left :=
  fun digits hmem => h digits (List.mem_append_left _ hmem)

theorem HasLiterals.right {left right : List Token} {token : Token}
    (h : HasLiterals (left ++ token :: right)) : HasLiterals right :=
  tail fun digits hmem => h digits (List.mem_append_right _ hmem)

mutual

/-- The operand of a tree has the value of the tree. -/
theorem IsOperand.isOperandOf {room : Nat} {tokens : List Token} {tree : Tree} :
    IsOperand room tokens tree → HasLiterals tokens → IsOperandOf room tokens tree.value
  | .number, hliterals => .number (hliterals _ (List.mem_singleton_self _))
  | .plus h, hliterals => .plus (h.isOperandOf hliterals.tail)
  | .minus h, hliterals => .minus (h.isOperandOf hliterals.tail)
  | .group h, hliterals => .group (h.isSumOf hliterals.left.tail)

/-- The product of a tree has the value of the tree. -/
theorem IsProduct.isProductOf {room : Nat} {tokens : List Token} {tree : Tree} :
    IsProduct room tokens tree → HasLiterals tokens → IsProductOf room tokens tree.value
  | .operand h, hliterals => .operand (h.isOperandOf hliterals)
  | .joined (.inl rfl) hleft hright, hliterals =>
      .times (hleft.isProductOf hliterals.left) (hright.isOperandOf hliterals.right)
  | .joined (.inr rfl) hleft hright, hliterals =>
      .over (hleft.isProductOf hliterals.left) (hright.isOperandOf hliterals.right)

/-- The sum of a tree has the value of the tree. -/
theorem IsSum.isSumOf {room : Nat} {tokens : List Token} {tree : Tree} :
    IsSum room tokens tree → HasLiterals tokens → IsSumOf room tokens tree.value
  | .product h, hliterals => .product (h.isProductOf hliterals)
  | .joined (.inl rfl) hleft hright, hliterals =>
      .plus (hleft.isSumOf hliterals.left) (hright.isProductOf hliterals.right)
  | .joined (.inr rfl) hleft hright, hliterals =>
      .minus (hleft.isSumOf hliterals.left) (hright.isProductOf hliterals.right)

end

/-- The numbers of a cut are literals when the stretches of the text are numbers. -/
theorem IsCut.hasLiterals {text : List Char} {tokens : List Token} (h : IsCut text tokens)
    (hnumbers : HasNumbers text) : HasLiterals tokens := by
  intro digits hdigits
  have hrun := h.isRun_iff.mpr hdigits
  have ⟨_, _, _, _, hnumeric, _⟩ := hrun
  exact isLiteralOf_literalValue hnumeric (hnumbers digits hrun).2

/-! ## The checks -/

/-- The allowed characters, one by one. -/
theorem isAllowed_iff {c : Char} : isAllowed c = true ↔
    c.isDigit = true ∨ c ∈ ['.', '+', '-', '*', '/', '(', ')'] ∨ Text.isBlank c = true := by
  simp only [isAllowed, isArithmetic, isNumeric, Bool.or_eq_true, beq_iff_eq, List.mem_cons,
    List.not_mem_nil, or_false, or_assoc]

/-- A text has marks when some character of it is not white space. -/
theorem isEmpty_marks_iff {text : String} :
    (marks text).isEmpty = false ↔ ∃ c ∈ text.toList, Text.isBlank c = false := by
  rw [← List.isEmpty_map (f := Mark.char), map_char_marks, Bool.eq_false_iff, Ne,
    List.isEmpty_iff, List.filter_eq_nil_iff]
  simp

/-- The characters are checked one by one; a text with a mark is not empty. -/
theorem hasAllowedCharacters_iff {text : String} (h : (marks text).isEmpty = false) :
    hasAllowedCharacters text = true ↔ ∀ c ∈ text.toList, isAllowed c = true := by
  obtain ⟨c, hc, -⟩ := isEmpty_marks_iff.mp h
  -- a text with a mark is not empty, so only the characters are left to check
  have hne : text.isEmpty = false := by
    refine Bool.eq_false_iff.mpr fun hempty => ?_
    rw [String.isEmpty_iff.mp hempty] at hc
    exact nomatch hc
  rw [hasAllowedCharacters, hne, Bool.not_false, Bool.true_and, List.all_eq_true]

theorem isEmpty_marks (text : String) : (marks text).isEmpty = (written text).isEmpty := by
  rw [written, ← map_char_marks, List.isEmpty_map]

/-- An allowed character that is not white space has a meaning in arithmetic. -/
theorem isArithmetic_of_isAllowed {c : Char} (h : isAllowed c = true)
    (hkept : Text.isBlank c = false) : isArithmetic c = true := by
  rw [isAllowed, hkept, Bool.or_false] at h
  exact h

/-- White space is allowed anyway, so it is the other characters that have to be allowed. -/
theorem hasAllowedCharacters_iff_written {text : String} (h : (marks text).isEmpty = false) :
    hasAllowedCharacters text = true ↔ ∀ c ∈ written text, isArithmetic c = true := by
  rw [hasAllowedCharacters_iff h]
  constructor
  · intro hallowed c hc
    obtain ⟨hmem, hkept⟩ := List.mem_filter.mp hc
    exact isArithmetic_of_isAllowed (hallowed c hmem) (by simpa using hkept)
  · intro harithmetic c hc
    rw [isAllowed, Bool.or_eq_true]
    cases hblank : Text.isBlank c with
    | true => exact Or.inr rfl
    | false => exact Or.inl (harithmetic c (List.mem_filter.mpr ⟨hc, by rw [hblank]; rfl⟩))

/-! ## The answer -/

/-- Parsing is checking, cutting and reading, one after the other. -/
theorem parse_eq_ok_iff {text : String} {tree : Tree} :
    parse text = .ok tree ↔ (marks text).isEmpty = false ∧ hasAllowedCharacters text = true ∧
      ∃ found, lexemes (marks text) = .ok found ∧ read found = .ok tree := by
  rw [parse]
  cases hempty : (marks text).isEmpty with
  | true => simp
  | false =>
      cases hallowed : hasAllowedCharacters text with
      | false => simp
      | true => simp [bind_eq_ok_iff]

/-- Evaluation is parsing, and then the value of the tree has to be finite. -/
theorem evaluate_eq_ok_iff {text : String} {value : Double} :
    evaluate text = .ok value ↔
      ∃ tree, parse text = .ok tree ∧ tree.value = value ∧ value.isFinite = true := by
  rw [evaluate, bind_eq_ok_iff]
  refine exists_congr fun tree => and_congr_right fun _ => ?_
  constructor
  · intro h
    dsimp only at h
    split at h
    · next hfinite =>
        obtain rfl := Except.ok.inj h
        exact ⟨rfl, hfinite⟩
    · exact nomatch h
  · rintro ⟨rfl, hfinite⟩
    exact if_pos hfinite

/-- Why evaluation fails: at the first check that does, or because the value is not finite. -/
inductive Fails (text : String) : Fault → Prop where
  | empty : (marks text).isEmpty = true → Fails text .empty
  | foreign : (marks text).isEmpty = false → hasAllowedCharacters text = false →
      Fails text .foreign
  | uncut {fault : Fault} : (marks text).isEmpty = false → hasAllowedCharacters text = true →
      lexemes (marks text) = .error fault → Fails text fault
  | unread {fault : Fault} {found : List Lexeme} : (marks text).isEmpty = false →
      hasAllowedCharacters text = true → lexemes (marks text) = .ok found →
        read found = .error fault → Fails text fault
  | notFinite {tree : Tree} : parse text = .ok tree → tree.value.isFinite = false →
      Fails text .notFinite

/-- Evaluation fails for one of its causes only, and whenever one of them holds. -/
theorem evaluate_eq_error_iff {text : String} {fault : Fault} :
    evaluate text = .error fault ↔ Fails text fault := by
  rw [evaluate, bind_eq_error_iff]
  constructor
  · rintro (hparse | ⟨tree, hparse, hvalue⟩)
    · rw [parse] at hparse
      cases hempty : (marks text).isEmpty with
      | true =>
          rw [hempty] at hparse
          obtain rfl := Except.error.inj hparse
          exact .empty hempty
      | false =>
          cases hallowed : hasAllowedCharacters text with
          | false =>
              rw [hempty, hallowed] at hparse
              obtain rfl := Except.error.inj hparse
              exact .foreign hempty hallowed
          | true =>
              rw [hempty, hallowed] at hparse
              rcases bind_eq_error_iff.mp hparse with hcut | ⟨found, hcut, hread⟩
              · exact .uncut hempty hallowed hcut
              · exact .unread hempty hallowed hcut hread
    · dsimp only at hvalue
      split at hvalue
      · exact nomatch hvalue
      · next hfinite =>
          obtain rfl := Except.error.inj hvalue
          exact .notFinite hparse (Bool.eq_false_iff.mpr hfinite)
  · intro h
    cases h with
    | empty hempty =>
        rw [parse, hempty]
        exact Or.inl rfl
    | foreign hempty hallowed =>
        rw [parse, hempty, hallowed]
        exact Or.inl rfl
    | uncut hempty hallowed hcut =>
        rw [parse, hempty, hallowed, hcut]
        exact Or.inl rfl
    | unread hempty hallowed hcut hread =>
        rw [parse, hempty, hallowed, hcut]
        exact Or.inl hread
    | notFinite hparse hvalue =>
        refine Or.inr ⟨_, hparse, ?_⟩
        dsimp only
        rw [hvalue]
        rfl

/-- Evaluation answers what the text denotes. -/
theorem evaluate_eq_ok_iff_denotes {text : String} {value : Double} :
    evaluate text = .ok value ↔ Denotes text value := by
  rw [evaluate_eq_ok_iff]
  constructor
  · rintro ⟨tree, hparse, rfl, hfinite⟩
    obtain ⟨hmarks, hallowed, found, hfound, hread⟩ := parse_eq_ok_iff.mp hparse
    obtain ⟨hcut, hrepeats, hnumbers⟩ := exists_lexemes_iff.mp ⟨found, hfound, rfl⟩
    rw [map_char_marks] at hcut hrepeats hnumbers
    exact {
      notBlank := isEmpty_marks_iff.mp hmarks
      allowed := fun c hc => isAllowed_iff.mp ((hasAllowedCharacters_iff hmarks).mp hallowed c hc)
      noRepetition := hrepeats
      numbers := hnumbers
      derived := ⟨_, hcut, (read_eq_ok_iff.mp hread).isSumOf (hcut.hasLiterals hnumbers)⟩
      finite := hfinite }
  · intro h
    obtain ⟨tokens, hcut, hderived⟩ := h.derived
    obtain ⟨tree, hsum, hvalue⟩ := hderived.exists_tree
    have hmarks := isEmpty_marks_iff.mpr h.notBlank
    have hallowed := (hasAllowedCharacters_iff hmarks).mpr fun c hc =>
      isAllowed_iff.mpr (h.allowed c hc)
    have hnone := h.noRepetition
    have hnumbers := h.numbers
    rw [written, ← map_char_marks] at hcut hnone hnumbers
    obtain ⟨found, hfound, rfl⟩ := exists_lexemes_iff.mpr ⟨hcut, hnone, hnumbers⟩
    have hread := read_eq_ok_iff.mpr hsum
    exact ⟨tree, parse_eq_ok_iff.mpr ⟨hmarks, hallowed, found, hfound, hread⟩, hvalue, h.finite⟩

/-- **Evaluation answers with the value that the text denotes, and where it denotes none with a
refusal to evaluate.** -/
theorem computeExpression_denotes (text : String) :
    (∀ value, computeExpression text = .ok value ↔ Denotes text value) ∧
      ((∃ message, computeExpression text = .error (.evaluation message)) ↔
        ¬ ∃ value, Denotes text value) := by
  have hvalue (value : Double) : computeExpression text = .ok value ↔ Denotes text value :=
    mapError_eq_ok_iff.trans evaluate_eq_ok_iff_denotes
  refine ⟨hvalue, ?_⟩
  constructor
  · rintro ⟨message, hrefused⟩ ⟨value, hdenotes⟩
    rw [(hvalue value).mpr hdenotes] at hrefused
    exact nomatch hrefused
  · intro hnone
    cases hanswer : evaluate text with
    | ok value => exact absurd ⟨value, evaluate_eq_ok_iff_denotes.mp hanswer⟩ hnone
    | error fault =>
        refine ⟨fault.message, ?_⟩
        rw [computeExpression, hanswer]
        rfl

end Abacus.Expression
