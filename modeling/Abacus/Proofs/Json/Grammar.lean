import Abacus.Json.Document

/-!
# Grammar — which texts are JSON

    text    := spaces value spaces
    value   := 'null' | 'true' | 'false' | numeral | quoted
               | '[' spaces ']' | '[' spaces items ']' | '{' spaces '}' | '{' spaces members '}'
    items   := value spaces (',' spaces value spaces)*
    members := member (',' spaces member)*
    member  := quoted spaces ':' spaces value spaces
    numeral := '-'? digits ('.' digits)? (('e' | 'E') ('+' | '-')? digits)?

The rules say which texts are read as which values, without saying how they are read.  The digits
before the point do not begin with a zero unless it is the only one, a number is in range, and a
quoted text denotes characters: what is written as half a surrogate pair alone denotes none.
-/

namespace Abacus.Json

/-! ## Quoted texts -/

namespace Quoted

/-- The ways in which a character is written between the marks. -/
inductive IsSpelling : List Char → Char → Prop where
  | itself {c : Char} : c ≠ '"' → c ≠ '\\' → ¬ c.toNat < 32 → IsSpelling [c] c
  | letter {letter c : Char} : escaped? letter = some c → IsSpelling ['\\', letter] c
  | unit {a b c d : Char} {bits : Nat} :
      hexUnit? a b c d = some bits → isHighHalf bits = false → isLowHalf bits = false →
        IsSpelling ['\\', 'u', a, b, c, d] (Char.ofNat bits)
  | pair {a b c d a' b' c' d' : Char} {high low : Nat} :
      hexUnit? a b c d = some high → isHighHalf high = true →
        hexUnit? a' b' c' d' = some low → isLowHalf low = true →
          IsSpelling ['\\', 'u', a, b, c, d, '\\', 'u', a', b', c', d']
            (Char.ofNat (0x10000 + (high - 0xD800) * 0x400 + (low - 0xDC00)))

/-- The text spells the characters one after the other. -/
inductive IsSpelled : List Char → List Char → Prop where
  | nil : IsSpelled [] []
  | cons {piece text : List Char} {c : Char} {rest : List Char} :
      IsSpelling piece c → IsSpelled text rest → IsSpelled (piece ++ text) (c :: rest)

end Quoted

/-- The text is a quoted one. -/
def IsQuoted (text : List Char) (s : String) : Prop :=
  ∃ body, Quoted.IsSpelled body s.toList ∧ text = '"' :: (body ++ ['"'])

/-! ## Numerals -/

/-- Digits, and at least one. -/
def AreDigits (text : List Char) : Prop :=
  text ≠ [] ∧ ∀ c ∈ text, c.isDigit = true

/-- The digits before the point. -/
def AreWhole (text : List Char) : Prop :=
  AreDigits text ∧ (text.head? = some '0' → text = ['0'])

/-- A fraction, or its absence. -/
inductive IsFraction : List Char → Option (List Char) → Prop where
  | absent : IsFraction [] none
  | digits {digits : List Char} : AreDigits digits → IsFraction ('.' :: digits) (some digits)

/-- The sign of an exponent, and whether it is a minus. -/
inductive IsSign : List Char → Bool → Prop where
  | absent : IsSign [] false
  | plus : IsSign ['+'] false
  | minus : IsSign ['-'] true

/-- An exponent, or its absence. -/
inductive IsExponent : List Char → Option (Bool × List Char) → Prop where
  | absent : IsExponent [] none
  | digits {mark : Char} {sign digits : List Char} {below : Bool} :
      mark = 'e' ∨ mark = 'E' → IsSign sign below → AreDigits digits →
        IsExponent (mark :: (sign ++ digits)) (some (below, digits))

/-- A minus, or its absence. -/
inductive IsMinus : List Char → Bool → Prop where
  | absent : IsMinus [] false
  | present : IsMinus ['-'] true

/-- The text is a numeral. -/
inductive IsNumeral : List Char → Numeral → Prop where
  | mk {minus whole fractionText exponentText : List Char} {negative : Bool}
      {fraction : Option (List Char)} {exponent : Option (Bool × List Char)} :
      IsMinus minus negative → AreWhole whole → IsFraction fractionText fraction →
        IsExponent exponentText exponent →
          IsNumeral (minus ++ (whole ++ (fractionText ++ exponentText)))
            ⟨negative, whole, fraction, exponent⟩

/-! ## Values -/

/-- White space, or nothing. -/
def AreSpaces (text : List Char) : Prop :=
  ∀ c ∈ text, isSpace c = true

theorem areSpaces_nil : AreSpaces [] := fun _ h => nomatch h

mutual

/-- The text is a value. -/
inductive IsValue : List Char → Value → Prop where
  | null : IsValue ['n', 'u', 'l', 'l'] .null
  | isTrue : IsValue ['t', 'r', 'u', 'e'] (.bool true)
  | isFalse : IsValue ['f', 'a', 'l', 's', 'e'] (.bool false)
  | number {text : List Char} {numeral : Numeral} {n : Number} :
      IsNumeral text numeral → numeral.toNumber? = some n → IsValue text (.number n)
  | text {text : List Char} {s : String} : IsQuoted text s → IsValue text (.text s)
  | emptyArray {spaces : List Char} : AreSpaces spaces →
      IsValue ('[' :: (spaces ++ [']'])) (.array [])
  | array {spaces text : List Char} {items : List Value} : AreSpaces spaces →
      AreItems text items → IsValue ('[' :: (spaces ++ (text ++ [']']))) (.array items)
  | emptyObject {spaces : List Char} : AreSpaces spaces →
      IsValue ('\x7b' :: (spaces ++ ['\x7d'])) (.object [])
  | object {spaces text : List Char} {members : List (String × Value)} : AreSpaces spaces →
      AreMembers text members →
        IsValue ('\x7b' :: (spaces ++ (text ++ ['\x7d']))) (.object members)

/-- The text is made of the items of an array, at least one. -/
inductive AreItems : List Char → List Value → Prop where
  | last {text after : List Char} {item : Value} : IsValue text item → AreSpaces after →
      AreItems (text ++ after) [item]
  | more {text after before rest : List Char} {item : Value} {items : List Value} :
      IsValue text item → AreSpaces after → AreSpaces before → AreItems rest items →
        AreItems (text ++ (after ++ ',' :: (before ++ rest))) (item :: items)

/-- The text is made of the members of an object, at least one. -/
inductive AreMembers : List Char → List (String × Value) → Prop where
  | last {text : List Char} {name : String} {value : Value} : IsMember text name value →
      AreMembers text [(name, value)]
  | more {text before rest : List Char} {name : String} {value : Value}
      {members : List (String × Value)} : IsMember text name value → AreSpaces before →
        AreMembers rest members →
          AreMembers (text ++ ',' :: (before ++ rest)) ((name, value) :: members)

/-- The text is one member of an object and the white space after it. -/
inductive IsMember : List Char → String → Value → Prop where
  | mk {quoted between before text after : List Char} {name : String} {value : Value} :
      IsQuoted quoted name → AreSpaces between → AreSpaces before → IsValue text value →
        AreSpaces after →
          IsMember (quoted ++ (between ++ ':' :: (before ++ (text ++ after)))) name value

end

/-- The text is JSON of the value. -/
def IsText (text : String) (value : Value) : Prop :=
  ∃ before middle after, AreSpaces before ∧ IsValue middle value ∧ AreSpaces after ∧
    text.toList = before ++ (middle ++ after)

end Abacus.Json
