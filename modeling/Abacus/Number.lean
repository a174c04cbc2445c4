import Abacus.Text.Basic
import Abacus.Decimal.Reading

/-!
# Numbers as callers send them

A caller sends a number or a text that begins with one.  The text is read leniently: leading
white space and whatever follows the number are ignored.  A limit on the number of rows is read
from a text in the same spirit.
-/

namespace Abacus

namespace Number

/-- The digits of any script make up the number that is looked for. -/
def readPrefix (text : List Char) : Option Double :=
  match Decimal.readWritten Text.isDecimalDigit text with
  | some (written, _) => if written.isAscii then some written.toDouble else none
  | none => none

/-- The number at the start of a text. -/
def parse (text : String) : Option Double :=
  let trimmed := Text.dropBlanks text.toList
  if "Infinity".toList.isPrefixOf trimmed || "+Infinity".toList.isPrefixOf trimmed then
    some (.infinite false)
  else if "-Infinity".toList.isPrefixOf trimmed then some (.infinite true)
  else readPrefix trimmed

end Number

/-- A number as sent: as a number or as a text. -/
inductive NumberInput where
  | number (value : Double)
  | text (sent : String)
  deriving DecidableEq

/-- The number that is meant; a text without one means not-a-number. -/
def NumberInput.toDouble : NumberInput → Double
  | .number value => value
  | .text sent => (Number.parse sent).getD .nan

namespace Limit

/-- How many rows are shown when no number is asked for. -/
def default : Nat := 50

/-- The greatest number that can be asked for in a text. -/
def greatest : Nat := 0x7FFFFFFFFFFFFFFF

/-- The limit at the start of a text, if it is above zero and not too great. -/
def parse? (text : String) : Option Nat :=
  let (negative, unsigned) := Decimal.readSign (Text.dropBlanks text.toList)
  let digits := unsigned.takeWhile Text.isDecimalDigit
  let value := Decimal.valueOf digits
  if digits.isEmpty || !digits.all Char.isDigit || negative then none
  else if value = 0 || greatest < value then none
  else some value

/-- The limit that a caller asks for, or the default. -/
def ofText (text : Option String) : Nat :=
  (text.bind parse?).getD default

/-- A limit of zero asks for the default. -/
def orDefault (limit : Nat) : Nat :=
  if limit = 0 then default else limit

/-- A limit read from a text is above zero. -/
theorem ofText_pos (text : Option String) : 0 < ofText text := by
  unfold ofText
  cases h : text.bind parse? with
  | none => decide
  | some limit =>
      obtain ⟨s, -, hs⟩ := Option.bind_eq_some_iff.mp h
      unfold parse? at hs
      simp only at hs
      split at hs
      · cases hs
      · split at hs
        · cases hs
        · next _ bounds =>
          cases hs
          simp only [Bool.or_eq_true, decide_eq_true_eq, not_or] at bounds
          simp only [Option.getD_some]
          omega

end Limit

end Abacus
