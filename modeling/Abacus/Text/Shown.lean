import Abacus.Text.Basic
import Abacus.Text.Columns

/-!
# Shown text — a text between quotation marks in a notice

Marks, backslashes and characters that cannot be seen are written with a backslash; the others
stand for themselves.
-/

namespace Abacus.Text

/-- The digits of a number in base sixteen. -/
def hexNumeral (n : Nat) : List Char :=
  Nat.toDigits 16 n

/-- The characters that take columns but have no shape of their own: signs that enclose digits or
set out hieroglyphs, signs that only go with the letter before them, private characters, and the
parts of the code that are not assigned in large runs. -/
def shapeless : List (Nat × Nat) :=
  [(0x600, 0x604), (0x6DD, 0x6DD), (0x897, 0x897), (0x1715, 0x1715), (0x1734, 0x1734),
    (0x1B44, 0x1B44), (0x1BAA, 0x1BAA), (0x1BF2, 0x1BF3), (0x2D7F, 0x2D7F), (0xA953, 0xA953),
    (0xA9C0, 0xA9C0), (0xE000, 0xF8FF), (0xFDD0, 0xFDEF), (0xFFF9, 0xFFFB), (0xFFFE, 0xFFFF),
    (0x10D69, 0x10D6D), (0x10EFC, 0x10EFC), (0x110BD, 0x110BD), (0x110CD, 0x110CD),
    (0x111C0, 0x111C0), (0x11235, 0x11235), (0x1134D, 0x1134D), (0x113B8, 0x113B8),
    (0x113BB, 0x113C0), (0x113C2, 0x113C2), (0x113C5, 0x113C5), (0x113C7, 0x113C9),
    (0x113CE, 0x113D0), (0x113D2, 0x113D2), (0x113E1, 0x113E2), (0x116B6, 0x116B6),
    (0x1193D, 0x1193D), (0x11F41, 0x11F41), (0x11F5A, 0x11F5A), (0x13430, 0x1343F),
    (0x1611E, 0x16129), (0x1612D, 0x1612F), (0x16FF0, 0x16FF1), (0x1D166, 0x1D166),
    (0x1D16D, 0x1D16D), (0x1E5EE, 0x1E5EF), (0x1FFFE, 0x1FFFF), (0x2FA20, 0x2FFFF),
    (0x323B0, 0xDFFFF), (0xF0000, 0x10FFFF)]

/-- The characters that take no column but can be seen: parts of Hangul, its fillers, letters that
are drawn with the letter after them, and a caret. -/
def seen : List (Nat × Nat) :=
  [(0xD4E, 0xD4E), (0x1160, 0x11FF), (0x3164, 0x3164), (0xA8FA, 0xA8FA), (0xD7B0, 0xD7FB),
    (0xFFA0, 0xFFA0), (0x111C2, 0x111C3), (0x1171E, 0x1171E), (0x1193F, 0x1193F),
    (0x11941, 0x11941), (0x11A3A, 0x11A3A), (0x11A84, 0x11A89), (0x11D46, 0x11D46),
    (0x11F02, 0x11F02)]

/-- The character cannot be seen. -/
def isUnseen (c : Char) : Bool :=
  isControl c || (isBlank c && c != ' ') || isWithin shapeless c.toNat ||
    (columns c == 0 && !isWithin seen c.toNat)

/-- How one character is written. -/
def shownChar (c : Char) : List Char :=
  if c == '"' then ['\\', '"']
  else if c == '\\' then ['\\', '\\']
  else if c == '\n' then ['\\', 'n']
  else if c == '\r' then ['\\', 'r']
  else if c == '\t' then ['\\', 't']
  else if c == '\x00' then ['\\', '0']
  else if isUnseen c then '\\' :: 'u' :: '\x7b' :: hexNumeral c.toNat ++ ['\x7d']
  else [c]

/-- The text between quotation marks. -/
def shown (text : String) : String :=
  String.ofList ('"' :: text.toList.flatMap shownChar ++ ['"'])

/-- What there may be of something, given how it is shown. -/
def shownOption (found : Option String) : String :=
  match found with
  | some text => "Some(" ++ text ++ ")"
  | none => "None"

end Abacus.Text
