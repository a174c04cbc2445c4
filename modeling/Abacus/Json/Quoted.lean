import Abacus.Text.Basic

/-!
# Quoted text — how a text is written inside JSON

A text stands between quotation marks.  The marks and backslashes in it, and the control
characters below U+0020, are written with a backslash; all else stands for itself.  On reading,
a character may also be written as `\u` and four hexadecimal digits, or as two of these, the
halves of a surrogate pair.  Half a pair alone is well-formed but denotes no character.
-/

namespace Abacus.Json.Quoted

open Text (hexDigit hexValue?)

/-- How one character is written between the marks. -/
def escape (c : Char) : List Char :=
  if c == '"' then ['\\', '"']
  else if c == '\\' then ['\\', '\\']
  else if c == '\n' then ['\\', 'n']
  else if c == '\r' then ['\\', 'r']
  else if c == '\t' then ['\\', 't']
  else if c.toNat == 8 then ['\\', 'b']
  else if c.toNat == 12 then ['\\', 'f']
  else if c.toNat < 32 then ['\\', 'u', '0', '0', hexDigit (c.toNat / 16), hexDigit (c.toNat % 16)]
  else [c]

/-- The text between quotation marks. -/
def write (text : String) : List Char :=
  '"' :: text.toList.flatMap escape ++ ['"']

/-- One written piece of a text: a character, or sixteen bits given as hexadecimal digits. -/
inductive Piece where
  | char (c : Char)
  | unit (bits : Nat)
  deriving DecidableEq

/-- The number that four hexadecimal digits denote. -/
def hexUnit? (a b c d : Char) : Option Nat := do
  return (((← hexValue? a) * 16 + (← hexValue? b)) * 16 + (← hexValue? c)) * 16 + (← hexValue? d)

/-- The character that a letter after a backslash stands for. -/
def escaped? : Char → Option Char
  | '"' => some '"'
  | '\\' => some '\\'
  | '/' => some '/'
  | 'b' => some (Char.ofNat 8)
  | 'f' => some (Char.ofNat 12)
  | 'n' => some '\n'
  | 'r' => some '\r'
  | 't' => some '\t'
  | _ => none

/-- The pieces up to the closing mark and the text after it; nothing when the text ends before,
or holds a control character or an unknown escape. -/
def pieces : List Char → Option (List Piece × List Char)
  | [] => none
  | '"' :: rest => some ([], rest)
  | '\\' :: 'u' :: a :: b :: c :: d :: rest => do
      let bits ← hexUnit? a b c d
      let (later, rest) ← pieces rest
      return (.unit bits :: later, rest)
  | '\\' :: letter :: rest => do
      let c ← escaped? letter
      let (later, rest) ← pieces rest
      return (.char c :: later, rest)
  | c :: rest =>
      if c == '\\' || c.toNat < 32 then none
      else do
        let (later, rest) ← pieces rest
        return (.char c :: later, rest)

/-- The first half of a surrogate pair. -/
def isHighHalf (bits : Nat) : Bool :=
  0xD800 ≤ bits && bits < 0xDC00

/-- The second half of a surrogate pair. -/
def isLowHalf (bits : Nat) : Bool :=
  0xDC00 ≤ bits && bits < 0xE000

/-- The characters that the pieces denote; none if half a surrogate pair stands alone. -/
def join : List Piece → Option (List Char)
  | [] => some []
  | .char c :: rest => (join rest).map (c :: ·)
  | .unit high :: .unit low :: rest =>
      if isHighHalf high && isLowHalf low then
        (join rest).map (Char.ofNat (0x10000 + (high - 0xD800) * 0x400 + (low - 0xDC00)) :: ·)
      else if isHighHalf high || isLowHalf high then none
      else (join (.unit low :: rest)).map (Char.ofNat high :: ·)
  | .unit bits :: rest =>
      if isHighHalf bits || isLowHalf bits then none
      else (join rest).map (Char.ofNat bits :: ·)

/-- What stands after an opening mark: the text, or nothing in its place when it denotes none,
and what follows the closing mark. -/
def read (text : List Char) : Option (Option String × List Char) := do
  let (found, rest) ← pieces text
  return ((join found).map String.ofList, rest)

end Abacus.Json.Quoted
