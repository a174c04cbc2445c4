import Abacus.Json.Value
import Abacus.Json.Quoted
import Abacus.Decimal.Layout

/-!
# Writing JSON

Two layouts: compact, without any white space, and indented, with one member or item a line and
two spaces for each level.  A double is written with as few digits as read back, the even one of
two that are equally near, with a point or an exponent; what is not finite is written as null.
-/

namespace Abacus.Json

/-- The text of a number. -/
def Number.write : Number → List Char
  | .integer value => Decimal.signedNumeral value
  | .double (.finite negative m) => (Double.pointed .even (-5) true negative m).toList
  | .double _ => "null".toList

namespace Value

/-- The words for the two truth values. -/
def boolText (b : Bool) : List Char :=
  if b then "true".toList else "false".toList

mutual

/-- The value without white space. -/
def compactChars : Value → List Char
  | .null => "null".toList
  | .bool b => boolText b
  | .number n => n.write
  | .text s => Quoted.write s
  | .array items => '[' :: compactItems items
  | .object members => '\x7b' :: compactMembers members

/-- The items and the closing bracket. -/
def compactItems : List Value → List Char
  | [] => [']']
  | [item] => item.compactChars ++ [']']
  | item :: rest => item.compactChars ++ ',' :: compactItems rest

/-- The members and the closing brace. -/
def compactMembers : List (String × Value) → List Char
  | [] => ['\x7d']
  | [(name, value)] => Quoted.write name ++ ':' :: value.compactChars ++ ['\x7d']
  | (name, value) :: rest =>
      Quoted.write name ++ ':' :: value.compactChars ++ ',' :: compactMembers rest

end

/-- A line break and the white space at the start of a line on the given level. -/
def newLine (level : Nat) : List Char :=
  '\n' :: List.replicate (2 * level) ' '

mutual

/-- The value laid out on several lines, its first line on the given level. -/
def indentedChars (level : Nat) : Value → List Char
  | .null => "null".toList
  | .bool b => boolText b
  | .number n => n.write
  | .text s => Quoted.write s
  | .array [] => ['[', ']']
  | .array items => '[' :: indentedItems level items
  | .object [] => ['\x7b', '\x7d']
  | .object members => '\x7b' :: indentedMembers level members

/-- Each item on its own line, and the closing bracket. -/
def indentedItems (level : Nat) : List Value → List Char
  | [] => newLine level ++ [']']
  | [item] => newLine (level + 1) ++ item.indentedChars (level + 1) ++ newLine level ++ [']']
  | item :: rest =>
      newLine (level + 1) ++ item.indentedChars (level + 1) ++ ',' :: indentedItems level rest

/-- Each member on its own line, and the closing brace. -/
def indentedMembers (level : Nat) : List (String × Value) → List Char
  | [] => newLine level ++ ['\x7d']
  | [(name, value)] =>
      newLine (level + 1) ++ Quoted.write name ++ ':' :: ' ' :: value.indentedChars (level + 1) ++
        newLine level ++ ['\x7d']
  | (name, value) :: rest =>
      newLine (level + 1) ++ Quoted.write name ++ ':' :: ' ' :: value.indentedChars (level + 1) ++
        ',' :: indentedMembers level rest

end

/-- The text of a value without white space. -/
def compact (value : Value) : String :=
  String.ofList value.compactChars

/-- The text of a value on several lines. -/
def indented (value : Value) : String :=
  String.ofList (value.indentedChars 0)

end Value

end Abacus.Json
