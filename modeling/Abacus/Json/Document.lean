import Abacus.Json.Tree
import Abacus.Json.Numeral
import Abacus.Json.Quoted

/-!
# Documents — taking a JSON text apart

The white space of JSON is the space, the tab and the two line ends.  A document is one value
with white space around it.  Reading never fails: what breaks the grammar ends the tree.
-/

namespace Abacus.Json

/-- White space between the tokens. -/
def isSpace (c : Char) : Bool :=
  c == ' ' || c == '\n' || c == '\t' || c == '\r'

/-- The text after its white space. -/
def dropSpaces (text : List Char) : List Char :=
  text.dropWhile isSpace

mutual

/-- The value at the start of a text, and the text after it unless the value breaks off. -/
def readValue : (fuel : Nat) → List Char → Tree × Option (List Char)
  | 0, _ => (.broken, none)
  | fuel + 1, text =>
      match dropSpaces text with
      | 'n' :: 'u' :: 'l' :: 'l' :: rest => (.null, some rest)
      | 't' :: 'r' :: 'u' :: 'e' :: rest => (.bool true, some rest)
      | 'f' :: 'a' :: 'l' :: 's' :: 'e' :: rest => (.bool false, some rest)
      | '"' :: rest =>
          match Quoted.read rest with
          | some (found, rest) => (.text found, some rest)
          | none => (.broken, none)
      | '[' :: rest =>
          match dropSpaces rest with
          | ']' :: rest => (.array [] true, some rest)
          | rest =>
              let (items, after) := readItems fuel rest
              (.array items after.isSome, after)
      | '\x7b' :: rest =>
          match dropSpaces rest with
          | '\x7d' :: rest => (.object [] none, some rest)
          | '"' :: rest =>
              let (members, after) := readMembers fuel rest
              (.object members (if after.isSome then none else some .broken), after)
          | rest => (.object [] (some (readValue fuel rest).1), none)
      | rest =>
          match Numeral.read rest with
          | some (numeral, rest) => (.number numeral.toNumber?, some rest)
          | none => (.broken, none)

/-- The items up to the closing bracket, and the text after it unless the array breaks off. -/
def readItems : (fuel : Nat) → List Char → List Tree × Option (List Char)
  | 0, _ => ([], none)
  | fuel + 1, text =>
      match readValue fuel text with
      | (item, none) => ([item], none)
      | (item, some rest) =>
          match dropSpaces rest with
          | ']' :: rest => ([item], some rest)
          | ',' :: rest =>
              match dropSpaces rest with
              | [] => ([item], none)
              | ']' :: _ => ([item], none)
              | rest =>
                  let (items, after) := readItems fuel rest
                  (item :: items, after)
          | _ => ([item], none)

/-- The members up to the closing brace, and the text after it unless the object breaks off.  The
mark that opens the first name has been read. -/
def readMembers : (fuel : Nat) → List Char → List (Option String × Tree) × Option (List Char)
  | 0, _ => ([], none)
  | fuel + 1, text =>
      match Quoted.read text with
      | none => ([], none)
      | some (name, rest) =>
          match dropSpaces rest with
          | ':' :: rest =>
              match readValue fuel rest with
              | (value, none) => ([(name, value)], none)
              | (value, some rest) =>
                  match dropSpaces rest with
                  | '\x7d' :: rest => ([(name, value)], some rest)
                  | ',' :: rest =>
                      match dropSpaces rest with
                      | '"' :: rest =>
                          let (members, after) := readMembers fuel rest
                          ((name, value) :: members, after)
                      | _ => ([(name, value)], none)
                  | _ => ([(name, value)], none)
          | _ => ([(name, .broken)], none)

end

/-- A text taken apart: its value, and whether nothing but white space follows. -/
structure Document where
  tree : Tree
  ended : Bool

/-- Take a text apart.  Each step of the reader passes at least one character, or goes from an
array or object to what is in it. -/
def Document.ofText (text : String) : Document :=
  let (tree, after) := readValue (2 * text.toList.length + 1) text.toList
  ⟨tree, after.any fun rest => (dropSpaces rest).isEmpty⟩

end Abacus.Json
