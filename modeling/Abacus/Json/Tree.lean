import Abacus.Json.Value

/-!
# Trees — JSON text as far as it can be read

A text is taken apart once, up to the first place where it breaks the grammar.  That place is
part of the tree, so that a reader who walks the tree in the order of the text meets the wrong
shapes before it, and it before the wrong shapes after.

A number out of range and a text that denotes no characters are well-formed: they matter only
to a reader who wants them.

Of a text that is not what it is read for only the kind of fault is told (`Fault.detail`), behind the
colon of a longer message.  A reader that tells the line and the column as well has other words there.
-/

namespace Abacus.Json

/-- What could be read of a value. -/
inductive Tree where
  | null
  | bool (value : Bool)
  | number (value : Option Number)
  | text (value : Option String)
  /-- The items, and whether the closing bracket follows the last one. -/
  | array (items : List Tree) (closed : Bool)
  /-- The members, and what stands where the closing brace or a further name should, if it is
  neither. -/
  | object (members : List (Option String × Tree)) (stray : Option Tree)
  /-- No value can be read here. -/
  | broken

/-- Why a text does not give what it is read for. -/
inductive Fault where
  /-- The text is not JSON, nests too deeply or holds a number out of range. -/
  | malformed
  /-- The text is JSON of another shape. -/
  | mismatch
  deriving DecidableEq

/-- The kind of fault, in words. -/
def Fault.detail : Fault → String
  | .malformed => "the text is not JSON"
  | .mismatch => "the value has another shape"

/-- How many arrays and objects may be open at once. -/
def nestingLimit : Nat := 127

namespace Tree

mutual

/-- The value is well-formed to its end. -/
def isIntact : Tree → Bool
  | .array items closed => closed && areIntact items
  | .object members none => membersAreIntact members
  | .object _ (some _) => false
  | .broken => false
  | _ => true

/-- Every item is well-formed. -/
def areIntact : List Tree → Bool
  | [] => true
  | item :: rest => item.isIntact && areIntact rest

/-- Every member is well-formed. -/
def membersAreIntact : List (Option String × Tree) → Bool
  | [] => true
  | (_, value) :: rest => value.isIntact && membersAreIntact rest

end

mutual

/-- The whole value, with `nestings` more arrays and objects open at most. -/
def whole (nestings : Nat) : Tree → Except Fault Value
  | .null => .ok .null
  | .bool b => .ok (.bool b)
  | .number (some n) => .ok (.number n)
  | .text (some s) => .ok (.text s)
  | .array items closed =>
      match nestings with
      | 0 => .error .malformed
      | inner + 1 => do
          let items ← wholeItems inner items
          if closed then return .array items else throw .malformed
  | .object members stray =>
      match nestings with
      | 0 => .error .malformed
      | inner + 1 => do
          let members ← wholeMembers inner members
          match stray with
          | none => return .object members
          | some _ => throw .malformed
  | _ => .error .malformed

/-- All items. -/
def wholeItems (nestings : Nat) : List Tree → Except Fault (List Value)
  | [] => .ok []
  | item :: rest => do
      let value ← item.whole nestings
      return value :: (← wholeItems nestings rest)

/-- All members. -/
def wholeMembers (nestings : Nat) :
    List (Option String × Tree) → Except Fault (List (String × Value))
  | [] => .ok []
  | (none, _) :: _ => .error .malformed
  | (some name, item) :: rest => do
      let value ← item.whole nestings
      return (name, value) :: (← wholeMembers nestings rest)

end

/-- The fault of a value of another shape than the one that is read for.  Numbers and texts are
read before their shape is known to be wrong, arrays and objects are not. -/
def wrongShape : Tree → Fault
  | .number none | .text none | .broken => .malformed
  | _ => .mismatch

end Tree

mutual

/-- The tree of a value. -/
def Value.toTree : Value → Tree
  | .null => .null
  | .bool b => .bool b
  | .number n => .number (some n)
  | .text s => .text (some s)
  | .array items => .array (Value.toTrees items) true
  | .object members => .object (Value.toMembers members) none

/-- The trees of items. -/
def Value.toTrees : List Value → List Tree
  | [] => []
  | item :: rest => item.toTree :: Value.toTrees rest

/-- The trees of members. -/
def Value.toMembers : List (String × Value) → List (Option String × Tree)
  | [] => []
  | (name, value) :: rest => (some name, value.toTree) :: Value.toMembers rest

end

end Abacus.Json
