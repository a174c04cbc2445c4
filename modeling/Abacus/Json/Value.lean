import Abacus.Double.Rounding

/-!
# JSON values

The data that is sent and received.  An object keeps its members in the order in which they are
to be written.
-/

namespace Abacus.Json

/-- A number: an integer of at most sixty-four bits, or a double. -/
inductive Number where
  | integer (value : Int)
  | double (value : Double)
  deriving DecidableEq

/-- The number as a double. -/
def Number.toDouble : Number → Double
  | .integer value => .ofInt value
  | .double value => value

/-- A JSON value. -/
inductive Value where
  | null
  | bool (value : Bool)
  | number (value : Number)
  | text (value : String)
  | array (items : List Value)
  | object (members : List (String × Value))

namespace Value

/-- An integer. -/
def integer (n : Int) : Value :=
  .number (.integer n)

/-- A double. -/
def double (x : Double) : Value :=
  .number (.double x)

/-- The member is put in front of the first one with a greater name; one of the same name is
replaced. -/
def insertMember (name : String) (value : Value) :
    List (String × Value) → List (String × Value)
  | [] => [(name, value)]
  | (other, kept) :: rest =>
      if name < other then (name, value) :: (other, kept) :: rest
      else if name = other then (name, value) :: rest
      else (other, kept) :: insertMember name value rest

mutual

/-- The value with the members of every object in the order of their names; of several members
of one name the last is kept. -/
def sorted : Value → Value
  | .array items => .array (sortedItems items)
  | .object members => .object (sortedMembers members [])
  | value => value

/-- Every item sorted. -/
def sortedItems : List Value → List Value
  | [] => []
  | item :: rest => item.sorted :: sortedItems rest

/-- The members, each sorted, put into a sorted list. -/
def sortedMembers : List (String × Value) → List (String × Value) → List (String × Value)
  | [], done => done
  | (name, value) :: rest, done => sortedMembers rest (insertMember name value.sorted done)

end

end Value

end Abacus.Json
