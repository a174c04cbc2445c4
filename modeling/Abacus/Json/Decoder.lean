import Abacus.Json.Document

/-!
# Decoders — reading a tree as data of one type

A decoder walks the tree in the order of the text and stops at the first fault.  It is told how
many arrays and objects may still be open.

A record comes as an object, whose unknown members are passed over, or as an array of all its
fields in their order.  Each field is filled once.
-/

namespace Abacus.Json

/-- A reader of data of one type, given how many more arrays and objects may be open. -/
abbrev Decoder (α : Type) := (nestings : Nat) → Tree → Except Fault α

namespace Decoder

/-- A text. -/
def text : Decoder String
  | _, .text (some s) => .ok s
  | _, tree => .error tree.wrongShape

/-- A truth value. -/
def bool : Decoder Bool
  | _, .bool b => .ok b
  | _, tree => .error tree.wrongShape

/-- A number, as a double. -/
def double : Decoder Double
  | _, .number (some n) => .ok n.toDouble
  | _, tree => .error tree.wrongShape

/-- An integer between two bounds. -/
def integerWithin (least greatest : Int) : Decoder Int
  | _, .number (some (.integer n)) =>
      if least ≤ n && n ≤ greatest then .ok n else .error .mismatch
  | _, tree => .error tree.wrongShape

/-- An integer of sixty-four bits with a sign. -/
def integer : Decoder Int :=
  integerWithin (-0x8000000000000000) 0x7FFFFFFFFFFFFFFF

/-- A whole number of sixty-four bits. -/
def natural : Decoder Nat := fun nestings tree =>
  (integerWithin 0 0xFFFFFFFFFFFFFFFF nestings tree).map Int.toNat

/-- Nothing where there is a null, and data otherwise. -/
def optional (decoder : Decoder α) : Decoder (Option α)
  | _, .null => .ok none
  | nestings, tree => (decoder nestings tree).map some

/-- Any value. -/
def value : Decoder Value := fun nestings tree =>
  tree.whole nestings

/-- Items of one type, in the order of the text. -/
def list (decoder : Decoder α) : Decoder (List α)
  | 0, .array _ _ => .error .malformed
  | nestings + 1, .array items closed => do
      let found ← items.mapM (decoder nestings)
      if closed then return found else throw .malformed
  | _, tree => .error tree.wrongShape

/-- Data of the first form that fits.  The whole value is read before its form is looked at. -/
def firstOf (forms : List (Decoder α)) : Decoder α := fun nestings tree => do
  let _ ← tree.whole nestings
  match forms.findSome? fun form => (form nestings tree).toOption with
  | some found => return found
  | none => throw .mismatch

/-- One field of a record that is being filled. -/
structure Field (σ : Type) where
  name : String
  isFilled : σ → Bool
  fill : Nat → Tree → σ → Except Fault σ

/-- A field that is kept in one place of the record. -/
def Field.at (name : String) (get : σ → Option α) (set : α → σ → σ) (decoder : Decoder α) :
    Field σ where
  name := name
  isFilled record := (get record).isSome
  fill nestings tree record := do return set (← decoder nestings tree) record

/-- Take one member of an object over.  A field that is filled already is a fault before its
second value is looked at. -/
def takeMember (fields : List (Field σ)) (nestings : Nat) (record : σ)
    (member : Option String × Tree) : Except Fault σ :=
  match member.1 with
  | none => .error .malformed
  | some name =>
      match fields.find? fun field => field.name == name with
      | none => if member.2.isIntact then .ok record else .error .malformed
      | some field =>
          if field.isFilled record then .error .mismatch
          else field.fill nestings member.2 record

/-- Fill the fields with items, one each. -/
def takeItems (nestings : Nat) (closed : Bool) :
    List (Field σ) → List Tree → σ → Except Fault σ
  | [], [], record => if closed then .ok record else .error .malformed
  | [], _ :: _, _ => .error .malformed
  | _ :: _, [], _ => .error (if closed then .mismatch else .malformed)
  | field :: fields, item :: items, record => do
      takeItems nestings closed fields items (← field.fill nestings item record)

/-- The fields of a record that are there, as an object or, where that is allowed, as an
array. -/
def recordAs (arrays : Bool) (fields : List (Field σ)) (empty : σ) : Decoder σ
  | 0, .object _ _ => .error .malformed
  | nestings + 1, .object members stray => do
      let record ← members.foldlM (takeMember fields nestings) empty
      match stray with
      | none => return record
      | some _ => throw .malformed
  | nestings, .array items closed =>
      if arrays then
        match nestings with
        | 0 => .error .malformed
        | nestings + 1 => takeItems nestings closed fields items empty
      else .error .mismatch
  | _, tree => .error tree.wrongShape

/-- A record, as an object or as an array. -/
def record (fields : List (Field σ)) (empty : σ) : Decoder σ :=
  recordAs true fields empty

/-- A field that has to be there. -/
def required (field : Option α) : Except Fault α :=
  match field with
  | some found => .ok found
  | none => .error .mismatch

/-- One of several named cases: the bare name, or an object with the name as its only member and
the data of the case as its value.  A bare name stands for a case without data. -/
def oneOf (bare : String → Option α) (case : String → Option (Decoder α)) : Decoder α
  | _, .text (some name) =>
      match bare name with
      | some found => .ok found
      | none => .error .mismatch
  | 0, .object _ _ => .error .malformed
  | _ + 1, .object [] stray =>
      match stray with
      | some tree => .error tree.wrongShape
      | none => .error .malformed
  | nestings + 1, .object ((name, tree) :: rest) stray =>
      match name with
      | none => .error .malformed
      | some name =>
          match case name with
          | none => .error .mismatch
          | some decoder => do
              let found ← decoder nestings tree
              match rest, stray with
              | [], none => return found
              | _, _ => throw .malformed
  | _, _ => .error .malformed

/-- The data of a case without data. -/
def nothing (found : α) : Decoder α
  | _, .null => .ok found
  | _, tree => .error tree.wrongShape

end Decoder

/-- The data of one type that a document holds. -/
def Document.decode (document : Document) (decoder : Decoder α) : Except Fault α := do
  let found ← decoder nestingLimit document.tree
  if document.ended then return found else throw .malformed

/-- Read a text as data of one type. -/
def decodeText (decoder : Decoder α) (text : String) : Except Fault α :=
  (Document.ofText text).decode decoder

/-- Read a value as data of one type. -/
def decodeValue (decoder : Decoder α) (value : Value) : Except Fault α :=
  decoder nestingLimit value.toTree

end Abacus.Json
