import Abacus.Json.Writer
import Abacus.Proofs.Decimal.Layout
import Abacus.Proofs.Json.Quoted

/-!
# Writing JSON — what is written is JSON

A number is written with the characters of numbers, and ends where another character comes.  If the
numbers in a value are numerals that denote them, what is written for the value is JSON of it, in one
line (`Value.isText_compact`) and on several ones (`Value.isText_indented`): a line break and the
blanks after it stand where the grammar allows white space.
-/

namespace Abacus.Json

open Decimal (IsPart)

/-! ## Numbers -/

/-- A number is written with characters of numbers only, unless it is written as null. -/
theorem Number.isPart_or_mem_null {n : Number} {c : Char} (h : c ∈ n.write) :
    IsPart c ∨ c ∈ "null".toList := by
  cases n with
  | integer value => exact Or.inl (Decimal.areParts_signedNumeral value c h)
  | double value =>
      cases value with
      | nan => exact Or.inr h
      | infinite negative => exact Or.inr h
      | finite negative m => exact Or.inl (Double.areParts_pointed _ _ _ _ _ c h)

theorem Number.comma_not_mem_write (n : Number) : ',' ∉ n.write := by
  intro h
  rcases n.isPart_or_mem_null h with (hdigit | hother) | hnull
  · exact absurd hdigit (by decide)
  · exact absurd hother (by decide)
  · exact absurd hnull (by decide)

/-- A number ends at the comma after it, whatever the number is. -/
theorem Number.rest_eq_of_write {n m : Number} {rest rest' : List Char}
    (h : n.write ++ ',' :: rest = m.write ++ ',' :: rest') : rest = rest' := by
  have hdrop (n : Number) (rest : List Char) :
      (n.write ++ ',' :: rest).dropWhile (· != ',') = ',' :: rest := by
    rw [List.dropWhile_append_of_pos]
    · rfl
    · intro c hc
      rw [bne_iff_ne]
      rintro rfl
      exact n.comma_not_mem_write hc
  have hrest := congrArg (List.dropWhile (· != ',')) h
  rw [hdrop, hdrop] at hrest
  exact (List.cons.inj hrest).2

/-! ## Values -/

/-- What is written for the number is a numeral that denotes it. -/
def Number.IsReadBack (n : Number) : Prop :=
  ∃ numeral, IsNumeral n.write numeral ∧ numeral.toNumber? = some n

namespace Value

mutual

/-- Every number in the value is read back. -/
def IsReadBack : Value → Prop
  | .number n => n.IsReadBack
  | .array items => ItemsAreReadBack items
  | .object members => MembersAreReadBack members
  | .null | .bool _ | .text _ => True

/-- Every number in the items is read back. -/
def ItemsAreReadBack : List Value → Prop
  | [] => True
  | item :: rest => item.IsReadBack ∧ ItemsAreReadBack rest

/-- Every number in the members is read back. -/
def MembersAreReadBack : List (String × Value) → Prop
  | [] => True
  | (_, value) :: rest => value.IsReadBack ∧ MembersAreReadBack rest

end

/-- What is written for a member is one. -/
theorem isMember_write {name : String} {text : List Char} {value : Value} (h : IsValue text value) :
    IsMember (Quoted.write name ++ ':' :: text) name value := by
  have hmember := IsMember.mk (Quoted.isQuoted_write name) areSpaces_nil areSpaces_nil h
    areSpaces_nil
  simpa using hmember

/-! ## In one line -/

mutual

/-- **What is written is JSON**, if the numbers in it are read back. -/
theorem isValue_compactChars {value : Value} (h : value.IsReadBack) :
    IsValue value.compactChars value := by
  cases value with
  | null => exact .null
  | bool b =>
      cases b with
      | true => exact .isTrue
      | false => exact .isFalse
  | number n =>
      obtain ⟨numeral, hnumeral, hnumber⟩ := h
      exact .number hnumeral hnumber
  | text s => exact .text (Quoted.isQuoted_write s)
  | array items =>
      cases items with
      | nil => exact .emptyArray areSpaces_nil
      | cons item rest =>
          obtain ⟨text, htext, hitems⟩ := areItems_compactItems (List.cons_ne_nil item rest) h
          rw [compactChars, htext]
          exact .array areSpaces_nil hitems
  | object members =>
      cases members with
      | nil => exact .emptyObject areSpaces_nil
      | cons member rest =>
          obtain ⟨text, htext, hmembers⟩ :=
            areMembers_compactMembers (List.cons_ne_nil member rest) h
          rw [compactChars, htext]
          exact .object areSpaces_nil hmembers

/-- What is written for the items of an array, at least one, are these items. -/
theorem areItems_compactItems {items : List Value} (hsome : items ≠ [])
    (h : ItemsAreReadBack items) :
    ∃ text, compactItems items = text ++ [']'] ∧ AreItems text items := by
  cases items with
  | nil => exact absurd rfl hsome
  | cons item rest =>
      have hitem := isValue_compactChars h.1
      cases rest with
      | nil =>
          have hitems := AreItems.last hitem areSpaces_nil
          rw [List.append_nil] at hitems
          exact ⟨_, rfl, hitems⟩
      | cons next rest =>
          obtain ⟨text, htext, hitems⟩ := areItems_compactItems (List.cons_ne_nil next rest) h.2
          refine ⟨_, ?_, .more hitem areSpaces_nil areSpaces_nil hitems⟩
          simp [compactItems, htext]

/-- What is written for the members of an object, at least one, are these members. -/
theorem areMembers_compactMembers {members : List (String × Value)} (hsome : members ≠ [])
    (h : MembersAreReadBack members) :
    ∃ text, compactMembers members = text ++ ['\x7d'] ∧ AreMembers text members := by
  cases members with
  | nil => exact absurd rfl hsome
  | cons member rest =>
      obtain ⟨name, value⟩ := member
      have hmember : IsMember (Quoted.write name ++ ':' :: value.compactChars) name value :=
        isMember_write (isValue_compactChars h.1)
      cases rest with
      | nil => exact ⟨_, by simp [compactMembers], .last hmember⟩
      | cons next rest =>
          obtain ⟨text, htext, hmembers⟩ :=
            areMembers_compactMembers (List.cons_ne_nil next rest) h.2
          refine ⟨_, ?_, .more hmember areSpaces_nil hmembers⟩
          simp [compactMembers, htext]

end

/-- The text of a value is JSON of it, if the numbers in it are read back. -/
theorem isText_compact {value : Value} (h : value.IsReadBack) : IsText value.compact value := by
  refine ⟨[], _, [], areSpaces_nil, isValue_compactChars h, areSpaces_nil, ?_⟩
  rw [compact, String.toList_ofList, List.nil_append, List.append_nil]

/-! ## On several lines -/

/-- A line break and the blanks after it are white space. -/
theorem areSpaces_newLine (level : Nat) : AreSpaces (newLine level) := by
  intro c hc
  rcases List.mem_cons.mp hc with rfl | hc
  · rfl
  · rw [List.eq_of_mem_replicate hc]
    rfl

/-- What is written for a member on its line is one, with the white space after it. -/
theorem isMember_write_blank {name : String} {text after : List Char} {value : Value}
    (h : IsValue text value) (hafter : AreSpaces after) :
    IsMember (Quoted.write name ++ ':' :: ' ' :: (text ++ after)) name value := by
  have hblank : AreSpaces [' '] := fun c hc => by rw [List.mem_singleton.mp hc]; rfl
  have hmember := IsMember.mk (Quoted.isQuoted_write name) areSpaces_nil hblank h hafter
  simpa using hmember

mutual

/-- **What is laid out is JSON**, if the numbers in it are read back. -/
theorem isValue_indentedChars {value : Value} (h : value.IsReadBack) (level : Nat) :
    IsValue (value.indentedChars level) value := by
  cases value with
  | null => exact .null
  | bool b =>
      cases b with
      | true => exact .isTrue
      | false => exact .isFalse
  | number n =>
      obtain ⟨numeral, hnumeral, hnumber⟩ := h
      exact .number hnumeral hnumber
  | text s => exact .text (Quoted.isQuoted_write s)
  | array items =>
      cases items with
      | nil => exact .emptyArray areSpaces_nil
      | cons item rest =>
          obtain ⟨text, htext, hitems⟩ :=
            areItems_indentedItems (List.cons_ne_nil item rest) h level
          rw [indentedChars, htext]
          · exact .array (areSpaces_newLine _) hitems
          · exact List.cons_ne_nil item rest
  | object members =>
      cases members with
      | nil => exact .emptyObject areSpaces_nil
      | cons member rest =>
          obtain ⟨text, htext, hmembers⟩ :=
            areMembers_indentedMembers (List.cons_ne_nil member rest) h level
          rw [indentedChars, htext]
          · exact .object (areSpaces_newLine _) hmembers
          · exact List.cons_ne_nil member rest

/-- What is laid out for the items of an array, at least one, are these items on lines of their
own. -/
theorem areItems_indentedItems {items : List Value} (hsome : items ≠ [])
    (h : ItemsAreReadBack items) (level : Nat) :
    ∃ text, indentedItems level items = newLine (level + 1) ++ (text ++ [']']) ∧
      AreItems text items := by
  cases items with
  | nil => exact absurd rfl hsome
  | cons item rest =>
      have hitem := isValue_indentedChars h.1 (level + 1)
      cases rest with
      | nil => exact ⟨_, by simp [indentedItems], .last hitem (areSpaces_newLine level)⟩
      | cons next rest =>
          obtain ⟨text, htext, hitems⟩ :=
            areItems_indentedItems (List.cons_ne_nil next rest) h.2 level
          refine ⟨_, ?_, .more hitem areSpaces_nil (areSpaces_newLine (level + 1)) hitems⟩
          simp [indentedItems, htext]

/-- What is laid out for the members of an object, at least one, are these members on lines of their
own. -/
theorem areMembers_indentedMembers {members : List (String × Value)} (hsome : members ≠ [])
    (h : MembersAreReadBack members) (level : Nat) :
    ∃ text, indentedMembers level members = newLine (level + 1) ++ (text ++ ['\x7d']) ∧
      AreMembers text members := by
  cases members with
  | nil => exact absurd rfl hsome
  | cons member rest =>
      obtain ⟨name, value⟩ := member
      have hvalue : IsValue (value.indentedChars (level + 1)) value :=
        isValue_indentedChars h.1 (level + 1)
      cases rest with
      | nil =>
          refine ⟨_, ?_, .last (isMember_write_blank hvalue (areSpaces_newLine level))⟩
          simp [indentedMembers]
      | cons next rest =>
          obtain ⟨text, htext, hmembers⟩ :=
            areMembers_indentedMembers (List.cons_ne_nil next rest) h.2 level
          refine ⟨_, ?_, .more (isMember_write_blank hvalue areSpaces_nil)
            (areSpaces_newLine (level + 1)) hmembers⟩
          simp [indentedMembers, htext]

end

/-- The text of a value on several lines is JSON of it, if the numbers in it are read back. -/
theorem isText_indented {value : Value} (h : value.IsReadBack) :
    IsText value.indented value := by
  refine ⟨[], _, [], areSpaces_nil, isValue_indentedChars h 0, areSpaces_nil, ?_⟩
  rw [indented, String.toList_ofList, List.nil_append, List.append_nil]

end Value

end Abacus.Json
