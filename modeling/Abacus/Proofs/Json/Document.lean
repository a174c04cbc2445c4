import Abacus.Proofs.Json.Numeral
import Abacus.Proofs.Json.Quoted

/-!
# Documents — every JSON text is read

A value is read as its tree when what follows may come after a value: white space, a comma, a
closing bracket or brace, or nothing.  The reader is given two steps for each character and needs
no more: an item or a member takes one to be begun and leaves at least one character behind.
-/

namespace Abacus.Json

/-! ## What may stand before and after a value -/

/-- The text goes on as it may after a value. -/
def EndsValue (rest : List Char) : Prop :=
  ∀ c ∈ rest.head?, isSpace c = true ∨ c = ',' ∨ c = ']' ∨ c = '\x7d'

theorem endsValue_nil : EndsValue [] := fun _ h => nomatch h

theorem endsValue_cons {c : Char} {rest : List Char} :
    EndsValue (c :: rest) ↔ isSpace c = true ∨ c = ',' ∨ c = ']' ∨ c = '\x7d' := by
  constructor
  · intro h
    exact h c rfl
  · rintro h d hd
    obtain rfl := Option.some.inj hd
    exact h

/-- White space may stand after a value, if what follows it may. -/
theorem AreSpaces.endsValue {spaces rest : List Char} (h : AreSpaces spaces)
    (hrest : EndsValue rest) : EndsValue (spaces ++ rest) := by
  cases spaces with
  | nil => exact hrest
  | cons c spaces => exact endsValue_cons.mpr (Or.inl (h c List.mem_cons_self))

/-- What may stand after a value cannot go on with a numeral. -/
theorem EndsValue.endsNumeral {rest : List Char} (h : EndsValue rest) : EndsNumeral rest := by
  intro c hc
  rcases h c hc with hspace | rfl | rfl | rfl
  · simp only [isSpace, Bool.or_eq_true, beq_iff_eq] at hspace
    rcases hspace with ((rfl | rfl) | rfl) | rfl <;> decide
  · decide
  · decide
  · decide

/-- A property of the first character of a text that begins with the given one. -/
theorem head?_cons {p : Char → Prop} {c : Char} {rest : List Char} (h : p c) :
    ∀ d ∈ (c :: rest).head?, p d := by
  rintro d hd
  obtain rfl := Option.some.inj hd
  exact h

/-- White space is dropped up to the first character that is none. -/
theorem AreSpaces.dropSpaces {spaces rest : List Char} (h : AreSpaces spaces)
    (hrest : ∀ c ∈ rest.head?, isSpace c = false) : dropSpaces (spaces ++ rest) = rest := by
  rw [Json.dropSpaces, List.dropWhile_append_of_pos h]
  cases rest with
  | nil => rfl
  | cons c rest => exact List.dropWhile_cons_of_neg (by simp [hrest c rfl])

theorem AreSpaces.dropSpaces_cons {spaces rest : List Char} {c : Char} (h : AreSpaces spaces)
    (hc : isSpace c = false) : Json.dropSpaces (spaces ++ c :: rest) = c :: rest :=
  h.dropSpaces (head?_cons hc)

theorem dropSpaces_eq_self {rest : List Char} (hrest : ∀ c ∈ rest.head?, isSpace c = false) :
    dropSpaces rest = rest :=
  AreSpaces.dropSpaces areSpaces_nil hrest

/-- What begins a numeral is no white space. -/
theorem isSpace_of_begins {c : Char} (h : c.isDigit = true ∨ c = '-') : isSpace c = false := by
  rw [Bool.eq_false_iff]
  intro hspace
  simp only [isSpace, Bool.or_eq_true, beq_iff_eq] at hspace
  rcases hspace with ((rfl | rfl) | rfl) | rfl <;> exact absurd h (by decide)

/-- A value begins with a character that is neither white space nor a closing bracket. -/
theorem IsValue.exists_cons {text : List Char} {value : Value} (h : IsValue text value) :
    ∃ c rest, text = c :: rest ∧ isSpace c = false ∧ c ≠ ']' := by
  cases h with
  | null => exact ⟨_, _, rfl, by decide, by decide⟩
  | isTrue => exact ⟨_, _, rfl, by decide, by decide⟩
  | isFalse => exact ⟨_, _, rfl, by decide, by decide⟩
  | number hnumeral _ =>
      obtain ⟨c, rest, rfl, hc⟩ := hnumeral.exists_cons
      refine ⟨c, rest, rfl, isSpace_of_begins hc, ?_⟩
      rintro rfl
      exact absurd hc (by decide)
  | text hquoted =>
      obtain ⟨body, -, rfl⟩ := hquoted
      exact ⟨_, _, rfl, by decide, by decide⟩
  | emptyArray _ => exact ⟨_, _, rfl, by decide, by decide⟩
  | array _ _ => exact ⟨_, _, rfl, by decide, by decide⟩
  | emptyObject _ => exact ⟨_, _, rfl, by decide, by decide⟩
  | object _ _ => exact ⟨_, _, rfl, by decide, by decide⟩

/-- A value does not begin with white space. -/
theorem IsValue.head? {text : List Char} {value : Value} (h : IsValue text value)
    (rest : List Char) : ∀ c ∈ (text ++ rest).head?, isSpace c = false := by
  obtain ⟨c, tail, rfl, hc, -⟩ := h.exists_cons
  exact head?_cons hc

/-- The items of an array begin as the first of them does. -/
theorem AreItems.exists_cons {text : List Char} {items : List Value} (h : AreItems text items) :
    ∃ c rest, text = c :: rest ∧ isSpace c = false ∧ c ≠ ']' := by
  cases h with
  | last hitem _ =>
      obtain ⟨c, rest, rfl, hc⟩ := hitem.exists_cons
      exact ⟨c, _, rfl, hc⟩
  | more hitem _ _ _ =>
      obtain ⟨c, rest, rfl, hc⟩ := hitem.exists_cons
      exact ⟨c, _, rfl, hc⟩

theorem IsMember.exists_cons {text : List Char} {name : String} {value : Value}
    (h : IsMember text name value) : ∃ rest, text = '"' :: rest := by
  cases h with
  | mk hquoted _ _ _ _ =>
      obtain ⟨body, -, rfl⟩ := hquoted
      exact ⟨_, rfl⟩

/-- The members of an object begin with a mark. -/
theorem AreMembers.exists_cons {text : List Char} {members : List (String × Value)}
    (h : AreMembers text members) : ∃ rest, text = '"' :: rest := by
  cases h with
  | last hmember =>
      obtain ⟨rest, rfl⟩ := hmember.exists_cons
      exact ⟨_, rfl⟩
  | more hmember _ _ =>
      obtain ⟨rest, rfl⟩ := hmember.exists_cons
      exact ⟨_, rfl⟩

/-! ## One step of the reader -/

section Steps

variable {fuel : Nat} {text rest after : List Char}

/-- White space before a value is passed over. -/
theorem AreSpaces.readValue {before : List Char} (h : AreSpaces before)
    (htext : ∀ c ∈ text.head?, isSpace c = false) :
    readValue fuel (before ++ text) = readValue fuel text := by
  cases fuel with
  | zero => rfl
  | succ fuel =>
      rw [readValue.eq_def, readValue.eq_def (fuel + 1) text]
      dsimp only
      rw [h.dropSpaces htext, dropSpaces_eq_self htext]

/-- A numeral is read as the number that it denotes. -/
theorem IsNumeral.readValue {numeral : Numeral} (h : IsNumeral text numeral)
    (hrest : EndsValue rest) :
    readValue (fuel + 1) (text ++ rest) = (.number numeral.toNumber?, some rest) := by
  obtain ⟨c, tail, rfl, hc⟩ := h.exists_cons
  have hnone : Json.dropSpaces (c :: tail ++ rest) = c :: tail ++ rest :=
    dropSpaces_eq_self (head?_cons (isSpace_of_begins hc))
  have hother {d : Char} {more : List Char} (hd : ¬ (d.isDigit = true ∨ d = '-')) :
      c :: tail ++ rest ≠ d :: more := by
    intro heq
    obtain ⟨rfl, -⟩ := List.cons.inj heq
    exact hd hc
  rw [readValue.eq_def]
  dsimp only
  rw [hnone]
  split
  case h_7 => rw [h.read hrest.endsNumeral]
  all_goals
    next heq => exact absurd heq (hother (by decide))

theorem readValue_text {found : Option String} (h : Quoted.read text = some (found, after)) :
    readValue (fuel + 1) ('"' :: text) = (.text found, some after) := by
  have hnone : dropSpaces ('"' :: text) = '"' :: text := rfl
  simp only [readValue, hnone, h]

theorem readValue_emptyArray (h : dropSpaces text = ']' :: after) :
    readValue (fuel + 1) ('[' :: text) = (.array [] true, some after) := by
  have hnone : dropSpaces ('[' :: text) = '[' :: text := rfl
  simp only [readValue, hnone, h]

theorem readValue_array {items : List Tree} (h : dropSpaces text = rest)
    (hrest : ∀ c ∈ rest.head?, c ≠ ']') (hitems : readItems fuel rest = (items, some after)) :
    readValue (fuel + 1) ('[' :: text) = (.array items true, some after) := by
  have hnone : dropSpaces ('[' :: text) = '[' :: text := rfl
  simp only [readValue, hnone, h]
  split
  · exact absurd rfl (hrest ']' rfl)
  · rw [hitems]
    rfl

theorem readValue_emptyObject (h : dropSpaces text = '\x7d' :: after) :
    readValue (fuel + 1) ('\x7b' :: text) = (.object [] none, some after) := by
  have hnone : dropSpaces ('\x7b' :: text) = '\x7b' :: text := rfl
  simp only [readValue, hnone, h]

theorem readValue_object {members : List (Option String × Tree)}
    (h : dropSpaces text = '"' :: rest) (hmembers : readMembers fuel rest = (members, some after)) :
    readValue (fuel + 1) ('\x7b' :: text) = (.object members none, some after) := by
  have hnone : dropSpaces ('\x7b' :: text) = '\x7b' :: text := rfl
  simp only [readValue, hnone, h, hmembers]
  rfl

theorem readItems_last {item : Tree} (hitem : readValue fuel text = (item, some rest))
    (h : dropSpaces rest = ']' :: after) :
    readItems (fuel + 1) text = ([item], some after) := by
  simp only [readItems, hitem, h]

theorem readItems_more {item : Tree} {items : List Tree} {next first : List Char}
    (hitem : readValue fuel text = (item, some rest)) (h : dropSpaces rest = ',' :: next)
    (hnext : dropSpaces next = first) (hfirst : first ≠ [])
    (hbracket : ∀ c ∈ first.head?, c ≠ ']')
    (hitems : readItems fuel first = (items, some after)) :
    readItems (fuel + 1) text = (item :: items, some after) := by
  simp only [readItems, hitem, h, hnext]
  split
  · exact absurd rfl hfirst
  · exact absurd rfl (hbracket ']' rfl)
  · rw [hitems]

variable {name : Option String} {value : Tree} {between content : List Char}

theorem readMembers_last (hname : Quoted.read text = some (name, between))
    (hbetween : dropSpaces between = ':' :: content)
    (hvalue : readValue fuel content = (value, some rest))
    (h : dropSpaces rest = '\x7d' :: after) :
    readMembers (fuel + 1) text = ([(name, value)], some after) := by
  simp only [readMembers, hname, hbetween, hvalue, h]

theorem readMembers_more {next first : List Char} {members : List (Option String × Tree)}
    (hname : Quoted.read text = some (name, between))
    (hbetween : dropSpaces between = ':' :: content)
    (hvalue : readValue fuel content = (value, some rest)) (h : dropSpaces rest = ',' :: next)
    (hnext : dropSpaces next = '"' :: first)
    (hmembers : readMembers fuel first = (members, some after)) :
    readMembers (fuel + 1) text = ((name, value) :: members, some after) := by
  simp only [readMembers, hname, hbetween, hvalue, h, hnext, hmembers]

end Steps

/-! ## Whole values -/

mutual

/-- A value is read, whatever follows that may come after it. -/
theorem IsValue.read {text : List Char} {value : Value} (h : IsValue text value) {fuel : Nat}
    (hfuel : 2 * text.length ≤ fuel) {rest : List Char} (hrest : EndsValue rest) :
    readValue fuel (text ++ rest) = (value.toTree, some rest) := by
  obtain ⟨fuel, rfl⟩ : ∃ less, fuel = less + 1 := by
    obtain ⟨c, tail, rfl, -⟩ := h.exists_cons
    rw [List.length_cons] at hfuel
    exact Nat.exists_eq_add_one.mpr (by omega)
  cases h with
  | null => rfl
  | isTrue => rfl
  | isFalse => rfl
  | number hnumeral hnumber =>
      rw [hnumeral.readValue hrest, hnumber]
      rfl
  | text hquoted =>
      obtain ⟨body, hbody, rfl⟩ := hquoted
      rw [List.cons_append, List.append_assoc]
      exact readValue_text (hbody.read rest)
  | emptyArray hspaces =>
      rw [List.cons_append, List.append_assoc]
      exact readValue_emptyArray (hspaces.dropSpaces_cons rfl)
  | @array spaces text items hspaces hitems =>
      simp only [List.length_cons, List.length_append] at hfuel
      have hread : readItems fuel (text ++ ']' :: rest) = (Value.toTrees items, some rest) :=
        hitems.read (by omega) rest
      obtain ⟨c, tail, hcons, hspace, hbracket⟩ := hitems.exists_cons
      rw [List.cons_append, List.append_assoc, List.append_assoc]
      refine readValue_array (hspaces.dropSpaces ?_) ?_ hread
      · rw [hcons]
        exact head?_cons hspace
      · rw [hcons]
        exact head?_cons hbracket
  | emptyObject hspaces =>
      rw [List.cons_append, List.append_assoc]
      exact readValue_emptyObject (hspaces.dropSpaces_cons rfl)
  | @object spaces text members hspaces hmembers =>
      simp only [List.length_cons, List.length_append] at hfuel
      obtain ⟨inner, hcons⟩ := hmembers.exists_cons
      have hread : readMembers fuel (inner ++ '\x7d' :: rest) =
          (Value.toMembers members, some rest) :=
        hmembers.read hcons (by omega) rest
      rw [List.cons_append, List.append_assoc, List.append_assoc, hcons]
      exact readValue_object (hspaces.dropSpaces_cons rfl) hread

/-- The items of an array are read up to the closing bracket. -/
theorem AreItems.read {text : List Char} {items : List Value} (h : AreItems text items) {fuel : Nat}
    (hfuel : 2 * text.length + 1 ≤ fuel) (rest : List Char) :
    readItems fuel (text ++ ']' :: rest) = (Value.toTrees items, some rest) := by
  obtain ⟨fuel, rfl⟩ : ∃ less, fuel = less + 1 := Nat.exists_eq_add_one.mpr (by omega)
  cases h with
  | @last text after item hitem hafter =>
      simp only [List.length_append] at hfuel
      have hread : readValue fuel (text ++ (after ++ ']' :: rest)) =
          (item.toTree, some (after ++ ']' :: rest)) :=
        hitem.read (by omega) (hafter.endsValue (endsValue_cons.mpr (by decide)))
      rw [List.append_assoc]
      exact readItems_last hread (hafter.dropSpaces_cons rfl)
  | @more text after before later item items hitem hafter hbefore hitems =>
      simp only [List.length_append, List.length_cons] at hfuel
      have hread : readValue fuel (text ++ (after ++ ',' :: (before ++ (later ++ ']' :: rest)))) =
          (item.toTree, some (after ++ ',' :: (before ++ (later ++ ']' :: rest)))) :=
        hitem.read (by omega) (hafter.endsValue (endsValue_cons.mpr (by decide)))
      have hlater : readItems fuel (later ++ ']' :: rest) = (Value.toTrees items, some rest) :=
        hitems.read (by omega) rest
      obtain ⟨c, tail, hcons, hspace, hbracket⟩ := hitems.exists_cons
      simp only [List.append_assoc, List.cons_append]
      refine readItems_more hread (hafter.dropSpaces_cons rfl)
        (hbefore.dropSpaces ?_) ?_ ?_ hlater
      · rw [hcons]
        exact head?_cons hspace
      · rw [hcons]
        exact List.cons_ne_nil _ _
      · rw [hcons]
        exact head?_cons hbracket

/-- The members of an object are read up to the closing brace, once the mark that opens the first
name has been read. -/
theorem AreMembers.read {text inner : List Char} {members : List (String × Value)}
    (h : AreMembers text members) (htext : text = '"' :: inner) {fuel : Nat}
    (hfuel : 2 * text.length + 1 ≤ fuel) (rest : List Char) :
    readMembers fuel (inner ++ '\x7d' :: rest) = (Value.toMembers members, some rest) := by
  obtain ⟨fuel, rfl⟩ : ∃ less, fuel = less + 1 := Nat.exists_eq_add_one.mpr (by omega)
  cases h with
  | @last _ name value hmember =>
      cases hmember with
      | @mk _ between before content after _ _ hquoted hbetween hbefore hvalue hafter =>
          obtain ⟨body, hbody, rfl⟩ := hquoted
          obtain rfl : inner = body ++ '"' ::
              (between ++ ':' :: (before ++ (content ++ after))) := by
            simpa using htext.symm
          simp only [List.length_append, List.length_cons] at hfuel
          have hread : readValue fuel (content ++ (after ++ '\x7d' :: rest)) =
              (value.toTree, some (after ++ '\x7d' :: rest)) :=
            hvalue.read (by omega) (hafter.endsValue (endsValue_cons.mpr (by decide)))
          rw [← hbefore.readValue (hvalue.head? _)] at hread
          simp only [List.append_assoc, List.cons_append]
          exact readMembers_last (hbody.read _) (hbetween.dropSpaces_cons rfl) hread
            (hafter.dropSpaces_cons rfl)
  | @more _ ahead later name value members hmember hahead hmembers =>
      cases hmember with
      | @mk _ between before content after _ _ hquoted hbetween hbefore hvalue hafter =>
          obtain ⟨body, hbody, rfl⟩ := hquoted
          obtain rfl : inner = body ++ '"' ::
              (between ++ ':' :: (before ++ (content ++ (after ++ ',' :: (ahead ++ later))))) := by
            simpa using htext.symm
          simp only [List.length_append, List.length_cons] at hfuel
          have hread : readValue fuel
              (content ++ (after ++ ',' :: (ahead ++ (later ++ '\x7d' :: rest)))) =
                (value.toTree, some (after ++ ',' :: (ahead ++ (later ++ '\x7d' :: rest)))) :=
            hvalue.read (by omega) (hafter.endsValue (endsValue_cons.mpr (by decide)))
          rw [← hbefore.readValue (hvalue.head? _)] at hread
          obtain ⟨first, hcons⟩ := hmembers.exists_cons
          have hlater : readMembers fuel (first ++ '\x7d' :: rest) =
              (Value.toMembers members, some rest) :=
            hmembers.read hcons (by omega) rest
          simp only [List.append_assoc, List.cons_append]
          refine readMembers_more (hbody.read _) (hbetween.dropSpaces_cons rfl)
            hread (hafter.dropSpaces_cons rfl) ?_ hlater
          rw [hcons]
          exact hahead.dropSpaces_cons rfl

end

/-- **Every JSON text is read** as the tree of its value, to its end. -/
theorem IsText.ofText {text : String} {value : Value} (h : IsText text value) :
    Document.ofText text = ⟨value.toTree, true⟩ := by
  obtain ⟨before, middle, after, hbefore, hvalue, hafter, htext⟩ := h
  have hends : EndsValue after := by
    have h := hafter.endsValue endsValue_nil
    rwa [List.append_nil] at h
  have hread : readValue (2 * text.toList.length + 1) text.toList = (value.toTree, some after) := by
    rw [htext, hbefore.readValue (hvalue.head? after)]
    refine hvalue.read ?_ hends
    simp only [List.length_append]
    omega
  have hnothing : dropSpaces after = [] := by
    have h : dropSpaces (after ++ []) = [] := hafter.dropSpaces fun _ h => nomatch h
    rwa [List.append_nil] at h
  rw [Document.ofText, hread]
  show (⟨value.toTree, (dropSpaces after).isEmpty⟩ : Document) = _
  rw [hnothing]
  rfl

end Abacus.Json
