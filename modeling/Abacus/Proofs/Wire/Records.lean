import Abacus.Proofs.Json.Quoted
import Abacus.Proofs.Json.Writer
import Abacus.Text.Plain
import Abacus.Wire.Encoding

/-!
# Records — a list of records is told by its text

Both layouts put the same pieces around the texts and the numbers of every record.  A text ends where
its marks close and a number where a character comes that is in none, so a list of records is
determined by its text in either layout (`listToJson_compact_injective`,
`listToJson_indented_injective`).  Where it is printed, only the character that deletes can get lost of
it (`plain_listToJson_indented_iff`).
-/

namespace Abacus

open Decimal (IsPart)
open Json (Number Quoted.write Value)
open Text (Terminal plain plainFrom)

/-! ## Integers -/

/-- Texts whose ends are told by a kind of characters are the same if they are with more after
them. -/
theorem append_inj_of_ends {p : Char → Prop} {first second rest rest' : List Char}
    (hfirst : ∀ c ∈ first, p c) (hsecond : ∀ c ∈ second, p c) (hrest : ∃ c ∈ rest.head?, ¬ p c)
    (hrest' : ∃ c ∈ rest'.head?, ¬ p c) (h : first ++ rest = second ++ rest') :
    first = second ∧ rest = rest' := by
  induction first generalizing second with
  | nil =>
      cases second with
      | nil => exact ⟨rfl, h⟩
      | cons c second =>
          obtain ⟨d, hd, hother⟩ := hrest
          rw [show rest = c :: (second ++ rest') from h] at hd
          obtain rfl := Option.some.inj hd
          exact absurd (hsecond c List.mem_cons_self) hother
  | cons c first ih =>
      cases second with
      | nil =>
          obtain ⟨d, hd, hother⟩ := hrest'
          rw [show rest' = c :: (first ++ rest) from h.symm] at hd
          obtain rfl := Option.some.inj hd
          exact absurd (hfirst c List.mem_cons_self) hother
      | cons d second =>
          obtain ⟨rfl, htail⟩ := List.cons.inj h
          obtain ⟨rfl, hrest⟩ := ih (List.forall_mem_cons.mp hfirst).2
            (List.forall_mem_cons.mp hsecond).2 htail
          exact ⟨rfl, hrest⟩

/-- An integer ends where a character comes that is in no number. -/
theorem Json.Number.integer_append_inj {n m : Int} {rest rest' : List Char}
    (hrest : ∃ c ∈ rest.head?, ¬ IsPart c) (hrest' : ∃ c ∈ rest'.head?, ¬ IsPart c)
    (h : (Number.integer n).write ++ rest = (Number.integer m).write ++ rest') :
    n = m ∧ rest = rest' := by
  obtain ⟨hwritten, hrest⟩ := append_inj_of_ends (Decimal.areParts_signedNumeral n)
    (Decimal.areParts_signedNumeral m) hrest hrest' h
  exact ⟨Decimal.signedNumeral_injective hwritten, hrest⟩

/-! ## What a terminal is shown -/

namespace Text

/-- Whatever a terminal is reading, it does not show the character that deletes. -/
theorem Terminal.prints_delete (terminal : Terminal) : terminal.prints '\x7f' = false := by
  cases terminal <;> decide

theorem delete_not_mem_plainFrom (terminal : Terminal) (text : List Char) :
    '\x7f' ∉ plainFrom terminal text := by
  induction text generalizing terminal with
  | nil => exact List.not_mem_nil
  | cons c rest ih =>
      rw [plainFrom]
      split
      · next hprints =>
        rintro (_ | ⟨_, h⟩)
        · rw [terminal.prints_delete] at hprints
          exact Bool.false_ne_true hprints
        · exact ih .ground h
      · exact ih _

/-- A text without other control characters is printed as it is unless it deletes. -/
theorem plain_eq_self_iff {text : String}
    (h : ∀ c ∈ text.toList, Terminal.prints .ground c = true ∨ c = '\x7f') :
    plain text = text ↔ '\x7f' ∉ text.toList := by
  constructor
  · intro hplain
    rw [← hplain, plain, String.toList_ofList]
    exact delete_not_mem_plainFrom .ground text.toList
  · intro hdelete
    have hprints : ∀ c ∈ text.toList, Terminal.prints .ground c = true := by
      intro c hc
      refine (h c hc).resolve_right ?_
      rintro rfl
      exact hdelete hc
    rw [plain, plainFrom_ground hprints, String.ofList_toList]

/-- From the blank on, all characters but the one that deletes are shown. -/
theorem prints_of_le {c : Char} (h : ' ' ≤ c) (hdelete : c ≠ '\x7f') :
    Terminal.prints .ground c = true := by
  simp [Terminal.prints, h, hdelete]

theorem blank_le_of_isPart {c : Char} (h : IsPart c) : ' ' ≤ c := by
  rcases h with hdigit | hother
  · have hrange : '0' ≤ c ∧ c ≤ '9' := by
      simpa [Char.isDigit, Char.le_def] using hdigit
    exact Char.le_trans (by decide) hrange.1
  · simp only [List.mem_cons, List.not_mem_nil, or_false] at hother
    rcases hother with rfl | rfl | rfl | rfl <;> decide

/-- Numbers are shown. -/
theorem prints_of_isPart {c : Char} (h : IsPart c) : Terminal.prints .ground c = true := by
  refine prints_of_le (blank_le_of_isPart h) ?_
  rintro rfl
  exact absurd h (by decide)

end Text

/-- What is written for a character is a mark, a letter or a digit, or else the character itself, which
is then no control character. -/
theorem Json.Quoted.mem_escape {c d : Char} (h : d ∈ escape c) :
    ' ' ≤ d ∧ d ≠ '\x7f' ∨ d = c ∧ ' ' ≤ c := by
  have hhex : ∀ n < 16, ' ' ≤ Text.hexDigit n ∧ Text.hexDigit n ≠ '\x7f' := by decide
  have hpair (letter : Char) (hletter : ' ' ≤ letter ∧ letter ≠ '\x7f')
      (hmem : d ∈ ['\\', letter]) : ' ' ≤ d ∧ d ≠ '\x7f' := by
    simp only [List.mem_cons, List.not_mem_nil, or_false] at hmem
    rcases hmem with rfl | rfl
    · decide
    · exact hletter
  rw [escape] at h
  split at h
  · exact Or.inl (hpair '"' (by decide) h)
  split at h
  · exact Or.inl (hpair '\\' (by decide) h)
  split at h
  · exact Or.inl (hpair 'n' (by decide) h)
  split at h
  · exact Or.inl (hpair 'r' (by decide) h)
  split at h
  · exact Or.inl (hpair 't' (by decide) h)
  split at h
  · exact Or.inl (hpair 'b' (by decide) h)
  split at h
  · exact Or.inl (hpair 'f' (by decide) h)
  split at h
  · next hcontrol =>
    simp only [List.mem_cons, List.not_mem_nil, or_false] at h
    rcases h with rfl | rfl | rfl | rfl | rfl | rfl
    · exact Or.inl (by decide)
    · exact Or.inl (by decide)
    · exact Or.inl (by decide)
    · exact Or.inl (by decide)
    · exact Or.inl (hhex _ (by omega))
    · exact Or.inl (hhex _ (by omega))
  · next hcontrol =>
    refine Or.inr ⟨List.mem_singleton.mp h, ?_⟩
    rw [Char.le_def, UInt32.le_iff_toNat_le]
    exact Nat.not_lt.mp hcontrol

/-- What is written for a text is no control character, and it deletes only if the text does. -/
theorem Json.Quoted.mem_write {c : Char} {text : String} (h : c ∈ write text) :
    ' ' ≤ c ∧ (c = '\x7f' → '\x7f' ∈ text.toList) := by
  rw [write, List.mem_append, List.mem_cons, List.mem_singleton] at h
  rcases h with (rfl | h) | rfl
  · exact ⟨by decide, fun heq => absurd heq (by decide)⟩
  · obtain ⟨d, hd, hc⟩ := List.mem_flatMap.mp h
    rcases mem_escape hc with ⟨hle, hdelete⟩ | ⟨rfl, hle⟩
    · exact ⟨hle, fun heq => absurd heq hdelete⟩
    · exact ⟨hle, fun heq => heq ▸ hd⟩
  · exact ⟨by decide, fun heq => absurd heq (by decide)⟩

/-- What is written for a text is shown, unless it deletes. -/
theorem Json.Quoted.prints_of_mem_write {c : Char} {text : String} (h : c ∈ write text) :
    Terminal.prints .ground c = true ∨ c = '\x7f' ∧ '\x7f' ∈ text.toList := by
  obtain ⟨hle, hmem⟩ := mem_write h
  by_cases hdelete : c = '\x7f'
  · exact Or.inr ⟨hdelete, hmem hdelete⟩
  · exact Or.inl (Text.prints_of_le hle hdelete)

theorem Json.Quoted.delete_mem_write_iff {text : String} :
    '\x7f' ∈ write text ↔ '\x7f' ∈ text.toList := by
  constructor
  · exact fun h => (mem_write h).2 rfl
  · intro h
    have hescape : '\x7f' ∈ text.toList.flatMap escape := List.mem_flatMap.mpr ⟨_, h, by decide⟩
    simp [write, hescape]

namespace History

/-! ## Layouts -/

/-- The pieces that a layout puts around the parts of each record of a list, and at the end of the
list. -/
structure Layout where
  start : List Char
  expression : List Char
  result : List Char
  mode : List Char
  createdAt : List Char
  stop : List Char
  close : List Char
  /-- A list with a record in it does not begin like the end of one. -/
  starts : ∃ c ∈ start.head?, c ≠ ']'
  /-- The first number ends. -/
  endsFirst : ∃ c ∈ expression.head?, ¬ IsPart c
  /-- The last number ends. -/
  endsLast : ∃ c ∈ stop.head?, ¬ IsPart c
  /-- The end of a list does not begin like another record. -/
  closes : ∃ c ∈ close.head?, c ≠ ','
  /-- All of this is shown where it is printed. -/
  prints : (start ++ expression ++ result ++ mode ++ createdAt ++ stop ++ close).all
    (Terminal.prints .ground) = true

namespace Layout

/-- A record in the layout. -/
def record (layout : Layout) (r : Record) : List Char :=
  layout.start ++ ((Number.integer r.id).write ++ (layout.expression ++
    (Quoted.write r.expression ++ (layout.result ++ (Quoted.write r.result ++ (layout.mode ++
      (Quoted.write r.mode.name ++ (layout.createdAt ++ ((Number.integer r.createdAt).write ++
        layout.stop)))))))))

/-- The records of a list in the layout, and the end of the list. -/
def records (layout : Layout) : List Record → List Char
  | [] => [']']
  | [r] => layout.record r ++ layout.close
  | r :: rest => layout.record r ++ ',' :: layout.records rest

/-- All in one line. -/
def compact : Layout where
  start := '\x7b' :: Quoted.write "id" ++ [':']
  expression := ',' :: Quoted.write "expression" ++ [':']
  result := ',' :: Quoted.write "result" ++ [':']
  mode := ',' :: Quoted.write "mode" ++ [':']
  createdAt := ',' :: Quoted.write "created_at" ++ [':']
  stop := ['\x7d']
  close := [']']
  starts := ⟨'\x7b', rfl, by decide⟩
  endsFirst := ⟨',', rfl, by simp [IsPart]⟩
  endsLast := ⟨'\x7d', rfl, by simp [IsPart]⟩
  closes := ⟨']', rfl, by decide⟩
  prints := by decide

/-- Each record, and each part of it, on a line of its own. -/
def indented : Layout where
  start := Value.newLine 1 ++ '\x7b' :: Value.newLine 2 ++ Quoted.write "id" ++ [':', ' ']
  expression := ',' :: Value.newLine 2 ++ Quoted.write "expression" ++ [':', ' ']
  result := ',' :: Value.newLine 2 ++ Quoted.write "result" ++ [':', ' ']
  mode := ',' :: Value.newLine 2 ++ Quoted.write "mode" ++ [':', ' ']
  createdAt := ',' :: Value.newLine 2 ++ Quoted.write "created_at" ++ [':', ' ']
  stop := Value.newLine 1 ++ ['\x7d']
  close := Value.newLine 0 ++ [']']
  starts := ⟨'\n', rfl, by decide⟩
  endsFirst := ⟨',', rfl, by simp [IsPart]⟩
  endsLast := ⟨'\n', rfl, by simp [IsPart]⟩
  closes := ⟨'\n', rfl, by decide⟩
  prints := by decide

theorem record_compact (r : Record) : r.toJson.compactChars = compact.record r := by
  simp [Record.toJson, record, compact, Mode.toJson, Value.integer, Value.compactChars,
    Value.compactMembers]

theorem record_indented (r : Record) :
    Value.newLine 1 ++ r.toJson.indentedChars 1 = indented.record r := by
  simp [Record.toJson, record, indented, Mode.toJson, Value.integer, Value.indentedChars,
    Value.indentedMembers]

theorem records_compact (records : List Record) :
    (Record.listToJson records).compactChars = '[' :: compact.records records := by
  rw [Record.listToJson, Value.compactChars]
  congr 1
  induction records with
  | nil => rfl
  | cons r rest ih =>
      cases rest with
      | nil =>
          show r.toJson.compactChars ++ [']'] = _
          rw [record_compact]
          rfl
      | cons next rest =>
          show r.toJson.compactChars ++ ',' :: Value.compactItems ((next :: rest).map Record.toJson) = _
          rw [record_compact, ih]
          rfl

theorem records_indented (records : List Record) :
    (Record.listToJson records).indentedChars 0 = '[' :: indented.records records := by
  cases records with
  | nil => rfl
  | cons r rest =>
      show '[' :: Value.indentedItems 0 ((r :: rest).map Record.toJson) = _
      congr 1
      induction rest generalizing r with
      | nil =>
          show Value.newLine 1 ++ r.toJson.indentedChars 1 ++ Value.newLine 0 ++ [']'] = _
          rw [record_indented, List.append_assoc]
          rfl
      | cons next rest ih =>
          show Value.newLine 1 ++ r.toJson.indentedChars 1 ++
            ',' :: Value.indentedItems 0 ((next :: rest).map Record.toJson) = _
          rw [record_indented, ih]
          rfl

variable {layout : Layout}

/-- A record is told by its text, whatever comes after it. -/
theorem record_append_inj {r r' : Record} {rest rest' : List Char}
    (h : layout.record r ++ rest = layout.record r' ++ rest') : r = r' ∧ rest = rest' := by
  have hhead {first : List Char} (hfirst : ∃ c ∈ first.head?, ¬ IsPart c) (more : List Char) :
      ∃ c ∈ (first ++ more).head?, ¬ IsPart c := by
    obtain ⟨c, hc, hother⟩ := hfirst
    exact ⟨c, by rw [List.head?_append, hc]; rfl, hother⟩
  simp only [record, List.append_assoc] at h
  obtain ⟨hid, h⟩ := Number.integer_append_inj (hhead layout.endsFirst _) (hhead layout.endsFirst _)
    (List.append_cancel_left h)
  obtain ⟨hexpression, h⟩ := Json.Quoted.write_append_inj (List.append_cancel_left h)
  obtain ⟨hresult, h⟩ := Json.Quoted.write_append_inj (List.append_cancel_left h)
  obtain ⟨hname, h⟩ := Json.Quoted.write_append_inj (List.append_cancel_left h)
  obtain ⟨hcreated, h⟩ := Number.integer_append_inj (hhead layout.endsLast _)
    (hhead layout.endsLast _) (List.append_cancel_left h)
  have hmode : r.mode = r'.mode := by
    have hfound := congrArg Mode.ofName? hname
    rw [Mode.ofName?_name, Mode.ofName?_name] at hfound
    exact Option.some.inj hfound
  refine ⟨?_, List.append_cancel_left h⟩
  obtain ⟨id, expression, result, mode, created⟩ := r
  obtain ⟨id', expression', result', mode', created'⟩ := r'
  simp_all

/-- So is a list of records. -/
theorem records_injective : Function.Injective layout.records := by
  have hnil (rest : List Char) : ∀ r, layout.record r ++ rest ≠ [']'] := by
    intro r h
    obtain ⟨c, hc, hother⟩ := layout.starts
    have hhead := congrArg List.head? h
    rw [record, List.append_assoc, List.head?_append, hc] at hhead
    exact hother (Option.some.inj hhead)
  have hclose (rest : List Char) : layout.close ≠ ',' :: rest := by
    intro h
    obtain ⟨c, hc, hother⟩ := layout.closes
    rw [h] at hc
    exact hother (Option.some.inj hc).symm
  have hcons (r : Record) (rest : List Record) :
      ∃ after, layout.records (r :: rest) = layout.record r ++ after := by
    cases rest with
    | nil => exact ⟨_, rfl⟩
    | cons next rest => exact ⟨_, rfl⟩
  intro rs rs' h
  induction rs generalizing rs' with
  | nil =>
      cases rs' with
      | nil => rfl
      | cons r rest =>
          obtain ⟨after, hafter⟩ := hcons r rest
          exact absurd (hafter.symm.trans h.symm) (hnil after r)
  | cons r rest ih =>
      cases rs' with
      | nil =>
          obtain ⟨after, hafter⟩ := hcons r rest
          exact absurd (hafter.symm.trans h) (hnil after r)
      | cons r' rest' =>
          cases rest with
          | nil =>
              cases rest' with
              | nil => rw [(record_append_inj h).1]
              | cons next' rest' => exact absurd (record_append_inj h).2 (hclose _)
          | cons next rest =>
              cases rest' with
              | nil => exact absurd (record_append_inj h).2.symm (hclose _)
              | cons next' rest' =>
                  obtain ⟨rfl, hrest⟩ := record_append_inj h
                  rw [ih (List.cons.inj hrest).2]

/-- What is in the text of a record is shown, unless it deletes. -/
theorem mem_record {c : Char} {r : Record} (h : c ∈ layout.record r) :
    Terminal.prints .ground c = true ∨
      c = '\x7f' ∧ ('\x7f' ∈ r.expression.toList ∨ '\x7f' ∈ r.result.toList) := by
  have hmode : '\x7f' ∉ r.mode.name.toList := by
    cases r.mode <;> decide
  have hpiece := List.all_eq_true.mp layout.prints c
  have hnumber (n : Int) (h : c ∈ (Number.integer n).write) : Terminal.prints .ground c = true :=
    Text.prints_of_isPart (Decimal.areParts_signedNumeral n c h)
  simp only [List.mem_append] at hpiece
  simp only [record, List.mem_append] at h
  rcases h with h | h | h | h | h | h | h | h | h | h | h
  · exact Or.inl (hpiece (by simp [h]))
  · exact Or.inl (hnumber _ h)
  · exact Or.inl (hpiece (by simp [h]))
  · exact (Json.Quoted.prints_of_mem_write h).imp_right fun h => ⟨h.1, Or.inl h.2⟩
  · exact Or.inl (hpiece (by simp [h]))
  · exact (Json.Quoted.prints_of_mem_write h).imp_right fun h => ⟨h.1, Or.inr h.2⟩
  · exact Or.inl (hpiece (by simp [h]))
  · exact (Json.Quoted.prints_of_mem_write h).imp_right fun h => absurd h.2 hmode
  · exact Or.inl (hpiece (by simp [h]))
  · exact Or.inl (hnumber _ h)
  · exact Or.inl (hpiece (by simp [h]))

theorem delete_mem_record {r : Record}
    (h : '\x7f' ∈ r.expression.toList ∨ '\x7f' ∈ r.result.toList) : '\x7f' ∈ layout.record r := by
  simp only [record, List.mem_append]
  rcases h with h | h
  · simp [Json.Quoted.delete_mem_write_iff.mpr h]
  · simp [Json.Quoted.delete_mem_write_iff.mpr h]

/-- What is in the text of a list is in that of one of its records, or shown. -/
theorem mem_records {c : Char} {rs : List Record} (h : c ∈ layout.records rs) :
    Terminal.prints .ground c = true ∨ ∃ r ∈ rs, c ∈ layout.record r := by
  induction rs with
  | nil =>
      obtain rfl := List.mem_singleton.mp h
      exact Or.inl rfl
  | cons r rest ih =>
      cases rest with
      | nil =>
          rcases List.mem_append.mp h with h | h
          · exact Or.inr ⟨r, List.mem_cons_self, h⟩
          · exact Or.inl (List.all_eq_true.mp layout.prints c (List.mem_append_right _ h))
      | cons next rest =>
          rcases List.mem_append.mp h with h | h
          · exact Or.inr ⟨r, List.mem_cons_self, h⟩
          · rcases List.mem_cons.mp h with rfl | h
            · exact Or.inl rfl
            · refine (ih h).imp_right ?_
              rintro ⟨found, hfound, hmem⟩
              exact ⟨found, List.mem_cons_of_mem _ hfound, hmem⟩

theorem mem_records_of_mem {c : Char} {r : Record} {rs : List Record} (hr : r ∈ rs)
    (h : c ∈ layout.record r) : c ∈ layout.records rs := by
  induction rs with
  | nil => exact absurd hr List.not_mem_nil
  | cons first rest ih =>
      cases rest with
      | nil =>
          obtain rfl := List.mem_singleton.mp hr
          exact List.mem_append_left _ h
      | cons next rest =>
          rcases List.mem_cons.mp hr with rfl | hr
          · exact List.mem_append_left _ h
          · exact List.mem_append_right _ (List.mem_cons_of_mem _ (ih hr))

end Layout

/-! ## Lists of records -/

/-- **The text of a list of records** tells the list. -/
theorem Record.listToJson_compact_injective {records records' : List Record}
    (h : (listToJson records).compact = (listToJson records').compact) : records = records' := by
  have hchars := String.ofList_injective h
  rw [Layout.records_compact, Layout.records_compact] at hchars
  exact Layout.records_injective (List.cons.inj hchars).2

/-- So does its text on several lines. -/
theorem Record.listToJson_indented_injective {records records' : List Record}
    (h : (listToJson records).indented = (listToJson records').indented) : records = records' := by
  have hchars := String.ofList_injective h
  rw [Layout.records_indented, Layout.records_indented] at hchars
  exact Layout.records_injective (List.cons.inj hchars).2

/-- Nothing in the texts of the record deletes what is printed. -/
def Record.IsPrintable (r : Record) : Prop :=
  '\x7f' ∉ r.expression.toList ∧ '\x7f' ∉ r.result.toList

/-- **Where a list of records is printed**, its text is shown as it is if, and only if, its records are
printable. -/
theorem Record.plain_listToJson_indented_iff {records : List Record} :
    plain (listToJson records).indented = (listToJson records).indented ↔
      ∀ r ∈ records, r.IsPrintable := by
  have hchars : (listToJson records).indented.toList = '[' :: Layout.indented.records records := by
    rw [Value.indented, String.toList_ofList, Layout.records_indented]
  rw [Text.plain_eq_self_iff, hchars]
  · constructor
    · intro h r hr
      rw [IsPrintable, ← not_or]
      intro hdelete
      exact h (List.mem_cons_of_mem _ (Layout.mem_records_of_mem hr (Layout.delete_mem_record hdelete)))
    · intro h hdelete
      rcases List.mem_cons.mp hdelete with hdelete | hdelete
      · exact absurd hdelete (by decide)
      · rcases Layout.mem_records hdelete with hprints | ⟨r, hr, hmem⟩
        · exact absurd hprints (by decide)
        · rcases Layout.mem_record hmem with hprints | ⟨-, hdelete⟩
          · exact absurd hprints (by decide)
          · exact not_or.mpr (h r hr) hdelete
  · intro c hc
    rw [hchars] at hc
    rcases List.mem_cons.mp hc with rfl | hc
    · exact Or.inl rfl
    · rcases Layout.mem_records hc with hprints | ⟨r, -, hmem⟩
      · exact Or.inl hprints
      · exact (Layout.mem_record hmem).imp_right And.left

end History

end Abacus
