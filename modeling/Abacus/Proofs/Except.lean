import Mathlib.Data.List.Forall2

/-!
# Answers that may be faults — when a chain of them gives a value

A chain of steps gives a value exactly when each step does.
-/

namespace Abacus

variable {ε ε' α β : Type}

/-- Two steps give a value when the first gives one and the second gives one after it. -/
theorem bind_eq_ok_iff {first : Except ε α} {second : α → Except ε β} {b : β} :
    first >>= second = .ok b ↔ ∃ a, first = .ok a ∧ second a = .ok b := by
  cases first with
  | error fault =>
      constructor
      · intro h
        exact nomatch h
      · rintro ⟨a, ha, -⟩
        exact nomatch ha
  | ok a =>
      constructor
      · intro h
        exact ⟨a, rfl, h⟩
      · rintro ⟨a', ha, h⟩
        obtain rfl := Except.ok.inj ha
        exact h

/-- Two steps end in a fault when the first does, or the second does after it. -/
theorem bind_eq_error_iff {first : Except ε α} {second : α → Except ε β} {fault : ε} :
    first >>= second = .error fault ↔
      first = .error fault ∨ ∃ a, first = .ok a ∧ second a = .error fault := by
  cases first with
  | error cause =>
      constructor
      · intro h
        obtain rfl := Except.error.inj h
        exact Or.inl rfl
      · rintro (h | ⟨a, ha, -⟩)
        · obtain rfl := Except.error.inj h
          rfl
        · exact nomatch ha
  | ok a =>
      constructor
      · intro h
        exact Or.inr ⟨a, rfl, h⟩
      · rintro (h | ⟨a', ha, h⟩)
        · exact nomatch h
        · obtain rfl := Except.ok.inj ha
          exact h

/-- After a first step that gives a value it is for the second to say what comes of the two. -/
theorem bind_of_exists {R : Except ε β → Prop} {first : Except ε α} {second : α → Except ε β}
    (hfirst : ∃ a, first = .ok a) (hsecond : ∀ a, first = .ok a → R (second a)) :
    R (first >>= second) := by
  obtain ⟨a, rfl⟩ := hfirst
  exact hsecond a rfl

/-- After a fault nothing more is done. -/
@[simp] theorem throw_bind (fault : ε) (second : α → Except ε β) :
    (throw fault : Except ε α) >>= second = .error fault := rfl

/-- Both are faults, or both are values, and they are related as such. -/
inductive AreAlike {α' : Type} (faults : ε → ε' → Prop) (values : α → α' → Prop) :
    Except ε α → Except ε' α' → Prop where
  | ok {a : α} {a' : α'} : values a a' → AreAlike faults values (.ok a) (.ok a')
  | error {fault : ε} {fault' : ε'} : faults fault fault' →
      AreAlike faults values (.error fault) (.error fault')

/-- Two steps are like two other steps when the first are, and the second after them. -/
theorem AreAlike.bind {α' β' : Type} {faults : ε → ε' → Prop} {values : α → α' → Prop}
    {results : β → β' → Prop} {first : Except ε α} {first' : Except ε' α'}
    {second : α → Except ε β} {second' : α' → Except ε' β'}
    (hfirst : AreAlike faults values first first')
    (hsecond : ∀ {a a'}, values a a' → AreAlike faults results (second a) (second' a')) :
    AreAlike faults results (first >>= second) (first' >>= second') := by
  cases hfirst with
  | ok hvalues => exact hsecond hvalues
  | error hfaults => exact .error hfaults

/-- Rewording the faults leaves the values. -/
theorem mapError_eq_ok_iff {answer : Except ε α} {reword : ε → ε'} {a : α} :
    answer.mapError reword = .ok a ↔ answer = .ok a := by
  cases answer with
  | error fault =>
      constructor
      · intro h
        exact nomatch h
      · intro h
        exact nomatch h
  | ok found =>
      constructor
      · intro h
        obtain rfl := Except.ok.inj h
        rfl
      · intro h
        obtain rfl := Except.ok.inj h
        rfl

/-- A reworded fault comes from a fault. -/
theorem mapError_eq_error_iff {answer : Except ε α} {reword : ε → ε'} {fault : ε'} :
    answer.mapError reword = .error fault ↔ ∃ cause, answer = .error cause ∧ fault = reword cause := by
  cases answer with
  | error cause =>
      constructor
      · intro h
        exact ⟨cause, rfl, (Except.error.inj h).symm⟩
      · rintro ⟨other, h, rfl⟩
        obtain rfl := Except.error.inj h
        rfl
  | ok found =>
      constructor
      · intro h
        exact nomatch h
      · rintro ⟨cause, h, -⟩
        exact nomatch h

/-- A reworded value comes from a value. -/
theorem map_eq_ok_iff {answer : Except ε α} {reword : α → β} {b : β} :
    answer.map reword = .ok b ↔ ∃ a, answer = .ok a ∧ b = reword a := by
  cases answer with
  | error cause =>
      constructor
      · intro h
        exact nomatch h
      · rintro ⟨a, h, -⟩
        exact nomatch h
  | ok found =>
      constructor
      · intro h
        exact ⟨found, rfl, (Except.ok.inj h).symm⟩
      · rintro ⟨a, h, rfl⟩
        obtain rfl := Except.ok.inj h
        rfl

/-- Rewording the values leaves the faults. -/
theorem map_eq_error_iff {answer : Except ε α} {reword : α → β} {fault : ε} :
    answer.map reword = .error fault ↔ answer = .error fault := by
  cases answer with
  | error cause =>
      constructor
      · intro h
        obtain rfl := Except.error.inj h
        rfl
      · intro h
        obtain rfl := Except.error.inj h
        rfl
  | ok found =>
      constructor
      · intro h
        exact nomatch h
      · intro h
        exact nomatch h

/-- All items give a value when each does. -/
theorem mapM_eq_ok_iff {step : α → Except ε β} {items : List α} {found : List β} :
    items.mapM step = .ok found ↔ List.Forall₂ (fun a b => step a = .ok b) items found := by
  induction items generalizing found with
  | nil =>
      rw [List.mapM_nil, List.forall₂_nil_left_iff]
      constructor
      · intro h
        exact (Except.ok.inj h).symm
      · rintro rfl
        rfl
  | cons item rest ih =>
      rw [List.mapM_cons, bind_eq_ok_iff]
      constructor
      · rintro ⟨b, hb, h⟩
        obtain ⟨bs, hbs, h⟩ := bind_eq_ok_iff.mp h
        obtain rfl := Except.ok.inj h
        exact .cons hb (ih.mp hbs)
      · intro h
        obtain ⟨b, bs, hb, hbs, rfl⟩ := List.forall₂_cons_left_iff.mp h
        exact ⟨b, hb, bind_eq_ok_iff.mpr ⟨bs, ih.mpr hbs, rfl⟩⟩

/-- The values of all items are those that some item gives. -/
theorem mem_iff_of_mapM_eq_ok {step : α → Except ε β} {items : List α} {found : List β}
    (h : items.mapM step = .ok found) {b : β} : b ∈ found ↔ ∃ a ∈ items, step a = .ok b := by
  have hfound := mapM_eq_ok_iff.mp h
  clear h
  induction hfound with
  | nil => simp
  | @cons item first items found hitem _ ih =>
      rw [List.mem_cons, List.exists_mem_cons_iff, hitem, Except.ok.injEq, eq_comm]
      exact or_congr_right ih

/-- The fault of all items is that of the first one that gives no value. -/
theorem mapM_eq_error_iff {step : α → Except ε β} {items : List α} {fault : ε} :
    items.mapM step = .error fault ↔ ∃ before item after, items = before ++ item :: after ∧
      (∀ a ∈ before, ∃ b, step a = .ok b) ∧ step item = .error fault := by
  induction items with
  | nil =>
      rw [List.mapM_nil]
      constructor
      · intro h
        exact nomatch h
      · rintro ⟨before, item, after, hitems, -⟩
        exact absurd hitems (List.append_ne_nil_of_right_ne_nil _ (List.cons_ne_nil item after)).symm
  | cons first rest ih =>
      rw [List.mapM_cons, bind_eq_error_iff]
      constructor
      · rintro (hfirst | ⟨b, hb, h⟩)
        · exact ⟨[], first, rest, rfl, List.forall_mem_nil _, hfirst⟩
        · rcases bind_eq_error_iff.mp h with hrest | ⟨bs, -, h⟩
          · obtain ⟨before, item, after, rfl, hbefore, hitem⟩ := ih.mp hrest
            exact ⟨first :: before, item, after, rfl,
              List.forall_mem_cons.mpr ⟨⟨b, hb⟩, hbefore⟩, hitem⟩
          · exact nomatch h
      · rintro ⟨before, item, after, hitems, hbefore, hitem⟩
        rcases List.cons_eq_append_iff.mp hitems with ⟨rfl, hcons⟩ | ⟨before, rfl, rfl⟩
        · obtain ⟨rfl, rfl⟩ := List.cons.inj hcons
          exact Or.inl hitem
        · obtain ⟨⟨b, hb⟩, hbefore⟩ := List.forall_mem_cons.mp hbefore
          refine Or.inr ⟨b, hb, bind_eq_error_iff.mpr (Or.inl ?_)⟩
          exact ih.mpr ⟨before, item, after, rfl, hbefore, hitem⟩

/-- A fault among the first items is the fault of all. -/
theorem mapM_append_of_error {step : α → Except ε β} {first : List α} {fault : ε}
    (h : first.mapM step = .error fault) (second : List α) :
    (first ++ second).mapM step = .error fault := by
  rw [List.mapM_append, h]
  rfl

theorem exists_mapM_iff {step : α → Except ε β} {items : List α} :
    (∃ found, items.mapM step = .ok found) ↔ ∀ a ∈ items, ∃ b, step a = .ok b := by
  simp only [mapM_eq_ok_iff]
  induction items with
  | nil => simp
  | cons item rest ih =>
      rw [List.forall_mem_cons, ← ih]
      constructor
      · rintro ⟨found, h⟩
        obtain ⟨b, bs, hb, hbs, -⟩ := List.forall₂_cons_left_iff.mp h
        exact ⟨⟨b, hb⟩, ⟨bs, hbs⟩⟩
      · rintro ⟨⟨b, hb⟩, ⟨bs, hbs⟩⟩
        exact ⟨b :: bs, .cons hb hbs⟩

end Abacus
