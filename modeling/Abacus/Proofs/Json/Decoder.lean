import Mathlib.Data.List.Pairwise
import Abacus.Json.Decoder
import Abacus.Proofs.Except
import Abacus.Proofs.Json.Document

/-!
# Decoders — what is read of a whole value

A value that does not nest too deeply is read as it is (`whole_toTree`).  A record is read alike
whatever the order of the members: two members fill two fields, and no field looks at another
(`record_perm`).  Sorting an object puts the members, each sorted, into another order
(`exists_sorted_object`).
-/

namespace Abacus.Json

/-! ## Whole values -/

namespace Value

mutual

/-- How many arrays and objects are open at once, at most. -/
def depth : Value → Nat
  | .array items => itemsDepth items + 1
  | .object members => membersDepth members + 1
  | .null | .bool _ | .number _ | .text _ => 0

/-- The greatest depth of the items. -/
def itemsDepth : List Value → Nat
  | [] => 0
  | item :: rest => max item.depth (itemsDepth rest)

/-- The greatest depth of the members. -/
def membersDepth : List (String × Value) → Nat
  | [] => 0
  | (_, value) :: rest => max value.depth (membersDepth rest)

end

mutual

theorem whole_toTree_eq_ite (nestings : Nat) (value : Value) :
    value.toTree.whole nestings =
      if value.depth ≤ nestings then .ok value else .error .malformed := by
  cases value with
  | null => rfl
  | bool b => rfl
  | number n => rfl
  | text s => rfl
  | array items =>
      cases nestings with
      | zero => rfl
      | succ nestings =>
          show (Tree.wholeItems nestings (toTrees items) >>= _) = _
          rw [wholeItems_toTrees, depth]
          by_cases h : itemsDepth items ≤ nestings
          · rw [if_pos h, if_pos (Nat.succ_le_succ h)]
            rfl
          · rw [if_neg h, if_neg fun h' => h (Nat.le_of_succ_le_succ h')]
            rfl
  | object members =>
      cases nestings with
      | zero => rfl
      | succ nestings =>
          show (Tree.wholeMembers nestings (toMembers members) >>= _) = _
          rw [wholeMembers_toMembers, depth]
          by_cases h : membersDepth members ≤ nestings
          · rw [if_pos h, if_pos (Nat.succ_le_succ h)]
            rfl
          · rw [if_neg h, if_neg fun h' => h (Nat.le_of_succ_le_succ h')]
            rfl

theorem wholeItems_toTrees (nestings : Nat) (items : List Value) :
    Tree.wholeItems nestings (toTrees items) =
      if itemsDepth items ≤ nestings then .ok items else .error .malformed := by
  cases items with
  | nil => rfl
  | cons item rest =>
      show (item.toTree.whole nestings >>= _) = _
      rw [whole_toTree_eq_ite, itemsDepth]
      by_cases hitem : item.depth ≤ nestings
      · rw [if_pos hitem]
        show (Tree.wholeItems nestings (toTrees rest) >>= _) = _
        rw [wholeItems_toTrees]
        by_cases hrest : itemsDepth rest ≤ nestings
        · rw [if_pos hrest, if_pos (Nat.max_le.mpr ⟨hitem, hrest⟩)]
          rfl
        · rw [if_neg hrest, if_neg fun h => hrest (Nat.max_le.mp h).2]
          rfl
      · rw [if_neg hitem, if_neg fun h => hitem (Nat.max_le.mp h).1]
        rfl

theorem wholeMembers_toMembers (nestings : Nat) (members : List (String × Value)) :
    Tree.wholeMembers nestings (toMembers members) =
      if membersDepth members ≤ nestings then .ok members else .error .malformed := by
  cases members with
  | nil => rfl
  | cons member rest =>
      obtain ⟨name, value⟩ := member
      show (value.toTree.whole nestings >>= _) = _
      rw [whole_toTree_eq_ite, membersDepth]
      by_cases hvalue : value.depth ≤ nestings
      · rw [if_pos hvalue]
        show (Tree.wholeMembers nestings (toMembers rest) >>= _) = _
        rw [wholeMembers_toMembers]
        by_cases hrest : membersDepth rest ≤ nestings
        · rw [if_pos hrest, if_pos (Nat.max_le.mpr ⟨hvalue, hrest⟩)]
          rfl
        · rw [if_neg hrest, if_neg fun h => hrest (Nat.max_le.mp h).2]
          rfl
      · rw [if_neg hvalue, if_neg fun h => hvalue (Nat.max_le.mp h).1]
        rfl

end

/-- **A value that does not nest too deeply is read as it is.** -/
theorem whole_toTree {nestings : Nat} {value : Value} (h : value.depth ≤ nestings) :
    value.toTree.whole nestings = .ok value :=
  (whole_toTree_eq_ite nestings value).trans (if_pos h)

theorem eq_of_whole_toTree {nestings : Nat} {value found : Value}
    (h : value.toTree.whole nestings = .ok found) : found = value := by
  rw [whole_toTree_eq_ite] at h
  split at h
  · exact (Except.ok.inj h).symm
  · exact nomatch h

theorem toMembers_eq_map (members : List (String × Value)) :
    toMembers members = members.map fun member => (some member.1, member.2.toTree) := by
  induction members with
  | nil => rfl
  | cons member rest ih => rw [toMembers, ih, List.map_cons]

theorem membersDepth_le_iff {members : List (String × Value)} {limit : Nat} :
    membersDepth members ≤ limit ↔ ∀ member ∈ members, member.2.depth ≤ limit := by
  induction members with
  | nil => simp [membersDepth]
  | cons member rest ih => rw [membersDepth, Nat.max_le, ih, List.forall_mem_cons]

/-- An object of members without arrays and objects. -/
theorem depth_object {members : List (String × Value)}
    (h : ∀ member ∈ members, member.2.depth = 0) : (object members).depth = 1 := by
  have hflat : membersDepth members ≤ 0 :=
    membersDepth_le_iff.mpr fun member hmember => Nat.le_zero.mpr (h member hmember)
  rw [depth, Nat.le_zero.mp hflat]

/-- The value, unless it is a null. -/
def present? : Value → Option Value
  | .null => none
  | value => some value

/-- A value that may be left out is read as it is, and a null as nothing. -/
theorem optional_toTree {nestings : Nat} {value : Value} (h : value.depth ≤ nestings) :
    Decoder.optional Decoder.value nestings value.toTree = .ok value.present? := by
  have hwhole := whole_toTree h
  cases value with
  | null => rfl
  | _ => exact congrArg (Except.map some) hwhole

theorem optional_of_ne_null {α : Type} {value : Value} (h : value ≠ .null) (decoder : Decoder α)
    (nestings : Nat) :
    Decoder.optional decoder nestings value.toTree = (decoder nestings value.toTree).map some := by
  cases value with
  | null => exact absurd rfl h
  | _ => rfl

theorem eq_present?_of_optional {nestings : Nat} {value : Value} {found : Option Value}
    (h : Decoder.optional Decoder.value nestings value.toTree = .ok found) :
    found = value.present? := by
  by_cases hnull : value = .null
  · subst hnull
    exact (Except.ok.inj h).symm
  · rw [optional_of_ne_null hnull] at h
    obtain ⟨whole, hwhole, rfl⟩ := map_eq_ok_iff.mp h
    rw [eq_of_whole_toTree hwhole]
    cases value with
    | null => exact absurd rfl hnull
    | _ => rfl

end Value

/-- **A JSON text is decoded as its value is.** -/
theorem IsText.decodeText {α : Type} {text : String} {value : Value} (h : IsText text value)
    (decoder : Decoder α) : decodeText decoder text = decodeValue decoder value := by
  rw [Json.decodeText, h.ofText]
  show (decoder nestingLimit value.toTree >>= fun found => .ok found) = _
  rw [decodeValue]
  cases decoder nestingLimit value.toTree with
  | ok found => rfl
  | error fault => rfl

/-! ## Sorting -/

namespace Value

/-- A member with a new name is put among the others. -/
theorem insertMember_perm {name : String} {done : List (String × Value)}
    (h : name ∉ done.map Prod.fst) (value : Value) :
    (insertMember name value done).Perm ((name, value) :: done) := by
  induction done with
  | nil => exact .refl _
  | cons member rest ih =>
      obtain ⟨other, kept⟩ := member
      rw [List.map_cons, List.mem_cons, not_or] at h
      obtain ⟨hother, hrest⟩ := h
      by_cases hless : name < other
      · rw [insertMember, if_pos hless]
      · rw [insertMember, if_neg hless, if_neg hother]
        exact ((ih hrest).cons _).trans (.swap _ _ _)

/-- Members with different names are put among the others, each of them sorted. -/
theorem sortedMembers_perm {members done : List (String × Value)}
    (h : ((members ++ done).map Prod.fst).Nodup) :
    (sortedMembers members done).Perm
      (members.map (fun member => (member.1, member.2.sorted)) ++ done) := by
  induction members generalizing done with
  | nil =>
      rw [sortedMembers]
      exact .refl _
  | cons member rest ih =>
      obtain ⟨name, value⟩ := member
      have hname : name ∉ done.map Prod.fst := by
        simp only [List.cons_append, List.map_cons, List.nodup_cons, List.map_append,
          List.mem_append, not_or] at h
        exact h.1.2
      have hinsert := insertMember_perm hname value.sorted
      -- the names that are still to come and those that are done stay the same ones
      have hnames : ((rest ++ insertMember name value.sorted done).map Prod.fst).Nodup := by
        have hmiddle : (rest ++ (name, value.sorted) :: done).Perm
            ((name, value.sorted) :: (rest ++ done)) := List.perm_middle
        rw [(((hinsert.append_left rest).trans hmiddle).map Prod.fst).nodup_iff]
        exact h
      rw [sortedMembers]
      exact (ih hnames).trans ((hinsert.append_left _).trans List.perm_middle)

/-- **Sorting puts the members of an object, each of them sorted, into another order**, if no name
comes twice. -/
theorem exists_sorted_object {members : List (String × Value)}
    (h : (members.map Prod.fst).Nodup) :
    ∃ found, (object members).sorted = .object found ∧
      found.Perm (members.map fun member => (member.1, member.2.sorted)) := by
  refine ⟨sortedMembers members [], by rw [sorted], ?_⟩
  have hperm : (sortedMembers members []).Perm
      (members.map (fun member => (member.1, member.2.sorted)) ++ []) :=
    sortedMembers_perm (by rwa [List.append_nil])
  rwa [List.append_nil] at hperm

/-- A value without arrays and objects is sorted. -/
theorem sorted_eq_self {value : Value} (h : value.depth = 0) : value.sorted = value := by
  cases value with
  | null => rfl
  | bool b => rfl
  | number n => rfl
  | text s => rfl
  | array items => exact nomatch h
  | object members => exact nomatch h

end Value

/-! ## Records -/

namespace Decoder

variable {σ ε : Type}

/-- Steps that give the same in either order give the same in any order. -/
theorem foldlM_perm {α : Type} (step : σ → α → Except ε σ)
    (hswap : ∀ {r r₁ r₂ a b}, step r a = .ok r₁ → step r₁ b = .ok r₂ →
      ∃ r₁', step r b = .ok r₁' ∧ step r₁' a = .ok r₂)
    {first second : List α} (h : first.Perm second) {r found : σ}
    (hfirst : first.foldlM step r = .ok found) : second.foldlM step r = .ok found := by
  induction h generalizing r with
  | nil => exact hfirst
  | cons a _ ih =>
      rw [List.foldlM_cons] at hfirst ⊢
      obtain ⟨r₁, hstep, hrest⟩ := bind_eq_ok_iff.mp hfirst
      exact bind_eq_ok_iff.mpr ⟨r₁, hstep, ih hrest⟩
  | swap a b rest =>
      simp only [List.foldlM_cons] at hfirst ⊢
      obtain ⟨r₁, hb, hfirst⟩ := bind_eq_ok_iff.mp hfirst
      obtain ⟨r₂, ha, hrest⟩ := bind_eq_ok_iff.mp hfirst
      obtain ⟨r₁', ha', hb'⟩ := hswap hb ha
      exact bind_eq_ok_iff.mpr ⟨r₁', ha', bind_eq_ok_iff.mpr ⟨r₂, hb', hrest⟩⟩
  | trans _ _ ih ih' => exact ih' (ih hfirst)

/-- Filling the first field changes nothing about the second, and may as well be done after it. -/
structure Field.Leaves (f g : Field σ) : Prop where
  isFilled {nestings : Nat} {tree : Tree} {r r₁ : σ} :
    f.fill nestings tree r = .ok r₁ → g.isFilled r₁ = g.isFilled r
  swap {nestings nestings' : Nat} {tree tree' : Tree} {r r₁ r₂ : σ} :
    f.fill nestings tree r = .ok r₁ → g.fill nestings' tree' r₁ = .ok r₂ →
      ∃ r₁', g.fill nestings' tree' r = .ok r₁' ∧ f.fill nestings tree r₁' = .ok r₂

/-- The two fields are kept in different places. -/
def Field.Apart (f g : Field σ) : Prop :=
  f.Leaves g ∧ g.Leaves f

/-- The fields of a record are kept in places of their own: a field that has been filled is filled,
and the others are as they were. -/
structure AreApart (fields : List (Field σ)) : Prop where
  filled {f : Field σ} {nestings : Nat} {tree : Tree} {r r₁ : σ} :
    f ∈ fields → f.fill nestings tree r = .ok r₁ → f.isFilled r₁ = true
  apart : fields.Pairwise Field.Apart

theorem AreApart.apart_of_mem {fields : List (Field σ)} (h : AreApart fields) {f g : Field σ}
    (hf : f ∈ fields) (hg : g ∈ fields) (hne : f ≠ g) : f.Apart g := by
  have : Std.Symm (Field.Apart (σ := σ)) := ⟨fun _ _ h => ⟨h.2, h.1⟩⟩
  exact h.apart.forall hf hg hne

section At

variable {α β : Type} {name name' : String} {get : σ → Option α} {set : α → σ → σ}
  {decoder : Decoder α} {get' : σ → Option β} {set' : β → σ → σ} {decoder' : Decoder β}

/-- A field is filled by putting what is read into its place. -/
theorem Field.fill_at {nestings : Nat} {tree : Tree} {r r₁ : σ} :
    (Field.at name get set decoder).fill nestings tree r = .ok r₁ ↔
      ∃ x, decoder nestings tree = .ok x ∧ r₁ = set x r := by
  show (decoder nestings tree >>= fun x => .ok (set x r)) = .ok r₁ ↔ _
  rw [bind_eq_ok_iff]
  constructor
  · rintro ⟨x, hx, h⟩
    exact ⟨x, hx, (Except.ok.inj h).symm⟩
  · rintro ⟨x, hx, rfl⟩
    exact ⟨x, hx, rfl⟩

theorem Field.leaves_at (hget : ∀ x r, get' (set x r) = get' r)
    (hset : ∀ x y r, set' y (set x r) = set x (set' y r)) :
    (Field.at name get set decoder).Leaves (Field.at name' get' set' decoder') where
  isFilled h := by
    obtain ⟨x, -, rfl⟩ := Field.fill_at.mp h
    exact congrArg Option.isSome (hget x _)
  swap h h' := by
    obtain ⟨x, hx, rfl⟩ := Field.fill_at.mp h
    obtain ⟨y, hy, rfl⟩ := Field.fill_at.mp h'
    exact ⟨_, Field.fill_at.mpr ⟨y, hy, rfl⟩, Field.fill_at.mpr ⟨x, hx, hset x y _⟩⟩

/-- Two places of a record that do not overlap. -/
theorem Field.apart_at (hget' : ∀ x r, get' (set x r) = get' r)
    (hget : ∀ y r, get (set' y r) = get r)
    (hset : ∀ x y r, set' y (set x r) = set x (set' y r)) :
    (Field.at name get set decoder).Apart (Field.at name' get' set' decoder') :=
  ⟨Field.leaves_at hget' hset, Field.leaves_at hget fun y x r => (hset x y r).symm⟩

theorem areApart_nil : AreApart ([] : List (Field σ)) where
  filled h := absurd h List.not_mem_nil
  apart := .nil

/-- A field in a place of its own goes with fields that are apart. -/
theorem areApart_cons (hget : ∀ x r, get (set x r) = some x) {fields : List (Field σ)}
    (hfields : ∀ g ∈ fields, (Field.at name get set decoder).Apart g) (h : AreApart fields) :
    AreApart (Field.at name get set decoder :: fields) where
  filled hf hfill := by
    rcases List.mem_cons.mp hf with rfl | hf
    · obtain ⟨x, -, rfl⟩ := Field.fill_at.mp hfill
      exact congrArg Option.isSome (hget x _)
    · exact h.filled hf hfill
  apart := .cons hfields h.apart

end At

section Record

variable {fields : List (Field σ)} {nestings : Nat}

/-- What a member does to a record: nothing if it fills no field, and otherwise its field is filled
for the first time. -/
theorem takeMember_eq_ok_iff {r r₁ : σ} {member : Option String × Tree} :
    takeMember fields nestings r member = .ok r₁ ↔
      ∃ name, member.1 = some name ∧
        ((fields.find? (fun field => field.name == name) = none ∧ member.2.isIntact = true ∧
            r₁ = r) ∨
          ∃ field, fields.find? (fun field => field.name == name) = some field ∧
            field.isFilled r = false ∧ field.fill nestings member.2 r = .ok r₁) := by
  constructor
  · intro h
    rw [takeMember] at h
    split at h
    · exact nomatch h
    · next name hname =>
      refine ⟨name, hname, ?_⟩
      split at h
      · next hfind =>
        split at h
        · next hintact => exact Or.inl ⟨hfind, hintact, (Except.ok.inj h).symm⟩
        · exact nomatch h
      · next field hfind =>
        split at h
        · exact nomatch h
        · next hempty => exact Or.inr ⟨field, hfind, Bool.eq_false_iff.mpr hempty, h⟩
  · rintro ⟨name, hname, ⟨hfind, hintact, rfl⟩ | ⟨field, hfind, hempty, hfill⟩⟩
    · simp only [takeMember, hname, hfind, hintact, if_true]
    · simp only [takeMember, hname, hfind, hempty, hfill, Bool.false_eq_true, if_false]

/-- The member of a field that is still empty fills it. -/
theorem takeMember_of_find? {r r₁ : σ} {name : String} {tree : Tree} {field : Field σ}
    (hfind : fields.find? (fun field => field.name == name) = some field)
    (hempty : field.isFilled r = false) (hfill : field.fill nestings tree r = .ok r₁) :
    takeMember fields nestings r (some name, tree) = .ok r₁ :=
  takeMember_eq_ok_iff.mpr ⟨name, rfl, Or.inr ⟨field, hfind, hempty, hfill⟩⟩

/-- The first member of an object fills its field, if that is empty, and the others follow. -/
theorem foldlM_takeMember_cons {α : Type} {name : String} {get : σ → Option α} {set : α → σ → σ}
    {decoder : Decoder α} {tree : Tree} {x : α} {members : List (Option String × Tree)} {r found : σ}
    (hfind : fields.find? (fun field => field.name == name) = some (.at name get set decoder))
    (hempty : get r = none) (hread : decoder nestings tree = .ok x)
    (hrest : members.foldlM (takeMember fields nestings) (set x r) = .ok found) :
    ((some name, tree) :: members).foldlM (takeMember fields nestings) r = .ok found := by
  have hmember : takeMember fields nestings r (some name, tree) = .ok (set x r) :=
    takeMember_of_find? hfind (congrArg Option.isSome hempty) (Field.fill_at.mpr ⟨x, hread, rfl⟩)
  rw [List.foldlM_cons]
  exact bind_eq_ok_iff.mpr ⟨_, hmember, hrest⟩

/-- Two members may be taken over in either order. -/
theorem takeMember_swap (hfields : AreApart fields) {r r₁ r₂ : σ} {a b : Option String × Tree}
    (ha : takeMember fields nestings r a = .ok r₁)
    (hb : takeMember fields nestings r₁ b = .ok r₂) :
    ∃ r₁', takeMember fields nestings r b = .ok r₁' ∧
      takeMember fields nestings r₁' a = .ok r₂ := by
  obtain ⟨name, hname, ⟨hfind, hintact, rfl⟩ | ⟨f, hf, hempty, hfill⟩⟩ := takeMember_eq_ok_iff.mp ha
  · exact ⟨r₂, hb, takeMember_eq_ok_iff.mpr ⟨name, hname, Or.inl ⟨hfind, hintact, rfl⟩⟩⟩
  obtain ⟨name', hname', ⟨hfind, hintact, rfl⟩ | ⟨g, hg, hempty', hfill'⟩⟩ :=
    takeMember_eq_ok_iff.mp hb
  · exact ⟨r, takeMember_eq_ok_iff.mpr ⟨name', hname', Or.inl ⟨hfind, hintact, rfl⟩⟩, ha⟩
  have hmem := List.mem_of_find?_eq_some hf
  have hne : f ≠ g := by
    rintro rfl
    exact absurd ((hfields.filled hmem hfill).symm.trans hempty') (by decide)
  obtain ⟨hleaves, hleft⟩ := hfields.apart_of_mem hmem (List.mem_of_find?_eq_some hg) hne
  obtain ⟨r₁', hfirst, hsecond⟩ := hleaves.swap hfill hfill'
  refine ⟨r₁', takeMember_eq_ok_iff.mpr ⟨name', hname', Or.inr ⟨g, hg, ?_, hfirst⟩⟩,
    takeMember_eq_ok_iff.mpr ⟨name, hname, Or.inr ⟨f, hf, ?_, hsecond⟩⟩⟩
  · exact (hleaves.isFilled hfill).symm.trans hempty'
  · exact (hleft.isFilled hfirst).trans hempty

/-- **The order of the members of an object does not matter** to what is read of it as a record. -/
theorem record_perm (hfields : AreApart fields) {members members' : List (String × Value)}
    (h : members.Perm members') {empty found : σ}
    (hread : record fields empty nestings (Value.object members).toTree = .ok found) :
    record fields empty nestings (Value.object members').toTree = .ok found := by
  rw [Value.toTree, Value.toMembers_eq_map] at hread ⊢
  cases nestings with
  | zero => exact nomatch hread
  | succ nestings =>
      obtain ⟨r, hfold, hfound⟩ := bind_eq_ok_iff.mp hread
      have hsame := foldlM_perm (takeMember fields nestings) (takeMember_swap hfields) (h.map _)
        hfold
      exact bind_eq_ok_iff.mpr ⟨r, hsame, hfound⟩

end Record

end Decoder

end Abacus.Json
