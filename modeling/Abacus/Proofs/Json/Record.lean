import Abacus.Proofs.Json.Decoder

/-!
# Records — what the members of an object are read as

An object that is sent may name a member twice and be in any order.  Sorting it leaves one member of
each name, the last one (`lookup_sortedMembers`).  What a record keeps in a field is what the member
of that name is read as (`get_of_record`), and an object whose members have different names is read
as a record as soon as each of them can be read for its field (`exists_record`).
-/

namespace Abacus.Json

/-! ## Looking for a member -/

namespace Value

/-- The member of that name; of several ones the last. -/
def member? (name : String) (members : List (String × Value)) : Option Value :=
  members.reverse.lookup name

theorem lookup_cons_eq_ite (name other : String) (value : Value) (rest : List (String × Value)) :
    List.lookup name ((other, value) :: rest) =
      if name = other then some value else rest.lookup name := by
  rw [List.lookup_cons]
  by_cases hname : name = other
  · rw [if_pos hname, beq_iff_eq.mpr hname]
  · rw [if_neg hname, beq_false_of_ne hname]

theorem lookup_of_mem {name : String} {value : Value} {members : List (String × Value)}
    (hnames : (members.map Prod.fst).Nodup) (h : (name, value) ∈ members) :
    members.lookup name = some value := by
  induction members with
  | nil => exact absurd h List.not_mem_nil
  | cons member rest ih =>
      obtain ⟨other, kept⟩ := member
      obtain ⟨hother, hrest⟩ := List.nodup_cons.mp hnames
      rw [lookup_cons_eq_ite]
      rcases List.mem_cons.mp h with hsame | hmember
      · obtain ⟨rfl, rfl⟩ := Prod.mk.inj hsame
        exact if_pos rfl
      · rw [if_neg, ih hrest hmember]
        rintro rfl
        exact hother (List.mem_map.mpr ⟨_, hmember, rfl⟩)

theorem lookup_insertMember (name other : String) (value : Value) (done : List (String × Value)) :
    (insertMember name value done).lookup other =
      if other = name then some value else done.lookup other := by
  induction done with
  | nil => rw [insertMember, lookup_cons_eq_ite]
  | cons member rest ih =>
      obtain ⟨next, kept⟩ := member
      by_cases hless : name < next
      · rw [insertMember, if_pos hless, lookup_cons_eq_ite]
      · rw [insertMember, if_neg hless]
        by_cases hnext : name = next
        · -- the member that is replaced has the same name
          subst hnext
          rw [if_pos rfl, lookup_cons_eq_ite, lookup_cons_eq_ite]
          split <;> rfl
        · rw [if_neg hnext, lookup_cons_eq_ite, lookup_cons_eq_ite, ih]
          by_cases hother : other = next
          · rw [if_pos hother, if_neg fun h => hnext (h.symm.trans hother), if_pos hother]
          · rw [if_neg hother, if_neg hother]

/-- **Sorting leaves the last member of each name**, sorted. -/
theorem lookup_sortedMembers (name : String) (members done : List (String × Value)) :
    (sortedMembers members done).lookup name =
      ((member? name members).map sorted).or (done.lookup name) := by
  induction members generalizing done with
  | nil =>
      rw [sortedMembers]
      rfl
  | cons member rest ih =>
      obtain ⟨next, value⟩ := member
      rw [sortedMembers, ih, lookup_insertMember, member?, member?, List.reverse_cons,
        List.lookup_append, lookup_cons_eq_ite, List.lookup_nil]
      cases rest.reverse.lookup name with
      | some kept => rfl
      | none => by_cases hname : name = next <;> simp [hname]

theorem depth_of_lookup {name : String} {value : Value} {members : List (String × Value)}
    (h : members.lookup name = some value) : value.depth ≤ membersDepth members := by
  obtain ⟨before, after, rfl, -⟩ := List.lookup_eq_some_iff.mp h
  exact membersDepth_le_iff.mp (Nat.le_refl _) (name, value) (by simp)

/-- The names increase. -/
def IsSorted (members : List (String × Value)) : Prop :=
  members.Pairwise fun first second => first.1 < second.1

theorem mem_insertMember {name : String} {value : Value} {done : List (String × Value)}
    {member : String × Value} (h : member ∈ insertMember name value done) :
    member = (name, value) ∨ member ∈ done := by
  induction done with
  | nil => exact Or.inl (List.mem_singleton.mp h)
  | cons next rest ih =>
      obtain ⟨other, kept⟩ := next
      rw [insertMember] at h
      split at h
      · exact List.mem_cons.mp h
      · split at h
        · rcases List.mem_cons.mp h with h | h
          · exact Or.inl h
          · exact Or.inr (List.mem_cons_of_mem _ h)
        · rcases List.mem_cons.mp h with rfl | h
          · exact Or.inr List.mem_cons_self
          · rcases ih h with h | h
            · exact Or.inl h
            · exact Or.inr (List.mem_cons_of_mem _ h)

theorem IsSorted.insertMember {done : List (String × Value)} (h : IsSorted done) (name : String)
    (value : Value) : IsSorted (insertMember name value done) := by
  induction done with
  | nil => exact List.pairwise_singleton _ _
  | cons next rest ih =>
      obtain ⟨other, kept⟩ := next
      obtain ⟨hhead, hrest⟩ := List.pairwise_cons.mp h
      rw [Value.insertMember]
      split
      · next hless =>
        refine List.pairwise_cons.mpr ⟨?_, h⟩
        intro member hmember
        rcases List.mem_cons.mp hmember with rfl | hmember
        · exact hless
        · exact String.lt_trans hless (hhead member hmember)
      · next hless =>
        split
        · next hname =>
          subst hname
          exact List.pairwise_cons.mpr ⟨hhead, hrest⟩
        · next hname =>
          have hgreater : other < name :=
            Std.lt_of_le_of_ne (String.not_lt.mp hless) (Ne.symm hname)
          refine List.pairwise_cons.mpr ⟨?_, ih hrest⟩
          intro member hmember
          rcases mem_insertMember hmember with rfl | hmember
          · exact hgreater
          · exact hhead member hmember

theorem IsSorted.sortedMembers {done : List (String × Value)} (h : IsSorted done)
    (members : List (String × Value)) : IsSorted (sortedMembers members done) := by
  induction members generalizing done with
  | nil =>
      rw [Value.sortedMembers]
      exact h
  | cons member rest ih =>
      rw [Value.sortedMembers]
      exact ih (h.insertMember _ _)

theorem IsSorted.nodup {members : List (String × Value)} (h : IsSorted members) :
    (members.map Prod.fst).Nodup :=
  List.pairwise_map.mpr (h.imp String.ne_of_lt)

/-- **What an object is sorted to**: members with different names, and under each name what was last
under it. -/
theorem sorted_object (members : List (String × Value)) :
    ∃ found, (object members).sorted = .object found ∧ (found.map Prod.fst).Nodup ∧
      ∀ name, found.lookup name = (member? name members).map sorted := by
  refine ⟨sortedMembers members [], by rw [sorted], ?_, ?_⟩
  · have hnone : IsSorted [] := .nil
    exact (hnone.sortedMembers members).nodup
  · intro name
    rw [lookup_sortedMembers, List.lookup_nil, Option.or_none]

/-! ## Depth -/

theorem membersDepth_insertMember (name : String) (value : Value) (done : List (String × Value)) :
    membersDepth (insertMember name value done) ≤ max value.depth (membersDepth done) := by
  refine membersDepth_le_iff.mpr ?_
  intro member h
  rcases mem_insertMember h with rfl | h
  · exact Nat.le_max_left _ _
  · exact Nat.le_trans (membersDepth_le_iff.mp (Nat.le_refl _) member h) (Nat.le_max_right _ _)

mutual

/-- A value that is sorted nests no deeper. -/
theorem depth_sorted_le (value : Value) : value.sorted.depth ≤ value.depth := by
  cases value with
  | array items =>
      rw [sorted, depth, depth]
      exact Nat.succ_le_succ (itemsDepth_sorted_le items)
  | object members =>
      rw [sorted, depth, depth]
      refine Nat.succ_le_succ (Nat.le_trans (membersDepth_sorted_le members []) ?_)
      exact Nat.max_le.mpr ⟨Nat.le_refl _, Nat.zero_le _⟩
  | _ =>
      rw [sorted]
      all_goals simp

theorem itemsDepth_sorted_le (items : List Value) :
    itemsDepth (sortedItems items) ≤ itemsDepth items := by
  cases items with
  | nil => exact Nat.le_refl _
  | cons item rest =>
      rw [sortedItems, itemsDepth, itemsDepth]
      have hitem := depth_sorted_le item
      have hrest := itemsDepth_sorted_le rest
      omega

theorem membersDepth_sorted_le (members done : List (String × Value)) :
    membersDepth (sortedMembers members done) ≤ max (membersDepth members) (membersDepth done) := by
  cases members with
  | nil =>
      rw [sortedMembers]
      exact Nat.le_max_right _ _
  | cons member rest =>
      obtain ⟨name, value⟩ := member
      have hvalue := depth_sorted_le value
      have hrest := membersDepth_sorted_le rest (insertMember name value.sorted done)
      have hinsert := membersDepth_insertMember name value.sorted done
      rw [sortedMembers, membersDepth]
      omega

end

end Value

mutual

/-- What is read as a whole nests no deeper than it may. -/
theorem Tree.depth_of_whole {nestings : Nat} {tree : Tree} {value : Value}
    (h : tree.whole nestings = .ok value) : value.depth ≤ nestings := by
  cases tree with
  | null =>
      obtain rfl := Except.ok.inj h
      exact Nat.zero_le _
  | bool b =>
      obtain rfl := Except.ok.inj h
      exact Nat.zero_le _
  | number n =>
      cases n with
      | none => exact nomatch h
      | some n =>
          obtain rfl := Except.ok.inj h
          exact Nat.zero_le _
  | text s =>
      cases s with
      | none => exact nomatch h
      | some s =>
          obtain rfl := Except.ok.inj h
          exact Nat.zero_le _
  | array items closed =>
      cases nestings with
      | zero => exact nomatch h
      | succ inner =>
          obtain ⟨values, hitems, h⟩ := bind_eq_ok_iff.mp h
          cases closed with
          | false => exact nomatch h
          | true =>
              obtain rfl := Except.ok.inj h
              exact Nat.succ_le_succ (itemsDepth_of_wholeItems hitems)
  | object members stray =>
      cases nestings with
      | zero => exact nomatch h
      | succ inner =>
          obtain ⟨values, hmembers, h⟩ := bind_eq_ok_iff.mp h
          cases stray with
          | some tree => exact nomatch h
          | none =>
              obtain rfl := Except.ok.inj h
              exact Nat.succ_le_succ (membersDepth_of_wholeMembers hmembers)
  | broken => exact nomatch h

theorem Tree.itemsDepth_of_wholeItems {nestings : Nat} {items : List Tree} {values : List Value}
    (h : wholeItems nestings items = .ok values) : Value.itemsDepth values ≤ nestings := by
  cases items with
  | nil =>
      obtain rfl := Except.ok.inj h
      exact Nat.zero_le _
  | cons item rest =>
      obtain ⟨value, hitem, h⟩ := bind_eq_ok_iff.mp h
      obtain ⟨values, hrest, h⟩ := bind_eq_ok_iff.mp h
      obtain rfl := Except.ok.inj h
      exact Nat.max_le.mpr ⟨depth_of_whole hitem, itemsDepth_of_wholeItems hrest⟩

theorem Tree.membersDepth_of_wholeMembers {nestings : Nat} {members : List (Option String × Tree)}
    {values : List (String × Value)} (h : wholeMembers nestings members = .ok values) :
    Value.membersDepth values ≤ nestings := by
  cases members with
  | nil =>
      obtain rfl := Except.ok.inj h
      exact Nat.zero_le _
  | cons member rest =>
      obtain ⟨name, item⟩ := member
      cases name with
      | none => exact nomatch h
      | some name =>
          obtain ⟨value, hitem, h⟩ := bind_eq_ok_iff.mp h
          obtain ⟨values, hrest, h⟩ := bind_eq_ok_iff.mp h
          obtain rfl := Except.ok.inj h
          exact Nat.max_le.mpr ⟨depth_of_whole hitem, membersDepth_of_wholeMembers hrest⟩

end

theorem Tree.depth_of_optional {nestings : Nat} {tree : Tree} {found : Option Value}
    (h : Decoder.optional Decoder.value nestings tree = .ok found) :
    ∀ value ∈ found, value.depth ≤ nestings := by
  rw [Decoder.optional.eq_def] at h
  split at h
  · obtain rfl := Except.ok.inj h
    exact fun value hvalue => nomatch hvalue
  · obtain ⟨value, hvalue, rfl⟩ := map_eq_ok_iff.mp h
    intro other hother
    obtain rfl := Option.some.inj hother
    exact depth_of_whole hvalue

mutual

/-- A value is well-formed to its end. -/
theorem Value.isIntact_toTree (value : Value) : value.toTree.isIntact = true := by
  cases value with
  | array items => exact Value.areIntact_toTrees items
  | object members => exact Value.membersAreIntact_toMembers members
  | _ => rfl

theorem Value.areIntact_toTrees (items : List Value) :
    Tree.areIntact (Value.toTrees items) = true := by
  cases items with
  | nil => rfl
  | cons item rest =>
      exact Bool.and_eq_true_iff.mpr ⟨item.isIntact_toTree, Value.areIntact_toTrees rest⟩

theorem Value.membersAreIntact_toMembers (members : List (String × Value)) :
    Tree.membersAreIntact (Value.toMembers members) = true := by
  cases members with
  | nil => rfl
  | cons member rest =>
      obtain ⟨name, value⟩ := member
      exact Bool.and_eq_true_iff.mpr
        ⟨value.isIntact_toTree, Value.membersAreIntact_toMembers rest⟩

end

/-! ## What a record keeps -/

namespace Decoder

variable {σ α : Type} {fields : List (Field σ)} {name : String} {get : σ → Option α}
  {decoder : Decoder α} {nestings : Nat}

@[simp] theorem Field.name_at {set : α → σ → σ} : (Field.at name get set decoder).name = name := rfl

@[simp] theorem Field.isFilled_at {set : α → σ → σ} {r : σ} :
    (Field.at name get set decoder).isFilled r = (get r).isSome := rfl

theorem Field.name_of_find? {field : Field σ}
    (h : fields.find? (fun field => field.name == name) = some field) : field.name = name := by
  have hfound := List.find?_some (p := fun field : Field σ => field.name == name) h
  exact beq_iff_eq.mp hfound

/-- Filling the field leaves that place of the record as it is. -/
def Field.Keeps (field : Field σ) (get : σ → Option α) : Prop :=
  ∀ ⦃nestings : Nat⦄ ⦃tree : Tree⦄ ⦃r r₁ : σ⦄,
    field.fill nestings tree r = .ok r₁ → get r₁ = get r

theorem Field.keeps_at {β : Type} {get' : σ → Option β} {set' : β → σ → σ} {decoder' : Decoder β}
    (hget : ∀ x r, get (set' x r) = get r) : (Field.at name get' set' decoder').Keeps get := by
  intro nestings tree r r₁ h
  obtain ⟨x, -, rfl⟩ := Field.fill_at.mp h
  exact hget x r

/-- The record has a field of that name, in a place of its own. -/
structure HasField (fields : List (Field σ)) (name : String) (get : σ → Option α)
    (decoder : Decoder α) : Prop where
  own : ∃ set : α → σ → σ, (∀ x r, get (set x r) = some x) ∧
    fields.find? (fun field => field.name == name) = some (.at name get set decoder)
  keeps : ∀ field ∈ fields, field.name ≠ name → field.Keeps get

namespace HasField

variable (hfield : HasField fields name get decoder)
include hfield

/-- A member of another name leaves the field as it is. -/
theorem get_takeMember {r r₁ : σ} {member : Option String × Tree} (hother : member.1 ≠ some name)
    (h : takeMember fields nestings r member = .ok r₁) : get r₁ = get r := by
  obtain ⟨other, hname, ⟨-, -, rfl⟩ | ⟨field, hfind, -, hfill⟩⟩ := takeMember_eq_ok_iff.mp h
  · rfl
  · refine hfield.keeps field (List.mem_of_find?_eq_some hfind) ?_ hfill
    intro hsame
    exact hother (hname.trans (congrArg some ((Field.name_of_find? hfind).symm.trans hsame)))

/-- A member of that name fills the field, which was empty. -/
theorem takeMember_own {r r₁ : σ} {tree : Tree}
    (h : takeMember fields nestings r (some name, tree) = .ok r₁) :
    get r = none ∧ ∃ x, decoder nestings tree = .ok x ∧ get r₁ = some x := by
  obtain ⟨set, hset, hown⟩ := hfield.own
  obtain ⟨other, hname, hcases⟩ := takeMember_eq_ok_iff.mp h
  obtain rfl := Option.some.inj hname
  rcases hcases with ⟨hfind, -⟩ | ⟨field, hfind, hempty, hfill⟩
  · exact nomatch hown.symm.trans hfind
  · obtain rfl := Option.some.inj (hown.symm.trans hfind)
    obtain ⟨x, hx, rfl⟩ := Field.fill_at.mp hfill
    have hnone := Option.not_isSome_iff_eq_none.mp (Bool.eq_false_iff.mp hempty)
    exact ⟨hnone, x, hx, hset x r⟩

/-- Once the field is filled, no member of that name can follow. -/
theorem get_foldlM_of_some {members : List (Option String × Tree)} {r found : σ} {x : α}
    (hfull : get r = some x) (h : members.foldlM (takeMember fields nestings) r = .ok found) :
    get found = some x := by
  induction members generalizing r with
  | nil =>
      obtain rfl := Except.ok.inj h
      exact hfull
  | cons member rest ih =>
      rw [List.foldlM_cons] at h
      obtain ⟨r₁, hstep, hrest⟩ := bind_eq_ok_iff.mp h
      refine ih ?_ hrest
      by_cases hname : member.1 = some name
      · have hmember : member = (some name, member.2) := Prod.ext hname rfl
        rw [hmember] at hstep
        exact nomatch hfull.symm.trans (hfield.takeMember_own hstep).1
      · exact (hfield.get_takeMember hname hstep).trans hfull

/-- What an empty field is filled with: what the member of that name is read as. -/
theorem get_foldlM {members : List (Option String × Tree)} {r found : σ} (hempty : get r = none)
    (h : members.foldlM (takeMember fields nestings) r = .ok found) :
    (members.lookup (some name)).mapM (decoder nestings) = .ok (get found) := by
  induction members generalizing r with
  | nil =>
      obtain rfl := Except.ok.inj h
      rw [hempty]
      rfl
  | cons member rest ih =>
      obtain ⟨other, tree⟩ := member
      rw [List.foldlM_cons] at h
      obtain ⟨r₁, hstep, hrest⟩ := bind_eq_ok_iff.mp h
      rw [List.lookup_cons]
      by_cases hname : other = some name
      · subst hname
        obtain ⟨-, x, hx, hget⟩ := hfield.takeMember_own hstep
        rw [beq_self_eq_true, hfield.get_foldlM_of_some hget hrest]
        exact congrArg (Except.map some) hx
      · rw [beq_false_of_ne (Ne.symm hname)]
        exact ih ((hfield.get_takeMember hname hstep).trans hempty) hrest

end HasField

theorem lookup_toMembers (name : String) (members : List (String × Value)) :
    (Value.toMembers members).lookup (some name) = (members.lookup name).map Value.toTree := by
  induction members with
  | nil => rfl
  | cons member rest ih =>
      obtain ⟨other, value⟩ := member
      rw [Value.toMembers, List.lookup_cons, List.lookup_cons, ih]
      -- a name is looked for under the same name, as a text that could be read
      have hsame : (some name == some other) = (name == other) := rfl
      rw [hsame]
      cases name == other <;> rfl

/-- **What a record keeps in a field** is what the member of that name is read as. -/
theorem get_of_record {empty found : σ} {members : List (String × Value)} (name : String)
    (get : σ → Option α)
    (h : record fields empty (nestings + 1) (Value.object members).toTree = .ok found)
    (hfield : HasField fields name get decoder) (hempty : get empty = none) :
    (members.lookup name).mapM (fun value => decoder nestings value.toTree) = .ok (get found) := by
  obtain ⟨r, hfold, hfound⟩ := bind_eq_ok_iff.mp h
  obtain rfl := Except.ok.inj hfound
  have hget := hfield.get_foldlM hempty hfold
  rw [lookup_toMembers] at hget
  cases hlookup : members.lookup name with
  | none => rwa [hlookup] at hget
  | some value => rwa [hlookup] at hget

theorem exists_get_of_record {empty found : σ} {members : List (String × Value)} (name : String)
    (get : σ → Option α)
    (h : record fields empty (nestings + 1) (Value.object members).toTree = .ok found)
    (hfield : HasField fields name get decoder) (hempty : get empty = none)
    (hthere : (members.lookup name).isSome) : ∃ x, get found = some x := by
  have hget := get_of_record name get h hfield hempty
  obtain ⟨value, hvalue⟩ := Option.isSome_iff_exists.mp hthere
  rw [hvalue] at hget
  obtain ⟨x, -, hx⟩ := map_eq_ok_iff.mp hget
  exact ⟨x, hx⟩

theorem join_get_of_record {get : σ → Option (Option Value)} {empty found : σ}
    {members : List (String × Value)} (name : String)
    (h : record fields empty (nestings + 1) (Value.object members).toTree = .ok found)
    (hfield : HasField fields name get (optional value)) (hempty : get empty = none) :
    (get found).join = (members.lookup name).bind Value.present? := by
  have hget := get_of_record name get h hfield hempty
  cases hlookup : members.lookup name with
  | none =>
      rw [hlookup] at hget
      rw [← Except.ok.inj hget]
      rfl
  | some value =>
      rw [hlookup] at hget
      obtain ⟨kept, hkept, hsome⟩ := map_eq_ok_iff.mp hget
      rw [hsome, Value.eq_present?_of_optional hkept]
      rfl

/-- The value can be read for the field, whatever the record holds. -/
def Field.Reads (field : Field σ) (nestings : Nat) (value : Value) : Prop :=
  ∀ r, ∃ r₁, field.fill nestings value.toTree r = .ok r₁

theorem Field.reads_at {set : α → σ → σ} {value : Value} {x : α}
    (h : decoder nestings value.toTree = .ok x) :
    (Field.at name get set decoder).Reads nestings value := by
  intro r
  exact ⟨_, Field.fill_at.mpr ⟨x, h, rfl⟩⟩

/-- Members with different names are taken over one after the other, if each of them can be read for
its field. -/
theorem exists_foldlM (hfields : AreApart fields) {members : List (String × Value)}
    (hnames : (members.map Prod.fst).Nodup) {r : σ}
    (hempty : ∀ field ∈ fields, field.name ∈ members.map Prod.fst → field.isFilled r = false)
    (hreads : ∀ field ∈ fields, ∀ value, (field.name, value) ∈ members →
      field.Reads nestings value) :
    ∃ found, (Value.toMembers members).foldlM (takeMember fields nestings) r = .ok found := by
  induction members generalizing r with
  | nil => exact ⟨r, rfl⟩
  | cons member rest ih =>
      obtain ⟨name, value⟩ := member
      obtain ⟨hname, hrest⟩ := List.nodup_cons.mp hnames
      have hreads' : ∀ field ∈ fields, ∀ value, (field.name, value) ∈ rest →
          field.Reads nestings value :=
        fun field hfield value h => hreads field hfield value (List.mem_cons_of_mem _ h)
      rw [Value.toMembers, List.foldlM_cons]
      cases hfind : fields.find? (fun field => field.name == name) with
      | none =>
          have hstep : takeMember fields nestings r (some name, value.toTree) = .ok r :=
            takeMember_eq_ok_iff.mpr ⟨name, rfl, Or.inl ⟨hfind, value.isIntact_toTree, rfl⟩⟩
          obtain ⟨found, hfound⟩ := ih hrest
            (fun field hfield h => hempty field hfield (List.mem_cons_of_mem _ h)) hreads'
          exact ⟨found, bind_eq_ok_iff.mpr ⟨r, hstep, hfound⟩⟩
      | some field =>
          have hmem := List.mem_of_find?_eq_some hfind
          obtain rfl := Field.name_of_find? hfind
          obtain ⟨r₁, hfill⟩ := hreads field hmem value List.mem_cons_self r
          have hstep := takeMember_of_find? hfind (hempty field hmem List.mem_cons_self) hfill
          -- the fields that are still to be filled are others, and stay empty
          have hempty' : ∀ other ∈ fields, other.name ∈ rest.map Prod.fst →
              other.isFilled r₁ = false := by
            intro other hother h
            have hne : field ≠ other := by
              rintro rfl
              exact hname h
            have hleaves := (hfields.apart_of_mem hmem hother hne).1
            exact (hleaves.isFilled hfill).trans
              (hempty other hother (List.mem_cons_of_mem _ h))
          obtain ⟨found, hfound⟩ := ih hrest hempty' hreads'
          exact ⟨found, bind_eq_ok_iff.mpr ⟨r₁, hstep, hfound⟩⟩

/-- **An object is read as a record** if its members have different names and each of them can be
read for its field; what fills no field may be anything. -/
theorem exists_record (hfields : AreApart fields) {members : List (String × Value)}
    (hnames : (members.map Prod.fst).Nodup) {empty : σ}
    (hempty : ∀ field ∈ fields, field.isFilled empty = false)
    (hreads : ∀ field ∈ fields, ∀ value, members.lookup field.name = some value →
      field.Reads nestings value) :
    ∃ found, record fields empty (nestings + 1) (Value.object members).toTree = .ok found := by
  obtain ⟨found, hfound⟩ := exists_foldlM hfields hnames
    (fun field hfield _ => hempty field hfield)
    (fun field hfield value h => hreads field hfield value (Value.lookup_of_mem hnames h))
  exact ⟨found, bind_eq_ok_iff.mpr ⟨found, hfound, rfl⟩⟩

/-! ## What every field keeps to -/

section Invariant

variable {P : σ → Prop}
  (hfill : ∀ field ∈ fields, ∀ {tree : Tree} {r r₁ : σ}, P r →
    field.fill nestings tree r = .ok r₁ → P r₁)
include hfill

theorem foldlM_induction {members : List (Option String × Tree)} {r found : σ} (hr : P r)
    (h : members.foldlM (takeMember fields nestings) r = .ok found) : P found := by
  induction members generalizing r with
  | nil =>
      obtain rfl := Except.ok.inj h
      exact hr
  | cons member rest ih =>
      rw [List.foldlM_cons] at h
      obtain ⟨r₁, hstep, hrest⟩ := bind_eq_ok_iff.mp h
      refine ih ?_ hrest
      obtain ⟨name, -, ⟨-, -, rfl⟩ | ⟨field, hfind, -, hfield⟩⟩ := takeMember_eq_ok_iff.mp hstep
      · exact hr
      · exact hfill field (List.mem_of_find?_eq_some hfind) hr hfield

theorem takeItems_induction {closed : Bool} {items : List Tree} {r found : σ} (hr : P r)
    (h : takeItems nestings closed fields items r = .ok found) : P found := by
  induction fields generalizing items r with
  | nil =>
      cases items with
      | nil =>
          cases closed with
          | true =>
              obtain rfl := Except.ok.inj h
              exact hr
          | false => exact nomatch h
      | cons item rest => exact nomatch h
  | cons field rest ih =>
      cases items with
      | nil => exact nomatch h
      | cons item items =>
          obtain ⟨r₁, hfield, hrest⟩ := bind_eq_ok_iff.mp h
          exact ih (fun other hother => hfill other (List.mem_cons_of_mem _ hother))
            (hfill field List.mem_cons_self hr hfield) hrest

/-- **What each field keeps to holds of the record**, whether it comes as an object or as an
array. -/
theorem record_induction {tree : Tree} {empty found : σ} (hempty : P empty)
    (h : record fields empty (nestings + 1) tree = .ok found) : P found := by
  cases tree with
  | object members stray =>
      obtain ⟨r, hfold, hfound⟩ := bind_eq_ok_iff.mp h
      cases stray with
      | some tree => exact nomatch hfound
      | none =>
          obtain rfl := Except.ok.inj hfound
          exact foldlM_induction hfill hempty hfold
  | array items closed => exact takeItems_induction hfill hempty h
  | null => exact nomatch h
  | bool b => exact nomatch h
  | number n => exact nomatch h
  | text s => exact nomatch h
  | broken => exact nomatch h

end Invariant

end Decoder

end Abacus.Json
