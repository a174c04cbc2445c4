import Abacus.Proofs.Rpc.Fault

/-!
# Schemas — what is published and what is read

The list of tools says of each what its arguments look like.  What an object has to be to satisfy
such a schema is said here in terms of the JSON that is sent (`Satisfies`), without the decoders.

Arguments that satisfy the schema of their tool can be read, with one exception
(`hasResult_iff_of_satisfies`): the schema of the history takes any number for the limit, and only a
whole number of sixty-four bits is read as one.
-/

namespace Abacus.Rpc

open Json (Value decodeText decodeValue nestingLimit)
open Json.Decoder (Field.name_at Field.keeps_at Field.reads_at Field.apart_at areApart_cons
  areApart_nil exists_record get_of_record exists_get_of_record)
open Json.Value (member?)

/-! ## Satisfying a schema -/

/-- The name of the type of a value; no schema here tells whole numbers from others. -/
def typeName : Value → String
  | .null => "null"
  | .bool _ => "boolean"
  | .number _ => "number"
  | .text _ => "string"
  | .array _ => "array"
  | .object _ => "object"

/-- The type of the value is the one that is said, or one of them. -/
def IsOfType (value : Value) : Value → Prop
  | .text name => name = typeName value
  | .array names => .text (typeName value) ∈ names
  | _ => False

/-- The value is one of those that are said. -/
def IsAmong (value : Value) : Value → Prop
  | .array choices => value ∈ choices
  | _ => False

/-- The value has every member that is said, if it is an object. -/
def HasMembers : (value said : Value) → Prop
  | .object members, .array names => ∀ name, .text name ∈ names → (member? name members).isSome
  | _, _ => True

mutual

/-- The value satisfies the schema.  Keywords other than the four are about nothing that is
checked. -/
def Satisfies : (schema value : Value) → Prop
  | .object keywords, value => Meets keywords value
  | _, _ => True

/-- The value is what each keyword says. -/
def Meets : (keywords : List (String × Value)) → (value : Value) → Prop
  | [], _ => True
  | (keyword, said) :: rest, value =>
      (keyword = "type" → IsOfType value said) ∧ (keyword = "enum" → IsAmong value said) ∧
        (keyword = "required" → HasMembers value said) ∧
          (keyword = "properties" → MembersSatisfy said value) ∧ Meets rest value

/-- The members of the value satisfy the schemas that are said for them. -/
def MembersSatisfy : (said value : Value) → Prop
  | .object properties, .object members => Satisfy properties members
  | _, _ => True

/-- The members satisfy the schemas under their names. -/
def Satisfy : (properties members : List (String × Value)) → Prop
  | [], _ => True
  | (name, schema) :: rest, members =>
      (∀ value, member? name members = some value → Satisfies schema value) ∧ Satisfy rest members

end

/-- The value is of one of the kinds of the property, and one of its choices if there are any. -/
def Property.Admits (property : Property) (value : Value) : Prop :=
  (∃ kind ∈ property.kinds, kind.name = typeName value) ∧
    (property.choices = [] ∨ ∃ choice ∈ property.choices, value = .text choice)

theorem isOfType_kindsToJson_iff {property : Property} {value : Value} :
    IsOfType value property.kindsToJson ↔ ∃ kind ∈ property.kinds, kind.name = typeName value := by
  rw [Property.kindsToJson]
  split
  · next kind hkinds => simp [IsOfType, hkinds]
  · simp [IsOfType, textsToJson]

theorem isAmong_textsToJson_iff {value : Value} {texts : List String} :
    IsAmong value (textsToJson texts) ↔ ∃ text ∈ texts, value = .text text := by
  simp [IsAmong, textsToJson, eq_comm]

theorem satisfies_property_iff {property : Property} {value : Value} :
    Satisfies property.toJson value ↔ property.Admits value := by
  rw [Property.toJson, Property.Admits]
  by_cases hchoices : property.choices = []
  · simp [hchoices, Satisfies, Meets, isOfType_kindsToJson_iff]
  · simp [hchoices, Satisfies, Meets, isOfType_kindsToJson_iff, isAmong_textsToJson_iff]

theorem satisfy_map_iff {properties : List Property} {members : List (String × Value)} :
    Satisfy (properties.map fun property => (property.name, property.toJson)) members ↔
      ∀ property ∈ properties, ∀ value, member? property.name members = some value →
        property.Admits value := by
  induction properties with
  | nil => simp [Satisfy]
  | cons property rest ih =>
      rw [List.map_cons, Satisfy, ih, List.forall_mem_cons]
      simp only [satisfies_property_iff]

/-- Each property that is there is one that is admitted, and what is required is there. -/
def Schema.Fits (schema : Schema) (member : String → Option Value) : Prop :=
  (∀ property ∈ schema.properties, ∀ value, member property.name = some value →
    property.Admits value) ∧ ∀ name ∈ schema.required, (member name).isSome

/-- **What a published schema says** of the members of an object. -/
theorem satisfies_schema_iff {schema : Schema} {members : List (String × Value)} :
    Satisfies schema.toJson (.object members) ↔ schema.Fits fun name => member? name members := by
  rw [Schema.toJson, Schema.Fits, ← satisfy_map_iff]
  simp [Satisfies, Meets, IsOfType, typeName, MembersSatisfy, HasMembers, textsToJson]

theorem exists_number_of_typeName {value : Value} (h : Kind.number.name = typeName value) :
    ∃ n, value = .number n := by
  cases value with
  | number n => exact ⟨n, rfl⟩
  | _ => simp [Kind.name, typeName] at h

theorem exists_text_of_typeName {value : Value} (h : Kind.text.name = typeName value) :
    ∃ s, value = .text s := by
  cases value with
  | text s => exact ⟨s, rfl⟩
  | _ => simp [Kind.name, typeName] at h

namespace Schema.Fits

variable {schema : Schema} {member : String → Option Value} (h : schema.Fits member)
  {property : Property} (hproperty : property ∈ schema.properties)
include h hproperty

theorem exists_number_or_text {value : Value} (hvalue : member property.name = some value) :
    (∃ n, value = .number n) ∨ ∃ s, value = .text s := by
  obtain ⟨⟨kind, -, hname⟩, -⟩ := h.1 property hproperty value hvalue
  cases kind with
  | number => exact Or.inl (exists_number_of_typeName hname)
  | text => exact Or.inr (exists_text_of_typeName hname)

theorem exists_number (hkinds : property.kinds = [.number]) {value : Value}
    (hvalue : member property.name = some value) : ∃ n, value = .number n := by
  obtain ⟨⟨kind, hkind, hname⟩, -⟩ := h.1 property hproperty value hvalue
  rw [hkinds, List.mem_singleton] at hkind
  exact exists_number_of_typeName (hkind ▸ hname)

theorem exists_text (hkinds : property.kinds = [.text]) {value : Value}
    (hvalue : member property.name = some value) : ∃ s, value = .text s := by
  obtain ⟨⟨kind, hkind, hname⟩, -⟩ := h.1 property hproperty value hvalue
  rw [hkinds, List.mem_singleton] at hkind
  exact exists_text_of_typeName (hkind ▸ hname)

/-- Sorting changes nothing that a schema admits. -/
theorem map_sorted : (member property.name).map Value.sorted = member property.name := by
  cases hvalue : member property.name with
  | none => rfl
  | some value =>
      rcases h.exists_number_or_text hproperty hvalue with ⟨n, rfl⟩ | ⟨s, rfl⟩
      · rfl
      · rfl

end Schema.Fits

theorem Schema.Fits.sorted {schema : Schema} {member : String → Option Value}
    (h : schema.Fits member) : schema.Fits fun name => (member name).map Value.sorted := by
  constructor
  · intro property hproperty value hvalue
    exact h.1 property hproperty value ((h.map_sorted hproperty).symm.trans hvalue)
  · intro name hname
    rw [Option.isSome_map]
    exact h.2 name hname

/-! ## What is listed and what is called -/

/-- The tool of that name is listed with that schema. -/
def IsListed (name : String) (schema : Value) : Prop :=
  ∃ request tools members, request.method = "tools/list" ∧
    Plan.of request = .reply (.ok (.object [("tools", .array tools)])) ∧
      .object members ∈ tools ∧ member? "name" members = some (.text name) ∧
        member? "inputSchema" members = some schema

/-- The text is a call of the tool of that name with these arguments; a call that carries none is
one with an empty object. -/
def IsCallWith (text name : String) (arguments : List (String × Value)) : Prop :=
  ∃ request params, decodeText Request.decoder text = .ok request ∧
    request.method = "tools/call" ∧ request.params = some (.object params) ∧
      member? "name" params = some (.text name) ∧
        ((member? "arguments" params).bind Value.present?).getD (.object []) = .object arguments

/-- The tools that are listed are those that there are, each with its schema. -/
theorem exists_tool_of_isListed {name : String} {schema : Value} (h : IsListed name schema) :
    ∃ tool : Tool, name = tool.name ∧ schema = tool.schema.toJson := by
  obtain ⟨request, tools, members, hmethod, hplan, hmembers, hname, hschema⟩ := h
  have hlist : Plan.of request = .reply (.ok toolList) := by
    rw [Plan.of, hmethod]
    rfl
  rw [hlist, toolList] at hplan
  obtain rfl : Tool.all.map Tool.toJson = tools := by simpa using hplan
  obtain ⟨tool, -, htool⟩ := List.mem_map.mp hmembers
  obtain rfl : _ = members := Value.object.inj htool
  refine ⟨tool, ?_, ?_⟩
  · have hown : some (Value.text tool.name) = some (.text name) := hname
    simpa using hown.symm
  · have hown : some tool.schema.toJson = some schema := hschema
    exact (Option.some.inj hown).symm

theorem isListed (tool : Tool) : IsListed tool.name tool.schema.toJson := by
  refine ⟨⟨none, "tools/list", none⟩, Tool.all.map Tool.toJson, _, rfl, rfl,
    List.mem_map.mpr ⟨tool, ?_, rfl⟩, rfl, rfl⟩
  cases tool <;> decide

/-- JSON of a call of the tool is one. -/
theorem isCallWith_of_isText {text version name : String} {id : Option Value}
    {arguments : List (String × Value)} (hid : ∀ v ∈ id, v.depth < nestingLimit)
    (hdepth : (Value.object (CallParams.members name arguments)).depth < nestingLimit)
    (htext : Json.IsText text (.object (Request.members version "tools/call" id
      (.object (CallParams.members name arguments))))) : IsCallWith text name arguments :=
  ⟨_, _, (htext.decodeText _).trans (Request.decode_members hid hdepth), rfl, rfl, rfl, rfl⟩

/-! ## Reading the arguments -/

/-- A whole number of sixty-four bits. -/
def IsWord (value : Value) : Prop :=
  ∃ n : Nat, n < Json.Numeral.wordLimit ∧ value = .integer n

/-- A whole number is read as itself if it has at most sixty-four bits and no sign. -/
theorem natural_integer_eq_ok_iff {nestings n : Nat} {i : Int} :
    Json.Decoder.natural nestings (Value.number (.integer i)).toTree = .ok n ↔
      i = n ∧ n < Json.Numeral.wordLimit := by
  have hlimit : Json.Numeral.wordLimit = 0x10000000000000000 := rfl
  have hread : Json.Decoder.natural nestings (Value.number (.integer i)).toTree =
      Except.map Int.toNat (if (0 ≤ i && i ≤ 0xFFFFFFFFFFFFFFFF) = true then .ok i
        else .error .mismatch) := rfl
  rw [hread]
  by_cases h : (0 ≤ i && i ≤ 0xFFFFFFFFFFFFFFFF) = true
  · rw [if_pos h]
    simp only [Bool.and_eq_true, decide_eq_true_eq] at h
    constructor
    · intro hn
      obtain rfl := Except.ok.inj hn
      omega
    · rintro ⟨rfl, -⟩
      rfl
  · rw [if_neg h]
    simp only [Bool.and_eq_true, decide_eq_true_eq] at h
    constructor
    · intro hn
      cases hn
    · rintro ⟨rfl, hn⟩
      omega

theorem exists_natural_iff {nestings : Nat} {number : Json.Number} :
    (∃ n, Json.Decoder.natural nestings (Value.number number).toTree = .ok n) ↔
      IsWord (.number number) := by
  cases number with
  | integer i =>
      simp only [natural_integer_eq_ok_iff]
      constructor
      · rintro ⟨n, rfl, hn⟩
        exact ⟨n, hn, rfl⟩
      · rintro ⟨n, hn, hsame⟩
        obtain rfl : i = n := by simpa [Value.integer] using hsame
        exact ⟨n, rfl, hn⟩
  | double x =>
      constructor
      · rintro ⟨n, hn⟩
        cases hn
      · rintro ⟨n, -, hsame⟩
        simp [Value.integer] at hsame

namespace ToolCall

variable {members : List (String × Value)} (hnames : (members.map Prod.fst).Nodup)
include hnames

theorem exists_calculate (h : Tool.calculate.schema.Fits fun name => members.lookup name) :
    ∃ call, decodeValue calculateDecoder (.object members) = .ok call := by
  refine bind_of_exists (R := fun answer => ∃ call, answer = .ok call) (exists_record
    (areApart_cons ?_ ?_ (areApart_cons ?_ ?_ areApart_nil)) hnames ?_ ?reads) ?call
  case reads =>
    simp only [List.forall_mem_cons, Field.name_at]
    refine ⟨?_, ?_, fun _ h => nomatch h⟩
    · intro value hvalue
      obtain ⟨s, rfl⟩ := h.exists_text List.mem_cons_self rfl hvalue
      exact Field.reads_at (x := s) rfl
    · intro value hvalue
      obtain ⟨s, rfl⟩ := h.exists_text (List.mem_cons_of_mem _ List.mem_cons_self) rfl hvalue
      exact Field.reads_at (x := some s) rfl
  case call =>
    intro fields hfields
    obtain ⟨expression, hexpression⟩ := exists_get_of_record "expression"
      ExpressionArguments.expression hfields ⟨⟨_, fun _ _ => rfl, rfl⟩, by simp [Field.keeps_at]⟩
      rfl (h.2 _ List.mem_cons_self)
    rw [hexpression]
    exact ⟨_, rfl⟩
  all_goals simp [Field.apart_at]

theorem exists_scientific (h : Tool.scientific.schema.Fits fun name => members.lookup name) :
    ∃ call, decodeValue scientificDecoder (.object members) = .ok call := by
  refine bind_of_exists (R := fun answer => ∃ call, answer = .ok call) (exists_record
    (areApart_cons ?_ ?_ (areApart_cons ?_ ?_ (areApart_cons ?_ ?_ areApart_nil))) hnames ?_
    ?reads) ?call
  case reads =>
    simp only [List.forall_mem_cons, Field.name_at]
    refine ⟨?_, ?_, ?_, fun _ h => nomatch h⟩
    · intro value hvalue
      rcases h.exists_number_or_text List.mem_cons_self hvalue with ⟨n, rfl⟩ | ⟨s, rfl⟩
      · exact Field.reads_at (x := .number n.toDouble) rfl
      · exact Field.reads_at (x := .text s) rfl
    · intro value hvalue
      obtain ⟨s, rfl⟩ := h.exists_text (List.mem_cons_of_mem _ List.mem_cons_self) rfl hvalue
      exact Field.reads_at (x := s) rfl
    · intro value hvalue
      rcases h.exists_number_or_text
        (List.mem_cons_of_mem _ (List.mem_cons_of_mem _ List.mem_cons_self)) hvalue with
        ⟨n, rfl⟩ | ⟨s, rfl⟩
      · exact Field.reads_at (x := some (.number n.toDouble)) rfl
      · exact Field.reads_at (x := some (.text s)) rfl
  case call =>
    intro fields hfields
    obtain ⟨value, hvalue⟩ := exists_get_of_record "value" ScientificArguments.value hfields
      ⟨⟨_, fun _ _ => rfl, rfl⟩, by simp [Field.keeps_at]⟩ rfl (h.2 _ List.mem_cons_self)
    obtain ⟨operation, hoperation⟩ := exists_get_of_record "operation"
      ScientificArguments.operation hfields ⟨⟨_, fun _ _ => rfl, rfl⟩, by simp [Field.keeps_at]⟩
      rfl (h.2 _ (List.mem_cons_of_mem _ List.mem_cons_self))
    rw [hvalue, hoperation]
    exact ⟨_, rfl⟩
  all_goals simp [Field.apart_at]

/-- A look at the history is understood exactly when its limit, if it has one, is a whole number. -/
theorem exists_history_iff (h : Tool.history.schema.Fits fun name => members.lookup name) :
    (∃ call, decodeValue historyDecoder (.object members) = .ok call) ↔
      ∀ limit, members.lookup "limit" = some limit → IsWord limit := by
  have hnumber : ∀ limit, members.lookup "limit" = some limit → ∃ n, limit = .number n := by
    intro limit hlimit
    exact h.exists_number List.mem_cons_self rfl hlimit
  constructor
  · rintro ⟨call, hcall⟩ limit hlimit
    obtain ⟨fields, hfields, -⟩ := bind_eq_ok_iff.mp hcall
    obtain ⟨n, rfl⟩ := hnumber limit hlimit
    have hkept := get_of_record "limit" HistoryArguments.limit hfields
      ⟨⟨_, fun _ _ => rfl, rfl⟩, by simp⟩ rfl
    rw [hlimit] at hkept
    obtain ⟨x, hx, -⟩ := map_eq_ok_iff.mp hkept
    have hread := (Value.optional_of_ne_null (by simp) _ _).symm.trans hx
    obtain ⟨k, hk, -⟩ := map_eq_ok_iff.mp hread
    exact exists_natural_iff.mp ⟨k, hk⟩
  · intro hword
    refine bind_of_exists (R := fun answer => ∃ call, answer = .ok call) (exists_record
      (areApart_cons ?_ ?_ areApart_nil) hnames ?_ ?reads) ?call
    case reads =>
      simp only [List.forall_mem_cons, Field.name_at]
      refine ⟨?_, fun _ h => nomatch h⟩
      intro limit hlimit
      obtain ⟨n, rfl⟩ := hnumber limit hlimit
      obtain ⟨k, hk⟩ := exists_natural_iff.mpr (hword _ hlimit)
      exact Field.reads_at ((Value.optional_of_ne_null (by simp) _ _).trans
        (map_eq_ok_iff.mpr ⟨k, hk, rfl⟩))
    case call => exact fun fields hfields => ⟨_, rfl⟩
    all_goals simp

/-- **Arguments that satisfy the schema of a tool are those of the tool**, except for a limit of the
history that is no whole number. -/
theorem exists_decoder_iff {tool : Tool} (h : tool.schema.Fits fun name => members.lookup name) :
    (∃ call, decodeValue (decoder tool) (.object members) = .ok call) ↔
      (tool = .history → ∀ limit, members.lookup "limit" = some limit → IsWord limit) := by
  cases tool with
  | calculate => exact iff_of_true (exists_calculate hnames h) (fun htool => nomatch htool)
  | scientific => exact iff_of_true (exists_scientific hnames h) (fun htool => nomatch htool)
  | history => exact (exists_history_iff hnames h).trans ⟨fun h _ => h, fun h => h rfl⟩
  | cleanup => exact iff_of_true ⟨.cleanup, rfl⟩ (fun htool => nomatch htool)

end ToolCall

/-! ## What is published and what is read -/

theorem Tool.name_inj {tool other : Tool} : tool.name = other.name ↔ tool = other := by
  constructor
  · intro h
    have hfound := ofName?_name tool
    rw [h, ofName?_name] at hfound
    exact (Option.some.inj hfound).symm
  · rintro rfl
    rfl

/-- Parameters that carry arguments of a tool are misused only if the tool cannot read them. -/
theorem not_misuses_iff {params : Option Value} {tool : Tool} {carried : Option Value}
    (h : CallParams.read params = .ok ⟨tool.name, carried⟩) :
    ¬ Misuses params ↔
      ∃ call, decodeValue (ToolCall.decoder tool) (carried.getD (.object [])) = .ok call := by
  have hcall : CallParams.read params >>= CallParams.toolCall =
      (decodeValue (ToolCall.decoder tool) (carried.getD (.object []))).mapError .arguments := by
    rw [h]
    show CallParams.toolCall ⟨tool.name, carried⟩ = _
    rw [CallParams.toolCall, Tool.ofName?_name]
  rw [misuses_iff, hcall]
  cases decodeValue (ToolCall.decoder tool) (carried.getD (.object [])) with
  | error fault =>
      refine iff_of_false (fun h => h ⟨_, rfl⟩) ?_
      rintro ⟨call, hcall⟩
      cases hcall
  | ok call =>
      refine iff_of_true ?_ ⟨call, rfl⟩
      rintro ⟨fault, hfault⟩
      cases hfault

/-- **Arguments that satisfy the schema that is listed for a tool can be read**, unless they carry a
limit for the history that is no whole number of sixty-four bits: a call of the tool with them is
answered with a result. -/
theorem hasResult_iff_of_satisfies {text name : String} {schema : Value}
    {arguments : List (String × Value)} (hlisted : IsListed name schema)
    (hsatisfies : Satisfies schema (.object arguments)) (hcall : IsCallWith text name arguments)
    (now : Int) (service : Service) :
    IsAnswer (handle now text service).response.toJson (identifierOf text) none ↔
      (name = Tool.history.name → ∀ limit, member? "limit" arguments = some limit →
        IsWord limit) := by
  obtain ⟨tool, rfl, rfl⟩ := exists_tool_of_isListed hlisted
  obtain ⟨request, params, hread, hmethod, hparams, hname, harguments⟩ := hcall
  have hfits := satisfies_schema_iff.mp hsatisfies
  have hdepth : (Value.object params).depth ≤ nestingLimit :=
    Request.depth_of_decodeText hread _ hparams
  obtain ⟨carried, found, hcarried, hfound, hnames, hlookup⟩ :=
    CallParams.read_object hdepth hname harguments
  have hsorted : tool.schema.Fits fun name => found.lookup name := by
    simp only [hlookup]
    exact hfits.sorted
  rw [isAnswer_handle_iff, (finding_handle now text service).eq_none_iff hread hmethod, hparams,
    not_misuses_iff hcarried, hfound, ToolCall.exists_decoder_iff hnames hsorted, Tool.name_inj]
  refine imp_congr_right fun htool => ?_
  subst htool
  rw [hlookup, hfits.map_sorted List.mem_cons_self]

/-- Any number is a limit for the schema. -/
theorem satisfies_history {arguments : List (String × Value)} {number : Json.Number}
    (h : member? "limit" arguments = some (.number number)) :
    Satisfies Tool.history.schema.toJson (.object arguments) := by
  refine satisfies_schema_iff.mpr ⟨?_, fun _ hname => absurd hname List.not_mem_nil⟩
  intro property hproperty value hvalue
  obtain rfl := List.mem_singleton.mp hproperty
  obtain rfl := Option.some.inj (h.symm.trans hvalue)
  exact ⟨⟨.number, List.mem_cons_self, rfl⟩, Or.inl rfl⟩

/-- A look at the history with a limit, and with a member that the schema does not know. -/
theorem hasResult_iff_of_satisfies_five :
    let arguments : List (String × Value) := [("limit", .integer 5), ("order", .text "asc")]
    let text := (Value.object (Request.members "2.0" "tools/call" none
      (.object (CallParams.members "calculation_history" arguments)))).compact
    let service := Service.start .empty Service.defaultCapacity
    IsListed "calculation_history" Tool.history.schema.toJson ∧
      Satisfies Tool.history.schema.toJson (.object arguments) ∧
        IsCallWith text "calculation_history" arguments ∧
          IsAnswer (handle 0 text service).response.toJson (identifierOf text) none := by
  intro arguments text service
  have hlisted := isListed .history
  have hsatisfies : Satisfies Tool.history.schema.toJson (.object arguments) :=
    satisfies_history rfl
  have hfive : (Json.Number.integer 5).IsReadBack := by
    refine ⟨⟨false, ['5'], none, none⟩, ?_, by decide⟩
    have hwhole : Json.AreWhole ['5'] :=
      ⟨⟨List.cons_ne_nil _ _, List.all_eq_true.mp rfl⟩, by decide⟩
    exact .mk .absent hwhole .absent .absent
  have hcall : IsCallWith text "calculation_history" arguments :=
    isCallWith_of_isText (by simp) (by decide) (Value.isText_compact
      ⟨trivial, trivial, ⟨trivial, ⟨hfive, trivial, trivial⟩, trivial⟩, trivial⟩)
  refine ⟨hlisted, hsatisfies, hcall, ?_⟩
  refine (hasResult_iff_of_satisfies hlisted hsatisfies hcall 0 service).mpr fun _ limit h => ?_
  obtain rfl : Value.integer 5 = limit := Option.some.inj h
  exact ⟨5, by decide, rfl⟩

/-- A limit that is no whole number is a number, and so it is one for the schema. -/
theorem not_hasResult_fraction :
    let limit : Json.Number := .double (.finite false ⟨0x4004000000000000, by decide⟩)
    let arguments : List (String × Value) := [("limit", .number limit)]
    let text := (Value.object (Request.members "2.0" "tools/call" none
      (.object (CallParams.members "calculation_history" arguments)))).compact
    let service := Service.start .empty Service.defaultCapacity
    limit.write = "2.5".toList ∧ IsListed "calculation_history" Tool.history.schema.toJson ∧
      Satisfies Tool.history.schema.toJson (.object arguments) ∧
        IsCallWith text "calculation_history" arguments ∧
          IsAnswer (handle 0 text service).response.toJson (identifierOf text) (some (-32602)) := by
  intro limit arguments text service
  have hwritten : limit.write = "2.5".toList := by decide +kernel
  have hsatisfies : Satisfies Tool.history.schema.toJson (.object arguments) :=
    satisfies_history rfl
  have hlimit : limit.IsReadBack := by
    refine ⟨⟨false, ['2'], some ['5'], none⟩, ?_, by decide +kernel⟩
    have hwhole : Json.AreWhole ['2'] :=
      ⟨⟨List.cons_ne_nil _ _, List.all_eq_true.mp rfl⟩, by decide⟩
    have hdigits : Json.AreDigits ['5'] := ⟨List.cons_ne_nil _ _, List.all_eq_true.mp rfl⟩
    rw [hwritten]
    exact .mk .absent hwhole (.digits hdigits) .absent
  have hcall : IsCallWith text "calculation_history" arguments :=
    isCallWith_of_isText (by simp) (by decide) (Value.isText_compact
      ⟨trivial, trivial, ⟨trivial, ⟨hlimit, trivial⟩, trivial⟩, trivial⟩)
  exact ⟨hwritten, isListed .history, hsatisfies, hcall, isAnswer_handle_iff.mpr (by decide +kernel)⟩

end Abacus.Rpc
