import Abacus.Proofs.Json.Record
import Abacus.Rpc.Call

/-!
# Calls — what is read of a call of a tool

A text that is JSON of a call is read as that call, whatever the order of its members and of those
of its parameters and arguments.  The parameters are sorted before they are read, and that puts the
arguments into another order once more and leaves the last one of each name
(`CallParams.read_object`).
-/

namespace Abacus.Rpc

open Json (Value decodeText decodeValue nestingLimit)
open Json.Decoder (Field record_perm areApart_cons areApart_nil takeMember_of_find? exists_record
  get_of_record join_get_of_record record_induction)
open Json.Value (member?)

/-! ## The order of the members -/

/-- The members of a call may come in any order. -/
theorem Request.decoder_perm {members members' : List (String × Value)}
    (h : members.Perm members') {request : Request}
    (hread : decodeValue decoder (.object members) = .ok request) :
    decodeValue decoder (.object members') = .ok request := by
  obtain ⟨fields, hfields, hrequest⟩ := bind_eq_ok_iff.mp hread
  refine bind_eq_ok_iff.mpr ⟨fields, record_perm (areApart_cons ?_ ?_ (areApart_cons ?_ ?_
    (areApart_cons ?_ ?_ (areApart_cons ?_ ?_ areApart_nil)))) h hfields, hrequest⟩
  all_goals simp [Field.apart_at]

/-- The parameters of a call may come in any order. -/
theorem CallParams.decoder_perm {members members' : List (String × Value)}
    (h : members.Perm members') {params : CallParams}
    (hread : decodeValue decoder (.object members) = .ok params) :
    decodeValue decoder (.object members') = .ok params := by
  obtain ⟨fields, hfields, hparams⟩ := bind_eq_ok_iff.mp hread
  refine bind_eq_ok_iff.mpr ⟨fields, record_perm (areApart_cons ?_ ?_ (areApart_cons ?_ ?_
    areApart_nil)) h hfields, hparams⟩
  all_goals simp [Field.apart_at]

/-- The arguments of a calculation may come in any order. -/
theorem ToolCall.calculateDecoder_perm {members members' : List (String × Value)}
    (h : members.Perm members') {call : ToolCall}
    (hread : decodeValue calculateDecoder (.object members) = .ok call) :
    decodeValue calculateDecoder (.object members') = .ok call := by
  obtain ⟨fields, hfields, hcall⟩ := bind_eq_ok_iff.mp hread
  refine bind_eq_ok_iff.mpr ⟨fields, record_perm (areApart_cons ?_ ?_ (areApart_cons ?_ ?_
    areApart_nil)) h hfields, hcall⟩
  all_goals simp [Field.apart_at]

/-- The arguments of a scientific call may come in any order. -/
theorem ToolCall.scientificDecoder_perm {members members' : List (String × Value)}
    (h : members.Perm members') {call : ToolCall}
    (hread : decodeValue scientificDecoder (.object members) = .ok call) :
    decodeValue scientificDecoder (.object members') = .ok call := by
  obtain ⟨fields, hfields, hcall⟩ := bind_eq_ok_iff.mp hread
  refine bind_eq_ok_iff.mpr ⟨fields, record_perm (areApart_cons ?_ ?_ (areApart_cons ?_ ?_
    (areApart_cons ?_ ?_ areApart_nil))) h hfields, hcall⟩
  all_goals simp [Field.apart_at]

/-! ## What is read -/

/-- The members of a call of a method. -/
def Request.members (version method : String) (id : Option Value) (params : Value) :
    List (String × Value) :=
  ("jsonrpc", .text version) :: ("method", .text method) :: ("params", params) ::
    (id.map fun id => ("id", id)).toList

/-- A call is read with its method and its parameters. -/
theorem Request.decode_members {version method : String} {id : Option Value}
    {params : List (String × Value)} (hid : ∀ v ∈ id, v.depth < nestingLimit)
    (hparams : (Value.object params).depth < nestingLimit) :
    decodeValue decoder (.object (members version method id (.object params))) =
      .ok ⟨id.bind Value.present?, method, some (.object params)⟩ := by
  have hparams := Value.optional_toTree (Nat.le_pred_of_lt hparams)
  refine bind_eq_ok_iff.mpr
    ⟨⟨some version, id.map Value.present?, some method, some (some (.object params))⟩, ?_, ?_⟩
  · refine bind_eq_ok_iff.mpr ⟨_, ?_, rfl⟩
    refine bind_eq_ok_iff.mpr ⟨_, rfl, bind_eq_ok_iff.mpr ⟨_, rfl, bind_eq_ok_iff.mpr
      ⟨_, takeMember_of_find? rfl rfl (Field.fill_at.mpr ⟨_, hparams, rfl⟩), ?_⟩⟩⟩
    cases id with
    | none => rfl
    | some v =>
        have hid := Value.optional_toTree (Nat.le_pred_of_lt (hid v rfl))
        exact bind_eq_ok_iff.mpr
          ⟨_, takeMember_of_find? rfl rfl (Field.fill_at.mpr ⟨_, hid, rfl⟩), rfl⟩
  · cases id with
    | none => rfl
    | some v => rfl

/-- The identifier of a call that is an object is its member of that name. -/
theorem Request.id_of_decode {members : List (String × Value)} {request : Request}
    (h : decodeValue decoder (.object members) = .ok request) :
    request.id = (members.lookup "id").bind Value.present? := by
  obtain ⟨fields, hfields, hrequest⟩ := bind_eq_ok_iff.mp h
  obtain ⟨version, -, hrequest⟩ := bind_eq_ok_iff.mp hrequest
  obtain ⟨method, -, hrequest⟩ := bind_eq_ok_iff.mp hrequest
  obtain rfl := Except.ok.inj hrequest
  exact join_get_of_record "id" hfields ⟨⟨_, fun _ _ => rfl, rfl⟩, by simp [Field.keeps_at]⟩ rfl

/-- The parameters of a call nest no deeper than the text may. -/
theorem Request.depth_of_decode {nestings : Nat} {tree : Json.Tree} {request : Request}
    (h : decoder (nestings + 1) tree = .ok request) :
    ∀ params ∈ request.params, params.depth ≤ nestings := by
  obtain ⟨fields, hfields, hrequest⟩ := bind_eq_ok_iff.mp h
  obtain ⟨version, -, hrequest⟩ := bind_eq_ok_iff.mp hrequest
  obtain ⟨method, -, hrequest⟩ := bind_eq_ok_iff.mp hrequest
  obtain rfl := Except.ok.inj hrequest
  have hfound : ∀ params ∈ fields.params.join, params.depth ≤ nestings := by
    refine record_induction (P := fun r => ∀ params ∈ r.params.join, params.depth ≤ nestings)
      ?_ (by simp) hfields
    intro field hfield tree r r₁ hr hfill
    simp only [List.mem_cons, List.not_mem_nil, or_false] at hfield
    -- only the last field puts parameters into the call
    rcases hfield with rfl | rfl | rfl | rfl
    · obtain ⟨version, -, rfl⟩ := Field.fill_at.mp hfill
      exact hr
    · obtain ⟨id, -, rfl⟩ := Field.fill_at.mp hfill
      exact hr
    · obtain ⟨method, -, rfl⟩ := Field.fill_at.mp hfill
      exact hr
    · obtain ⟨params, hparams, rfl⟩ := Field.fill_at.mp hfill
      exact Json.Tree.depth_of_optional hparams
  exact hfound

theorem Request.depth_of_decodeText {text : String} {request : Request}
    (h : decodeText decoder text = .ok request) :
    ∀ params ∈ request.params, params.depth ≤ nestingLimit := by
  obtain ⟨found, hfound, hended⟩ := bind_eq_ok_iff.mp h
  split at hended
  · obtain rfl := Except.ok.inj hended
    intro params hparams
    exact Nat.le_succ_of_le (depth_of_decode hfound params hparams)
  · exact nomatch hended

/-- The parameters of a call of a tool. -/
def CallParams.members (name : String) (arguments : List (String × Value)) :
    List (String × Value) :=
  [("name", .text name), ("arguments", .object arguments)]

/-- Parameters with different names are read with the name of the tool and its arguments, whatever
else is among them. -/
theorem CallParams.decode_object {members : List (String × Value)} {name : String}
    (hnames : (members.map Prod.fst).Nodup) (hdepth : (Value.object members).depth ≤ nestingLimit)
    (hname : members.lookup "name" = some (.text name)) :
    decodeValue decoder (.object members) =
      .ok ⟨name, (members.lookup "arguments").bind Value.present?⟩ := by
  refine bind_of_exists (R := fun answer => answer = _) (exists_record (areApart_cons ?_ ?_
    (areApart_cons ?_ ?_ areApart_nil)) hnames ?_ ?reads) ?call
  case reads =>
    simp only [List.forall_mem_cons, Field.name_at]
    refine ⟨?_, ?_, fun _ h => nomatch h⟩
    · intro value hvalue
      obtain rfl := Option.some.inj (hname.symm.trans hvalue)
      exact Field.reads_at (x := name) rfl
    · intro value hvalue
      have hless := Nat.le_trans (Value.depth_of_lookup hvalue) (Nat.le_of_succ_le_succ hdepth)
      exact Field.reads_at (Value.optional_toTree hless)
  case call =>
    intro fields hfields
    have hkept := get_of_record "name" Fields.name hfields
      ⟨⟨_, fun _ _ => rfl, rfl⟩, by simp [Field.keeps_at]⟩ rfl
    have harguments := join_get_of_record "arguments" hfields
      ⟨⟨_, fun _ _ => rfl, rfl⟩, by simp [Field.keeps_at]⟩ rfl
    rw [hname] at hkept
    rw [← Except.ok.inj hkept, ← harguments]
    rfl
  all_goals simp [Field.apart_at]

/-- The parameters are read with the name of the tool and its arguments. -/
theorem CallParams.decode_members {name : String} {arguments : List (String × Value)}
    (h : (Value.object arguments).depth < nestingLimit) :
    decodeValue decoder (.object (members name arguments)) =
      .ok ⟨name, some (.object arguments)⟩ := by
  refine decode_object (by simp [members]) ?_ rfl
  simpa [members, Value.depth, Value.membersDepth] using Nat.succ_le_of_lt h

/-- Parameters with arguments without arrays and objects do not nest deeply. -/
theorem CallParams.depth_of_perm {params arguments : List (String × Value)} {name : String}
    (hparams : params.Perm (members name arguments))
    (hflat : ∀ argument ∈ arguments, argument.2.depth = 0) :
    (Value.object params).depth < nestingLimit := by
  have hone : Value.membersDepth params ≤ 1 := by
    refine Value.membersDepth_le_iff.mpr fun member h => ?_
    rcases List.mem_cons.mp (hparams.mem_iff.mp h) with rfl | h
    · exact Nat.zero_le _
    · obtain rfl := List.mem_singleton.mp h
      exact Nat.le_of_eq (Value.depth_object hflat)
  exact Nat.lt_of_le_of_lt (Nat.succ_le_succ hone) (by decide)

/-- Arguments without arrays and objects are read in some order, whatever the order in which they
and the parameters come. -/
theorem CallParams.read_of_perm {params arguments : List (String × Value)} {name : String}
    (hparams : params.Perm (members name arguments)) (hnames : (arguments.map Prod.fst).Nodup)
    (hflat : ∀ argument ∈ arguments, argument.2.depth = 0) :
    ∃ found : List (String × Value), found.Perm arguments ∧
      read (some (.object params)) = .ok ⟨name, some (.object found)⟩ := by
  obtain ⟨found, hsorted, hfound⟩ := Value.exists_sorted_object hnames
  have hsame : arguments.map (fun argument => (argument.1, argument.2.sorted)) = arguments := by
    have hself : ∀ argument ∈ arguments, (argument.1, argument.2.sorted) = id argument := by
      intro argument h
      rw [Value.sorted_eq_self (hflat argument h)]
      rfl
    rw [List.map_congr_left hself, List.map_id]
  rw [hsame] at hfound
  have hnodup : (params.map Prod.fst).Nodup := by
    rw [(hparams.map Prod.fst).nodup_iff]
    simp [members]
  obtain ⟨sortedParams, hread, hperm⟩ := Value.exists_sorted_object hnodup
  have hmembers : (members name found).Perm sortedParams := by
    refine (hperm.trans ?_).symm
    have h := hparams.map fun member => (member.1, member.2.sorted)
    rwa [members, List.map_cons, List.map_cons, List.map_nil, hsorted] at h
  refine ⟨found, hfound, ?_⟩
  have hdepth : (Value.object found).depth < nestingLimit := by
    rw [Value.depth_object fun member h => hflat member (hfound.mem_iff.mp h)]
    decide
  show (decodeValue decoder (Value.object params).sorted).mapError _ = _
  rw [hread, decoder_perm hmembers (decode_members hdepth)]
  rfl

/-- Sorting what is there, and taking an empty object where nothing is, can be done in either
order. -/
theorem sorted_getD_present? (value : Option Value) :
    ((value.map Value.sorted).bind Value.present?).getD (.object []) =
      ((value.bind Value.present?).getD (.object [])).sorted := by
  cases value with
  | none => rfl
  | some value => cases value <;> rfl

/-- What is read of the parameters of a call: the name, and arguments with different names, each of
them what was last sent under it. -/
theorem CallParams.read_object {params arguments : List (String × Value)} {name : String}
    (hdepth : (Value.object params).depth ≤ nestingLimit)
    (hname : member? "name" params = some (.text name))
    (harguments : ((member? "arguments" params).bind Value.present?).getD (.object []) =
      .object arguments) :
    ∃ carried found, read (some (.object params)) = .ok ⟨name, carried⟩ ∧
      carried.getD (.object []) = .object found ∧ (found.map Prod.fst).Nodup ∧
        ∀ other, found.lookup other = (member? other arguments).map Value.sorted := by
  obtain ⟨members, hsorted, hnames, hlookup⟩ := Value.sorted_object params
  obtain ⟨found, hfound, hfoundNames, hfoundLookup⟩ := Value.sorted_object arguments
  refine ⟨(members.lookup "arguments").bind Value.present?, found, ?_, ?_, hfoundNames,
    hfoundLookup⟩
  · have hless : (Value.object members).depth ≤ nestingLimit := by
      rw [← hsorted]
      exact Nat.le_trans (Value.depth_sorted_le _) hdepth
    have hkept : members.lookup "name" = some (.text name) := by
      rw [hlookup, hname]
      rfl
    show (decodeValue decoder (Value.object params).sorted).mapError _ = _
    rw [hsorted, decode_object hnames hless hkept]
    rfl
  · rw [hlookup, sorted_getD_present?, harguments, hfound]

end Abacus.Rpc
