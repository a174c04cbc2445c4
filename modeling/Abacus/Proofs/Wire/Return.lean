import Abacus.Proofs.Decimal.Numeral
import Abacus.Proofs.Wire.Numbers
import Abacus.Wire.Encoding

/-!
# Return — what is sent is what is received

The data of the service is written in two layouts and read by the decoder of its type.  An integer of
sixty-four bits with a sign comes back, and so does any text.  A double need not, because the reader of
numbers may be off in the last place; where its own text is read back as the double
(`Double.ReadsBack`), the numeral in that text denotes the double for every reader
(`Double.ReadsBack.isReadBack`).  With that as the only condition on doubles, requests, calculations,
records, lists of records, verdicts and refusals come back as they were (`sent_comes_back`).
-/

namespace Abacus

open Json (Decoder Document IsNumeral IsText Value decodeText decodeValue nestingLimit)

/-! ## Numbers that come back -/

/-- The integer has sixty-four bits with a sign. -/
def IsWord (n : Int) : Prop :=
  -0x8000000000000000 ≤ n ∧ n ≤ 0x7FFFFFFFFFFFFFFF

/-- What is written for such an integer denotes it. -/
theorem IsWord.isReadBack {n : Int} (h : IsWord n) : (Json.Number.integer n).IsReadBack := by
  obtain ⟨hleast, hgreatest⟩ := h
  rcases Int.lt_or_le n 0 with hneg | hnonneg
  · obtain ⟨m, rfl⟩ := Int.exists_eq_neg_ofNat hneg.le
    exact Json.Number.isReadBack_neg (by omega) (by omega)
  · obtain ⟨m, rfl⟩ := Int.eq_ofNat_of_zero_le hnonneg
    refine Json.Number.isReadBack_integer ?_
    have hlimit : (0x7FFFFFFFFFFFFFFF : Nat) < Json.Numeral.wordLimit := by decide
    omega

/-- The integer is read of its tree. -/
theorem IsWord.read {n : Int} (h : IsWord n) (nestings : Nat) :
    Decoder.integer nestings (Value.integer n).toTree = .ok n :=
  if_pos (by simpa [IsWord] using h)

/-- The text that JSON has for the double is read as the double. -/
def Double.ReadsBack (x : Double) : Prop :=
  decodeText Decoder.double (Value.double x).compact = .ok x

/-- What is read of a numeral alone is its number. -/
theorem Json.IsNumeral.decodeText_double {text : String} {numeral : Json.Numeral}
    (h : IsNumeral text.toList numeral) :
    decodeText Decoder.double text =
      Decoder.double nestingLimit (.number numeral.toNumber?) >>= .ok := by
  have hread : Json.readValue (2 * text.toList.length + 1) (text.toList ++ []) =
      (.number numeral.toNumber?, some []) := h.readValue Json.endsValue_nil
  rw [List.append_nil] at hread
  rw [decodeText, Document.ofText, hread]
  rfl

/-- A numeral of digits alone has neither a point nor the letter of an exponent in it. -/
theorem Json.IsNumeral.isDigit_or_minus {text : List Char} {numeral : Json.Numeral}
    (h : IsNumeral text numeral) (hwhole : numeral.fraction = none ∧ numeral.exponent = none)
    {c : Char} (hc : c ∈ text) : c.isDigit = true ∨ c = '-' := by
  obtain @⟨minus, whole, fractionText, exponentText, negative, fraction, exponent, hminus, hdigits,
    hfraction, hexponent⟩ := h
  obtain ⟨rfl, rfl⟩ := hwhole
  cases hfraction
  cases hexponent
  rw [List.append_nil, List.append_nil] at hc
  rcases List.mem_append.mp hc with hsign | hdigit
  · cases hminus with
    | absent => exact nomatch hsign
    | present => exact Or.inr (List.mem_singleton.mp hsign)
  · exact Or.inl (hdigits.1.2 c hdigit)

/-- The text of a finite double shows a point or an exponent. -/
theorem Double.point_or_exponent_mem (negative : Bool) (m : Magnitude) :
    '.' ∈ (Json.Number.double (.finite negative m)).write ∨
      'e' ∈ (Json.Number.double (.finite negative m)).write := by
  have hsign {c : Char} {digits : List Char} (h : c ∈ digits) : c ∈ withSign negative digits := by
    cases negative with
    | false => exact h
    | true => exact List.mem_cons_of_mem _ h
  rw [Json.Number.write, pointed, String.toList_ofList]
  split
  · left
    refine hsign ?_
    rw [withPoint]
    split
    · next hpoint => exact List.contains_iff_mem.mp hpoint
    · simp
  · right
    refine hsign ?_
    simp [Decimal.exponential]

theorem Double.not_whole_of_isNumeral {negative : Bool} {m : Magnitude} {numeral : Json.Numeral}
    (h : IsNumeral (Json.Number.double (.finite negative m)).write numeral) :
    ¬ (numeral.fraction = none ∧ numeral.exponent = none) := by
  intro hwhole
  rcases Double.point_or_exponent_mem negative m with hpoint | hexponent
  · exact absurd (h.isDigit_or_minus hwhole hpoint) (by decide)
  · exact absurd (h.isDigit_or_minus hwhole hexponent) (by decide)

/-- **A double that comes back is denoted by its text**: the text is a numeral, and the only number
that it can be read as is the double itself. -/
theorem Double.ReadsBack.isReadBack {x : Double} (h : x.ReadsBack) :
    (Json.Number.double x).IsReadBack := by
  have hnull : decodeText Decoder.double "null" = .error .mismatch := rfl
  cases x with
  | nan => cases hnull.symm.trans h
  | infinite negative => cases hnull.symm.trans h
  | finite negative m =>
      obtain ⟨numeral, hnumeral, -, -⟩ := denotes_pointed .even (-5) true negative m
      refine ⟨numeral, hnumeral, ?_⟩
      have htext : IsNumeral (Value.double (.finite negative m)).compact.toList numeral := by
        rw [Value.compact, String.toList_ofList]
        exact hnumeral
      have hwhole := not_whole_of_isNumeral hnumeral
      obtain ⟨read, hread, rfl⟩ : ∃ read, numeral.toDouble? = some read ∧
          read = .finite negative m := by
        rw [ReadsBack, htext.decodeText_double, Json.Numeral.toNumber?_of_not_whole hwhole] at h
        cases hdouble : numeral.toDouble? with
        | none =>
            rw [hdouble] at h
            cases h
        | some read =>
            rw [hdouble] at h
            exact ⟨read, rfl, Except.ok.inj h⟩
      rw [Json.Numeral.toNumber?_of_not_whole hwhole, hread]
      rfl

/-! ## Values that come back -/

/-- In either layout the value is read by the decoder as what it was written for. -/
structure ComesBack {α : Type} (decoder : Decoder α) (json : Value) (x : α) : Prop where
  compact : decodeText decoder json.compact = .ok x
  indented : decodeText decoder json.indented = .ok x

/-- It suffices that the numbers in the value come back and that the value is decoded. -/
theorem ComesBack.of_decodeValue {α : Type} {decoder : Decoder α} {json : Value} {x : α}
    (hnumbers : json.IsReadBack) (h : decodeValue decoder json = .ok x) :
    ComesBack decoder json x where
  compact := ((Value.isText_compact hnumbers).decodeText decoder).trans h
  indented := ((Value.isText_indented hnumbers).decodeText decoder).trans h

namespace Request

/-- The doubles in the request come back. -/
def ReadsBack : Request → Prop
  | .expression _ _ => True
  | .scientific value _ second => value.ReadsBack ∧ ∀ x ∈ second, x.ReadsBack

/-- A request is read in the shape in which it was sent. -/
theorem decode_toJson (request : Request) : decodeValue decoder request.toJson = .ok request := by
  cases request with
  | expression text mode => cases mode <;> rfl
  | scientific value operation second => cases second <;> rfl

theorem comesBack {request : Request} (h : request.ReadsBack) :
    ComesBack decoder request.toJson request := by
  refine .of_decodeValue ?_ request.decode_toJson
  cases request with
  | expression text mode => exact ⟨trivial, trivial, trivial⟩
  | scientific value operation second =>
      obtain ⟨hvalue, hsecond⟩ := h
      cases second with
      | none => exact ⟨hvalue.isReadBack, trivial, trivial⟩
      | some x => exact ⟨hvalue.isReadBack, trivial, (hsecond x rfl).isReadBack, trivial⟩

end Request

/-- A calculation is read as it was sent. -/
theorem Calculation.comesBack {c : Calculation} (h : c.result.ReadsBack) :
    ComesBack decoder c.toJson c := by
  refine .of_decodeValue ⟨trivial, h.isReadBack, trivial, trivial, trivial⟩ ?_
  obtain ⟨expression, result, formatted, mode⟩ := c
  cases mode <;> rfl

theorem Verdict.comesBack (verdict : Verdict) : ComesBack decoder verdict.toJson verdict := by
  obtain ⟨isValid, error⟩ := verdict
  cases error with
  | none => exact .of_decodeValue ⟨trivial, trivial⟩ rfl
  | some text => exact .of_decodeValue ⟨trivial, trivial, trivial⟩ rfl

theorem Refusal.comesBack (refusal : Refusal) : ComesBack decoder refusal.toJson refusal := by
  cases refusal with
  | divisionByZero => exact .of_decodeValue trivial rfl
  | _ => exact .of_decodeValue ⟨trivial, trivial⟩ rfl

/-! ## Records that come back -/

namespace History.Record

/-- The number of the record and its time have sixty-four bits with a sign. -/
structure Fits (r : Record) : Prop where
  id : IsWord r.id
  createdAt : IsWord r.createdAt

theorem Fits.isReadBack {r : Record} (h : r.Fits) : r.toJson.IsReadBack :=
  ⟨h.id.isReadBack, trivial, trivial, trivial, h.createdAt.isReadBack, trivial⟩

/-- A record is read as it was sent, however deep in a value it stands. -/
theorem Fits.read {r : Record} (h : r.Fits) (nestings : Nat) :
    decoder (nestings + 1) r.toJson.toTree = .ok r := by
  obtain ⟨id, expression, result, mode, createdAt⟩ := r
  have hmode : Mode.decoder nestings mode.toJson.toTree = .ok mode := by cases mode <;> rfl
  refine bind_eq_ok_iff.mpr ⟨⟨some id, some expression, some result, some mode, some createdAt⟩,
    bind_eq_ok_iff.mpr ⟨_, ?members, rfl⟩, rfl⟩
  case members =>
    refine Decoder.foldlM_takeMember_cons rfl rfl (h.id.read nestings) ?_
    refine Decoder.foldlM_takeMember_cons rfl rfl rfl ?_
    refine Decoder.foldlM_takeMember_cons rfl rfl rfl ?_
    refine Decoder.foldlM_takeMember_cons rfl rfl hmode ?_
    exact Decoder.foldlM_takeMember_cons rfl rfl (h.createdAt.read nestings) rfl

theorem comesBack {r : Record} (h : r.Fits) : ComesBack decoder r.toJson r :=
  .of_decodeValue h.isReadBack (h.read _)

theorem toTrees_map (records : List Record) :
    Value.toTrees (records.map toJson) = records.map fun r => r.toJson.toTree := by
  induction records with
  | nil => rfl
  | cons r rest ih => exact congrArg (r.toJson.toTree :: ·) ih

theorem itemsAreReadBack {records : List Record} (h : ∀ r ∈ records, r.Fits) :
    Value.ItemsAreReadBack (records.map toJson) := by
  induction records with
  | nil => trivial
  | cons r rest ih =>
      obtain ⟨hr, hrest⟩ := List.forall_mem_cons.mp h
      exact ⟨hr.isReadBack, ih hrest⟩

/-- A list of records is read as it was sent, record by record. -/
theorem list_comesBack {records : List Record} (h : ∀ r ∈ records, r.Fits) :
    ComesBack listDecoder (listToJson records) records := by
  refine .of_decodeValue (itemsAreReadBack h) (bind_eq_ok_iff.mpr ⟨records, ?_, rfl⟩)
  rw [toTrees_map, mapM_eq_ok_iff, List.forall₂_map_left_iff, List.forall₂_same]
  exact fun r hr => (h r hr).read _

end History.Record

/-- **What is sent comes back.**  In either layout each kind of data is read by the decoder of its type
as it was, if its doubles come back as numbers and its integers have sixty-four bits: a request in the
shape in which it was sent, without a second value if it had none, a verdict without an error if it had
none, and every refusal as itself. -/
theorem sent_comes_back {request : Request} (hrequest : request.ReadsBack) {calculation : Calculation}
    (hresult : calculation.result.ReadsBack) {record : History.Record} (hrecord : record.Fits)
    {records : List History.Record} (hrecords : ∀ r ∈ records, r.Fits) (verdict : Verdict)
    (refusal : Refusal) :
    ComesBack Request.decoder request.toJson request ∧
      ComesBack Calculation.decoder calculation.toJson calculation ∧
      ComesBack History.Record.decoder record.toJson record ∧
      ComesBack History.Record.listDecoder (History.Record.listToJson records) records ∧
      ComesBack Verdict.decoder verdict.toJson verdict ∧
      ComesBack Refusal.decoder refusal.toJson refusal :=
  ⟨Request.comesBack hrequest, Calculation.comesBack hresult, History.Record.comesBack hrecord,
    History.Record.list_comesBack hrecords, verdict.comesBack, refusal.comesBack⟩

/-- Minus a tenth without a second value, a text with marks and line breaks, the least and the greatest
integer, and a verdict without an error. -/
theorem sent_comes_back_tenth :
    let tenth := Decimal.toDouble true ⟨1, -1⟩
    let text := "\"\\\n\r\x00\x7fπ😀"
    let request := Request.scientific tenth text none
    let calculation : Calculation := ⟨text, tenth, "-0.1", .scientific⟩
    let record : History.Record :=
      ⟨-0x8000000000000000, text, "-0.1", .standard, 0x7FFFFFFFFFFFFFFF⟩
    tenth.ReadsBack ∧ record.Fits ∧
      ComesBack Request.decoder request.toJson request ∧
      ComesBack Calculation.decoder calculation.toJson calculation ∧
      ComesBack History.Record.listDecoder (History.Record.listToJson [record, record])
        [record, record] ∧
      ComesBack Verdict.decoder (Verdict.mk false none).toJson ⟨false, none⟩ := by
  intro tenth text request calculation record
  have htenth : tenth.ReadsBack := by
    rw [Double.ReadsBack]
    decide +kernel
  have hleast : IsWord (-0x8000000000000000) := ⟨by omega, by omega⟩
  have hgreatest : IsWord 0x7FFFFFFFFFFFFFFF := ⟨by omega, by omega⟩
  have hrecord : record.Fits := ⟨hleast, hgreatest⟩
  have hrecords : ∀ r ∈ [record, record], r.Fits := by
    simp only [List.forall_mem_cons]
    exact ⟨hrecord, hrecord, fun _ h => nomatch h⟩
  have hrequest : request.ReadsBack := ⟨htenth, fun _ h => nomatch h⟩
  have hresult : calculation.result.ReadsBack := by
    dsimp only [calculation]
    exact htenth
  obtain ⟨hsent, hshown, -, hlist, hverdict, -⟩ :=
    sent_comes_back hrequest hresult hrecord hrecords ⟨false, none⟩ .divisionByZero
  exact ⟨htenth, hrecord, hsent, hshown, hlist, hverdict⟩

end Abacus
