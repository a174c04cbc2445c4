import Abacus.Proofs.CommandLine.Program
import Abacus.Proofs.Decimal.Numeral
import Abacus.Proofs.History.Growth
import Abacus.Proofs.History.Recent
import Abacus.Proofs.Http.Form
import Abacus.Proofs.Http.Router
import Abacus.Proofs.Limit
import Abacus.Proofs.Rpc.Schema
import Abacus.Proofs.Wire.Records

/-!
# Looks — the history is told alike by a request, a call and a run of the program

The history can be looked at through three doors, and each has a way of its own to read how many
records are asked for.  Each tells what the store shows for the number that it reads, or the message
of the failure.  They tell the same (`tell_alike_iff`) unless the number is too great for a query and
more records can be shown than by default, or a record holds a character that is not printed.
-/

namespace Abacus

open History (Archive Record Row Store cutoff)
open Json (Value decodeText decodeValue nestingLimit)
open Json.Decoder (Field areApart_cons areApart_nil exists_record get_of_record)
open Json.Value (member?)

/-! ## What there is to tell -/

/-- What a look at the store tells at the given time: the newest records, or the message of a
failure. -/
def History.look (store : Store) (limit : Nat) (now : Int) : Except String (List Record) :=
  (store.recent limit (cutoff now)).mapError fun fault => (Failure.historyRead fault).message

/-- The service answers with what its store shows, and stays as it is. -/
theorem Service.perform_history_cases (now : Int) (limit : Nat) (service : Service) :
    (∃ records, History.look service.store limit now = .ok records ∧
        service.perform now (.history limit) = (.ok (.records records), service)) ∨
      ∃ fault, History.look service.store limit now =
          .error (Failure.historyRead fault).message ∧
        service.perform now (.history limit) = (.error (.historyRead fault), service) := by
  rw [perform, history, History.look]
  cases service.store.recent limit (cutoff now) with
  | ok records => exact Or.inl ⟨records, rfl, rfl⟩
  | error fault => exact Or.inr ⟨fault, rfl, rfl⟩

/-! ## By a request -/

namespace Http

/-- The request asks for the history with the limit. -/
structure Request.LooksWith (request : Request) (limit : Nat) : Prop where
  method : request.method = "GET"
  path : request.path = Route.history.path
  limits : request.limits = [String.ofList (Decimal.numeral limit)]

/-- Every limit can be asked for by a request. -/
theorem Request.looksWith_of_target {request : Request} {limit : Nat}
    (hmethod : request.method = "GET")
    (htarget : request.target = "/api/history?limit=" ++ String.ofList (Decimal.numeral limit)) :
    request.LooksWith limit := by
  have hchars : request.target.toList =
      '/' :: "api/history".toList ++ '?' :: ("limit".toList ++ '=' :: Decimal.numeral limit) := by
    have hdigits : (String.ofList (Decimal.numeral limit)).toList = Decimal.numeral limit :=
      String.toList_ofList
    rw [htarget, String.toList_append, hdigits]
    rfl
  have hpath := List.all_eq_true.mp (by decide : "api/history".toList.all isPlain = true)
  have hname := List.all_eq_true.mp (by decide : "limit".toList.all isPlain = true)
  have hvalue : ∀ c ∈ Decimal.numeral limit, isPlain c = true :=
    fun _ hc => isPlain_of_isDigit (Decimal.isDigit_of_mem_numeral hc)
  have hquery : '#' ∉ "limit".toList ++ '=' :: Decimal.numeral limit := by
    have hmark : '#' ∈ marks := by decide
    simp [not_mem_of_plain hmark hvalue]
  refine ⟨hmethod, request.path_of_target hchars hpath, ?_⟩
  rw [Request.limits, request.query_of_target hchars hpath hquery, Form.pairs_of_plain hname hvalue,
    List.filter_cons_of_pos (by simp)]
  rfl

/-- What the response tells of the history. -/
def Response.Tells (response : Response) : Except String (List Record) → Prop
  | .ok records => response.status = 200 ∧ response.body = (Record.listToJson records).compact
  | .error message =>
      response.status = 500 ∧ response.body = (Value.object [("error", .text message)]).compact

/-- The message of an error is told by its text. -/
theorem message_eq_of_compact {message message' : String}
    (h : (Value.object [("error", .text message)]).compact =
      (Value.object [("error", .text message')]).compact) : message = message' := by
  have hchars (s : String) : (Value.object [("error", .text s)]).compactChars =
      '\x7b' :: Json.Quoted.write "error" ++ [':'] ++ (Json.Quoted.write s ++ ['\x7d']) := by
    simp [Value.compactChars, Value.compactMembers]
  have hsame := String.ofList_injective h
  rw [hchars, hchars] at hsame
  exact (Json.Quoted.write_append_inj (List.append_cancel_left hsame)).1

/-- A response tells one thing only. -/
theorem Response.Tells.unique {response : Response} {answer answer' : Except String (List Record)}
    (h : response.Tells answer) (h' : response.Tells answer') : answer = answer' := by
  cases answer with
  | ok records =>
      cases answer' with
      | ok records' => rw [Record.listToJson_compact_injective (h.2.symm.trans h'.2)]
      | error message => exact absurd (h.1.symm.trans h'.1) (by decide)
  | error message =>
      cases answer' with
      | ok records' => exact absurd (h.1.symm.trans h'.1) (by decide)
      | error message' => rw [message_eq_of_compact (h.2.symm.trans h'.2)]

/-- A query asks for the number that it names, or for the default if that is too great. -/
theorem tells_respond {request : Request} {limit : Nat} (h : request.LooksWith limit) (now : Int)
    (service : Service) :
    (respond now request service).1.Tells (History.look service.store
      (if limit ≤ Limit.greatest then Limit.orDefault limit else Limit.default) now) := by
  have hon : request.IsOn .history := by
    refine ⟨h.path, ?_⟩
    rw [h.method]
    decide
  have hone : request.limits.length ≤ 1 := by
    rw [h.limits]
    exact Nat.le_refl 1
  have hplan := Plan.of_history_of_length_le hon hone
  rw [h.limits, List.head?_cons, Limit.ofText_numeral] at hplan
  have hmethod : request.method ≠ "HEAD" := by
    rw [h.method]
    decide
  rw [respond_of_perform hplan]
  rcases service.perform_history_cases now
    (if limit ≤ Limit.greatest then Limit.orDefault limit else Limit.default) with
    ⟨records, hlook, hperform⟩ | ⟨fault, hlook, hperform⟩
  · rw [hlook, hperform]
    exact ⟨rfl, body_finish hmethod _⟩
  · rw [hlook, hperform]
    exact ⟨rfl, body_finish hmethod _⟩

end Http

/-! ## By a call -/

namespace Rpc

/-- The text is a call that asks for the history with the limit. -/
def LooksWith (text : String) (limit : Nat) : Prop :=
  ∃ arguments, IsCallWith text Tool.history.name arguments ∧
    member? "limit" arguments = some (.integer limit)

/-- What the answer to a call tells of the history. -/
def Response.Tells (response : Response) : Except String (List Record) → Prop
  | .ok records => response.answer = .ok (textResult (Record.listToJson records).indented)
  | .error message => response.answer = .ok (errorResult message)

/-- An answer tells one thing only. -/
theorem Response.Tells.unique {response : Response} {answer answer' : Except String (List Record)}
    (h : response.Tells answer) (h' : response.Tells answer') : answer = answer' := by
  cases answer with
  | ok records =>
      cases answer' with
      | ok records' =>
          have htext := textResult_injective (Except.ok.inj (h.symm.trans h'))
          rw [Record.listToJson_indented_injective htext]
      | error message =>
          exact absurd (Except.ok.inj (h'.symm.trans h)) (errorResult_ne_textResult _ _)
  | error message =>
      cases answer' with
      | ok records' =>
          exact absurd (Except.ok.inj (h.symm.trans h')) (errorResult_ne_textResult _ _)
      | error message' =>
          have hresult := Except.ok.inj (h.symm.trans h')
          rw [show message = message' by simpa [errorResult] using hresult]

/-- Arguments with a limit are read as a look at the history with it. -/
theorem ToolCall.decode_history {members : List (String × Value)} {limit : Nat}
    (hnames : (members.map Prod.fst).Nodup) (h : limit < Json.Numeral.wordLimit)
    (hlimit : members.lookup "limit" = some (.integer limit)) :
    decodeValue historyDecoder (.object members) = .ok (.history (Limit.orDefault limit)) := by
  have hread (nestings : Nat) :
      Json.Decoder.optional Json.Decoder.natural nestings (Value.integer limit).toTree =
        .ok (some limit) := by
    exact (Value.optional_of_ne_null (by simp [Value.integer]) _ _).trans
      (map_eq_ok_iff.mpr ⟨limit, natural_integer_eq_ok_iff.mpr ⟨rfl, h⟩, rfl⟩)
  refine bind_of_exists (R := fun answer => answer = _) (exists_record (areApart_cons ?_ ?_
    areApart_nil) hnames ?_ ?reads) ?call
  case reads =>
    simp only [List.forall_mem_cons, Field.name_at]
    refine ⟨?_, fun _ h => absurd h List.not_mem_nil⟩
    intro value hvalue
    obtain rfl := Option.some.inj (hlimit.symm.trans hvalue)
    exact Field.reads_at (hread _)
  case call =>
    intro fields hfields
    have hkept := get_of_record "limit" HistoryArguments.limit hfields
      ⟨⟨_, fun _ _ => rfl, rfl⟩, by simp⟩ rfl
    rw [hlimit] at hkept
    obtain ⟨found, hfound, hsame⟩ := map_eq_ok_iff.mp hkept
    obtain rfl := Except.ok.inj ((hread _).symm.trans hfound)
    rw [hsame]
    rfl
  all_goals simp

/-- The text of a call for the history with the limit. -/
def callText (limit : Nat) : String :=
  (Value.object (Request.members "2.0" "tools/call" none
    (.object (CallParams.members Tool.history.name [("limit", .integer limit)])))).compact

/-- Every limit of sixty-four bits can be asked for by a call. -/
theorem looksWith_callText {limit : Nat} (h : limit < Json.Numeral.wordLimit) :
    LooksWith (callText limit) limit := by
  refine ⟨_, isCallWith_of_isText (fun v hv => absurd hv (Option.not_mem_none v)) ?_
    (Value.isText_compact ?_), rfl⟩
  · refine CallParams.depth_of_perm (.refl _) fun argument hargument => ?_
    obtain rfl := List.mem_singleton.mp hargument
    rfl
  · exact ⟨trivial, trivial, ⟨trivial, ⟨Json.Number.isReadBack_integer h, trivial⟩, trivial⟩, trivial⟩

/-- A call that asks for the history is run as a look at it. -/
theorem asksFor_of_looksWith {text : String} {limit : Nat} (h : LooksWith text limit)
    (hlimit : limit < Json.Numeral.wordLimit) :
    AsksFor text (.history (Limit.orDefault limit)) := by
  obtain ⟨arguments, ⟨request, params, hread, hmethod, hparams, hname, harguments⟩, hmember⟩ := h
  have hdepth : (Value.object params).depth ≤ nestingLimit :=
    Request.depth_of_decodeText hread _ hparams
  obtain ⟨carried, found, hcarried, hfound, hnames, hlookup⟩ :=
    CallParams.read_object hdepth hname harguments
  have hkept : found.lookup "limit" = some (.integer limit) := by
    rw [hlookup, hmember]
    rfl
  refine ⟨request, ⟨Tool.history.name, carried⟩, hread, hmethod, ?_, ?_⟩
  · rw [hparams]
    exact hcarried
  · rw [CallParams.toolCall, Tool.ofName?_name]
    show (decodeValue ToolCall.historyDecoder (carried.getD (.object []))).mapError _ = _
    rw [hfound, ToolCall.decode_history hnames hlimit hkept]
    rfl

/-- A call asks for the number in it, unless that is zero. -/
theorem tells_handle {text : String} {limit : Nat} (h : LooksWith text limit)
    (hlimit : limit < Json.Numeral.wordLimit) (now : Int) (service : Service) :
    (handle now text service).response.Tells
      (History.look service.store (Limit.orDefault limit) now) := by
  obtain ⟨request, params, hread, hmethod, hparams, hcall⟩ := asksFor_of_looksWith h hlimit
  have hplan := Plan.of_call hmethod
  rw [bind_eq_ok_iff.mpr ⟨params, hparams, hcall⟩] at hplan
  have hrun : (run now (.history (Limit.orDefault limit)) service).1 =
      resultOf (service.perform now (.history (Limit.orDefault limit))).1 := rfl
  rw [handle_of_run hread hplan, hrun]
  rcases service.perform_history_cases now (Limit.orDefault limit) with
    ⟨records, hlook, hperform⟩ | ⟨fault, hlook, hperform⟩
  · rw [hlook, hperform]
    rfl
  · rw [hlook, hperform]
    rfl

end Rpc

/-! ## By a run of the program -/

namespace CommandLine

/-- What a run of the program tells of the history. -/
def Report.Tells (report : Report) : Except String (List Record) → Prop
  | .ok records =>
      report.failure = none ∧ report.output = (Record.listToJson records).indented ++ "\n"
  | .error message => report.failure = some message ∧ report.output = ""

/-- A run that is asked for the history with a limit tells what the store shows, just if that is
printable. -/
theorem tells_run_iff {environment : Environment} {invocation : Invocation} {limit : Nat}
    (h : Invocation.read environment (historyArguments limit) = .ok invocation)
    (hlimit : limit ≤ greatestLimit) (now : Int) (input : String) (store : Store) :
    (invocation.run now input store).1.Tells (History.look store (Limit.orDefault limit) now) ↔
      ∀ records, History.look store (Limit.orDefault limit) now = .ok records →
        ∀ r ∈ records, r.IsPrintable := by
  have hrun : (invocation.run now input store).1 =
      (ask now true (.history (Limit.orDefault limit))
        (Service.start store Service.defaultCapacity)).1.telling invocation.isVerbose
          invocation.notice := by
    rw [read_historyArguments hlimit] at h
    obtain ⟨isVerbose, -, rfl⟩ := map_eq_ok_iff.mp h
    rfl
  rw [hrun, ask]
  rcases (Service.start store Service.defaultCapacity).perform_history_cases now
    (Limit.orDefault limit) with ⟨records, hlook, hperform⟩ | ⟨fault, hlook, hperform⟩
  · have hlook : History.look store (Limit.orDefault limit) now = .ok records := hlook
    rw [hlook, hperform]
    simp only [Report.Tells, Report.output_telling, Report.failure_telling, true_and]
    show Report.line (Record.listToJson records).indented = _ ↔ _
    rw [Report.line, String.append_left_inj, Record.plain_listToJson_indented_iff]
    constructor
    · rintro hprintable found hfound
      obtain rfl := Except.ok.inj hfound
      exact hprintable
    · intro hprintable
      exact hprintable records rfl
  · have hlook : History.look store (Limit.orDefault limit) now =
      .error (Failure.historyRead fault).message := hlook
    rw [hlook, hperform]
    simp only [Report.Tells, Report.output_telling, Report.failure_telling]
    exact iff_of_true ⟨rfl, rfl⟩ fun found hfound => by cases hfound

end CommandLine

/-! ## Side by side -/

namespace History

/-- More than the default number of records makes no difference: there are no more rows to show, or
one of the first cannot be shown. -/
def Store.DefaultSuffices (store : Store) (now : Int) : Prop :=
  ∀ archive, store = .working archive →
    (archive.newerThan (cutoff now)).rows.length ≤ Limit.default ∨
      ∃ row ∈ archive.recent Limit.default (cutoff now), ∀ mode, Mode.parse row.mode ≠ .ok mode

/-- The default number of records is as good as a greater one just if more make no difference. -/
theorem look_default_eq_iff {store : Store} {limit : Nat} (h : Limit.default < limit) (now : Int) :
    look store Limit.default now = look store limit now ↔ store.DefaultSuffices now := by
  cases store with
  | unavailable reason => exact iff_of_true rfl fun archive harchive => by cases harchive
  | working archive =>
      have hsuffices : (Store.working archive).DefaultSuffices now ↔
          (archive.newerThan (cutoff now)).rows.length ≤ Limit.default ∨
            ∃ row ∈ archive.recent Limit.default (cutoff now),
              ∀ mode, Mode.parse row.mode ≠ .ok mode := by
        constructor
        · intro h
          exact h archive rfl
        · rintro h other hother
          obtain rfl := Store.working.inj hother
          exact h
      have hle : Limit.default ≤ limit := Nat.le_of_lt h
      rw [hsuffices]
      constructor
      · intro hsame
        by_contra hnone
        obtain ⟨hmore, hmodes⟩ := not_or.mp hnone
        -- all of the first records can be shown, and there are more
        obtain ⟨found, hfound⟩ : ∃ found,
            (archive.recent Limit.default (cutoff now)).mapM Store.record = .ok found := by
          refine exists_mapM_iff.mpr fun row hrow => ?_
          by_contra hrecord
          refine hmodes ⟨row, hrow, fun mode hmode => hrecord ?_⟩
          exact ⟨_, Store.record_eq_ok_iff.mpr ⟨mode, hmode, rfl⟩⟩
        have hlook : look (.working archive) Limit.default now = .ok found :=
          mapError_eq_ok_iff.mpr hfound
        rw [hlook] at hsame
        have hlimit := Store.length_of_recent (mapError_eq_ok_iff.mp hsame.symm)
        have hdefault := Store.length_of_recent hfound
        have hmost : Limit.default < mostRows := by decide
        omega
      · rintro (hfew | ⟨row, hrow, hunknown⟩)
        · rw [look, look, Store.recent, Store.recent, Archive.recent_eq_of_length_le hfew hle]
        · rw [look, look, Store.recent_eq_of_unknown hle hrow hunknown]

/-- **The history is told alike through the three doors**, by a request, a call and a run of the
program at the same time and on the same store, if, and only if, the limit is none that is too great
for a query, or more than the default number of records makes no difference; and every record that is
shown is printed as it is. -/
theorem tell_alike_iff {limit : Nat} (hlimit : limit ≤ CommandLine.greatestLimit)
    {asked : Http.Request} (hasked : asked.LooksWith limit) {text : String}
    (hcalled : Rpc.LooksWith text limit) {environment : CommandLine.Environment}
    {invocation : CommandLine.Invocation}
    (hread : CommandLine.Invocation.read environment (CommandLine.historyArguments limit) =
      .ok invocation) (now : Int) (input : String) (service : Service) :
    (∃ answer, (Http.respond now asked service).1.Tells answer ∧
        (Rpc.handle now text service).response.Tells answer ∧
        (invocation.run now input service.store).1.Tells answer) ↔
      (limit ≤ Limit.greatest ∨ service.store.DefaultSuffices now) ∧
        ∀ records, look service.store (Limit.orDefault limit) now = .ok records →
          ∀ r ∈ records, r.IsPrintable := by
  have hword : limit < Json.Numeral.wordLimit := Nat.lt_succ_of_le hlimit
  have hresponse := Http.tells_respond hasked now service
  have hhandled := Rpc.tells_handle hcalled hword now service
  have hreport := CommandLine.tells_run_iff hread hlimit now input service.store
  rw [← hreport]
  have hsame : look service.store
        (if limit ≤ Limit.greatest then Limit.orDefault limit else Limit.default) now =
      look service.store (Limit.orDefault limit) now ↔
        limit ≤ Limit.greatest ∨ service.store.DefaultSuffices now := by
    split
    · next hle => exact iff_of_true rfl (Or.inl hle)
    · next hgreat =>
      have hdefault : Limit.default < limit :=
        Nat.lt_trans (by decide : Limit.default < Limit.greatest) (Nat.not_le.mp hgreat)
      rw [Limit.orDefault, if_neg (by omega), look_default_eq_iff hdefault]
      exact (or_iff_right hgreat).symm
  rw [← hsame]
  constructor
  · rintro ⟨answer, hfirst, hsecond, hthird⟩
    obtain rfl := hsecond.unique hhandled
    exact ⟨(hfirst.unique hresponse).symm, hthird⟩
  · rintro ⟨heq, hthird⟩
    rw [heq] at hresponse
    exact ⟨_, hresponse, hhandled, hthird⟩

/-- A history without records is told alike. -/
theorem tell_alike_three :
    let asked : Http.Request := ⟨"GET", "/api/history?limit=3", [], ""⟩
    let invocation : CommandLine.Invocation :=
      ⟨CommandLine.defaultDatabase, false, .history 3 true⟩
    let service := Service.start .empty Service.defaultCapacity
    3 ≤ CommandLine.greatestLimit ∧ asked.LooksWith 3 ∧ Rpc.LooksWith (Rpc.callText 3) 3 ∧
      CommandLine.Invocation.read ⟨none, none, none⟩ (CommandLine.historyArguments 3) =
        .ok invocation ∧
      ∃ answer, (Http.respond 0 asked service).1.Tells answer ∧
        (Rpc.handle 0 (Rpc.callText 3) service).response.Tells answer ∧
        (invocation.run 0 "" service.store).1.Tells answer := by
  intro asked invocation service
  have hlimit : 3 ≤ CommandLine.greatestLimit := by decide
  have hasked : asked.LooksWith 3 := Http.Request.looksWith_of_target rfl (by decide)
  have hcalled : Rpc.LooksWith (Rpc.callText 3) 3 := Rpc.looksWith_callText (by decide)
  have hread : CommandLine.Invocation.read ⟨none, none, none⟩ (CommandLine.historyArguments 3) =
      .ok invocation := CommandLine.read_historyArguments hlimit _
  refine ⟨hlimit, hasked, hcalled, hread, ?_⟩
  refine (tell_alike_iff hlimit hasked hcalled hread 0 "" service).mpr ⟨Or.inl (by decide), ?_⟩
  have hnone : look service.store (Limit.orDefault 3) 0 = .ok [] := by
    simp [look, service, Service.start, Store.empty, Store.recent, Archive.recent, Except.mapError,
      pure, Except.pure]
  intro records hrecords r hr
  obtain rfl := Except.ok.inj (hnone.symm.trans hrecords)
  exact absurd hr List.not_mem_nil

/-- A query takes a limit of sixty-four bits for the default, and so a history of fifty-one records is
not told alike. -/
theorem not_tell_alike_too_great :
    let limit := 0x8000000000000000
    let asked : Http.Request := ⟨"GET", "/api/history?limit=9223372036854775808", [], ""⟩
    let invocation : CommandLine.Invocation :=
      ⟨CommandLine.defaultDatabase, false, .history limit true⟩
    let service := Service.start
      (.working (.ofDrafts (List.replicate 51 ⟨"1+1", "2", "standard", 0⟩))) Service.defaultCapacity
    limit ≤ CommandLine.greatestLimit ∧ asked.LooksWith limit ∧
      Rpc.LooksWith (Rpc.callText limit) limit ∧
      CommandLine.Invocation.read ⟨none, none, none⟩ (CommandLine.historyArguments limit) =
        .ok invocation ∧
      ¬ ∃ answer, (Http.respond 0 asked service).1.Tells answer ∧
        (Rpc.handle 0 (Rpc.callText limit) service).response.Tells answer ∧
        (invocation.run 0 "" service.store).1.Tells answer := by
  intro limit asked invocation service
  have hlimit : limit ≤ CommandLine.greatestLimit := by decide
  have hasked : asked.LooksWith limit := Http.Request.looksWith_of_target rfl (by decide)
  have hword : limit < Json.Numeral.wordLimit := by decide
  have hcalled := Rpc.looksWith_callText hword
  refine ⟨hlimit, hasked, hcalled, CommandLine.read_historyArguments hlimit _, ?_⟩
  rintro ⟨answer, hfirst, hsecond, -⟩
  have hsame := (hfirst.unique (Http.tells_respond hasked 0 service)).symm.trans
    (hsecond.unique (Rpc.tells_handle hcalled hword 0 service))
  rw [if_neg (by decide), Limit.orDefault, if_neg (by decide),
    look_default_eq_iff (by decide)] at hsame
  -- there are more rows than by default, and all of them can be shown
  have hrows (row : Row) (hrow : row ∈ (Archive.ofDrafts
      (List.replicate 51 ⟨"1+1", "2", "standard", 0⟩)).rows) :
      row.toDraft = ⟨"1+1", "2", "standard", 0⟩ :=
    List.eq_of_mem_replicate (Archive.toDraft_mem_of_mem_rows hrow)
  rcases hsame _ rfl with hfew | ⟨row, hrow, hunknown⟩
  · rw [Archive.rows_newerThan, List.filter_eq_self.mpr, Archive.length_rows_ofDrafts] at hfew
    · revert hfew
      decide
    · intro row hrow
      rw [hrows row hrow]
      decide
  · refine hunknown .standard ?_
    rw [hrows row (Archive.mem_of_mem_recent hrow).1]
    rfl

end History

end Abacus
