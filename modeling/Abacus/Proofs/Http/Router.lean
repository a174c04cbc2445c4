import Abacus.Http.Router
import Abacus.Proofs.Json.Decoder
import Abacus.Proofs.Service
import Abacus.Proofs.Wire.Encoding

/-!
# Router — what a request over HTTP does to the history

A request is answered at once, or the service is asked for one thing (`Plan.of_cases`).  Apart from
the route of the cleanup, the only thing that changes the service is a calculation, and a
calculation is offered to the history exactly when the response shows it (`respond_offers`).

A body that says it is JSON, is not too long and is JSON of an object is read as that object, whatever
the order of its members (`readBody_eq`, `ExpressionBody.decoder_perm`).
-/

namespace Abacus.Http

open Json (Value decodeValue)
open Json.Decoder (Field record_perm areApart_cons areApart_nil)

/-! ## What is read of a body -/

/-- A body that is JSON is decoded as its value is. -/
theorem readBody_eq {request : Request} {value : Value}
    (htype : (request.header? "content-type").any MediaType.isJson = true)
    (hsize : request.body.utf8ByteSize ≤ bodyLimit) (hbody : Json.IsText request.body value)
    {α : Type} (decoder : Json.Decoder α) :
    readBody decoder request = (decodeValue decoder value).mapError .body := by
  rw [readBody, htype, hbody.decodeText, if_neg (by decide), if_neg (Nat.not_lt.mpr hsize)]

/-- The members of a body may come in any order. -/
theorem ExpressionBody.decoder_perm {members members' : List (String × Value)}
    (h : members.Perm members') {body : ExpressionBody}
    (hread : decodeValue decoder (.object members) = .ok body) :
    decodeValue decoder (.object members') = .ok body := by
  rw [decodeValue, decoder] at hread ⊢
  refine record_perm (areApart_cons ?_ ?_ (areApart_cons ?_ ?_ areApart_nil)) h hread
  all_goals simp [Field.apart_at]

/-- The members of a scientific body may come in any order. -/
theorem ScientificBody.decoder_perm {members members' : List (String × Value)}
    (h : members.Perm members') {body : ScientificBody}
    (hread : decodeValue decoder (.object members) = .ok body) :
    decodeValue decoder (.object members') = .ok body := by
  rw [decodeValue, decoder] at hread ⊢
  refine record_perm
    (areApart_cons ?_ ?_ (areApart_cons ?_ ?_ (areApart_cons ?_ ?_ areApart_nil))) h hread
  all_goals simp [Field.apart_at]

/-! ## What is asked and shown -/

/-- The response shows the calculation. -/
def Response.Shows (response : Response) (c : Calculation) : Prop :=
  response.status = 200 ∧ response.body = c.toJson.compact

/-- The request is for a cleanup. -/
def Request.AsksForCleanup (request : Request) : Prop :=
  request.method = "POST" ∧ request.path = Route.cleanup.path

/-- Answers that are no calculation: those with another status, without a body, or with the body
of the health route. -/
def Response.IsPlain (response : Response) : Prop :=
  response.status ≠ 200 ∨ response.body = "" ∨ response.body = "\x7b\"status\":\"ok\"\x7d"

/-! ## What comes of a request -/

/-- A path leads only to the route whose path it is. -/
theorem Route.path_eq_of_ofPath? {path : String} {route : Route}
    (h : ofPath? path = some route) : path = route.path := by
  have hfound := List.find?_some h
  exact (beq_iff_eq.mp hfound).symm

/-- The request is on the route: it has its path and one of its methods. -/
def Request.IsOn (request : Request) (route : Route) : Prop :=
  request.path = route.path ∧ request.method ∈ route.methods

/-- A request on a route is answered as the route says. -/
theorem Plan.of_isOn {request : Request} {route : Route} (h : request.IsOn route) :
    Plan.of request = ofRoute route request := by
  obtain ⟨hpath, hmethod⟩ := h
  have hasked : ¬ (request.method == "OPTIONS") = true := by
    rw [beq_iff_eq]
    intro hoptions
    rw [hoptions] at hmethod
    cases route <;> exact absurd hmethod (by decide)
  rw [Plan.of, hpath, Route.ofPath?_path, if_neg hasked]
  exact if_pos (List.contains_iff_mem.mpr hmethod)

/-- A request is on a route, or it is answered at once, without a body and not as one that failed on
a route. -/
theorem Plan.exists_isOn (request : Request) :
    (∃ route, request.IsOn route) ∨
      ∃ response : Response, Plan.of request = .reply response ∧
        response.status ∈ [200, 404, 405] ∧ response.body = "" := by
  rw [Plan.of]
  split
  · -- any page may ask whether it may
    exact Or.inr ⟨_, rfl, by simp [Response.bare], rfl⟩
  · split
    · exact Or.inr ⟨_, rfl, by simp [Response.bare], rfl⟩
    · next route hroute =>
      split
      · next hmethod =>
        exact Or.inl ⟨route, Route.path_eq_of_ofPath? hroute, List.contains_iff_mem.mp hmethod⟩
      · exact Or.inr ⟨_, rfl, by simp [Response.bare], rfl⟩

/-- What is read from a body is a calculation, or rejected. -/
theorem Plan.ofRequest_cases (read : Except Rejection Abacus.Request) :
    (∃ message, ofRequest read = .reply (errorResponse 400 message)) ∨
      ∃ asked, ofRequest read = .perform (.calculate asked) := by
  cases read with
  | error rejection => exact Or.inl ⟨_, rfl⟩
  | ok asked => exact Or.inr ⟨asked, rfl⟩

/-- The limits that the query of a request gives. -/
def Request.limits (request : Request) : List String :=
  ((Form.pairs request.query).filter fun pair => pair.1 == "limit").map (·.2)

/-- A query with one limit at most is a look at the history. -/
theorem Plan.of_history_of_length_le {request : Request} (hon : request.IsOn .history)
    (h : request.limits.length ≤ 1) :
    Plan.of request = .perform (.history (Limit.ofText request.limits.head?)) := by
  rw [of_isOn hon]
  show history request.query = _
  unfold Request.limits at h ⊢
  rw [history]
  split
  · next heq =>
    rw [heq]
    rfl
  · next heq =>
    rw [heq]
    rfl
  · next hnone hone =>
    -- a list of at most one pair is one of the two above
    match hlimits : (Form.pairs request.query).filter fun pair => pair.1 == "limit" with
    | [] => exact absurd hlimits hnone
    | [(name, limit)] => exact absurd hlimits (hone name limit)
    | first :: second :: rest =>
        rw [hlimits] at h
        exact absurd h (by simp)

/-- A query with several limits is not understood, and that is told in plain text. -/
theorem Plan.of_history_of_lt_length {request : Request} (hon : request.IsOn .history)
    (h : 1 < request.limits.length) :
    Plan.of request = .reply (.content 400 Response.plainText
      "Failed to deserialize query string: duplicate field \x60limit\x60") := by
  rw [of_isOn hon]
  show history request.query = _
  unfold Request.limits at h
  rw [history]
  split
  · next heq =>
    rw [heq] at h
    exact absurd h (by simp)
  · next heq =>
    rw [heq] at h
    exact absurd h (by simp)
  · rfl

/-- What can come of a request: an answer that is no calculation, a calculation that is posted, a
look at the history, or a cleanup that is asked for. -/
theorem Plan.of_cases (request : Request) :
    (∃ response : Response, Plan.of request = .reply response ∧ response.IsPlain) ∨
      (∃ asked, Plan.of request = .perform (.calculate asked) ∧ request.method = "POST") ∨
      (∃ limit, Plan.of request = .perform (.history limit)) ∨
      (Plan.of request = .perform .cleanup ∧ request.AsksForCleanup) := by
  have hrejected (message : String) : (errorResponse 400 message).IsPlain :=
    Or.inl (by simp [errorResponse, jsonResponse, Response.content])
  rcases Plan.exists_isOn request with ⟨route, hon⟩ | ⟨response, hplan, -, hbody⟩
  · have hroute := Plan.of_isOn hon
    cases route with
    | calculate =>
        rcases ofRequest_cases (readBody ExpressionBody.decoder request >>=
          ExpressionBody.request) with ⟨message, h⟩ | ⟨asked, h⟩
        · exact Or.inl ⟨_, hroute.trans h, hrejected message⟩
        · exact Or.inr (Or.inl ⟨asked, hroute.trans h, List.mem_singleton.mp hon.2⟩)
    | scientific =>
        rcases ofRequest_cases (readBody ScientificBody.decoder request >>=
          ScientificBody.request) with ⟨message, h⟩ | ⟨asked, h⟩
        · exact Or.inl ⟨_, hroute.trans h, hrejected message⟩
        · exact Or.inr (Or.inl ⟨asked, hroute.trans h, List.mem_singleton.mp hon.2⟩)
    | history =>
        rcases Nat.lt_or_ge 1 request.limits.length with h | h
        · exact Or.inl ⟨_, of_history_of_lt_length hon h, Or.inl (by decide)⟩
        · exact Or.inr (Or.inr (Or.inl ⟨_, of_history_of_length_le hon h⟩))
    | cleanup =>
        exact Or.inr (Or.inr (Or.inr ⟨hroute, List.mem_singleton.mp hon.2, hon.1⟩))
    | health => exact Or.inl ⟨_, hroute, Or.inr (Or.inr rfl)⟩
  · exact Or.inl ⟨response, hplan, Or.inr (Or.inl hbody)⟩

/-! ## What a response shows -/

/-- A plain answer shows no calculation, however it is finished. -/
theorem Response.IsPlain.not_shows {response : Response} (h : response.IsPlain)
    (request : Request) (c : Calculation) : ¬ (finish request response).Shows c := by
  rintro ⟨hstatus, hbody⟩
  simp only [finish] at hstatus hbody
  split at hbody
  · exact Calculation.compact_ne (by decide) c hbody
  · rcases h with hother | hempty | hhealth
    · exact hother hstatus
    · rw [hempty] at hbody
      exact Calculation.compact_ne (by decide) c hbody
    · rw [hhealth] at hbody
      exact Calculation.compact_ne (by decide) c hbody

/-- What the service says of anything but a calculation shows none. -/
theorem not_shows_responseOf {answer : Except Failure Outcome} (h : calculationOf answer = none)
    (request : Request) (c : Calculation) :
    ¬ (finish request (responseOf answer)).Shows c := by
  rintro ⟨hstatus, hbody⟩
  simp only [finish] at hstatus hbody
  split at hbody
  · exact Calculation.compact_ne (by decide) c hbody
  · cases answer with
    | error failure =>
        cases hclient : failure.isClientError <;>
          simp [responseOf, errorResponse, jsonResponse, Response.content, hclient] at hstatus
    | ok outcome =>
        obtain ⟨found, rfl⟩ := Outcome.exists_eq_calculation_of_compact hbody
        exact nomatch h

/-- A posted request is answered with the calculation that the service answers, if there is one. -/
theorem told_responseOf {request : Request} (h : request.method = "POST")
    (answer : Except Failure Outcome) :
    Told (finish request (responseOf answer)).Shows (calculationOf answer) := by
  cases hfound : calculationOf answer with
  | none => exact not_shows_responseOf hfound request
  | some found =>
      have hanswer : answer = .ok (.calculation found) := eq_of_calculationOf hfound
      rw [hanswer]
      have hbody : (finish request (responseOf (.ok (.calculation found)))).body =
          found.toJson.compact :=
        body_finish (by rw [h]; decide) _
      refine ⟨⟨rfl, hbody⟩, ?_⟩
      rintro c ⟨-, hshown⟩
      exact Calculation.entry_eq_of_compact (hshown.symm.trans hbody)

/-! ## What a request offers -/

theorem respond_of_reply {request : Request} {response : Response}
    (h : Plan.of request = .reply response) (now : Int) (service : Service) :
    respond now request service = (finish request response, service) := by
  rw [respond, h]

theorem respond_of_perform {request : Request} {command : Command}
    (h : Plan.of request = .perform command) (now : Int) (service : Service) :
    respond now request service = (finish request (responseOf (service.perform now command).1),
      (service.perform now command).2) := by
  rw [respond, h]

/-- **A response over HTTP and the history agree**: a request that does not ask for a cleanup
offers to the history the calculation that its response shows, and nothing if it shows none. -/
theorem respond_offers {request : Request} (h : ¬ request.AsksForCleanup) (now : Int)
    (service : Service) :
    ∃ found : Option Calculation, (respond now request service).2 = service.offerAll found.toList ∧
      Told (respond now request service).1.Shows found := by
  rcases Plan.of_cases request with ⟨response, hplan, hplain⟩ | ⟨asked, hplan, hpost⟩ |
    ⟨limit, hplan⟩ | ⟨-, hcleanup⟩
  · rw [respond_of_reply hplan]
    exact ⟨none, rfl, hplain.not_shows request⟩
  · rw [respond_of_perform hplan]
    have hcommand : Command.calculate asked ≠ .cleanup := fun heq => nomatch heq
    exact ⟨_, Service.perform_eq_offerAll hcommand now service, told_responseOf hpost _⟩
  · rw [respond_of_perform hplan]
    have hcommand : Command.history limit ≠ .cleanup := fun heq => nomatch heq
    have hnone := Service.calculationOf_history now limit service
    refine ⟨none, ?_, not_shows_responseOf hnone request⟩
    rw [Service.perform_eq_offerAll hcommand, hnone]
  · exact absurd hcleanup h

/-- Whatever is requested, the service goes on running. -/
theorem isRunning_respond {capacity : Nat} {service : Service} (h : service.IsRunning capacity)
    (now : Int) (request : Request) : (respond now request service).2.IsRunning capacity := by
  rw [respond]
  split
  · exact h
  · exact h.perform now _

end Abacus.Http
