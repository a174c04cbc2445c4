import Abacus.Proofs.Calculation
import Abacus.Proofs.Http.Router
import Abacus.Proofs.Json.Writer

/-!
# Failures over HTTP — what a status says and what a body tells

A request is on one of the routes, and its route says what comes of it, or it is answered without
the service (`Plan.exists_isOn`).  What fails on a route is a rejection of the request, a calculation
or the store, so the status says who is at fault (`failures_have_causes`).  All of these are told by
the same JSON object; only a query that gives several limits is not (`tellsError_iff`).
-/

namespace Abacus.Http

/-! ## What is told -/

/-- The response tells of an error: its body is JSON of an object with the text of the error as its
only member. -/
def Response.TellsError (response : Response) : Prop :=
  response.contentType = some "application/json" ∧
    ∃ message, Json.IsText response.body (.object [("error", .text message)])

/-- A response that is made to tell of an error does so, unless its body is not sent. -/
theorem tellsError_errorResponse {request : Request} (h : request.method ≠ "HEAD") (status : Nat)
    (message : String) : (finish request (errorResponse status message)).TellsError := by
  refine ⟨rfl, message, ?_⟩
  rw [body_finish h]
  exact Json.Value.isText_compact ⟨trivial, trivial⟩

/-- What the service fails in is told. -/
theorem tellsError_responseOf {request : Request} (h : request.method ≠ "HEAD")
    {answer : Except Failure Outcome} (hstatus : (finish request (responseOf answer)).status ≠ 200) :
    (finish request (responseOf answer)).TellsError := by
  cases answer with
  | ok outcome => exact absurd rfl hstatus
  | error failure => exact tellsError_errorResponse h _ _

/-- What comes of a request and is asked of the service is told when it fails. -/
theorem tellsError_respond {request : Request} (h : request.method ≠ "HEAD") {command : Command}
    (hplan : Plan.of request = .perform command) (now : Int) (service : Service)
    (hstatus : (respond now request service).1.status ≠ 200) :
    (respond now request service).1.TellsError := by
  rw [respond_of_perform hplan] at hstatus ⊢
  exact tellsError_responseOf h hstatus

/-- The service is at fault when something else than a calculation fails. -/
theorem status_responseOf_iff {request : Request} {answer : Except Failure Outcome} :
    (finish request (responseOf answer)).status = 500 ↔
      ∃ failure, answer = .error failure ∧ failure.isClientError = false := by
  cases answer with
  | ok outcome =>
      constructor
      · intro h
        exact nomatch h
      · rintro ⟨failure, h, -⟩
        exact nomatch h
  | error failure =>
      show (if failure.isClientError then 400 else 500) = 500 ↔ _
      cases hclient : failure.isClientError with
      | true =>
          constructor
          · intro h
            exact nomatch h
          · rintro ⟨other, h, hother⟩
            obtain rfl := Except.error.inj h
            exact nomatch hclient.symm.trans hother
      | false => exact ⟨fun _ => ⟨failure, rfl, hclient⟩, fun _ => rfl⟩

/-! ## Calculations -/

/-- A calculation is answered, or the one who asked is told what is wrong. -/
theorem status_ofRequest {request : Request} {read : Except Rejection Abacus.Request}
    (h : Plan.of request = .ofRequest read) (now : Int) (service : Service) :
    (respond now request service).1.status = 200 ∨
      (respond now request service).1.status = 400 := by
  rcases Plan.ofRequest_cases read with ⟨message, hread⟩ | ⟨asked, hread⟩
  · rw [respond_of_reply (h.trans hread)]
    exact Or.inr rfl
  · rw [respond_of_perform (h.trans hread), Service.perform_calculate]
    cases hanswer : asked.calculate with
    | ok found => exact Or.inl rfl
    | error failure =>
        refine Or.inr ?_
        show (if failure.isClientError then 400 else 500) = 400
        rw [Request.isClientError_of_calculate hanswer]
        rfl

/-- What is read from a body and fails is told. -/
theorem tellsError_ofRequest {request : Request} (hmethod : request.method ≠ "HEAD")
    {read : Except Rejection Abacus.Request} (h : Plan.of request = .ofRequest read) (now : Int)
    (service : Service) (hstatus : (respond now request service).1.status ≠ 200) :
    (respond now request service).1.TellsError := by
  rcases Plan.ofRequest_cases read with ⟨message, hread⟩ | ⟨asked, hread⟩
  · rw [respond_of_reply (h.trans hread)]
    exact tellsError_errorResponse hmethod _ _
  · exact tellsError_respond hmethod (h.trans hread) now service hstatus

/-! ## Who is at fault -/

/-- The request is for the history, with one limit at most, and so for this many records. -/
def Request.AsksForHistory (request : Request) (limit : Nat) : Prop :=
  request.IsOn .history ∧ request.limits.length ≤ 1 ∧ limit = Limit.ofText request.limits.head?

/-- The request is for what the store is needed for, and the store fails. -/
inductive Request.FailsIn (request : Request) (now : Int) (store : History.Store) : Prop where
  | history {limit : Nat} {fault : History.Store.Fault} : request.AsksForHistory limit →
      store.recent limit (History.cutoff now) = .error fault → FailsIn request now store
  | cleanup {fault : History.Store.Fault} : request.AsksForCleanup →
      store.cleanup (History.cutoff now) = .error fault → FailsIn request now store

/-- A failure of the service has status 500, on the two routes that need the store. -/
theorem status_respond_iff (now : Int) (request : Request) (service : Service) :
    (respond now request service).1.status = 500 ↔ request.FailsIn now service.store := by
  constructor
  · intro h
    rcases Plan.exists_isOn request with ⟨route, hon⟩ | ⟨response, hplan, hstatus, -⟩
    · have hroute := Plan.of_isOn hon
      cases route with
      | calculate | scientific =>
          rcases status_ofRequest hroute now service with hother | hother
          · exact nomatch hother.symm.trans h
          · exact nomatch hother.symm.trans h
      | history =>
          rcases Nat.lt_or_ge 1 request.limits.length with hlimits | hlimits
          · rw [respond_of_reply (Plan.of_history_of_lt_length hon hlimits)] at h
            exact nomatch h
          · rw [respond_of_perform (Plan.of_history_of_length_le hon hlimits),
              status_responseOf_iff] at h
            obtain ⟨failure, hfailure, -⟩ := h
            obtain ⟨fault, hfault, -⟩ := Service.perform_history_eq_error_iff.mp hfailure
            exact .history ⟨hon, hlimits, rfl⟩ hfault
      | cleanup =>
          rw [respond_of_perform hroute, status_responseOf_iff] at h
          obtain ⟨failure, hfailure, -⟩ := h
          obtain ⟨fault, hfault, -⟩ := Service.perform_cleanup_eq_error_iff.mp hfailure
          exact .cleanup ⟨List.mem_singleton.mp hon.2, hon.1⟩ hfault
      | health =>
          rw [respond_of_reply hroute] at h
          exact nomatch h
    · rw [respond_of_reply hplan] at h
      have hsame : response.status = 500 := h
      rw [hsame] at hstatus
      exact absurd hstatus (by decide)
  · intro h
    cases h with
    | history hasks hfault =>
        obtain ⟨hon, hlimits, rfl⟩ := hasks
        rw [respond_of_perform (Plan.of_history_of_length_le hon hlimits),
          status_responseOf_iff]
        exact ⟨_, Service.perform_history_eq_error_iff.mpr ⟨_, hfault, rfl⟩, rfl⟩
    | cleanup hasks hfault =>
        have hon : request.IsOn .cleanup := ⟨hasks.2, List.mem_singleton.mpr hasks.1⟩
        rw [respond_of_perform (Plan.of_isOn hon), status_responseOf_iff]
        exact ⟨_, Service.perform_cleanup_eq_error_iff.mpr ⟨_, hfault, rfl⟩, rfl⟩

/-- **Every failure has one of the known causes.**  Of an expression the check fails or the
evaluation.  The call of a function fails exactly for the causes of `Request.Fails`, so what the
function would refuse for its value or for its name never comes from the function itself.  A posted
calculation has status 200 or 400, whatever its body is and whatever the store does, and status 500
is that of the two routes to the history, exactly when the store fails. -/
theorem failures_have_causes (now : Int) (service : Service) :
    (∀ text mode failure, (service.calculate (.expression text mode)).1 = .error failure →
        ∃ message, failure = .invalid (.validation message) ∨
          failure = .calculation (.evaluation message)) ∧
      (∀ value operation second failure,
        (service.calculate (.scientific value operation second)).1 = .error failure ↔
          Request.Fails value operation second failure) ∧
      (∀ asked refusal, (service.calculate asked).1 = .error (.scientific refusal) →
        (∀ message, refusal ≠ .validation message) ∧
          ∀ name, refusal ≠ .unsupportedOperation name) ∧
      (∀ request : Request, request.method = "POST" →
        request.path = Route.calculate.path ∨ request.path = Route.scientific.path →
          (respond now request service).1.status = 200 ∨
            (respond now request service).1.status = 400) ∧
      ∀ request : Request, (respond now request service).1.status = 500 ↔
        request.FailsIn now service.store := by
  simp only [Service.fst_calculate]
  refine ⟨?_, ?_, ?_, ?_, ?_⟩
  · intro text mode failure h
    exact Request.exists_of_calculate_expression h
  · intro value operation second failure
    exact Request.calculate_scientific_eq_error_iff
  · intro asked refusal h
    exact Request.not_checked_of_calculate h
  · intro request hmethod hpath
    have hpost : request.method ∈ ["POST"] := List.mem_singleton.mpr hmethod
    rcases hpath with hpath | hpath
    · have hon : request.IsOn .calculate := ⟨hpath, hpost⟩
      exact status_ofRequest (Plan.of_isOn hon) now service
    · have hon : request.IsOn .scientific := ⟨hpath, hpost⟩
      exact status_ofRequest (Plan.of_isOn hon) now service
  · intro request
    exact status_respond_iff now request service

/-! ## Errors as JSON -/

/-- The method by which a route is meant to be asked. -/
def Route.verb : Route → String
  | .calculate | .scientific | .cleanup => "POST"
  | .history | .health => "GET"

/-- A request with the method and the path of a route is on it, and has a body in its answer. -/
theorem Request.isOn_of_verb {request : Request} {route : Route}
    (hmethod : request.method = route.verb) (hpath : request.path = route.path) :
    request.IsOn route ∧ request.method ≠ "HEAD" := by
  rw [IsOn, hmethod, hpath]
  cases route <;> decide

/-- **Every failure on a route is told as JSON, unless it is that of a query with several limits.**
-/
theorem tellsError_iff {route : Route} {request : Request} (hmethod : request.method = route.verb)
    (hpath : request.path = route.path) (now : Int) (service : Service) :
    ((respond now request service).1.status ≠ 200 →
        (respond now request service).1.TellsError) ↔
      ¬ (route = .history ∧ 1 < request.limits.length) := by
  obtain ⟨hon, hbody⟩ := Request.isOn_of_verb hmethod hpath
  have hplan := Plan.of_isOn hon
  cases route with
  | calculate | scientific =>
      exact ⟨(fun _ h => nomatch h.1), fun _ => tellsError_ofRequest hbody hplan now service⟩
  | cleanup =>
      exact ⟨(fun _ h => nomatch h.1), fun _ => tellsError_respond hbody hplan now service⟩
  | health =>
      rw [respond_of_reply hplan]
      exact ⟨(fun _ h => nomatch h.1), fun _ hstatus => absurd rfl hstatus⟩
  | history =>
      rcases Nat.lt_or_ge 1 request.limits.length with hlimits | hlimits
      · rw [respond_of_reply (Plan.of_history_of_lt_length hon hlimits)]
        constructor
        · intro h
          obtain ⟨htype, -⟩ := h (by simp [finish, Response.content])
          exact absurd (Option.some.inj htype) (by decide)
        · intro h
          exact absurd ⟨rfl, hlimits⟩ h
      · have hperform := Plan.of_history_of_length_le hon hlimits
        exact ⟨fun _ h => absurd h.2 (Nat.not_lt.mpr hlimits),
          fun _ => tellsError_respond hbody hperform now service⟩

/-- A look at the history of a store that cannot be opened. -/
theorem tellsError_iff_unavailable :
    let request : Request := ⟨"GET", "/api/history?limit=7&order=asc", [], ""⟩
    let service := Service.start (.unavailable "disk full") Service.defaultCapacity
    request.method = Route.history.verb ∧ request.path = Route.history.path ∧
      (respond 0 request service).1.status = 500 ∧ (respond 0 request service).1.TellsError := by
  intro request service
  have hpath : request.path = Route.history.path := by decide +kernel
  have hstatus : (respond 0 request service).1.status = 500 := by decide +kernel
  have hlimits : request.limits = ["7"] := by decide +kernel
  refine ⟨rfl, hpath, hstatus, (tellsError_iff rfl hpath 0 service).mpr ?_ ?_⟩
  · rw [hlimits]
    decide
  · rw [hstatus]
    decide

/-- A query with two limits is answered with status 400 and plain text. -/
theorem not_tellsError_two_limits :
    let request : Request := ⟨"GET", "/api/history?limit=1&limit=2", [], ""⟩
    let service := Service.start .empty Service.defaultCapacity
    request.method = Route.history.verb ∧ request.path = Route.history.path ∧
      (respond 0 request service).1.status = 400 ∧
        ¬ (respond 0 request service).1.TellsError := by
  intro request service
  refine ⟨rfl, by decide +kernel, by decide +kernel, ?_⟩
  rintro ⟨htype, -⟩
  have hplain : (respond 0 request service).1.contentType = some "text/plain; charset=utf-8" := by
    decide +kernel
  rw [hplain] at htype
  exact absurd (Option.some.inj htype) (by decide)

end Abacus.Http
