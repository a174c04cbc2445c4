import Abacus.Http.Body
import Abacus.Wire.Encoding

/-!
# Router — from a request to a response

A path is known exactly as it stands.  Each route has one method; a route that is read can also be
asked for its headers alone.  A request either asks the service to do something or is answered at
once.  Any page may use the service, and may ask with any method whether it may.
-/

namespace Abacus.Http

open Json (Value)

/-! ## Routes -/

/-- What a path leads to. -/
inductive Route where
  | calculate
  | scientific
  | history
  | cleanup
  | health
  deriving DecidableEq

namespace Route

/-- All routes. -/
def all : List Route :=
  [.calculate, .scientific, .history, .cleanup, .health]

/-- The path of a route. -/
def path : Route → String
  | .calculate => "/api/calculate"
  | .scientific => "/api/calculate/scientific"
  | .history => "/api/history"
  | .cleanup => "/api/history/cleanup"
  | .health => "/health"

/-- The route with the given path. -/
def ofPath? (path : String) : Option Route :=
  all.find? fun route => route.path == path

/-- The methods of a route. -/
def methods : Route → List String
  | .calculate | .scientific | .cleanup => ["POST"]
  | .history | .health => ["GET", "HEAD"]

/-- The methods of a route, as they are listed to a client. -/
def allow (route : Route) : String :=
  ",".intercalate route.methods

/-- Every route is found under its own path. -/
theorem ofPath?_path (route : Route) : ofPath? route.path = some route := by
  cases route <;> decide

end Route

/-! ## Answers -/

/-- A response whose body is JSON. -/
def jsonResponse (status : Nat) (value : Value) : Response :=
  .content status Response.json value.compact

/-- A response that tells of an error. -/
def errorResponse (status : Nat) (message : String) : Response :=
  jsonResponse status (.object [("error", .text message)])

/-- What comes of a request. -/
inductive Plan where
  | reply (response : Response)
  | perform (command : Command)

namespace Plan

/-- Do what is asked for, or reject it. -/
def ofRequest (request : Except Rejection Abacus.Request) : Plan :=
  match request with
  | .ok request => .perform (.calculate request)
  | .error rejection => .reply (errorResponse 400 rejection.message)

/-- Show the history, as many records as the query asks for.  A query that asks twice is not
understood. -/
def history (query : List Char) : Plan :=
  match (Form.pairs query).filter fun pair => pair.1 == "limit" with
  | [] => .perform (.history (Limit.ofText none))
  | [(_, limit)] => .perform (.history (Limit.ofText (some limit)))
  | _ => .reply (.content 400 Response.plainText
      "Failed to deserialize query string: duplicate field \x60limit\x60")

/-- What comes of a request on a known path with the right method. -/
def ofRoute (route : Route) (request : Request) : Plan :=
  match route with
  | .calculate => ofRequest (readBody ExpressionBody.decoder request >>= ExpressionBody.request)
  | .scientific => ofRequest (readBody ScientificBody.decoder request >>= ScientificBody.request)
  | .history => history request.query
  | .cleanup => .perform .cleanup
  | .health => .reply (jsonResponse 200 (.object [("status", .text "ok")]))

/-- What comes of a request. -/
def of (request : Request) : Plan :=
  let route := Route.ofPath? request.path
  if request.method == "OPTIONS" then .reply (.bare 200 (route.map Route.allow))
  else
    match route with
    | none => .reply (.bare 404 none)
    | some route =>
        if route.methods.contains request.method then ofRoute route request
        else .reply (.bare 405 (some route.allow))

end Plan

/-- What the service says, as a response. -/
def responseOf (answer : Except Failure Outcome) : Response :=
  match answer with
  | .ok outcome => jsonResponse 200 outcome.toJson
  | .error failure => errorResponse (if failure.isClientError then 400 else 500) failure.message

/-- The response as it is sent: any page may read it, and a request for the headers alone gets no
body. -/
def finish (request : Request) (response : Response) : Response :=
  { response with
    allowOrigin := some "*"
    body := if request.method == "HEAD" then "" else response.body }

/-- The body is sent unless the request is for the headers alone. -/
theorem body_finish {request : Request} (h : request.method ≠ "HEAD") (response : Response) :
    (finish request response).body = response.body :=
  if_neg fun hhead => h (beq_iff_eq.mp hhead)

/-- Answer a request at the given time. -/
def respond (now : Int) (request : Request) (service : Service) : Response × Service :=
  match Plan.of request with
  | .reply response => (finish request response, service)
  | .perform command =>
      let (answer, next) := service.perform now command
      (finish request (responseOf answer), next)

end Abacus.Http
