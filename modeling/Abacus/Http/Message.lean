import Abacus.Text.Basic
import Abacus.Text.Utf8

/-!
# Messages — requests and responses

What of the protocol the service looks at, and what it answers with.  Bodies are texts: one whose
bytes are not UTF-8 cannot be stated here.

The query of a request is a form.  Its pairs are separated by ampersands, and a name ends at the
first equals sign.  A plus sign stands for a blank, and a percent sign with two hexadecimal digits
for a byte.
-/

namespace Abacus.Http

/-- A request. -/
structure Request where
  method : String
  /-- The path, the query, and what follows them. -/
  target : String
  headers : List (String × String)
  body : String
  deriving DecidableEq

/-- A response; a header that is absent is not sent. -/
structure Response where
  status : Nat
  contentType : Option String
  allow : Option String
  allowOrigin : Option String
  body : String
  deriving DecidableEq

namespace Request

/-- A header by its name in lower case; names are sent in any letter case. -/
def header? (request : Request) (name : String) : Option String :=
  (request.headers.find? fun header => header.1.toList.map Char.toLower == name.toList).map (·.2)

/-- The target without the host in front of the path, if one is there. -/
def localTarget (request : Request) : List Char :=
  let scheme := request.target.toList.takeWhile fun c => c != ':' && c != '/'
  match request.target.toList.drop scheme.length with
  | ':' :: '/' :: '/' :: rest =>
      rest.dropWhile fun c => c != '/' && c != '?' && c != '#'
  | _ => request.target.toList

/-- The path of the target. -/
def path (request : Request) : String :=
  match request.localTarget.takeWhile fun c => c != '?' && c != '#' with
  | [] => "/"
  | path => String.ofList path

/-- The query of the target, without what follows it; empty if there is none. -/
def query (request : Request) : List Char :=
  match (request.localTarget.takeWhile (· != '#')).dropWhile (· != '?') with
  | _ :: query => query
  | [] => []

end Request

namespace Response

/-- The media type of JSON. -/
def json : String := "application/json"

/-- The media type of text. -/
def plainText : String := "text/plain; charset=utf-8"

/-- A response with a body. -/
def content (status : Nat) (contentType body : String) : Response :=
  ⟨status, some contentType, none, none, body⟩

/-- A response without a body; `allow` lists the methods that are allowed. -/
def bare (status : Nat) (allow : Option String) : Response :=
  ⟨status, none, allow, none, ""⟩

end Response

end Abacus.Http

/-! ## The names and values of a query -/

namespace Abacus.Http.Form

/-- The byte that two hexadecimal digits stand for. -/
def byte? (high low : Char) : Option UInt8 := do
  return UInt8.ofNat (16 * (← Text.hexValue? high) + (← Text.hexValue? low))

/-- The bytes that a name or a value stands for. -/
def bytes : List Char → List UInt8
  | [] => []
  | '+' :: rest => 0x20 :: bytes rest
  | '%' :: high :: low :: rest =>
      match byte? high low with
      | some byte => byte :: bytes rest
      | none => 0x25 :: bytes (high :: low :: rest)
  | c :: rest => String.utf8EncodeChar c ++ bytes rest

/-- The text that a name or a value stands for. -/
def text (written : List Char) : String :=
  String.ofList (Text.decodeUtf8 (bytes written))

/-- A name with its value; the value is empty if there is no equals sign. -/
def pair (written : List Char) : String × String :=
  (text (written.takeWhile (· != '=')), text ((written.dropWhile (· != '=')).drop 1))

/-- The pairs of a query. -/
def pairs (query : List Char) : List (String × String) :=
  ((Text.pieces '&' query).filter fun piece => !piece.isEmpty).map pair

end Abacus.Http.Form
