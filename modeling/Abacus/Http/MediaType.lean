/-!
# Media types — is a body said to be JSON

A media type is a type and a subtype, and parameters after semicolons.  The subtype may name a
format after its last plus sign.  A text that does not have this form says nothing, nor does one
with a character that is neither visible in ASCII nor a blank or a tabulator.
-/

namespace Abacus.Http.MediaType

/-- The character may stand in a header that is read as a text. -/
def isVisible (c : Char) : Bool :=
  ' ' ≤ c && c ≤ '~' || c == '\t'

/-- The character may stand in a name. -/
def isToken (c : Char) : Bool :=
  c.isAlphanum || "!#$%&'*+-.^_\x60|~".toList.contains c

/-- The character may stand between quotation marks. -/
def isQuoted (c : Char) : Bool :=
  ' ' ≤ c && c != '\x7f'

/-- Where in the parameters a reader is. -/
inductive Place where
  | beforeName
  | name
  | beforeValue
  | value
  | opened
  | quoted
  | closed
  deriving DecidableEq

/-- The place after a character, if it may stand here. -/
def Place.next (place : Place) (c : Char) : Option Place :=
  match place with
  | .beforeName => if c == ' ' then some .beforeName else if isToken c then some .name else none
  | .name => if c == '=' then some .beforeValue else if isToken c then some .name else none
  | .beforeValue => if c == '"' then some .opened else if isToken c then some .value else none
  | .value => if c == ';' then some .beforeName else if isToken c then some .value else none
  | .opened => if isQuoted c then some .quoted else none
  | .quoted => if c == '"' then some .closed else if isQuoted c then some .quoted else none
  | .closed => if c == ';' then some .beforeName else if c == ' ' then some .closed else none

/-- The parameters may end here. -/
def Place.isLast : Place → Bool
  | .beforeName | .beforeValue | .value | .closed => true
  | .name | .opened | .quoted => false

/-- The parameters are well-formed. -/
def parametersAreValid (text : List Char) : Bool :=
  (text.foldlM Place.next Place.beforeName).any Place.isLast

/-- What follows the last plus sign of a subtype, unless the subtype begins with it. -/
def format? (subtype : List Char) : Option (List Char) :=
  let format := (subtype.reverse.takeWhile (· != '+')).reverse
  if format.length + 1 < subtype.length then some format else none

/-- The subtype up to its last plus sign, unless it begins with it. -/
def base (subtype : List Char) : List Char :=
  match format? subtype with
  | some format => subtype.take (subtype.length - format.length - 1)
  | none => subtype

/-- The media type is that of JSON, or of a format that is written in JSON. -/
def isJson (mediaType : String) : Bool :=
  mediaType.toList.all isVisible &&
  let text := mediaType.toList.map Char.toLower
  match text.dropWhile isToken with
  | '/' :: rest =>
      let subtype := rest.takeWhile isToken
      let isWellFormed := match rest.dropWhile isToken with
        | [] => true
        | ';' :: parameters => !subtype.isEmpty && parametersAreValid parameters
        | _ => false
      text.takeWhile isToken == "application".toList && isWellFormed &&
        (base subtype == "json".toList || format? subtype == some "json".toList)
  | _ => false

end Abacus.Http.MediaType
