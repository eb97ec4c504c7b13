import ModalGraph.Failure.Basic
import ModalGraph.Patience
import ModalGraph.Service.Head
import ModalGraph.Text.Blank
import ModalGraph.Text.Json

/-!
# Requests and responses

What the service takes and gives, the ways in which a request can be at fault before any formula is looked at, and the reading of
request bodies. A body longer than the limit is refused, and so is one that breaks off before; a limit that is not positive is none.
-/

namespace ModalGraph

/-- A request. -/
structure Request extends Head where
  body : Bytes
  /-- How long the caller waits, who may leave or run out of time. -/
  patience : Patience := .endless
  /-- Whether the body breaks off, so that no more of it can be read. -/
  broken : Bool := false

/-- The path that a request asks for. -/
def Request.path (r : Request) : String :=
  r.target.path

/-- A response. The run id is that of the request's work, if it got one. -/
structure Response where
  status : Nat
  headers : List (String × String)
  body : Bytes
  runId : Option Nat

/-- The value of a header, empty if it is missing. -/
def Request.header (r : Request) (name : String) : String :=
  ((r.headers.find? fun h => sameHeader h.1 name).map Prod.snd).getD ""

/-- How a request can be at fault. -/
inductive RequestFault where
  | unknownPath
  | wrongMethod
  | contentType
  | unreadable
  | tooLarge
  | invalidJson
  | formulaMissing
  | graphsMissing
deriving DecidableEq, Repr

namespace RequestFault

/-- The status of the response. -/
def status : RequestFault → Nat
  | .unknownPath => 404
  | .wrongMethod => 405
  | .tooLarge => 413
  | _ => 400

/-- The wording of a fault. -/
def message : RequestFault → String
  | .unknownPath => "not found"
  | .wrongMethod => "method not allowed"
  | .contentType => "unsupported Content-Type"
  | .unreadable => "failed to read body"
  | .tooLarge => "body too large"
  | .invalidJson => "invalid JSON"
  | .formulaMissing => "missing 'formula'"
  | .graphsMissing => "missing 'graphs'"

end RequestFault

/-! ## Bodies -/

/-- Whether a body of a content type is read. -/
def acceptsContentType (contentType : String) : Bool :=
  contentType.isEmpty || contentType == "application/json" || contentType.startsWith "application/json;"

/-- How much of a body is read under a limit: one byte more than the limit allows, with the limit counted in words of 64 bits. The
greatest limit has no successor there, and nothing is read. -/
def readingBound (limit : Int) : Nat :=
  (Int.bmod (limit + 1) (Nat.pow 2 64)).toNat

/-- A body as far as it is read under a limit. -/
def readUpTo (limit : Int) (body : Bytes) : Bytes :=
  body.take (readingBound limit)

/-- The body of a request under a limit. -/
def readBody (limit : Int) (contentType : String) (body : Bytes) : Except RequestFault Bytes :=
  if !acceptsContentType contentType then .error .contentType
  else if limit ≤ 0 then .ok body
  else
    let read := readUpTo limit body
    if limit < read.length then .error .tooLarge else .ok read

/-- The body of a request, read under a limit. It does not matter that a body breaks off if the limit ends the reading before. -/
def Request.receive (r : Request) (limit : Int) : Except RequestFault Bytes :=
  let contentType := r.header "Content-Type"
  if r.broken && acceptsContentType contentType && (limit ≤ 0 || r.body.length < readingBound limit) then .error .unreadable
  else readBody limit contentType r.body

/-- What a request asks for: the text of a formula, and graphs if they are given. -/
structure Query where
  formula : String := ""
  graphs : Option Json := none

/-- A query with one more member. -/
def Query.member? (q : Query) (m : String × Json) : Option Query :=
  if Json.sameName m.1 "formula" then
    match m.2 with
    | .null => some q
    | .str s => some { q with formula := s }
    | _ => none
  else if Json.sameName m.1 "graphs" then some { q with graphs := some m.2 }
  else some q

/-- The query of a body. A null is an empty query, and of members with one name the last counts. -/
def Query.parse? (body : Bytes) : Option Query :=
  match Json.parse? body.toText with
  | some (.obj members) => members.foldlM Query.member? {}
  | some .null => some {}
  | _ => none

/-- The query of a body, with a formula. -/
def Query.ofBody (body : Bytes) : Except RequestFault Query :=
  match Query.parse? body with
  | none => .error .invalidJson
  | some q => if q.formula.isEmpty then .error .formulaMissing else .ok q

/-! ## Preferences -/

/-- The media type of the binary form of tensors. -/
def binaryMediaType : String := "application/x-protobuf"

/-- Whether a list of acceptable media types names the binary form. -/
def acceptsBinary (accept : String) : Bool :=
  (accept.splitOn ",").any fun part => (Text.trimString part).startsWith binaryMediaType

end ModalGraph
