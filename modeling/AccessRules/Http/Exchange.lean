import AccessRules.Http.Address
import AccessRules.Http.Body

/-!
# Requests and responses

What is sent to a server on the web and what comes back.  All requests here ask for a document in
JSON.  An `Answer` is what the web library makes of what comes back: a response, or the reason why
there was none; or it breaks down with a failure that is none of its own.  A response holds the body
both as text and as the document the library reads in it.
-/

namespace AccessRules.Http

/-- A request for the document at an address. -/
structure Request where
  address : Address
  /-- who asks, in the words of the server -/
  authorization : Option String
  deriving DecidableEq, Repr

namespace Request

/-- The only method that is used. -/
def method : String := "GET"

/-- The format that is asked for. -/
def accept : String := "application/json"

/-- Who sends the requests. -/
def userAgent : String := "acl-api-http-client/1.0"

/-- The address as text. -/
def url (r : Request) : String := r.address.text

/-- What is asked for. -/
def target (r : Request) : String := String.ofList r.address.target

end Request

/-- What a server sends back. -/
structure Response where
  status : Int
  headers : List (String × String)
  body : String
  content : Except Misread Value

namespace Response

/-- The response with a text for its body. -/
def ofText (status : Int) (headers : List (String × String)) (body : String) : Response :=
  ⟨status, headers, body, readBody body⟩

/-- Whether a server did what it was asked: it answered with success or with a redirection, which is
not followed. -/
def isSuccess (r : Response) : Bool := 200 ≤ r.status && r.status < 400

/-- The value of a header, whose name is compared without regard to case; the values of repeated
headers are joined. -/
def header (r : Response) (name : String) : String :=
  ", ".intercalate ((r.headers.filter fun h => h.1.toLower == name.toLower).map Prod.snd)

/-- The header that names another address to ask. -/
def locationHeader : String := "Location"

/-- The statuses of responses that send one on to another address. -/
def redirections : List Int := [301, 302, 303, 307, 308]

/-- What is wrong with the address a response sends one on to.  The address is read, though nothing
is asked there. -/
def locationFlaw? (r : Response) : Option Flaw :=
  if redirections.contains r.status &&
      r.headers.any fun h => h.1.toLower == locationHeader.toLower then
    match Address.parse (r.header locationHeader) with
    | .ok _ => none
    | .error flaw => some flaw
  else none

end Response

/-- What the web library makes of what comes back. -/
inductive Answer where
  | response (r : Response)
  /-- there was no response -/
  | failed (reason : String)
  /-- the library broke down, with a failure of some kind -/
  | breakdown (kind message : String)

/-- An answer once the address is read that it may send one on to. -/
def Answer.read : Answer → Answer
  | .response r =>
    match r.locationFlaw? with
    | some flaw => .failed ("Invalid URL in location header: " ++ flaw.message ++ ".")
    | none => .response r
  | answer => answer

/-- A server: its answer to a request after the requests before it, the oldest first. -/
abbrev Server := List Request → Request → Answer

/-- A server whose answers depend on nothing but what is asked for. -/
def Server.steady (answer : String → Answer) : Server := fun _ r => answer r.target

/-- The response to what a server does not know. -/
def Response.unknown : Response := .ofText 404 [] "not found"

/-- Answers by what is asked for, those of one target being used one by one and the last of them
from then on. -/
abbrev Routes := List (String × List Answer)

/-- The server that follows routes. -/
def Server.ofRoutes (routes : Routes) : Server := fun earlier r =>
  match routes.lookup r.target with
  | some (first :: rest) =>
    let answers := first :: rest
    answers.getD (earlier.countP (·.target == r.target)) (answers.getLastD first)
  | _ => .response .unknown

/-- The answer to a request: only the schemes of the web have servers. -/
def Server.handle (server : Server) (earlier : List Request) (r : Request) : Answer :=
  let scheme := String.ofList r.address.scheme
  if scheme = "http" || scheme = "https" then (server earlier r).read
  else if scheme.isEmpty then
    .failed "Request URL is missing an 'http://' or 'https://' protocol."
  else .failed ("Request URL has an unsupported protocol '" ++ scheme ++ "://'.")

end AccessRules.Http
