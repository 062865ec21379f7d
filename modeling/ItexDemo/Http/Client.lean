import ItexDemo.Http.Connection
import ItexDemo.Http.Stream

/-!
# A client that reads responses

The loop of `http-hammer`: one `Parser` with one `Response`, cleared for every message. The bytes of
a read that `feed` leaves are fed again.
-/

namespace Http.Client

variable {σ : Type} (lib : HttpParser σ)

/-- The responses that have been read, and the bytes of one that is not complete; `none` after an
exception. -/
structure Received where
  responses : List Response
  rest : Option Str
  deriving DecidableEq

/-- A response was read before the others. -/
def Received.cons (response : Response) (received : Received) : Received :=
  { received with responses := response :: received.responses }

/-- The loop over the reads. `bytes` are those of the response that is being read. A round uses up a
read or a byte, see `receive_response`. -/
def receive (p : Parser σ) (bytes : Str) : Nat → List Str → Received
  | 0, _ => { responses := [], rest := none }
  | _ + 1, [] => { responses := [], rest := some bytes }
  | rounds + 1, data :: reads =>
    match p.feed lib data with
    | .error _ => { responses := [], rest := none }
    | .ok (p, used) =>
      if p.parsing_complete_ then
        match p.message_ with
        | .response response =>
          (receive (Connection.restart lib p) [] rounds (data.drop used :: reads)).cons response
        | .request _ => { responses := [], rest := none }
      else receive p (bytes ++ data) rounds reads

/-- An upper bound of the rounds for these reads. -/
def size (reads : List Str) : Nat := reads.flatten.length + reads.length

/-- The whole run of the client. -/
def run (reads : List Str) : Received :=
  receive lib (Parser.new lib (.response Response.cleared)) [] (size reads + 1) reads

/-! ## What a response on the wire is -/

/-- The characters of a token. -/
def isToken (c : Char) : Bool := c.isAlphanum || c ∈ "!#$%&'*+-.^_`|~".toList

/-- A blank. -/
def isBlank (c : Char) : Bool := c = ' ' || c = '\t'

/-- Responses that a handler may return: a status of the table, and headers of a map with tokens as
names and one-line values. -/
structure Sendable (response : Response) : Prop where
  status : response.status_code_ ≠ .unknown
  names : ∀ header ∈ response.headers_, header.1 ≠ [] ∧ header.1.all isToken = true
  framing : ∀ header ∈ response.headers_,
    header.1.map Char.toLower ≠ "content-length".toList ∧
      header.1.map Char.toLower ≠ "transfer-encoding".toList
  distinct : (response.headers_.map Prod.fst).Nodup
  lines : ∀ header ∈ response.headers_, '\r' ∉ header.2 ∧ '\n' ∉ header.2
  trimmed : ∀ header ∈ response.headers_,
    header.2.head?.any isBlank = false ∧ header.2.getLast?.any isBlank = false

/-- The events of a header line. -/
def headerEvents (header : Str × Str) : List Callback :=
  (Callback.data .headerField header.1).atoms ++ (Callback.data .headerValue header.2).atoms

/-- The headers that are sent. -/
def sentHeaders (response : Response) : List (Str × Str) :=
  response.headers_ ++ [(Connection.contentLength, Connection.digits response.body_.length)]

/-- The events of a response, with `body` as far as it belongs to the message. -/
def responseEvents (num : Nat) (reason : Str) (response : Response) (body : Str) (flags : Nat) :
    List Callback :=
  [.messageBegin] ++ (Callback.data (.status num) reason).atoms ++
    (sentHeaders response).flatMap headerEvents ++ [.headersComplete] ++
    (Callback.data .body body).atoms ++ [.messageComplete flags]

/-- The body as it is framed: there is none when the status code says so. -/
def framedBody (noBody : StatusCode → Bool) (response : Response) : Str :=
  if noBody response.status_code_ then [] else response.body_

/-- The library frames the response as RFC 7230 has it and makes its callbacks. -/
def Frames (noBody : StatusCode → Bool) (response : Response) : Prop :=
  ∀ row ∈ httpStatusCodeMap, row.2.1 = response.status_code_ → ∃ flags,
    let bytes := Connection.encodeHead row.2.2.toList response ++ framedBody noBody response
    lib.scan (lib.init .response) bytes =
      { events := responseEvents row.1 (row.2.2.toList.drop 4) response
          (framedBody noBody response) flags
        used := bytes.length
        outcome := .complete }

/-- The status codes 1xx, 204 and 304, whose responses have no body. -/
def noBody (code : StatusCode) : Bool :=
  (numToStatusCode.any fun row => row.2 = code && row.1 < 200) || code = .code204NoContent ||
    code = .code304NotModified

/-- The response that was read is the one that was sent, with `Content-Length`. -/
structure Same (sent received : Response) : Prop where
  status : received.status_code_ = sent.status_code_
  headers : ∀ name, AssocMap.find received.headers_ name =
    AssocMap.find (AssocMap.assign sent.headers_ Connection.contentLength
      (Connection.digits sent.body_.length)) name
  body : received.body_ = sent.body_

/-- The client reads the responses that were sent, and no byte is left over. -/
def RoundTrip (responses : List Response) (reads : List Str) : Prop :=
  List.Forall₂ Same responses (run lib reads).responses ∧ (run lib reads).rest = some []

/-- No header value is empty, and there is no body where there must not be one. -/
def Plain (noBody : StatusCode → Bool) (response : Response) : Prop :=
  (∀ header ∈ response.headers_, header.2 ≠ []) ∧
    (noBody response.status_code_ = true → response.body_ = [])

end Http.Client
