import ItexDemo.Http.Stream

/-!
# The request loop of `http::Connection::start`

The coroutine reads from the socket until the parser has a complete request, calls the request
handler and writes the response. The reads are a list of byte strings; when they are used up the
coroutine waits for more. The socket stays open and the writes succeed.
-/

namespace Http.Connection

/-- `\r\n`. -/
def crlf : Str := ['\r', '\n']

/-- The decimal digits, `std::to_string`. -/
def digits (n : Nat) : Str := Nat.toDigits 10 n

/-- The name of the header that `start` adds. -/
def contentLength : Str := "Content-Length".toList

/-- The status line and the headers of a response, up to the empty line. -/
def encodeHead (status : Str) (response : Response) : Str :=
  "HTTP/1.1 ".toList ++ status ++ crlf ++
    response.headers_.flatMap (fun header => header.1 ++ ": ".toList ++ header.2 ++ crlf) ++
    contentLength ++ ": ".toList ++ digits response.body_.length ++ crlf ++ crlf

/-- What `start` writes for a response; `none` when `status_code_to_sting.at` throws. -/
def encodeResponse (response : Response) : Option Str :=
  (AssocMap.find statusCodeToSting response.status_code_).map fun status =>
    encodeHead status response ++ response.body_

/-- What `process_request` does. -/
inductive Answer where
  | returns (response : Response)
  | throws (what : Str)
  /-- It returns after the timeout, and `check_timeout_occurred` throws. -/
  | timesOut (response : Response)

/-- The response after the `try` around `process_request`. -/
def Answer.response : Answer → Response
  | returns response => response
  | throws what =>
    { Response.cleared with status_code_ := .code500InternalServerError, body_ := what }
  | timesOut response =>
    { response with
      status_code_ := .code500InternalServerError
      body_ := "HTTP: Processing timeout".toList }

/-- A call of the request handler: the bytes that the parser used for it, and the request. -/
structure Call where
  bytes : Str
  request : Request
  deriving DecidableEq

variable {σ : Type} (lib : HttpParser σ)

/-- How the inner loop ends: with a complete request and the reads that are left, waiting for a
read, or with an exception or at what is not defined. -/
inductive ReadResult (σ : Type) where
  | complete (p : Parser σ) (bytes : Str) (rest : List Str)
  | waiting
  | threw

/-- The inner loop. What `feed` does not use of a read is not used at all. -/
def readRequest (p : Parser σ) (bytes : Str) : List Str → ReadResult σ
  | [] => if p.parsing_complete_ then .complete p bytes [] else .waiting
  | data :: rest =>
    if p.parsing_complete_ then .complete p bytes (data :: rest)
    else
      match p.feed lib data with
      | .error _ => .threw
      | .ok (p, used) => readRequest p (bytes ++ data.take used) rest

/-- `parser.clear()` and `request.clear()`. -/
def restart (p : Parser σ) : Parser σ := { p.clear lib with message_ := p.message_.clear }

/-- The calls of the handler and what is written. -/
structure Served where
  calls : List Call
  written : List Str

/-- The request loop. The handler sees the requests so far, the current one last. A round uses at
least one read. -/
def serve (handler : List Request → Answer) (requests : List Request) (p : Parser σ) :
    Nat → List Str → Served
  | 0, _ => { calls := [], written := [] }
  | rounds + 1, reads =>
    match readRequest lib (restart lib p) [] reads with
    | .complete p bytes rest =>
      match p.message_ with
      | .request request =>
        let call : Call := { bytes := bytes, request := request }
        match encodeResponse (handler (requests ++ [request])).response with
        | none => { calls := [call], written := [] }
        | some text =>
          if request.connectionClose then { calls := [call], written := [text] }
          else
            let served := serve handler (requests ++ [request]) p rounds rest
            { calls := call :: served.calls, written := text :: served.written }
      | .response _ => { calls := [], written := [] }
    | _ => { calls := [], written := [] }

/-- The coroutine of `start`. -/
def start (handler : List Request → Answer) (reads : List Str) : Served :=
  serve lib handler [] (Parser.new lib (.request Request.cleared)) (reads.length + 1) reads

/-! ## Requests sent back to back -/

/-- The bytes are one request, which does not ask to close the connection. -/
structure WellFormed (bytes : Str) : Prop where
  complete : (lib.scan (lib.init .request) bytes).outcome = .complete
  whole : (lib.scan (lib.init .request) bytes).used = bytes.length
  keepsOpen : ∀ flags, .messageComplete flags ∈ (lib.scan (lib.init .request) bytes).events →
    flags.testBit 2 = false

/-- The request that one call of `feed` makes of the bytes. -/
def parsed (bytes : Str) : Option Request :=
  match observe ((Parser.new lib (.request Request.cleared)).feedAll lib [bytes]) with
  | some (true, .request request) => some request
  | _ => none

/-- The handler was called with the request of these bytes, parsed from exactly them. -/
def CallFor (bytes : Str) (call : Call) : Prop :=
  call.bytes = bytes ∧ parsed lib bytes = some call.request

/-- The reads that make up a request have its URL in one piece, and `on_url` accepts it. -/
def UrlWhole (reads : List Str) : Prop :=
  (urlFragments lib (lib.init .request) reads).length ≤ 1 ∧
    ∀ url ∈ urlFragments lib (lib.init .request) reads, ¬UrlRejected lib url

/-- The body does not come in chunks. -/
def Unchunked (bytes : Str) : Prop := ¬Chunked (lib.scan (lib.init .request) bytes).events

/-- Every request ends where a read ends, no URL is cut or rejected, and there are no chunks. -/
def ReadsApart (requests reads : List Str) : Prop :=
  ∃ groups : List (List Str), groups.flatten = reads ∧
    List.Forall₂ (fun bytes group => group.flatten = bytes ∧ UrlWhole lib group ∧
      Unchunked lib bytes) requests groups

/-- The responses to all requests but the last have a status code of the table. -/
def StatusKnown (handler : List Request → Answer) (before : List Request) (requests : List Str) :
    Prop :=
  ∀ k, 0 < k → k < requests.length →
    (handler (before ++ (requests.take k).filterMap (parsed lib))).response.status_code_ ≠ .unknown

end Http.Connection
