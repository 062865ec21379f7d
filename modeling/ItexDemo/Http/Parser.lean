import ItexDemo.Http.Message

/-!
# `http::Parser`

The callbacks write to the message; `feed` runs `http_parser_execute` until the data is used up or
the message is complete.
-/

namespace Http

/-- The fields of `Parser` that the callbacks work on. -/
structure ParserFields where
  message_ : AnyMessage
  /-- header field, value -/
  current_header_ : Str × Str
  parsing_complete_ : Bool
  headers_parsing_complete_ : Bool
  deriving DecidableEq

/-- `Parser`, with the state and `http_errno` of its `http_parser`. -/
structure Parser (σ : Type) extends ParserFields where
  parser_ : σ
  http_errno : Errno

namespace ParserFields

/-- `on_message_begin`. -/
def onMessageBegin (p : ParserFields) : ParserFields :=
  { p with parsing_complete_ := false, headers_parsing_complete_ := false }

/-- `on_url`. It is set for requests only. -/
def onUrl {σ : Type} (lib : HttpParser σ) (p : ParserFields) (method : Nat) (data : Str) :
    Except Exception ParserFields :=
  match p.message_ with
  | .request req => do
    let url ← Url.ofString lib data
    match AssocMap.find methodMap method with
    | some m => .ok { p with message_ := .request { req with url_ := url, method_ := m } }
    | none => .error .outOfRange
  | .response _ => .ok p

/-- `on_status`. It is set for responses only. -/
def onStatus (p : ParserFields) (statusCode : Nat) : Except Exception ParserFields :=
  match p.message_ with
  | .response res =>
    match AssocMap.find numToStatusCode statusCode with
    | some code => .ok { p with message_ := .response { res with status_code_ := code } }
    | none => .error .outOfRange
  | .request _ => .ok p

/-- The test at the start of `on_header_field` and `on_headers_complete`, which stores a header that
has a value. -/
def storeCurrentHeader (p : ParserFields) : ParserFields :=
  if p.current_header_.2 = [] then p
  else
    { p with
      message_ := p.message_.setBase { p.message_.base with
        headers_ := AssocMap.assign p.message_.base.headers_ p.current_header_.1
          p.current_header_.2 }
      current_header_ := ([], []) }

/-- `on_header_field`. -/
def onHeaderField (p : ParserFields) (data : Str) : ParserFields :=
  let p := p.storeCurrentHeader
  { p with current_header_ := (p.current_header_.1 ++ data, p.current_header_.2) }

/-- `on_header_value`. -/
def onHeaderValue (p : ParserFields) (data : Str) : ParserFields :=
  { p with current_header_ := (p.current_header_.1, p.current_header_.2 ++ data) }

/-- `on_headers_complete`. The pause is the one of `HttpParser.run`. -/
def onHeadersComplete (p : ParserFields) : ParserFields :=
  { p.storeCurrentHeader with headers_parsing_complete_ := true }

/-- `on_body`. -/
def onBody (p : ParserFields) (data : Str) : ParserFields :=
  { p with
    message_ := p.message_.setBase { p.message_.base with body_ := p.message_.base.body_ ++ data } }

/-- `on_message_complete`. The pause is the one of `HttpParser.run`. -/
def onMessageComplete (p : ParserFields) (flags : Nat) : ParserFields :=
  { p with
    message_ := p.message_.setBase { p.message_.base with flags_ := flags }
    parsing_complete_ := true }

/-- A callback of `settings_`. The constructor allocates the table and sets neither `on_chunk_header`
nor `on_chunk_complete`. -/
def callback {σ : Type} (lib : HttpParser σ) (p : ParserFields) : Callback →
    Except Exception ParserFields
  | .messageBegin => .ok p.onMessageBegin
  | .data (.url method) data => p.onUrl lib method data
  | .data (.status statusCode) _ => p.onStatus statusCode
  | .data .headerField data => .ok (p.onHeaderField data)
  | .data .headerValue data => .ok (p.onHeaderValue data)
  | .data .body data => .ok (p.onBody data)
  | .headersComplete => .ok p.onHeadersComplete
  | .chunk _ => .error .undefined
  | .messageComplete flags => .ok (p.onMessageComplete flags)

/-- The callbacks of a run, in order. An exception goes through `http_parser_execute`. -/
def callbacks {σ : Type} (lib : HttpParser σ) (p : ParserFields) :
    List Callback → Except Exception ParserFields
  | [] => .ok p
  | cb :: cbs => do
    let p ← p.callback lib cb
    p.callbacks lib cbs

end ParserFields

namespace Parser

variable {σ : Type} (lib : HttpParser σ)

/-- `Parser(Message* msg)`. -/
def new (msg : AnyMessage) : Parser σ where
  message_ := msg
  current_header_ := ([], [])
  parsing_complete_ := false
  headers_parsing_complete_ := false
  parser_ := lib.init msg.type
  http_errno := .ok

/-- `clear`. -/
def clear (p : Parser σ) : Parser σ where
  message_ := p.message_
  current_header_ := ([], [])
  parsing_complete_ := false
  headers_parsing_complete_ := false
  parser_ := lib.init p.message_.type
  http_errno := .ok

/-- A call of `http_parser_execute` with the callbacks it makes: the parser after it, and the number
of bytes used. -/
def execute (p : Parser σ) (data : Str) : Except Exception (Parser σ × Nat) := do
  let r := lib.execute p.parser_ p.http_errno data
  let fields ← p.toParserFields.callbacks lib r.callbacks
  .ok ({ toParserFields := fields, parser_ := r.state, http_errno := r.errno }, r.used)

/-- `feed_step`. -/
def feedStep (p : Parser σ) (data : Str) : Except Exception (Parser σ × Nat) := do
  let (p, used) ← p.execute lib data
  let error := p.http_errno
  -- unpaused for the next call
  let p := if error = .paused then { p with http_errno := .ok } else p
  if used < data.length then
    if error = .paused then
      if p.parsing_complete_ then .ok (p, used)
      else
        -- the byte that triggered the pause after the headers
        let (p, used') ← p.execute lib ((data.drop used).take 1)
        .ok (p, used + used')
    else .error (.parsing error)
  else .ok (p, used)

/-- The loop of `feed`, for at most `rounds` rounds. -/
def feedLoop (p : Parser σ) (data : Str) (used : Nat) : Nat → Except Exception (Parser σ × Nat)
  | 0 => .ok (p, used)
  | rounds + 1 =>
    if data = [] ∨ p.parsing_complete_ then .ok (p, used)
    else do
      let (p, pass) ← p.feedStep lib data
      feedLoop p (data.drop pass) (used + pass) rounds

/-- `feed`. A round uses up a byte, or leaves an error that makes the next round throw; so there are
at most `data.length + 1` rounds, see `feed_spec`. -/
def feed (p : Parser σ) (data : Str) : Except Exception (Parser σ × Nat) :=
  p.feedLoop lib data 0 (data.length + 1)

/-- Consecutive calls of `feed`. -/
def feedAll (p : Parser σ) : List Str → Except Exception (Parser σ)
  | [] => .ok p
  | data :: rest => do
    let (p, _) ← p.feed lib data
    p.feedAll rest

end Parser

end Http
