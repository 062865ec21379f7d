import ItexDemo.Http.HttpParser

/-!
# `http::Message`, `http::Request`, `http::Response` and `http::Url`
-/

namespace Http

/-- The exceptions of the parser, and what is not defined at all. -/
inductive Exception where
  /-- `UrlParsingException`, with its text. -/
  | urlParsing (what : Str)
  /-- `ParsingException`, with the error of `http_parser`. -/
  | parsing (errno : Errno)
  /-- `std::out_of_range`, thrown by the `at` of a table. -/
  | outOfRange
  /-- Not an exception: a call through a pointer that was never set. -/
  | undefined
  deriving DecidableEq

/-- `Url`. -/
structure Url where
  full_ : Str
  schema_ : Str
  host_ : Str
  port_ : Nat
  path_ : Str
  query_ : Str
  fragment_ : Str
  userinfo_ : Str
  deriving DecidableEq

namespace Url

/-- `Url()`. -/
def new : Url :=
  { full_ := [], schema_ := [], host_ := [], port_ := 0, path_ := [], query_ := [], fragment_ := [],
    userinfo_ := [] }

/-- `assign_field_value`. -/
def assignFieldValue (u : HttpParserUrl) (full field : Str) (num : UrlField) : Str :=
  match u.field num with
  | some (off, len) => (full.drop off).take len
  | none => field

/-- `assign_port_value`. -/
def assignPortValue (u : HttpParserUrl) (port : Nat) : Nat :=
  match u.field .port with
  | some _ => u.port
  | none => port

/-- `Url(std::string full_url_str)`. -/
def ofString {σ : Type} (lib : HttpParser σ) (fullUrlStr : Str) : Except Exception Url :=
  if fullUrlStr = [] then .ok new
  else
    match lib.parseUrl fullUrlStr with
    | none => .error (.urlParsing ("HTTP: Could not parse URL: ".toList ++ fullUrlStr))
    | some u => .ok
      { full_ := fullUrlStr
        schema_ := assignFieldValue u fullUrlStr [] .schema
        host_ := assignFieldValue u fullUrlStr [] .host
        port_ := assignPortValue u 0
        path_ := assignFieldValue u fullUrlStr [] .path
        query_ := assignFieldValue u fullUrlStr [] .query
        fragment_ := assignFieldValue u fullUrlStr [] .fragment
        userinfo_ := assignFieldValue u fullUrlStr [] .userinfo }

/-- A URL keeps the string that it was made from. -/
theorem full_ofString {σ : Type} {lib : HttpParser σ} {fullUrlStr : Str} {url : Url}
    (h : ofString lib fullUrlStr = .ok url) : url.full_ = fullUrlStr := by
  unfold ofString at h
  split_ifs at h with hempty
  · cases h
    exact hempty.symm
  · split at h <;> cases h
    rfl

end Url

/-- `Message`, without its type. -/
structure Message where
  headers_ : List (Str × Str)
  body_ : Str
  flags_ : Nat
  deriving DecidableEq

/-- A message after `Message::clear`. -/
def Message.cleared : Message := { headers_ := [], body_ := [], flags_ := 0 }

/-- `Message::Flags::connection_close`, the flag `F_CONNECTION_CLOSE`. -/
def Message.connectionClose (m : Message) : Bool := m.flags_.testBit 2

/-- `Request`. -/
structure Request extends Message where
  method_ : Method
  url_ : Url
  deriving DecidableEq

/-- A request after `Request::clear`. -/
def Request.cleared : Request := { Message.cleared with method_ := .unknown, url_ := .new }

/-- `Response`. -/
structure Response extends Message where
  status_code_ : StatusCode
  deriving DecidableEq

/-- A response after `Response::clear`. -/
def Response.cleared : Response := { Message.cleared with status_code_ := .unknown }

/-- What a `Message*` points to. A message of the base type is refused by the constructor of
`Parser` and does not occur. -/
inductive AnyMessage where
  | request (r : Request)
  | response (r : Response)
  deriving DecidableEq

namespace AnyMessage

/-- `Message::type`. -/
def type : AnyMessage → MessageType
  | request _ => .request
  | response _ => .response

/-- The base class. -/
def base : AnyMessage → Message
  | request r => r.toMessage
  | response r => r.toMessage

/-- Replace the base class. -/
def setBase : AnyMessage → Message → AnyMessage
  | request r, m => request { r with toMessage := m }
  | response r, m => response { r with toMessage := m }

/-- `clear`, which is virtual. -/
def clear : AnyMessage → AnyMessage
  | request _ => request Request.cleared
  | response _ => response Response.cleared

@[simp] theorem type_setBase (msg : AnyMessage) (m : Message) : (msg.setBase m).type = msg.type := by
  cases msg <;> rfl

@[simp] theorem base_setBase (msg : AnyMessage) (m : Message) : (msg.setBase m).base = m := by
  cases msg <;> rfl

@[simp] theorem setBase_setBase (msg : AnyMessage) (m m' : Message) :
    (msg.setBase m).setBase m' = msg.setBase m' := by
  cases msg <;> rfl

end AnyMessage

end Http
