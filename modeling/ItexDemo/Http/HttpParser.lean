import ItexDemo.Http.Constants

/-!
# The `http_parser` library

The parser is a machine that consumes one byte at a time. A byte may begin a message, belong to the
data of an element, begin or end a chunk, and complete the message; the end of the headers is reported
before the byte that ends them is consumed. `http_parser_execute` runs the machine over a buffer: the
data of an element is handed to its callback in pieces, one for every stretch of bytes in one buffer,
and the callbacks at the end of the headers and of the message pause the parser. A buffer that begins
inside of an element has a piece of it, which is empty when the element ended with the buffer before.

The machine itself is a parameter: the machine of the library has some sixty states. What is used
of it beyond its interface is that the URL of a request is one element (`UrlPhase`) in front of all
chunks, that an element is resumed only behind a byte of it, and that the end of the headers is reported
once.
-/

namespace Http

/-- `enum http_parser_type`. -/
inductive MessageType where
  | request
  | response
  deriving DecidableEq, Repr

/-- What the bytes of a message belong to, with the field of `http_parser` that its callback reads:
`method` for the URL, `status_code` for the status. -/
inductive Element where
  | url (method : Nat)
  | status (statusCode : Nat)
  | headerField
  | headerValue
  | body
  deriving DecidableEq, Repr

/-- Whether the URL is still to come, is being read, or is over. -/
inductive UrlPhase where
  | before
  | inside (method : Nat)
  | after
  deriving DecidableEq, Repr

/-- `on_chunk_header` and `on_chunk_complete`. -/
inductive ChunkPart where
  | header
  | complete
  deriving DecidableEq, Repr

/-- A byte has been consumed. `messageComplete` is the value of `flags` at that callback. -/
structure Consumed (σ : Type) where
  state : σ
  messageBegin : Bool
  element : Option Element
  chunk : Option ChunkPart
  messageComplete : Option Nat

/-- `enum http_parser_url_fields`. -/
inductive UrlField where
  | schema | host | port | path | query | fragment | userinfo
  deriving DecidableEq, Repr

/-- `struct http_parser_url`: the offset and length of every field that is set. -/
structure HttpParserUrl where
  field : UrlField → Option (Nat × Nat)
  port : Nat

/-- The library, with machine states `σ`. -/
structure HttpParser (σ : Type) where
  /-- `http_parser_init`. -/
  init : MessageType → σ
  /-- The headers end with the next byte, which is not consumed yet. -/
  headersComplete : σ → Char → Option σ
  /-- Consume a byte, or fail with an `http_errno`. -/
  consume : σ → Char → Except Nat (Consumed σ)
  /-- `http_parser_parse_url`. -/
  parseUrl : Str → Option HttpParserUrl
  /-- Where a state is relative to the URL. -/
  urlPhase : σ → UrlPhase
  /-- The element that is marked at the beginning of a buffer. -/
  resumed : σ → Option Element
  init_request : urlPhase (init .request) = .before
  init_response : urlPhase (init .response) = .after
  resumed_init (type : MessageType) : resumed (init type) = none
  resumed_url {s : σ} {m : Nat} : resumed s = some (.url m) → urlPhase s = .inside m
  resumed_consume {s : σ} {b : Char} {c : Consumed σ} {element : Element} : consume s b = .ok c →
    resumed c.state = some element → c.element = some element
  headersComplete_once {s s' : σ} {b : Char} :
    headersComplete s b = some s' → ∀ b', headersComplete s' b' = none
  headersComplete_phase {s s' : σ} {b : Char} :
    headersComplete s b = some s' → urlPhase s = .after ∧ urlPhase s' = .after
  headersComplete_resumed {s s' : σ} {b : Char} :
    headersComplete s b = some s' → resumed s = none ∧ resumed s' = none
  consume_url {s : σ} {b : Char} {c : Consumed σ} {m : Nat} : consume s b = .ok c →
    c.element = some (.url m) → c.messageBegin = false ∧ urlPhase c.state = .inside m ∧
      (urlPhase s = .before ∨ urlPhase s = .inside m)
  consume_chunk {s : σ} {b : Char} {c : Consumed σ} {part : ChunkPart} : consume s b = .ok c →
    c.chunk = some part → urlPhase s = .after
  consume_other {s : σ} {b : Char} {c : Consumed σ} : consume s b = .ok c →
    c.messageComplete = none → (∀ m, c.element ≠ some (.url m)) →
      (urlPhase s = .before ∧ urlPhase c.state = .before) ∨ urlPhase c.state = .after

/-- The callbacks, with what they are called with. -/
inductive Callback where
  | messageBegin
  | data (element : Element) (fragment : Str)
  | headersComplete
  | chunk (part : ChunkPart)
  | messageComplete (flags : Nat)
  deriving DecidableEq, Repr

/-- `http_errno`, as far as `Parser` looks at it. -/
inductive Errno where
  | ok
  | paused
  | error (code : Nat)
  deriving DecidableEq, Repr

/-- A run of `http_parser_execute`: the callbacks it made, the state it stopped in, the number of
bytes used and the error. -/
structure Executed (σ : Type) where
  callbacks : List Callback
  state : σ
  used : Nat
  errno : Errno

/-- The callback for the data that has been marked. -/
def flush : Option (Element × Str) → List Callback
  | none => []
  | some (element, fragment) => [.data element fragment]

/-- The callbacks that become due when a byte has been consumed, and the marked data after it. -/
def mark {σ : Type} (marked : Option (Element × Str)) (c : Consumed σ) (b : Char) :
    List Callback × Option (Element × Str) :=
  match marked, c.element, c.messageBegin, c.chunk with
  | some (element, fragment), some element', false, none =>
    if element = element' then ([], some (element, fragment ++ [b]))
    else ([.data element fragment], some (element', [b]))
  | marked, element', messageBegin, chunk =>
    (flush marked ++ (if messageBegin then [.messageBegin] else []) ++ (chunk.map .chunk).toList,
      element'.map fun e => (e, [b]))

namespace HttpParser

variable {σ : Type} (lib : HttpParser σ)

/-- The loop of `http_parser_execute`. -/
def run (s : σ) (marked : Option (Element × Str)) : Str → Executed σ
  | [] => { callbacks := flush marked, state := s, used := 0, errno := .ok }
  | b :: rest =>
    match lib.headersComplete s b with
    | some s' =>
      { callbacks := flush marked ++ [.headersComplete], state := s', used := 0, errno := .paused }
    | none =>
      match lib.consume s b with
      | .error e => { callbacks := [], state := s, used := 0, errno := .error e }
      | .ok c =>
        let m := mark marked c b
        match c.messageComplete with
        | some flags =>
          { callbacks := m.1 ++ flush m.2 ++ [.messageComplete flags], state := c.state, used := 1,
            errno := .paused }
        | none =>
          let r := run c.state m.2 rest
          { r with callbacks := m.1 ++ r.callbacks, used := r.used + 1 }

/-- `http_parser_execute`, with data that are not empty. The element in which the buffer begins is
marked at its first byte. -/
def execute (s : σ) (errno : Errno) (data : Str) : Executed σ :=
  if errno = .ok then lib.run s ((lib.resumed s).map fun element => (element, [])) data
  else { callbacks := [], state := s, used := 0, errno := errno }

end HttpParser

end Http
