import ItexDemo.Http.HttpParser

/-!
# A small `http_parser`

The states of the library that plain messages go through: an origin-form URL without query, no
folded header lines, and a body with a `Content-Length` or in chunks without trailers. Everything else is
refused with `HPE_UNKNOWN`.
-/

namespace Http.PlainParser

/-- How long the body is, as far as the headers have told. -/
inductive Framing where
  | none
  | length (n : Nat)
  | chunked
  deriving DecidableEq, Repr

/-- The headers that tell it. -/
inductive Header where
  | other
  | contentLength
  | transferEncoding
  deriving DecidableEq, Repr

/-- The states; `done` is the one after a message, where the parser is initialised again before it is
used. -/
inductive State where
  | startReq
  | reqMethod (name : Str)
  | reqSpacesBeforeUrl (method : Nat)
  | reqUrl (method : Nat)
  | reqHttp
  | startRes
  | resHttp
  | resStatusCode (statusCode : Nat)
  | resStatusStart (statusCode : Nat)
  | resStatus (statusCode : Nat)
  | lineAlmostDone
  | headerFieldStart (framing : Framing)
  | headerField (framing : Framing) (name : Str)
  | headerValueDiscardWs (framing : Framing) (header : Header)
  | headerValue (framing : Framing) (header : Header)
  | headerAlmostDone (framing : Framing)
  | headersAlmostDone (framing : Framing)
  | headersDone (framing : Framing)
  | bodyIdentity (left : Nat)
  | chunkSize (size : Nat)
  | chunkSizeAlmostDone (size : Nat)
  | chunkData (left : Nat)
  | chunkDataAlmostDone
  | chunkDataDone
  | trailing
  | trailingAlmostDone
  | done
  deriving DecidableEq, Repr

/-- `HPE_UNKNOWN`. -/
def hpeUnknown : Nat := 32

/-- `F_CONTENTLENGTH`. -/
def fContentLength : Nat := 128

/-- `F_CHUNKED | F_TRAILING`. -/
def fChunkedTrailing : Nat := 17

/-- The methods, with their numbers. -/
def methods : List (Str × Nat) :=
  [("DELETE".toList, 0), ("GET".toList, 1), ("HEAD".toList, 2), ("POST".toList, 3),
   ("PUT".toList, 4)]

/-- The value of a digit. -/
def digit (b : Char) : Nat := b.toNat - 48

/-- The value of a hexadecimal digit. -/
def hexDigit (b : Char) : Nat := if b.isDigit then digit b else b.toLower.toNat - 87

/-- The header of a name. -/
def headerOf (name : Str) : Header :=
  if name = "content-length".toList then .contentLength
  else if name = "transfer-encoding".toList then .transferEncoding
  else .other

/-- The first byte of the value of a header. -/
def firstByte (framing : Framing) (header : Header) (b : Char) : Framing :=
  match header with
  | .other => framing
  | .contentLength => .length (digit b)
  | .transferEncoding => if b.toLower = 'c' then .chunked else framing

/-- A later byte of it. -/
def nextByte (framing : Framing) (header : Header) (b : Char) : Framing :=
  match header, framing with
  | .contentLength, .length n => .length (n * 10 + digit b)
  | _, framing => framing

/-- A byte that belongs to no element. -/
def skip (s : State) : Except Nat (Consumed State) :=
  .ok { state := s, messageBegin := false, element := none, chunk := none, messageComplete := none }

/-- A byte that begins a message. -/
def start (s : State) : Except Nat (Consumed State) :=
  .ok { state := s, messageBegin := true, element := none, chunk := none, messageComplete := none }

/-- A byte of an element. -/
def data (s : State) (element : Element) : Except Nat (Consumed State) :=
  .ok { state := s, messageBegin := false, element := some element, chunk := none,
        messageComplete := none }

/-- The last byte of a part of a chunk. -/
def chunk (s : State) (part : ChunkPart) : Except Nat (Consumed State) :=
  .ok { state := s, messageBegin := false, element := none, chunk := some part,
        messageComplete := none }

/-- The last byte of a message. -/
def last (element : Option Element) (part : Option ChunkPart) (flags : Nat) :
    Except Nat (Consumed State) :=
  .ok { state := .done, messageBegin := false, element := element, chunk := part,
        messageComplete := some flags }

/-- Consume a byte. -/
def consume : State → Char → Except Nat (Consumed State)
  | .startReq, b => start (.reqMethod [b])
  | .reqMethod name, b =>
    if b = ' ' then
      match AssocMap.find methods name with
      | some method => skip (.reqSpacesBeforeUrl method)
      | none => .error hpeUnknown
    else skip (.reqMethod (name ++ [b]))
  | .reqSpacesBeforeUrl method, b =>
    if b = ' ' then skip (.reqSpacesBeforeUrl method) else data (.reqUrl method) (.url method)
  | .reqUrl method, b => if b = ' ' then skip .reqHttp else data (.reqUrl method) (.url method)
  | .reqHttp, b => if b = '\r' then skip .lineAlmostDone else skip .reqHttp
  | .startRes, _ => start .resHttp
  | .resHttp, b => if b = ' ' then skip (.resStatusCode 0) else skip .resHttp
  | .resStatusCode code, b =>
    if b = ' ' then skip (.resStatusStart code) else skip (.resStatusCode (code * 10 + digit b))
  | .resStatusStart code, b =>
    if b = '\r' then skip .lineAlmostDone else data (.resStatus code) (.status code)
  | .resStatus code, b =>
    if b = '\r' then skip .lineAlmostDone else data (.resStatus code) (.status code)
  | .lineAlmostDone, b =>
    if b = '\n' then skip (.headerFieldStart .none) else .error hpeUnknown
  | .headerFieldStart framing, b =>
    if b = '\r' then skip (.headersAlmostDone framing)
    else data (.headerField framing [b.toLower]) .headerField
  | .headerField framing name, b =>
    if b = ':' then skip (.headerValueDiscardWs framing (headerOf name))
    else data (.headerField framing (name ++ [b.toLower])) .headerField
  | .headerValueDiscardWs framing header, b =>
    if b = ' ' then skip (.headerValueDiscardWs framing header)
    else if b = '\r' then skip (.headerAlmostDone framing)
    else data (.headerValue (firstByte framing header b) header) .headerValue
  | .headerValue framing header, b =>
    if b = '\r' then skip (.headerAlmostDone framing)
    else data (.headerValue (nextByte framing header b) header) .headerValue
  | .headerAlmostDone framing, b =>
    if b = '\n' then skip (.headerFieldStart framing) else .error hpeUnknown
  | .headersAlmostDone _, _ => .error hpeUnknown
  | .headersDone framing, b =>
    if b = '\n' then
      match framing with
      | .none => last none none 0
      | .length 0 => last none none fContentLength
      | .length (n + 1) => skip (.bodyIdentity (n + 1))
      | .chunked => skip (.chunkSize 0)
    else .error hpeUnknown
  | .bodyIdentity left, _ =>
    if left ≤ 1 then last (some .body) none fContentLength
    else data (.bodyIdentity (left - 1)) .body
  | .chunkSize size, b =>
    if b = '\r' then skip (.chunkSizeAlmostDone size) else skip (.chunkSize (size * 16 + hexDigit b))
  | .chunkSizeAlmostDone size, b =>
    if b = '\n' then chunk (if size = 0 then .trailing else .chunkData size) .header
    else .error hpeUnknown
  | .chunkData left, _ =>
    data (if left ≤ 1 then .chunkDataAlmostDone else .chunkData (left - 1)) .body
  | .chunkDataAlmostDone, b => if b = '\r' then skip .chunkDataDone else .error hpeUnknown
  | .chunkDataDone, b => if b = '\n' then chunk (.chunkSize 0) .complete else .error hpeUnknown
  | .trailing, b => if b = '\r' then skip .trailingAlmostDone else .error hpeUnknown
  | .trailingAlmostDone, b =>
    if b = '\n' then last none (some .complete) fChunkedTrailing else .error hpeUnknown
  | .done, _ => .error hpeUnknown

/-- The end of the headers is reported in front of their last byte. -/
def headersComplete : State → Char → Option State
  | .headersAlmostDone framing, b => if b = '\n' then some (.headersDone framing) else none
  | _, _ => none

/-- Origin-form URLs without query and fragment. -/
def parseUrl (full : Str) : Option HttpParserUrl :=
  if full.head? = some '/' ∧ '?' ∉ full ∧ '#' ∉ full then
    some
      { field := fun num => if num = .path then some (0, full.length) else none
        port := 0 }
  else none

/-- Where a state is relative to the URL. -/
def urlPhase : State → UrlPhase
  | .startReq => .before
  | .reqMethod _ => .before
  | .reqSpacesBeforeUrl _ => .before
  | .reqUrl method => .inside method
  | _ => .after

/-- The states behind a byte of an element that may go on. -/
def resumed : State → Option Element
  | .reqUrl method => some (.url method)
  | .resStatus code => some (.status code)
  | .headerField _ _ => some .headerField
  | .headerValue _ _ => some .headerValue
  | _ => none

theorem headersComplete_inv {s s' : State} {b : Char} (h : headersComplete s b = some s') :
    (∃ framing, s = .headersAlmostDone framing) ∧ ∃ framing, s' = .headersDone framing := by
  unfold headersComplete at h
  split at h
  · split_ifs at h
    cases h
    exact ⟨⟨_, rfl⟩, ⟨_, rfl⟩⟩
  · cases h

/-- The small parser. -/
def lib : HttpParser State where
  init
    | .request => .startReq
    | .response => .startRes
  headersComplete := headersComplete
  consume := consume
  parseUrl := parseUrl
  urlPhase := urlPhase
  resumed := resumed
  init_request := rfl
  init_response := rfl
  resumed_init := by
    intro type
    cases type <;> rfl
  resumed_url := by
    intro s m h
    cases s <;> cases h
    rfl
  resumed_consume := by
    intro s b c element h hel
    cases s <;> simp only [consume, skip, start, data, chunk, last] at h <;> (try split at h) <;>
      (try split at h) <;> cases h <;> first | exact hel | cases hel
  headersComplete_once := by
    intro s s' b h b'
    obtain ⟨-, framing, rfl⟩ := headersComplete_inv h
    rfl
  headersComplete_phase := by
    intro s s' b h
    obtain ⟨⟨framing, rfl⟩, framing', rfl⟩ := headersComplete_inv h
    exact ⟨rfl, rfl⟩
  headersComplete_resumed := by
    intro s s' b h
    obtain ⟨⟨framing, rfl⟩, framing', rfl⟩ := headersComplete_inv h
    exact ⟨rfl, rfl⟩
  consume_url := by
    intro s b c m h hel
    cases s <;> simp only [consume, skip, start, data, chunk, last] at h <;> (try split at h) <;>
      (try split at h) <;> cases h <;> simp at hel
    · exact ⟨rfl, by rw [hel]; rfl, Or.inl rfl⟩
    · exact ⟨rfl, by rw [hel]; rfl, by rw [hel]; exact Or.inr rfl⟩
  consume_chunk := by
    intro s b c part h hchunk
    cases s <;> simp only [consume, skip, start, data, chunk, last] at h <;> (try split at h) <;>
      (try split at h) <;> cases h <;> first | rfl | cases hchunk
  consume_other := by
    intro s b c h _ hel
    cases s <;> simp only [consume, skip, start, data, chunk, last] at h <;> (try split at h) <;>
      (try split at h) <;> cases h <;>
      first
        | exact Or.inr rfl
        | exact Or.inl ⟨rfl, rfl⟩
        | exact absurd rfl (hel _)

end Http.PlainParser
