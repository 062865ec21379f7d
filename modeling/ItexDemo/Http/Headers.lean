import ItexDemo.Http.Parser

/-!
# The headers of a message

What the callbacks for a list of headers are, and which headers `http::Parser` makes of them: a header
ends when it has a value and another name begins, so that a name without a value is put in front of
the next name.
-/

namespace Http

/-- The pieces of the name and of the value of a header, as `http_parser` delivers them. -/
structure HeaderPieces where
  names : List Str
  values : List Str

namespace HeaderPieces

/-- The header that is delivered in these pieces. -/
def header (pieces : HeaderPieces) : Str × Str := (pieces.names.flatten, pieces.values.flatten)

/-- The callbacks for a header. -/
def callbacks (pieces : HeaderPieces) : List Callback :=
  pieces.names.map (.data .headerField) ++ pieces.values.map (.data .headerValue)

end HeaderPieces

/-- The headers with a value, where the names of those without one that come directly in front of a
header are put in front of its name. -/
def joinNames : Str → List (Str × Str) → List (Str × Str)
  | _, [] => []
  | front, (name, value) :: headers =>
    if value = [] then joinNames (front ++ name) headers
    else (front ++ name, value) :: joinNames [] headers

/-- The names behind the last header with a value. -/
def namesLeft : Str → List (Str × Str) → Str
  | front, [] => front
  | front, (name, value) :: headers =>
    if value = [] then namesLeft (front ++ name) headers else namesLeft [] headers

/-- After the callbacks for headers and `on_headers_complete` the map of the message is the one of the
headers stored in order, where a later value of a name replaces an earlier one, and `current_header_`
is empty. -/
def HeadersExact {σ : Type} (lib : HttpParser σ) (pieces : List HeaderPieces) : Prop :=
  ∀ p : ParserFields, p.current_header_ = ([], []) →
    ∃ p', p.callbacks lib (pieces.flatMap HeaderPieces.callbacks ++ [.headersComplete]) = .ok p' ∧
      p'.current_header_ = ([], []) ∧
      ∀ name, AssocMap.find p'.message_.base.headers_ name =
        AssocMap.find
          (AssocMap.assignAll p.message_.base.headers_ (pieces.map HeaderPieces.header)) name

end Http
