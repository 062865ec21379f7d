import ItexDemo.Http.Parser

/-!
# What a byte stream says, however it is cut

`scan` reads a stream byte by byte and lists its events: the callbacks, with the data of the
elements one byte at a time. `urlFragments` are the pieces in which consecutive buffers hold the URL; a
buffer that begins at its end has an empty one.
-/

namespace Http

/-- How the scan of a stream ends: before the end of the message, at its end, or at a byte that is
refused. -/
inductive Outcome (σ : Type) where
  | more (s : σ)
  | complete
  | rejected
  deriving DecidableEq

/-- The result of a scan: the events, the number of bytes of the message, and how it ends. -/
structure Scan (σ : Type) where
  events : List Callback
  used : Nat
  outcome : Outcome σ
  deriving DecidableEq

namespace HttpParser

variable {σ : Type} (lib : HttpParser σ)

/-- The events of one byte, except for the end of the message. -/
def byte (s : σ) (b : Char) : Except Nat (List Callback × Consumed σ) :=
  match lib.headersComplete s b with
  | some s' => (lib.consume s' b).map fun c =>
    (.headersComplete :: (mark none c b).1 ++ flush (mark none c b).2, c)
  | none => (lib.consume s b).map fun c => ((mark none c b).1 ++ flush (mark none c b).2, c)

/-- Read a stream from the state `s` on. -/
def scan (s : σ) : Str → Scan σ
  | [] => { events := [], used := 0, outcome := .more s }
  | b :: rest =>
    match lib.byte s b with
    | .error _ => { events := [], used := 0, outcome := .rejected }
    | .ok (events, c) =>
      match c.messageComplete with
      | some flags =>
        { events := events ++ [.messageComplete flags], used := 1, outcome := .complete }
      | none =>
        let r := scan c.state rest
        { r with events := events ++ r.events, used := r.used + 1 }

/-- The empty data of an element that ends where the buffer begins. -/
def emptyFragment (s : σ) : Str → List Callback
  | [] => []
  | b :: _ =>
    match lib.resumed s, lib.consume s b with
    | some element, .ok c =>
      if c.element = some element ∧ c.messageBegin = false ∧ c.chunk = none then []
      else [.data element []]
    | _, _ => []

end HttpParser

/-- A callback, with its data one byte at a time. -/
def Callback.atoms : Callback → List Callback
  | .data element fragment => fragment.map fun b => .data element [b]
  | cb => [cb]

/-- A callback for the URL, with the method. -/
def Callback.url? : Callback → Option (Nat × Str)
  | .data (.url method) fragment => some (method, fragment)
  | _ => none

/-- The URL in a list of events: the method and the bytes. -/
def urlOf (events : List Callback) : Option (Nat × Str) :=
  match events.filterMap Callback.url? with
  | [] => none
  | (method, fragment) :: rest => some (method, fragment ++ rest.flatMap Prod.snd)

/-- The pieces of the URL that a buffer holds. -/
def urlPieces {σ : Type} (lib : HttpParser σ) (s : σ) (data : Str) : List (Nat × Str) :=
  (lib.emptyFragment s data).filterMap Callback.url? ++ (urlOf (lib.scan s data).events).toList

/-- The pieces of the URL that consecutive buffers hold. -/
def urlFragments {σ : Type} (lib : HttpParser σ) (s : σ) : List Str → List (Nat × Str)
  | [] => []
  | data :: rest =>
    urlPieces lib s data ++
      match (lib.scan s data).outcome with
      | .more s' => urlFragments lib s' rest
      | _ => []

/-- `on_url` throws: the URL cannot be parsed, or `method_map` does not have the method. -/
def UrlRejected {σ : Type} (lib : HttpParser σ) (url : Nat × Str) : Prop :=
  (∃ e, Url.ofString lib url.2 = .error e) ∨ AssocMap.find methodMap url.1 = none

/-- Some part of a chunk begins or ends. -/
def Chunked (events : List Callback) : Prop := ∃ part, Callback.chunk part ∈ events

instance (events : List Callback) : Decidable (Chunked events) :=
  decidable_of_iff (.chunk .header ∈ events ∨ .chunk .complete ∈ events) <| by
    refine ⟨fun h => h.elim (⟨_, ·⟩) (⟨_, ·⟩), ?_⟩
    rintro ⟨part, hpart⟩
    cases part with
    | header => exact Or.inl hpart
    | complete => exact Or.inr hpart

/-- The URL pieces of two cuttings agree: both have a piece that is rejected, or none has, the last
pieces are equal and there are no chunks. -/
def SameUrl {σ : Type} (lib : HttpParser σ) (cuts cuts' : List Str) : Prop :=
  let pieces := urlFragments lib (lib.init .request) cuts
  let pieces' := urlFragments lib (lib.init .request) cuts'
  ((∃ url ∈ pieces, UrlRejected lib url) ↔ ∃ url ∈ pieces', UrlRejected lib url) ∧
    ((∀ url ∈ pieces, ¬UrlRejected lib url) → pieces.getLast? = pieces'.getLast? ∧
      ¬Chunked (lib.scan (lib.init .request) cuts.flatten).events)

/-- What a run of `feed` calls leaves, when it does not throw: whether the message is complete, and
the message. -/
def observe {σ : Type} (r : Except Exception (Parser σ)) : Option (Bool × AnyMessage) :=
  r.toOption.map fun p => (p.parsing_complete_, p.message_)

/-- Two runs of `feed` calls are defined and leave the same. -/
def SameRun {σ : Type} (r r' : Except Exception (Parser σ)) : Prop :=
  r ≠ .error .undefined ∧ r' ≠ .error .undefined ∧ observe r = observe r'

end Http
