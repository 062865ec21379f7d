import ItexDemo.Http.PlainParser
import ItexDemo.Http.Proofs.StreamProofs

/-!
# Proofs: how a request depends on the cuts of its bytes

All callbacks of a request but `on_url` append to what is there, so that the pieces of an element
make no difference (`foldl_absorb_atomsOf`). `on_url` overwrites: what remains is the last piece of
the URL.
-/

namespace Http

variable {σ : Type} {lib : HttpParser σ}

/-! ## The callbacks that append -/

/-- What the callbacks of a request do, except for `on_url`. -/
def ParserFields.absorb (p : ParserFields) : Callback → ParserFields
  | .messageBegin => p.onMessageBegin
  | .data (.url _) _ => p
  | .data (.status _) _ => p
  | .data .headerField data => p.onHeaderField data
  | .data .headerValue data => p.onHeaderValue data
  | .data .body data => p.onBody data
  | .headersComplete => p.onHeadersComplete
  | .chunk _ => p
  | .messageComplete flags => p.onMessageComplete flags

/-- Appending in two pieces is appending the whole. -/
theorem absorb_append (p : ParserFields) (el : Element) (x y : Str) :
    (p.absorb (.data el x)).absorb (.data el y) = p.absorb (.data el (x ++ y)) := by
  cases el with
  | url m => rfl
  | status code => rfl
  | headerField =>
    simp only [ParserFields.absorb, ParserFields.onHeaderField]
    rw [storeCurrentHeader_of_empty (by exact storeCurrentHeader_value p)]
    simp
  | headerValue => simp [ParserFields.absorb, ParserFields.onHeaderValue]
  | body => simp [ParserFields.absorb, ParserFields.onBody]

theorem foldl_absorb_atoms (p : ParserFields) (el : Element) {frag : Str} (h : frag ≠ []) :
    (Callback.data el frag).atoms.foldl ParserFields.absorb p = p.absorb (.data el frag) := by
  induction frag generalizing p with
  | nil => exact absurd rfl h
  | cons b frag ih =>
    cases frag with
    | nil => rfl
    | cons b' frag =>
      have hrest := ih (p.absorb (.data el [b])) (by simp)
      rw [absorb_append] at hrest
      exact hrest

/-- The data may come in any pieces. -/
theorem foldl_absorb_atomsOf (p : ParserFields) {cbs : List Callback} (h : Proper cbs) :
    (atomsOf cbs).foldl ParserFields.absorb p = cbs.foldl ParserFields.absorb p := by
  induction cbs generalizing p with
  | nil => rfl
  | cons cb cbs ih =>
    have hcons : atomsOf (cb :: cbs) = cb.atoms ++ atomsOf cbs := rfl
    have hcb : cb.atoms.foldl ParserFields.absorb p = p.absorb cb := by
      cases cb with
      | data el frag =>
        refine foldl_absorb_atoms p el ?_
        rintro rfl
        exact h el List.mem_cons_self
      | _ => rfl
    rw [hcons, List.foldl_append, hcb, List.foldl_cons]
    exact ih (p.absorb cb) fun el hmem => h el (List.mem_cons_of_mem _ hmem)

/-! ## `on_url` -/

/-- The parser is attached to a request. -/
def IsRequest (p : ParserFields) : Prop := ∃ req, p.message_ = .request req

/-- What `on_url` leaves when it does not throw. -/
def ParserFields.withUrl (lib : HttpParser σ) (p : ParserFields) : Option (Nat × Str) → ParserFields
  | none => p
  | some (method, data) =>
    match p.message_, Url.ofString lib data, AssocMap.find methodMap method with
    | .request req, .ok url, some m =>
      { p with message_ := .request { req with url_ := url, method_ := m } }
    | _, _, _ => p

theorem exists_of_not_rejected {m : Nat} {data : Str} (h : ¬UrlRejected lib (m, data)) :
    ∃ url method, Url.ofString lib data = .ok url ∧ AssocMap.find methodMap m = some method := by
  unfold UrlRejected at h
  cases hu : Url.ofString lib data with
  | error e => exact absurd (Or.inl ⟨e, hu⟩) h
  | ok url =>
    cases hm : AssocMap.find methodMap m with
    | none => exact absurd (Or.inr hm) h
    | some method => exact ⟨url, method, rfl, rfl⟩

theorem onUrl_ok {p : ParserFields} (hp : IsRequest p) {m : Nat} {data : Str}
    (h : ¬UrlRejected lib (m, data)) : p.onUrl lib m data = .ok (p.withUrl lib (some (m, data))) := by
  obtain ⟨req, hreq⟩ := hp
  obtain ⟨url, method, hu, hm⟩ := exists_of_not_rejected h
  simp [ParserFields.onUrl, ParserFields.withUrl, hreq, hu, hm, bind, Except.bind]

/-- A URL that cannot be parsed is an exception. -/
theorem ofString_defined (lib : HttpParser σ) (data : Str) :
    Url.ofString lib data ≠ .error .undefined := by
  unfold Url.ofString
  split_ifs
  · nofun
  · split <;> nofun

theorem onUrl_error {p : ParserFields} (hp : IsRequest p) {m : Nat} {data : Str}
    (h : UrlRejected lib (m, data)) : ∃ e, e ≠ .undefined ∧ p.onUrl lib m data = .error e := by
  obtain ⟨req, hreq⟩ := hp
  cases hu : Url.ofString lib data with
  | error e =>
    refine ⟨e, ?_, by simp [ParserFields.onUrl, hreq, hu, bind, Except.bind]⟩
    rintro rfl
    exact ofString_defined lib data hu
  | ok url =>
    refine ⟨.outOfRange, Exception.noConfusion, ?_⟩
    rcases h with ⟨e, he⟩ | hm
    · cases hu.symm.trans he
    · simp only at hm
      simp [ParserFields.onUrl, hreq, hu, hm, bind, Except.bind]

theorem callback_of_notUrl {p : ParserFields} (hp : IsRequest p) {cb : Callback}
    (h : cb.url? = none) (hchunk : ∀ part, cb ≠ .chunk part) :
    p.callback lib cb = .ok (p.absorb cb) := by
  obtain ⟨req, hreq⟩ := hp
  cases cb with
  | data el frag =>
    cases el with
    | url m => cases h
    | status code => simp [ParserFields.callback, ParserFields.onStatus, ParserFields.absorb, hreq]
    | _ => rfl
  | chunk part => exact absurd rfl (hchunk part)
  | _ => rfl

theorem isRequest_iff {p : ParserFields} : IsRequest p ↔ p.message_.type = .request := by
  unfold IsRequest
  cases p.message_ <;> simp [AnyMessage.type]

theorem type_storeCurrentHeader (p : ParserFields) :
    p.storeCurrentHeader.message_.type = p.message_.type := by
  unfold ParserFields.storeCurrentHeader
  split_ifs
  · rfl
  · exact AnyMessage.type_setBase _ _

theorem type_absorb (p : ParserFields) (cb : Callback) :
    (p.absorb cb).message_.type = p.message_.type := by
  cases cb with
  | data el frag =>
    cases el with
    | headerField => exact type_storeCurrentHeader p
    | body => exact AnyMessage.type_setBase _ _
    | _ => rfl
  | messageBegin => rfl
  | chunk part => rfl
  | headersComplete => exact type_storeCurrentHeader p
  | messageComplete flags => exact AnyMessage.type_setBase _ _

theorem absorb_request {p : ParserFields} (hp : IsRequest p) (cb : Callback) :
    IsRequest (p.absorb cb) := by
  rw [isRequest_iff] at hp ⊢
  rw [type_absorb, hp]

theorem foldl_absorb_request {p : ParserFields} (hp : IsRequest p) (cbs : List Callback) :
    IsRequest (cbs.foldl ParserFields.absorb p) := by
  induction cbs generalizing p with
  | nil => exact hp
  | cons cb cbs ih => exact ih (absorb_request hp cb)

theorem withUrl_request (lib : HttpParser σ) {p : ParserFields} (hp : IsRequest p) (u : Option (Nat × Str)) :
    IsRequest (p.withUrl lib u) := by
  obtain ⟨req, hreq⟩ := hp
  cases u with
  | none => exact ⟨req, hreq⟩
  | some u =>
    simp only [ParserFields.withUrl, hreq]
    split
    · exact ⟨_, rfl⟩
    · exact ⟨req, hreq⟩

/-- The URL and the method are written by no other callback. -/
theorem absorb_withUrl {p : ParserFields} (hp : IsRequest p) (u : Option (Nat × Str))
    (cb : Callback) : (p.withUrl lib u).absorb cb = (p.absorb cb).withUrl lib u := by
  obtain ⟨req, hreq⟩ := hp
  cases u with
  | none => rfl
  | some u =>
    obtain ⟨m, data⟩ := u
    obtain ⟨msg, header, pc, hc⟩ := p
    simp only at hreq
    subst hreq
    cases hu : Url.ofString lib data with
    | error e =>
      have hid : ∀ q : ParserFields, q.withUrl lib (some (m, data)) = q := by
        intro q
        simp [ParserFields.withUrl, hu]
      rw [hid, hid]
    | ok url =>
      cases hm : AssocMap.find methodMap m with
      | none =>
        have hid : ∀ q : ParserFields, q.withUrl lib (some (m, data)) = q := by
          intro q
          simp [ParserFields.withUrl, hu, hm]
        rw [hid, hid]
      | some method =>
        have hset : ∀ (r : Request) (h' : Str × Str) (b1 b2 : Bool),
            (⟨.request r, h', b1, b2⟩ : ParserFields).withUrl lib (some (m, data)) =
              ⟨.request { r with url_ := url, method_ := method }, h', b1, b2⟩ := by
          intro r h' b1 b2
          simp [ParserFields.withUrl, hu, hm]
        rw [hset]
        cases cb with
        | data el frag =>
          cases el with
          | url m' => exact (hset _ _ _ _).symm
          | status code => exact (hset _ _ _ _).symm
          | headerField =>
            by_cases hv : header.2 = [] <;>
              simp [ParserFields.absorb, ParserFields.onHeaderField,
                ParserFields.storeCurrentHeader, hv, hset, AnyMessage.setBase, AnyMessage.base]
          | headerValue =>
            simp [ParserFields.absorb, ParserFields.onHeaderValue, hset]
          | body =>
            simp [ParserFields.absorb, ParserFields.onBody, hset, AnyMessage.setBase,
              AnyMessage.base]
        | messageBegin => simp [ParserFields.absorb, ParserFields.onMessageBegin, hset]
        | chunk part => exact (hset _ _ _ _).symm
        | headersComplete =>
          by_cases hv : header.2 = [] <;>
            simp [ParserFields.absorb, ParserFields.onHeadersComplete,
              ParserFields.storeCurrentHeader, hv, hset, AnyMessage.setBase, AnyMessage.base]
        | messageComplete flags =>
          simp [ParserFields.absorb, ParserFields.onMessageComplete, hset, AnyMessage.setBase,
            AnyMessage.base]

theorem foldl_absorb_withUrl {p : ParserFields} (hp : IsRequest p) (u : Option (Nat × Str))
    (cbs : List Callback) :
    cbs.foldl ParserFields.absorb (p.withUrl lib u) =
      (cbs.foldl ParserFields.absorb p).withUrl lib u := by
  induction cbs generalizing p with
  | nil => rfl
  | cons cb cbs ih =>
    rw [List.foldl_cons, List.foldl_cons, absorb_withUrl hp]
    exact ih (absorb_request hp cb)

/-- A later URL overwrites an earlier one. -/
theorem withUrl_withUrl {p : ParserFields} (hp : IsRequest p) (u : Option (Nat × Str))
    {v : Nat × Str} (hv : ¬UrlRejected lib v) :
    (p.withUrl lib u).withUrl lib (some v) = p.withUrl lib (some v) := by
  obtain ⟨req, hreq⟩ := hp
  obtain ⟨url, method, hurl, hmethod⟩ := exists_of_not_rejected hv
  cases u with
  | none => rfl
  | some u =>
    cases hu : Url.ofString lib u.2 with
    | error e => simp [ParserFields.withUrl, hreq, hu]
    | ok url' =>
      cases hm : AssocMap.find methodMap u.1 <;>
        simp [ParserFields.withUrl, hreq, hu, hm, hurl, hmethod]

theorem urls_cons_none {cb : Callback} (h : cb.url? = none) (cbs : List Callback) :
    urls (cb :: cbs) = urls cbs := by
  simp [urls, h]

theorem urls_cons_some {cb : Callback} {u : Nat × Str} (h : cb.url? = some u)
    (cbs : List Callback) : urls (cb :: cbs) = u :: urls cbs := by
  simp [urls, h]

theorem eq_of_url? {cb : Callback} {m : Nat} {data : Str} (h : cb.url? = some (m, data)) :
    cb = .data (.url m) data := by
  cases cb with
  | data el frag =>
    cases el <;> simp [Callback.url?] at h
    rw [h.1, h.2]
  | _ => cases h

theorem chunked_cons {cb : Callback} {cbs : List Callback} :
    Chunked (cb :: cbs) ↔ (∃ part, cb = .chunk part) ∨ Chunked cbs := by
  simp only [Chunked, List.mem_cons, exists_or]
  refine or_congr_left (exists_congr fun part => ?_)
  exact eq_comm

/-- The callbacks of a request: each element is appended, and the last URL remains. -/
theorem callbacks_request {p : ParserFields} (hp : IsRequest p) {cbs : List Callback}
    (h : ∀ u ∈ urls cbs, ¬UrlRejected lib u) (hchunk : ¬Chunked cbs) :
    p.callbacks lib cbs =
      .ok ((cbs.foldl ParserFields.absorb p).withUrl lib (urls cbs).getLast?) := by
  induction cbs generalizing p with
  | nil => rfl
  | cons cb cbs ih =>
    rw [chunked_cons, not_or] at hchunk
    cases hurl : cb.url? with
    | none =>
      rw [urls_cons_none hurl] at h ⊢
      simp only [ParserFields.callbacks, bind, Except.bind,
        callback_of_notUrl hp hurl fun part hcb => hchunk.1 ⟨part, hcb⟩]
      exact ih (absorb_request hp cb) h hchunk.2
    | some u =>
      rw [urls_cons_some hurl] at h ⊢
      obtain ⟨m, data⟩ := u
      obtain rfl := eq_of_url? hurl
      have hu := h (m, data) List.mem_cons_self
      have hrest := ih (withUrl_request lib hp (some (m, data)))
        (fun u hmem => h u (List.mem_cons_of_mem _ hmem)) hchunk.2
      have hstep : p.callback lib (.data (.url m) data) = .ok (p.withUrl lib (some (m, data))) :=
        onUrl_ok hp hu
      simp only [ParserFields.callbacks, hstep, bind, Except.bind]
      rw [hrest, foldl_absorb_withUrl hp]
      have hfold : (Callback.data (.url m) data :: cbs).foldl ParserFields.absorb p =
          cbs.foldl ParserFields.absorb p := rfl
      rw [hfold]
      cases hlast : (urls cbs).getLast? with
      | none =>
        have hnil : urls cbs = [] := List.getLast?_eq_none_iff.mp hlast
        rw [hnil]
        rfl
      | some v =>
        have hmem : v ∈ urls cbs := List.mem_of_getLast? hlast
        rw [withUrl_withUrl (foldl_absorb_request hp cbs) _ (h v (List.mem_cons_of_mem _ hmem)),
          List.getLast?_cons, hlast]
        rfl

/-- The first callback of a request, when it does not reject a URL and is not about a chunk. -/
theorem callback_request {p : ParserFields} (hp : IsRequest p) {cb : Callback}
    (h : ∀ u, cb.url? = some u → ¬UrlRejected lib u) (hchunk : ∀ part, cb ≠ .chunk part) :
    ∃ q, p.callback lib cb = .ok q ∧ IsRequest q := by
  cases hurl : cb.url? with
  | none => exact ⟨_, callback_of_notUrl hp hurl hchunk, absorb_request hp cb⟩
  | some u =>
    obtain rfl := eq_of_url? hurl
    exact ⟨_, onUrl_ok hp (h u hurl), withUrl_request lib hp _⟩

theorem callbacks_cons_ok {p q : ParserFields} {cb : Callback} (h : p.callback lib cb = .ok q)
    (cbs : List Callback) : p.callbacks lib (cb :: cbs) = q.callbacks lib cbs := by
  simp only [ParserFields.callbacks, h, bind, Except.bind]

theorem callbacks_cons_error {p : ParserFields} {cb : Callback} {e : Exception}
    (h : p.callback lib cb = .error e) (cbs : List Callback) :
    p.callbacks lib (cb :: cbs) = .error e := by
  simp only [ParserFields.callbacks, h, bind, Except.bind]

/-- Without a rejected URL the callbacks come to the first chunk. -/
theorem callbacks_request_undefined {p : ParserFields} (hp : IsRequest p) {cbs : List Callback}
    (h : ∀ u ∈ urls cbs, ¬UrlRejected lib u) (hchunk : Chunked cbs) :
    p.callbacks lib cbs = .error .undefined := by
  induction cbs generalizing p with
  | nil =>
    obtain ⟨part, hpart⟩ := hchunk
    cases hpart
  | cons cb cbs ih =>
    by_cases hcb : ∃ part, cb = .chunk part
    · obtain ⟨part, rfl⟩ := hcb
      rfl
    · have hrest := (chunked_cons.mp hchunk).resolve_left hcb
      have hfirst : ∀ u, cb.url? = some u → ¬UrlRejected lib u := by
        intro u hu
        exact h u (by rw [urls_cons_some hu]; exact List.mem_cons_self)
      have hothers : ∀ u ∈ urls cbs, ¬UrlRejected lib u := by
        intro u hu
        refine h u ?_
        cases hurl : cb.url? with
        | none => rwa [urls_cons_none hurl]
        | some v => rw [urls_cons_some hurl]; exact List.mem_cons_of_mem _ hu
      obtain ⟨q, hq, hreq⟩ := callback_request hp hfirst fun part hpart => hcb ⟨part, hpart⟩
      rw [callbacks_cons_ok hq]
      exact ih hreq hothers hrest

/-- There is no URL behind a chunk. -/
def ChunksLast (cbs : List Callback) : Prop :=
  cbs.Pairwise fun a b => (∃ part, a = .chunk part) → b.url? = none

/-- A rejected URL is an exception. -/
theorem callbacks_request_error {p : ParserFields} (hp : IsRequest p) {cbs : List Callback}
    (hlast : ChunksLast cbs) (h : ∃ u ∈ urls cbs, UrlRejected lib u) :
    ∃ e, e ≠ .undefined ∧ p.callbacks lib cbs = .error e := by
  induction cbs generalizing p with
  | nil =>
    obtain ⟨u, hu, -⟩ := h
    cases hu
  | cons cb cbs ih =>
    obtain ⟨hbehind, hothers⟩ := List.pairwise_cons.mp hlast
    obtain ⟨u, hu, hurej⟩ := h
    by_cases hfirst : ∃ v, cb.url? = some v ∧ UrlRejected lib v
    · obtain ⟨v, hv, hvrej⟩ := hfirst
      obtain rfl := eq_of_url? hv
      obtain ⟨e, hdefined, he⟩ := onUrl_error hp hvrej
      have hcb : p.callback lib (.data (.url v.1) v.2) = .error e := he
      exact ⟨e, hdefined, callbacks_cons_error hcb cbs⟩
    · have hmem : u ∈ urls cbs := by
        cases hurl : cb.url? with
        | none => rwa [urls_cons_none hurl] at hu
        | some v =>
          rw [urls_cons_some hurl] at hu
          rcases List.mem_cons.mp hu with rfl | hu
          · exact absurd ⟨u, hurl, hurej⟩ hfirst
          · exact hu
      have hchunk : ∀ part, cb ≠ .chunk part := by
        intro part hpart
        obtain ⟨cb', hcb', hurl⟩ := List.mem_filterMap.mp hmem
        cases (hbehind cb' hcb' ⟨part, hpart⟩).symm.trans hurl
      obtain ⟨q, hq, hreq⟩ := callback_request hp (fun v hv hvrej => hfirst ⟨v, hv, hvrej⟩) hchunk
      obtain ⟨e, hdefined, he⟩ := ih hreq hothers ⟨u, hmem, hurej⟩
      exact ⟨e, hdefined, (callbacks_cons_ok hq cbs).trans he⟩

/-! ## Chunks come behind the URL -/

theorem mem_byteEvents_chunk {c : Consumed σ} {b : Char} {part : ChunkPart}
    (h : .chunk part ∈ byteEvents c b) : c.chunk = some part := by
  rw [byteEvents, mark_none, due] at h
  cases hchunk : c.chunk with
  | none => cases hbegin : c.messageBegin <;> cases hel : c.element <;> simp_all [flush]
  | some part' => cases hbegin : c.messageBegin <;> cases hel : c.element <;> simp_all [flush]

/-- A byte with a chunk, and all bytes behind it, are behind the URL. -/
theorem byte_chunked {s : σ} {b : Char} {events : List Callback} {c : Consumed σ}
    (hb : lib.byte s b = .ok (events, c)) (h : Chunked events) :
    urls events = [] ∧ (c.messageComplete = none → lib.urlPhase c.state = .after) := by
  obtain ⟨part, hpart⟩ := h
  rcases byte_cases hb with ⟨-, hc, rfl⟩ | ⟨s', -, hc, rfl⟩
  · exact urls_byte_after hc (lib.consume_chunk hc (mem_byteEvents_chunk hpart))
  · have hmem : .chunk part ∈ byteEvents c b := by simpa using hpart
    exact urls_byte_after hc (lib.consume_chunk hc (mem_byteEvents_chunk hmem))

theorem chunksLast_of_urls {cbs : List Callback} (h : urls cbs = []) : ChunksLast cbs := by
  refine List.pairwise_of_forall_mem_list fun a _ b hb _ => ?_
  exact List.filterMap_eq_nil_iff.mp h b hb

theorem chunksLast_append {xs ys : List Callback} (hx : ChunksLast xs) (hy : ChunksLast ys)
    (h : Chunked xs → urls ys = []) : ChunksLast (xs ++ ys) := by
  refine List.pairwise_append.mpr ⟨hx, hy, ?_⟩
  rintro a ha b hb ⟨part, rfl⟩
  exact List.filterMap_eq_nil_iff.mp (h ⟨part, ha⟩) b hb

/-- Without chunks there is nothing to be behind. -/
theorem chunksLast_of_not {cbs : List Callback} (h : ¬Chunked cbs) : ChunksLast cbs := by
  refine List.pairwise_of_forall_mem_list fun a ha b _ => ?_
  rintro ⟨part, rfl⟩
  exact absurd ⟨part, ha⟩ h

theorem scan_chunksLast (lib : HttpParser σ) (s : σ) (x : Str) :
    ChunksLast (lib.scan s x).events := by
  induction x generalizing s with
  | nil => exact .nil
  | cons b x ih =>
    cases hb : lib.byte s b with
    | error e => rw [scan_refused hb]; exact .nil
    | ok r =>
      obtain ⟨events, c⟩ := r
      have hevents : ChunksLast events := by
        by_cases hchunk : Chunked events
        · exact chunksLast_of_urls (byte_chunked hb hchunk).1
        · exact chunksLast_of_not hchunk
      cases hc : c.messageComplete with
      | some flags =>
        rw [scan_last hb hc]
        exact chunksLast_append hevents (List.pairwise_singleton _ _) fun _ => rfl
      | none =>
        rw [scan_more _ hb hc]
        exact chunksLast_append hevents (ih c.state) fun hchunk =>
          scan_after x ((byte_chunked hb hchunk).2 hc)

/-- Behind the URL a stream stays there. -/
theorem scan_more_after {s s' : σ} {x : Str} (hs : lib.urlPhase s = .after)
    (ho : (lib.scan s x).outcome = .more s') : lib.urlPhase s' = .after := by
  induction x generalizing s with
  | nil =>
    cases ho
    exact hs
  | cons b x ih =>
    cases hb : lib.byte s b with
    | error e =>
      rw [scan_refused hb] at ho
      cases ho
    | ok r =>
      obtain ⟨events, c⟩ := r
      cases hc : c.messageComplete with
      | some flags =>
        rw [scan_last hb hc] at ho
        cases ho
      | none =>
        rw [scan_more _ hb hc] at ho
        refine ih ?_ ho
        rcases byte_cases hb with ⟨-, hconsume, -⟩ | ⟨s'', hh, hconsume, -⟩
        · exact (urls_byte_after hconsume hs).2 hc
        · exact (urls_byte_after hconsume (lib.headersComplete_phase hh).2).2 hc

theorem chunked_append {xs ys : List Callback} :
    Chunked (xs ++ ys) ↔ Chunked xs ∨ Chunked ys := by
  simp only [Chunked, List.mem_append, exists_or]

/-- After a chunk the machine is behind the URL. -/
theorem scan_chunked_after {s s' : σ} {x : Str} (hchunk : Chunked (lib.scan s x).events)
    (ho : (lib.scan s x).outcome = .more s') : lib.urlPhase s' = .after := by
  induction x generalizing s with
  | nil =>
    obtain ⟨part, hpart⟩ := hchunk
    cases hpart
  | cons b x ih =>
    cases hb : lib.byte s b with
    | error e =>
      rw [scan_refused hb] at ho
      cases ho
    | ok r =>
      obtain ⟨events, c⟩ := r
      cases hc : c.messageComplete with
      | some flags =>
        rw [scan_last hb hc] at ho
        cases ho
      | none =>
        rw [scan_more _ hb hc] at ho hchunk
        rcases chunked_append.mp hchunk with hbyte | hrest
        · exact scan_more_after ((byte_chunked hb hbyte).2 hc) ho
        · exact ih hrest ho

/-- Nor are there pieces of the URL in the buffers behind. -/
theorem urlFragments_after {s : σ} (hs : lib.urlPhase s = .after) (cuts : List Str) :
    urlFragments lib s cuts = [] := by
  induction cuts generalizing s with
  | nil => rfl
  | cons data cuts ih =>
    have hempty : (lib.emptyFragment s data).filterMap Callback.url? = [] := by
      rcases emptyFragment_cases lib s data with h | ⟨el, hel, h⟩
      · rw [h]
        rfl
      · rw [h]
        cases el with
        | url m => cases (lib.resumed_url hel).symm.trans hs
        | _ => rfl
    have hurl : urlOf (lib.scan s data).events = none := by
      have hurls := scan_after data hs
      unfold urls at hurls
      unfold urlOf
      rw [hurls]
    rw [urlFragments, urlPieces, hempty, hurl]
    cases ho : (lib.scan s data).outcome with
    | more s' => exact ih (scan_more_after hs ho)
    | complete => rfl
    | rejected => rfl

/-! ## Consecutive calls of `feed` -/

theorem urls_atoms (cb : Callback) :
    urls cb.atoms = (cb.url?.toList).flatMap fun u => u.2.map fun b => (u.1, [b]) := by
  cases cb with
  | data el frag =>
    cases el with
    | url m => simp [Callback.atoms, Callback.url?, urls, List.filterMap_map, Function.comp_def]
    | _ => simp [Callback.atoms, Callback.url?, urls, List.filterMap_map, Function.comp_def]
  | _ => rfl

/-- The URL is read off the events of a buffer. -/
theorem urls_eq_urlOf {s : σ} {data : Str} {cbs : List Callback} (h : Delivers lib s data cbs) :
    urls cbs = (urlOf (lib.scan s data).events).toList := by
  have hatoms : ∀ cbs : List Callback, urls (atomsOf cbs) =
      (urls cbs).flatMap fun u => u.2.map fun b => (u.1, [b]) := by
    intro cbs
    induction cbs with
    | nil => rfl
    | cons cb cbs ih =>
      have hcons : atomsOf (cb :: cbs) = cb.atoms ++ atomsOf cbs := rfl
      rw [hcons, urls_append, ih, urls_atoms]
      cases hurl : cb.url? with
      | none => rw [urls_cons_none hurl]; rfl
      | some u => rw [urls_cons_some hurl]; simp
  have hone := h.onePiece
  unfold OnePiece at hone
  have hevents : (lib.scan s data).events.filterMap Callback.url? = urls (atomsOf cbs) := by
    rw [h.events]
    rfl
  unfold urlOf
  rw [hevents, hatoms]
  match hurls : urls cbs with
  | [] => rfl
  | [(m, frag)] =>
    have hmem : (m, frag) ∈ urls cbs := by rw [hurls]; exact List.mem_singleton.mpr rfl
    obtain ⟨cb, hcb, hurl⟩ := List.mem_filterMap.mp hmem
    obtain rfl := eq_of_url? hurl
    cases frag with
    | nil => exact absurd hcb (h.proper (.url m))
    | cons b frag => simp [List.flatMap_map]
  | _ :: _ :: _ =>
    rw [hurls] at hone
    simp at hone

theorem feed_complete {p : Parser σ} (h : p.parsing_complete_ = true) (data : Str) :
    p.feed lib data = .ok (p, 0) := by
  simp [Parser.feed, Parser.feedLoop, h]

theorem feedAll_complete {p : Parser σ} (h : p.parsing_complete_ = true) (cuts : List Str) :
    p.feedAll lib cuts = .ok p := by
  induction cuts with
  | nil => rfl
  | cons data cuts ih => simp [Parser.feedAll, feed_complete h, bind, Except.bind, ih]

/-- Transfer from the events to the callbacks that deliver them. -/
theorem Delivers.chunksLast {s : σ} {data : Str} {cbs : List Callback} (h : Delivers lib s data cbs) :
    ChunksLast cbs := by
  have hatoms : ChunksLast (atomsOf cbs) := h.events ▸ scan_chunksLast lib s data
  have hproper := h.proper
  clear h
  induction cbs with
  | nil => exact .nil
  | cons cb cbs ih =>
    have hcons : atomsOf (cb :: cbs) = cb.atoms ++ atomsOf cbs := rfl
    rw [hcons, ChunksLast, List.pairwise_append] at hatoms
    obtain ⟨-, hothers, hbehind⟩ := hatoms
    have hrest : Proper cbs := fun el hmem => hproper el (List.mem_cons_of_mem _ hmem)
    refine List.pairwise_cons.mpr ⟨?_, ih hothers hrest⟩
    rintro cb' hcb' ⟨part, rfl⟩
    have hnone : urls (atomsOf cbs) = [] := by
      refine List.filterMap_eq_nil_iff.mpr fun a ha => ?_
      exact hbehind _ (List.mem_singleton_self _) a ha ⟨part, rfl⟩
    exact List.filterMap_eq_nil_iff.mp (urls_eq_nil_of_atomsOf hrest hnone) cb' hcb'

theorem Delivers.chunked {s : σ} {data : Str} {cbs : List Callback} (h : Delivers lib s data cbs) :
    Chunked cbs ↔ Chunked (lib.scan s data).events := by
  rw [← h.events]
  refine exists_congr fun part => (mem_atomsOf ?_).symm
  intro el frag hcb
  cases hcb

theorem not_chunked_emptyFragment (lib : HttpParser σ) (s : σ) (data : Str) :
    ¬Chunked (lib.emptyFragment s data) := by
  rintro ⟨part, hpart⟩
  rcases emptyFragment_cases lib s data with h | ⟨el, -, h⟩ <;> rw [h] at hpart
  · cases hpart
  · cases List.mem_singleton.mp hpart

/-- For a request the empty piece matters only as a piece of the URL. -/
theorem foldl_absorb_emptyFragment {f : ParserFields} (hf : IsRequest f) {s : σ}
    (hres : Resumable lib f s) (data : Str) :
    (lib.emptyFragment s data).foldl ParserFields.absorb f = f := by
  rcases emptyFragment_cases lib s data with h | ⟨el, hel, h⟩
  · rw [h]
    rfl
  · rw [h, List.foldl_cons, List.foldl_nil]
    by_cases hurl : ∃ m, el = .url m
    · obtain ⟨m, rfl⟩ := hurl
      rfl
    · have hsame := hres el hel fun m h => hurl ⟨m, h⟩
      rw [callback_of_notUrl hf] at hsame
      · exact Except.ok.inj hsame
      · cases el with
        | url m => exact absurd ⟨m, rfl⟩ hurl
        | _ => rfl
      · nofun

theorem urls_emptyFragment {s : σ} {data : Str} {cbs : List Callback} (h : Delivers lib s data cbs) :
    urls (lib.emptyFragment s data ++ cbs) = urlPieces lib s data := by
  rw [urls_append, urls_eq_urlOf h]
  rfl

/-- What one call of `feed` does for a request: its pieces of the URL may be rejected, it may come to a
chunk, and otherwise it leaves the events of its bytes. -/
inductive RequestSpec (lib : HttpParser σ) (f : ParserFields) (s : σ) (data : Str) :
    Except Exception (Parser σ × Nat) → Prop where
  | rejected {e : Exception} (h : ∃ u ∈ urlPieces lib s data, UrlRejected lib u)
      (he : e ≠ .undefined) : RequestSpec lib f s data (.error e)
  | chunked (h : ∀ u ∈ urlPieces lib s data, ¬UrlRejected lib u)
      (hchunk : Chunked (lib.scan s data).events) : RequestSpec lib f s data (.error .undefined)
  | complete {f' : ParserFields} (x : σ) (e : Errno)
      (h : ∀ u ∈ urlPieces lib s data, ¬UrlRejected lib u)
      (hchunk : ¬Chunked (lib.scan s data).events) (ho : (lib.scan s data).outcome = .complete)
      (hf' : f' = ((lib.scan s data).events.foldl ParserFields.absorb f).withUrl lib
        (urlPieces lib s data).getLast?) (hdone : f'.parsing_complete_ = true) :
      RequestSpec lib f s data (.ok (⟨f', x, e⟩, (lib.scan s data).used))
  | more {f' : ParserFields} (s' : σ) (h : ∀ u ∈ urlPieces lib s data, ¬UrlRejected lib u)
      (hchunk : ¬Chunked (lib.scan s data).events) (ho : (lib.scan s data).outcome = .more s')
      (hf' : f' = ((lib.scan s data).events.foldl ParserFields.absorb f).withUrl lib
        (urlPieces lib s data).getLast?) (hopen : f'.parsing_complete_ = false)
      (hres : Resumable lib f' s') : RequestSpec lib f s data (.ok (⟨f', s', .ok⟩, data.length))

/-- The callbacks of one call. -/
theorem callbacks_feed {f : ParserFields} (hf : IsRequest f) {s : σ} (hres : Resumable lib f s)
    {data : Str} {cbs : List Callback} (hcbs : Delivers lib s data cbs) :
    ((∃ u ∈ urlPieces lib s data, UrlRejected lib u) →
      ∃ e, e ≠ .undefined ∧ f.callbacks lib (lib.emptyFragment s data ++ cbs) = .error e) ∧
    ((∀ u ∈ urlPieces lib s data, ¬UrlRejected lib u) → Chunked (lib.scan s data).events →
      f.callbacks lib (lib.emptyFragment s data ++ cbs) = .error .undefined) ∧
    ((∀ u ∈ urlPieces lib s data, ¬UrlRejected lib u) → ¬Chunked (lib.scan s data).events →
      f.callbacks lib (lib.emptyFragment s data ++ cbs) =
        .ok (((lib.scan s data).events.foldl ParserFields.absorb f).withUrl lib
          (urlPieces lib s data).getLast?)) := by
  rw [← urls_emptyFragment hcbs, ← hcbs.chunked]
  have hnot := not_chunked_emptyFragment lib s data
  refine ⟨callbacks_request_error hf ?_, fun h hchunk => ?_, fun h hchunk => ?_⟩
  · exact chunksLast_append (chunksLast_of_not hnot) hcbs.chunksLast fun h => absurd h hnot
  · exact callbacks_request_undefined hf h (chunked_append.mpr (Or.inr hchunk))
  · rw [callbacks_request hf h (fun hall => (chunked_append.mp hall).elim hnot hchunk),
      List.foldl_append, foldl_absorb_emptyFragment hf hres, ← foldl_absorb_atomsOf f hcbs.proper,
      hcbs.events]

theorem feed_request (lib : HttpParser σ) {f : ParserFields} (hf : IsRequest f)
    (hinc : f.parsing_complete_ = false) {s : σ} (hres : Resumable lib f s) (data : Str)
    (ho : (lib.scan s data).outcome ≠ .rejected) :
    RequestSpec lib f s data ((⟨f, s, .ok⟩ : Parser σ).feed lib data) := by
  cases feed_spec lib data hinc hres with
  | throws ho' hr => exact absurd ho' ho
  | @complete s' e cbs ho' hcbs hf' hr =>
    obtain ⟨hrejected, hchunked, hok⟩ := callbacks_feed hf hres hcbs
    rw [hr]
    by_cases h : ∃ u ∈ urlPieces lib s data, UrlRejected lib u
    · obtain ⟨e, hdefined, he⟩ := hrejected h
      rw [he]
      exact .rejected h hdefined
    · have hnone : ∀ u ∈ urlPieces lib s data, ¬UrlRejected lib u := fun u hu hurej =>
        h ⟨u, hu, hurej⟩
      by_cases hchunk : Chunked (lib.scan s data).events
      · rw [hchunked hnone hchunk]
        exact .chunked hnone hchunk
      · have hdone := hf' _ (hok hnone hchunk)
        rw [hok hnone hchunk, Nat.zero_add]
        exact .complete s' e hnone hchunk ho' rfl hdone
  | @more s' cbs ho' hcbs hf' hr =>
    obtain ⟨hrejected, hchunked, hok⟩ := callbacks_feed hf hres hcbs
    rw [hr]
    by_cases h : ∃ u ∈ urlPieces lib s data, UrlRejected lib u
    · obtain ⟨e, hdefined, he⟩ := hrejected h
      rw [he]
      exact .rejected h hdefined
    · have hnone : ∀ u ∈ urlPieces lib s data, ¬UrlRejected lib u := fun u hu hurej =>
        h ⟨u, hu, hurej⟩
      by_cases hchunk : Chunked (lib.scan s data).events
      · rw [hchunked hnone hchunk]
        exact .chunked hnone hchunk
      · obtain ⟨hopen, hnext⟩ := hf' _ (hok hnone hchunk)
        rw [hok hnone hchunk, Nat.zero_add]
        exact .more s' hnone hchunk ho' rfl hopen hnext

theorem urlFragments_of_more {s s' : σ} {data : Str} (h : (lib.scan s data).outcome = .more s')
    (cuts : List Str) : urlFragments lib s (data :: cuts) =
      urlPieces lib s data ++ urlFragments lib s' cuts := by
  simp [urlFragments, h]

theorem urlFragments_of_complete {s : σ} {data : Str} (h : (lib.scan s data).outcome = .complete)
    (cuts : List Str) : urlFragments lib s (data :: cuts) = urlPieces lib s data := by
  simp [urlFragments, h]

/-- The events of two calls, of which the second overwrites the URL of the first. -/
theorem foldl_absorb_join {f : ParserFields} (hf : IsRequest f) (xs ys : List Callback)
    (first : List (Nat × Str)) {pieces : List (Nat × Str)}
    (hpieces : ∀ v ∈ pieces, ¬UrlRejected lib v) :
    (ys.foldl ParserFields.absorb
        ((xs.foldl ParserFields.absorb f).withUrl lib first.getLast?)).withUrl lib pieces.getLast? =
      ((xs ++ ys).foldl ParserFields.absorb f).withUrl lib (first ++ pieces).getLast? := by
  have hxs := foldl_absorb_request hf xs
  rw [foldl_absorb_withUrl hxs, List.foldl_append, List.getLast?_append]
  cases hlast : pieces.getLast? with
  | none => cases first.getLast? <;> rfl
  | some v =>
    have hv := hpieces v (List.mem_of_getLast? hlast)
    rw [withUrl_withUrl (foldl_absorb_request hxs ys) _ hv]
    rfl

/-- A run of `feed` calls over the bytes of a request. -/
theorem feedAll_request (lib : HttpParser σ) {f : ParserFields} (hf : IsRequest f)
    (hinc : f.parsing_complete_ = false) {s : σ} (hres : Resumable lib f s) (cuts : List Str)
    (ho : (lib.scan s cuts.flatten).outcome ≠ .rejected) :
    ((∃ u ∈ urlFragments lib s cuts, UrlRejected lib u) →
      ∃ e, e ≠ .undefined ∧ (⟨f, s, .ok⟩ : Parser σ).feedAll lib cuts = .error e) ∧
    ((∀ u ∈ urlFragments lib s cuts, ¬UrlRejected lib u) →
      Chunked (lib.scan s cuts.flatten).events →
        (⟨f, s, .ok⟩ : Parser σ).feedAll lib cuts = .error .undefined) ∧
    ((∀ u ∈ urlFragments lib s cuts, ¬UrlRejected lib u) →
      ¬Chunked (lib.scan s cuts.flatten).events →
        ∃ x e, (⟨f, s, .ok⟩ : Parser σ).feedAll lib cuts = .ok
          ⟨((lib.scan s cuts.flatten).events.foldl ParserFields.absorb f).withUrl lib
            (urlFragments lib s cuts).getLast?, x, e⟩) := by
  induction cuts generalizing f s with
  | nil =>
    refine ⟨?_, ?_, fun _ _ => ⟨s, .ok, rfl⟩⟩
    · rintro ⟨u, hu, -⟩
      cases hu
    · rintro - ⟨part, hpart⟩
      cases hpart
  | cons data cuts ih =>
    rw [List.flatten_cons] at ho ⊢
    have hstep : (⟨f, s, .ok⟩ : Parser σ).feedAll lib (data :: cuts) =
        ((⟨f, s, .ok⟩ : Parser σ).feed lib data).bind fun q => q.1.feedAll lib cuts := rfl
    rw [hstep]
    have hdata : (lib.scan s data).outcome ≠ .rejected := fun h =>
      ho (scan_append_of_rejected h _)
    -- what the pieces of this call decide
    have hfirst : ∀ {u : Nat × Str}, u ∈ urlPieces lib s data → u ∈ urlFragments lib s (data :: cuts) :=
      fun hu => List.mem_append_left _ hu
    generalize hfeed : (⟨f, s, .ok⟩ : Parser σ).feed lib data = r
    have hspec := feed_request lib hf hinc hres data hdata
    rw [hfeed] at hspec
    cases hspec with
    | rejected h he =>
      obtain ⟨u, hu, hurej⟩ := h
      exact ⟨fun _ => ⟨_, he, rfl⟩, fun h => absurd hurej (h u (hfirst hu)),
        fun h => absurd hurej (h u (hfirst hu))⟩
    | chunked h hchunk =>
      have hall : Chunked (lib.scan s (data ++ cuts.flatten)).events := by
        cases ho' : (lib.scan s data).outcome with
        | rejected => exact absurd ho' hdata
        | complete => rwa [scan_append_of_complete ho']
        | more s' =>
          rw [scan_append_of_more ho']
          exact chunked_append.mpr (Or.inl hchunk)
      refine ⟨?_, fun _ _ => rfl, fun _ hnot => absurd hall hnot⟩
      rintro ⟨u, hu, hurej⟩
      rw [urlFragments] at hu
      rcases List.mem_append.mp hu with hu | hu
      · exact absurd hurej (h u hu)
      · -- a chunk is behind the URL
        split at hu
        · next s' ho' =>
          rw [urlFragments_after (scan_chunked_after hchunk ho')] at hu
          cases hu
        · cases hu
    | complete x e h hchunk ho' hf' hdone =>
      rw [urlFragments_of_complete ho', scan_append_of_complete ho']
      refine ⟨?_, fun _ hall => absurd hall hchunk, fun _ _ => ⟨x, e, ?_⟩⟩
      · rintro ⟨u, hu, hurej⟩
        exact absurd hurej (h u hu)
      · rw [← hf']
        exact feedAll_complete hdone cuts
    | more s' h hchunk ho' hf' hopen hnext =>
      rw [scan_append_of_more ho'] at ho ⊢
      rw [urlFragments_of_more ho', chunked_append]
      have hreq : IsRequest _ := withUrl_request lib
        (foldl_absorb_request hf (lib.scan s data).events) (urlPieces lib s data).getLast?
      rw [← hf'] at hreq
      obtain ⟨hrejected, hchunked, hok⟩ := ih hreq hopen hnext ho
      have hrest : (∀ u ∈ urlPieces lib s data ++ urlFragments lib s' cuts, ¬UrlRejected lib u) →
          ∀ u ∈ urlFragments lib s' cuts, ¬UrlRejected lib u :=
        fun h u hu => h u (List.mem_append_right _ hu)
      refine ⟨?_, ?_, ?_⟩
      · rintro ⟨u, hu, hurej⟩
        refine hrejected ⟨u, ?_, hurej⟩
        rcases List.mem_append.mp hu with hu | hu
        · exact absurd hurej (h u hu)
        · exact hu
      · rintro hall hchunk'
        exact hchunked (hrest hall) (hchunk'.resolve_left hchunk)
      · intro hall hchunk'
        obtain ⟨x, e, hx⟩ := hok (hrest hall) fun h => hchunk' (Or.inr h)
        refine ⟨x, e, hx.trans ?_⟩
        rw [hf', foldl_absorb_join hf _ _ _ (hrest hall)]

/-! ## Two cuttings of the same bytes -/

theorem methodMap_known {m : Nat} {method : Method} (h : AssocMap.find methodMap m = some method) :
    method ≠ .unknown := by
  have hall : ∀ row ∈ methodMap, row.2 ≠ Method.unknown := by decide
  exact hall _ (AssocMap.mem_of_find h)

theorem methodMap_injective {m m' : Nat} {method : Method}
    (h : AssocMap.find methodMap m = some method) (h' : AssocMap.find methodMap m' = some method) :
    m = m' := by
  have hall : ∀ row ∈ methodMap, ∀ row' ∈ methodMap, row.2 = row'.2 → row.1 = row'.1 := by decide
  exact hall _ (AssocMap.mem_of_find h) _ (AssocMap.mem_of_find h') rfl

/-- The method of the request that the parser is attached to. -/
def methodOf (p : ParserFields) : Option Method :=
  match p.message_ with
  | .request req => some req.method_
  | .response _ => none

theorem methodOf_storeCurrentHeader (p : ParserFields) :
    methodOf p.storeCurrentHeader = methodOf p := by
  unfold ParserFields.storeCurrentHeader methodOf
  split_ifs
  · rfl
  · cases p.message_ <;> rfl

theorem methodOf_absorb (p : ParserFields) (cb : Callback) : methodOf (p.absorb cb) = methodOf p := by
  have hstore := methodOf_storeCurrentHeader p
  have hbase : ∀ m, methodOf { p with message_ := p.message_.setBase m } = methodOf p := by
    intro m
    unfold methodOf
    cases p.message_ <;> rfl
  cases cb with
  | data el frag =>
    cases el with
    | headerField => exact hstore
    | body => exact hbase _
    | _ => rfl
  | messageBegin => rfl
  | chunk part => rfl
  | headersComplete => exact hstore
  | messageComplete flags => exact hbase _

theorem methodOf_foldl_absorb (p : ParserFields) (cbs : List Callback) :
    methodOf (cbs.foldl ParserFields.absorb p) = methodOf p := by
  induction cbs generalizing p with
  | nil => rfl
  | cons cb cbs ih =>
    rw [List.foldl_cons, ih]
    exact methodOf_absorb p cb

theorem withUrl_some {p : ParserFields} {req : Request} (hp : p.message_ = .request req) {m : Nat}
    {data : Str} {url : Url} {method : Method} (hu : Url.ofString lib data = .ok url)
    (hm : AssocMap.find methodMap m = some method) :
    (p.withUrl lib (some (m, data))).message_ =
      .request { req with url_ := url, method_ := method } := by
  simp [ParserFields.withUrl, hp, hu, hm]

@[simp] theorem withUrl_parsing_complete (p : ParserFields) (u : Option (Nat × Str)) :
    (p.withUrl lib u).parsing_complete_ = p.parsing_complete_ := by
  cases u with
  | none => rfl
  | some u =>
    simp only [ParserFields.withUrl]
    split <;> rfl

/-- The URL that was set last can be read off the request. -/
theorem withUrl_injective (lib : HttpParser σ) {p : ParserFields} (hp : methodOf p = some .unknown)
    {u v : Option (Nat × Str)} (hu : ∀ x, u = some x → ¬UrlRejected lib x)
    (hv : ∀ x, v = some x → ¬UrlRejected lib x)
    (h : (p.withUrl lib u).message_ = (p.withUrl lib v).message_) : u = v := by
  obtain ⟨req, hreq, hmethod⟩ : ∃ req, p.message_ = .request req ∧ req.method_ = .unknown := by
    unfold methodOf at hp
    split at hp
    · next req hreq => exact ⟨req, hreq, Option.some.inj hp⟩
    · cases hp
  have hset : ∀ x : Nat × Str, ¬UrlRejected lib x → ∃ r : Request,
      (p.withUrl lib (some x)).message_ = .request r ∧ r.url_.full_ = x.2 ∧
        AssocMap.find methodMap x.1 = some r.method_ := by
    intro x hx
    obtain ⟨url, method, hurl, hm⟩ := exists_of_not_rejected hx
    exact ⟨_, withUrl_some hreq hurl hm, Url.full_ofString hurl, hm⟩
  cases u with
  | none =>
    cases v with
    | none => rfl
    | some y =>
      obtain ⟨r, hr, -, hm⟩ := hset y (hv y rfl)
      rw [hr, show (p.withUrl lib none).message_ = .request req from hreq,
        AnyMessage.request.injEq] at h
      exact absurd (h ▸ hmethod) (methodMap_known hm)
  | some x =>
    obtain ⟨r, hr, hfull, hm⟩ := hset x (hu x rfl)
    cases v with
    | none =>
      rw [hr, show (p.withUrl lib none).message_ = .request req from hreq,
        AnyMessage.request.injEq] at h
      exact absurd (h ▸ hmethod) (methodMap_known hm)
    | some y =>
      obtain ⟨r', hr', hfull', hm'⟩ := hset y (hv y rfl)
      rw [hr, hr', AnyMessage.request.injEq] at h
      subst h
      have h1 := methodMap_injective hm hm'
      have h2 : x.2 = y.2 := hfull.symm.trans hfull'
      rw [show x = (x.1, x.2) from rfl, h1, h2]

/-- What a run over the bytes of a request leaves. -/
theorem observe_feedAll (lib : HttpParser σ) (req : Request) (cuts : List Str)
    (ho : (lib.scan (lib.init .request) cuts.flatten).outcome ≠ .rejected) :
    let pieces := urlFragments lib (lib.init .request) cuts
    let events := (lib.scan (lib.init .request) cuts.flatten).events
    let f := events.foldl ParserFields.absorb (Parser.new lib (.request req)).toParserFields
    let r := (Parser.new lib (.request req)).feedAll lib cuts
    ((∃ u ∈ pieces, UrlRejected lib u) → r ≠ .error .undefined ∧ observe r = none) ∧
    ((∀ u ∈ pieces, ¬UrlRejected lib u) → Chunked events → r = .error .undefined) ∧
    ((∀ u ∈ pieces, ¬UrlRejected lib u) → ¬Chunked events → r ≠ .error .undefined ∧
      observe r = some (f.parsing_complete_, (f.withUrl lib pieces.getLast?).message_)) := by
  obtain ⟨hrejected, hchunked, hok⟩ := feedAll_request lib
    (f := (Parser.new lib (.request req)).toParserFields) ⟨req, rfl⟩ rfl
    (resumable_of_none (lib.resumed_init .request) _) cuts ho
  refine ⟨fun h => ?_, hchunked, fun h hchunk => ?_⟩
  · obtain ⟨e, hdefined, he⟩ := hrejected h
    have hr : (Parser.new lib (.request req)).feedAll lib cuts = .error e := he
    rw [hr]
    exact ⟨fun heq => hdefined (Except.error.inj heq), rfl⟩
  · obtain ⟨x, e, hx⟩ := hok h hchunk
    have hr : (Parser.new lib (.request req)).feedAll lib cuts = .ok _ := hx
    rw [hr]
    refine ⟨nofun, ?_⟩
    simp [observe, Except.toOption]

/-- For the bytes of one request, or of its beginning, two cuttings into `feed` calls are defined and
leave the same completeness and the same request exactly when their URL pieces agree and there are no
chunks: no cut makes a difference but one inside the URL or at its end. -/
theorem same_request_iff_same_url (lib : HttpParser σ) {cuts cuts' : List Str}
    (hcuts : cuts.flatten = cuts'.flatten)
    (ho : (lib.scan (lib.init .request) cuts.flatten).outcome ≠ .rejected) :
    SameRun ((Parser.new lib (.request Request.cleared)).feedAll lib cuts)
        ((Parser.new lib (.request Request.cleared)).feedAll lib cuts') ↔
      SameUrl lib cuts cuts' := by
  obtain ⟨hrej, hundef, hok⟩ := observe_feedAll lib Request.cleared cuts ho
  obtain ⟨hrej', hundef', hok'⟩ := observe_feedAll lib Request.cleared cuts' (hcuts ▸ ho)
  rw [← hcuts] at hundef' hok'
  unfold SameUrl SameRun
  set pieces := urlFragments lib (lib.init .request) cuts
  set pieces' := urlFragments lib (lib.init .request) cuts'
  by_cases h : ∃ u ∈ pieces, UrlRejected lib u
  · have hnot : ¬∀ u ∈ pieces, ¬UrlRejected lib u := by
      intro hall
      obtain ⟨u, hu, hurej⟩ := h
      exact hall u hu hurej
    obtain ⟨hdefined, hnone⟩ := hrej h
    rw [hnone]
    constructor
    · rintro ⟨-, hdefined', heq⟩
      refine ⟨iff_of_true h ?_, fun hall => absurd hall hnot⟩
      by_contra h'
      have hall' : ∀ u ∈ pieces', ¬UrlRejected lib u := fun u hu hurej => h' ⟨u, hu, hurej⟩
      by_cases hchunk : Chunked (lib.scan (lib.init .request) cuts.flatten).events
      · exact hdefined' (hundef' hall' hchunk)
      · rw [(hok' hall' hchunk).2] at heq
        cases heq
    · rintro ⟨hiff, -⟩
      obtain ⟨hdefined', hnone'⟩ := hrej' (hiff.mp h)
      exact ⟨hdefined, hdefined', hnone'.symm⟩
  · have hall : ∀ u ∈ pieces, ¬UrlRejected lib u := fun u hu hurej => h ⟨u, hu, hurej⟩
    by_cases hchunk : Chunked (lib.scan (lib.init .request) cuts.flatten).events
    · refine iff_of_false ?_ ?_
      · rintro ⟨hdefined, -⟩
        exact hdefined (hundef hall hchunk)
      · rintro ⟨-, hlast⟩
        exact (hlast hall).2 hchunk
    obtain ⟨hdefined, hsome⟩ := hok hall hchunk
    rw [hsome]
    by_cases h' : ∃ u ∈ pieces', UrlRejected lib u
    · rw [(hrej' h').2]
      constructor
      · rintro ⟨-, -, heq⟩
        cases heq
      · rintro ⟨hiff, -⟩
        exact absurd (hiff.mpr h') h
    · have hall' : ∀ u ∈ pieces', ¬UrlRejected lib u := fun u hu hurej => h' ⟨u, hu, hurej⟩
      obtain ⟨hdefined', hsome'⟩ := hok' hall' hchunk
      rw [hsome']
      constructor
      · rintro ⟨-, -, heq⟩
        refine ⟨iff_of_false h h', fun _ => ⟨?_, hchunk⟩⟩
        rw [Option.some.injEq, Prod.mk.injEq] at heq
        refine withUrl_injective lib ?_ (fun x hx => ?_) (fun x hx => ?_) heq.2
        · rw [methodOf_foldl_absorb]
          rfl
        · exact hall x (List.mem_of_getLast? hx)
        · exact hall' x (List.mem_of_getLast? hx)
      · rintro ⟨-, hlast⟩
        rw [(hlast hall).1]
        exact ⟨hdefined, hdefined', rfl⟩

/-- A cut inside the value of a header. -/
theorem same_request_cut_in_header :
    SameRun ((Parser.new PlainParser.lib (.request Request.cleared)).feedAll PlainParser.lib
        ["GET /a/b HTTP/1.1\r\nHost: x".toList, "y\r\n\r\n".toList])
      ((Parser.new PlainParser.lib (.request Request.cleared)).feedAll PlainParser.lib
        ["GET /a/b HTTP/1.1\r\nHost: xy\r\n\r\n".toList]) := by
  have hpieces : urlFragments PlainParser.lib (PlainParser.lib.init .request)
      ["GET /a/b HTTP/1.1\r\nHost: x".toList, "y\r\n\r\n".toList] = [(1, "/a/b".toList)] := by
    decide
  have hpieces' : urlFragments PlainParser.lib (PlainParser.lib.init .request)
      ["GET /a/b HTTP/1.1\r\nHost: xy\r\n\r\n".toList] = [(1, "/a/b".toList)] := by
    decide
  have hcomplete : (PlainParser.lib.scan (PlainParser.lib.init .request)
      ["GET /a/b HTTP/1.1\r\nHost: x".toList, "y\r\n\r\n".toList].flatten).outcome =
        .complete := by
    rfl
  have hchunk : ¬Chunked (PlainParser.lib.scan (PlainParser.lib.init .request)
      ["GET /a/b HTTP/1.1\r\nHost: x".toList, "y\r\n\r\n".toList].flatten).events := by
    decide
  have hcuts : ["GET /a/b HTTP/1.1\r\nHost: x".toList, "y\r\n\r\n".toList].flatten =
      ["GET /a/b HTTP/1.1\r\nHost: xy\r\n\r\n".toList].flatten := by
    decide
  refine (same_request_iff_same_url PlainParser.lib hcuts ?_).mpr ?_
  · rw [hcomplete]
    intro h
    cases h
  · unfold SameUrl
    rw [hpieces, hpieces']
    exact ⟨Iff.rfl, fun _ => ⟨rfl, hchunk⟩⟩

/-- The requests with the method GET and the URL `/a/b` of some cuttings. -/
def getCuts : List (List Str) :=
  [["GET /a/b HTTP/1.1\r\n\r\n".toList], ["GET /a".toList, "/b HTTP/1.1\r\n\r\n".toList],
    ["GET /a/b".toList, " HTTP/1.1\r\n\r\n".toList]]

/-- A body in one chunk. -/
def chunkedBody : Str :=
  "POST / HTTP/1.1\r\nTransfer-Encoding: chunked\r\n\r\n1\r\nx\r\n0\r\n\r\n".toList

/-- The URL of the message that was read. -/
def urlRead (r : Option (Bool × AnyMessage)) : Option (Bool × Str) :=
  match r with
  | some (complete, .request req) => some (complete, req.url_.full_)
  | _ => none

/-- The same request in one piece, with a cut inside its URL and with a cut at the end of its URL: all are
complete, with three different URLs. With chunks the run is not defined. -/
theorem cut_inside_url_changes_request :
    (∀ cuts ∈ getCuts, cuts.flatten = "GET /a/b HTTP/1.1\r\n\r\n".toList) ∧
    getCuts.map (fun cuts => urlRead (observe
      ((Parser.new PlainParser.lib (.request Request.cleared)).feedAll PlainParser.lib cuts))) =
      [some (true, "/a/b".toList), some (true, "/b".toList), some (true, [])] ∧
    (∀ cuts ∈ getCuts.tail, ¬SameRun
      ((Parser.new PlainParser.lib (.request Request.cleared)).feedAll PlainParser.lib cuts)
      ((Parser.new PlainParser.lib (.request Request.cleared)).feedAll PlainParser.lib
        ["GET /a/b HTTP/1.1\r\n\r\n".toList])) ∧
    ¬SameRun
      ((Parser.new PlainParser.lib (.request Request.cleared)).feedAll PlainParser.lib [chunkedBody])
      ((Parser.new PlainParser.lib (.request Request.cleared)).feedAll PlainParser.lib
        [chunkedBody]) := by
  have hdiffer : ∀ cuts ∈ getCuts.tail,
      observe ((Parser.new PlainParser.lib (.request Request.cleared)).feedAll PlainParser.lib cuts) ≠
        observe ((Parser.new PlainParser.lib (.request Request.cleared)).feedAll PlainParser.lib
          ["GET /a/b HTTP/1.1\r\n\r\n".toList]) := by
    decide +kernel
  refine ⟨by decide, by decide +kernel, fun cuts hcuts h => hdiffer cuts hcuts h.2.2, ?_⟩
  rintro ⟨hdefined, -⟩
  exact hdefined rfl

end Http
