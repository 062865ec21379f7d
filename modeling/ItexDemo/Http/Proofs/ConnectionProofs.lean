import ItexDemo.Http.Connection
import ItexDemo.Http.Proofs.ParserProofs

/-!
# Proofs: the request loop and the boundaries of reads

The inner loop uses whole reads up to the one in which the request ends, and of that one only the
bytes of the request (`readRequest_spec`). The bytes behind it are lost, so that the requests sent
back to back are served one by one exactly when each ends with a read.
-/

namespace Http

variable {σ : Type} {lib : HttpParser σ}

/-! ## The URL in pieces -/

/-- The whole of the pieces of a URL. -/
def joinUrl : List (Nat × Str) → Option (Nat × Str)
  | [] => none
  | (method, fragment) :: rest => some (method, fragment ++ rest.flatMap Prod.snd)

theorem urlOf_eq (events : List Callback) : urlOf events = joinUrl (urls events) := rfl

/-- The bytes of the URL in the events of a stream are those of the pieces. -/
theorem urlFragments_bytes (lib : HttpParser σ) {s : σ} (cuts : List Str)
    (ho : (lib.scan s cuts.flatten).outcome ≠ .rejected) :
    (urlFragments lib s cuts).flatMap Prod.snd =
      (urls (lib.scan s cuts.flatten).events).flatMap Prod.snd := by
  have hpieces : ∀ (s : σ) (data : Str), (urlPieces lib s data).flatMap Prod.snd =
      (urls (lib.scan s data).events).flatMap Prod.snd := by
    intro s data
    have hempty : ((lib.emptyFragment s data).filterMap Callback.url?).flatMap Prod.snd = [] := by
      rcases emptyFragment_cases lib s data with h | ⟨el, -, h⟩
      · rw [h]
        rfl
      · rw [h]
        cases el <;> rfl
    rw [urlPieces, List.flatMap_append, hempty, List.nil_append, urlOf_eq]
    cases urls (lib.scan s data).events with
    | nil => rfl
    | cons u us => simp [joinUrl]
  induction cuts generalizing s with
  | nil => rfl
  | cons data cuts ih =>
    rw [List.flatten_cons] at ho ⊢
    cases ho' : (lib.scan s data).outcome with
    | rejected => exact absurd (scan_append_of_rejected ho' _) ho
    | complete => rw [scan_append_of_complete ho', urlFragments_of_complete ho', hpieces]
    | more s' =>
      rw [scan_append_of_more ho'] at ho ⊢
      rw [urlFragments_of_more ho', List.flatMap_append, hpieces, ih ho, urls_append,
        List.flatMap_append]

/-- The machine is not inside of the URL. -/
def NotInside (lib : HttpParser σ) (s : σ) : Prop := ∀ m, lib.urlPhase s ≠ .inside m

/-- Without a byte of the URL the machine does not get inside of it. -/
theorem scan_notInside {s s' : σ} {x : Str} (hs : NotInside lib s)
    (hurls : urls (lib.scan s x).events = []) (ho : (lib.scan s x).outcome = .more s') :
    NotInside lib s' := by
  induction x generalizing s with
  | nil =>
    cases ho
    exact hs
  | cons b x ih =>
    cases hb : lib.byte s b with
    | error e =>
      rw [scan_refused hb] at ho
      cases ho
    | ok r =>
      obtain ⟨events, c⟩ := r
      cases hc : c.messageComplete with
      | some flags =>
        rw [scan_last hb hc] at ho
        cases ho
      | none =>
        rw [scan_more _ hb hc] at ho hurls
        obtain ⟨hfirst, hothers⟩ := List.append_eq_nil_iff.mp ((urls_append _ _).symm.trans hurls)
        refine ih ?_ hothers ho
        rcases byte_cases hb with ⟨-, hconsume, rfl⟩ | ⟨s'', hh, hconsume, rfl⟩
        · have hel : ∀ m, c.element ≠ some (.url m) := by
            intro m hel
            rw [byteEvents, mark_none, hel, urls_append] at hfirst
            cases (List.append_eq_nil_iff.mp hfirst).2
          intro m hinside
          rcases lib.consume_other hconsume hc hel with ⟨-, hbefore⟩ | hafter
          · cases hbefore.symm.trans hinside
          · cases hafter.symm.trans hinside
        · intro m hinside
          have hafter := (urls_byte_after hconsume (lib.headersComplete_phase hh).2).2 hc
          cases hafter.symm.trans hinside

theorem urlPieces_of_notInside {s : σ} (hs : NotInside lib s) (data : Str) :
    urlPieces lib s data = (urlOf (lib.scan s data).events).toList := by
  have hempty : (lib.emptyFragment s data).filterMap Callback.url? = [] := by
    rcases emptyFragment_cases lib s data with h | ⟨el, hel, h⟩
    · rw [h]
      rfl
    · rw [h]
      cases el with
      | url m => exact absurd (lib.resumed_url hel) (hs m)
      | _ => rfl
  rw [urlPieces, hempty, List.nil_append]

/-- The URL of a stream is the whole of its pieces in the buffers. -/
theorem urlOf_flatten (lib : HttpParser σ) {s : σ} (hs : NotInside lib s) (cuts : List Str)
    (ho : (lib.scan s cuts.flatten).outcome ≠ .rejected) :
    urlOf (lib.scan s cuts.flatten).events = joinUrl (urlFragments lib s cuts) := by
  induction cuts generalizing s with
  | nil => rfl
  | cons data cuts ih =>
    rw [List.flatten_cons] at ho ⊢
    cases ho' : (lib.scan s data).outcome with
    | rejected => exact absurd (scan_append_of_rejected ho' _) ho
    | complete =>
      rw [scan_append_of_complete ho', urlFragments_of_complete ho', urlPieces_of_notInside hs]
      cases h : urlOf (lib.scan s data).events with
      | none => rfl
      | some u => simp [joinUrl]
    | more s' =>
      rw [scan_append_of_more ho'] at ho ⊢
      rw [urlFragments_of_more ho', urlPieces_of_notInside hs]
      cases hurls : urls (lib.scan s data).events with
      | nil =>
        have hnone : urlOf (lib.scan s data).events = none := by rw [urlOf_eq, hurls]; rfl
        have hrest := ih (scan_notInside hs hurls ho') ho
        rw [urlOf_eq] at hrest ⊢
        rw [hnone, urls_append, hurls]
        exact hrest
      | cons u us =>
        -- the method and the first bytes are in this buffer
        have hsome : urlOf (lib.scan s data).events = some (u.1, u.2 ++ us.flatMap Prod.snd) := by
          rw [urlOf_eq, hurls]
          rfl
        have hrest := urlFragments_bytes lib cuts ho
        rw [urlOf_eq, urls_append, hurls, hsome, List.cons_append]
        simp only [joinUrl, Option.toList_some, List.singleton_append, List.flatMap_append, hrest,
          List.append_assoc]

theorem urlOf_ne_nil {s : σ} {data : Str} {u : Nat × Str}
    (h : urlOf (lib.scan s data).events = some u) : u.2 ≠ [] := by
  rw [urlOf_eq] at h
  cases hurls : urls (lib.scan s data).events with
  | nil => simp [hurls, joinUrl] at h
  | cons x xs =>
    simp only [hurls, joinUrl, Option.some.injEq] at h
    have hmem : x ∈ urls (lib.scan s data).events := by
      rw [hurls]
      exact List.mem_cons_self
    obtain ⟨cb, hcb, hurl⟩ := List.mem_filterMap.mp hmem
    obtain rfl := eq_of_url? hurl
    intro hnil
    rw [← h] at hnil
    obtain ⟨hx, -⟩ := List.append_eq_nil_iff.mp hnil
    exact scan_proper data (.url x.1) (hx ▸ hcb)

/-- The first piece of the URL is not empty. -/
theorem head_urlFragments {s : σ} (hs : NotInside lib s) {cuts : List Str} {u : Nat × Str}
    (h : (urlFragments lib s cuts).head? = some u) : u.2 ≠ [] := by
  induction cuts generalizing s with
  | nil => cases h
  | cons data cuts ih =>
    rw [urlFragments, urlPieces_of_notInside hs] at h
    cases hurl : urlOf (lib.scan s data).events with
    | some v =>
      rw [hurl] at h
      obtain rfl : v = u := Option.some.inj h
      exact urlOf_ne_nil hurl
    | none =>
      rw [hurl, Option.toList_none, List.nil_append] at h
      split at h
      · next s' ho =>
        refine ih (scan_notInside hs ?_ ho) h
        cases hurls : urls (lib.scan s data).events with
        | nil => rfl
        | cons x xs =>
          rw [urlOf_eq, hurls] at hurl
          cases hurl
      · cases h

/-- The last piece of a URL is the whole exactly when there is one piece at most. -/
theorem joinUrl_eq_getLast? {pieces : List (Nat × Str)}
    (h : ∀ u, pieces.head? = some u → u.2 ≠ []) :
    joinUrl pieces = pieces.getLast? ↔ pieces.length ≤ 1 := by
  match pieces with
  | [] => simp [joinUrl]
  | [u] => simp [joinUrl]
  | u :: v :: rest =>
    refine iff_of_false ?_ (by simp)
    intro heq
    have hu : 0 < u.2.length := List.length_pos_iff.mpr (h u rfl)
    obtain ⟨w, hw⟩ : ∃ w, (u :: v :: rest).getLast? = some w := by
      rw [List.getLast?_cons]
      exact ⟨_, rfl⟩
    -- the last piece is one of those behind the first
    have hmem : w ∈ v :: rest := by
      rw [List.getLast?_cons_cons] at hw
      exact List.mem_of_getLast? hw
    rw [hw, joinUrl, Option.some.injEq] at heq
    have hlen := congrArg (fun x : Nat × Str => x.2.length) heq
    have hle : w.2.length ≤ ((v :: rest).flatMap Prod.snd).length := by
      rw [List.flatMap_def]
      exact (List.sublist_flatten_of_mem (List.mem_map_of_mem hmem)).length_le
    simp only [List.length_append] at hlen
    omega

namespace Connection

/-! ## The inner loop -/

theorem readRequest_complete {p : Parser σ} (h : p.parsing_complete_ = true) (bytes : Str)
    (reads : List Str) : readRequest lib p bytes reads = .complete p bytes reads := by
  cases reads <;> simp [readRequest, h]

theorem readRequest_error {p : Parser σ} (hp : p.parsing_complete_ = false) {data : Str}
    {e : Exception} (h : p.feed lib data = .error e) (bytes : Str) (reads : List Str) :
    readRequest lib p bytes (data :: reads) = .threw := by
  simp [readRequest, hp, h]

theorem readRequest_ok {p q : Parser σ} (hp : p.parsing_complete_ = false) {data : Str} {used : Nat}
    (h : p.feed lib data = .ok (q, used)) (bytes : Str) (reads : List Str) :
    readRequest lib p bytes (data :: reads) =
      readRequest lib q (bytes ++ data.take used) reads := by
  simp [readRequest, hp, h]

/-- The bytes behind the message are of no account. -/
theorem urlPieces_take {s : σ} {data : Str} (ho : (lib.scan s data).outcome = .complete) :
    urlPieces lib s (data.take (lib.scan s data).used) = urlPieces lib s data := by
  obtain ⟨-, hpos⟩ := used_of_complete ho
  have hempty : lib.emptyFragment s (data.take (lib.scan s data).used) = lib.emptyFragment s data := by
    obtain ⟨n, hn⟩ : ∃ n, (lib.scan s data).used = n + 1 := ⟨_, (Nat.sub_add_cancel hpos).symm⟩
    rw [hn]
    cases data <;> rfl
  rw [urlPieces, hempty, scan_take ho, urlPieces]

/-- When the reads hold a whole request, the inner loop uses the reads before the one in which it
ends, and of that one the part `a`. It ends early if a piece of the URL is rejected or there are
chunks. -/
theorem readRequest_spec (lib : HttpParser σ) (s : σ) (reads : List Str)
    (ho : (lib.scan s reads.flatten).outcome = .complete) :
    ∃ g a b tail, reads = g ++ (a ++ b) :: tail ∧ a ≠ [] ∧
      (g.flatten ++ a).length = (lib.scan s reads.flatten).used ∧
      ∀ (f : ParserFields) (bytes : Str), IsRequest f → f.parsing_complete_ = false →
        Resumable lib f s →
        ((∃ u ∈ urlFragments lib s (g ++ [a]), UrlRejected lib u) ∨
            Chunked (lib.scan s reads.flatten).events →
          readRequest lib ⟨f, s, .ok⟩ bytes reads = .threw) ∧
        ((∀ u ∈ urlFragments lib s (g ++ [a]), ¬UrlRejected lib u) →
            ¬Chunked (lib.scan s reads.flatten).events →
          ∃ x e, readRequest lib ⟨f, s, .ok⟩ bytes reads = .complete
            ⟨((lib.scan s reads.flatten).events.foldl ParserFields.absorb f).withUrl lib
              (urlFragments lib s (g ++ [a])).getLast?, x, e⟩ (bytes ++ (g.flatten ++ a)) tail) := by
  induction reads generalizing s with
  | nil => cases ho
  | cons data reads ih =>
    rw [List.flatten_cons] at ho ⊢
    cases ho' : (lib.scan s data).outcome with
    | rejected =>
      rw [scan_append_of_rejected ho'] at ho
      cases ho
    | complete =>
      obtain ⟨hle, hpos⟩ := used_of_complete ho'
      have hpieces : urlFragments lib s ([] ++ [data.take (lib.scan s data).used]) =
          urlPieces lib s data := by
        rw [List.nil_append, urlFragments_of_complete (by rw [scan_take ho', ho']), urlPieces_take ho']
      have hlen : (data.take (lib.scan s data).used).length = (lib.scan s data).used := by
        rw [List.length_take]
        omega
      refine ⟨[], data.take (lib.scan s data).used, data.drop (lib.scan s data).used, reads, ?_, ?_,
        ?_, fun f bytes hf hinc hres => ?_⟩
      · simp
      · intro hnil
        rw [hnil, List.length_nil] at hlen
        omega
      · rw [scan_append_of_complete ho']
        exact hlen
      · have hopen : (⟨f, s, .ok⟩ : Parser σ).parsing_complete_ = false := hinc
        rw [hpieces, scan_append_of_complete ho']
        generalize hfeed : (⟨f, s, .ok⟩ : Parser σ).feed lib data = r
        have hspec := feed_request lib hf hinc hres data (by rw [ho']; nofun)
        rw [hfeed] at hspec
        cases hspec with
        | rejected h he =>
          obtain ⟨u, hu, hurej⟩ := h
          exact ⟨fun _ => readRequest_error hopen hfeed bytes reads,
            fun h => absurd hurej (h u hu)⟩
        | chunked h hchunk =>
          exact ⟨fun _ => readRequest_error hopen hfeed bytes reads,
            fun _ hnot => absurd hchunk hnot⟩
        | complete x e h hchunk ho'' hf' hdone =>
          refine ⟨?_, fun _ _ => ⟨x, e, ?_⟩⟩
          · rintro (⟨u, hu, hurej⟩ | hall)
            · exact absurd hurej (h u hu)
            · exact absurd hall hchunk
          · rw [readRequest_ok hopen hfeed, readRequest_complete hdone, hf']
            rfl
        | more s' h hchunk ho'' hf' hopen' hnext => cases ho'.symm.trans ho''
    | more s' =>
      rw [scan_append_of_more ho'] at ho ⊢
      obtain ⟨g, a, b, tail, hreads, ha, hlen, hspec'⟩ := ih s' ho
      refine ⟨data :: g, a, b, tail, by rw [hreads]; rfl, ha, ?_, fun f bytes hf hinc hres => ?_⟩
      · rw [← hlen]
        simp
      · have hopen : (⟨f, s, .ok⟩ : Parser σ).parsing_complete_ = false := hinc
        rw [List.cons_append, urlFragments_of_more ho', chunked_append]
        generalize hfeed : (⟨f, s, .ok⟩ : Parser σ).feed lib data = r
        have hspec := feed_request lib hf hinc hres data (by rw [ho']; nofun)
        rw [hfeed] at hspec
        cases hspec with
        | rejected h he =>
          obtain ⟨u, hu, hurej⟩ := h
          exact ⟨fun _ => readRequest_error hopen hfeed bytes reads,
            fun h => absurd hurej (h u (List.mem_append_left _ hu))⟩
        | chunked h hchunk =>
          exact ⟨fun _ => readRequest_error hopen hfeed bytes reads,
            fun _ hnot => absurd (Or.inl hchunk) hnot⟩
        | complete x e h hchunk ho'' hf' hdone => cases ho'.symm.trans ho''
        | more s'' h hchunk ho'' hf' hopen' hnext =>
          obtain rfl : s' = s'' := Outcome.more.inj (ho'.symm.trans ho'')
          have hreq : IsRequest _ := withUrl_request lib
            (foldl_absorb_request hf (lib.scan s data).events) (urlPieces lib s data).getLast?
          rw [← hf'] at hreq
          obtain ⟨hthrew, hcomplete⟩ := hspec' _ (bytes ++ data) hreq hopen' hnext
          rw [readRequest_ok hopen hfeed, List.take_length]
          refine ⟨?_, ?_⟩
          · rintro (⟨u, hu, hurej⟩ | hall)
            · refine hthrew (Or.inl ⟨u, ?_, hurej⟩)
              exact (List.mem_append.mp hu).resolve_left fun hu => h u hu hurej
            · exact hthrew (Or.inr (hall.resolve_left hchunk))
          · intro hall hnot
            have hrest : ∀ u ∈ urlFragments lib s' (g ++ [a]), ¬UrlRejected lib u :=
              fun u hu => hall u (List.mem_append_right _ hu)
            obtain ⟨x', e', hx⟩ := hcomplete hrest fun hchunk' => hnot (Or.inr hchunk')
            refine ⟨x', e', ?_⟩
            rw [hx, hf', foldl_absorb_join hf _ _ _ hrest]
            simp

/-- The inner loop counts no byte twice. -/
theorem readRequest_bytes {p q : Parser σ} {bytes bytes' : Str} {reads rest : List Str}
    (h : readRequest lib p bytes reads = .complete q bytes' rest) :
    bytes'.length + rest.flatten.length ≤ bytes.length + reads.flatten.length := by
  induction reads generalizing p bytes with
  | nil =>
    simp only [readRequest] at h
    split_ifs at h
    cases h
    exact Nat.le_refl _
  | cons data reads ih =>
    simp only [readRequest] at h
    split_ifs at h
    · cases h
      exact Nat.le_refl _
    · split at h
      · cases h
      · next p' used _ =>
        have hrest := ih h
        simp only [List.length_append, List.length_take, List.flatten_cons] at hrest ⊢
        omega

/-! ## One request -/

/-- The fields after the events of a request, but for the URL and the method. -/
def fieldsOf (lib : HttpParser σ) (bytes : Str) : ParserFields :=
  (lib.scan (lib.init .request) bytes).events.foldl ParserFields.absorb
    (Parser.new lib (.request Request.cleared)).toParserFields

theorem fieldsOf_request (lib : HttpParser σ) (bytes : Str) : IsRequest (fieldsOf lib bytes) :=
  foldl_absorb_request ⟨Request.cleared, rfl⟩ _

/-- A whole request is complete, with the flags of its end. -/
theorem fieldsOf_complete {bytes : Str} (h : WellFormed lib bytes) :
    (fieldsOf lib bytes).parsing_complete_ = true ∧
      (fieldsOf lib bytes).message_.base.flags_.testBit 2 = false := by
  obtain ⟨events, flags, heq⟩ := complete_events h.complete
  have hflags := h.keepsOpen flags (by rw [heq]; simp)
  have hlast : fieldsOf lib bytes = (events.foldl ParserFields.absorb
      (Parser.new lib (.request Request.cleared)).toParserFields).onMessageComplete flags := by
    rw [fieldsOf, heq, List.foldl_append]
    rfl
  rw [hlast]
  refine ⟨rfl, ?_⟩
  simpa [ParserFields.onMessageComplete] using hflags

theorem withUrl_flags (lib : HttpParser σ) (p : ParserFields) (u : Option (Nat × Str)) :
    (p.withUrl lib u).message_.base.flags_ = p.message_.base.flags_ := by
  cases u with
  | none => rfl
  | some u =>
    simp only [ParserFields.withUrl]
    split
    · next req _ _ hreq _ _ => rw [hreq]; rfl
    · rfl

theorem notInside_init (lib : HttpParser σ) : NotInside lib (lib.init .request) := by
  intro m
  rw [lib.init_request]
  nofun

/-- The request of the bytes, when `on_url` accepts the URL as a whole and there are no chunks. -/
theorem parsed_eq {bytes : Str} (h : WellFormed lib bytes) (request : Request) :
    parsed lib bytes = some request ↔
      (∀ u ∈ urlOf (lib.scan (lib.init .request) bytes).events, ¬UrlRejected lib u) ∧
        Unchunked lib bytes ∧
        ((fieldsOf lib bytes).withUrl lib
          (urlOf (lib.scan (lib.init .request) bytes).events)).message_ = .request request := by
  have hflatten : [bytes].flatten = bytes := by simp
  have ho : (lib.scan (lib.init .request) [bytes].flatten).outcome ≠ .rejected := by
    rw [hflatten, h.complete]
    nofun
  have hpieces : urlFragments lib (lib.init .request) [bytes] =
      (urlOf (lib.scan (lib.init .request) bytes).events).toList := by
    rw [urlFragments_of_complete h.complete, urlPieces_of_notInside (notInside_init lib)]
  have hlast : ∀ o : Option (Nat × Str), o.toList.getLast? = o := by
    intro o
    cases o <;> rfl
  obtain ⟨hrej, hundef, hok⟩ := observe_feedAll lib Request.cleared [bytes] ho
  rw [hflatten, hpieces] at hundef hok
  rw [hpieces] at hrej
  rw [hlast] at hok
  simp only [Option.mem_toList] at hrej hundef hok
  by_cases hurl : ∀ u ∈ urlOf (lib.scan (lib.init .request) bytes).events, ¬UrlRejected lib u
  · by_cases hchunk : Chunked (lib.scan (lib.init .request) bytes).events
    · have hnone : parsed lib bytes = none := by
        rw [parsed, hundef hurl hchunk]
        rfl
      rw [hnone]
      exact iff_of_false nofun fun heq => heq.2.1 hchunk
    · have hobs := (hok hurl hchunk).2
      have hdone := (fieldsOf_complete h).1
      obtain ⟨req, hreq⟩ := withUrl_request lib (fieldsOf_request lib bytes)
        (urlOf (lib.scan (lib.init .request) bytes).events)
      rw [← fieldsOf, hdone, hreq] at hobs
      have hparsed : parsed lib bytes = some req := by
        rw [parsed, hobs]
      rw [hparsed, hreq]
      simp only [Option.some.injEq, AnyMessage.request.injEq]
      exact ⟨fun heq => ⟨hurl, hchunk, heq⟩, fun heq => heq.2.2⟩
  · have hnone : parsed lib bytes = none := by
      have hobs := (hrej (by
        by_contra hex
        exact hurl fun u hu hurej => hex ⟨u, hu, hurej⟩)).2
      rw [parsed, hobs]
    rw [hnone]
    exact iff_of_false nofun fun heq => hurl heq.1

/-- The inner loop on the bytes of a request with other bytes behind. The request is the right one
exactly when its URL was not cut or rejected and there are no chunks. -/
theorem readRequest_wellFormed {bytes rest : Str} {reads : List Str} (h : WellFormed lib bytes)
    (hreads : reads.flatten = bytes ++ rest) :
    ∃ g a b tail, reads = g ++ (a ++ b) :: tail ∧ a ≠ [] ∧ g.flatten ++ a = bytes ∧
      b ++ tail.flatten = rest ∧
      ((readRequest lib (Parser.new lib (.request Request.cleared)) [] reads = .threw ∧
          ¬(UrlWhole lib (g ++ [a]) ∧ Unchunked lib bytes)) ∨
        ∃ p request, readRequest lib (Parser.new lib (.request Request.cleared)) [] reads =
            .complete p bytes tail ∧ p.message_ = .request request ∧
          request.connectionClose = false ∧
          (parsed lib bytes = some request ↔ UrlWhole lib (g ++ [a]) ∧ Unchunked lib bytes)) := by
  have hscan : lib.scan (lib.init .request) reads.flatten = lib.scan (lib.init .request) bytes := by
    rw [hreads, scan_append_of_complete h.complete]
  have hcomplete : (lib.scan (lib.init .request) reads.flatten).outcome = .complete := by
    rw [hscan, h.complete]
  have hnew : IsRequest (Parser.new lib (.request Request.cleared)).toParserFields :=
    ⟨Request.cleared, rfl⟩
  obtain ⟨g, a, b, tail, hsplit, ha, hlen, hspec⟩ :=
    readRequest_spec lib (lib.init .request) reads hcomplete
  obtain ⟨hthrew, hok⟩ := hspec _ [] hnew rfl (resumable_of_none (lib.resumed_init .request) _)
  rw [hscan] at hlen hthrew hok
  have hflat : (g.flatten ++ a) ++ (b ++ tail.flatten) = bytes ++ rest := by
    rw [← hreads, hsplit]
    simp
  obtain ⟨hbytes, hrest⟩ := List.append_inj hflat (hlen.trans h.whole)
  refine ⟨g, a, b, tail, hsplit, ha, hbytes, hrest, ?_⟩
  by_cases hchunk : Chunked (lib.scan (lib.init .request) bytes).events
  · exact Or.inl ⟨hthrew (Or.inr hchunk), fun hwhole => hwhole.2 hchunk⟩
  by_cases hurl : ∀ u ∈ urlFragments lib (lib.init .request) (g ++ [a]), ¬UrlRejected lib u
  · right
    obtain ⟨x, e, hread⟩ := hok hurl hchunk
    have hfields := fieldsOf_request lib bytes
    obtain ⟨request, hrequest⟩ := withUrl_request lib hfields
      (urlFragments lib (lib.init .request) (g ++ [a])).getLast?
    rw [List.nil_append, hbytes] at hread
    refine ⟨_, request, hread, hrequest, ?_, ?_⟩
    · have hflags := withUrl_flags lib (fieldsOf lib bytes)
        (urlFragments lib (lib.init .request) (g ++ [a])).getLast?
      have hbit := (fieldsOf_complete h).2
      rw [← hflags, hrequest] at hbit
      exact hbit
    · -- the URL is the whole of its pieces
      have hcuts : (g ++ [a]).flatten = bytes := by simpa using hbytes
      have hjoin := urlOf_flatten lib (notInside_init lib) (g ++ [a])
        (by rw [hcuts, h.complete]; nofun)
      rw [hcuts] at hjoin
      have hlast := joinUrl_eq_getLast? fun u hu =>
        head_urlFragments (notInside_init lib) (hu : (urlFragments lib _ (g ++ [a])).head? = some u)
      rw [parsed_eq h, hjoin, UrlWhole, ← hlast]
      constructor
      · rintro ⟨hacc, -, hmsg⟩
        refine ⟨⟨?_, hurl⟩, hchunk⟩
        refine withUrl_injective lib ?_ (fun u hu => hacc u hu) (fun u hu => ?_)
          (hmsg.trans hrequest.symm)
        · rw [fieldsOf, methodOf_foldl_absorb]
          rfl
        · exact hurl u (List.mem_of_getLast? hu)
      · rintro ⟨⟨heq, -⟩, -⟩
        rw [heq]
        exact ⟨fun u hu => hurl u (List.mem_of_getLast? hu), hchunk, hrequest⟩
  · left
    refine ⟨hthrew (Or.inl ?_), fun hwhole => hurl hwhole.1.2⟩
    by_contra hex
    exact hurl fun u hu hurej => hex ⟨u, hu, hurej⟩

/-- A request whose bytes are some whole reads and the part `a` of the next one ends with a read only
if `a` is that read. -/
theorem group_unique {g group tail rest : List Str} {a b : Str}
    (h : group ++ rest = g ++ (a ++ b) :: tail) (hgroup : group.flatten = g.flatten ++ a)
    (ha : a ≠ []) (hne : ∀ data ∈ g ++ (a ++ b) :: tail, data ≠ []) :
    b = [] ∧ group = g ++ [a] ∧ rest = tail := by
  rcases List.append_eq_append_iff.mp h with ⟨c, hg, -⟩ | ⟨c, hg, hc⟩
  · -- the reads of the request cannot be fewer
    rw [hg, List.flatten_append, List.append_assoc] at hgroup
    have hnil := List.append_cancel_left (hgroup.symm.trans (List.append_nil _).symm)
    exact absurd (List.append_eq_nil_iff.mp hnil).2 ha
  · subst hg
    rw [List.flatten_append, List.append_cancel_left_eq] at hgroup
    cases c with
    | nil => exact absurd hgroup.symm ha
    | cons data c =>
      obtain ⟨rfl, rfl⟩ := List.cons.inj hc
      rw [List.flatten_cons, List.append_assoc] at hgroup
      have hnil := List.append_cancel_left (hgroup.trans (List.append_nil _).symm)
      obtain ⟨rfl, hc'⟩ := List.append_eq_nil_iff.mp hnil
      have hcnil : c = [] := by
        cases c with
        | nil => rfl
        | cons data c =>
          have hdata := hne data (by simp)
          exact absurd (List.append_eq_nil_iff.mp hc').1 hdata
      subst hcnil
      simp

/-! ## The request loop -/

theorem restart_request {p : Parser σ} (hp : IsRequest p.toParserFields) :
    restart lib p = Parser.new lib (.request Request.cleared) := by
  obtain ⟨request, hrequest⟩ := hp
  simp [restart, Parser.clear, Parser.new, hrequest, AnyMessage.clear, AnyMessage.type]

theorem serve_of_not_complete {handler : List Request → Answer} {p : Parser σ} {reads : List Str}
    (h : readRequest lib (restart lib p) [] reads = .waiting ∨
      readRequest lib (restart lib p) [] reads = .threw) (before : List Request)
    (rounds : Nat) : (serve lib handler before p rounds reads).calls = [] := by
  cases rounds with
  | zero => rfl
  | succ rounds => rcases h with h | h <;> rw [serve, h]

/-- A round that has a request: the handler is called, and unless its response cannot be encoded or
the connection closes, the loop goes on. -/
theorem serve_of_complete {handler : List Request → Answer} {p q : Parser σ} {reads rest : List Str}
    {bytes : Str} {request : Request}
    (h : readRequest lib (restart lib p) [] reads = .complete q bytes rest)
    (hq : q.message_ = .request request) (before : List Request) (rounds : Nat) :
    (serve lib handler before p (rounds + 1) reads).calls =
      ⟨bytes, request⟩ ::
        if encodeResponse (handler (before ++ [request])).response = none ∨
          request.connectionClose = true then []
        else (serve lib handler (before ++ [request]) q rounds rest).calls := by
  rw [serve, h]
  simp only [hq]
  cases encodeResponse (handler (before ++ [request])).response with
  | none => simp
  | some text => cases request.connectionClose <;> simp

/-- The requests of all calls are different bytes of the reads. -/
theorem serve_bytes (lib : HttpParser σ) (handler : List Request → Answer) (before : List Request) (p : Parser σ)
    (rounds : Nat) (reads : List Str) :
    ((serve lib handler before p rounds reads).calls.flatMap Call.bytes).length ≤
      reads.flatten.length := by
  induction rounds generalizing before p reads with
  | zero => exact Nat.zero_le _
  | succ rounds ih =>
    cases hread : readRequest lib (restart lib p) [] reads with
    | complete q bytes rest =>
      have hbytes := readRequest_bytes hread
      cases hq : q.message_ with
      | response r =>
        rw [serve, hread]
        simp only [hq]
        exact Nat.zero_le _
      | request request =>
        rw [serve_of_complete hread hq]
        have hrest := ih (before ++ [request]) q rest
        simp only [List.length_nil] at hbytes
        split_ifs
        · simp only [List.flatMap_cons, List.flatMap_nil, List.append_nil]
          omega
        · simp only [List.flatMap_cons, List.length_append]
          omega
    | waiting =>
      rw [serve_of_not_complete (Or.inl hread)]
      exact Nat.zero_le _
    | threw =>
      rw [serve_of_not_complete (Or.inr hread)]
      exact Nat.zero_le _

theorem calls_bytes {requests : List Str} {calls : List Call}
    (h : List.Forall₂ (CallFor lib) requests calls) :
    calls.flatMap Call.bytes = requests.flatten := by
  induction h with
  | nil => rfl
  | cons hcall _ ih => rw [List.flatMap_cons, hcall.1, ih, List.flatten_cons]

/-- Only the code `unknown` is missing in the table. -/
theorem encodeResponse_eq_none (response : Response) :
    encodeResponse response = none ↔ response.status_code_ = .unknown := by
  have htable : ∀ code, AssocMap.find statusCodeToSting code = none ↔ code = StatusCode.unknown := by
    intro code
    cases code <;> decide
  rw [encodeResponse, Option.map_eq_none_iff]
  exact htable _

/-- What the handler answers to the requests of the calls. -/
def answers (handler : List Request → Answer) (before : List Request) : List Call → List Response
  | [] => []
  | call :: calls =>
    (handler (before ++ [call.request])).response ::
      answers handler (before ++ [call.request]) calls

/-- What is written are the encodings of the answers, in the order of the calls; the last call may
have none. -/
theorem serve_written (lib : HttpParser σ) (handler : List Request → Answer)
    (before : List Request) (p : Parser σ) (rounds : Nat) (reads : List Str) :
    ∃ responses, responses <+: answers handler before (serve lib handler before p rounds reads).calls ∧
      List.Forall₂ (fun response text => encodeResponse response = some text) responses
        (serve lib handler before p rounds reads).written := by
  induction rounds generalizing before p reads with
  | zero => exact ⟨[], List.prefix_rfl, .nil⟩
  | succ rounds ih =>
    rw [serve]
    cases readRequest lib (restart lib p) [] reads with
    | waiting => exact ⟨[], List.prefix_rfl, .nil⟩
    | threw => exact ⟨[], List.prefix_rfl, .nil⟩
    | complete q bytes rest =>
      cases hq : q.message_ with
      | response r =>
        simp only [hq]
        exact ⟨[], List.prefix_rfl, .nil⟩
      | request request =>
        simp only [hq]
        cases htext : encodeResponse (handler (before ++ [request])).response with
        | none => exact ⟨[], List.nil_prefix, .nil⟩
        | some text =>
          by_cases hclose : request.connectionClose = true
          · simp only [hclose, if_true]
            exact ⟨[(handler (before ++ [request])).response], List.prefix_rfl, .cons htext .nil⟩
          · simp only [hclose, Bool.false_eq_true, if_false]
            obtain ⟨responses, hprefix, hwritten⟩ := ih (before ++ [request]) q rest
            refine ⟨(handler (before ++ [request])).response :: responses, ?_,
              .cons htext hwritten⟩
            rw [answers, List.cons_prefix_cons]
            exact ⟨rfl, hprefix⟩

/-- The condition on the responses, one request further. -/
theorem statusKnown_cons {handler : List Request → Answer} {bytes : Str} {request : Request}
    (h : parsed lib bytes = some request) (before : List Request) (requests : List Str) :
    StatusKnown lib handler before (bytes :: requests) ↔
      (requests ≠ [] → (handler (before ++ [request])).response.status_code_ ≠ .unknown) ∧
        StatusKnown lib handler (before ++ [request]) requests := by
  have htake : ∀ k, before ++ ((bytes :: requests).take (k + 1)).filterMap (parsed lib) =
      before ++ [request] ++ (requests.take k).filterMap (parsed lib) := by
    intro k
    simp [h]
  constructor
  · intro hall
    refine ⟨fun hne => ?_, fun k hk hlt => ?_⟩
    · have hlen : 0 < requests.length := List.length_pos_iff.mpr hne
      have hone := hall 1 Nat.one_pos (by simpa using hlen)
      rw [htake 0] at hone
      simpa using hone
    · have hk' := hall (k + 1) (Nat.succ_pos k) (by simpa using hlt)
      rwa [htake k] at hk'
  · rintro ⟨hone, hall⟩ k hk hlt
    obtain ⟨k, rfl⟩ : ∃ j, k = j + 1 := ⟨k - 1, by omega⟩
    rw [htake k]
    simp only [List.length_cons, Nat.add_lt_add_iff_right] at hlt
    cases k with
    | zero =>
      have hne : requests ≠ [] := List.length_pos_iff.mp hlt
      simpa using hone hne
    | succ k => exact hall (k + 1) (Nat.succ_pos k) hlt

theorem readsApart_cons {bytes : Str} {requests reads : List Str} :
    ReadsApart lib (bytes :: requests) reads ↔
      ∃ group rest, group ++ rest = reads ∧ group.flatten = bytes ∧
        (UrlWhole lib group ∧ Unchunked lib bytes) ∧ ReadsApart lib requests rest := by
  constructor
  · rintro ⟨groups, hreads, hgroups⟩
    cases hgroups with
    | @cons _ group _ groups hgroup htail =>
      exact ⟨group, groups.flatten, hreads, hgroup.1, hgroup.2, groups, rfl, htail⟩
  · rintro ⟨group, rest, hreads, hbytes, hurl, groups, hrest, hgroups⟩
    refine ⟨group :: groups, ?_, .cons ⟨hbytes, hurl⟩ hgroups⟩
    rw [List.flatten_cons, hrest, hreads]

/-- The request loop, from any round on. By induction on the requests: the first one ends in some
read, and the next round starts with the read after it. -/
theorem serve_calls_iff (lib : HttpParser σ) (handler : List Request → Answer)
    {requests reads : List Str} (hreads : reads.flatten = requests.flatten)
    (hne : ∀ data ∈ reads, data ≠ []) (hrequests : ∀ bytes ∈ requests, WellFormed lib bytes)
    (before : List Request) {p : Parser σ} (hp : IsRequest p.toParserFields) {rounds : Nat}
    (hrounds : reads.length < rounds) :
    List.Forall₂ (CallFor lib) requests (serve lib handler before p rounds reads).calls ↔
      ReadsApart lib requests reads ∧ StatusKnown lib handler before requests := by
  induction requests generalizing reads before p rounds with
  | nil =>
    have hnil : reads = [] := by
      cases reads with
      | nil => rfl
      | cons data reads =>
        exact absurd (List.append_eq_nil_iff.mp hreads).1 (hne data List.mem_cons_self)
    subst hnil
    have hwait : readRequest lib (restart lib p) [] [] = .waiting := by
      rw [restart_request hp]
      rfl
    rw [serve_of_not_complete (Or.inl hwait)]
    refine iff_of_true .nil ⟨⟨[], rfl, .nil⟩, ?_⟩
    intro k _ hk
    exact absurd hk (Nat.not_lt_zero k)
  | cons bytes requests ih =>
    have hbytes := hrequests bytes List.mem_cons_self
    have hothers : ∀ r ∈ requests, WellFormed lib r :=
      fun r hr => hrequests r (List.mem_cons_of_mem _ hr)
    obtain ⟨g, a, b, tail, hsplit, ha, hg, hb, hread⟩ := readRequest_wellFormed hbytes hreads
    rw [← restart_request hp] at hread
    have htail : ∀ data ∈ tail, data ≠ [] := by
      intro data hdata
      refine hne data ?_
      rw [hsplit]
      exact List.mem_append_right _ (List.mem_cons_of_mem _ hdata)
    -- a group of reads for the first request is the one that the inner loop has used
    have hgroup : ∀ {group rest : List Str}, group ++ rest = reads → group.flatten = bytes →
        b = [] ∧ group = g ++ [a] ∧ rest = tail := by
      intro group rest h hflat
      refine group_unique (h.trans hsplit) (hflat.trans hg.symm) ha ?_
      rw [← hsplit]
      exact hne
    obtain ⟨rounds, rfl⟩ : ∃ n, rounds = n + 1 := ⟨rounds - 1, by omega⟩
    have hlen : tail.length < rounds := by
      rw [hsplit] at hrounds
      simp only [List.length_append, List.length_cons] at hrounds
      omega
    rcases hread with ⟨hthrew, hcut⟩ | ⟨q, request, hcomplete, hq, hopen, hparsed⟩
    · rw [serve_of_not_complete (Or.inr hthrew), readsApart_cons]
      refine iff_of_false nofun ?_
      rintro ⟨⟨group, rest, hsum, hflat, hurl, -⟩, -⟩
      obtain ⟨-, rfl, -⟩ := hgroup hsum hflat
      exact hcut hurl
    · rw [serve_of_complete hcomplete hq, List.forall₂_cons, readsApart_cons]
      simp only [hopen, Bool.false_eq_true, or_false, encodeResponse_eq_none]
      have hq' : IsRequest q.toParserFields := ⟨request, hq⟩
      constructor
      · rintro ⟨⟨-, hcall⟩, hcalls⟩
        have hstatus : requests ≠ [] →
            (handler (before ++ [request])).response.status_code_ ≠ .unknown := by
          intro hsome hunknown
          rw [if_pos hunknown] at hcalls
          cases hcalls
          exact hsome rfl
        -- the calls for the other requests need all bytes that are left
        have hbnil : b = [] := by
          cases hrs : requests with
          | nil =>
            rw [hrs] at hb
            exact (List.append_eq_nil_iff.mp hb).1
          | cons r rs =>
            rw [if_neg (hstatus (by rw [hrs]; nofun))] at hcalls
            have hle := serve_bytes lib handler (before ++ [request]) q rounds tail
            rw [calls_bytes hcalls, ← hb, List.length_append] at hle
            exact List.length_eq_zero_iff.mp (by omega)
        subst hbnil
        have hrest : tail.flatten = requests.flatten := hb
        have hcalls' : List.Forall₂ (CallFor lib) requests
            (serve lib handler (before ++ [request]) q rounds tail).calls := by
          by_cases hsome : requests = []
          · rw [hsome, List.flatten_nil] at hrest
            have hnil : tail = [] := by
              cases tail with
              | nil => rfl
              | cons data tail =>
                exact absurd (List.append_eq_nil_iff.mp hrest).1 (htail data List.mem_cons_self)
            have hwait : readRequest lib (restart lib q) [] [] = .waiting := by
              rw [restart_request hq']
              rfl
            rw [hsome, hnil, serve_of_not_complete (Or.inl hwait)]
            exact .nil
          · rwa [if_neg (hstatus hsome)] at hcalls
        obtain ⟨hapart, hknown⟩ :=
          (ih hrest htail hothers (before ++ [request]) hq' hlen).mp hcalls'
        refine ⟨⟨g ++ [a], tail, by rw [hsplit]; simp, by simpa using hg, hparsed.mp hcall, hapart⟩,
          ?_⟩
        exact (statusKnown_cons hcall before requests).mpr ⟨hstatus, hknown⟩
      · rintro ⟨⟨group, rest, hsum, hflat, hurl, hapart⟩, hknown⟩
        obtain ⟨rfl, rfl, rfl⟩ := hgroup hsum hflat
        have hcall := hparsed.mpr hurl
        obtain ⟨hstatus, hknown'⟩ := (statusKnown_cons hcall before requests).mp hknown
        have hcalls := (ih hb htail hothers (before ++ [request]) hq' hlen).mpr ⟨hapart, hknown'⟩
        refine ⟨⟨rfl, hcall⟩, ?_⟩
        split_ifs with hunknown
        · have hnone : requests = [] := by
            by_contra hsome
            exact hstatus hsome hunknown
          rw [hnone]
          exact .nil
        · exact hcalls

/-- Two requests without headers. -/
def twoRequests : List Str :=
  ["GET /a HTTP/1.1\r\n\r\n".toList, "GET /b HTTP/1.1\r\n\r\n".toList]

/-- A handler that answers 200. -/
def answerOk (_ : List Request) : Answer := .returns { Response.cleared with status_code_ := .code200Ok }

/-- A request whose end has other flags than `F_CONNECTION_CLOSE`. -/
theorem wellFormed_of_scan {bytes : Str} {end_flags : Nat}
    (hcomplete : (PlainParser.lib.scan (PlainParser.lib.init .request) bytes).outcome = .complete)
    (hused : (PlainParser.lib.scan (PlainParser.lib.init .request) bytes).used = bytes.length)
    (hend : (PlainParser.lib.scan (PlainParser.lib.init .request) bytes).events.filter
      (fun cb => cb matches .messageComplete _) = [.messageComplete end_flags])
    (hflags : end_flags.testBit 2 = false) : WellFormed PlainParser.lib bytes := by
  refine ⟨hcomplete, hused, fun flags hmem => ?_⟩
  have hfilter :=
    (List.mem_filter (p := fun cb => cb matches .messageComplete _)).mpr ⟨hmem, rfl⟩
  rw [hend, List.mem_singleton, Callback.messageComplete.injEq] at hfilter
  rw [hfilter]
  exact hflags

theorem twoRequests_wellFormed : ∀ bytes ∈ twoRequests, WellFormed PlainParser.lib bytes := by
  have hscan : ∀ bytes ∈ twoRequests,
      (PlainParser.lib.scan (PlainParser.lib.init .request) bytes).outcome = .complete ∧
      (PlainParser.lib.scan (PlainParser.lib.init .request) bytes).used = bytes.length ∧
      (PlainParser.lib.scan (PlainParser.lib.init .request) bytes).events.filter
        (fun cb => cb matches .messageComplete _) = [.messageComplete 0] := by
    decide +kernel
  intro bytes hbytes
  obtain ⟨hcomplete, hused, hend⟩ := hscan bytes hbytes
  exact wellFormed_of_scan hcomplete hused hend rfl

theorem chunkedBody_wellFormed : WellFormed PlainParser.lib chunkedBody := by
  have hscan :
      (PlainParser.lib.scan (PlainParser.lib.init .request) chunkedBody).outcome = .complete ∧
      (PlainParser.lib.scan (PlainParser.lib.init .request) chunkedBody).used = chunkedBody.length ∧
      (PlainParser.lib.scan (PlainParser.lib.init .request) chunkedBody).events.filter
        (fun cb => cb matches .messageComplete _) = [.messageComplete 17] := by
    decide +kernel
  exact wellFormed_of_scan hscan.1 hscan.2.1 hscan.2.2 rfl

end Connection

end Http
