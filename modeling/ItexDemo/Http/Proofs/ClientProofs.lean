import ItexDemo.Http.Client
import ItexDemo.Http.Proofs.ConnectionProofs

/-!
# Proofs: what a client reads of the responses

The callbacks of a response append to what is there, in whatever pieces the data come
(`callbacks_atomsOf`), and a header is stored when the next one begins, if its value is not empty.
So the headers of a response come back exactly when all their values are non-empty
(`same_iff_plain`).
-/

namespace Http

variable {σ : Type} {lib : HttpParser σ}

/-! ## The callbacks of a response -/

/-- The parser is attached to a response. -/
def IsResponse (p : ParserFields) : Prop := ∃ res, p.message_ = .response res

/-- The callbacks that may throw: the one for the status, and those for chunks. -/
def Callback.mayThrow : Callback → Bool
  | .data (.status _) _ => true
  | .chunk _ => true
  | _ => false

theorem eq_of_mayThrow {cb : Callback} (h : cb.mayThrow = true) :
    (∃ num frag, cb = .data (.status num) frag) ∨ ∃ part, cb = .chunk part := by
  cases cb with
  | data el frag =>
    cases el with
    | status num => exact Or.inl ⟨num, frag, rfl⟩
    | _ => cases h
  | chunk part => exact Or.inr ⟨part, rfl⟩
  | _ => cases h

theorem callback_of_noThrow (lib : HttpParser σ) {p : ParserFields} (hp : IsResponse p) {cb : Callback}
    (h : cb.mayThrow = false) : p.callback lib cb = .ok (p.absorb cb) := by
  obtain ⟨res, hres⟩ := hp
  cases cb with
  | data el frag =>
    cases el with
    | url m => simp [ParserFields.callback, ParserFields.onUrl, ParserFields.absorb, hres]
    | status code => cases h
    | _ => rfl
  | chunk part => cases h
  | _ => rfl

theorem isResponse_iff {p : ParserFields} : IsResponse p ↔ p.message_.type = .response := by
  unfold IsResponse
  cases p.message_ <;> simp [AnyMessage.type]

theorem absorb_response {p : ParserFields} (hp : IsResponse p) (cb : Callback) :
    IsResponse (p.absorb cb) := by
  rw [isResponse_iff] at hp ⊢
  rw [type_absorb, hp]

/-- The other callbacks do not throw. -/
theorem callbacks_of_noThrow {p : ParserFields} (hp : IsResponse p) {cbs : List Callback}
    (h : ∀ cb ∈ cbs, cb.mayThrow = false) :
    p.callbacks lib cbs = .ok (cbs.foldl ParserFields.absorb p) := by
  induction cbs generalizing p with
  | nil => rfl
  | cons cb cbs ih =>
    have hcb := callback_of_noThrow lib hp (h cb List.mem_cons_self)
    simp only [ParserFields.callbacks, hcb, bind, Except.bind]
    exact ih (absorb_response hp cb) fun cb' hmem => h cb' (List.mem_cons_of_mem _ hmem)

/-- What `on_status` leaves when the number is in the table. -/
def ParserFields.withStatus (p : ParserFields) (code : StatusCode) : ParserFields :=
  match p.message_ with
  | .response res => { p with message_ := .response { res with status_code_ := code } }
  | .request _ => p

theorem onStatus_ok {p : ParserFields} (hp : IsResponse p) {num : Nat} {code : StatusCode}
    (h : AssocMap.find numToStatusCode num = some code) : p.onStatus num = .ok (p.withStatus code) := by
  obtain ⟨res, hres⟩ := hp
  simp [ParserFields.onStatus, ParserFields.withStatus, hres, h]

theorem onStatus_error {p : ParserFields} (hp : IsResponse p) {num : Nat}
    (h : AssocMap.find numToStatusCode num = none) : p.onStatus num = .error .outOfRange := by
  obtain ⟨res, hres⟩ := hp
  simp [ParserFields.onStatus, hres, h]

theorem withStatus_response {p : ParserFields} (hp : IsResponse p) (code : StatusCode) :
    IsResponse (p.withStatus code) := by
  obtain ⟨res, hres⟩ := hp
  exact ⟨{ res with status_code_ := code }, by simp [ParserFields.withStatus, hres]⟩

theorem withStatus_withStatus (p : ParserFields) (code : StatusCode) :
    (p.withStatus code).withStatus code = p.withStatus code := by
  cases hmsg : p.message_ <;> simp [ParserFields.withStatus, hmsg]

/-- The text of the status may come in any pieces: every piece sets the same code. -/
theorem callbacks_status (lib : HttpParser σ) {p : ParserFields} (hp : IsResponse p) (num : Nat) {frag : Str}
    (h : frag ≠ []) :
    p.callbacks lib (Callback.data (.status num) frag).atoms = p.onStatus num := by
  induction frag generalizing p with
  | nil => exact absurd rfl h
  | cons b frag ih =>
    have hcons : (Callback.data (.status num) (b :: frag)).atoms =
        .data (.status num) [b] :: (Callback.data (.status num) frag).atoms := rfl
    rw [hcons]
    cases hcode : AssocMap.find numToStatusCode num with
    | none =>
      have hthrow := onStatus_error hp hcode
      simp [ParserFields.callbacks, ParserFields.callback, hthrow, bind, Except.bind]
    | some code =>
      have hok := onStatus_ok hp hcode
      simp only [ParserFields.callbacks, ParserFields.callback, hok, bind, Except.bind]
      by_cases hnil : frag = []
      · subst hnil
        rfl
      · rw [ih (withStatus_response hp code) hnil, onStatus_ok (withStatus_response hp code) hcode,
          withStatus_withStatus]

/-- No callback changes what the parser is attached to. -/
theorem type_callback {p q : ParserFields} {cb : Callback} (h : p.callback lib cb = .ok q) :
    q.message_.type = p.message_.type := by
  have hchunk : ∀ part, cb ≠ .chunk part := by
    rintro part rfl
    cases h
  cases hmsg : p.message_ with
  | request req =>
    have hp : IsRequest p := ⟨req, hmsg⟩
    cases hurl : cb.url? with
    | none =>
      rw [callback_of_notUrl hp hurl hchunk] at h
      cases h
      rw [type_absorb, hmsg]
    | some u =>
      obtain rfl := eq_of_url? hurl
      have honUrl : p.onUrl lib u.1 u.2 = .ok q := h
      by_cases hrej : UrlRejected lib u
      · obtain ⟨e, -, he⟩ := onUrl_error hp hrej
        rw [he] at honUrl
        cases honUrl
      · rw [onUrl_ok hp hrej] at honUrl
        cases honUrl
        exact isRequest_iff.mp (withUrl_request lib hp _)
  | response res =>
    have hp : IsResponse p := ⟨res, hmsg⟩
    cases hthrow : cb.mayThrow with
    | false =>
      rw [callback_of_noThrow lib hp hthrow] at h
      cases h
      rw [type_absorb, hmsg]
    | true =>
      obtain ⟨num, frag, rfl⟩ := (eq_of_mayThrow hthrow).resolve_right fun ⟨part, hpart⟩ =>
        hchunk part hpart
      have honStatus : p.onStatus num = .ok q := h
      cases hcode : AssocMap.find numToStatusCode num with
      | none =>
        rw [onStatus_error hp hcode] at honStatus
        cases honStatus
      | some code =>
        rw [onStatus_ok hp hcode] at honStatus
        cases honStatus
        exact isResponse_iff.mp (withStatus_response hp code)

theorem type_callbacks {p q : ParserFields} {cbs : List Callback} (h : p.callbacks lib cbs = .ok q) :
    q.message_.type = p.message_.type := by
  induction cbs generalizing p with
  | nil =>
    cases h
    rfl
  | cons cb cbs ih =>
    cases hcb : p.callback lib cb with
    | error e => simp [ParserFields.callbacks, hcb, bind, Except.bind] at h
    | ok r =>
      simp only [ParserFields.callbacks, hcb, bind, Except.bind] at h
      rw [ih h, type_callback hcb]

/-- The data of a response may come in any pieces. -/
theorem callbacks_atomsOf {p : ParserFields} (hp : IsResponse p) {cbs : List Callback}
    (h : Proper cbs) : p.callbacks lib (atomsOf cbs) = p.callbacks lib cbs := by
  induction cbs generalizing p with
  | nil => rfl
  | cons cb cbs ih =>
    have hcons : atomsOf (cb :: cbs) = cb.atoms ++ atomsOf cbs := rfl
    have hproper : Proper cbs := fun el hmem => h el (List.mem_cons_of_mem _ hmem)
    have hcb : p.callbacks lib cb.atoms = p.callback lib cb := by
      cases cb with
      | data el frag =>
        have hfrag : frag ≠ [] := by
          rintro rfl
          exact h el List.mem_cons_self
        cases hstatus : (Callback.data el frag).mayThrow with
        | true =>
          cases el with
          | status num => exact callbacks_status lib hp num hfrag
          | _ => cases hstatus
        | false =>
          have hatoms : ∀ cb ∈ (Callback.data el frag).atoms, cb.mayThrow = false := by
            intro cb hcb
            obtain ⟨b, -, rfl⟩ := List.mem_map.mp hcb
            cases el with
            | status num => cases hstatus
            | _ => rfl
          rw [callbacks_of_noThrow hp hatoms, callback_of_noThrow lib hp hstatus,
            foldl_absorb_atoms p el hfrag]
      | _ => rfl
    rw [hcons, callbacks_append, hcb]
    cases hstep : p.callback lib cb with
    | error e => simp [ParserFields.callbacks, hstep, bind, Except.bind]
    | ok q =>
      have hq : IsResponse q := by
        rw [isResponse_iff] at hp ⊢
        rw [type_callback hstep, hp]
      simp only [ParserFields.callbacks, hstep, Except.bind, bind]
      exact ih hq hproper

/-! ## Headers -/

/-- The headers of the message. -/
def headersOf (p : ParserFields) : List (Str × Str) := p.message_.base.headers_

/-- A header line. -/
def ParserFields.header (p : ParserFields) (header : Str × Str) : ParserFields :=
  (p.onHeaderField header.1).onHeaderValue header.2

theorem foldl_headerEvents (p : ParserFields) {header : Str × Str} (h : header.1 ≠ []) :
    (Client.headerEvents header).foldl ParserFields.absorb p = p.header header := by
  rw [Client.headerEvents, List.foldl_append, foldl_absorb_atoms p .headerField h]
  by_cases hvalue : header.2 = []
  · rw [hvalue]
    simp [Callback.atoms, ParserFields.header, ParserFields.onHeaderValue, ParserFields.absorb,
      hvalue]
  · rw [foldl_absorb_atoms _ .headerValue hvalue]
    rfl

theorem foldl_headers (p : ParserFields) {headers : List (Str × Str)}
    (h : ∀ header ∈ headers, header.1 ≠ []) :
    (headers.flatMap Client.headerEvents).foldl ParserFields.absorb p =
      headers.foldl ParserFields.header p := by
  induction headers generalizing p with
  | nil => rfl
  | cons header headers ih =>
    rw [List.flatMap_cons, List.foldl_append, foldl_headerEvents p (h header List.mem_cons_self)]
    exact ih (p.header header) fun x hx => h x (List.mem_cons_of_mem _ hx)

/-- Everything but the headers of the message is as before. -/
def SameButHeaders (p q : ParserFields) : Prop :=
  ∃ headers, q.message_ = p.message_.setBase { p.message_.base with headers_ := headers }

theorem SameButHeaders.refl (p : ParserFields) : SameButHeaders p p :=
  ⟨headersOf p, by unfold headersOf; cases p.message_ <;> rfl⟩

theorem SameButHeaders.trans {p q r : ParserFields} (h : SameButHeaders p q)
    (h' : SameButHeaders q r) : SameButHeaders p r := by
  obtain ⟨headers, hq⟩ := h
  obtain ⟨headers', hr⟩ := h'
  refine ⟨headers', ?_⟩
  rw [hr, hq]
  simp

theorem sameButHeaders_store (p : ParserFields) : SameButHeaders p p.storeCurrentHeader := by
  unfold ParserFields.storeCurrentHeader
  split_ifs
  · exact SameButHeaders.refl p
  · exact ⟨_, rfl⟩

theorem sameButHeaders_foldl (p : ParserFields) (headers : List (Str × Str)) :
    SameButHeaders p (headers.foldl ParserFields.header p) := by
  induction headers generalizing p with
  | nil => exact SameButHeaders.refl p
  | cons header headers ih => exact (sameButHeaders_store p).trans (ih (p.header header))

/-- The values in the headers of the message are not empty. -/
def ValuesNonempty (p : ParserFields) : Prop :=
  ∀ name value, AssocMap.find (headersOf p) name = some value → value ≠ []

theorem valuesNonempty_store {p : ParserFields} (h : ValuesNonempty p) :
    ValuesNonempty p.storeCurrentHeader := by
  unfold ParserFields.storeCurrentHeader
  split_ifs with hvalue
  · exact h
  · intro name value hfind
    simp only [headersOf, AnyMessage.base_setBase, AssocMap.find_assign] at hfind
    split_ifs at hfind
    · cases hfind
      exact hvalue
    · exact h name value hfind

theorem valuesNonempty_foldl {p : ParserFields} (h : ValuesNonempty p)
    (headers : List (Str × Str)) : ValuesNonempty (headers.foldl ParserFields.header p) := by
  induction headers generalizing p with
  | nil => exact h
  | cons header headers ih =>
    have hstep : ValuesNonempty (p.header header) := valuesNonempty_store h
    exact ih hstep

/-- When no value is empty, every header is stored under its own name. -/
theorem headers_foldl {p : ParserFields} (hp : p.storeCurrentHeader.current_header_ = ([], []))
    {headers : List (Str × Str)} (h : ∀ header ∈ headers, header.2 ≠ []) :
    headersOf (headers.foldl ParserFields.header p).storeCurrentHeader =
      AssocMap.assignAll (headersOf p.storeCurrentHeader) headers := by
  induction headers generalizing p with
  | nil => rfl
  | cons header headers ih =>
    have hvalue := h header List.mem_cons_self
    have hcurrent : (p.header header).current_header_ = header := by
      simp [ParserFields.header, ParserFields.onHeaderField, ParserFields.onHeaderValue, hp]
    have hstore : (p.header header).storeCurrentHeader.current_header_ = ([], []) ∧
        headersOf (p.header header).storeCurrentHeader =
          AssocMap.assign (headersOf p.storeCurrentHeader) header.1 header.2 := by
      rw [ParserFields.storeCurrentHeader, if_neg (by rw [hcurrent]; exact hvalue), hcurrent]
      refine ⟨rfl, ?_⟩
      simp only [headersOf, AnyMessage.base_setBase]
      rfl
    rw [List.foldl_cons, AssocMap.assignAll, List.foldl_cons, ← hstore.2]
    exact ih hstore.1 fun x hx => h x (List.mem_cons_of_mem _ hx)

/-! ## One response -/

theorem digits_ne_nil (n : Nat) : Connection.digits n ≠ [] := Nat.toDigits_ne_nil

/-- In the table there is a text behind every number. -/
theorem httpStatusCodeMap_text : ∀ row ∈ httpStatusCodeMap, row.2.2.toList.drop 4 ≠ [] := by
  have htext : ∀ chars : List Char, chars.drop 4 ≠ [] →
      (String.ofList chars).toList.drop 4 ≠ [] := by
    intro chars h
    rwa [String.toList_ofList]
  unfold httpStatusCodeMap
  simp only [List.forall_mem_cons]
  and_intros
  on_goal -1 => exact fun row hrow => absurd hrow List.not_mem_nil
  all_goals exact htext _ (List.cons_ne_nil _ _)

/-- The number of a row leads back to its code. -/
theorem numToStatusCode_row :
    ∀ row ∈ httpStatusCodeMap, AssocMap.find numToStatusCode row.1 = some row.2.1 := by
  decide

namespace Client

/-- What the callbacks of a response leave. -/
theorem callbacks_response (lib : HttpParser σ) {sent : Response}
    (hnames : ∀ header ∈ sent.headers_, header.1 ≠ []) {row : Nat × StatusCode × String}
    (hrow : row ∈ httpStatusCodeMap) (body : Str) (flags : Nat) :
    ∃ p received, (Parser.new lib (.response Response.cleared)).toParserFields.callbacks lib
        (responseEvents row.1 (row.2.2.toList.drop 4) sent body flags) = .ok p ∧
      p.message_ = .response received ∧ p.parsing_complete_ = true ∧
      received.status_code_ = row.2.1 ∧ received.body_ = body ∧
      (∀ name value, AssocMap.find received.headers_ name = some value → value ≠ []) ∧
      ((∀ header ∈ sent.headers_, header.2 ≠ []) →
        received.headers_ = AssocMap.assignAll [] (sentHeaders sent)) := by
  have htext := httpStatusCodeMap_text row hrow
  have hcode := numToStatusCode_row row hrow
  -- after the status line
  let p₁ : ParserFields :=
    { message_ := .response { Response.cleared with status_code_ := row.2.1 }
      current_header_ := ([], [])
      parsing_complete_ := false
      headers_parsing_complete_ := false }
  let q := (sentHeaders sent).foldl ParserFields.header p₁
  have hsent : ∀ header ∈ sentHeaders sent, header.1 ≠ [] := by
    intro header hmem
    rcases List.mem_append.mp hmem with h | h
    · exact hnames header h
    · rw [List.mem_singleton.mp h]
      exact List.cons_ne_nil _ _
  have hstatus : (Parser.new lib (.response Response.cleared)).toParserFields.callbacks lib
      ([.messageBegin] ++ (Callback.data (.status row.1) (row.2.2.toList.drop 4)).atoms) =
        .ok p₁ := by
    have hnew : IsResponse (Parser.new lib (.response Response.cleared)).onMessageBegin :=
      ⟨Response.cleared, rfl⟩
    have hatoms := callbacks_status lib hnew row.1 htext
    rw [onStatus_ok hnew hcode] at hatoms
    exact hatoms
  have hbody : (Callback.data .body body).atoms.foldl ParserFields.absorb q.onHeadersComplete =
      q.onHeadersComplete.onBody body := by
    by_cases hnil : body = []
    · subst hnil
      obtain ⟨msg, current, pc, hc⟩ := q.onHeadersComplete
      cases msg <;> simp [Callback.atoms, ParserFields.onBody, AnyMessage.setBase, AnyMessage.base]
    · exact foldl_absorb_atoms _ .body hnil
  have hrest : p₁.callbacks lib ((sentHeaders sent).flatMap headerEvents ++ [.headersComplete] ++
      (Callback.data .body body).atoms ++ [.messageComplete flags]) =
        .ok ((q.onHeadersComplete.onBody body).onMessageComplete flags) := by
    rw [callbacks_of_noThrow ⟨_, rfl⟩]
    · rw [List.foldl_append, List.foldl_append, List.foldl_append, foldl_headers p₁ hsent]
      exact congrArg (fun p => Except.ok (ParserFields.onMessageComplete p flags)) hbody
    · intro cb hmem
      simp only [headerEvents, Callback.atoms, List.mem_append, List.mem_flatMap, List.mem_map,
        List.mem_singleton] at hmem
      rcases hmem with ((⟨header, -, ⟨b, -, rfl⟩ | ⟨b, -, rfl⟩⟩ | rfl) | ⟨b, -, rfl⟩) | rfl <;> rfl
  obtain ⟨headers, hmsg⟩ :=
    (sameButHeaders_foldl p₁ (sentHeaders sent)).trans (sameButHeaders_store q)
  have hheaders : headersOf q.storeCurrentHeader = headers := by
    rw [headersOf, hmsg]
    rfl
  refine ⟨(q.onHeadersComplete.onBody body).onMessageComplete flags,
    { headers_ := headers, body_ := body, flags_ := flags, status_code_ := row.2.1 },
    ?_, ?_, rfl, rfl, rfl, ?_, ?_⟩
  · rw [responseEvents, List.append_assoc, List.append_assoc, List.append_assoc, callbacks_append,
      hstatus]
    simp only [Except.bind]
    rw [← hrest]
    simp
  · have hq : q.onHeadersComplete.message_ = q.storeCurrentHeader.message_ := rfl
    simp only [ParserFields.onMessageComplete, ParserFields.onBody, hq, hmsg]
    rfl
  · have hnonempty : ValuesNonempty q.storeCurrentHeader := by
      refine valuesNonempty_store (valuesNonempty_foldl ?_ _)
      intro name value hfind
      cases hfind
    intro name value hfind
    rw [← hheaders] at hfind
    exact hnonempty name value hfind
  · intro hvalues
    rw [← hheaders]
    refine headers_foldl rfl ?_
    intro header hmem
    rcases List.mem_append.mp hmem with h | h
    · exact hvalues header h
    · rw [List.mem_singleton.mp h]
      exact digits_ne_nil _

/-! ## The loop of the client -/

/-- For a response an empty piece changes nothing. -/
theorem callbacks_emptyFragment_response {f : ParserFields} (hf : IsResponse f) {s : σ}
    (hres : Resumable lib f s) (data : Str) (cbs : List Callback) :
    f.callbacks lib (lib.emptyFragment s data ++ cbs) = f.callbacks lib cbs := by
  rcases emptyFragment_cases lib s data with h | ⟨el, hel, h⟩
  · rw [h, List.nil_append]
  · have hsame : f.callback lib (.data el []) = .ok f := by
      by_cases hurl : ∃ m, el = .url m
      · obtain ⟨m, rfl⟩ := hurl
        exact callback_of_noThrow lib hf rfl
      · exact hres el hel fun m h => hurl ⟨m, h⟩
    rw [h, List.singleton_append, callbacks_cons_ok hsame]

/-- One call of `feed` for a response: the callbacks are the events of its bytes. -/
theorem feed_response (lib : HttpParser σ) {f : ParserFields} (hf : IsResponse f)
    (hinc : f.parsing_complete_ = false) {s : σ} (hres : Resumable lib f s) (data : Str)
    (ho : (lib.scan s data).outcome ≠ .rejected) {f' : ParserFields}
    (hcbs : f.callbacks lib (lib.scan s data).events = .ok f') :
    ∃ x e, (⟨f, s, .ok⟩ : Parser σ).feed lib data = .ok (⟨f', x, e⟩, (lib.scan s data).used) ∧
      ((lib.scan s data).outcome = .complete → f'.parsing_complete_ = true) ∧
      ∀ s', (lib.scan s data).outcome = .more s' →
        x = s' ∧ e = .ok ∧ f'.parsing_complete_ = false ∧ Resumable lib f' s' := by
  cases feed_spec lib data hinc hres with
  | throws ho' hr => exact absurd ho' ho
  | @complete s' e cbs ho' hdeliver hf' hr =>
    rw [callbacks_emptyFragment_response hf hres] at hf' hr
    rw [← hdeliver.events, callbacks_atomsOf hf hdeliver.proper] at hcbs
    refine ⟨s', e, by rw [hr, hcbs]; simp [Except.map], fun _ => hf' f' hcbs, ?_⟩
    intro s'' h'
    rw [ho'] at h'
    cases h'
  | @more s' cbs ho' hdeliver hf' hr =>
    rw [callbacks_emptyFragment_response hf hres] at hf' hr
    rw [← hdeliver.events, callbacks_atomsOf hf hdeliver.proper] at hcbs
    refine ⟨s', .ok, ?_, ?_, ?_⟩
    · rw [hr, hcbs, used_of_more ho']
      simp [Except.map]
    · intro h'
      rw [ho'] at h'
      cases h'
    · intro s'' h'
      rw [ho', Outcome.more.injEq] at h'
      subst h'
      exact ⟨rfl, rfl, hf' f' hcbs⟩

theorem restart_response {p : Parser σ} {response : Response} (h : p.message_ = .response response) :
    Connection.restart lib p = Parser.new lib (.response Response.cleared) := by
  simp [Connection.restart, Parser.clear, Parser.new, h, AnyMessage.clear, AnyMessage.type]

/-- When the reads hold a whole message, it is read, and the loop goes on with the bytes behind it. -/
theorem receive_response (lib : HttpParser σ) {f : ParserFields} (hf : IsResponse f)
    (hinc : f.parsing_complete_ = false) {s : σ} (hres : Resumable lib f s) (bytes : Str)
    {reads : List Str} {rounds : Nat} (hrounds : size reads < rounds) (ho : (lib.scan s reads.flatten).outcome = .complete)
    {f' : ParserFields} {response : Response}
    (hcbs : f.callbacks lib (lib.scan s reads.flatten).events = .ok f')
    (hmsg : f'.message_ = .response response) :
    ∃ reads' rounds', size reads' < rounds' ∧
      reads'.flatten = reads.flatten.drop (lib.scan s reads.flatten).used ∧
      receive lib ⟨f, s, .ok⟩ bytes rounds reads =
        (receive lib (Parser.new lib (.response Response.cleared)) [] rounds' reads').cons
          response := by
  induction reads generalizing f s bytes rounds with
  | nil => cases ho
  | cons data reads ih =>
    obtain ⟨rounds, rfl⟩ : ∃ n, rounds = n + 1 := ⟨rounds - 1, by omega⟩
    simp only [size, List.flatten_cons, List.length_append, List.length_cons] at hrounds
    rw [List.flatten_cons] at ho hcbs ⊢
    cases ho' : (lib.scan s data).outcome with
    | rejected =>
      rw [scan_append_of_rejected ho'] at ho
      cases ho
    | complete =>
      rw [scan_append_of_complete ho'] at hcbs ⊢
      obtain ⟨x, e, hfeed, hdone, -⟩ := feed_response lib hf hinc hres data (by rw [ho']; nofun) hcbs
      obtain ⟨hle, hpos⟩ := used_of_complete ho'
      refine ⟨data.drop (lib.scan s data).used :: reads, rounds, ?_, ?_, ?_⟩
      · simp only [size, List.flatten_cons, List.length_append, List.length_cons, List.length_drop]
        omega
      · rw [List.flatten_cons, List.drop_append_of_le_length hle]
      · rw [receive, hfeed]
        simp only [hdone ho', if_true, hmsg]
        rw [restart_response hmsg]
    | more s' =>
      have hused := used_of_more ho'
      rw [scan_append_of_more ho'] at ho hcbs ⊢
      rw [callbacks_append] at hcbs
      cases hfirst : f.callbacks lib (lib.scan s data).events with
      | error e =>
        rw [hfirst] at hcbs
        cases hcbs
      | ok f₁ =>
        rw [hfirst] at hcbs
        obtain ⟨x, e, hfeed, -, hmore⟩ :=
          feed_response lib hf hinc hres data (by rw [ho']; nofun) hfirst
        obtain ⟨rfl, rfl, hopen, hnext⟩ := hmore s' ho'
        have hf₁ : IsResponse f₁ := by
          rw [isResponse_iff] at hf ⊢
          rw [type_callbacks hfirst, hf]
        have hsize : size reads < rounds := by
          simp only [size]
          omega
        obtain ⟨reads', rounds', hlt, hrest, hreceive⟩ :=
          ih hf₁ hopen hnext (bytes ++ data) hsize ho hcbs
        refine ⟨reads', rounds', hlt, ?_, ?_⟩
        · rw [hrest, List.drop_append, List.drop_eq_nil_of_le (Nat.le_add_right _ _),
            Nat.add_sub_cancel_left, List.nil_append]
        · rw [receive, hfeed]
          simp only [hopen, Bool.false_eq_true, if_false]
          exact hreceive

/-- Reads without any byte leave nothing. -/
theorem receive_nothing (lib : HttpParser σ) {reads : List Str} {rounds : Nat}
    (hrounds : size reads < rounds) (h : reads.flatten = []) :
    receive lib (Parser.new lib (.response Response.cleared)) [] rounds reads =
      { responses := [], rest := some [] } := by
  induction reads generalizing rounds with
  | nil =>
    obtain ⟨rounds, rfl⟩ : ∃ n, rounds = n + 1 := ⟨rounds - 1, by omega⟩
    rfl
  | cons data reads ih =>
    obtain ⟨rounds, rfl⟩ : ∃ n, rounds = n + 1 := ⟨rounds - 1, by omega⟩
    obtain ⟨rfl, hrest⟩ := List.append_eq_nil_iff.mp h
    have hsize : size reads < rounds := by
      simp only [size, List.flatten_cons, List.length_append, List.length_cons] at hrounds ⊢
      omega
    have hfeed : (Parser.new lib (.response Response.cleared)).feed lib [] =
        .ok (Parser.new lib (.response Response.cleared), 0) := rfl
    rw [receive, hfeed]
    exact ih hsize hrest

/-! ## Sent and received -/

/-- What the client makes of one response, with other bytes behind: the response that was sent
exactly when it is plain, and then the other bytes are next. -/
theorem receive_sent (lib : HttpParser σ) {noBody : StatusCode → Bool} {sent : Response}
    (hsend : Sendable sent) (hframes : Frames lib noBody sent) {text rest : Str}
    (htext : Connection.encodeResponse sent = some text) {reads : List Str}
    (hreads : reads.flatten = text ++ rest) {rounds : Nat} (hrounds : size reads < rounds) :
    ∃ received reads' rounds', size reads' < rounds' ∧
      receive lib (Parser.new lib (.response Response.cleared)) [] rounds reads =
        (receive lib (Parser.new lib (.response Response.cleared)) [] rounds' reads').cons
          received ∧
      (Plain noBody sent → reads'.flatten = rest) ∧ (Same sent received ↔ Plain noBody sent) := by
  obtain ⟨status, hstatus, rfl⟩ := Option.map_eq_some_iff.mp htext
  obtain ⟨row, hrow, hentry⟩ := List.mem_map.mp (AssocMap.mem_of_find hstatus)
  obtain ⟨hcode, rfl⟩ := Prod.mk.inj hentry
  obtain ⟨flags, hscan⟩ := hframes row hrow hcode
  set body := framedBody noBody sent with hbody
  -- the bytes of the message, and those of the body that are not part of it
  have hsplit : ∃ left, sent.body_ = body ++ left ∧ (Plain noBody sent → left = []) := by
    rw [hbody, framedBody]
    split_ifs with hno
    · exact ⟨sent.body_, rfl, fun hplain => hplain.2 hno⟩
    · exact ⟨[], (List.append_nil _).symm, fun _ => rfl⟩
  obtain ⟨left, hleft, hplainLeft⟩ := hsplit
  have hflat : reads.flatten =
      (Connection.encodeHead row.2.2.toList sent ++ body) ++ (left ++ rest) := by
    rw [hreads, hleft]
    simp
  have hall : lib.scan (lib.init .response) reads.flatten =
      lib.scan (lib.init .response) (Connection.encodeHead row.2.2.toList sent ++ body) := by
    rw [hflat, scan_append_of_complete (by rw [hscan])]
  have hlength : ∀ header ∈ sent.headers_, header.1 ≠ Connection.contentLength := by
    intro header hmem h
    have hlower : Connection.contentLength.map Char.toLower = "content-length".toList := by decide
    exact (hsend.framing header hmem).1 (by rw [h, hlower])
  have hnames : ∀ header ∈ sent.headers_, header.1 ≠ [] := fun header hmem =>
    (hsend.names header hmem).1
  obtain ⟨f, received, hcbs, hmsg, -, hstatus', hbody', hvalues, hheaders⟩ :=
    callbacks_response lib hnames hrow body flags
  have hnew : IsResponse (Parser.new lib (.response Response.cleared)).toParserFields :=
    ⟨Response.cleared, rfl⟩
  have hcomplete : (lib.scan (lib.init .response) reads.flatten).outcome = .complete := by
    rw [hall, hscan]
  have hevents : (Parser.new lib (.response Response.cleared)).toParserFields.callbacks lib
      (lib.scan (lib.init .response) reads.flatten).events = .ok f := by
    rw [hall, hscan]
    exact hcbs
  obtain ⟨reads', rounds', hlt, hrest, hreceive⟩ :=
    receive_response lib hnew rfl (resumable_of_none (lib.resumed_init .response) _) [] hrounds
      hcomplete hevents hmsg
  rw [hall, hscan, hflat, List.drop_left] at hrest
  refine ⟨received, reads', rounds', hlt, hreceive, ?_, ?_, ?_⟩
  · intro hplain
    rw [hrest, hplainLeft hplain]
    rfl
  · intro hsame
    constructor
    · intro header hmem hempty
      have hfind := AssocMap.find_of_mem hsend.distinct hmem
      have hsent := hsame.headers header.1
      rw [AssocMap.find_assign, if_neg (hlength header hmem), hfind] at hsent
      exact hvalues header.1 header.2 hsent hempty
    · intro hno
      have heq := hsame.body
      rw [hbody', hbody, framedBody, if_pos hno] at heq
      exact heq.symm
  · intro hplain
    refine ⟨by rw [hstatus', hcode], ?_, ?_⟩
    · intro name
      have hdistinct : ((sentHeaders sent).map Prod.fst).Nodup := by
        rw [sentHeaders, List.map_append, List.nodup_append]
        refine ⟨hsend.distinct, by simp, ?_⟩
        intro a ha b hb
        obtain ⟨header, hmem, rfl⟩ := List.mem_map.mp ha
        rw [List.mem_singleton.mp hb]
        exact hlength header hmem
      rw [hheaders hplain.1, AssocMap.find_assignAll, AssocMap.last_eq_find hdistinct,
        AssocMap.find_assign, AssocMap.find_nil, Option.or_none, sentHeaders, AssocMap.find_append]
      by_cases hname : name = Connection.contentLength
      · rw [hname, AssocMap.find_eq_none hlength]
        simp [AssocMap.find]
      · simp [AssocMap.find, hname, Ne.symm hname]
    · rw [hbody', hleft, hplainLeft hplain, List.append_nil]

/-- Responses written one after the other, read by a client in any reads: it reads exactly these
responses, with `Content-Length` and nothing left over, if and only if no header value is empty and
no response has a body that is not framed. -/
theorem round_trip_iff_plain (lib : HttpParser σ) (noBody : StatusCode → Bool)
    {responses : List Response} (hsend : ∀ sent ∈ responses, Sendable sent)
    (hframes : ∀ sent ∈ responses, Frames lib noBody sent) {texts reads : List Str}
    (htexts : List.Forall₂ (fun sent text => Connection.encodeResponse sent = some text) responses
      texts) (hreads : reads.flatten = texts.flatten) :
    RoundTrip lib responses reads ↔ ∀ sent ∈ responses, Plain noBody sent := by
  have hloop : ∀ rounds, size reads < rounds →
      (List.Forall₂ Same responses (receive lib (Parser.new lib (.response Response.cleared)) []
          rounds reads).responses ∧
        (receive lib (Parser.new lib (.response Response.cleared)) [] rounds reads).rest =
          some [] ↔ ∀ sent ∈ responses, Plain noBody sent) := by
    induction htexts generalizing reads with
    | nil =>
      intro rounds hrounds
      rw [receive_nothing lib hrounds hreads]
      exact iff_of_true ⟨.nil, rfl⟩ (by simp)
    | @cons sent text responses texts htext _ ih =>
      intro rounds hrounds
      obtain ⟨received, reads', rounds', hlt, hreceive, hrest, hsame⟩ :=
        receive_sent lib (hsend sent List.mem_cons_self) (hframes sent List.mem_cons_self) htext
          hreads hrounds
      have hothers := fun hplain => ih (fun r hr => hsend r (List.mem_cons_of_mem _ hr))
        (fun r hr => hframes r (List.mem_cons_of_mem _ hr)) (hrest hplain) rounds' hlt
      rw [hreceive, List.forall_mem_cons, ← hsame]
      simp only [Received.cons, List.forall₂_cons]
      constructor
      · rintro ⟨⟨hfirst, hresponses⟩, hleft⟩
        exact ⟨hfirst, (hothers (hsame.mp hfirst)).mp ⟨hresponses, hleft⟩⟩
      · rintro ⟨hfirst, hplain⟩
        obtain ⟨hresponses, hleft⟩ := (hothers (hsame.mp hfirst)).mpr hplain
        exact ⟨⟨hfirst, hresponses⟩, hleft⟩
  exact hloop (size reads + 1) (Nat.lt_succ_self _)

/-- A response 200. -/
def okResponse (headers : List (Str × Str)) (body : Str) : Response :=
  { headers_ := headers, body_ := body, flags_ := 0, status_code_ := .code200Ok }

theorem frames_okResponse {headers : List (Str × Str)} {body : Str} (flags : Nat)
    (h : PlainParser.lib.scan (PlainParser.lib.init .response)
        (Connection.encodeHead "200 OK".toList (okResponse headers body) ++ body) =
      { events := responseEvents 200 "OK".toList (okResponse headers body) body flags
        used := (Connection.encodeHead "200 OK".toList (okResponse headers body) ++ body).length
        outcome := .complete }) : Frames PlainParser.lib noBody (okResponse headers body) := by
  have hrow : ∀ row ∈ httpStatusCodeMap, row.2.1 = .code200Ok → row = (200, .code200Ok, "200 OK") := by
    decide
  intro row hmem hcode
  obtain rfl := hrow row hmem hcode
  exact ⟨flags, h⟩

/-- One response with a header and a body, in two reads. -/
theorem round_trip_of_one_response :
    RoundTrip PlainParser.lib [okResponse [("X-A".toList, "b".toList)] "hi".toList]
      ["HTTP/1.1 200 OK\r\nX-A: b\r\nCont".toList, "ent-Length: 2\r\n\r\nhi".toList] := by
  have htext : Connection.encodeResponse (okResponse [("X-A".toList, "b".toList)] "hi".toList) =
      some "HTTP/1.1 200 OK\r\nX-A: b\r\nContent-Length: 2\r\n\r\nhi".toList := by
    decide +kernel
  refine (round_trip_iff_plain PlainParser.lib noBody ?_ ?_ (.cons htext .nil)
    (by decide +kernel)).mpr ?_
  · rw [List.forall_mem_singleton]
    constructor <;> decide +kernel
  · rw [List.forall_mem_singleton]
    exact frames_okResponse 128 (by decide +kernel)
  · rw [List.forall_mem_singleton]
    exact ⟨by decide, fun h => by cases h⟩

/-- A response with a header that has no value, and another header. -/
def emptyValue : Response := okResponse [("A".toList, []), ("B".toList, "x".toList)] []

/-- What the server writes for it. -/
def emptyValueText : Str := "HTTP/1.1 200 OK\r\nA: \r\nB: x\r\nContent-Length: 0\r\n\r\n".toList

/-- A header without a value gives its name to the next one. -/
theorem empty_value_merges_headers :
    Sendable emptyValue ∧ Frames PlainParser.lib noBody emptyValue ∧
    Connection.encodeResponse emptyValue = some emptyValueText ∧
    (run PlainParser.lib [emptyValueText]).responses.map (·.headers_) =
      [[("AB".toList, "x".toList), ("Content-Length".toList, "0".toList)]] ∧
    ¬RoundTrip PlainParser.lib [emptyValue] [emptyValueText] := by
  have hheaders : (run PlainParser.lib [emptyValueText]).responses.map (·.headers_) =
      [[("AB".toList, "x".toList), ("Content-Length".toList, "0".toList)]] := by
    decide +kernel
  refine ⟨by constructor <;> decide +kernel, frames_okResponse 128 (by decide +kernel),
    by decide +kernel, hheaders, ?_⟩
  rintro ⟨hall, -⟩
  generalize (run PlainParser.lib [emptyValueText]).responses = responses at hall hheaders
  cases hall with
  | @cons _ received _ _ hsame hnil =>
    cases hnil
    have hreceived : received.headers_ =
        [("AB".toList, "x".toList), ("Content-Length".toList, "0".toList)] :=
      (List.cons.inj hheaders).1
    have hB := hsame.headers "B".toList
    rw [hreceived] at hB
    exact absurd hB (by decide +kernel)

end Client

end Http
