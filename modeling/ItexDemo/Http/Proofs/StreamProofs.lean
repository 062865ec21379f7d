import ItexDemo.Http.Stream

/-!
# Proofs: `Parser::feed` delivers the events of its bytes

The callbacks that `feed` makes for a buffer are the events of its bytes, with neighbouring bytes of
an element put together (`Delivers`, `feed_spec`). The URL of a buffer comes in one piece.
-/

namespace Http

variable {σ : Type} {lib : HttpParser σ}

/-- The callbacks with their data one byte at a time. -/
def atomsOf (cbs : List Callback) : List Callback := cbs.flatMap Callback.atoms

/-- The pieces of the URL in a list of callbacks. -/
def urls (cbs : List Callback) : List (Nat × Str) := cbs.filterMap Callback.url?

/-- No callback has empty data. -/
def Proper (cbs : List Callback) : Prop := ∀ el, Callback.data el [] ∉ cbs

/-- All the bytes of the URL come in one callback. -/
def OnePiece (cbs : List Callback) : Prop := (urls cbs).length ≤ 1

@[simp] theorem atomsOf_nil : atomsOf [] = [] := rfl

@[simp] theorem atomsOf_append (xs ys : List Callback) :
    atomsOf (xs ++ ys) = atomsOf xs ++ atomsOf ys := by
  simp [atomsOf]

@[simp] theorem urls_append (xs ys : List Callback) : urls (xs ++ ys) = urls xs ++ urls ys := by
  simp [urls]

@[simp] theorem urls_nil : urls [] = [] := rfl

@[simp] theorem urls_headersComplete : urls [.headersComplete] = [] := rfl

@[simp] theorem urls_messageComplete (flags : Nat) : urls [.messageComplete flags] = [] := rfl

theorem Proper.append {xs ys : List Callback} (hx : Proper xs) (hy : Proper ys) :
    Proper (xs ++ ys) := by
  intro el hmem
  rcases List.mem_append.mp hmem with h | h
  · exact hx el h
  · exact hy el h

/-! ## Streams -/

/-- The events of one byte of an element, apart from the ends of the headers and of the message. -/
def byteEvents (c : Consumed σ) (b : Char) : List Callback :=
  (mark none c b).1 ++ flush (mark none c b).2

/-- How a byte is read. -/
theorem byte_cases {s : σ} {b : Char} {events : List Callback} {c : Consumed σ}
    (h : lib.byte s b = .ok (events, c)) :
    (lib.headersComplete s b = none ∧ lib.consume s b = .ok c ∧ events = byteEvents c b) ∨
    ∃ s', lib.headersComplete s b = some s' ∧ lib.consume s' b = .ok c ∧
      events = .headersComplete :: byteEvents c b := by
  unfold HttpParser.byte at h
  split at h
  · next s' hs' =>
    cases hc : lib.consume s' b with
    | error e => simp [hc, Except.map] at h
    | ok c' =>
      simp only [hc, Except.map, Except.ok.injEq, Prod.mk.injEq] at h
      obtain ⟨rfl, rfl⟩ := h
      exact Or.inr ⟨s', hs', hc, rfl⟩
  · next hs' =>
    cases hc : lib.consume s b with
    | error e => simp [hc, Except.map] at h
    | ok c' =>
      simp only [hc, Except.map, Except.ok.injEq, Prod.mk.injEq] at h
      obtain ⟨rfl, rfl⟩ := h
      exact Or.inl ⟨hs', rfl, rfl⟩

theorem scan_refused {s : σ} {b : Char} {rest : Str} {e : Nat} (h : lib.byte s b = .error e) :
    lib.scan s (b :: rest) = { events := [], used := 0, outcome := .rejected } := by
  simp only [HttpParser.scan, h]

theorem scan_last {s : σ} {b : Char} {rest : Str} {events : List Callback} {c : Consumed σ}
    {flags : Nat} (h : lib.byte s b = .ok (events, c)) (hc : c.messageComplete = some flags) :
    lib.scan s (b :: rest) =
      { events := events ++ [.messageComplete flags], used := 1, outcome := .complete } := by
  simp only [HttpParser.scan, h]
  split
  · next hc' => rw [hc, Option.some.injEq] at hc'; rw [hc']
  · next hc' => rw [hc] at hc'; cases hc'

theorem scan_more {s : σ} {b : Char} (rest : Str) {events : List Callback} {c : Consumed σ}
    (h : lib.byte s b = .ok (events, c)) (hc : c.messageComplete = none) :
    lib.scan s (b :: rest) =
      { events := events ++ (lib.scan c.state rest).events
        used := (lib.scan c.state rest).used + 1
        outcome := (lib.scan c.state rest).outcome } := by
  simp only [HttpParser.scan, h]
  split
  · next hc' => rw [hc] at hc'; cases hc'
  · rfl

theorem scan_append_of_more {s s' : σ} {x : Str} (h : (lib.scan s x).outcome = .more s') (y : Str) :
    lib.scan s (x ++ y) =
      { events := (lib.scan s x).events ++ (lib.scan s' y).events
        used := x.length + (lib.scan s' y).used
        outcome := (lib.scan s' y).outcome } := by
  induction x generalizing s with
  | nil =>
    cases h
    simp [HttpParser.scan]
  | cons b x ih =>
    cases hb : lib.byte s b with
    | error e =>
      rw [scan_refused hb] at h
      cases h
    | ok r =>
      obtain ⟨events, c⟩ := r
      cases hc : c.messageComplete with
      | some flags =>
        rw [scan_last hb hc] at h
        cases h
      | none =>
        rw [scan_more _ hb hc] at h
        rw [List.cons_append, scan_more _ hb hc, scan_more _ hb hc, ih h]
        simp [Nat.add_right_comm]

theorem scan_append_of_complete {s : σ} {x : Str} (h : (lib.scan s x).outcome = .complete)
    (y : Str) : lib.scan s (x ++ y) = lib.scan s x := by
  induction x generalizing s with
  | nil => cases h
  | cons b x ih =>
    cases hb : lib.byte s b with
    | error e =>
      rw [scan_refused hb] at h
      cases h
    | ok r =>
      obtain ⟨events, c⟩ := r
      cases hc : c.messageComplete with
      | some flags => rw [List.cons_append, scan_last hb hc, scan_last hb hc]
      | none =>
        rw [scan_more _ hb hc] at h
        rw [List.cons_append, scan_more _ hb hc, scan_more _ hb hc, ih h]

theorem scan_append_of_rejected {s : σ} {x : Str} (h : (lib.scan s x).outcome = .rejected)
    (y : Str) : (lib.scan s (x ++ y)).outcome = .rejected := by
  induction x generalizing s with
  | nil => cases h
  | cons b x ih =>
    cases hb : lib.byte s b with
    | error e => rw [List.cons_append, scan_refused hb]
    | ok r =>
      obtain ⟨events, c⟩ := r
      cases hc : c.messageComplete with
      | some flags =>
        rw [scan_last hb hc] at h
        cases h
      | none =>
        rw [scan_more _ hb hc] at h
        rw [List.cons_append, scan_more _ hb hc]
        exact ih h

theorem used_of_more {s s' : σ} {x : Str} (h : (lib.scan s x).outcome = .more s') :
    (lib.scan s x).used = x.length := by
  have happend := scan_append_of_more h []
  rw [List.append_nil] at happend
  rw [happend]
  rfl

/-- A message that is complete ends with some byte of the stream. -/
theorem used_of_complete {s : σ} {x : Str} (h : (lib.scan s x).outcome = .complete) :
    (lib.scan s x).used ≤ x.length ∧ 0 < (lib.scan s x).used := by
  induction x generalizing s with
  | nil => cases h
  | cons b x ih =>
    cases hb : lib.byte s b with
    | error e =>
      rw [scan_refused hb] at h
      cases h
    | ok r =>
      obtain ⟨events, c⟩ := r
      cases hc : c.messageComplete with
      | some flags =>
        rw [scan_last hb hc]
        simp
      | none =>
        rw [scan_more _ hb hc] at h ⊢
        have := ih h
        simp only [List.length_cons]
        omega

/-- Only the bytes of a complete message matter. -/
theorem scan_take {s : σ} {x : Str} (h : (lib.scan s x).outcome = .complete) :
    lib.scan s (x.take (lib.scan s x).used) = lib.scan s x := by
  obtain ⟨hle, -⟩ := used_of_complete h
  have hsplit := List.take_append_drop (lib.scan s x).used x
  cases ho : (lib.scan s (x.take (lib.scan s x).used)).outcome with
  | more s' =>
    -- then the message would end later
    have hscan := scan_append_of_more ho (x.drop (lib.scan s x).used)
    rw [hsplit] at hscan
    have hcomplete : (lib.scan s' (x.drop (lib.scan s x).used)).outcome = .complete := by
      rw [hscan] at h
      exact h
    have hpos := (used_of_complete hcomplete).2
    have hused := congrArg Scan.used hscan
    simp only [List.length_take] at hused
    omega
  | complete =>
    have hscan := scan_append_of_complete ho (x.drop (lib.scan s x).used)
    rw [hsplit] at hscan
    exact hscan.symm
  | rejected =>
    have hrej := scan_append_of_rejected ho (x.drop (lib.scan s x).used)
    rw [hsplit, h] at hrej
    cases hrej

/-- The end of a complete message is its last event. -/
theorem complete_events {s : σ} {x : Str} (h : (lib.scan s x).outcome = .complete) :
    ∃ events flags, (lib.scan s x).events = events ++ [.messageComplete flags] := by
  induction x generalizing s with
  | nil => cases h
  | cons b x ih =>
    cases hb : lib.byte s b with
    | error e =>
      rw [scan_refused hb] at h
      cases h
    | ok r =>
      obtain ⟨events, c⟩ := r
      cases hc : c.messageComplete with
      | some flags => exact ⟨events, flags, by rw [scan_last hb hc]⟩
      | none =>
        rw [scan_more _ hb hc] at h ⊢
        obtain ⟨events', flags, heq⟩ := ih h
        exact ⟨events ++ events', flags, by rw [heq, List.append_assoc]⟩

/-! ## One run of `http_parser_execute` -/

/-- The marked data are not empty. -/
def MarkedProper (marked : Option (Element × Str)) : Prop := ∀ el frag, marked = some (el, frag) → frag ≠ []

theorem flush_proper {marked : Option (Element × Str)} (h : MarkedProper marked) :
    Proper (flush marked) := by
  intro el hmem
  cases marked with
  | none => cases hmem
  | some m =>
    obtain ⟨el', frag⟩ := m
    simp only [flush, List.mem_singleton, Callback.data.injEq] at hmem
    exact h el' frag rfl hmem.2.symm

/-- What becomes due with a byte that does not go on with the marked data. -/
def due (marked : Option (Element × Str)) (c : Consumed σ) : List Callback :=
  flush marked ++ (if c.messageBegin then [.messageBegin] else []) ++ (c.chunk.map .chunk).toList

/-- The byte goes on with data of the element. -/
def GoesOn (el : Element) (c : Consumed σ) : Prop :=
  c.element = some el ∧ c.messageBegin = false ∧ c.chunk = none

/-- A byte goes on with the marked data, or they become due. -/
theorem mark_cases (marked : Option (Element × Str)) (c : Consumed σ) (b : Char) :
    (∃ el frag, marked = some (el, frag) ∧ GoesOn el c ∧
      mark marked c b = ([], some (el, frag ++ [b]))) ∨
    ((∀ el frag, marked = some (el, frag) → ¬GoesOn el c) ∧
      mark marked c b = (due marked c, c.element.map fun e => (e, [b]))) := by
  obtain ⟨st, begin_, el, chunk, compl⟩ := c
  cases marked with
  | none =>
    refine Or.inr ⟨nofun, ?_⟩
    cases el <;> rfl
  | some m =>
    obtain ⟨el₀, frag⟩ := m
    by_cases hgoes : GoesOn el₀ (⟨st, begin_, el, chunk, compl⟩ : Consumed σ)
    · refine Or.inl ⟨el₀, frag, rfl, hgoes, ?_⟩
      obtain ⟨rfl, rfl, rfl⟩ := hgoes
      simp [mark]
    · refine Or.inr ⟨?_, ?_⟩
      · rintro _ _ ⟨⟩
        exact hgoes
      · cases begin_ <;> cases chunk <;> cases el <;> first | rfl | skip
        next el =>
          have hne : el₀ ≠ el := fun h => hgoes ⟨by rw [h], rfl, rfl⟩
          simp [mark, hne, due, flush]

theorem mark_none (c : Consumed σ) (b : Char) :
    mark none c b = (due none c, c.element.map fun e => (e, [b])) := by
  rcases mark_cases none c b with ⟨el, frag, h, -⟩ | ⟨-, h⟩
  · cases h
  · exact h

theorem proper_due {marked : Option (Element × Str)} (h : MarkedProper marked) (c : Consumed σ) :
    Proper (due marked c) := by
  refine ((flush_proper h).append ?_).append ?_
  · intro el hel
    split_ifs at hel <;> simp at hel
  · intro el hel
    cases hc : c.chunk <;> simp [hc] at hel

theorem atomsOf_due (marked : Option (Element × Str)) (c : Consumed σ) :
    atomsOf (due marked c) = atomsOf (flush marked) ++ due none c := by
  unfold due
  cases c.messageBegin <;> cases c.chunk <;> simp [flush, atomsOf, Callback.atoms]

/-- Marking a byte adds its event, whether or not the data before it become due. -/
theorem mark_spec (marked : Option (Element × Str)) (c : Consumed σ) (b : Char)
    (hm : MarkedProper marked) :
    atomsOf ((mark marked c b).1 ++ flush (mark marked c b).2) =
      atomsOf (flush marked) ++ ((mark none c b).1 ++ flush (mark none c b).2) ∧
    Proper (mark marked c b).1 ∧ MarkedProper (mark marked c b).2 := by
  rw [mark_none]
  rcases mark_cases marked c b with ⟨el, frag, rfl, ⟨hel, hbegin, hchunk⟩, h⟩ | ⟨-, h⟩
  · rw [h, due, hel, hbegin, hchunk]
    refine ⟨?_, nofun, ?_⟩
    · simp [flush, atomsOf, Callback.atoms]
    · rintro _ _ ⟨⟩
      simp
  · rw [h, atomsOf_append, atomsOf_due]
    refine ⟨?_, proper_due hm c, ?_⟩
    · cases c.element <;> simp [flush, atomsOf, Callback.atoms]
    · intro el frag hmap
      obtain ⟨el', -, heq⟩ := Option.map_eq_some_iff.mp hmap
      cases heq
      exact List.cons_ne_nil _ _

/-- How a run of `http_parser_execute` over `data` can end. -/
inductive RunSpec (lib : HttpParser σ) (s : σ) (marked : Option (Element × Str)) (data : Str) :
    Executed σ → Prop where
  /-- All the data have been used. -/
  | used {r : Executed σ} (he : r.errno = .ok) (hu : r.used = data.length)
      (ho : (lib.scan s data).outcome = .more r.state) (hp : Proper r.callbacks)
      (ha : atomsOf r.callbacks = atomsOf (flush marked) ++ (lib.scan s data).events) :
      RunSpec lib s marked data r
  /-- The message is complete. -/
  | complete {r : Executed σ} (cbs : List Callback) {flags : Nat} (he : r.errno = .paused)
      (hu : r.used = (lib.scan s data).used) (ho : (lib.scan s data).outcome = .complete)
      (hp : Proper r.callbacks) (hc : r.callbacks = cbs ++ [.messageComplete flags])
      (ha : atomsOf r.callbacks = atomsOf (flush marked) ++ (lib.scan s data).events) :
      RunSpec lib s marked data r
  /-- The headers end with the next byte. -/
  | headers {r : Executed σ} (pre : Str) {rest : Str} {b : Char} {s' : σ} (he : r.errno = .paused)
      (hd : data = pre ++ b :: rest) (hu : r.used = pre.length)
      (ho : (lib.scan s pre).outcome = .more s') (hh : lib.headersComplete s' b = some r.state)
      (hp : Proper r.callbacks)
      (ha : atomsOf r.callbacks =
        atomsOf (flush marked) ++ (lib.scan s pre).events ++ [.headersComplete]) :
      RunSpec lib s marked data r
  /-- The next byte is refused. -/
  | refused {r : Executed σ} {e : Nat} (he : r.errno = .error e) (hu : r.used < data.length)
      (ho : (lib.scan s data).outcome = .rejected) : RunSpec lib s marked data r

theorem run_spec (lib : HttpParser σ) (s : σ) (marked : Option (Element × Str)) (data : Str)
    (hm : MarkedProper marked) : RunSpec lib s marked data (lib.run s marked data) := by
  induction data generalizing s marked with
  | nil =>
    refine .used rfl rfl rfl (flush_proper hm) ?_
    simp [HttpParser.run, HttpParser.scan]
  | cons b rest ih =>
    cases hh : lib.headersComplete s b with
    | some s' =>
      have hrun : lib.run s marked (b :: rest) =
          { callbacks := flush marked ++ [.headersComplete], state := s', used := 0,
            errno := .paused } := by
        simp [HttpParser.run, hh]
      rw [hrun]
      refine .headers [] rfl rfl rfl rfl hh ?_ ?_
      · refine (flush_proper hm).append ?_
        intro el hel
        simp at hel
      · simp [HttpParser.scan, atomsOf, Callback.atoms]
    | none =>
      cases hc : lib.consume s b with
      | error e =>
        have hrun : lib.run s marked (b :: rest) =
            { callbacks := [], state := s, used := 0, errno := .error e } := by
          simp [HttpParser.run, hh, hc]
        rw [hrun]
        refine .refused rfl (by simp) ?_
        have hbyte : lib.byte s b = .error e := by simp [HttpParser.byte, hh, hc, Except.map]
        rw [scan_refused hbyte]
      | ok c =>
        obtain ⟨hatoms, hproper, hmarked⟩ := mark_spec marked c b hm
        have hbyte : lib.byte s b = .ok ((mark none c b).1 ++ flush (mark none c b).2, c) := by
          simp [HttpParser.byte, hh, hc, Except.map]
        rw [atomsOf_append] at hatoms
        cases hcomplete : c.messageComplete with
        | some flags =>
          have hrun : lib.run s marked (b :: rest) =
              { callbacks := (mark marked c b).1 ++ flush (mark marked c b).2 ++
                  [.messageComplete flags],
                state := c.state, used := 1, errno := .paused } := by
            simp [HttpParser.run, hh, hc, hcomplete]
          rw [hrun]
          refine .complete _ rfl ?_ ?_ ?_ rfl ?_
          · rw [scan_last hbyte hcomplete]
          · rw [scan_last hbyte hcomplete]
          · refine (hproper.append (flush_proper hmarked)).append ?_
            intro el hel
            simp at hel
          · rw [atomsOf_append, atomsOf_append, hatoms, scan_last hbyte hcomplete]
            simp [atomsOf, Callback.atoms]
        | none =>
          have hrun : lib.run s marked (b :: rest) =
              { lib.run c.state (mark marked c b).2 rest with
                callbacks := (mark marked c b).1 ++ (lib.run c.state (mark marked c b).2 rest).callbacks
                used := (lib.run c.state (mark marked c b).2 rest).used + 1 } := by
            simp [HttpParser.run, hh, hc, hcomplete]
          have hscan := fun x => scan_more x hbyte hcomplete
          rw [hrun]
          cases ih c.state (mark marked c b).2 hmarked with
          | used he hu ho hp ha =>
            refine .used he (by simp [hu]) (by rw [hscan]; exact ho) (hproper.append hp) ?_
            rw [atomsOf_append, ha, hscan, ← List.append_assoc, hatoms, List.append_assoc]
          | complete _ he hu ho hp hcbs ha =>
            refine .complete ((mark marked c b).1 ++ _) he (by rw [hscan, hu])
              (by rw [hscan]; exact ho) (hproper.append hp) (by rw [hcbs, List.append_assoc]) ?_
            rw [atomsOf_append, ha, hscan, ← List.append_assoc, hatoms, List.append_assoc]
          | headers pre he hd hu ho hh' hp ha =>
            refine .headers (b :: pre) he (by rw [hd]; rfl) (by simp [hu])
              (by rw [hscan]; exact ho) hh' (hproper.append hp) ?_
            rw [atomsOf_append, ha, hscan, ← List.append_assoc, ← List.append_assoc, hatoms]
            simp
          | refused he hu ho =>
            exact .refused he (by simpa using hu) (by rw [hscan]; exact ho)

/-! ## The URL comes in one piece -/

theorem urls_flush_notUrl {marked : Option (Element × Str)}
    (h : ∀ m frag, marked ≠ some (.url m, frag)) : urls (flush marked) = [] := by
  cases marked with
  | none => rfl
  | some p =>
    obtain ⟨el, frag⟩ := p
    cases el with
    | url m => exact absurd rfl (h m frag)
    | status _ => rfl
    | headerField => rfl
    | headerValue => rfl
    | body => rfl

theorem urls_flush_le (marked : Option (Element × Str)) : (urls (flush marked)).length ≤ 1 := by
  cases marked with
  | none => simp [urls, flush]
  | some p =>
    obtain ⟨el, frag⟩ := p
    cases el <;> simp [flush, urls, List.filterMap_cons, Callback.url?]

/-- Data of the URL are marked only while the machine is inside the URL. -/
def PhaseOk (lib : HttpParser σ) (s : σ) (marked : Option (Element × Str)) : Prop :=
  ∀ m frag, marked = some (.url m, frag) → lib.urlPhase s = .inside m

theorem urls_due (marked : Option (Element × Str)) (c : Consumed σ) :
    urls (due marked c) = urls (flush marked) := by
  unfold due
  cases c.messageBegin <;> cases c.chunk <;> simp [urls, Callback.url?]

/-- A byte of another element ends the marked data. -/
theorem mark_notUrl (marked : Option (Element × Str)) {c : Consumed σ} (b : Char)
    (hel : ∀ m, c.element ≠ some (.url m)) :
    urls (mark marked c b).1 = urls (flush marked) ∨ urls (mark marked c b).1 = [] ∧
      urls (flush marked) = [] := by
  rcases mark_cases marked c b with ⟨el, frag, rfl, ⟨hgoes, -, -⟩, h⟩ | ⟨-, h⟩
  · refine Or.inr ⟨by rw [h]; rfl, urls_flush_notUrl ?_⟩
    rintro m _ ⟨⟩
    exact hel m hgoes
  · exact Or.inl (by rw [h, urls_due])

theorem marked_notUrl (marked : Option (Element × Str)) {c : Consumed σ} (b : Char)
    (hel : ∀ m, c.element ≠ some (.url m)) (m : Nat) (frag : Str) :
    (mark marked c b).2 ≠ some (.url m, frag) := by
  intro hmark
  rcases mark_cases marked c b with ⟨el, frag₀, rfl, ⟨hgoes, -, -⟩, h⟩ | ⟨-, h⟩
  · rw [h] at hmark
    cases hmark
    exact hel m hgoes
  · rw [h] at hmark
    obtain ⟨el, hc, heq⟩ := Option.map_eq_some_iff.mp hmark
    cases heq
    exact hel m hc

/-- A byte of the URL goes on with the URL that is marked. -/
theorem mark_url (marked : Option (Element × Str)) {s : σ} {c : Consumed σ} {b : Char} {m : Nat}
    (hc : lib.consume s b = .ok c) (hel : c.element = some (.url m)) (hp : PhaseOk lib s marked) :
    urls (mark marked c b).1 = [] ∧ PhaseOk lib c.state (mark marked c b).2 := by
  obtain ⟨hbegin, hinside, hphase⟩ := lib.consume_url hc hel
  have hchunk : c.chunk = none := by
    cases hpart : c.chunk with
    | none => rfl
    | some part =>
      have hafter := lib.consume_chunk hc hpart
      rcases hphase with h | h <;> rw [hafter] at h <;> cases h
  have hok : ∀ frag, PhaseOk lib c.state (some (.url m, frag)) := by
    rintro frag _ _ ⟨⟩
    exact hinside
  rcases mark_cases marked c b with ⟨el, frag, rfl, ⟨hgoes, -, -⟩, h⟩ | ⟨hdue, h⟩
  · obtain rfl : el = .url m := Option.some.inj (hgoes.symm.trans hel)
    rw [h]
    exact ⟨rfl, hok _⟩
  · rw [h, hel, urls_due]
    refine ⟨urls_flush_notUrl ?_, hok _⟩
    intro m' frag hmarked
    -- the method of the URL does not change
    have hin := hp m' frag hmarked
    rcases hphase with hb | hi
    · rw [hb] at hin
      cases hin
    · rw [hi, UrlPhase.inside.injEq] at hin
      exact hdue _ _ hmarked ⟨by rw [hel, hin], hbegin, hchunk⟩

/-- After the URL a run makes no callback for it. -/
theorem run_after {s : σ} {marked : Option (Element × Str)} (data : Str)
    (hs : lib.urlPhase s = .after) (hm : ∀ m frag, marked ≠ some (.url m, frag)) :
    urls (lib.run s marked data).callbacks = [] := by
  induction data generalizing s marked with
  | nil => exact urls_flush_notUrl hm
  | cons b rest ih =>
    simp only [HttpParser.run]
    split
    · simp [urls_flush_notUrl hm]
    · split
      · rfl
      · next c hc =>
        have hel : ∀ m, c.element ≠ some (.url m) := by
          intro m hel
          rcases (lib.consume_url hc hel).2.2 with h | h <;> rw [hs] at h <;> cases h
        have hmark : urls (mark marked c b).1 = [] := by
          rcases mark_notUrl marked b hel with h | ⟨h, -⟩
          · rw [h, urls_flush_notUrl hm]
          · exact h
        split
        · simp [hmark, urls_flush_notUrl (marked_notUrl _ _ hel)]
        · next hnone =>
          have hafter : lib.urlPhase c.state = .after := by
            rcases lib.consume_other hc hnone hel with ⟨h, -⟩ | h
            · rw [hs] at h
              cases h
            · exact h
          simp [hmark, ih hafter (marked_notUrl _ _ hel)]

theorem run_onePiece {s : σ} {marked : Option (Element × Str)} (data : Str)
    (hp : PhaseOk lib s marked) : OnePiece (lib.run s marked data).callbacks := by
  unfold OnePiece
  induction data generalizing s marked with
  | nil => exact urls_flush_le marked
  | cons b rest ih =>
    simp only [HttpParser.run]
    split
    · simpa using urls_flush_le marked
    · split
      · exact Nat.zero_le _
      · next c hc =>
        by_cases hel : ∃ m, c.element = some (.url m)
        · obtain ⟨m, hel⟩ := hel
          obtain ⟨hmark, hphase⟩ := mark_url marked hc hel hp
          split
          · simpa [hmark] using urls_flush_le (mark marked c b).2
          · simpa [hmark] using ih hphase
        · have hel' : ∀ m, c.element ≠ some (.url m) := fun m h => hel ⟨m, h⟩
          have hnot := marked_notUrl marked b hel'
          have hle : (urls (mark marked c b).1).length ≤ 1 := by
            rcases mark_notUrl marked b hel' with h | ⟨h, -⟩
            · rw [h]
              exact urls_flush_le marked
            · rw [h]
              exact Nat.zero_le _
          split
          · simpa [urls_flush_notUrl hnot] using hle
          · next hnone =>
            -- a URL that was marked is over, and none can follow
            by_cases hmarked : ∃ m frag, marked = some (.url m, frag)
            · obtain ⟨m, frag, hmarked⟩ := hmarked
              have hafter : lib.urlPhase c.state = .after := by
                rcases lib.consume_other hc hnone hel' with ⟨h, -⟩ | h
                · rw [hp m frag hmarked] at h
                  cases h
                · exact h
              simpa [run_after rest hafter hnot] using hle
            · have hflush : urls (flush marked) = [] :=
                urls_flush_notUrl fun m frag h => hmarked ⟨m, frag, h⟩
              have hmark : urls (mark marked c b).1 = [] := by
                rcases mark_notUrl marked b hel' with h | ⟨h, -⟩
                · rw [h, hflush]
                · exact h
              have hphase : PhaseOk lib c.state (mark marked c b).2 :=
                fun m frag h => absurd h (hnot m frag)
              simpa [hmark] using ih hphase

/-! ## `feed` -/

theorem callbacks_append (p : ParserFields) (xs ys : List Callback) :
    p.callbacks lib (xs ++ ys) = (p.callbacks lib xs).bind fun q => q.callbacks lib ys := by
  induction xs generalizing p with
  | nil => rfl
  | cons cb xs ih =>
    simp only [List.cons_append, ParserFields.callbacks]
    cases p.callback lib cb with
    | error e => rfl
    | ok q => exact ih q

@[simp] theorem parsing_complete_storeCurrentHeader (p : ParserFields) :
    p.storeCurrentHeader.parsing_complete_ = p.parsing_complete_ := by
  unfold ParserFields.storeCurrentHeader
  split_ifs <;> rfl

/-- Only `on_message_complete` sets `parsing_complete_`. -/
theorem callback_incomplete {p q : ParserFields} {cb : Callback} (h : p.callback lib cb = .ok q)
    (hcb : ∀ flags, cb ≠ .messageComplete flags) (hp : p.parsing_complete_ = false) :
    q.parsing_complete_ = false := by
  cases cb with
  | messageBegin => cases h; rfl
  | headersComplete =>
    cases h
    simpa [ParserFields.onHeadersComplete] using hp
  | chunk part => cases h
  | messageComplete flags => exact absurd rfl (hcb flags)
  | data el frag =>
    cases el with
    | url m =>
      simp only [ParserFields.callback, ParserFields.onUrl] at h
      split at h
      · cases hu : Url.ofString lib frag with
        | error e => simp [hu, bind, Except.bind] at h
        | ok url =>
          simp only [hu, bind, Except.bind] at h
          split at h <;> cases h
          exact hp
      · cases h
        exact hp
    | status code =>
      simp only [ParserFields.callback, ParserFields.onStatus] at h
      split at h
      · split at h <;> cases h
        exact hp
      · cases h
        exact hp
    | headerField =>
      cases h
      simpa [ParserFields.onHeaderField] using hp
    | headerValue => cases h; exact hp
    | body => cases h; exact hp

theorem callbacks_incomplete {p q : ParserFields} {cbs : List Callback}
    (h : p.callbacks lib cbs = .ok q) (hcbs : ∀ flags, .messageComplete flags ∉ cbs)
    (hp : p.parsing_complete_ = false) : q.parsing_complete_ = false := by
  induction cbs generalizing p with
  | nil => cases h; exact hp
  | cons cb cbs ih =>
    simp only [ParserFields.callbacks] at h
    cases hcb : p.callback lib cb with
    | error e => simp [hcb, bind, Except.bind] at h
    | ok r =>
      simp only [hcb, bind, Except.bind] at h
      refine ih h (fun flags hmem => hcbs flags (List.mem_cons_of_mem _ hmem)) ?_
      refine callback_incomplete hcb ?_ hp
      rintro flags rfl
      exact hcbs flags List.mem_cons_self

theorem callbacks_complete {p q : ParserFields} {cbs : List Callback} {flags : Nat}
    (h : p.callbacks lib (cbs ++ [.messageComplete flags]) = .ok q) :
    q.parsing_complete_ = true := by
  rw [callbacks_append] at h
  cases hcbs : p.callbacks lib cbs with
  | error e => simp [hcbs, Except.bind] at h
  | ok r =>
    rw [hcbs] at h
    cases h
    rfl

/-- Callbacks without data are events themselves. -/
theorem mem_atomsOf {cb : Callback} (hcb : ∀ el frag, cb ≠ .data el frag) {cbs : List Callback} :
    cb ∈ atomsOf cbs ↔ cb ∈ cbs := by
  unfold atomsOf
  rw [List.mem_flatMap]
  constructor
  · rintro ⟨cb', hmem, h⟩
    cases cb' with
    | data el frag =>
      obtain ⟨b, -, rfl⟩ := List.mem_map.mp h
      exact absurd rfl (hcb el [b])
    | _ => exact List.mem_singleton.mp h ▸ hmem
  · intro h
    refine ⟨cb, h, ?_⟩
    cases cb with
    | data el frag => exact absurd rfl (hcb el frag)
    | _ => exact List.mem_singleton_self _

theorem mem_atomsOf_messageComplete {cbs : List Callback} {flags : Nat} :
    .messageComplete flags ∈ atomsOf cbs ↔ .messageComplete flags ∈ cbs := by
  refine mem_atomsOf fun el frag h => ?_
  cases h

theorem byte_incomplete {s : σ} {b : Char} {events : List Callback} {c : Consumed σ}
    (h : lib.byte s b = .ok (events, c)) (flags : Nat) : .messageComplete flags ∉ events := by
  have hbyte : .messageComplete flags ∉ byteEvents c b := by
    obtain ⟨st, begin_, el, compl⟩ := c
    cases begin_ <;> cases el <;> simp [byteEvents, mark, flush]
  rcases byte_cases h with ⟨-, -, rfl⟩ | ⟨s', -, -, rfl⟩
  · exact hbyte
  · simpa using hbyte

/-- A message that is not complete has no event of its end. -/
theorem scan_incomplete {s s' : σ} {x : Str} (h : (lib.scan s x).outcome = .more s') (flags : Nat) :
    .messageComplete flags ∉ (lib.scan s x).events := by
  induction x generalizing s with
  | nil => simp [HttpParser.scan]
  | cons b x ih =>
    cases hb : lib.byte s b with
    | error e =>
      rw [scan_refused hb] at h
      cases h
    | ok r =>
      obtain ⟨events, c⟩ := r
      cases hc : c.messageComplete with
      | some fl =>
        rw [scan_last hb hc] at h
        cases h
      | none =>
        rw [scan_more _ hb hc] at h ⊢
        rw [List.mem_append, not_or]
        exact ⟨byte_incomplete hb flags, ih h⟩

/-- The callbacks deliver the bytes `data`, from the state `s` on. -/
structure Delivers (lib : HttpParser σ) (s : σ) (data : Str) (cbs : List Callback) : Prop where
  events : atomsOf cbs = (lib.scan s data).events
  proper : Proper cbs
  onePiece : OnePiece cbs

/-- What one round of `feed` over `data` does, from a parser that is not complete. The element in which
the data begin may get an empty piece first. -/
inductive StepSpec (lib : HttpParser σ) (f : ParserFields) (s : σ) (data : Str) :
    Except Exception (Parser σ × Nat) → Prop where
  /-- It delivers some first bytes. When it leaves some, the URL is over. -/
  | more {r : Except Exception (Parser σ × Nat)} (pre rest : Str) {s' : σ} {cbs : List Callback}
      (hd : data = pre ++ rest) (hpre : pre ≠ []) (ho : (lib.scan s pre).outcome = .more s')
      (hcbs : Delivers lib s pre cbs) (hrest : rest = [] ∨ lib.urlPhase s' = .after)
      (hr : r = (f.callbacks lib (lib.emptyFragment s data ++ cbs)).map fun f' =>
        (⟨f', s', .ok⟩, pre.length)) : StepSpec lib f s data r
  /-- It completes the message. -/
  | complete {r : Except Exception (Parser σ × Nat)} (s' : σ) (e : Errno) {cbs : List Callback}
      {flags : Nat} (ho : (lib.scan s data).outcome = .complete)
      (hcbs : Delivers lib s data (cbs ++ [.messageComplete flags]))
      (hr : r = (f.callbacks lib
          (lib.emptyFragment s data ++ (cbs ++ [.messageComplete flags]))).map fun f' =>
        (⟨f', s', e⟩, (lib.scan s data).used)) : StepSpec lib f s data r
  /-- It throws. -/
  | throws {r : Except Exception (Parser σ × Nat)} {e : Exception}
      (ho : (lib.scan s data).outcome = .rejected) (hr : r = .error e) : StepSpec lib f s data r
  /-- It meets a byte that is refused and makes the next round throw. -/
  | stuck {r : Except Exception (Parser σ × Nat)} (f' : ParserFields) (s' : σ) (e pass : Nat)
      (ho : (lib.scan s data).outcome = .rejected) (hpass : pass < data.length)
      (hf : f'.parsing_complete_ = false) (hr : r = .ok (⟨f', s', .error e⟩, pass)) :
      StepSpec lib f s data r

/-- In a buffer that begins inside of an element there may be an empty piece of it first. -/
theorem run_resumed (lib : HttpParser σ) (s : σ) {data : Str} (hdata : data ≠ []) :
    lib.run s ((lib.resumed s).map fun element => (element, [])) data =
      { lib.run s none data with
        callbacks := lib.emptyFragment s data ++ (lib.run s none data).callbacks } := by
  obtain ⟨b, rest, rfl⟩ := List.exists_cons_of_ne_nil hdata
  cases hr : lib.resumed s with
  | none => simp [HttpParser.emptyFragment, hr]
  | some el =>
    have hh : lib.headersComplete s b = none := by
      cases hh : lib.headersComplete s b with
      | none => rfl
      | some s' => cases hr.symm.trans (lib.headersComplete_resumed hh).1
    cases hc : lib.consume s b with
    | error e => simp [HttpParser.run, HttpParser.emptyFragment, hr, hh, hc]
    | ok c =>
      rcases mark_cases (some (el, [])) c b with ⟨_, _, ⟨⟩, hgoes, hmark⟩ | ⟨hnot, hmark⟩
      · have hempty : lib.emptyFragment s (b :: rest) = [] := by
          simp only [HttpParser.emptyFragment, hr, hc]
          exact if_pos hgoes
        have hnone : mark none c b = ([], some (el, [b])) := by
          rw [mark_none, due, hgoes.1, hgoes.2.1, hgoes.2.2]
          rfl
        rw [hempty]
        simp [HttpParser.run, hh, hc, hmark, hnone]
      · have hempty : lib.emptyFragment s (b :: rest) = [.data el []] := by
          simp only [HttpParser.emptyFragment, hr, hc]
          exact if_neg (hnot el [] rfl)
        have hdue : due (some (el, [])) c = .data el [] :: due none c := rfl
        rw [hempty]
        simp only [HttpParser.run, hh, hc, Option.map_some, hmark, mark_none, hdue]
        cases c.messageComplete <;> rfl

theorem execute_ok (lib : HttpParser σ) (f : ParserFields) (s : σ) {data : Str} (hdata : data ≠ []) :
    (⟨f, s, .ok⟩ : Parser σ).execute lib data =
      (f.callbacks lib (lib.emptyFragment s data ++ (lib.run s none data).callbacks)).map fun f' =>
        (⟨f', (lib.run s none data).state, (lib.run s none data).errno⟩, (lib.run s none data).used) := by
  simp only [Parser.execute, HttpParser.execute, if_true, run_resumed lib s hdata, bind, Except.bind]
  cases f.callbacks lib (lib.emptyFragment s data ++ (lib.run s none data).callbacks) <;> rfl

/-- In front of the end of the headers there is no element. -/
theorem emptyFragment_of_resumed {s : σ} (h : lib.resumed s = none) (data : Str) :
    lib.emptyFragment s data = [] := by
  cases data with
  | nil => rfl
  | cons b rest => simp [HttpParser.emptyFragment, h]

/-- An empty piece does not complete a message. -/
theorem emptyFragment_incomplete (s : σ) (data : Str) (flags : Nat) :
    .messageComplete flags ∉ lib.emptyFragment s data := by
  cases data with
  | nil => simp [HttpParser.emptyFragment]
  | cons b rest =>
    simp only [HttpParser.emptyFragment]
    split
    · split_ifs <;> simp
    · simp

theorem delivers_run {s : σ} {data : Str} (hp : Proper (lib.run s none data).callbacks)
    (ha : atomsOf (lib.run s none data).callbacks = (lib.scan s data).events) :
    Delivers lib s data (lib.run s none data).callbacks :=
  ⟨ha, hp, run_onePiece data fun m frag h => by cases h⟩

theorem urls_byte_after {s : σ} {b : Char} {c : Consumed σ} (hc : lib.consume s b = .ok c)
    (hs : lib.urlPhase s = .after) :
    urls (byteEvents c b) = [] ∧
      (c.messageComplete = none → lib.urlPhase c.state = .after) := by
  have hel : ∀ m, c.element ≠ some (.url m) := by
    intro m hel
    rcases (lib.consume_url hc hel).2.2 with h | h <;> rw [hs] at h <;> cases h
  have hmark : urls (mark none c b).1 = [] := by
    rcases mark_notUrl none b hel with h | ⟨h, -⟩
    · exact h
    · exact h
  have hurls : urls (byteEvents c b) = [] := by
    rw [byteEvents, urls_append, hmark, urls_flush_notUrl (marked_notUrl _ _ hel)]
    rfl
  refine ⟨hurls, fun hnone => ?_⟩
  rcases lib.consume_other hc hnone hel with ⟨h, -⟩ | h
  · rw [hs] at h
    cases h
  · exact h

theorem proper_byte (c : Consumed σ) (b : Char) :
    Proper (byteEvents c b) ∧ atomsOf (byteEvents c b) = byteEvents c b := by
  have hnone : MarkedProper none := fun el frag h => by cases h
  obtain ⟨hatoms, hproper, hmarked⟩ := mark_spec none c b hnone
  exact ⟨hproper.append (flush_proper hmarked), by rw [byteEvents, hatoms]; rfl⟩

/-- The byte that ends the headers, after the pause in front of it. -/
theorem run_singleton {s : σ} {b : Char} {c : Consumed σ} (hh : lib.headersComplete s b = none)
    (hc : lib.consume s b = .ok c) : lib.run s none [b] =
      match c.messageComplete with
      | some flags =>
        { callbacks := byteEvents c b ++ [.messageComplete flags],
          state := c.state, used := 1, errno := .paused }
      | none =>
        { callbacks := byteEvents c b, state := c.state, used := 1,
          errno := .ok } := by
  simp only [HttpParser.run, hh, hc]
  cases c.messageComplete <;> rfl

section Headers

variable {f : ParserFields} {s s' : σ} {data pre rest : Str} {b : Char}

/-- The pause in front of the end of the headers does not complete the message. -/
theorem run_headers_incomplete (ho : (lib.scan s pre).outcome = .more s')
    (ha : atomsOf (lib.run s none data).callbacks =
      atomsOf (flush none) ++ (lib.scan s pre).events ++ [.headersComplete]) (flags : Nat) :
    .messageComplete flags ∉ (lib.run s none data).callbacks := by
  intro hmem
  have := mem_atomsOf_messageComplete.mpr hmem
  rw [ha] at this
  simp [flush, scan_incomplete ho flags] at this

/-- In such a round the next byte is executed on its own. -/
theorem feedStep_headers (he : (lib.run s none data).errno = .paused) (hd : data = pre ++ b :: rest)
    (hu : (lib.run s none data).used = pre.length) (hf : f.parsing_complete_ = false)
    (hinc : ∀ flags, .messageComplete flags ∉ (lib.run s none data).callbacks) :
    (⟨f, s, .ok⟩ : Parser σ).feedStep lib data =
      (f.callbacks lib (lib.emptyFragment s data ++ (lib.run s none data).callbacks)).bind fun f' =>
        ((⟨f', (lib.run s none data).state, .ok⟩ : Parser σ).execute lib [b]).map fun q =>
          (q.1, pre.length + q.2) := by
  have hexec := execute_ok lib f s (show data ≠ [] by rw [hd]; simp)
  have hlt : (lib.run s none data).used < data.length := by
    rw [hu, hd]
    simp
  have htake : (data.drop (lib.run s none data).used).take 1 = [b] := by
    rw [hu, hd]
    simp
  cases h : f.callbacks lib (lib.emptyFragment s data ++ (lib.run s none data).callbacks) with
  | error e => simp [Parser.feedStep, hexec, h, bind, Except.bind, Except.map]
  | ok f' =>
    have hf' := callbacks_incomplete h
      (fun flags hmem => (List.mem_append.mp hmem).elim (emptyFragment_incomplete s data flags)
        (hinc flags)) hf
    simp only [Parser.feedStep, hexec, h, Except.map, Except.bind, bind, he, if_true, hlt, hf',
      htake, Bool.false_eq_true, if_false]
    cases (⟨f', (lib.run s none data).state, .ok⟩ : Parser σ).execute lib [b] with
    | error e => rfl
    | ok q => rw [hu]

/-- A round that pauses in front of the end of the headers. -/
theorem feedStep_headers_spec (he : (lib.run s none data).errno = .paused)
    (hd : data = pre ++ b :: rest) (hu : (lib.run s none data).used = pre.length)
    (ho : (lib.scan s pre).outcome = .more s')
    (hh : lib.headersComplete s' b = some (lib.run s none data).state)
    (hp : Proper (lib.run s none data).callbacks)
    (ha : atomsOf (lib.run s none data).callbacks =
      atomsOf (flush none) ++ (lib.scan s pre).events ++ [.headersComplete])
    (hf : f.parsing_complete_ = false) :
    StepSpec lib f s data ((⟨f, s, .ok⟩ : Parser σ).feedStep lib data) := by
  obtain ⟨hphase, hphase'⟩ := lib.headersComplete_phase hh
  have hagain := lib.headersComplete_once hh b
  have hinc := run_headers_incomplete ho ha
  have hlt : (lib.run s none data).used < data.length := by
    rw [hu, hd]
    simp
  have hphaseOk : PhaseOk lib s none := fun m frag h => by cases h
  have hone := run_onePiece data hphaseOk
  have hexec' := fun f' => execute_ok lib f' (lib.run s none data).state (List.cons_ne_nil b [])
  simp only [emptyFragment_of_resumed (lib.headersComplete_resumed hh).2, List.nil_append] at hexec'
  rw [feedStep_headers he hd hu hf hinc]
  cases hc : lib.consume (lib.run s none data).state b with
  | error e =>
    have hbyte : lib.byte s' b = .error e := by simp [HttpParser.byte, hh, hc, Except.map]
    have hrej : (lib.scan s data).outcome = .rejected := by
      rw [hd, scan_append_of_more ho, scan_refused hbyte]
    have hrun : lib.run (lib.run s none data).state none [b] =
        { callbacks := [], state := (lib.run s none data).state, used := 0, errno := .error e } := by
      simp [HttpParser.run, hagain, hc]
    cases h : f.callbacks lib (lib.emptyFragment s data ++ (lib.run s none data).callbacks) with
    | error e' => exact .throws (e := e') hrej rfl
    | ok f' =>
      refine .stuck f' (lib.run s none data).state e pre.length
        hrej (hu ▸ hlt) (callbacks_incomplete h (fun flags hmem => (List.mem_append.mp hmem).elim
          (emptyFragment_incomplete s data flags) (hinc flags)) hf) ?_
      simp only [Except.bind, hexec', hrun]
      rfl
  | ok c =>
    obtain ⟨hpropb, hatomsb⟩ := proper_byte c b
    obtain ⟨hurlsb, hafter⟩ := urls_byte_after hc hphase'
    have hbyte : lib.byte s' b = .ok (.headersComplete :: byteEvents c b, c) := by
      simp [HttpParser.byte, byteEvents, hh, hc, Except.map]
    have hrun := run_singleton hagain hc
    have hbind : ∀ cbs, (f.callbacks lib
        (lib.emptyFragment s data ++ (lib.run s none data).callbacks)).bind
        (fun f' => (f'.callbacks lib cbs)) =
          f.callbacks lib (lib.emptyFragment s data ++ ((lib.run s none data).callbacks ++ cbs)) := by
      intro cbs
      rw [← List.append_assoc]
      exact (callbacks_append f _ cbs).symm
    cases hcomplete : c.messageComplete with
    | some flags =>
      rw [hcomplete] at hrun
      have hscan : lib.scan s data =
          { events := (lib.scan s pre).events ++ ((.headersComplete :: byteEvents c b) ++
              [.messageComplete flags])
            used := pre.length + 1, outcome := .complete } := by
        rw [hd, scan_append_of_more ho, scan_last hbyte hcomplete]
      have hcbs : Delivers lib s data ((lib.run s none data).callbacks ++
          byteEvents c b ++ [.messageComplete flags]) := by
        refine ⟨?_, (hp.append hpropb).append ?_, ?_⟩
        · rw [atomsOf_append, atomsOf_append, ha, hatomsb, hscan]
          simp [flush, atomsOf, Callback.atoms]
        · intro el hel
          simp at hel
        · unfold OnePiece at hone ⊢
          rw [urls_append, urls_append, hurlsb]
          simpa using hone
      refine .complete c.state .paused (by rw [hscan]) hcbs ?_
      rw [List.append_assoc, ← hbind, hscan]
      cases f.callbacks lib (lib.emptyFragment s data ++ (lib.run s none data).callbacks) with
      | error e => rfl
      | ok f' =>
        simp only [Except.bind, hexec', hrun]
        cases f'.callbacks lib (byteEvents c b ++ [.messageComplete flags]) <;> rfl
    | none =>
      rw [hcomplete] at hrun
      have hscan : lib.scan s (pre ++ [b]) =
          { events := (lib.scan s pre).events ++ (.headersComplete :: byteEvents c b)
            used := pre.length + 1, outcome := .more c.state } := by
        rw [scan_append_of_more ho, scan_more _ hbyte hcomplete]
        simp [HttpParser.scan]
      have hcbs : Delivers lib s (pre ++ [b])
          ((lib.run s none data).callbacks ++ byteEvents c b) := by
        refine ⟨?_, hp.append hpropb, ?_⟩
        · rw [atomsOf_append, ha, hatomsb, hscan]
          simp [flush]
        · unfold OnePiece at hone ⊢
          rw [urls_append, hurlsb]
          simpa using hone
      have ho' : (lib.scan s (pre ++ [b])).outcome = .more c.state := by rw [hscan]
      refine .more (pre ++ [b]) rest (by rw [hd]; simp) (by simp) ho' hcbs
        (Or.inr (hafter hcomplete)) ?_
      rw [← hbind]
      cases f.callbacks lib (lib.emptyFragment s data ++ (lib.run s none data).callbacks) with
      | error e => rfl
      | ok f' =>
        simp only [Except.bind, hexec', hrun, List.length_append, List.length_singleton]
        cases f'.callbacks lib (byteEvents c b) <;> rfl

end Headers

/-- One round of `feed`. -/
theorem feedStep_spec (lib : HttpParser σ) (f : ParserFields) (s : σ) {data : Str} (hdata : data ≠ [])
    (hf : f.parsing_complete_ = false) :
    StepSpec lib f s data ((⟨f, s, .ok⟩ : Parser σ).feedStep lib data) := by
  have hnone : MarkedProper none := fun el frag h => by cases h
  have hexec := execute_ok lib f s hdata
  cases run_spec lib s none data hnone with
  | used he hu ho hp ha =>
    have hcbs := delivers_run hp (by simpa [flush] using ha)
    refine .more data [] (by simp) hdata ho hcbs (Or.inl rfl) ?_
    cases h : f.callbacks lib (lib.emptyFragment s data ++ (lib.run s none data).callbacks) <;>
      simp [Parser.feedStep, hexec, h, he, hu, bind, Except.bind, Except.map]
  | complete _ he hu ho hp hc ha =>
    have hcbs := delivers_run hp (by simpa [flush] using ha)
    rw [hc] at hcbs
    refine .complete (lib.run s none data).state .ok ho hcbs ?_
    cases h : f.callbacks lib (lib.emptyFragment s data ++ (lib.run s none data).callbacks) with
    | error e =>
      rw [hc] at h
      simp [Parser.feedStep, hexec, hc, h, bind, Except.bind, Except.map]
    | ok f' =>
      have hf' : f'.parsing_complete_ = true := by
        rw [hc, ← List.append_assoc] at h
        exact callbacks_complete h
      rw [hc] at h
      simp [Parser.feedStep, hexec, hc, h, he, hu, hf', bind, Except.bind, Except.map]
  | refused he hu ho =>
    cases h : f.callbacks lib (lib.emptyFragment s data ++ (lib.run s none data).callbacks) with
    | error e =>
      refine .throws (e := e) ho ?_
      simp [Parser.feedStep, hexec, h, bind, Except.bind, Except.map]
    | ok f' =>
      refine .throws (e := .parsing (lib.run s none data).errno) ho ?_
      simp [Parser.feedStep, hexec, h, he, hu, bind, Except.bind, Except.map]
  | headers pre he hd hu ho hh hp ha => exact feedStep_headers_spec he hd hu ho hh hp ha hf

/-! ## A buffer that begins inside of an element -/

theorem storeCurrentHeader_of_empty {p : ParserFields} (h : p.current_header_.2 = []) :
    p.storeCurrentHeader = p := by
  unfold ParserFields.storeCurrentHeader
  rw [if_pos h]

@[simp] theorem storeCurrentHeader_value (p : ParserFields) :
    p.storeCurrentHeader.current_header_.2 = [] := by
  unfold ParserFields.storeCurrentHeader
  split_ifs with h
  · exact h
  · rfl

/-- An empty piece of an element other than the URL changes nothing. -/
def Resumable (lib : HttpParser σ) (f : ParserFields) (s : σ) : Prop :=
  ∀ el, lib.resumed s = some el → (∀ m, el ≠ .url m) → f.callback lib (.data el []) = .ok f

theorem resumable_of_none {s : σ} (h : lib.resumed s = none) (f : ParserFields) :
    Resumable lib f s := by
  intro el hel
  cases h.symm.trans hel

/-- Behind a piece of the element an empty one changes nothing. -/
theorem callback_again {f f' : ParserFields} {el : Element} {frag : Str} (hel : ∀ m, el ≠ .url m)
    (h : f.callback lib (.data el frag) = .ok f') : f'.callback lib (.data el []) = .ok f' := by
  cases el with
  | url m => exact absurd rfl (hel m)
  | status code =>
    simp only [ParserFields.callback, ParserFields.onStatus] at h ⊢
    cases hmsg : f.message_ with
    | request req =>
      simp only [hmsg] at h
      cases h
      simp only [hmsg]
    | response res =>
      simp only [hmsg] at h
      cases hcode : AssocMap.find numToStatusCode code with
      | none => simp only [hcode] at h; cases h
      | some status =>
        simp only [hcode] at h
        cases h
        rfl
  | headerField =>
    cases h
    have hvalue : (f.onHeaderField frag).current_header_.2 = [] := storeCurrentHeader_value f
    have hagain : (f.onHeaderField frag).onHeaderField [] = f.onHeaderField frag := by
      rw [ParserFields.onHeaderField, storeCurrentHeader_of_empty hvalue, List.append_nil]
    exact congrArg Except.ok hagain
  | headerValue =>
    cases h
    simp [ParserFields.callback, ParserFields.onHeaderValue]
  | body =>
    cases h
    simp [ParserFields.callback, ParserFields.onBody]

/-- The last event in front of the rest of an element is one of its bytes. -/
theorem scan_last_event {s s' : σ} {x : Str} (hx : x ≠ []) (ho : (lib.scan s x).outcome = .more s')
    {el : Element} (hel : lib.resumed s' = some el) :
    ∃ events b, (lib.scan s x).events = events ++ [.data el [b]] := by
  induction x generalizing s with
  | nil => exact absurd rfl hx
  | cons b x ih =>
    cases hb : lib.byte s b with
    | error e =>
      rw [scan_refused hb] at ho
      cases ho
    | ok r =>
      obtain ⟨events, c⟩ := r
      cases hc : c.messageComplete with
      | some flags =>
        rw [scan_last hb hc] at ho
        cases ho
      | none =>
        rw [scan_more _ hb hc] at ho ⊢
        by_cases hnil : x = []
        · subst hnil
          obtain rfl : c.state = s' := Outcome.more.inj ho
          have hbyte : ∀ s, lib.consume s b = .ok c →
              byteEvents c b = due none c ++ [.data el [b]] := by
            intro s hconsume
            rw [byteEvents, mark_none, lib.resumed_consume hconsume hel]
            rfl
          rcases byte_cases hb with ⟨-, hconsume, rfl⟩ | ⟨s', -, hconsume, rfl⟩
          · exact ⟨due none c, b, by rw [hbyte _ hconsume]; simp [HttpParser.scan]⟩
          · exact ⟨.headersComplete :: due none c, b, by
              rw [hbyte _ hconsume]; simp [HttpParser.scan]⟩
        · obtain ⟨events', b', heq⟩ := ih hnil ho
          exact ⟨events ++ events', b', by rw [heq, List.append_assoc]⟩

/-- Then the last callback is one for this element. -/
theorem last_of_atomsOf {cbs events : List Callback} (hp : Proper cbs) {el : Element} {b : Char}
    (h : atomsOf cbs = events ++ [.data el [b]]) : ∃ cbs' frag, cbs = cbs' ++ [.data el frag] := by
  rcases List.eq_nil_or_concat cbs with rfl | ⟨cbs', cb, rfl⟩
  · simp at h
  · have hlast : (atomsOf (cbs' ++ [cb])).getLast? = some (.data el [b]) := by
      rw [← List.concat_eq_append, h, List.getLast?_concat]
    rw [atomsOf_append, show atomsOf [cb] = cb.atoms from List.flatMap_singleton _ _] at hlast
    cases cb with
    | data el' frag =>
      have hne : frag ≠ [] := by
        rintro rfl
        exact hp el' (by simp)
      obtain ⟨frag', b', rfl⟩ := (List.eq_nil_or_concat frag).resolve_left hne
      rw [Callback.atoms, List.concat_eq_append, List.map_append, ← List.append_assoc] at hlast
      simp only [List.map_cons, List.map_nil, List.getLast?_append, List.getLast?_singleton,
        Option.some_or, Option.some.injEq, Callback.data.injEq] at hlast
      obtain ⟨rfl, -⟩ := hlast
      exact ⟨cbs', _, List.concat_eq_append⟩
    | _ => simp [Callback.atoms] at hlast

/-- When the callbacks have delivered some bytes, an empty piece of the element in which these end
changes nothing. -/
theorem Delivers.resumable {f f' : ParserFields} {s s' : σ} {data : Str} {pre cbs : List Callback}
    (h : Delivers lib s data cbs) (hdata : data ≠ []) (ho : (lib.scan s data).outcome = .more s')
    (hok : f.callbacks lib (pre ++ cbs) = .ok f') : Resumable lib f' s' := by
  intro el hel hurl
  obtain ⟨events, b, hevents⟩ := scan_last_event hdata ho hel
  obtain ⟨cbs', frag, rfl⟩ := last_of_atomsOf h.proper (h.events.trans hevents)
  rw [← List.append_assoc, callbacks_append] at hok
  cases hfirst : f.callbacks lib (pre ++ cbs') with
  | error e => rw [hfirst] at hok; cases hok
  | ok f₁ =>
    rw [hfirst] at hok
    have hlast : f₁.callbacks lib [.data el frag] = .ok f' := hok
    cases hcb : f₁.callback lib (.data el frag) with
    | error e => simp [ParserFields.callbacks, hcb, bind, Except.bind] at hlast
    | ok f₂ =>
      simp only [ParserFields.callbacks, hcb, bind, Except.bind, Except.ok.injEq] at hlast
      exact callback_again hurl (hlast ▸ hcb)

/-- The empty piece is one of the element in which the buffer begins. -/
theorem emptyFragment_cases (lib : HttpParser σ) (s : σ) (data : Str) :
    lib.emptyFragment s data = [] ∨ ∃ el, lib.resumed s = some el ∧
      lib.emptyFragment s data = [.data el []] := by
  cases data with
  | nil => exact Or.inl rfl
  | cons b rest =>
    simp only [HttpParser.emptyFragment]
    split
    · next el c hel _ =>
      split_ifs
      · exact Or.inl rfl
      · exact Or.inr ⟨el, hel, rfl⟩
    · exact Or.inl rfl

/-- Behind the URL the empty piece makes no difference. -/
theorem callbacks_emptyFragment {f : ParserFields} {s : σ} (hf : Resumable lib f s)
    (hs : lib.urlPhase s = .after) (data : Str) (cbs : List Callback) :
    f.callbacks lib (lib.emptyFragment s data ++ cbs) = f.callbacks lib cbs := by
  rcases emptyFragment_cases lib s data with h | ⟨el, hel, h⟩
  · rw [h, List.nil_append]
  · have hurl : ∀ m, el ≠ .url m := by
      rintro m rfl
      cases (lib.resumed_url hel).symm.trans hs
    rw [h, List.singleton_append]
    simp only [ParserFields.callbacks, hf el hel hurl, bind, Except.bind]

/-! ## All rounds -/

/-- What `feed` does with `data`, from a parser that is not complete; `used` counts the bytes of the
rounds before. -/
inductive FeedSpec (lib : HttpParser σ) (f : ParserFields) (s : σ) (data : Str) (used : Nat) :
    Except Exception (Parser σ × Nat) → Prop where
  | more {r : Except Exception (Parser σ × Nat)} {s' : σ} {cbs : List Callback}
      (ho : (lib.scan s data).outcome = .more s') (hcbs : Delivers lib s data cbs)
      (hf : ∀ f', f.callbacks lib (lib.emptyFragment s data ++ cbs) = .ok f' →
        f'.parsing_complete_ = false ∧ Resumable lib f' s')
      (hr : r = (f.callbacks lib (lib.emptyFragment s data ++ cbs)).map fun f' =>
        (⟨f', s', .ok⟩, used + data.length)) : FeedSpec lib f s data used r
  | complete {r : Except Exception (Parser σ × Nat)} (s' : σ) (e : Errno) {cbs : List Callback}
      (ho : (lib.scan s data).outcome = .complete) (hcbs : Delivers lib s data cbs)
      (hf : ∀ f', f.callbacks lib (lib.emptyFragment s data ++ cbs) = .ok f' →
        f'.parsing_complete_ = true)
      (hr : r = (f.callbacks lib (lib.emptyFragment s data ++ cbs)).map fun f' =>
        (⟨f', s', e⟩, used + (lib.scan s data).used)) : FeedSpec lib f s data used r
  | throws {r : Except Exception (Parser σ × Nat)} {e : Exception}
      (ho : (lib.scan s data).outcome = .rejected) (hr : r = .error e) : FeedSpec lib f s data used r

theorem feedStep_errno (f : ParserFields) (s : σ) (e : Nat) {data : Str} (hdata : data ≠ []) :
    (⟨f, s, .error e⟩ : Parser σ).feedStep lib data = .error (.parsing (.error e)) := by
  have hlen : 0 < data.length := List.length_pos_iff.mpr hdata
  simp [Parser.feedStep, Parser.execute, HttpParser.execute, ParserFields.callbacks, hlen, bind,
    Except.bind]

theorem scan_after {s : σ} (x : Str) (hs : lib.urlPhase s = .after) :
    urls (lib.scan s x).events = [] := by
  induction x generalizing s with
  | nil => rfl
  | cons b x ih =>
    cases hb : lib.byte s b with
    | error e => rw [scan_refused hb]; rfl
    | ok r =>
      obtain ⟨events, c⟩ := r
      have hevents : urls events = [] ∧
          (c.messageComplete = none → lib.urlPhase c.state = .after) := by
        rcases byte_cases hb with ⟨-, hc, rfl⟩ | ⟨s', hh, hc, rfl⟩
        · exact urls_byte_after hc hs
        · exact urls_byte_after hc (lib.headersComplete_phase hh).2
      cases hc : c.messageComplete with
      | some flags =>
        rw [scan_last hb hc]
        simp [hevents.1]
      | none =>
        rw [scan_more _ hb hc]
        simp [hevents.1, ih (hevents.2 hc)]

/-- No URL among the callbacks when there is none among their events. -/
theorem urls_eq_nil_of_atomsOf {cbs : List Callback} (hp : Proper cbs)
    (h : urls (atomsOf cbs) = []) : urls cbs = [] := by
  induction cbs with
  | nil => rfl
  | cons cb cbs ih =>
    have hcons : atomsOf (cb :: cbs) = cb.atoms ++ atomsOf cbs := rfl
    rw [hcons, urls_append, List.append_eq_nil_iff] at h
    have hrest := ih (fun el hmem => hp el (List.mem_cons_of_mem _ hmem)) h.2
    have hcb : urls [cb] = [] := by
      cases cb with
      | data el frag =>
        cases el with
        | url m =>
          cases frag with
          | nil => exact absurd List.mem_cons_self (hp (.url m))
          | cons b frag => simp [Callback.atoms, urls, Callback.url?] at h
        | status _ => rfl
        | headerField => rfl
        | headerValue => rfl
        | body => rfl
      | _ => rfl
    have happend : urls (cb :: cbs) = urls [cb] ++ urls cbs := urls_append [cb] cbs
    rw [happend, hcb, hrest]
    rfl

/-- Delivering first some bytes and then the rest, of which only one part has the URL. -/
theorem Delivers.append {s s' : σ} {pre rest : Str} {cbs cbs' : List Callback}
    (ho : (lib.scan s pre).outcome = .more s') (h : Delivers lib s pre cbs)
    (h' : Delivers lib s' rest cbs') (hrest : rest = [] ∨ lib.urlPhase s' = .after) :
    Delivers lib s (pre ++ rest) (cbs ++ cbs') := by
  have hno : urls cbs' = [] := by
    refine urls_eq_nil_of_atomsOf h'.proper ?_
    rw [h'.events]
    rcases hrest with rfl | hs'
    · rfl
    · exact scan_after rest hs'
  refine ⟨?_, h.proper.append h'.proper, ?_⟩
  · rw [atomsOf_append, h.events, h'.events, scan_append_of_more ho]
  · have := h.onePiece
    unfold OnePiece at this ⊢
    rw [urls_append, hno]
    simpa using this

/-- The events of a byte have data. -/
theorem scan_proper {s : σ} (x : Str) : Proper (lib.scan s x).events := by
  induction x generalizing s with
  | nil =>
    intro el h
    cases h
  | cons b x ih =>
    cases hb : lib.byte s b with
    | error e =>
      rw [scan_refused hb]
      intro el h
      cases h
    | ok r =>
      obtain ⟨events, c⟩ := r
      have hevents : Proper events := by
        have hbyte : Proper (byteEvents c b) := (proper_byte c b).1
        rcases byte_cases hb with ⟨-, -, rfl⟩ | ⟨s', -, -, rfl⟩
        · exact hbyte
        · intro el h
          rw [List.mem_cons] at h
          rcases h with h | h
          · cases h
          · exact hbyte el h
      cases hc : c.messageComplete with
      | some flags =>
        rw [scan_last hb hc]
        refine hevents.append ?_
        intro el h
        simp at h
      | none =>
        rw [scan_more _ hb hc]
        exact hevents.append ih

/-- The events of a stream are single bytes. -/
theorem atomsOf_scan (lib : HttpParser σ) (s : σ) (x : Str) :
    atomsOf (lib.scan s x).events = (lib.scan s x).events := by
  induction x generalizing s with
  | nil => rfl
  | cons b x ih =>
    cases hb : lib.byte s b with
    | error e => rw [scan_refused hb]; rfl
    | ok r =>
      obtain ⟨events, c⟩ := r
      have hevents : atomsOf events = events := by
        rcases byte_cases hb with ⟨-, -, rfl⟩ | ⟨s', -, -, rfl⟩
        · exact (proper_byte c b).2
        · exact congrArg (Callback.headersComplete :: ·) (proper_byte c b).2
      cases hc : c.messageComplete with
      | some flags =>
        rw [scan_last hb hc, atomsOf_append, hevents]
        rfl
      | none => rw [scan_more _ hb hc, atomsOf_append, hevents, ih]

/-- Behind the URL the events themselves deliver the bytes. -/
theorem delivers_events {s : σ} {x : Str} (h : x = [] ∨ lib.urlPhase s = .after) :
    Delivers lib s x (lib.scan s x).events := by
  refine ⟨atomsOf_scan lib s x, scan_proper x, ?_⟩
  unfold OnePiece
  rcases h with rfl | hs
  · exact Nat.zero_le _
  · rw [scan_after x hs]
    exact Nat.zero_le _

/-- The first bytes make a callback throw: it does so whatever the rest would deliver. -/
theorem FeedSpec.of_head_throws {f : ParserFields} {s s' : σ} {pre rest : Str} {cbs : List Callback}
    (used : Nat) {e : Exception} (ho : (lib.scan s pre).outcome = .more s')
    (hcbs : Delivers lib s pre cbs) (hrest : rest = [] ∨ lib.urlPhase s' = .after)
    (h : f.callbacks lib (lib.emptyFragment s (pre ++ rest) ++ cbs) = .error e) :
    FeedSpec lib f s (pre ++ rest) used (.error e) := by
  have hthrow : ∀ cbs', f.callbacks lib (lib.emptyFragment s (pre ++ rest) ++ (cbs ++ cbs')) =
      .error e := by
    intro cbs'
    rw [← List.append_assoc, callbacks_append, h]
    rfl
  have hscan := scan_append_of_more ho rest
  have hall := hcbs.append ho (delivers_events hrest) hrest
  cases ho' : (lib.scan s' rest).outcome with
  | more s'' =>
    refine .more (by rw [hscan]; exact ho') hall ?_ (by rw [hthrow]; rfl)
    intro f' hf'
    cases (hthrow _).symm.trans hf'
  | complete =>
    refine .complete s' .ok (by rw [hscan]; exact ho') hall ?_ (by rw [hthrow]; rfl)
    intro f' hf'
    cases (hthrow _).symm.trans hf'
  | rejected => exact .throws (by rw [hscan]; exact ho') rfl

/-- The first bytes are delivered, and then the rest. -/
theorem FeedSpec.behind {f f₁ : ParserFields} {s s' : σ} {pre rest : Str} {cbs : List Callback}
    {used : Nat} {r : Except Exception (Parser σ × Nat)}
    (ho : (lib.scan s pre).outcome = .more s') (hcbs : Delivers lib s pre cbs)
    (hrest : rest = [] ∨ lib.urlPhase s' = .after) (hres : Resumable lib f₁ s')
    (h : f.callbacks lib (lib.emptyFragment s (pre ++ rest) ++ cbs) = .ok f₁)
    (hr : FeedSpec lib f₁ s' rest (used + pre.length) r) : FeedSpec lib f s (pre ++ rest) used r := by
  have hjoin : ∀ cbs', f.callbacks lib (lib.emptyFragment s (pre ++ rest) ++ (cbs ++ cbs')) =
      f₁.callbacks lib (lib.emptyFragment s' rest ++ cbs') := by
    intro cbs'
    have hskip : f₁.callbacks lib (lib.emptyFragment s' rest ++ cbs') = f₁.callbacks lib cbs' := by
      rcases hrest with rfl | hs'
      · rfl
      · exact callbacks_emptyFragment hres hs' rest cbs'
    rw [← List.append_assoc, callbacks_append, h, hskip]
    rfl
  have hscan := scan_append_of_more ho rest
  cases hr with
  | more ho' hcbs' hf' hr' =>
    refine .more (by rw [hscan]; exact ho') (hcbs.append ho hcbs' hrest) ?_ ?_
    · intro f' hf''
      rw [hjoin] at hf''
      exact hf' f' hf''
    · rw [hr', hjoin, List.length_append, Nat.add_assoc]
  | @complete s₂ e₂ _ ho' hcbs' hf' hr' =>
    refine .complete s₂ e₂ (by rw [hscan]; exact ho') (hcbs.append ho hcbs' hrest) ?_ ?_
    · intro f' hf''
      rw [hjoin] at hf''
      exact hf' f' hf''
    · rw [hr', hjoin, hscan, Nat.add_assoc]
  | throws ho' hr' => exact .throws (by rw [hscan]; exact ho') hr'

theorem feedLoop_spec {rounds : Nat} (f : ParserFields) (s : σ) (data : Str) (used : Nat)
    (hrounds : data.length < rounds) (hf : f.parsing_complete_ = false) (hres : Resumable lib f s) :
    FeedSpec lib f s data used ((⟨f, s, .ok⟩ : Parser σ).feedLoop lib data used rounds) := by
  induction rounds generalizing f s data used with
  | zero => exact absurd hrounds (Nat.not_lt_zero _)
  | succ rounds ih =>
    by_cases hdata : data = []
    · subst hdata
      have hcbs : Delivers lib s [] [] :=
        ⟨rfl, fun el h => (by cases h), Nat.zero_le _⟩
      refine .more rfl hcbs ?_ ?_
      · rintro f' ⟨⟩
        exact ⟨hf, hres⟩
      · simp [Parser.feedLoop, HttpParser.emptyFragment, ParserFields.callbacks, Except.map]
    · have hloop : (⟨f, s, .ok⟩ : Parser σ).feedLoop lib data used (rounds + 1) =
          ((⟨f, s, .ok⟩ : Parser σ).feedStep lib data).bind fun q =>
            q.1.feedLoop lib (data.drop q.2) (used + q.2) rounds := by
        simp [Parser.feedLoop, hdata, hf, bind]
      rw [hloop]
      cases feedStep_spec lib f s hdata hf with
      | @more pre rest s' cbs hd hpre ho hcbs hrest hr =>
        subst hd
        rw [hr]
        have hpos : 0 < pre.length := List.length_pos_iff.mpr hpre
        have hlen : rest.length < rounds := by
          rw [List.length_append] at hrounds
          omega
        have hinc : ∀ flags, .messageComplete flags ∉ lib.emptyFragment s (pre ++ rest) ++ cbs := by
          intro flags hmem
          rcases List.mem_append.mp hmem with hmem | hmem
          · exact emptyFragment_incomplete s _ flags hmem
          · have hevent := mem_atomsOf_messageComplete.mpr hmem
            rw [hcbs.events] at hevent
            exact scan_incomplete ho flags hevent
        cases h : f.callbacks lib (lib.emptyFragment s (pre ++ rest) ++ cbs) with
        | error e => exact .of_head_throws used ho hcbs hrest h
        | ok f₁ =>
          have hf₁ := callbacks_incomplete h hinc hf
          have hres₁ : Resumable lib f₁ s' := hcbs.resumable hpre ho h
          simp only [Except.map, Except.bind, List.drop_left]
          exact .behind ho hcbs hrest hres₁ h (ih f₁ s' rest (used + pre.length) hlen hf₁ hres₁)
      | @complete s' e cbs flags ho hcbs hr =>
        rw [hr]
        refine .complete s' e ho hcbs ?_ ?_
        · intro f' h
          rw [← List.append_assoc] at h
          exact callbacks_complete h
        · cases h : f.callbacks lib (lib.emptyFragment s data ++ (cbs ++ [.messageComplete flags])) with
          | error e' => rfl
          | ok f' =>
            have hf' : f'.parsing_complete_ = true := by
              rw [← List.append_assoc] at h
              exact callbacks_complete h
            cases rounds <;> simp [Except.map, Except.bind, Parser.feedLoop, hf']
      | throws ho hr =>
        rw [hr]
        exact .throws ho rfl
      | @stuck f' s' e pass ho hpass hf' hr =>
        rw [hr]
        refine .throws (e := .parsing (.error e)) ho ?_
        have hne : data.drop pass ≠ [] := by
          intro h
          have := List.drop_eq_nil_iff.mp h
          omega
        obtain ⟨rounds, rfl⟩ : ∃ n, rounds = n + 1 := ⟨rounds - 1, by omega⟩
        simp [Except.bind, Parser.feedLoop, hne, hf', feedStep_errno f' s' e hne, bind]

/-- **`feed`.** The callbacks it makes are the events of its bytes, up to the end of the message, behind
an empty piece of the element in which they begin; it throws when a byte is refused. -/
theorem feed_spec (lib : HttpParser σ) {f : ParserFields} {s : σ} (data : Str)
    (hf : f.parsing_complete_ = false) (hres : Resumable lib f s) :
    FeedSpec lib f s data 0 ((⟨f, s, .ok⟩ : Parser σ).feed lib data) :=
  feedLoop_spec f s data 0 (Nat.lt_succ_self _) hf hres

end Http
