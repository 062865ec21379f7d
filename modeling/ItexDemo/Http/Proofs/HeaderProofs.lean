import Mathlib.Data.List.Nodup
import ItexDemo.Http.Headers
import ItexDemo.Http.Proofs.ParserProofs

/-!
# Proofs: which headers a message gets

The state between two headers is `current_header_`, with a header that may have no value yet. The
induction over the headers carries what `storeCurrentHeader` would leave of it.
-/

namespace Http

variable {σ : Type} {lib : HttpParser σ}

/-! ## Joined names -/

theorem joinNames_of_values {headers : List (Str × Str)} (h : ∀ header ∈ headers, header.2 ≠ []) :
    joinNames [] headers = headers := by
  induction headers with
  | nil => rfl
  | cons header headers ih =>
    obtain ⟨name, value⟩ := header
    rw [joinNames, if_neg (h _ List.mem_cons_self), List.nil_append,
      ih fun header hheader => h header (List.mem_cons_of_mem _ hheader)]

theorem value_of_mem_joinNames {front : Str} {headers : List (Str × Str)} {header : Str × Str}
    (h : header ∈ joinNames front headers) : header.2 ≠ [] := by
  induction headers generalizing front with
  | nil => cases h
  | cons header' headers ih =>
    obtain ⟨name, value⟩ := header'
    rw [joinNames] at h
    split_ifs at h with hvalue
    · exact ih h
    · rcases List.mem_cons.mp h with rfl | hrest
      · exact hvalue
      · exact ih hrest

/-- No name is left exactly when the last header has a value. -/
theorem namesLeft_eq_nil {front : Str} {headers : List (Str × Str)}
    (hnames : ∀ header ∈ headers, header.1 ≠ []) :
    namesLeft front headers = [] ↔ (headers = [] → front = []) ∧
      ∀ header, headers.getLast? = some header → header.2 ≠ [] := by
  induction headers generalizing front with
  | nil => simp [namesLeft]
  | cons header headers ih =>
    obtain ⟨name, value⟩ := header
    have hname : name ≠ [] := hnames _ List.mem_cons_self
    have hrest := fun front =>
      @ih front fun header hheader => hnames header (List.mem_cons_of_mem _ hheader)
    rw [namesLeft]
    cases headers with
    | nil =>
      by_cases hvalue : value = []
      · simp [hvalue, namesLeft, hname]
      · simp [hvalue, namesLeft]
    | cons header' headers =>
      split_ifs with hvalue
      · rw [hrest]
        simp
      · rw [hrest]
        simp

/-! ## The callbacks -/

theorem callbacks_values (p : ParserFields) (values : List Str) :
    p.callbacks lib (values.map (.data .headerValue)) =
      .ok { p with
        current_header_ := (p.current_header_.1, p.current_header_.2 ++ values.flatten) } := by
  induction values generalizing p with
  | nil => simp [ParserFields.callbacks]
  | cons data values ih =>
    have hstep : p.callbacks lib ((data :: values).map (.data .headerValue)) =
        (p.onHeaderValue data).callbacks lib (values.map (.data .headerValue)) := rfl
    rw [hstep, ih]
    simp [ParserFields.onHeaderValue]

/-- Behind a name nothing is stored. -/
theorem callbacks_more_names {p : ParserFields} (hp : p.current_header_.2 = []) (names : List Str) :
    p.callbacks lib (names.map (.data .headerField)) =
      .ok { p with current_header_ := (p.current_header_.1 ++ names.flatten, []) } := by
  induction names generalizing p with
  | nil =>
    have hcurrent : (p.current_header_.1, ([] : Str)) = p.current_header_ := by rw [← hp]
    simp [ParserFields.callbacks, hcurrent]
  | cons data names ih =>
    have hstep : p.callbacks lib ((data :: names).map (.data .headerField)) =
        (p.onHeaderField data).callbacks lib (names.map (.data .headerField)) := rfl
    have hstore := storeCurrentHeader_of_empty hp
    have hnext : (p.onHeaderField data).current_header_.2 = [] := by
      unfold ParserFields.onHeaderField
      rw [hstore]
      exact hp
    rw [hstep, ih hnext]
    unfold ParserFields.onHeaderField
    rw [hstore]
    simp

/-- The first piece of a name stores the header in front of it, if that has a value. -/
theorem callbacks_names (p : ParserFields) {names : List Str} (hne : names ≠ []) :
    p.callbacks lib (names.map (.data .headerField)) =
      .ok { p.storeCurrentHeader with
        current_header_ := (p.storeCurrentHeader.current_header_.1 ++ names.flatten, []) } := by
  cases names with
  | nil => exact absurd rfl hne
  | cons data names =>
    have hstep : p.callbacks lib ((data :: names).map (.data .headerField)) =
        (p.onHeaderField data).callbacks lib (names.map (.data .headerField)) := rfl
    have hnext : (p.onHeaderField data).current_header_.2 = [] := storeCurrentHeader_value p
    rw [hstep, callbacks_more_names hnext]
    simp [ParserFields.onHeaderField]

/-- The callbacks for one header. -/
theorem callbacks_header (p : ParserFields) {pieces : HeaderPieces} (hname : pieces.header.1 ≠ []) :
    p.callbacks lib pieces.callbacks =
      .ok { p.storeCurrentHeader with
        current_header_ :=
          (p.storeCurrentHeader.current_header_.1 ++ pieces.header.1, pieces.header.2) } := by
  have hne : pieces.names ≠ [] := by
    rintro hnil
    rw [HeaderPieces.header, hnil] at hname
    exact hname rfl
  rw [HeaderPieces.callbacks, callbacks_append, callbacks_names p hne]
  show ParserFields.callbacks lib _ (pieces.values.map (.data .headerValue)) = _
  rw [callbacks_values]
  rfl

/-- The callbacks for all headers and `on_headers_complete`. -/
theorem callbacks_headers (lib : HttpParser σ) (p : ParserFields) {pieces : List HeaderPieces}
    (hnames : ∀ x ∈ pieces, x.header.1 ≠ []) :
    ∃ p', p.callbacks lib (pieces.flatMap HeaderPieces.callbacks ++ [.headersComplete]) = .ok p' ∧
      p'.current_header_ = (namesLeft p.storeCurrentHeader.current_header_.1
        (pieces.map HeaderPieces.header), []) ∧
      p'.message_.base.headers_ = AssocMap.assignAll p.storeCurrentHeader.message_.base.headers_
        (joinNames p.storeCurrentHeader.current_header_.1 (pieces.map HeaderPieces.header)) := by
  induction pieces generalizing p with
  | nil =>
    refine ⟨p.onHeadersComplete, rfl, ?_, rfl⟩
    exact Prod.ext rfl (storeCurrentHeader_value p)
  | cons x pieces ih =>
    have hstep : p.callbacks lib ((x :: pieces).flatMap HeaderPieces.callbacks ++ [.headersComplete]) =
        ParserFields.callbacks lib { p.storeCurrentHeader with
            current_header_ := (p.storeCurrentHeader.current_header_.1 ++ x.header.1, x.header.2) }
          (pieces.flatMap HeaderPieces.callbacks ++ [.headersComplete]) := by
      rw [List.flatMap_cons, List.append_assoc, callbacks_append,
        callbacks_header p (hnames x List.mem_cons_self)]
      rfl
    obtain ⟨p', hp', hcurrent, hheaders⟩ := ih { p.storeCurrentHeader with
      current_header_ := (p.storeCurrentHeader.current_header_.1 ++ x.header.1, x.header.2) }
      fun y hy => hnames y (List.mem_cons_of_mem _ hy)
    rw [List.map_cons, joinNames, namesLeft]
    by_cases hvalue : x.header.2 = []
    · rw [storeCurrentHeader_of_empty hvalue] at hcurrent hheaders
      rw [if_pos hvalue, if_pos hvalue]
      exact ⟨p', hstep.trans hp', hcurrent, hheaders⟩
    · unfold ParserFields.storeCurrentHeader at hcurrent hheaders
      rw [if_neg hvalue] at hcurrent hheaders
      rw [if_neg hvalue, if_neg hvalue]
      refine ⟨p', hstep.trans hp', hcurrent, ?_⟩
      rw [hheaders, AnyMessage.base_setBase]
      rfl

/-- What the callbacks leave, for a parser without a current header. -/
theorem headersExact_iff_namesLeft (lib : HttpParser σ) {pieces : List HeaderPieces}
    (hnames : ∀ x ∈ pieces, x.header.1 ≠ []) :
    HeadersExact lib pieces ↔ namesLeft [] (pieces.map HeaderPieces.header) = [] ∧
      ∀ name, AssocMap.last (joinNames [] (pieces.map HeaderPieces.header)) name =
        AssocMap.last (pieces.map HeaderPieces.header) name := by
  constructor
  · intro h
    obtain ⟨p', hp', hcurrent, hfind⟩ := h
      { message_ := .request Request.cleared, current_header_ := ([], []), parsing_complete_ := false
        headers_parsing_complete_ := false } rfl
    obtain ⟨q, hq, hcurrent', hheaders⟩ := callbacks_headers lib
      { message_ := .request Request.cleared, current_header_ := ([], []), parsing_complete_ := false
        headers_parsing_complete_ := false } hnames
    obtain rfl : p' = q := Except.ok.inj (hp'.symm.trans hq)
    refine ⟨congrArg Prod.fst (hcurrent'.symm.trans hcurrent), fun name => ?_⟩
    have hname := hfind name
    rw [hheaders, AssocMap.find_assignAll, AssocMap.find_assignAll] at hname
    have hnone : AssocMap.find (AnyMessage.request Request.cleared).base.headers_ name = none := rfl
    rw [hnone, Option.or_none] at hname
    exact (Option.or_none.symm.trans hname)
  · rintro ⟨hleft, hlast⟩ p hp
    have hstore : p.storeCurrentHeader = p := storeCurrentHeader_of_empty (by rw [hp])
    obtain ⟨p', hp', hcurrent, hheaders⟩ := callbacks_headers lib p hnames
    rw [hstore, hp] at hcurrent hheaders
    refine ⟨p', hp', hcurrent.trans (by rw [hleft]), fun name => ?_⟩
    rw [hheaders, AssocMap.find_assignAll, AssocMap.find_assignAll, hlast]

/-- The map of a message is exact if and only if the last header has a value, and putting the names
without a value in front of the next names changes no name's last value; for headers with different
names, if and only if every header has a value. -/
theorem headers_exact_iff (lib : HttpParser σ) {pieces : List HeaderPieces}
    (hnames : ∀ x ∈ pieces, x.header.1 ≠ []) :
    (HeadersExact lib pieces ↔
      (∀ header, (pieces.map HeaderPieces.header).getLast? = some header → header.2 ≠ []) ∧
        ∀ name, AssocMap.last (joinNames [] (pieces.map HeaderPieces.header)) name =
          AssocMap.last (pieces.map HeaderPieces.header) name) ∧
    (((pieces.map HeaderPieces.header).map Prod.fst).Nodup →
      (HeadersExact lib pieces ↔ ∀ x ∈ pieces, x.header.2 ≠ [])) := by
  have hexact := headersExact_iff_namesLeft lib hnames
  rw [namesLeft_eq_nil (List.forall_mem_map.mpr hnames)] at hexact
  refine ⟨?_, fun hnodup => ?_⟩
  · rw [hexact]
    simp
  · rw [hexact]
    constructor
    · rintro ⟨-, hlast⟩ x hx hvalue
      have hmem : (x.header.1, ([] : Str)) ∈ pieces.map HeaderPieces.header := by
        rw [← hvalue]
        exact List.mem_map_of_mem hx
      have hunique : ∀ value, (x.header.1, value) ∈ pieces.map HeaderPieces.header → value = [] :=
        fun value hvalue => (Prod.mk.inj (List.inj_on_of_nodup_map hnodup hvalue hmem rfl)).2
      have hjoined := (hlast x.header.1).trans (AssocMap.last_of_mem hmem hunique)
      exact value_of_mem_joinNames (AssocMap.mem_of_last hjoined) rfl
    · intro hvalues
      have hheaders : ∀ header ∈ pieces.map HeaderPieces.header, header.2 ≠ [] :=
        List.forall_mem_map.mpr hvalues
      rw [joinNames_of_values hheaders]
      exact ⟨⟨fun _ => rfl, fun header h => hheaders header (List.mem_of_getLast? h)⟩, fun _ => rfl⟩

/-- Two headers with a value, the second in two pieces. -/
theorem headers_exact_two : HeadersExact PlainParser.lib
    [⟨["a".toList], ["1".toList]⟩, ⟨["b".toList, "c".toList], ["2".toList, "3".toList]⟩] := by
  refine ((headers_exact_iff PlainParser.lib ?_).2 ?_).mpr ?_
  · decide
  · decide
  · decide

/-- A header without a value is lost, and its name becomes a part of the next name. -/
theorem empty_value_joins_names :
    ¬∀ pieces : List HeaderPieces, (∀ x ∈ pieces, x.header.1 ≠ []) →
      HeadersExact PlainParser.lib pieces := by
  intro h
  obtain ⟨p', hp', -, hfind⟩ := h [⟨["a".toList], []⟩, ⟨["b".toList], ["1".toList]⟩] (by decide)
    { message_ := .request Request.cleared, current_header_ := ([], []), parsing_complete_ := false
      headers_parsing_complete_ := false } rfl
  cases hp'
  exact absurd (hfind "a".toList) (by decide)

end Http
