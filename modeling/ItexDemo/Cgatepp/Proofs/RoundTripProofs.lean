import ItexDemo.Cgatepp.PlainLibraries
import ItexDemo.Cgatepp.Proofs.DiscoveryProofs
import ItexDemo.Cgatepp.Proofs.SessionProofs

/-!
# Proofs: what was recorded is read back

The next `Dumper` constructs itself at the end of the log that the sessions have left, and its replay
goes through the whole log.
-/

namespace Cgatepp

namespace Dumper

open Script Transition

variable {d : Config} {vols : List Volume} {w : World}

/-- The log of a `Dumper` with a handler. -/
theorem Log.withHandler {kept : Prop} (h : Log d kept vols w) :
    Log { d with wrapped_handler_ := true } kept vols w where
  paths := ⟨h.paths.directory, h.paths.parent, h.paths.volume, h.paths.id⟩
  nodup := h.nodup
  volume := by
    intro i v hv
    obtain ⟨content, hfind, hlayout⟩ := h.volume i v hv
    exact ⟨content, hfind, ⟨hlayout.length, hlayout.bytes, hlayout.short, hlayout.empty⟩⟩
  absent := h.absent
  listed := h.listed
  full := h.full
  count := h.count
  written := h.written

/-- The setting in which the log is read back. -/
def quiet : Setting := { kept := True, mayThrow := False, function := .construct }

/-- The machine is called where all operations have answers, and nothing fails. -/
theorem safe_calm {α : Type} {Q : α → World → Prop} {p : Script Op Ans α}
    (h : Safe (machine { d with wrapped_handler_ := true } quiet) Q p w) : Safe (calm d) Q p w := by
  refine h.weaken (fun op w hpre => hpre.2.2 (hpre.2.1 trivial)) ?_
  rintro op w a w' ⟨choice, ⟨hopened, hthrows, hrecordable⟩, ha⟩
  refine ⟨choice, hopened, fun hthrow => ?_, fun htime record hrecord => ?_, ha⟩
  · rw [hthrows] at hthrow
    cases hthrow
  · subst htime
    exact hrecordable rfl record hrecord

/-- A new `Dumper` reads the log back. -/
theorem roundTrip_of_log (hsize : GoodSize d) (hlog : Log d True vols w) (hparses : Parses d w) :
    RoundTrip d w := by
  intro fuel hfuel
  refine safe_calm ?_
  have hlog₀ : Log { d with wrapped_handler_ := true } quiet.kept vols { w with returned := [] } :=
    hlog.withHandler.congr rfl rfl rfl
  have hsize₀ : GoodSize { d with wrapped_handler_ := true } := hsize
  have hconstruct := meets_construct (E := fun _ _ => False) hsize₀ rfl hlog₀
  have hreplay : Meets (machine { d with wrapped_handler_ := true } quiet)
      (fun t => t = { w with returned := [] }) (constructAndReplay d fuel)
      (fun _ t => t.returned = t.written) fun _ _ => False := by
    refine hconstruct.bind fun _ => .start fun t ht => ?_
    obtain ⟨time, record, hrecord, ⟨vols', i, v, hatEnd⟩, hwritten, hreturned⟩ := ht
    have hne : vols' ≠ [] := by
      rintro rfl
      cases hatEnd.last
    have hkept : vols'.flatMap Volume.records = t.written := hatEnd.log.written trivial
    refine (meets_replayRecordedStream hsize₀ hatEnd.log hatEnd.filled hne (fun _ => ?_) rfl).weaken
      (fun _ ht => ht) ?_ fun _ _ he => he.1
    · rw [hkept, hwritten, List.length_append, List.length_singleton]
      exact hfuel
    · rintro _ t' ⟨j, u, -, -, -, hwritten', hreturned'⟩
      rw [hreturned', hwritten', hreturned, List.nil_append, hkept]
      refine (List.map_congr_left fun record' hmem => ?_).trans (List.map_id _)
      rw [hwritten, List.mem_append, List.mem_singleton] at hmem
      refine hparses record' (hmem.imp id fun heq => ⟨time, ?_⟩)
      rw [heq, hrecord]
  refine (hreplay _ rfl).mono fun r t hr => ?_
  cases r with
  | ok _ => exact ⟨rfl, hr⟩
  | error e => exact hr.elim

/-- **Round trip.** In every run of recording from a path without volumes, and wherever the process
ends, a new `Dumper` reads back exactly the records whose writing was complete. -/
theorem round_trip (hnames : NamesAlike d) (hvolume : isVolume d (composeFilePath d 0))
    (hdir : HasDirectory d w) (hblank : Blank d w) (hsize : GoodSize d) {s : State}
    (h : Reachable ((system d w).restrict (Recording d)) s) (hparses : Parses d s.world) :
    RoundTrip d s.world := by
  have hpaths : Discoverable d w.directories :=
    ⟨hdir, hnames.parent hvolume, hnames.volume hvolume, hnames.id hvolume⟩
  have hinv : SessionInv d s := by
    refine h.invariant (fun s hs => ?_) fun s act s' hs hstep => ?_
    · rw [show s = _ from hs]
      exact ⟨[], log_of_blank hpaths hblank⟩
    · exact sessionInv_step hsize hs hstep.1 hstep.2
  obtain ⟨vols, hlog⟩ := hinv.log
  exact roundTrip_of_log hsize hlog hparses

section Examples

/-- A number is read back from its groups. -/
theorem readVarint_varint (groups n : Nat) (rest : List UInt8) (hn : n < 128 ^ (groups + 1)) :
    readVarint (varint (groups + 1) n ++ rest) = some (n, rest) := by
  induction groups generalizing n with
  | zero =>
    have hlt : n < 128 := hn
    have hbyte : (UInt8.ofNat n).toNat = n := by
      rw [UInt8.toNat_ofNat', Nat.mod_eq_of_lt (by omega)]
    rw [varint, if_pos hlt, List.singleton_append, readVarint, hbyte, if_pos hlt]
  | succ groups ih =>
    rw [varint]
    by_cases hlt : n < 128
    · have hbyte : (UInt8.ofNat n).toNat = n := by
        rw [UInt8.toNat_ofNat', Nat.mod_eq_of_lt (by omega)]
      rw [if_pos hlt, List.singleton_append, readVarint, hbyte, if_pos hlt]
    · have hbyte : (UInt8.ofNat (n % 128 + 128)).toNat = n % 128 + 128 := by
        rw [UInt8.toNat_ofNat', Nat.mod_eq_of_lt (by omega)]
      have hrest : n / 128 < 128 ^ (groups + 1) := by
        rw [Nat.div_lt_iff_lt_mul (by decide), ← Nat.pow_succ]
        exact hn
      rw [if_neg hlt, List.cons_append, readVarint, hbyte, if_neg (by omega), ih _ hrest,
        Option.map_some, Option.some.injEq, Prod.mk.injEq]
      exact ⟨by omega, rfl⟩

/-- A record without a message is parsed back. -/
theorem parse_serialize_notSet {record : Record} (hmessage : record.message = .notSet) :
    plainProtobuf.parse (plainProtobuf.serialize record) = record := by
  obtain ⟨type, time, message⟩ := record
  subst hmessage
  have htype : RecordType.all[RecordType.all.idxOf type]? = some type := by cases type <;> rfl
  have hsmall : RecordType.all.idxOf type < 128 ^ 10 := by cases type <;> decide
  have htime : time.toNat < 128 ^ 10 := Nat.lt_trans time.toNat_lt (by decide)
  have hback : time.toNat.toUInt64 = time := UInt64.ofNat_toNat
  have hserialize : serializePlain { record_type := type, timestamp := time, message := .notSet } =
      8 :: (varint 10 (RecordType.all.idxOf type) ++ 16 :: (varint 10 time.toNat ++ [])) := by
    simp [serializePlain]
  show (parsePlain (serializePlain _)).getD _ = _
  rw [hserialize, parsePlain, List.drop_one, List.tail_cons, readVarint_varint 9 _ _ hsmall]
  simp only [Option.bind_eq_bind, Option.bind_some, List.drop_one, List.tail_cons]
  rw [readVarint_varint 9 _ _ htime, Option.bind_some, htype, Option.bind_some]
  simp [hback]

/-- The records of which the plain libraries know all fields. -/
theorem parses_plain (hproto : d.proto = plainProtobuf)
    (h : w.written.all fun record => record.message = .notSet) : Parses d w := by
  intro record hrecord
  rw [hproto]
  rcases hrecord with hmem | ⟨time, htime⟩
  · exact parse_serialize_notSet (of_decide_eq_true (List.all_eq_true.mp h record hmem))
  · obtain rfl := Option.some.inj htime
    exact parse_serialize_notSet rfl

/-- The process ends while the first record of the second volume is stored. -/
def interrupted : List Act := rotating (.replicate 5 (atOne .opened) ++ [.crash])

/-- What the interrupted callback has not stored completely is not read back. -/
theorem round_trip_interrupted :
    ∃ s, run (next oneRecordVolumes) { world := plainWorld "var".toList [], process := .absent }
      interrupted = some s ∧ RoundTrip oneRecordVolumes s.world := by
  have hrun : (run (next oneRecordVolumes)
      { world := plainWorld "var".toList [], process := .absent } interrupted).any
        (fun s => s.world.written.all fun record => record.message = .notSet) = true := by
    decide +kernel
  obtain ⟨s, hs, hwritten⟩ := (Option.any_eq_true _ _).mp hrun
  have hmeets : RunMeets (next oneRecordVolumes) (Recording oneRecordVolumes)
      { world := plainWorld "var".toList [], process := .absent } interrupted := by
    decide +kernel
  have hblank : Blank oneRecordVolumes (plainWorld "var".toList []) :=
    ⟨List.nodup_nil, fun path hpath => absurd hpath List.not_mem_nil, rfl⟩
  exact ⟨s, hs, round_trip (namesAlike_plain rfl) (by decide) (by decide) hblank
    ⟨by decide, by decide⟩ (reachable_restrict_run _ (.init rfl) hmeets hs) (parses_plain rfl hwritten)⟩

/-- With these answers the script comes to an operation that has none. -/
def sticks {α : Type} (d : Config) (choice : Choice) : Script Op Ans α → World → Bool
  | .ret _, _ => false
  | .call op k, w =>
    match answer d.paths d.proto choice op w with
    | none => true
    | some (a, w') => decide (Calm d op w choice) && sticks d choice (k a) w'

theorem not_safe_of_sticks {α : Type} {Q : α → World → Prop} {choice : Choice}
    {p : Script Op Ans α} (h : sticks d choice p w) : ¬Safe (calm d) Q p w := by
  induction p generalizing w with
  | ret a => cases h
  | call op k ih =>
    intro hsafe
    obtain ⟨⟨a, w'⟩, ha⟩ := Option.isSome_iff_exists.mp (hsafe.1 choice)
    rw [sticks, ha] at h
    obtain ⟨hcalm, hrest⟩ := Bool.and_eq_true_iff.mp h
    exact ih a hrest (hsafe.2 a w' ⟨choice, of_decide_eq_true hcalm, ha⟩)

/-- A `Dumper` whose path ends with a slash. -/
def slashed : Config := { oneRecordVolumes with file_path_ := "var/".toList }

/-- The volumes of a path that ends with a slash are not found. -/
theorem slashed_not_read_back : ¬∀ (d : Config) (w : World) (s : State),
    d.paths.parent_path d.file_path_ ≠ [] → NamesAlike d → HasDirectory d w → Blank d w →
    GoodSize d → Reachable ((system d w).restrict (Recording d)) s → s.process = .absent →
    Parses d s.world → RoundTrip d s.world := by
  intro h
  have hblank : Blank slashed (plainWorld "var".toList []) :=
    ⟨List.nodup_nil, fun path hpath => absurd hpath List.not_mem_nil, rfl⟩
  have htrip := h slashed (plainWorld "var".toList [])
    { world := plainWorld "var".toList [], process := .absent } (by decide) (namesAlike_plain rfl)
    (by decide) hblank ⟨by decide, by decide⟩ (.init rfl) rfl (parses_plain rfl rfl)
  have hsticks : sticks slashed { time := 1, throws := false, opening := .opened }
      (constructAndReplay slashed 2).run { plainWorld "var".toList [] with returned := [] } := by
    decide +kernel
  exact not_safe_of_sticks hsticks (htrip 2 (Nat.le_refl 2))

end Examples

end Dumper

end Cgatepp
