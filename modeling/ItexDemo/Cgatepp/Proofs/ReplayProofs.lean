import ItexDemo.Cgatepp.Proofs.DumperProofs

/-!
# Proofs: reading a log

A reader stands in a volume, in front of the records that it has not returned yet. A round of the
loop of `replay_recorded_stream` takes the next one, in this volume or at the beginning of the one
behind it.
-/

namespace Cgatepp

namespace Dumper

open Script

variable {d : Config} {S : Setting} {vols : List Volume} {w w' : World}

/-- `get_file_ids_list` returns the ids of the volumes. -/
theorem does_getFileIdsList (hlog : Log d S.kept vols w) :
    Does (machine d S) w (getFileIdsList d) (List.range vols.length) w := by
  obtain ⟨ids, hread, hsort⟩ := hlog.ids
  have hdirectory : Does (machine d S) w
      (Script.ask (Op.isDirectory (d.paths.parent_path d.file_path_)) : Code Bool) true w := by
    refine does_ask hlog nofun fun choice => ?_
    show some (decide (d.paths.parent_path d.file_path_ ∈ w.directories), w) = _
    rw [decide_eq_true hlog.paths.directory]
    rfl
  have hfiles : Does (machine d S) w
      (Script.ask (Op.directoryIterator (d.paths.parent_path d.file_path_)) : Code (List Text))
      ((w.files.map Prod.fst).filter fun file =>
        d.paths.parent_path file = d.paths.parent_path d.file_path_) w :=
    does_ask hlog nofun fun _ => rfl
  refine hdirectory.next (hfiles.next ?_)
  rw [hread]
  show Does (machine d S) w (pure (ids.insertionSort (· ≤ ·))) _ w
  rw [hsort]
  exact .return

variable (d) in
/-- The reader stands in volume `i` behind the records `before`. -/
structure Reader (kept : Prop) (vols : List Volume) (i : Nat) (v : Volume)
    (before after : List Record) (w : World) : Prop extends Mapped d kept vols i v w where
  records : v.records = before ++ after
  replaying : w.state_ = .REPLAYING
  filled : ∀ u ∈ vols, u.records ≠ []

/-- What is still to be read. -/
def remaining (vols : List Volume) (i : Nat) (after : List Record) : List Record :=
  after ++ (vols.drop (i + 1)).flatMap Volume.records

section Reader

variable {i : Nat} {v : Volume} {before after : List Record} {record : Record}

theorem Reader.initialised (h : Reader d S.kept vols i v before after w) : v.initialised = true := by
  obtain ⟨content, -, hlayout⟩ := h.log.volume i v h.volume
  by_contra hinit
  exact h.filled v (List.mem_of_getElem? h.volume) (hlayout.empty (Bool.eq_false_iff.mpr hinit))

theorem Reader.position (h : Reader d S.kept vols i v before after w) :
    v.position d = 8 + (frames d before).length + (frames d after).length := by
  rw [Volume.position, if_pos h.initialised, h.records, frames_append, List.length_append]
  omega

theorem Reader.position_lt (hsize : GoodSize d) (h : Reader d S.kept vols i v before after w) :
    v.position d < 2 ^ 63 := by
  obtain ⟨content, -, hlayout⟩ := h.log.volume i v h.volume
  exact hlayout.position_lt hsize

theorem Reader.short (h : Reader d S.kept vols i v before (record :: after) w) :
    (d.proto.serialize record).length < 2 ^ 16 := by
  obtain ⟨content, -, hlayout⟩ := h.log.volume i v h.volume
  exact hlayout.short record (by rw [h.records]; simp)

theorem does_loadSize (h : Reader d S.kept vols i v before (record :: after) w) :
    Does (machine d S) w (loadSize (8 + (frames d before).length)) (recordSize d record) w := by
  obtain ⟨content, hmapped, hlayout, -⟩ := h.log.mapped h.volume h.mapped
  refine (does_load h.log hmapped (hlayout.read h.records).1).next ?_
  rw [Volume.decode_recordSize]
  exact .return

/-- The record in front of the reader is returned. -/
theorem does_readRecord (h : Reader d S.kept vols i v before (record :: after) w) :
    ∃ w', Does (machine d S) w
        (readRecord (8 + (frames d before).length + 2) (recordSize d record))
        (some (d.proto.parse (d.proto.serialize record), 8 + (frames d (before ++ [record])).length))
        w' ∧
      Reader d S.kept vols i v (before ++ [record]) after w' ∧
      w'.returned = w.returned ++ [d.proto.parse (d.proto.serialize record)] ∧
      w'.written = w.written := by
  obtain ⟨content, hmapped, hlayout, -⟩ := h.log.mapped h.volume h.mapped
  have hload := does_load h.log hmapped (hlayout.read h.records).2
  have hparse : Does (machine d S) w
      (Script.ask (Op.parse (d.proto.serialize record)) : Code Record)
      (d.proto.parse (d.proto.serialize record))
      { w with returned := w.returned ++ [d.proto.parse (d.proto.serialize record)] } :=
    does_ask h.log nofun fun _ => rfl
  have hpos : 8 + (frames d before).length + 2 + recordSize d record =
      8 + (frames d (before ++ [record])).length := by
    rw [frames_append, frames_singleton, List.length_append, length_frame h.short]
    omega
  refine ⟨{ w with returned := w.returned ++ [d.proto.parse (d.proto.serialize record)] },
    hload.next (hparse.next ?_), ?_, rfl, rfl⟩
  · rw [hpos]
    exact .return
  · refine ⟨⟨h.log.congr rfl rfl rfl, h.volume, h.mapped, h.current⟩, ?_, h.replaying, h.filled⟩
    rw [h.records, List.append_assoc]
    rfl

/-- The rest of `read_next` in front of a record. -/
theorem does_readFrom (hsize : GoodSize d)
    (h : Reader d S.kept vols i v before (record :: after) w) :
    ∃ w', Does (machine d S) w (readFrom d (8 + (frames d before).length))
        (some (d.proto.parse (d.proto.serialize record), 8 + (frames d (before ++ [record])).length))
        w' ∧
      Reader d S.kept vols i v (before ++ [record]) after w' ∧
      w'.returned = w.returned ++ [d.proto.parse (d.proto.serialize record)] ∧
      w'.written = w.written := by
  obtain ⟨w', hread, hreader, hreturned, hwritten⟩ := does_readRecord h
  have hle : 8 + (frames d before).length + 2 + recordSize d record ≤ v.position d := by
    have hframes : frames d (record :: after) = frame d record ++ frames d after := rfl
    rw [h.position, hframes, List.length_append, length_frame h.short]
    omega
  have hcond : ¬(8 + (frames d before).length + 2 + recordSize d record) % 2 ^ 64 > v.position d := by
    have hlt := h.position_lt hsize
    rw [Nat.mod_eq_of_lt (by omega)]
    omega
  refine ⟨w', (does_loadSize h).next ((does_getPos hsize h.toMapped).next ?_), hreader, hreturned,
    hwritten⟩
  rw [if_neg hcond]
  exact hread

/-- Behind the last record of a volume the next volume is opened. -/
theorem does_nextVolume (h : Reader d S.kept vols i v before [] w) {u : Volume}
    (hu : vols[i + 1]? = some u) :
    ∃ w', Does (machine d S) w (nextVolume d) (some 8) w' ∧
      Reader d S.kept vols (i + 1) u [] u.records w' ∧ w'.returned = w.returned ∧
      w'.written = w.written := by
  have hlt : i + 1 < vols.length := (List.getElem?_eq_some_iff.mp hu).1
  have hcount := h.log.count
  have hid : (w.current_id_ + 1) % 2 ^ 64 = i + 1 := by
    rw [h.current, Nat.mod_eq_of_lt (by omega)]
  have hcurrent : Does (machine d S) w (Script.ask Op.currentId : Code Nat) w.current_id_ w :=
    does_ask h.log nofun fun _ => rfl
  obtain ⟨w', hopen, hmapped, hframe⟩ := does_openExistingFile h.log hu h.replaying
  refine ⟨w', (does_getFileIdsList h.log).next ?_,
    ⟨hmapped, rfl, hframe.state_.trans h.replaying, h.filled⟩, hframe.returned, hframe.written⟩
  have hgetLast : (List.range vols.length).getLast? = some (vols.length - 1) := by
    rw [List.getLast?_range, if_neg (by omega)]
  rw [hgetLast]
  refine hcurrent.next ?_
  rw [hid, if_neg (by omega)]
  exact hopen.next .return

/-- Behind the last record of all there is no volume. -/
theorem does_nextVolume_none (h : Reader d S.kept vols i v before [] w)
    (hlast : i + 1 = vols.length) : Does (machine d S) w (nextVolume d) none w := by
  have hcount := h.log.count
  have hid : (w.current_id_ + 1) % 2 ^ 64 = i + 1 := by
    rw [h.current, Nat.mod_eq_of_lt (by omega)]
  have hcurrent : Does (machine d S) w (Script.ask Op.currentId : Code Nat) w.current_id_ w :=
    does_ask h.log nofun fun _ => rfl
  refine (does_getFileIdsList h.log).next ?_
  have hgetLast : (List.range vols.length).getLast? = some (vols.length - 1) := by
    rw [List.getLast?_range, if_neg (by omega)]
  rw [hgetLast]
  refine hcurrent.next ?_
  rw [hid, if_pos (by omega)]
  exact .return

/-- `read_next` returns the first record that remains, and stands behind it. -/
theorem does_readNext (hsize : GoodSize d) (h : Reader d S.kept vols i v before after w)
    {rest : List Record} (hrest : remaining vols i after = record :: rest) :
    ∃ w' i' v' before' after', Does (machine d S) w (readNext d (8 + (frames d before).length))
        (some (d.proto.parse (d.proto.serialize record), 8 + (frames d before').length)) w' ∧
      Reader d S.kept vols i' v' before' after' w' ∧ remaining vols i' after' = rest ∧
      w'.returned = w.returned ++ [d.proto.parse (d.proto.serialize record)] ∧
      w'.written = w.written := by
  have hpos := does_getPos hsize h.toMapped
  have hlt := h.position_lt hsize
  have hposition := h.position
  cases after with
  | cons first after =>
    obtain ⟨rfl, rfl⟩ := List.cons.inj hrest
    obtain ⟨w', hread, hreader, hreturned, hwritten⟩ := does_readFrom hsize h
    have hframes : frames d (first :: after) = frame d first ++ frames d after := rfl
    rw [hframes, List.length_append, length_frame h.short] at hposition
    refine ⟨w', i, v, _, after, hpos.next ?_, hreader, rfl, hreturned, hwritten⟩
    rw [if_neg (by rw [Nat.mod_eq_of_lt (by omega)]; omega)]
    exact hread
  | nil =>
    rw [frames_nil, List.length_nil, Nat.add_zero] at hposition
    have hnext : i + 1 < vols.length := by
      by_contra hge
      rw [remaining, List.drop_of_length_le (by omega)] at hrest
      cases hrest
    have hu : vols[i + 1]? = some vols[i + 1] := List.getElem?_eq_getElem hnext
    obtain ⟨w₁, hswitch, hreader₁, hreturned₁, hwritten₁⟩ := does_nextVolume h hu
    rw [remaining, List.drop_eq_getElem_cons hnext, List.nil_append, List.flatMap_cons] at hrest
    cases hrecords : vols[i + 1].records with
    | nil => exact absurd hrecords (h.filled _ (List.getElem_mem hnext))
    | cons first after =>
      rw [hrecords, List.cons_append] at hrest
      obtain ⟨rfl, rfl⟩ := List.cons.inj hrest
      rw [hrecords] at hreader₁
      obtain ⟨w', hread, hreader, hreturned, hwritten⟩ := does_readFrom hsize hreader₁
      refine ⟨w', i + 1, _, _, after, hpos.next ?_, hreader, rfl, ?_, hwritten.trans hwritten₁⟩
      · rw [hposition, if_pos (by rw [Nat.mod_eq_of_lt (by omega)]; omega)]
        exact hswitch.next hread
      · rw [hreturned, hreturned₁]

/-- When no record remains, `read_next` finds no volume. -/
theorem does_readNext_none (hsize : GoodSize d) (h : Reader d S.kept vols i v before after w)
    (hrest : remaining vols i after = []) :
    Does (machine d S) w (readNext d (8 + (frames d before).length)) none w ∧
      i + 1 = vols.length := by
  obtain ⟨rfl, hbehind⟩ := List.append_eq_nil_iff.mp hrest
  have hlast : i + 1 = vols.length := by
    have hle := h.lt
    by_contra hne
    have hnext : i + 1 < vols.length := by omega
    rw [List.drop_eq_getElem_cons hnext, List.flatMap_cons, List.append_eq_nil_iff] at hbehind
    exact h.filled _ (List.getElem_mem hnext) hbehind.1
  have hlt := h.position_lt hsize
  have hposition := h.position
  rw [frames_nil, List.length_nil, Nat.add_zero] at hposition
  refine ⟨(does_getPos hsize h.toMapped).next ?_, hlast⟩
  rw [hposition, if_pos (by rw [Nat.mod_eq_of_lt (by omega)]; omega)]
  exact (does_nextVolume_none h hlast).next .return

end Reader

/-! ## The loop -/

/-- The wrapped handler returns or throws. -/
theorem meets_callHandler (hlog : Log d S.kept vols w) (call : HandlerCall) :
    Meets (machine d S) (fun t => t = w) (callHandler call) (fun _ t => t = w)
      fun _ t => S.mayThrow ∧ t = w := by
  have hask : Meets (machine d S) (fun t => t = w)
      (Script.ask (Op.handle call) : Code Bool) (fun b t => (b = true → S.mayThrow) ∧ t = w)
      fun _ t => S.mayThrow ∧ t = w := by
    refine .ask (fun t ht => ?_) fun t b t' ht hb => ?_
    · rw [ht]
      exact ⟨⟨vols, hlog⟩, fun _ => nofun, fun _ _ => rfl⟩
    · obtain ⟨choice, -, hthrows, -, hb⟩ := hb
      obtain ⟨hb, hw⟩ := Prod.mk.inj (Option.some.inj hb)
      exact ⟨fun h => hthrows (Eq.trans hb h), hw.symm.trans ht⟩
  refine hask.bind fun throws => ?_
  cases throws with
  | true => exact .raise fun t ht => ⟨ht.1 rfl, ht.2⟩
  | false => exact .return fun t ht => ht.2

/-- The loop returns every record that remains, unless the handler throws. -/
theorem meets_replayLoop {i : Nat} {v : Volume} {before after : List Record} (hsize : GoodSize d)
    (fuel : Nat) (h : Reader d S.kept vols i v before after w)
    (hfuel : S.kept → (remaining vols i after).length < fuel) :
    Meets (machine d S) (fun t => t = w) (replayLoop d fuel (8 + (frames d before).length))
      (fun _ t => ∃ j u, Mapped d S.kept vols j u t ∧ j + 1 = vols.length ∧ t.written = w.written ∧
        t.returned = w.returned ++
          (remaining vols i after).map fun record => d.proto.parse (d.proto.serialize record))
      fun _ t => S.mayThrow ∧ ∃ j u, Mapped d S.kept vols j u t ∧ t.state_ = .REPLAYING := by
  induction fuel generalizing i v before after w with
  | zero =>
    have hask : Meets (machine d S) (fun t => t = w) (Script.ask Op.outOfFuel : Code Empty)
        (fun _ _ => False)
        fun _ t => S.mayThrow ∧ ∃ j u, Mapped d S.kept vols j u t ∧ t.state_ = .REPLAYING := by
      refine .ask (fun t ht => ?_) fun t a => ?_
      · refine ⟨⟨vols, ht ▸ h.log⟩, fun hk => ?_, fun hne => absurd rfl hne⟩
        exact absurd (hfuel hk) (Nat.not_lt_zero _)
      · exact nomatch (show Empty from a)
    exact hask.bind fun a => nomatch a
  | succ fuel ih =>
    cases hrest : remaining vols i after with
    | nil =>
      obtain ⟨hread, hlast⟩ := does_readNext_none hsize h hrest
      refine hread.bind (.return fun t ht => ?_)
      subst ht
      exact ⟨i, v, h.toMapped, hlast, rfl, by simp⟩
    | cons record rest =>
      obtain ⟨w', i', v', before', after', hread, hreader, hremaining, hreturned, hwritten⟩ :=
        does_readNext hsize h hrest
      have hloop := ih hreader fun hk => by
        have hlen := hfuel hk
        rw [hrest, List.length_cons] at hlen
        rw [hremaining]
        omega
      have hloop' : Meets (machine d S) (fun t => t = w')
          (replayLoop d fuel (8 + (frames d before').length))
          (fun _ t => ∃ j u, Mapped d S.kept vols j u t ∧ j + 1 = vols.length ∧
            t.written = w.written ∧ t.returned = w.returned ++
              (record :: rest).map fun record => d.proto.parse (d.proto.serialize record))
          fun _ t => S.mayThrow ∧ ∃ j u, Mapped d S.kept vols j u t ∧ t.state_ = .REPLAYING := by
        refine hloop.weaken (fun _ ht => ht) ?_ fun _ _ ht => ht
        rintro _ t ⟨j, u, hmapped, hlast, hwritten', hreturned'⟩
        refine ⟨j, u, hmapped, hlast, hwritten'.trans hwritten, ?_⟩
        rw [hreturned', hreturned, hremaining]
        simp
      refine hread.bind ?_
      cases hdispatch : dispatch (d.proto.parse (d.proto.serialize record)) with
      | none =>
        simp only [hdispatch]
        exact hloop'
      | some call =>
        have hcall : Meets (machine d S) (fun t => t = w') (callHandler call) (fun _ t => t = w')
            fun _ t => S.mayThrow ∧ ∃ j u, Mapped d S.kept vols j u t ∧ t.state_ = .REPLAYING := by
          refine (meets_callHandler hreader.log call).weaken (fun _ ht => ht) (fun _ _ ht => ht) ?_
          rintro _ t ⟨hthrow, rfl⟩
          exact ⟨hthrow, i', v', hreader.toMapped, hreader.replaying⟩
        simp only [hdispatch]
        exact hcall.bind fun _ => hloop'

/-- `replay_recorded_stream` goes through the whole log and ends at its last volume, unless the
handler throws. -/
theorem meets_replayRecordedStream {fuel : Nat} (hsize : GoodSize d) (hlog : Log d S.kept vols w)
    (hfilled : ∀ u ∈ vols, u.records ≠ []) (hne : vols ≠ [])
    (hfuel : S.kept → (vols.flatMap Volume.records).length < fuel) (hhandler : d.wrapped_handler_) :
    Meets (machine d S) (fun t => t = w) (replayRecordedStream d fuel)
      (fun _ t => ∃ j u, Mapped d S.kept vols j u t ∧ j + 1 = vols.length ∧ t.state_ = .DUMPING ∧
        t.written = w.written ∧ t.returned = w.returned ++
          (vols.flatMap Volume.records).map fun record => d.proto.parse (d.proto.serialize record))
      fun _ t => S.mayThrow ∧ ∃ j u, Mapped d S.kept vols j u t ∧ t.state_ = .REPLAYING := by
  have hreplaying : Does (machine d S) w (Script.ask (Op.setState .REPLAYING) : Code Unit) ()
      { w with state_ := .REPLAYING } :=
    does_ask hlog nofun fun _ => rfl
  have hlog₁ : Log d S.kept vols { w with state_ := .REPLAYING } := hlog.congr rfl rfl rfl
  have hpos : 0 < vols.length := List.length_pos_iff.mpr hne
  have hfirst : vols[0]? = some vols[0] := List.getElem?_eq_getElem hpos
  obtain ⟨w₂, hopen, hmapped₂, hframe₂⟩ := does_openExistingFile hlog₁ hfirst rfl
  have hreader : Reader d S.kept vols 0 vols[0] [] vols[0].records w₂ :=
    ⟨hmapped₂, rfl, hframe₂.state_, hfilled⟩
  have hremaining : remaining vols 0 vols[0].records = vols.flatMap Volume.records := by
    cases vols with
    | nil => exact absurd rfl hne
    | cons v vols => rfl
  have hloop := meets_replayLoop hsize fuel hreader fun hk => by
    rw [hremaining]
    exact hfuel hk
  unfold replayRecordedStream
  rw [if_pos hhandler]
  refine hreplaying.bind ((does_getFileIdsList hlog₁).bind ?_)
  have hhead : (List.range vols.length).head? = some 0 := by
    rw [List.head?_range, if_neg (Nat.ne_of_gt hpos)]
  simp only [hhead]
  refine hopen.bind (hloop.bind fun _ => .start ?_)
  rintro t ⟨j, u, hmapped, hlast, hwritten, hreturned⟩
  have hdumping : Does (machine d S) t (Script.ask (Op.setState .DUMPING) : Code Unit) ()
      { t with state_ := .DUMPING } :=
    does_ask hmapped.log nofun fun _ => rfl
  refine hdumping.meets ⟨j, u, ⟨hmapped.log.congr rfl rfl rfl, hmapped.volume, hmapped.mapped,
    hmapped.current⟩, hlast, rfl, hwritten.trans hframe₂.written, ?_⟩
  show t.returned = _
  rw [hreturned, hframe₂.returned, hremaining]

end Dumper

end Cgatepp
