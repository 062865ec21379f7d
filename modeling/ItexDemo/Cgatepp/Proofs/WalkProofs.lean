import Mathlib.Order.Filter.AtTopBot.Basic
import ItexDemo.Cgatepp.Bounds

/-!
# Proofs: the walk through the volumes

What a replay reads is a walk from record to record and from volume to volume. It ends, when it ends
after some number of rounds; a volume is left well if it is sound and the volumes behind it are left
well.
-/

namespace Cgatepp

namespace Dumper

open Filter

variable (d : Config) (w : World) (last : Nat)

/-! ## The walk -/

/-- The record at `p` is read, and the loop goes on behind it. -/
structure TakesRecord (loop : Nat → Nat → Prop) (id : Nat) (content : List UInt8) (p : Nat) :
    Prop where
  inside : recordEnd content p ≤ content.length
  handed : Handed d content p → recordEnd content p ≤ headerPosition content
  loop : loop id (recordEnd content p)

/-- The size at `p` is read, and the record or the first one of the next volume is taken. -/
structure ReadsFrom (loop : Nat → Nat → Prop) (id : Nat) (content : List UInt8) (p : Nat) :
    Prop where
  size : p + 2 ≤ content.length
  header : 8 ≤ content.length
  covered : Covered content (recordEnd content p) → TakesRecord d loop id content p
  cut : ¬Covered content (recordEnd content p) → ∀ next content', Follows d w last id next →
    volume d w next = some content' → TakesRecord d loop next content' 8

/-- A round of the loop at `p`. -/
structure ReadsNext (loop : Nat → Nat → Prop) (id : Nat) (content : List UInt8) (p : Nat) :
    Prop where
  header : 8 ≤ content.length
  covered : Covered content (p + 2) → ReadsFrom d w last loop id content p
  whole : ¬Covered content (p + 2) → ∀ next content', Follows d w last id next →
    volume d w next = some content' → ReadsFrom d w last loop next content' 8

/-- Not more rounds than this are needed. -/
def Goes : Nat → Nat → Nat → Prop
  | 0, _, _ => False
  | fuel + 1, id, p => ∀ content, volume d w id = some content →
    ReadsNext d w last (Goes fuel) id content p

/-- The walk ends. -/
def Walks (id p : Nat) : Prop := ∀ᶠ fuel in atTop, Goes d w last fuel id p

variable {d w last} {id p : Nat} {content : List UInt8}

theorem eventually_succ {P : Nat → Prop} :
    (∀ᶠ n in atTop, P (n + 1)) ↔ ∀ᶠ n in atTop, P n := by
  rw [← eventually_map (m := fun n => n + 1), map_add_atTop_eq_nat]

/-- There is one next volume at most. -/
theorem eventually_follows {P : Nat → Nat → List UInt8 → Prop} :
    (∀ᶠ fuel in atTop, ∀ next content', Follows d w last id next →
        volume d w next = some content' → P fuel next content') ↔
      ∀ next content', Follows d w last id next → volume d w next = some content' →
        ∀ᶠ fuel in atTop, P fuel next content' := by
  constructor
  · intro h next content' hfollows hcontent
    exact h.mono fun fuel hfuel => hfuel next content' hfollows hcontent
  · intro h
    by_cases hnext : ∃ next content', Follows d w last id next ∧ volume d w next = some content'
    · obtain ⟨next, content', hfollows, hcontent⟩ := hnext
      refine (h next content' hfollows hcontent).mono fun fuel hfuel => ?_
      intro next₂ content₂ hfollows₂ hcontent₂
      obtain rfl : next₂ = next := hfollows₂.id.trans hfollows.id.symm
      obtain rfl : content₂ = content' := Option.some.inj (hcontent₂.symm.trans hcontent)
      exact hfuel
    · exact Eventually.of_forall fun fuel next content' hfollows hcontent =>
        absurd ⟨next, content', hfollows, hcontent⟩ hnext

theorem eventually_takesRecord :
    (∀ᶠ fuel in atTop, TakesRecord d (Goes d w last fuel) id content p) ↔
      TakesRecord d (Walks d w last) id content p := by
  constructor
  · intro h
    obtain ⟨fuel, hfuel⟩ := h.exists
    exact ⟨hfuel.inside, hfuel.handed, h.mono fun _ hfuel => hfuel.loop⟩
  · rintro ⟨hinside, hhanded, hloop⟩
    exact hloop.mono fun fuel hfuel => ⟨hinside, hhanded, hfuel⟩

theorem eventually_readsFrom :
    (∀ᶠ fuel in atTop, ReadsFrom d w last (Goes d w last fuel) id content p) ↔
      ReadsFrom d w last (Walks d w last) id content p := by
  constructor
  · intro h
    obtain ⟨fuel, hfuel⟩ := h.exists
    refine ⟨hfuel.size, hfuel.header, fun hcov => ?_,
      fun hcut next content' hfollows hcontent => ?_⟩
    · exact eventually_takesRecord.mp (h.mono fun _ hfuel => hfuel.covered hcov)
    · exact eventually_takesRecord.mp
        (h.mono fun _ hfuel => hfuel.cut hcut next content' hfollows hcontent)
  · rintro ⟨hsize, hheader, hcovered, hcut⟩
    have htakes : ∀ᶠ fuel in atTop, Covered content (recordEnd content p) →
        TakesRecord d (Goes d w last fuel) id content p := by
      rw [eventually_imp_distrib_left]
      exact fun hcov => eventually_takesRecord.mpr (hcovered hcov)
    have hnext : ∀ᶠ fuel in atTop, ¬Covered content (recordEnd content p) →
        ∀ next content', Follows d w last id next → volume d w next = some content' →
          TakesRecord d (Goes d w last fuel) next content' 8 := by
      rw [eventually_imp_distrib_left]
      exact fun hcov => eventually_follows.mpr fun next content' hfollows hcontent =>
        eventually_takesRecord.mpr (hcut hcov next content' hfollows hcontent)
    exact (htakes.and hnext).mono fun fuel hfuel => ⟨hsize, hheader, hfuel.1, hfuel.2⟩

theorem goes_succ (hcontent : volume d w id = some content) (fuel : Nat) :
    Goes d w last (fuel + 1) id p ↔ ReadsNext d w last (Goes d w last fuel) id content p := by
  constructor
  · exact fun h => h content hcontent
  · intro h content' hcontent'
    obtain rfl : content = content' := Option.some.inj (hcontent.symm.trans hcontent')
    exact h

/-- A walk ends if it ends behind its first round. -/
theorem walks_iff (hcontent : volume d w id = some content) :
    Walks d w last id p ↔ ReadsNext d w last (Walks d w last) id content p := by
  have hrounds : Walks d w last id p ↔
      ∀ᶠ fuel in atTop, ReadsNext d w last (Goes d w last fuel) id content p := by
    unfold Walks
    rw [← eventually_succ]
    exact eventually_congr (Eventually.of_forall fun fuel => goes_succ hcontent fuel)
  rw [hrounds]
  constructor
  · intro h
    obtain ⟨fuel, hfuel⟩ := h.exists
    refine ⟨hfuel.header, fun hcov => ?_, fun hcov next content' hfollows hcontent' => ?_⟩
    · exact eventually_readsFrom.mp (h.mono fun _ hfuel => hfuel.covered hcov)
    · exact eventually_readsFrom.mp
        (h.mono fun _ hfuel => hfuel.whole hcov next content' hfollows hcontent')
  · rintro ⟨hheader, hcovered, hwhole⟩
    have hfrom : ∀ᶠ fuel in atTop, Covered content (p + 2) →
        ReadsFrom d w last (Goes d w last fuel) id content p := by
      rw [eventually_imp_distrib_left]
      exact fun hcov => eventually_readsFrom.mpr (hcovered hcov)
    have hnext : ∀ᶠ fuel in atTop, ¬Covered content (p + 2) →
        ∀ next content', Follows d w last id next → volume d w next = some content' →
          ReadsFrom d w last (Goes d w last fuel) next content' 8 := by
      rw [eventually_imp_distrib_left]
      exact fun hcov => eventually_follows.mpr fun next content' hfollows hcontent' =>
        eventually_readsFrom.mpr (hwhole hcov next content' hfollows hcontent')
    exact (hfrom.and hnext).mono fun fuel hfuel => ⟨hheader, hfuel.1, hfuel.2⟩

/-! ## The first record -/

theorem sizeAt_lt (content : List UInt8) (p : Nat) : sizeAt content p < 2 ^ 16 := by
  have hlt := Bytes.decode_lt ((content.drop p).take 2)
  have hlen : ((content.drop p).take 2).length ≤ 2 := List.length_take_le _ _
  have hpow : 256 ^ ((content.drop p).take 2).length ≤ 256 ^ 2 :=
    Nat.pow_le_pow_right (by decide) hlen
  unfold sizeAt
  omega

theorem recordEnd_first (content : List UInt8) :
    10 ≤ recordEnd content 8 ∧ recordEnd content 8 < 10 + 2 ^ 16 := by
  have hlt := sizeAt_lt content 8
  unfold recordEnd
  omega

/-- If the first record is covered, then so is its size. -/
theorem FirstCovered.size (h : FirstCovered content) : Covered content (8 + 2) := by
  have hend := recordEnd_first content
  unfold FirstCovered Covered at h
  unfold Covered
  omega

/-- Behind a first record that is not covered nothing is. -/
theorem not_covered_behind (h : ¬FirstCovered content) :
    ¬Covered content (recordEnd content 8 + 2) := by
  have hend := recordEnd_first content
  unfold FirstCovered Covered at h
  unfold Covered
  omega

/-- Then the records end in front of it. -/
theorem boundary_eq (h : ¬FirstCovered content) (hp : Boundary content p) : p = 8 := by
  induction hp with
  | first => rfl
  | next _ _ hcov ih =>
    subst ih
    exact absurd hcov h

theorem recordsInside_bare (h : ¬FirstCovered content) (hlen : 10 ≤ content.length) :
    RecordsInside content where
  header := by omega
  size := fun p hp _ => by
    rw [boundary_eq h hp]
    exact hlen
  record := fun p hp _ hcov => by
    rw [boundary_eq h hp] at hcov
    exact absurd hcov h

variable {loop : Nat → Nat → Prop}

/-- The end of a covered record inside of the file is not behind the stored position. -/
theorem recordEnd_le (hsize : content.length < 2 ^ 64)
    (hinside : recordEnd content p ≤ content.length) (hcov : Covered content (recordEnd content p)) :
    recordEnd content p ≤ headerPosition content := by
  unfold Covered at hcov
  omega

/-! ## In one volume -/

theorem Boundary.walks (hcontent : volume d w id = some content) (h : Walks d w last id 8)
    (hp : Boundary content p) : Walks d w last id p := by
  induction hp with
  | first => exact h
  | next _ hsize hcov ih =>
    exact (((walks_iff hcontent).mp ih).covered hsize |>.covered hcov).loop

variable (d w last) in
/-- The volumes behind the volume `id` are left well. -/
structure Onwards (id : Nat) (whole cut : Prop) : Prop where
  whole : whole → ∀ next content, Follows d w last id next → volume d w next = some content →
    ReadsFrom d w last (Walks d w last) next content 8
  cut : cut → ∀ next content, Follows d w last id next → volume d w next = some content →
    TakesRecord d (Walks d w last) next content 8

/-- From the first record on a volume is left well if its records lie inside. -/
theorem walks_volume (hcontent : volume d w id = some content) (hsize : content.length < 2 ^ 64) :
    Walks d w last id 8 ↔
      RecordsInside content ∧ Onwards d w last id (EndsWhole content) (EndsCut content) := by
  constructor
  · intro h
    have hnext : ∀ p, Boundary content p → ReadsNext d w last (Walks d w last) id content p :=
      fun p hp => (walks_iff hcontent).mp (hp.walks hcontent h)
    refine ⟨⟨(hnext 8 .first).header, fun p hp hcov => ((hnext p hp).covered hcov).size,
      fun p hp hcov hcov' => (((hnext p hp).covered hcov).covered hcov').inside⟩, ?_, ?_⟩
    · rintro ⟨p, hp, hcov⟩
      exact (hnext p hp).whole hcov
    · rintro ⟨p, hp, hcov, hcov'⟩
      exact ((hnext p hp).covered hcov).cut hcov'
  · rintro ⟨hinside, honwards⟩
    -- The rounds get nearer to the end of the file.
    have hwalks : ∀ n p, Boundary content p → content.length - p < n → Walks d w last id p := by
      intro n
      induction n with
      | zero => exact fun p _ hlt => absurd hlt (Nat.not_lt_zero _)
      | succ n ih =>
        intro p hp hlt
        refine (walks_iff hcontent).mpr ⟨hinside.header, fun hcov => ?_, fun hcov => ?_⟩
        · refine ⟨hinside.size p hp hcov, hinside.header, fun hcov' => ?_, fun hcov' => ?_⟩
          · have hend := hinside.record p hp hcov hcov'
            have hlt' : p + 2 ≤ recordEnd content p := Nat.le_add_right _ _
            exact ⟨hend, fun _ => recordEnd_le hsize hend hcov',
              ih _ (.next hp hcov hcov') (by omega)⟩
          · exact honwards.cut ⟨p, hp, hcov, hcov'⟩
        · exact honwards.whole ⟨p, hp, hcov⟩
    exact hwalks _ 8 .first (Nat.lt_succ_self _)

/-- A volume whose first record is covered may be entered without a check of the stored position. -/
theorem walks_iff_readsFrom (hcontent : volume d w id = some content) (h : FirstCovered content) :
    Walks d w last id 8 ↔ ReadsFrom d w last (Walks d w last) id content 8 := by
  rw [walks_iff hcontent]
  exact ⟨fun hnext => hnext.covered h.size,
    fun hfrom => ⟨hfrom.header, fun _ => hfrom, fun hcov => absurd h.size hcov⟩⟩

theorem readsFrom_iff_takesRecord (h : FirstCovered content) :
    ReadsFrom d w last loop id content 8 ↔ TakesRecord d loop id content 8 := by
  have hend := recordEnd_first content
  constructor
  · exact fun hfrom => hfrom.covered h
  · intro htakes
    have hinside := htakes.inside
    exact ⟨by omega, by omega, fun _ => htakes, fun hcov => absurd h hcov⟩

/-! ## From volume to volume -/

variable (d w last) in
/-- The volume is left well after this entry. -/
def Entry.Walks : Entry → Nat → List UInt8 → Prop
  | .first, id, _ => Dumper.Walks d w last id 8
  | .behindWhole, id, content => ReadsFrom d w last (Dumper.Walks d w last) id content 8
  | .behindCut, id, content => TakesRecord d (Dumper.Walks d w last) id content 8

theorem onwards_congr {whole whole' cut cut' : Prop} (hwhole : whole ↔ whole') (hcut : cut ↔ cut') :
    Onwards d w last id whole cut ↔ Onwards d w last id whole' cut' := by
  rw [propext hwhole, propext hcut]

/-- The size of the first record is read without a check. -/
theorem readsFrom_volume (hcontent : volume d w id = some content)
    (hsize : content.length < 2 ^ 64) :
    Entry.behindWhole.Walks d w last id content ↔ Entry.behindWhole.Sound d content ∧
      Onwards d w last id (Entry.behindWhole.LeavesWhole content)
        (Entry.behindWhole.LeavesCut content) := by
  by_cases hfirst : FirstCovered content
  · have honwards : Onwards d w last id (EndsWhole content) (EndsCut content) ↔
        Onwards d w last id (Entry.behindWhole.LeavesWhole content)
          (Entry.behindWhole.LeavesCut content) :=
      onwards_congr (and_iff_right hfirst).symm (or_iff_right (not_not.mpr hfirst)).symm
    have hlen : RecordsInside content → 10 ≤ content.length := fun hinside =>
      hinside.size 8 .first hfirst.size
    show ReadsFrom d w last (Walks d w last) id content 8 ↔ _
    rw [← walks_iff_readsFrom hcontent hfirst, walks_volume hcontent hsize, honwards]
    exact and_congr_left fun _ => ⟨fun hinside => ⟨hinside, hlen hinside⟩, And.left⟩
  · constructor
    · intro h
      exact ⟨⟨recordsInside_bare hfirst h.size, h.size⟩, fun hwhole => absurd hwhole.1 hfirst,
        fun _ => h.cut hfirst⟩
    · rintro ⟨⟨-, hlen⟩, honwards⟩
      exact ⟨hlen, by omega, fun hcov => absurd hcov hfirst, fun _ => honwards.cut (.inl hfirst)⟩

/-- The first record is read without a check. -/
theorem takesRecord_volume (hcontent : volume d w id = some content)
    (hsize : content.length < 2 ^ 64) :
    Entry.behindCut.Walks d w last id content ↔ Entry.behindCut.Sound d content ∧
      Onwards d w last id (Entry.behindCut.LeavesWhole content)
        (Entry.behindCut.LeavesCut content) := by
  have hend := recordEnd_first content
  by_cases hfirst : FirstCovered content
  · have honwards : Onwards d w last id (EndsWhole content) (EndsCut content) ↔
        Onwards d w last id (Entry.behindCut.LeavesWhole content)
          (Entry.behindCut.LeavesCut content) :=
      onwards_congr (or_iff_right (not_not.mpr hfirst)).symm (and_iff_right hfirst).symm
    have hrecord : RecordsInside content → recordEnd content 8 ≤ content.length := fun hinside =>
      hinside.record 8 .first hfirst.size hfirst
    show TakesRecord d (Walks d w last) id content 8 ↔ _
    rw [← readsFrom_iff_takesRecord hfirst, ← walks_iff_readsFrom hcontent hfirst,
      walks_volume hcontent hsize, honwards]
    exact and_congr_left fun _ => ⟨fun hinside =>
      ⟨hinside, hrecord hinside, fun _ => recordEnd_le hsize (hrecord hinside) hfirst⟩, And.left⟩
  · have hbehind := not_covered_behind hfirst
    constructor
    · intro h
      have hnext := (walks_iff hcontent).mp h.loop
      have hinside := h.inside
      exact ⟨⟨recordsInside_bare hfirst (by omega), hinside, h.handed⟩,
        fun _ => hnext.whole hbehind, fun hcut => absurd hcut.1 hfirst⟩
    · rintro ⟨⟨hinside, hlen, hhanded⟩, honwards⟩
      refine ⟨hlen, hhanded, (walks_iff hcontent).mpr ⟨hinside.header, fun hcov => ?_, fun _ => ?_⟩⟩
      · exact absurd hcov hbehind
      · exact honwards.whole (.inl hfirst)

/-- **Step.** A volume is left well if it is sound and the volumes behind it are left well. -/
theorem Entry.walks_iff {entry : Entry} (hcontent : volume d w id = some content)
    (hsize : content.length < 2 ^ 64) :
    entry.Walks d w last id content ↔ entry.Sound d content ∧
      Onwards d w last id (entry.LeavesWhole content) (entry.LeavesCut content) := by
  cases entry with
  | first => exact walks_volume hcontent hsize
  | behindWhole => exact readsFrom_volume hcontent hsize
  | behindCut => exact takesRecord_volume hcontent hsize

/-! ## All volumes -/

variable {first : Nat}

theorem OfSize.lt (h : OfSize d w) (hcontent : volume d w id = some content) :
    content.length < 2 ^ 64 :=
  (h.length id content hcontent).trans_lt h.bound

/-- A walk that ends has left all volumes well. -/
theorem Visited.walks (hsizes : OfSize d w) (hfirst : Walks d w last first 8) {entry : Entry}
    (hvisited : Visited d w first last entry id) (hcontent : volume d w id = some content) :
    entry.Walks d w last id content := by
  induction hvisited generalizing content with
  | first => exact hfirst
  | whole _ hbefore hleaves hfollows ih =>
    have honwards := ((Entry.walks_iff hbefore (hsizes.lt hbefore)).mp (ih hbefore)).2
    exact honwards.whole hleaves _ _ hfollows hcontent
  | cut _ hbefore hleaves hfollows ih =>
    have honwards := ((Entry.walks_iff hbefore (hsizes.lt hbefore)).mp (ih hbefore)).2
    exact honwards.cut hleaves _ _ hfollows hcontent

theorem exists_follows (hall : ∀ id < 2 ^ 64, id ≤ last ∧ volume d w id ≠ none) (id : Nat) :
    ∃ next content, next < 2 ^ 64 ∧ Follows d w last id next ∧ volume d w next = some content := by
  have hlt : (id + 1) % 2 ^ 64 < 2 ^ 64 := Nat.mod_lt _ (by decide)
  obtain ⟨hlast, hvolume⟩ := hall _ hlt
  obtain ⟨content, hcontent⟩ := Option.ne_none_iff_exists'.mp hvolume
  exact ⟨_, content, hlt, ⟨rfl, hlast, Option.isSome_iff_ne_none.mpr hvolume⟩, hcontent⟩

/-- When all ids have a volume, the walk goes round and round. -/
theorem not_goes (hall : ∀ id < 2 ^ 64, id ≤ last ∧ volume d w id ≠ none) (fuel : Nat) {id p : Nat}
    (hid : id < 2 ^ 64) : ¬Goes d w last fuel id p := by
  induction fuel generalizing id p with
  | zero => exact not_false
  | succ fuel ih =>
    intro h
    have htakes : ∀ {id content p}, id < 2 ^ 64 →
        ¬TakesRecord d (Goes d w last fuel) id content p := fun hid htakes => ih hid htakes.loop
    have hfrom : ∀ {id content p}, id < 2 ^ 64 →
        ¬ReadsFrom d w last (Goes d w last fuel) id content p := by
      intro id content p hid hfrom
      obtain ⟨next, content', hlt, hfollows, hcontent'⟩ := exists_follows hall id
      by_cases hcov : Covered content (recordEnd content p)
      · exact htakes hid (hfrom.covered hcov)
      · exact htakes hlt (hfrom.cut hcov next content' hfollows hcontent')
    obtain ⟨content, hcontent⟩ := Option.ne_none_iff_exists'.mp (hall id hid).2
    obtain ⟨next, content', hlt, hfollows, hcontent'⟩ := exists_follows hall id
    have hnext := h content hcontent
    by_cases hcov : Covered content (p + 2)
    · exact hfrom hid (hnext.covered hcov)
    · exact hfrom hlt (hnext.whole hcov next content' hfollows hcontent')

/-- How many volumes can follow before the id `stop` would be next. -/
def distance (stop id : Nat) : Nat := (stop + 2 ^ 64 - 1 - id) % 2 ^ 64

theorem Follows.lt {next : Nat} (h : Follows d w last id next) : next < 2 ^ 64 := by
  rw [h.id]
  exact Nat.mod_lt _ (by decide)

theorem distance_follows {next stop : Nat} (h : Follows d w last id next) (hid : id < 2 ^ 64)
    (hstop : stop < 2 ^ 64) (hne : last < stop ∨ volume d w stop = none) :
    distance stop next < distance stop id := by
  have hnext := h.id
  have hne' : next ≠ stop := by
    rintro rfl
    rcases hne with hlt | hnone
    · exact absurd h.last (Nat.not_le.mpr hlt)
    · have hsome := h.volume
      rw [hnone] at hsome
      cases hsome
  unfold distance
  omega

/-- Sound volumes are left well. -/
theorem SoundVolumes.walks (hsizes : OfSize d w) (h : SoundVolumes d w first last) {entry : Entry}
    (hid : id < 2 ^ 64) (hvisited : Visited d w first last entry id)
    (hcontent : volume d w id = some content) : entry.Walks d w last id content := by
  obtain ⟨stop, hstop, hne⟩ := h.stops
  -- The walk gets nearer to the id that stops it.
  have hwalks : ∀ n entry id content, distance stop id < n → id < 2 ^ 64 →
      Visited d w first last entry id → volume d w id = some content →
        entry.Walks d w last id content := by
    intro n
    induction n with
    | zero => exact fun _ _ _ hlt => absurd hlt (Nat.not_lt_zero _)
    | succ n ih =>
      intro entry id content hlt hid hvisited hcontent
      have hsound := h.sound entry id content hvisited hcontent
      refine (Entry.walks_iff hcontent (hsizes.lt hcontent)).mpr ⟨hsound, ?_, ?_⟩
      · intro hleaves next content' hfollows hcontent'
        have hnear := distance_follows hfollows hid hstop hne
        exact ih .behindWhole next content' (by omega) hfollows.lt
          (.whole hvisited hcontent hleaves hfollows) hcontent'
      · intro hleaves next content' hfollows hcontent'
        have hnear := distance_follows hfollows hid hstop hne
        exact ih .behindCut next content' (by omega) hfollows.lt
          (.cut hvisited hcontent hleaves hfollows) hcontent'
  exact hwalks _ entry id content (Nat.lt_succ_self _) hid hvisited hcontent

/-- **Run.** The walk from the first volume on ends if and only if the volumes are sound. -/
theorem walks_iff_soundVolumes (hsizes : OfSize d w) (hfirst : first < 2 ^ 64) :
    Walks d w last first 8 ↔ SoundVolumes d w first last := by
  constructor
  · intro h
    refine ⟨fun entry id content hvisited hcontent => ?_, ?_⟩
    · have hwalks := hvisited.walks hsizes h hcontent
      exact ((Entry.walks_iff hcontent (hsizes.lt hcontent)).mp hwalks).1
    · by_contra hnot
      push Not at hnot
      obtain ⟨fuel, hfuel⟩ := h.exists
      exact not_goes hnot fuel hfirst hfuel
  · intro h
    cases hcontent : volume d w first with
    | none =>
      refine eventually_succ.mp (Eventually.of_forall fun fuel content hsome => ?_)
      rw [hcontent] at hsome
      cases hsome
    | some content => exact h.walks hsizes hfirst .first hcontent

end Dumper

end Cgatepp
