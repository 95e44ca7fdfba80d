import DayWeave.Recurrence.Buckets

/-!
The members of rules that follow an anchor in steps of minutes.

The expansion looks for the index whose natural interval contains the start of the horizon
(`FirstIndex`), and returns one member after the other up to its end (`RollingRule.mem_expand`).
Members before the first index are never returned, even if the minimum spacing keeps them open.
-/

namespace DayWeave

open Duration (minute minutes wholeMinutes wholeSeconds)
open List

open Except (bind_eq_ok)

open OffsetDateTime (le_def lt_def nanos_later nanos_of_checkedAdd not_le_iff not_lt_iff)

variable {env : Externals} {request : PlanRequest} {item : WorkItem} {index index' : Int}
  {instant : Int → Option OffsetDateTime} {anchor t : OffsetDateTime} {target : UInt16} {period : ℕ}
  {l : List Occurrence}

/-- A rule that follows an anchor: the instants at which its occurrences start and
naturally end. Later occurrences start later, and not before the natural end of an
earlier one. -/
structure RollingRule where
  anchor : OffsetDateTime
  keyStem : String
  instant : Int → Option OffsetDateTime
  naturalEnd : OffsetDateTime → Int → Option OffsetDateTime
  instant_lt : ∀ {i j : Int} {a b : OffsetDateTime}, 0 ≤ i → i < j → instant i = some a →
    instant j = some b → a < b
  natural_le : ∀ {i j : Int} {a b e : OffsetDateTime}, 0 ≤ i → i < j → instant i = some a →
    naturalEnd a (i + 1) = some e → instant j = some b → e ≤ b
  le_natural : ∀ {i : Int} {a b e : OffsetDateTime}, 0 ≤ i → instant i = some a →
    naturalEnd a (i + 1) = some e → instant (i + 1) = some b → b ≤ e
  lt_natural : ∀ {i : Int} {a e : OffsetDateTime}, 0 ≤ i → instant i = some a →
    naturalEnd a (i + 1) = some e → a < e

namespace RollingRule

variable (rule : RollingRule) (spacing : Minutes)

/-- The member with the given index, if its instants are representable. -/
def member (index : Int) : Option Member := do
  let start ← rule.instant index
  let natural ← rule.naturalEnd start (index + 1)
  let finish ← occurrenceEndWithSpacing start natural spacing
  some ⟨rule.keyStem ++ toString index, .rollingMinutes index rule.anchor, ⟨start, finish⟩, none⟩

variable {rule spacing} {m : Member}

lemma member_eq_some : rule.member spacing index = some m ↔
    ∃ start natural finish, rule.instant index = some start ∧
      rule.naturalEnd start (index + 1) = some natural ∧
      occurrenceEndWithSpacing start natural spacing = some finish ∧
      m = ⟨rule.keyStem ++ toString index, .rollingMinutes index rule.anchor, ⟨start, finish⟩,
        none⟩ := by
  simp [member, Option.bind_eq_some_iff, eq_comm (a := m)]

lemma natural_le_finish {start natural finish : OffsetDateTime}
    (h : occurrenceEndWithSpacing start natural spacing = some finish) : natural ≤ finish := by
  obtain ⟨spacingEnd, -, rfl⟩ := Option.map_eq_some_iff.mp h
  rw [le_def, nanos_later]
  exact le_max_left _ _

lemma start_lt_finish (hidx : 0 ≤ index) (h : rule.member spacing index = some m) :
    m.nominal.start < m.nominal.finish := by
  obtain ⟨start, natural, finish, hst, hnat, hfin, rfl⟩ := member_eq_some.mp h
  exact (rule.lt_natural hidx hst hnat).trans_le (natural_le_finish hfin)

lemma identity_of_member (h : rule.member spacing index = some m) :
    m.identity = .rollingMinutes index rule.anchor := by
  obtain ⟨start, natural, finish, -, -, -, rfl⟩ := member_eq_some.mp h
  rfl

end RollingRule

/-! ### The first index -/

/-- The index at which the expansion starts: its natural interval contains the start of
the horizon, unless it is the first of all. -/
structure FirstIndex (rule : RollingRule) (request : PlanRequest) (index : Int) : Prop where
  nonneg : 0 ≤ index
  reached : index = 0 ∨ ∃ start, rule.instant index = some start ∧ start ≤ request.horizonStart
  next : ∃ start, rule.instant (index + 1) = some start ∧ request.horizonStart < start

section

lemma nextIndex_eq_ok {next : Int} :
    nextIndex index = .ok next ↔ index < maxIndex ∧ next = index + 1 := by
  rw [nextIndex, Except.ite_eq_ok, Except.ok.injEq, eq_comm]

lemma inRange_eq_ok {α : Type} {x : Option α} {a : α} : inRange x = .ok a ↔ x = some a := by
  cases x <;> simp [inRange]

lemma advanceStep_eq_some (h : advanceStep request instant index = .ok (some index')) :
    index < maxIndex ∧ index' = index + 1 ∧
      ∃ start, instant (index + 1) = some start ∧ start ≤ request.horizonStart := by
  simp only [advanceStep, bind_eq_ok, nextIndex_eq_ok, inRange_eq_ok] at h
  obtain ⟨_, ⟨hlt, rfl⟩, start, hst, h⟩ := h
  split_ifs at h with hbehind <;> cases h
  exact ⟨hlt, rfl, start, hst, not_lt_iff.mp hbehind⟩

lemma advanceStep_eq_none (h : advanceStep request instant index = .ok none) :
    ∃ start, instant (index + 1) = some start ∧ request.horizonStart < start := by
  simp only [advanceStep, bind_eq_ok, nextIndex_eq_ok, inRange_eq_ok] at h
  obtain ⟨_, ⟨-, rfl⟩, start, hst, h⟩ := h
  split_ifs at h with hbehind
  · exact ⟨start, hst, hbehind⟩
  · cases h

/-- The search for the first index, from an index that is not too large. -/
lemma firstIndex_of_advance {rule : RollingRule} {first : Int} (hfst : 0 ≤ first)
    (hrch : first = 0 ∨ ∀ next, rule.instant (first + 1) = some next →
      ∃ start, rule.instant first = some start ∧ start ≤ request.horizonStart)
    (h : Loop.runE (advanceStep request rule.instant) (maxIndex.toNat + 1) first = .ok index) :
    FirstIndex rule request index := by
  have hstop := Loop.runE_stops _ (μ := fun index => (maxIndex - index).toNat) ?_ ?_ h
  · have hnext := advanceStep_eq_none hstop
    obtain ⟨hnn, hmoved⟩ := Loop.runE_invariant _ (P := fun index => 0 ≤ index ∧ (index = first ∨
        ∃ start, rule.instant index = some start ∧ start ≤ request.horizonStart))
      (fun s s' hs hi => by
        obtain ⟨-, rfl, hst⟩ := advanceStep_eq_some hs
        exact ⟨by omega, .inr hst⟩) h ⟨hfst, .inl rfl⟩
    refine ⟨hnn, ?_, hnext⟩
    rcases hmoved with rfl | hmoved
    · obtain ⟨next, hnext, -⟩ := hnext
      exact hrch.imp_right fun hrch => hrch next hnext
    · exact .inr hmoved
  · intro s s' hs
    obtain ⟨hlt, rfl, -⟩ := advanceStep_eq_some hs
    omega
  · simp only [maxIndex]
    omega

end

/-! ### One member after the other -/

namespace RollingRule

variable {rule : RollingRule} {spacing : Minutes} {s s' : Int × List Occurrence}

/-- What holds in every round of the expansion from an index on. -/
structure Expanded (env : Externals) (request : PlanRequest) (item : WorkItem) (rule : RollingRule)
    (spacing : Minutes) (index : Int) (s : Int × List Occurrence) : Prop where
  reached : s.1 = index + s.2.length
  occurrences : s.2 = (List.range s.2.length).filterMap fun i : ℕ =>
    (rule.member spacing (index + i)).map (Member.occurrence env request item.id)
  members : ∀ i < s.2.length, ∃ m, rule.member spacing (index + i) = some m ∧
    m.nominal.start < request.horizonEnd

lemma rollingStep_eq_some
    (h : rollingStep env request item rule.anchor spacing rule.keyStem rule.instant rule.naturalEnd
      s = .ok (some s')) : s.1 ≤ 4294967295 ∧ ∃ m, rule.member spacing s.1 = some m ∧
      m.nominal.start < request.horizonEnd ∧
      s' = (s.1 + 1, s.2 ++ [m.occurrence env request item.id]) := by
  obtain ⟨start, hst, h⟩ := bind_eq_ok.mp h
  split_ifs at h with hend hidx
  · cases h
  simp only [bind_eq_ok, nextIndex_eq_ok, inRange_eq_ok] at hst h
  obtain ⟨_, ⟨-, rfl⟩, natural, hnat, finish, hfin, h⟩ := h
  cases h
  exact ⟨by omega, _, member_eq_some.mpr ⟨start, natural, finish, hst, hnat, hfin, rfl⟩,
    not_le_iff.mp hend, rfl⟩

lemma rollingStep_eq_none
    (h : rollingStep env request item rule.anchor spacing rule.keyStem rule.instant rule.naturalEnd
      s = .ok none) : ∃ start, rule.instant s.1 = some start ∧ request.horizonEnd ≤ start := by
  obtain ⟨start, hst, h⟩ := bind_eq_ok.mp h
  split_ifs at h with hend
  · exact ⟨start, inRange_eq_ok.mp hst, hend⟩
  · simp at h

lemma Expanded.step (hs : Expanded env request item rule spacing index s)
    (h : rollingStep env request item rule.anchor spacing rule.keyStem rule.instant rule.naturalEnd
      s = .ok (some s')) : Expanded env request item rule spacing index s' := by
  obtain ⟨-, m, hm, hend, rfl⟩ := rollingStep_eq_some h
  have hrch := hs.reached
  rw [hrch] at hm
  refine ⟨?_, ?_, fun i hi => ?_⟩
  · simp only [length_append, length_singleton]
    omega
  · simp only [length_append, length_singleton, range_succ, filterMap_append]
    rw [← hs.occurrences]
    simp [hm]
  · simp only [length_append, length_singleton] at hi
    by_cases hlast : i = s.2.length
    · rw [hlast]
      exact ⟨m, hm, hend⟩
    · exact hs.members i (by omega)

lemma Expanded.nodup (hs : Expanded env request item rule spacing index s) :
    (s.2.map (·.identity)).Nodup := by
  rw [hs.occurrences, List.Nodup, pairwise_map, pairwise_filterMap]
  refine nodup_range.imp fun {i j} hij o ho o' ho' heq => hij ?_
  obtain ⟨m, hm, rfl⟩ := Option.map_eq_some_iff.mp ho
  obtain ⟨m', hm', rfl⟩ := Option.map_eq_some_iff.mp ho'
  have heq : m.identity = m'.identity := heq
  rw [identity_of_member hm, identity_of_member hm'] at heq
  have := (RecurrenceOccurrenceIdentity.rollingMinutes.inj heq).1
  omega

/-- **The expansion of a rolling rule** from an index on returns the members from that
index on that start before the end of the horizon, each of them once. -/
theorem mem_expand (hidx : 0 ≤ index) {final : Int × List Occurrence}
    (h : Loop.runE (rollingStep env request item rule.anchor spacing rule.keyStem rule.instant
      rule.naturalEnd) (maxIndex.toNat + 1) (index, []) = .ok final) :
    Expanded env request item rule spacing index final ∧
      ∀ o, o ∈ final.2 ↔ ∃ k m, index ≤ k ∧ rule.member spacing k = some m ∧
        m.nominal.start < request.horizonEnd ∧ o = m.occurrence env request item.id := by
  have hfnl : Expanded env request item rule spacing index final :=
    Loop.runE_invariant _ (fun s s' hs hi => hi.step hs) h ⟨by simp, rfl, fun i hi => (nomatch hi)⟩
  have hstop := Loop.runE_stops _ (μ := fun s => (4294967296 - s.1).toNat) ?_ ?_ h
  · obtain ⟨last, hlast, hend⟩ := rollingStep_eq_none hstop
    refine ⟨hfnl, fun o => ⟨fun ho => ?_, ?_⟩⟩
    · rw [hfnl.occurrences] at ho
      obtain ⟨i, hi, ho⟩ := mem_filterMap.mp ho
      obtain ⟨m, hm, rfl⟩ := Option.map_eq_some_iff.mp ho
      obtain ⟨m', hm', hst⟩ := hfnl.members i (mem_range.mp hi)
      cases hm.symm.trans hm'
      exact ⟨index + i, m, by omega, hm, hst, rfl⟩
    · rintro ⟨k, m, hk, hm, hst, rfl⟩
      -- the loop stops at an instant after the horizon
      have hlt : k < final.1 := by
        obtain ⟨start, natural, finish, hinst, -, -, rfl⟩ := member_eq_some.mp hm
        by_contra hge
        rcases Int.lt_or_eq_of_le (Int.not_lt.mp hge) with hgt | heq
        · have hfinalPos : 0 ≤ final.1 := by
            have := hfnl.reached
            omega
          have := rule.instant_lt hfinalPos hgt hlast hinst
          exact absurd (hend.trans this.le) (not_le_of_gt hst)
        · rw [← heq, hlast] at hinst
          cases hinst
          exact absurd hend (not_le_of_gt hst)
      rw [hfnl.occurrences, mem_filterMap]
      have hrch := hfnl.reached
      refine ⟨(k - index).toNat, mem_range.mpr (by omega), ?_⟩
      rw [show index + ((k - index).toNat : Int) = k by omega, hm]
      rfl
  · intro s s' hs
    obtain ⟨hle, m, -, -, rfl⟩ := rollingStep_eq_some hs
    omega
  · simp only [maxIndex]
    omega

end RollingRule

/-! ### Rules with a fixed interval -/

lemma rollingInstant_eq_some {interval : Duration} :
    rollingInstant anchor interval index = some t ↔ (-2147483648 ≤ index ∧ index ≤ 2147483647) ∧
      (-9223372036854775808 ≤ wholeSeconds (interval * index) ∧
        wholeSeconds (interval * index) ≤ 9223372036854775807) ∧
      anchor.checkedAdd (interval * index) = some t := by
  simp [rollingInstant, Duration.checkedMul, Option.bind_eq_some_iff, and_assoc]

lemma nanos_of_rollingInstant {interval : Duration}
    (h : rollingInstant anchor interval index = some t) :
    t.nanos = anchor.nanos + interval * index :=
  nanos_of_checkedAdd (rollingInstant_eq_some.mp h).2.2

/-- The rule that repeats at a fixed interval. -/
def intervalRule (anchor : OffsetDateTime) (interval : Minutes) (h : interval ≠ 0) :
    RollingRule where
  anchor := anchor
  keyStem := "interval:" ++ toString anchor.nanos ++ ":" ++ toString interval.toNat ++ ":"
  instant := rollingInstant anchor interval.toDuration
  naturalEnd start _ := start.checkedAdd interval.toDuration
  instant_lt _ hij ha hb := by
    have ha := nanos_of_rollingInstant ha
    have hb := nanos_of_rollingInstant hb
    have := Int.mul_lt_mul_of_pos_left hij (Minutes.toDuration_pos h)
    rw [lt_def]
    omega
  natural_le {i j a b e} _ hij ha he hb := by
    have ha := nanos_of_rollingInstant ha
    have hb := nanos_of_rollingInstant hb
    have he := nanos_of_checkedAdd he
    have := Int.mul_le_mul_of_nonneg_left (show i + 1 ≤ j from hij) (Minutes.toDuration_pos h).le
    rw [Int.mul_add, Int.mul_one] at this
    rw [le_def]
    omega
  le_natural {i a b e} _ ha he hb := by
    have ha := nanos_of_rollingInstant ha
    have hb := nanos_of_rollingInstant hb
    have he := nanos_of_checkedAdd he
    rw [Int.mul_add, Int.mul_one] at hb
    rw [le_def]
    omega
  lt_natural {i a e} _ ha he := by
    have hpos := Minutes.toDuration_pos h
    have he := nanos_of_checkedAdd he
    rw [lt_def]
    omega

section

variable {interval spacing : Minutes}

/-- An earlier index of an interval rule is representable. -/
lemma exists_rollingInstant (hidx : 0 ≤ index) {next : OffsetDateTime}
    (h : rollingInstant anchor interval.toDuration (index + 1) = some next) :
    ∃ start, rollingInstant anchor interval.toDuration index = some start ∧
      start.nanos = anchor.nanos + interval.toDuration * index := by
  obtain ⟨hrng, hsecs, hadd⟩ := rollingInstant_eq_some.mp h
  have hnn := Minutes.toDuration_nonneg interval
  have hprod := Int.mul_nonneg hnn hidx
  have hle : interval.toDuration * index ≤ interval.toDuration * (index + 1) :=
    Int.mul_le_mul_of_nonneg_left (by omega) hnn
  obtain ⟨start, hst, hns⟩ :=
    OffsetDateTime.exists_checkedAdd_of_checkedAdd hadd hprod hle
  exact ⟨start, rollingInstant_eq_some.mpr ⟨⟨by omega, by omega⟩,
    Duration.wholeSeconds_mem hprod hle hsecs.2, hst⟩, hns⟩

/-- The expansion of an interval rule starts at the index that contains the start of the
horizon. -/
lemma expandRollingMinutes_spec (h : interval ≠ 0)
    (hrun : expandRollingMinutes env request item anchor interval spacing = .ok l) :
    ∃ index final, FirstIndex (intervalRule anchor interval h) request index ∧ final.2 = l ∧
      Loop.runE (rollingStep env request item anchor spacing
      (intervalRule anchor interval h).keyStem
        (intervalRule anchor interval h).instant (intervalRule anchor interval h).naturalEnd)
        (maxIndex.toNat + 1) (index, []) = .ok final := by
  simp only [expandRollingMinutes, if_neg h, bind_eq_ok] at hrun
  obtain ⟨index, hidx, final, hfnl, hrun⟩ := hrun
  refine ⟨index, final, firstIndex_of_advance (le_max_right _ _) ?_ hidx, Except.ok.inj hrun, hfnl⟩
  rcases Int.lt_or_le 0 (wholeMinutes (request.horizonStart.since anchor) / interval.toNat)
    with hpos | hzero
  · refine .inr fun next hnext => ?_
    rw [max_eq_left hpos.le] at hnext ⊢
    obtain ⟨start, hst, hns⟩ := exists_rollingInstant hpos.le hnext
    refine ⟨start, hst, ?_⟩
    rw [le_def, hns]
    -- whole minutes since the anchor, rounded down to a multiple of the interval
    have hint : (0 : Int) < interval.toNat := by
      have := Minutes.toNat_pos h
      omega
    generalize hidx : wholeMinutes (request.horizonStart.since anchor) /
      (interval.toNat : Int) = i at hpos ⊢
    have hfloor : i * interval.toNat ≤ wholeMinutes (request.horizonStart.since anchor) := by
      rw [← hidx]
      exact Int.ediv_mul_le _ hint.ne'
    have hprod := Int.mul_pos hpos hint
    have help : wholeMinutes (request.horizonStart.since anchor) * minute ≤
        request.horizonStart.nanos - anchor.nanos :=
      Duration.wholeMinutes_mul_le (by omega)
    have hscaled : interval.toDuration * i = i * interval.toNat * minute := by
      rw [Minutes.toDuration_eq, Int.mul_right_comm, Int.mul_comm i]
    rw [hscaled]
    simp only [minute] at help ⊢
    omega
  · exact .inl (max_eq_right hzero)

end

/-! ### Rolling frequencies -/

/-- The minutes from the anchor to an occurrence: the period is cut into equal parts,
rounded down to whole minutes. -/
lemma frequencyOffset_eq {target : Int} (h : 0 < target) (period index : Int) :
    index / target * period + index % target * period / target = index * period / target := by
  have hspl : index * period = index % target * period + index / target * period * target := by
    conv_lhs => rw [← Int.emod_add_ediv_mul index target]
    rw [Int.add_mul, Int.mul_right_comm (index / target)]
  rw [hspl, Int.add_mul_ediv_right _ _ h.ne', Int.add_comm]

lemma toNat_pos_of_ne_zero (h : target ≠ 0) : (0 : Int) < target.toNat := by
  have := Nat.pos_of_ne_zero fun h0 => h (UInt16.toNat_inj.mp h0)
  omega

lemma rollingFrequencyInstant_eq_some :
    rollingFrequencyInstant anchor target period index = some t ↔
      0 ≤ index ∧ target ≠ 0 ∧ index * period / target.toNat ≤ maxIndex ∧
      anchor.checkedAdd (minutes (index * period / target.toNat)) = some t := by
  simp only [rollingFrequencyInstant, Option.ite_none_left_eq_some, Option.ite_none_right_eq_some,
    not_or, Int.not_lt, and_assoc]
  refine and_congr_right fun _ => and_congr_right fun htgt => ?_
  rw [frequencyOffset_eq (toNat_pos_of_ne_zero htgt)]

/-- Later indices lie at least a minute later, if there are no more occurrences than
minutes. -/
lemma frequencyOffset_lt {target period i j : Int} (htgt : 0 < target) (hperiod : target ≤ period)
    (hij : i < j) : i * period / target < j * period / target := by
  have hstep : i * period + target ≤ j * period := by
    have := Int.mul_le_mul_of_nonneg_right hij (show 0 ≤ period by omega)
    rw [Int.add_mul, Int.one_mul] at this
    omega
  have := Int.ediv_le_ediv htgt hstep
  rw [Int.add_ediv_of_dvd_right ⟨1, (Int.mul_one _).symm⟩, Int.ediv_self htgt.ne'] at this
  omega

lemma frequency_instant_lt {a b : OffsetDateTime} {i j : Int}
    (h : target ≠ 0 ∧ target.toNat ≤ period) (hij : i < j)
    (ha : rollingFrequencyInstant anchor target period i = some a)
    (hb : rollingFrequencyInstant anchor target period j = some b) : a < b := by
  have ha := nanos_of_checkedAdd (rollingFrequencyInstant_eq_some.mp ha).2.2.2
  have hb := nanos_of_checkedAdd (rollingFrequencyInstant_eq_some.mp hb).2.2.2
  have := frequencyOffset_lt (toNat_pos_of_ne_zero h.1)
    (show (target.toNat : Int) ≤ period by omega) hij
  rw [lt_def, ha, hb]
  simp only [minutes, minute]
  omega

/-- The rule that spreads a number of occurrences over every period of minutes. -/
def frequencyRule (anchor : OffsetDateTime) (target : UInt16) (period : ℕ) (label : String)
    (h : target ≠ 0 ∧ target.toNat ≤ period) : RollingRule where
  anchor := anchor
  keyStem := label ++ ":" ++ toString anchor.nanos ++ ":" ++ toString target.toNat ++ ":" ++
    toString period ++ ":"
  instant := rollingFrequencyInstant anchor target period
  naturalEnd _ next := rollingFrequencyInstant anchor target period next
  instant_lt _ hij ha hb := frequency_instant_lt h hij ha hb
  natural_le {i j a b e} _ hij _ he hb := by
    rcases Int.lt_or_eq_of_le (show i + 1 ≤ j from hij) with hlt | rfl
    · exact (frequency_instant_lt h hlt he hb).le
    · cases he.symm.trans hb
      exact le_refl _
  le_natural _ _ he hb := by
    cases he.symm.trans hb
    exact le_refl _
  lt_natural {i a e} _ ha he := frequency_instant_lt h (Int.lt_succ i) ha he

section

variable {spacing : Minutes} {label : String}

lemma retreatStep_eq_some (h : retreatStep request instant index = .ok (some index')) :
    0 < index ∧ index' = index - 1 := by
  unfold retreatStep at h
  split_ifs at h with hpos
  · obtain ⟨start, -, h⟩ := bind_eq_ok.mp h
    split_ifs at h <;> cases h
    exact ⟨hpos, rfl⟩
  · cases h

lemma retreatStep_eq_none (h : retreatStep request instant index = .ok none) :
    index ≤ 0 ∨ ∃ start, instant index = some start ∧ start ≤ request.horizonStart := by
  unfold retreatStep at h
  split_ifs at h with hpos
  · obtain ⟨start, hst, h⟩ := bind_eq_ok.mp h
    split_ifs at h with hbehind
    · cases h
    exact .inr ⟨start, inRange_eq_ok.mp hst, not_lt_iff.mp hbehind⟩
  · exact .inl (Int.not_lt.mp hpos)

/-- The expansion of a rolling frequency starts at the index that contains the start of
the horizon. -/
lemma expandRollingFrequency_spec (h : target ≠ 0 ∧ target.toNat ≤ period)
    (hrun : expandRollingFrequency env request item anchor target period spacing label = .ok l) :
    ∃ index final, FirstIndex (frequencyRule anchor target period label h) request index ∧
      final.2 = l ∧
      Loop.runE (rollingStep env request item anchor spacing
        (frequencyRule anchor target period label h).keyStem
        (frequencyRule anchor target period label h).instant
        (frequencyRule anchor target period label h).naturalEnd)
        (maxIndex.toNat + 1) (index, []) = .ok final := by
  rw [expandRollingFrequency, if_neg (by rw [not_or, Nat.not_lt]; exact h)] at hrun
  simp only [bind_eq_ok] at hrun
  obtain ⟨lower, hlow', index, hidx, final, hfnl, hrun⟩ := hrun
  generalize hest : max (wholeMinutes (request.horizonStart.since anchor)) 0 *
    (target.toNat : Int) / (period : Int) = estimate at hlow'
  have hnn : 0 ≤ estimate := by
    rw [← hest]
    exact Int.ediv_nonneg (Int.mul_nonneg (le_max_right _ _) (Int.natCast_nonneg _))
      (Int.natCast_nonneg _)
  have hlowerNonneg : 0 ≤ lower := Loop.runE_invariant _
    (fun s s' hs hi => by
      obtain ⟨hpos, rfl⟩ := retreatStep_eq_some hs
      omega) hlow' hnn
  have hstop := Loop.runE_stops _ (μ := fun index => index.toNat) (fun s s' hs => by
    obtain ⟨hpos, rfl⟩ := retreatStep_eq_some hs
    omega) (by omega) hlow'
  refine ⟨index, final, firstIndex_of_advance hlowerNonneg ?_ hidx, Except.ok.inj hrun, hfnl⟩
  rcases retreatStep_eq_none hstop with hzero | hrch
  · exact .inl (by omega)
  · exact .inr fun _ _ => hrch

end

end DayWeave
