import DayWeave.Lib.Text
import DayWeave.Recurrence.Destinations

/-!
Occurrences in different horizons.

The identifier of an occurrence is derived from its name, and the name follows from the rule and
the identity (`SeriesMember.key_eq`). Names determine identities (`SeriesMember.identity_eq`), and
where no local days are given, the identity determines what does not depend on the horizon
(`SeriesMember.eq_of_identity_eq`). So two requests that differ in their horizons agree on the
occurrences that both show (`occurrence_stable`).
-/

open List Std

namespace DayWeave

open Option (bind_eq_some_iff ite_none_right_eq_some map_eq_some_iff)

/-! ### Texts of dates -/

lemma padDecimal_inj {i j m n : ℕ} (h : padDecimal i m = padDecimal j n) : m = n :=
  Text.zeros_append_inj h

lemma notMem_padDecimal {c : Char} (hc : c.isDigit = false) (width n : ℕ) :
    c ∉ (padDecimal width n).toList :=
  Text.notMem_zeros_append hc _ n

/-- A padded number after a minus is not a padded number. -/
lemma padDecimal_ne_minus (i j m n : ℕ) : padDecimal i m ≠ "-" ++ padDecimal j n := by
  intro h
  refine notMem_padDecimal (show '-'.isDigit = false by decide) i m ?_
  rw [h, String.toList_append]
  exact mem_append_left _ (mem_singleton_self _)

lemma signedText_inj {i j : ℕ} {a b : ℤ}
    (h : (if a < 0 then "-" ++ padDecimal i a.natAbs else padDecimal j a.natAbs) =
      if b < 0 then "-" ++ padDecimal i b.natAbs else padDecimal j b.natAbs) : a = b := by
  split_ifs at h
  · have := padDecimal_inj ((String.append_right_inj "-").mp h)
    omega
  · exact absurd h.symm (padDecimal_ne_minus _ _ _ _)
  · exact absurd h (padDecimal_ne_minus _ _ _ _)
  · have := padDecimal_inj h
    omega

lemma append_padDecimal_inj {s t : String} {i m n : ℕ}
    (h : s ++ "-" ++ padDecimal i m = t ++ "-" ++ padDecimal i n) : s = t ∧ m = n :=
  (Text.append_separator_inj rfl (notMem_padDecimal (by decide) _ _)
    (notMem_padDecimal (by decide) _ _) h).imp_right padDecimal_inj

variable {a b : Date} {label : BucketLabel} {startsOn : DayOfWeek}

/-- Dates are determined by their texts. -/
lemma Date.toText_inj (h : a.toText = b.toText) : a = b := by
  obtain ⟨h, hday⟩ := append_padDecimal_inj h
  obtain ⟨hyear, hmon⟩ := append_padDecimal_inj h
  refine Date.ext ?_
  rw [a.day_eq, b.day_eq, signedText_inj hyear, Nat.succ.inj hmon, hday]

lemma Date.notMem_toText (d : Date) : ':' ∉ d.toText.toList := by
  have hminus : ':' ∉ "-".toList := by decide
  have hyear : ':' ∉ (Date.yearText d.year).toList := by
    unfold Date.yearText
    split
    · rw [String.toList_append, mem_append, not_or]
      exact ⟨hminus, notMem_padDecimal (by decide) _ _⟩
    · exact notMem_padDecimal (by decide) _ _
  simp only [Date.toText, String.toList_append, mem_append, not_or]
  exact ⟨⟨⟨⟨hyear, hminus⟩, notMem_padDecimal (by decide) _ _⟩, hminus⟩,
    notMem_padDecimal (by decide) _ _⟩

/-- Buckets of one label are determined by their texts. -/
lemma BucketLabel.toText_keyOf_inj
    (h : (label.keyOf startsOn a).toText = (label.keyOf startsOn b).toText) :
    label.keyOf startsOn a = label.keyOf startsOn b := by
  cases label with
  | daily | frequencyCalendarDay => exact congrArg BucketKey.day (Date.toText_inj h)
  | weekly | frequencyCalendarWeek => exact congrArg BucketKey.week (Text.toString_int_inj h)
  | monthly | frequencyCalendarMonth =>
    obtain ⟨hyear, hmon⟩ := append_padDecimal_inj h
    simp only [BucketLabel.keyOf, signedText_inj hyear, hmon]

/-- Buckets of one label are determined by the identities of their members. -/
lemma BucketLabel.identity_keyOf_inj {i j : UInt16}
    (h : (label.keyOf startsOn a).identity a i = (label.keyOf startsOn b).identity b j) :
    label.keyOf startsOn a = label.keyOf startsOn b ∧ i = j := by
  cases label with
  | daily | frequencyCalendarDay =>
    obtain ⟨hdate, hord⟩ := RecurrenceOccurrenceIdentity.calendarDay.inj h
    exact ⟨congrArg BucketKey.day hdate, hord⟩
  | weekly | frequencyCalendarWeek =>
    obtain ⟨hweek, hord⟩ := RecurrenceOccurrenceIdentity.calendarWeek.inj h
    exact ⟨congrArg BucketKey.week hweek, hord⟩
  | monthly | frequencyCalendarMonth =>
    obtain ⟨hyear, hmon, hord⟩ := RecurrenceOccurrenceIdentity.calendarMonth.inj h
    exact ⟨by simp only [BucketLabel.keyOf, hyear, hmon], hord⟩

lemma BucketLabel.identity_congr
    (h : label.keyOf startsOn a = label.keyOf startsOn b) (i : UInt16) :
    (label.keyOf startsOn a).identity a i = (label.keyOf startsOn b).identity b i := by
  cases label with
  | daily | frequencyCalendarDay => rw [BucketKey.day.inj h]
  | weekly | frequencyCalendarWeek =>
    exact congrArg (RecurrenceOccurrenceIdentity.calendarWeek · i) (BucketKey.week.inj h)
  | monthly | frequencyCalendarMonth =>
    obtain ⟨hyear, hmon⟩ := BucketKey.month.inj h
    simp only [BucketLabel.keyOf, BucketKey.identity, hyear, hmon]

/-! ### Names -/

variable (request : PlanRequest) (item : WorkItem) (recurrence : Recurrence) (cycle : Int)
  (index : ℕ) (anchor : OffsetDateTime)

/-- The name of an occurrence of a calendar bucket. -/
def bucketName (key : BucketKey) (ordinal : UInt16) : String :=
  ((calendarRule recurrence).map fun buckets => buckets.1.toText).getD "" ++ ":" ++ key.toText ++
    ":" ++ toString ordinal.toNat

/-- The name of the occurrence of an after-completion rule. -/
def completionName : String :=
  match recurrence with
  | .afterCompletion interval =>
    "after-completion:" ++ toString anchor.nanos ++ ":" ++ toString interval.toNat
  | _ => ""

/-- The name of an occurrence of a rolling monthly rule. -/
def rollingMonthName : String :=
  "frequency-rolling-month:" ++ toString anchor.nanos ++ ":" ++
    ((rollingMonthsOf request item recurrence).map fun rule => toString rule.1.toNat).getD "" ++
    ":" ++ toString cycle ++ ":" ++ toString index

/-- The name of an occurrence, by its rule and its identity. -/
def identityName : RecurrenceOccurrenceIdentity → String
  | .calendarDay date ordinal => bucketName recurrence (.day date) ordinal
  | .calendarWeek key ordinal => bucketName recurrence (.week key) ordinal
  | .calendarMonth year month ordinal => bucketName recurrence (.month year month) ordinal
  | .rollingMinutes index _ =>
    ((rollingRuleOf request item recurrence).map RollingRule.keyStem).getD "" ++ toString index
  | .afterCompletion anchor => completionName recurrence anchor
  | .rollingMonth cycle index anchor =>
    rollingMonthName request item recurrence cycle index.toNat anchor
  | .custom => ""
  | .customRule ruleId sequence date => customIdentityKey ruleId sequence date

/-- The names from which the identifiers of occurrences are derived, with their
namespaces. -/
def namesOf (occurrences : List Occurrence) : List (Uuid × List UInt8) :=
  occurrences.filterMap fun o =>
    ((itemsById request.items)[o.seriesItemId]?).bind fun item =>
      (recurrenceOf item).map fun recurrence =>
        (item.id.uuid, (identityName request item recurrence o.identity).toUTF8.toList)

section

variable {env : Externals} {request : PlanRequest} {horizon : Span} {item : WorkItem}
  {recurrence : Recurrence} {days days' : List ZonedDayBoundary} {m m' : Member}
  {occurrences : List Occurrence} {o : Occurrence}

lemma rollingMonthName_eq {target : UInt16} {anchor : OffsetDateTime}
    (hrule : rollingMonthsOf request item recurrence = some (target, anchor)) (cycle : Int)
    (index : ℕ) : rollingMonthName request item recurrence cycle index anchor =
      "frequency-rolling-month:" ++ toString anchor.nanos ++ ":" ++ toString target.toNat ++ ":" ++
        toString cycle ++ ":" ++ toString index := by
  unfold rollingMonthName
  rw [hrule]
  rfl

lemma identityName_keyOf (label : BucketLabel) (startsOn : DayOfWeek) (date : Date)
    (ordinal : UInt16) :
    identityName request item recurrence ((label.keyOf startsOn date).identity date ordinal) =
      bucketName recurrence (label.keyOf startsOn date) ordinal := by
  cases label <;> rfl

/-- **Names follow from identities.** -/
theorem SeriesMember.key_eq (h : SeriesMember env request item days recurrence m) :
    m.key = identityName request item recurrence m.identity := by
  cases h with
  | @calendar _ label target weekdays m hrule hm =>
    obtain ⟨day, dates, ordinal, -, -, hord, -⟩ := hm
    change _ = identityName request item recurrence (BucketKey.identity (label.keyOf _ _) _ _)
    rw [identityName_keyOf, bucketName, hrule, toNat_ofNat_of_lt hord]
    rfl
  | @step _ rule index m hrule hnn hm =>
    obtain ⟨start, natural, finish, -, -, -, rfl⟩ := RollingRule.member_eq_some.mp hm
    show rule.keyStem ++ toString index =
      ((rollingRuleOf request item recurrence).map (·.keyStem)).getD "" ++ toString index
    rw [hrule]
    rfl
  | @part _ target anchor cycle index m hrule hidx hm =>
    obtain ⟨span, nominal, -, -, rfl⟩ := monthMember_eq_some.mp hm
    exact (rollingMonthName_eq hrule cycle index).symm.trans
      (congrArg (rollingMonthName request item recurrence cycle · anchor)
        (toNat_ofNat_of_lt hidx.2).symm)
  | afterCompletion hm =>
    obtain ⟨due, -, hm⟩ := bind_eq_some_iff.mp hm
    obtain ⟨finish, -, rfl⟩ := map_eq_some_iff.mp hm
    rfl
  | custom hrule hents hent hm =>
    obtain ⟨day, -, rfl⟩ := map_eq_some_iff.mp hm
    rfl

/-- **Identities follow from names.** -/
theorem SeriesMember.identity_eq (h : SeriesMember env request item days recurrence m)
    (h' : SeriesMember env (request.withHorizon horizon) item days' recurrence m')
    (hkey : m.key = m'.key) : m.identity = m'.identity := by
  cases h with
  | calendar hrule hm =>
    obtain ⟨day, dates, ordinal, -, -, -, -⟩ := hm
    obtain ⟨day', dates', ordinal', -, -, -, -⟩ := h'.of_calendarRule hrule
    obtain ⟨hbkt, hord⟩ := Text.append_separator_inj rfl
      (Text.notMem_toString_nat (by decide) _) (Text.notMem_toString_nat (by decide) _) hkey
    have hbkt := BucketLabel.toText_keyOf_inj ((String.append_right_inj _).mp hbkt)
    have hord := Text.toString_nat_inj hord
    subst hord
    exact BucketLabel.identity_congr hbkt _
  | step hrule _ hm =>
    obtain ⟨index', -, hm'⟩ := h'.of_rollingRuleOf hrule
    obtain ⟨start, natural, finish, -, -, -, rfl⟩ := RollingRule.member_eq_some.mp hm
    obtain ⟨start', natural', finish', -, -, -, rfl⟩ := RollingRule.member_eq_some.mp hm'
    have hidx := Text.toString_int_inj ((String.append_right_inj _).mp hkey)
    subst hidx
    rfl
  | part hrule _ hm =>
    obtain ⟨cycle', index', -, hm'⟩ := h'.of_rollingMonthsOf hrule
    obtain ⟨span, nominal, -, -, rfl⟩ := monthMember_eq_some.mp hm
    obtain ⟨span', nominal', -, -, rfl⟩ := monthMember_eq_some.mp hm'
    -- the cycle and the part are the last two numbers of the name
    obtain ⟨hcyc, hidx⟩ := Text.append_separator_inj rfl
      (Text.notMem_toString_nat (by decide) _) (Text.notMem_toString_nat (by decide) _) hkey
    have hcyc := Text.toString_int_inj ((String.append_right_inj _).mp hcyc)
    have hidx := Text.toString_nat_inj hidx
    subst hcyc hidx
    rfl
  | afterCompletion hm => rw [Option.some.inj (hm.symm.trans h'.of_afterCompletion)]
  | custom hrule hents hent hm =>
    obtain ⟨rule', entry', hrule', hm'⟩ := h'.of_custom
    obtain ⟨day, -, rfl⟩ := map_eq_some_iff.mp hm
    obtain ⟨day', -, rfl⟩ := map_eq_some_iff.mp hm'
    cases hrule.symm.trans hrule'
    -- no date has a colon in its text
    obtain ⟨hrest, hdate⟩ := Text.append_separator_inj rfl
      (Date.notMem_toText _) (Date.notMem_toText _) hkey
    have hdate := Date.toText_inj hdate
    have hsequence := UInt32.toNat_inj.mp
      (Text.toString_nat_inj ((String.append_right_inj _).mp hrest))
    rw [hdate, hsequence]

/-! ### Days without a calendar -/

lemma localDate_of_find? {day : ZonedDayBoundary} {date : Date}
    (h : days.find? (fun day => day.localDate = date) = some day) : day.localDate = date := by
  simpa using find?_some h

section

variable (hpn : ∀ day ∈ days, IsPlainDay request.horizonStart day)

include hpn

/-- Without a calendar a date starts at midnight. -/
lemma boundaryInstant_plain (date : Date) :
    boundaryInstant request days date = midnight date request.horizonStart := by
  unfold boundaryInstant
  split
  · rename_i day hday
    rw [(hpn day (mem_of_find?_eq_some hday)).start, localDate_of_find? hday]
  · split
    · rename_i day hday
      obtain ⟨next, hnext, hfin⟩ := (hpn day (mem_of_find?_eq_some hday)).finish
      have hdate : day.localDate.nextDay = some date := by simpa using find?_some hday
      cases hnext.symm.trans hdate
      exact hfin
    · rfl

variable (hplain' : ∀ day ∈ days', IsPlainDay horizon.start day)
  (hoff : request.horizonStart.offset = horizon.start.offset)

include hplain' hoff

lemma cycleSpan_plain (anchor : OffsetDateTime) (cycle : Int) :
    cycleSpan (request.withHorizon horizon) days' anchor cycle =
      cycleSpan request days anchor cycle := by
  have hbdry : ∀ date, boundaryInstant (request.withHorizon horizon) days' date =
      boundaryInstant request days date := fun date => by
    rw [boundaryInstant_plain hpn, boundaryInstant_plain hplain']
    exact (midnight_congr hoff date).symm
  simp only [cycleSpan, hbdry]

/-- **Identities determine members** where no local days are given. -/
theorem SeriesMember.eq_of_identity_eq (h : SeriesMember env request item days recurrence m)
    (h' : SeriesMember env (request.withHorizon horizon) item days' recurrence m')
    (hident : m.identity = m'.identity) : m = m' := by
  have hday : ∀ day ∈ days, ∀ day' ∈ days', day.localDate = day'.localDate → day = day' :=
    fun day hin day' hin' hdate =>
      ((hpn day hin).congr hoff).eq_of_localDate_eq (hplain' day' hin') hdate
  cases h with
  | calendar hrule hm =>
    obtain ⟨day, dates, ordinal, hin, hdts, hord, hpl⟩ := hm
    obtain ⟨day', dates', ordinal', hin', hdates', hord', hplace'⟩ := h'.of_calendarRule hrule
    obtain ⟨hbkt, hsame⟩ := BucketLabel.identity_keyOf_inj hident
    have hsame : ordinal = ordinal' := by
      rw [← toNat_ofNat_of_lt hord, ← toNat_ofNat_of_lt hord', hsame]
    subst hsame
    rw [hbkt] at hdts
    cases hdts.symm.trans hdates'
    have hdate := Option.some.inj (hpl.symm.trans hplace')
    cases hday day hin day' hin' hdate
    rfl
  | step hrule _ hm =>
    obtain ⟨index', -, hm'⟩ := h'.of_rollingRuleOf hrule
    rw [RollingRule.identity_of_member hm, RollingRule.identity_of_member hm'] at hident
    obtain ⟨hidx, -⟩ := RecurrenceOccurrenceIdentity.rollingMinutes.inj hident
    subst hidx
    exact Option.some.inj (hm.symm.trans hm')
  | @part _ _ _ _ index _ hrule hidx hm =>
    -- the cycles of months start on days of the same offset
    obtain ⟨cycle', index', hindex', hm'⟩ := h'.of_rollingMonthsOf hrule
    rw [identity_of_monthMember hm, identity_of_monthMember hm'] at hident
    obtain ⟨hcyc, hpart, -⟩ := RecurrenceOccurrenceIdentity.rollingMonth.inj hident
    have hpart : index = index' := by
      rw [← toNat_ofNat_of_lt hidx.2, ← toNat_ofNat_of_lt hindex'.2, hpart]
    subst hcyc hpart
    rw [monthMember, cycleSpan_plain hpn hplain' hoff] at hm'
    exact Option.some.inj (hm.symm.trans hm')
  | afterCompletion hm => exact Option.some.inj (hm.symm.trans h'.of_afterCompletion)
  | custom hrule hents hent hm =>
    obtain ⟨rule', entry', -, hm'⟩ := h'.of_custom
    obtain ⟨day, hfind, rfl⟩ := map_eq_some_iff.mp hm
    obtain ⟨day', hfind', rfl⟩ := map_eq_some_iff.mp hm'
    obtain ⟨hid, hsequence, hdate⟩ := RecurrenceOccurrenceIdentity.customRule.inj hident
    have hsame := hday day (mem_of_find?_eq_some hfind) day' (mem_of_find?_eq_some hfind')
      (((localDate_of_find? hfind).trans hdate).trans (localDate_of_find? hfind').symm)
    rw [hid, hsequence, hdate, hsame]

end

/-! ### Two horizons -/

/-- Without exceptions an occurrence is that of a member, in its final window and state. -/
lemma exists_member_of_mem (hexcs : request.recurrenceContext.exceptions = [])
    (h : expandOccurrences env request = .ok occurrences) (hdays : resolvedDays request = .ok days)
    (ho : o ∈ occurrences) : ∃ item ∈ request.items, ∃ recurrence m start finish state,
      recurrenceOf item = some recurrence ∧ SeriesMember env request item days recurrence m ∧
      o = { m.occurrence env request item.id with
        windowStart := start, windowEnd := finish, state := state } := by
  obtain ⟨-, h⟩ := expandOccurrences_eq_ok.mp h
  obtain ⟨days', -, hctx, hdays', -⟩ := expandOccurrencesValidated_eq_ok.mp h
  obtain ⟨item, hitem, l, hl, u, hu, rfl⟩ := (mem_expandOccurrencesValidated hdays h).mp ho
  have hmem := (mem_rootItems hitem).1
  have hnone : movesOf request item.id = [] := by
    rw [movesOf, hexcs]
    rfl
  obtain ⟨recurrence, hrule, ⟨m, hm, -, -, -, rfl⟩ | ⟨move, hmove, -⟩⟩ :=
    exists_of_mem_unsettledRoot hctx hdays hmem hl hu
  · rw [hnone, Occurrence.withMoves_of_fresh not_mem_nil]
    obtain ⟨start, finish, state, hset⟩ := exists_settleOccurrence_eq
      (m.occurrence env request item.id)
    exact ⟨item, hmem, recurrence, m, start, finish, state, hrule, hm, hset⟩
  · rw [hnone] at hmove
    cases hmove

lemma mem_namesOf (hnd : (request.items.map WorkItem.id).Nodup) (hitem : item ∈ request.items)
    (hrule : recurrenceOf item = some recurrence)
    (hm : SeriesMember env request item days recurrence m) (ho : o ∈ occurrences)
    (hser : o.seriesItemId = item.id) (hident : o.identity = m.identity) :
    (item.id.uuid, m.key.toUTF8.toList) ∈ namesOf request occurrences := by
  refine mem_filterMap.mpr ⟨o, ho, ?_⟩
  rw [hser, getElem?_itemsById hnd hitem, Option.bind_some, hrule, Option.map_some, hident,
    hm.key_eq]

/-- **Occurrences are stable**: two requests that differ in their horizons, with the same
offset, agree on the occurrences that both return. Equal identifiers mean equal identities,
nominal intervals, dates and ordinals, and equal identities in a series mean equal
identifiers. The derivation of identifiers is injective on the names in use. -/
theorem occurrence_stable (env : Externals) (request : PlanRequest)
    (horizon : HalfOpen OffsetDateTime) (hoff : request.horizonStart.offset = horizon.start.offset)
    (hcal : request.recurrenceContext.calendar.days = [])
    (hexcs : request.recurrenceContext.exceptions = []) {occurrences occurrences' : List Occurrence}
    (h : expandOccurrences env request = .ok occurrences)
    (h' : expandOccurrences env (request.withHorizon horizon) = .ok occurrences')
    (hinjective : ∀ a ∈ namesOf request occurrences ++ namesOf request occurrences',
      ∀ b ∈ namesOf request occurrences ++ namesOf request occurrences',
        env.newV5 a.1 a.2 = env.newV5 b.1 b.2 → a = b) :
    ∀ o ∈ occurrences, ∀ o' ∈ occurrences',
      (o.id = o'.id → o.identity = o'.identity ∧ o.nominalStart = o'.nominalStart ∧
        o.nominalEnd = o'.nominalEnd ∧ o.localDate = o'.localDate ∧ o.ordinal = o'.ordinal) ∧
      (o.seriesItemId = o'.seriesItemId → o.identity = o'.identity → o.id = o'.id) := by
  intro o ho o' ho'
  obtain ⟨hfor, hval⟩ := expandOccurrences_eq_ok.mp h
  obtain ⟨days, -, -, hdays, -⟩ := expandOccurrencesValidated_eq_ok.mp hval
  obtain ⟨-, hvalid'⟩ := expandOccurrences_eq_ok.mp h'
  obtain ⟨days', -, -, hdays', -⟩ := expandOccurrencesValidated_eq_ok.mp hvalid'
  obtain ⟨item, hitem, recurrence, m, start, finish, state, hrule, hm, rfl⟩ :=
    exists_member_of_mem hexcs h hdays ho
  obtain ⟨item', hit', recurrence', m', start', finish', state', hrule', hm', rfl⟩ :=
    @exists_member_of_mem env (request.withHorizon horizon) days' occurrences' _ hexcs h' hdays' ho'
  have hsameItem : item.id = item'.id → item' = item ∧ recurrence' = recurrence := by
    intro hid
    have hits : item' = item := inj_on_of_nodup_map hfor.nodup hit' hitem hid.symm
    subst hits
    exact ⟨rfl, Option.some.inj (hrule'.symm.trans hrule)⟩
  constructor
  · -- equal names have equal keys, and these determine the members
    intro hid
    have hname := hinjective _ (mem_append_left _
        (mem_namesOf hfor.nodup hitem hrule hm ho rfl rfl)) _
      (mem_append_right _
        (@mem_namesOf env (request.withHorizon horizon) item' recurrence' days' m' occurrences' _
          hfor.nodup hit' hrule' hm' ho' rfl rfl)) (OccurrenceId.mk.inj hid)
    obtain ⟨hser, hkey⟩ := Prod.mk.inj hname
    obtain ⟨rfl, rfl⟩ := hsameItem (congrArg ItemId.mk hser)
    have hident := hm.identity_eq hm' (Text.toUTF8_toList_inj hkey)
    obtain ⟨last, hpn, -⟩ := resolvedDays_plain hcal hdays
    obtain ⟨last', hplain', -⟩ :=
      @resolvedDays_plain (request.withHorizon horizon) days' hcal hdays'
    cases hm.eq_of_identity_eq hpn.plain hplain'.plain hoff hm' hident
    exact ⟨rfl, rfl, rfl, rfl, rfl⟩
  · intro hser hident
    obtain ⟨rfl, rfl⟩ := hsameItem hser
    have hident : m.identity = m'.identity := hident
    have hkey : m.key = m'.key := by
      rw [hm.key_eq, hm'.key_eq, hident]
      rfl
    show (⟨env.newV5 _ m.key.toUTF8.toList⟩ : OccurrenceId) = ⟨env.newV5 _ m'.key.toUTF8.toList⟩
    rw [hkey]

end

open Sample (everyTwoHours externals)

/-- A horizon in the second hour. -/
def Sample.secondHour : Span := ⟨.atSecond 3600, .atSecond 5400⟩

/-- A habit of every two hours in two horizons. -/
theorem occurrence_stable_twoHorizons : ∃ occurrences occurrences' o o',
    expandOccurrences externals everyTwoHours = .ok occurrences ∧
      expandOccurrences externals (everyTwoHours.withHorizon Sample.secondHour) =
        .ok occurrences' ∧
      o ∈ occurrences ∧ o' ∈ occurrences' ∧ o.id = o'.id ∧ o ≠ o' ∧ o.identity = o'.identity ∧
      o.nominalStart = o'.nominalStart ∧ o.nominalEnd = o'.nominalEnd := by
  obtain ⟨occurrences, occurrences', h, h', ⟨o, ho, o', ho', hid, hne⟩, hinjective⟩ :
      ∃ occurrences occurrences', expandOccurrences externals everyTwoHours = .ok occurrences ∧
        expandOccurrences externals (everyTwoHours.withHorizon Sample.secondHour) =
          .ok occurrences' ∧
        (∃ o ∈ occurrences, ∃ o' ∈ occurrences', o.id = o'.id ∧ o ≠ o') ∧
        ∀ a ∈ namesOf everyTwoHours occurrences ++ namesOf everyTwoHours occurrences',
          ∀ b ∈ namesOf everyTwoHours occurrences ++ namesOf everyTwoHours occurrences',
            externals.newV5 a.1 a.2 = externals.newV5 b.1 b.2 → a = b := by
    decide +kernel
  obtain ⟨hident, hst, hend, -⟩ := (occurrence_stable externals everyTwoHours Sample.secondHour
    rfl rfl rfl h h' hinjective o ho o' ho').1 hid
  exact ⟨occurrences, occurrences', o, o', h, h', ho, ho', hid, hne, hident, hst, hend⟩

end DayWeave
