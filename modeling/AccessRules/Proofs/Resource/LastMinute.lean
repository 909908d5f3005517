import AccessRules.Proofs.Calendar.TimeGrammar
import AccessRules.Proofs.Resource.StampTimes

/-!
# Stamps in the last minute of the calendar

**Program** — `Stamp.isStale` reads a stamp, which may be any text, and compares the time it names,
moved by the cooldown, with the clock.

**Spec** — with windows of a minute, and for a rule of the years from 1970 to 9998, the decision is
the documented one (`isDue`) and is made for every text but those that name a time in the last
minute of the calendar, on whatever clock; for these there is none (`isStale_decides_iff`).

**Crux** — a time is moved on the clock that shows it, so a minute later is beyond the calendar just
if that clock shows the last day and 23:59 (`endOfTime_le_iff`).  These are the first characters of
the text, and no other time has them (`shift?_minute_eq_none_iff`).  Such a time is far too late to
lie within the grace of the rule, which would decide before anything is moved.
-/

namespace AccessRules

namespace Calendar

/-- The last day of the calendar. -/
def lastDay : Date := ⟨lastYear, 12, 31⟩

/-- Days of the calendar are numbered up to its last day. -/
theorem Date.dayNumber_le_lastDay {d : Date} (hd : d.isValid = true) :
    d.dayNumber ≤ lastDay.dayNumber := by
  have hyear : d.year ≤ lastYear := by
    simp only [isValid, Bool.and_eq_true, decide_eq_true_eq] at hd
    exact hd.1.1.1.1.2
  have hlast : lastDay.dayNumber + 1 = daysBeforeYear (lastYear + 1) := by decide
  have hmono := daysBeforeYear_mono (b := lastYear + 1) (Nat.le_add_left 1 d.year) (by omega)
  have hlt := dayNumber_lt_of_year hd
  omega

theorem Date.eq_lastDay_or_lt {d : Date} (hd : d.isValid = true) :
    d = lastDay ∨ d.dayNumber < lastDay.dayNumber := by
  rcases before_or_eq_or_before d lastDay with hbefore | heq | hafter
  · exact .inr (dayNumber_lt_of_before hd (by decide) hbefore)
  · exact .inl heq
  · have hlt := dayNumber_lt_of_before (by decide) hd hafter
    exact absurd (dayNumber_le_lastDay hd) (Nat.not_le.mpr hlt)

/-- **Clocks leave the calendar within a minute** if they show the last minute of the last day. -/
theorem endOfTime_le_iff {d : Date} {hours minutes seconds fraction : Nat} (hd : d.isValid = true)
    (hclock : clockShows hours minutes seconds = true) (hfraction : fraction < 1000000) :
    endOfTime ≤ d.dayNumber * microsPerDay + clockMicros hours minutes seconds fraction +
        60 * microsPerSecond ↔
      d = lastDay ∧ hours = 23 ∧ minutes = 59 := by
  simp only [clockShows, Bool.and_eq_true, decide_eq_true_eq] at hclock
  have hlast : lastDay.dayNumber = 3652058 := by decide
  have hend : endOfTime = 3652059 * microsPerDay := rfl
  rw [hend]
  simp only [clockMicros, microsPerDay, microsPerSecond]
  rcases Date.eq_lastDay_or_lt hd with rfl | hlt
  · rw [hlast]
    simp only [true_and]
    omega
  · have hne : d ≠ lastDay := fun h => by simp [h] at hlt
    rw [hlast] at hlt
    simp only [hne, false_and, iff_false]
    omega

end Calendar

namespace Stamp

open Calendar Text

/-- **What is read of a stamp**: the first characters tell the minute, and it has an offset. -/
theorem readChars?_eq_some {cs : List Char} {m : Moment} (h : readChars? cs = some m) :
    ∃ d hours minutes seconds fraction o tail, d.isValid = true ∧
      clockShows hours minutes seconds = true ∧ fraction < 1000000 ∧ o.natAbs < 86400 ∧
      m = ⟨d.dayNumber * microsPerDay + clockMicros hours minutes seconds fraction, some o⟩ ∧
      cs = minuteText d hours minutes ++ tail := by
  simp only [readChars?, Option.bind_eq_bind, Option.bind_eq_some_iff, Prod.exists] at h
  obtain ⟨year, month, day, afterDate, hdate, afterT, hT, micros, afterTime, htime, h⟩ := h
  -- digits that are passed over stand behind all that tells the time
  generalize behindDigits (afterT.length - afterTime.length) afterTime = rest at h
  obtain ⟨hours, minutes, seconds, fraction, tail, hshows, hfraction, rfl, rfl⟩ :=
    takeTime?_eq_some htime
  obtain ⟨-, -, -, rfl⟩ := takeDate?_eq_some hdate
  by_cases hform : (decide (rest = ['Z']) || decide (rest.length = offsetLength)) = true
  · rw [if_pos hform] at h
    obtain ⟨offset, hoffset, h⟩ := Option.bind_eq_some_iff.mp h
    obtain ⟨d, hd, rfl⟩ := Option.map_eq_some_iff.mp h
    have hne : rest ≠ [] := fun hnil => by simp [hnil, offsetLength] at hform
    obtain ⟨o, rfl, ho⟩ := readOffset?_eq_some hne hoffset
    obtain ⟨hvalid, rfl⟩ : (Date.mk year month day).isValid = true ∧ ⟨year, month, day⟩ = d := by
      simpa [Date.ofParts?] using hd
    refine ⟨_, hours, minutes, seconds, fraction, o, fixed 2 seconds ++ tail, hvalid, hshows,
      hfraction, ho, rfl, ?_⟩
    rw [takeChar?_eq_some hT]
    simp [minuteText]
  · rw [if_neg hform] at h
    cases h

/-- The first characters of every time in the last minute of the calendar. -/
def lastMinute : List Char := minuteText lastDay 23 59

example : lastMinute = "9999-12-31T23:59:".toList := by decide

/-- A text that names a time in the last minute of the calendar, whatever the offset. -/
def namesLastMinute (s : String) : Bool := lastMinute.isPrefixOf s.toList && (read? s).isSome

example : namesLastMinute "9999-12-31T23:59:30.123456٢Z" = true ∧
    namesLastMinute "9999-12-31T23:59:30.12345٢Z" = false := by decide +kernel

/-- **A stamp cannot be moved by a minute** if its text begins with the last one. -/
theorem shift?_minute_eq_none_iff {s : String} {last : Moment} (h : read? s = some last) :
    last.shift? (60 * microsPerSecond) = none ↔ lastMinute <+: s.toList := by
  obtain ⟨d, hours, minutes, seconds, fraction, o, tail, hd, hshows, hfraction, -, rfl, htext⟩ :=
    readChars?_eq_some h
  have hbounds : 0 ≤ d.dayNumber * microsPerDay + clockMicros hours minutes seconds fraction +
      60 * microsPerSecond := by
    simp only [microsPerDay, microsPerSecond]
    omega
  have hshift : Moment.shift?
      ⟨d.dayNumber * microsPerDay + clockMicros hours minutes seconds fraction, some o⟩
      (60 * microsPerSecond) = none ↔ d = lastDay ∧ hours = 23 ∧ minutes = 59 := by
    rw [← endOfTime_le_iff hd hshows hfraction]
    simp only [Moment.shift?, ite_eq_right_iff, reduceCtorEq, imp_false, inCalendar_iff]
    omega
  rw [hshift, htext]
  constructor
  · rintro ⟨rfl, rfl, rfl⟩
    exact List.prefix_append ..
  · rintro ⟨rest, hrest⟩
    simp only [clockShows, Bool.and_eq_true, decide_eq_true_eq] at hshows
    have hlength : lastMinute.length = (minuteText d hours minutes).length := by
      simp [lastMinute, minuteText, dateText_length]
    have hsame : minuteText lastDay 23 59 = minuteText d hours minutes :=
      (List.append_inj hrest hlength).1
    obtain ⟨hday, hhours, hminutes⟩ :=
      minuteText_inj (by decide) hd (by decide) (by omega) (by decide) (by omega) hsame
    exact ⟨hday.symm, hhours.symm, hminutes.symm⟩

/-! ## Decisions -/

/-- A time of the years from 1970 to 9998, by its own clock or in UTC.  A clock of a known offset is
never a day ahead or behind. -/
structure IsRecent (m : Moment) : Prop where
  known : ∃ o, m.offset = some o ∧ o.natAbs < 86400
  years : (1970 ≤ m.date.year ∧ m.date.year ≤ 9998) ∨
    (1970 ≤ yearAt m.instant ∧ yearAt m.instant ≤ 9998)

/-- The days of a year from 1970 to 9998. -/
theorem day_bounds_of_year {n : Int} (hlow : 1970 ≤ (Date.ofDayNumber n.toNat).year)
    (hhigh : (Date.ofDayNumber n.toNat).year ≤ 9998) : 719162 ≤ n ∧ n < 3651694 := by
  obtain ⟨-, hstart, hend⟩ := Date.yearOf_bounds n.toNat
  have hyear : (Date.ofDayNumber n.toNat).year = Date.yearOf n.toNat := rfl
  rw [hyear] at hlow hhigh
  have hfirst : daysBeforeYear 1970 ≤ daysBeforeYear (Date.yearOf n.toNat) :=
    daysBeforeYear_mono (by decide) hlow
  have hlast : daysBeforeYear (Date.yearOf n.toNat + 1) ≤ daysBeforeYear 9999 :=
    daysBeforeYear_mono (by omega) (by omega)
  have hfirst' : daysBeforeYear 1970 = 719162 := by decide
  have hlast' : daysBeforeYear 9999 = 3651694 := by decide
  omega

/-- A recent time is far from either end of the calendar. -/
theorem IsRecent.reading_bounds {m : Moment} (h : IsRecent m) :
    microsPerDay ≤ m.reading ∧ m.reading < endOfTime - 300 * microsPerDay := by
  obtain ⟨⟨o, ho, hsmall⟩, hyears⟩ := h
  have hend : endOfTime = 3652059 * microsPerDay := rfl
  rcases hyears with ⟨hlow, hhigh⟩ | ⟨hlow, hhigh⟩
  · obtain ⟨hfirst, hlast⟩ := day_bounds_of_year hlow hhigh
    simp only [hend, microsPerDay, microsPerSecond] at *
    omega
  · obtain ⟨hfirst, hlast⟩ := day_bounds_of_year hlow hhigh
    simp only [Moment.utc, Moment.instant, ho, Option.getD_some, hend, microsPerDay,
      microsPerSecond] at *
    omega

/-- **The documented decision**: a stamp is due if there is none that can be read, if the rule was
stored less than the grace before it, or if it is older than the cooldown. -/
def isDue (w : Windows) (created : Moment) (stamp : Option String) (now : Moment) : Bool :=
  match stamp.bind read? with
  | none => true
  | some last => last.instant < created.instant + w.grace || last.instant + w.cooldown < now.instant

/-- Nothing is read of a text without characters. -/
theorem filter_bind_read? (stamp : Option String) :
    (stamp.filter (!·.isEmpty)).bind read? = stamp.bind read? := by
  cases stamp with
  | none => rfl
  | some s =>
    by_cases hempty : s.isEmpty = true
    · obtain rfl := String.isEmpty_iff.mp hempty
      rfl
    · simp [Option.filter, hempty]

/-- A stamp that cannot be moved by a minute does not lie within the grace of a recent rule. -/
theorem grace_le_of_shift?_eq_none {created last : Moment} {s : String}
    (hcreated : IsRecent created) (hread : read? s = some last)
    (hnone : last.shift? (60 * microsPerSecond) = none) :
    created.instant + 60 * microsPerSecond ≤ last.instant := by
  obtain ⟨hstart, hbefore⟩ := hcreated.reading_bounds
  obtain ⟨⟨o, ho, hsmall⟩, -⟩ := hcreated
  obtain ⟨d, hours, minutes, seconds, fraction, o', -, -, -, -, hsmall', rfl, -⟩ :=
    readChars?_eq_some hread
  simp only [Moment.shift?, ite_eq_right_iff, reduceCtorEq, imp_false, inCalendar_iff] at hnone
  dsimp only [Moment.instant, Instant]
  simp only [ho, Option.getD_some, microsPerDay, microsPerSecond] at *
  omega

variable {created : Moment}

/-- **A text that names a time** is decided on as documented, unless that is in the last minute. -/
theorem isStale_of_read? (hcreated : IsRecent created) {s : String} {last : Moment}
    (hread : read? s = some last) (now : Moment) :
    isStale .standard created (some s) now =
      if namesLastMinute s then .error .dateOutOfRange
      else .ok (isDue .standard created (some s) now) := by
  obtain ⟨hstart, hend⟩ := hcreated.reading_bounds
  have hin : inCalendar (created.reading + 60 * microsPerSecond) = true := by
    rw [inCalendar_iff]
    simp only [microsPerDay, microsPerSecond] at *
    omega
  have hsettled : created.shift? Windows.standard.grace =
      some ⟨created.reading + 60 * microsPerSecond, created.offset⟩ := if_pos hin
  have hgrace := Moment.instant_of_shift? hsettled
  have hlast := shift?_minute_eq_none_iff hread
  have hbind : (some s).bind read? = some last := hread
  have hnames : namesLastMinute s = true ↔ last.shift? Windows.standard.cooldown = none := by
    rw [namesLastMinute, hread, Option.isSome_some, Bool.and_true, List.isPrefixOf_iff_prefix]
    exact hlast.symm
  simp only [isStale, isDue, filter_bind_read?, hbind, hsettled, hgrace]
  cases hshift : last.shift? Windows.standard.cooldown with
  | none =>
    have hle : created.instant + Windows.standard.grace ≤ last.instant :=
      grace_le_of_shift?_eq_none hcreated hread hshift
    rw [if_neg (Int.not_lt.mpr hle), if_pos (hnames.mpr hshift)]
  | some renewable =>
    have hnot : ¬ namesLastMinute s = true := fun h => by simp [hnames.mp h] at hshift
    simp only [if_neg hnot, Moment.instant_of_shift? hshift]
    by_cases hlt : last.instant < created.instant + Windows.standard.grace
    · simp [hlt]
    · simp [hlt]

/-- **Every text is decided on but those that name a time in the last minute of the calendar.**  For
a rule of the years from 1970 to 9998, at any time and with windows of a minute, there is a decision
just if the text does not begin with the last minute or names no time, and then it is the documented
one. -/
theorem isStale_decides_iff (hcreated : IsRecent created) (stamp : Option String) (now : Moment) :
    ((∃ due, isStale .standard created stamp now = .ok due) ↔
      stamp.any namesLastMinute = false) ∧
    isStale .standard created stamp now =
      if stamp.any namesLastMinute then .error .dateOutOfRange
      else .ok (isDue .standard created stamp now) := by
  have hboth : isStale .standard created stamp now =
      if stamp.any namesLastMinute then .error .dateOutOfRange
      else .ok (isDue .standard created stamp now) := by
    cases stamp with
    | none => rfl
    | some s =>
      cases hread : read? s with
      | some last => exact isStale_of_read? hcreated hread now
      | none =>
        have hbind : (some s).bind read? = none := hread
        simp [isStale, isDue, filter_bind_read?, hbind, namesLastMinute, hread]
  refine ⟨?_, hboth⟩
  rw [hboth]
  cases stamp.any namesLastMinute <;> simp

/-- The beginning of 2024. -/
def newYear : Moment := .utc (daysBeforeYear 2024 * microsPerDay)

theorem isRecent_newYear : IsRecent newYear := ⟨⟨0, rfl, by decide⟩, .inl (by decide +kernel)⟩

/-- The last microsecond before the last minute of the calendar is decided on, also on a clock that
is almost a day behind UTC. -/
theorem isStale_decides_iff_before :
    isStale .standard newYear (some "9999-12-31T23:58:59.999999-23:59") newYear = .ok false := by
  have hnot : ¬ (some "9999-12-31T23:58:59.999999-23:59").any namesLastMinute = true := by
    decide +kernel
  rw [(isStale_decides_iff isRecent_newYear _ _).2, if_neg hnot]
  exact congrArg Except.ok (by decide +kernel)

/-- Half a minute before the end of the calendar is not. -/
theorem not_isStale_decides : ¬ ∀ (created now : Moment) (stamp : String), IsRecent created →
    IsRecent now → ∃ due, isStale .standard created (some stamp) now = .ok due := by
  intro hall
  have hrecent := isRecent_newYear
  obtain ⟨due, hdue⟩ := hall newYear newYear "9999-12-31T23:59:30Z" hrecent hrecent
  have hfails : (isStale .standard newYear (some "9999-12-31T23:59:30Z") newYear).toOption =
      none := by decide +kernel
  rw [hdue] at hfails
  cases hfails

end Stamp

end AccessRules
