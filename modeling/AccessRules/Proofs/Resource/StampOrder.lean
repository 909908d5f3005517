import AccessRules.Proofs.Calendar.TextOrder
import AccessRules.Proofs.Resource.StampTimes

/-!
# Stamps there and back

**Program** — `Stamp.ofMoment?` writes the stamp of a moment, `Stamp.read?` reads the moment that a
stamp names.

**Spec** — a moment on any clock, in a year that UTC writes with four digits, has a stamp.  What is
read of it is the moment's instant, in UTC, rounded down to the whole second; that has the same stamp
again; and stamps stand in the order of the instants that are read of them
(`ofMoment?_roundTrip`).

**Crux** — a stamp is what every text of the instant shows up to the second, and a `Z`
(`toList_ofInstant_eq`).  So it knows of the instant no more than its second, and a later second
stands later (`Moment.secondChars_append_lt`).
-/

namespace AccessRules.Stamp

open Calendar Text

/-! ## Stamps and seconds -/

/-- An instant in a year that UTC writes with four digits. -/
structure HasFourDigitYear (t : Instant) : Prop where
  low : 1000 ≤ yearAt t
  high : yearAt t ≤ 9999

section Seconds

variable {s t : Instant}

theorem HasFourDigitYear.inCalendar (h : HasFourDigitYear t) : inCalendar t = true := by
  have hlow := h.low
  exact inCalendar_of_yearAt (by omega) h.high

theorem HasFourDigitYear.wholeSecond (h : HasFourDigitYear t) :
    HasFourDigitYear (wholeSecond t) := by
  have hyear : yearAt (Calendar.wholeSecond t) = yearAt t := by
    rw [yearAt, yearAt, date_wholeSecond]
  exact ⟨by rw [hyear]; exact h.low, by rw [hyear]; exact h.high⟩

theorem wholeSecond_eq_iff :
    wholeSecond s = wholeSecond t ↔ s / microsPerSecond = t / microsPerSecond := by
  dsimp only [Instant, wholeSecond, microsPerSecond]
  omega

theorem wholeSecond_lt_iff :
    wholeSecond s < wholeSecond t ↔ s / microsPerSecond < t / microsPerSecond := by
  dsimp only [Instant, wholeSecond, microsPerSecond]
  omega

theorem wholeSecond_wholeSecond (t : Instant) : wholeSecond (wholeSecond t) = wholeSecond t := by
  dsimp only [Instant, wholeSecond, microsPerSecond]
  omega

/-- A stamp shows the time up to the second. -/
theorem toList_ofInstant_eq (h : HasFourDigitYear t) :
    (ofInstant t).toList = (Moment.utc t).secondChars ++ ['Z'] := by
  have hseconds : (Moment.utc t).timeOfDay / 1000000 * 1000000 / 1000000 =
      (Moment.utc t).timeOfDay / 1000000 := by omega
  have hfraction : (Moment.utc t).timeOfDay / 1000000 * 1000000 % 1000000 = 0 := by omega
  simp only [toList_ofInstant h.low h.high, Moment.clockChars, Moment.secondChars,
    date_wholeSecond, timeOfDay_wholeSecond, hseconds, hfraction, Moment.fractionText, if_true,
    List.append_nil]

/-! ## The order of stamps -/

/-- Stamps are the same exactly for the same second. -/
theorem ofInstant_eq_iff (hs : HasFourDigitYear s) (ht : HasFourDigitYear t) :
    ofInstant s = ofInstant t ↔ wholeSecond s = wholeSecond t := by
  constructor
  · intro h
    have hread := read?_ofInstant hs.low hs.high
    rw [h, read?_ofInstant ht.low ht.high] at hread
    exact congrArg Moment.reading (Option.some.inj hread).symm
  · intro h
    rw [← String.toList_inj, toList_ofInstant_eq hs, toList_ofInstant_eq ht,
      Moment.secondChars_congr (wholeSecond_eq_iff.mp h)]

/-- The stamp of a later second stands later. -/
theorem ofInstant_lt (hs : HasFourDigitYear s) (ht : HasFourDigitYear t)
    (h : wholeSecond s < wholeSecond t) : ofInstant s < ofInstant t := by
  have hstart := (inCalendar_iff.mp hs.inCalendar).1
  rw [String.lt_iff_toList_lt, toList_ofInstant_eq hs, toList_ofInstant_eq ht]
  exact Moment.secondChars_append_lt hstart ht.inCalendar (wholeSecond_lt_iff.mp h) _ _

/-- **Stamps stand in the order of their seconds.** -/
theorem ofInstant_lt_iff (hs : HasFourDigitYear s) (ht : HasFourDigitYear t) :
    ofInstant s < ofInstant t ↔ wholeSecond s < wholeSecond t := by
  refine ⟨fun h => ?_, ofInstant_lt hs ht⟩
  rcases lt_trichotomy (wholeSecond s) (wholeSecond t) with hlt | heq | hgt
  · exact hlt
  · rw [(ofInstant_eq_iff hs ht).mpr heq] at h
    exact absurd h (lt_irrefl _)
  · exact absurd h (ofInstant_lt ht hs hgt).asymm

end Seconds

/-! ## Stamps of moments -/

/-- A moment that may be stamped: its clock has a known offset and the year, in UTC, four digits.  An
offset counts only by the instant it leads to, which a clock of UTC shows as well; so nothing is lost
by telling offsets in seconds. -/
structure IsStampable (m : Moment) : Prop where
  known : ∃ o, m.offset = some o
  year : HasFourDigitYear m.instant

variable {m : Moment}

theorem IsStampable.ofMoment?_eq (h : IsStampable m) : ofMoment? m = some (ofInstant m.instant) := by
  rw [ofMoment?, Moment.instant?, if_pos h.year.inCalendar, Option.map_some]

/-- **Stamps survive a round trip.**  Whatever the clock, a moment of these years has a stamp.  What
is read of the stamp is the instant rounded down to the whole second, which has this stamp, too.
Between two stamps the order of texts is the order of these instants, and they are the same text
exactly for the same instant. -/
theorem ofMoment?_roundTrip (h : IsStampable m) :
    ∃ s, ofMoment? m = some s ∧ read? s = some (.utc (wholeSecond m.instant)) ∧
      ofMoment? (.utc (wholeSecond m.instant)) = some s ∧
      ∀ m' s', IsStampable m' → ofMoment? m' = some s' →
        (s < s' ↔ wholeSecond m.instant < wholeSecond m'.instant) ∧
        (s = s' ↔ wholeSecond m.instant = wholeSecond m'.instant) := by
  have hagain : IsStampable (.utc (wholeSecond m.instant)) := by
    refine ⟨⟨0, rfl⟩, ?_⟩
    rw [Moment.instant_utc]
    exact h.year.wholeSecond
  have hsame : ofInstant (wholeSecond m.instant) = ofInstant m.instant :=
    (ofInstant_eq_iff h.year.wholeSecond h.year).mpr (wholeSecond_wholeSecond _)
  refine ⟨ofInstant m.instant, h.ofMoment?_eq, read?_ofInstant h.year.low h.year.high, ?_, ?_⟩
  · rw [hagain.ofMoment?_eq, Moment.instant_utc, hsame]
  · intro m' s' h' hs'
    rw [h'.ofMoment?_eq] at hs'
    obtain rfl := Option.some.inj hs'
    exact ⟨ofInstant_lt_iff h.year h'.year, ofInstant_eq_iff h.year h'.year⟩

/-- Half an hour and half a second after midnight of the first of March 2024, on a clock that is 14
hours ahead of UTC. -/
def earlyMarch : Moment :=
  ⟨Date.dayNumber ⟨2024, 3, 1⟩ * microsPerDay + 1800500000, some (14 * 3600)⟩

/-- The stamp of that moment is one of a leap day. -/
theorem ofMoment?_roundTrip_earlyMarch : IsStampable earlyMarch ∧
    ofMoment? earlyMarch = some "2024-02-29T10:30:00Z" ∧
    read? "2024-02-29T10:30:00Z" = some (.utc (earlyMarch.instant - 500000)) := by
  have hyear : yearAt earlyMarch.instant = 2024 := by decide +kernel
  have hstampable : IsStampable earlyMarch :=
    ⟨⟨_, rfl⟩, ⟨by rw [hyear]; decide, by rw [hyear]; decide⟩⟩
  have hstamp : ofMoment? earlyMarch = some "2024-02-29T10:30:00Z" := by decide +kernel
  have hsecond : wholeSecond earlyMarch.instant = earlyMarch.instant - 500000 := by decide +kernel
  obtain ⟨s, hs, hread, -⟩ := ofMoment?_roundTrip hstampable
  obtain rfl := Option.some.inj (hs.symm.trans hstamp)
  rw [hsecond] at hread
  exact ⟨hstampable, hs, hread⟩

end AccessRules.Stamp
