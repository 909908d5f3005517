import Mathlib.Data.String.Basic
import AccessRules.Proofs.Calendar.TimeText

/-!
# Stored times in the order of their texts

**Program** — `storedText` writes an instant as text, and stored rows are compared by these texts.

**Spec** — the texts of two instants of the calendar stand in the order of the instants
(`storedText_lt_iff`), with fractions of a second or without.

**Crux** — numbers of equal width stand in the order of their digits, so the first number that
differs decides, whatever comes after it (`fixed_append_lt`).  The one place where two texts differ
in form is behind the seconds: the text of a whole second goes on with the sign of its offset, any
other with the point of its fraction, and the sign stands before the point.  It remains that dates
stand in the order of their days, which is counted out by years, months and days
(`Date.before_of_lt`).
-/

namespace AccessRules.Calendar

open Text

/-! ## Digits -/

theorem digitChar_lt {m n : Nat} (h : m % 10 < n % 10) : digitChar m < digitChar n := by
  have hn : n % 10 < 10 := Nat.mod_lt _ (by decide)
  unfold digitChar
  generalize m % 10 = a at h
  generalize n % 10 = b at h hn
  have hall : ∀ b < 10, ∀ a < b, Char.ofNat (48 + a) < Char.ofNat (48 + b) := by decide
  exact hall b hn a h

/-- Of two numbers of one width the smaller stands first, whatever follows them.  By induction on
the width: if all digits but the last agree, the last ones decide. -/
theorem fixed_append_lt {w m n : Nat} (hn : n < 10 ^ w) (h : m < n) (a b : List Char) :
    fixed w m ++ a < fixed w n ++ b := by
  induction w generalizing m n a b with
  | zero =>
    rw [Nat.pow_zero] at hn
    omega
  | succ w ih =>
    rw [Nat.pow_succ] at hn
    rw [fixed, fixed, List.append_assoc, List.append_assoc]
    rcases Nat.lt_or_ge (m / 10) (n / 10) with hlt | hge
    · exact ih (by omega) hlt _ _
    · have hsame : m / 10 = n / 10 := by omega
      have hlast : m % 10 < n % 10 := by omega
      rw [hsame]
      exact List.append_left_lt (List.cons_lt_cons_iff.mpr (.inl (digitChar_lt hlast)))

/-- What follows the same character decides. -/
theorem cons_lt {a b : List Char} (c : Char) (h : a < b) : c :: a < c :: b :=
  List.cons_lt_cons_iff.mpr (.inr ⟨rfl, h⟩)

/-! ## Dates -/

namespace Date

/-- A date stands before another: its year is earlier, or in the same year its month, or in the
same month its day. -/
def Before (d d' : Date) : Prop :=
  d.year < d'.year ∨
    (d.year = d'.year ∧ (d.month < d'.month ∨ (d.month = d'.month ∧ d.day < d'.day)))

/-- A month of a year is over before any later one begins. -/
theorem months_before (leap : Bool) : ∀ j < 13, ∀ i < j,
    ((monthLengths leap).take i).foldr (· + ·) 0 + (monthLengths leap).getD i 0 ≤
      ((monthLengths leap).take j).foldr (· + ·) 0 := by
  cases leap <;> decide

/-- A valid date lies in its month. -/
theorem month_day_of_isValid {d : Date} (h : d.isValid = true) :
    1 ≤ d.month ∧ d.month ≤ 12 ∧ 1 ≤ d.day ∧
      d.day ≤ (monthLengths (isLeap d.year)).getD (d.month - 1) 0 := by
  simp only [isValid, Bool.and_eq_true, decide_eq_true_eq] at h
  obtain ⟨⟨⟨⟨⟨-, -⟩, hfirst⟩, hlast⟩, hday⟩, hlength⟩ := h
  rw [daysInMonth, if_neg (by omega)] at hlength
  exact ⟨hfirst, hlast, hday, hlength⟩

/-- Of two dates of a year the one of the earlier month has the smaller day number. -/
theorem dayNumber_lt_of_month {d d' : Date} (h : d.isValid = true) (h' : d'.isValid = true)
    (hyear : d.year = d'.year) (hmonth : d.month < d'.month) : d.dayNumber < d'.dayNumber := by
  obtain ⟨hfirst, -, hday, hlength⟩ := month_day_of_isValid h
  obtain ⟨-, hlast', -, -⟩ := month_day_of_isValid h'
  have hbefore := months_before (isLeap d.year) (d'.month - 1) (by omega) (d.month - 1) (by omega)
  rw [dayNumber, dayNumber, ← hyear]
  omega

/-- A date lies in its year. -/
theorem dayNumber_lt_of_year {d : Date} (h : d.isValid = true) :
    d.dayNumber < daysBeforeYear (d.year + 1) := by
  obtain ⟨hfirst, hlast, hday, hlength⟩ := month_day_of_isValid h
  have hyear : 1 ≤ d.year := by
    simp only [isValid, Bool.and_eq_true, decide_eq_true_eq] at h
    exact h.1.1.1.1.1
  have hbefore := months_before (isLeap d.year) 12 (by decide) (d.month - 1) (by omega)
  have hall : (monthLengths (isLeap d.year)).take 12 = monthLengths (isLeap d.year) := rfl
  rw [hall, sum_monthLengths] at hbefore
  rw [daysBeforeYear_succ _ hyear, dayNumber]
  omega

/-- **A date that stands before another has the smaller day number.** -/
theorem dayNumber_lt_of_before {d d' : Date} (h : d.isValid = true) (h' : d'.isValid = true)
    (hbefore : d.Before d') : d.dayNumber < d'.dayNumber := by
  obtain ⟨-, -, hday, -⟩ := month_day_of_isValid h
  rcases hbefore with hyear | ⟨hyear, hmonth | ⟨hmonth, hdays⟩⟩
  · have hlast := dayNumber_lt_of_year h
    have hmono := daysBeforeYear_mono (by omega) (Nat.succ_le_of_lt hyear)
    have hfirst : daysBeforeYear d'.year ≤ d'.dayNumber := by
      rw [dayNumber]
      omega
    exact Nat.lt_of_lt_of_le hlast (Nat.le_trans hmono hfirst)
  · exact dayNumber_lt_of_month h h' hyear hmonth
  · rw [dayNumber, dayNumber, hyear, hmonth]
    omega

/-- Of two dates one stands before the other, unless they are the same. -/
theorem before_or_eq_or_before (d d' : Date) : d.Before d' ∨ d = d' ∨ d'.Before d := by
  rcases d with ⟨year, month, day⟩
  rcases d' with ⟨year', month', day'⟩
  simp only [Before, Date.mk.injEq]
  omega

/-- **The dates of two days stand in the order of the days.** -/
theorem before_of_lt {n n' : Nat} (h : n < n') (hn' : n' < dayCount) :
    Before (ofDayNumber n) (ofDayNumber n') := by
  have hnumber := dayNumber_ofDayNumber n
  have hnumber' := dayNumber_ofDayNumber n'
  rcases before_or_eq_or_before (ofDayNumber n) (ofDayNumber n') with hbefore | heq | hafter
  · exact hbefore
  · rw [heq] at hnumber
    omega
  · have hlt := dayNumber_lt_of_before (isValid_ofDayNumber hn')
      (isValid_ofDayNumber (h.trans hn')) hafter
    omega

end Date

/-! ## The parts of a text -/

namespace Moment

theorem dateText_append_lt {d d' : Date} (h : d.Before d') (hyear : d'.year < 10000)
    (hmonth : d'.month < 100) (hday : d'.day < 100) (a b : List Char) :
    dateText d ++ a < dateText d' ++ b := by
  simp only [dateText, List.append_assoc, List.cons_append]
  rcases h with hlt | ⟨heq, hlt | ⟨heq', hlt⟩⟩
  · exact fixed_append_lt hyear hlt _ _
  · rw [heq]
    exact List.append_left_lt (cons_lt _ (fixed_append_lt hmonth hlt _ _))
  · rw [heq, heq']
    exact List.append_left_lt (cons_lt _ (List.append_left_lt
      (cons_lt _ (fixed_append_lt hday hlt _ _))))

theorem clock_append_lt {s s' : Nat} (h : s < s') (hs' : s' < 86400) (a b : List Char) :
    clock s ++ a < clock s' ++ b := by
  simp only [clock, List.append_assoc, List.cons_append]
  rcases Nat.lt_or_ge (s / 3600) (s' / 3600) with hlt | hge
  · exact fixed_append_lt (by omega) hlt _ _
  have hhours : s / 3600 = s' / 3600 := by omega
  rw [hhours]
  refine List.append_left_lt (cons_lt _ ?_)
  rcases Nat.lt_or_ge (s / 60 % 60) (s' / 60 % 60) with hlt | hge
  · exact fixed_append_lt (by omega) hlt _ _
  have hminutes : s / 60 % 60 = s' / 60 % 60 := by omega
  rw [hminutes]
  exact List.append_left_lt (cons_lt _ (fixed_append_lt (by omega) (by omega) _ _))

/-- A smaller fraction stands first, also one that is not written. -/
theorem fractionText_append_lt {f f' : Nat} (h : f < f') (hf' : f' < 1000000) (a : List Char) :
    fractionText f ++ '+' :: a < fractionText f' ++ '+' :: a := by
  rw [fractionText, fractionText, if_neg (show f' ≠ 0 by omega)]
  by_cases hzero : f = 0
  · rw [if_pos hzero]
    exact List.cons_lt_cons_iff.mpr (.inl (by decide))
  · rw [if_neg hzero]
    exact cons_lt _ (fixed_append_lt hf' h _ _)

/-- The characters of a text of a moment up to its second. -/
def secondChars (m : Moment) : List Char :=
  dateText m.date ++ 'T' :: clock (m.timeOfDay / 1000000)

/-- What is shown up to the second depends on the second alone. -/
theorem secondChars_congr {s t : Int} (h : s / microsPerSecond = t / microsPerSecond) :
    (utc s).secondChars = (utc t).secondChars := by
  simp only [microsPerSecond] at h
  have hday : s / microsPerDay = t / microsPerDay := by
    simp only [microsPerDay, microsPerSecond]
    omega
  have htime : (utc s).timeOfDay / 1000000 = (utc t).timeOfDay / 1000000 := by
    simp only [timeOfDay, utc, microsPerDay, microsPerSecond]
    omega
  have hdate : (utc s).date = (utc t).date := by
    simp only [date, utc, hday]
  rw [secondChars, secondChars, hdate, htime]

/-- **A later second stands later**, whatever follows it: its date decides, or on one day its time
of day. -/
theorem secondChars_append_lt {s t : Int} (hs : 0 ≤ s) (ht : inCalendar t = true)
    (h : s / microsPerSecond < t / microsPerSecond) (a b : List Char) :
    (utc s).secondChars ++ a < (utc t).secondChars ++ b := by
  have hday := dayNumber_lt (m := utc t) ht
  simp only [microsPerSecond] at h
  simp only [secondChars, List.append_assoc, List.cons_append]
  rcases Nat.lt_or_ge (s / microsPerDay).toNat (t / microsPerDay).toNat with hlt | hge
  · obtain ⟨hyear, hmonth, hd⟩ := Date.ofDayNumber_fits hday
    exact dateText_append_lt (Date.before_of_lt hlt hday) hyear hmonth hd _ _
  · simp only [microsPerDay, microsPerSecond] at hge
    have hnumber : (s / microsPerDay).toNat = (t / microsPerDay).toNat := by
      simp only [microsPerDay, microsPerSecond]
      omega
    have hsame : (utc s).date = (utc t).date := congrArg Date.ofDayNumber hnumber
    have htime : (utc s).timeOfDay / 1000000 < (utc t).timeOfDay / 1000000 := by
      simp only [timeOfDay, utc, microsPerDay, microsPerSecond]
      omega
    have hless : (utc t).timeOfDay / 1000000 < 86400 := by
      simp only [timeOfDay, microsPerDay, microsPerSecond]
      omega
    rw [hsame]
    exact List.append_left_lt (cons_lt _ (clock_append_lt htime hless _ _))

/-- The text of an instant ends in the offset of UTC. -/
theorem isoChars_utc (t : Instant) : (utc t).isoChars =
    (utc t).secondChars ++
      (fractionText ((utc t).timeOfDay % 1000000) ++ '+' :: "00:00".toList) := by
  simp only [isoChars, secondChars, utc, List.append_assoc, List.cons_append]
  rfl

theorem isoChars_utc_lt {s t : Int} (hs : inCalendar s = true) (ht : inCalendar t = true)
    (h : s < t) : (utc s).isoChars < (utc t).isoChars := by
  have hstart := (inCalendar_iff.mp hs).1
  rw [isoChars_utc, isoChars_utc]
  rcases Int.lt_or_le (s / microsPerSecond) (t / microsPerSecond) with hlt | hge
  · exact secondChars_append_lt hstart ht hlt _ _
  · -- within a second the fraction decides
    simp only [microsPerSecond] at hge
    have hsecond : s / microsPerSecond = t / microsPerSecond := by
      simp only [microsPerSecond]
      omega
    have hfraction : (utc s).timeOfDay % 1000000 < (utc t).timeOfDay % 1000000 := by
      simp only [timeOfDay, utc, microsPerDay, microsPerSecond]
      omega
    rw [secondChars_congr hsecond]
    exact List.append_left_lt (fractionText_append_lt hfraction (Nat.mod_lt _ (by decide)) _)

end Moment

/-! ## Stored times -/

theorem storedText_lt {s t : Instant} (hs : inCalendar s = true) (ht : inCalendar t = true)
    (h : s < t) : storedText s < storedText t := by
  rw [storedText, storedText, Moment.iso, Moment.iso, String.lt_iff_toList_lt,
    String.toList_ofList, String.toList_ofList]
  exact Moment.isoChars_utc_lt hs ht h

/-- **Stored times stand in the order of their texts.** -/
theorem storedText_lt_iff {s t : Instant} (hs : inCalendar s = true) (ht : inCalendar t = true) :
    storedText s < storedText t ↔ s < t := by
  refine ⟨fun hlt => ?_, storedText_lt hs ht⟩
  rcases lt_trichotomy s t with h | rfl | h
  · exact h
  · exact absurd hlt (lt_irrefl _)
  · exact absurd hlt (storedText_lt ht hs h).asymm

theorem storedText_le_iff {s t : Instant} (hs : inCalendar s = true) (ht : inCalendar t = true) :
    storedText s ≤ storedText t ↔ s ≤ t := by
  rw [← not_lt, storedText_lt_iff ht hs, not_lt]

end AccessRules.Calendar
