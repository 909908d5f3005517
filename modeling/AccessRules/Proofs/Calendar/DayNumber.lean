import AccessRules.Calendar.Date
import Mathlib.Data.Nat.Basic

/-!
# Day numbers and dates

`Date.ofDayNumber` splits a day number into year, month and day; `Date.dayNumber` counts it together
again.  This file shows that nothing is lost on the way there and back.

1. **Years.**  `daysBeforeYear_succ` says how long a year is.  Since 400 years have 146097 days, the
   days before a year stay close to their mean (`daysBeforeYear_mean`), and so the year guessed from
   the mean is wrong by at most one: `Date.yearOf_bounds`.
2. **Months.**  `Date.splitMonths_spec` walks the lengths of the months and never loses a day.
3. **Dates.**  `Date.dayNumber_ofDayNumber` and, up to the last day of the calendar,
   `Date.isValid_ofDayNumber`.
-/

namespace AccessRules.Calendar

/-! ## Years -/

/-- The days before a year, counted by the years that have passed. -/
theorem daysBeforeYear_add_one (k : Nat) :
    daysBeforeYear (k + 1) = 365 * k + k / 4 - k / 100 + k / 400 := by
  simp only [daysBeforeYear, Nat.add_sub_cancel]

theorem isLeap_iff (y : Nat) : isLeap y = true ↔ 4 ∣ y ∧ (¬ 100 ∣ y ∨ 400 ∣ y) := by
  simp only [isLeap, Bool.and_eq_true, beq_iff_eq, Bool.or_eq_true, bne_iff_ne,
    Nat.dvd_iff_mod_eq_zero, ne_eq]

/-- The length of a year.  The cases are those of the leap-year rule: each divisibility of the next
year moves one of the three quotients on by one. -/
theorem daysBeforeYear_succ (y : Nat) (hy : 1 ≤ y) :
    daysBeforeYear (y + 1) = daysBeforeYear y + if isLeap y then 366 else 365 := by
  obtain ⟨k, rfl⟩ : ∃ k, y = k + 1 := ⟨y - 1, by omega⟩
  have hsub : k / 100 ≤ 365 * k := by omega
  have h100 : (100 : Nat) ∣ k + 1 → 4 ∣ k + 1 := fun h => Nat.dvd_trans ⟨25, rfl⟩ h
  have h400 : (400 : Nat) ∣ k + 1 → 100 ∣ k + 1 := fun h => Nat.dvd_trans ⟨4, rfl⟩ h
  rw [daysBeforeYear_add_one, daysBeforeYear_add_one, Nat.succ_div (b := 4),
    Nat.succ_div (b := 100), Nat.succ_div (b := 400)]
  simp only [isLeap_iff]
  generalize k / 4 = a at *
  generalize k / 100 = b at *
  generalize k / 400 = c at *
  by_cases d4 : 4 ∣ k + 1
  · by_cases d100 : 100 ∣ k + 1
    · by_cases d400 : 400 ∣ k + 1
      · simp only [d4, d100, d400, if_true, not_true, false_or, and_true]
        omega
      · simp only [d4, d100, d400, if_true, if_false, not_true, or_self, and_false]
        omega
    · have d400 : ¬ 400 ∣ k + 1 := fun h => d100 (h400 h)
      simp only [d4, d100, d400, if_true, if_false, not_false_eq_true, true_or, and_true]
      omega
  · have d100 : ¬ 100 ∣ k + 1 := fun h => d4 (h100 h)
    have d400 : ¬ 400 ∣ k + 1 := fun h => d100 (h400 h)
    simp only [d4, d100, d400, if_false, false_and]
    omega

theorem daysBeforeYear_mono {a b : Nat} (ha : 1 ≤ a) (h : a ≤ b) :
    daysBeforeYear a ≤ daysBeforeYear b := by
  induction b, h using Nat.le_induction with
  | base => exact Nat.le_refl _
  | succ b hb ih =>
    rw [daysBeforeYear_succ b (by omega)]
    split <;> omega

/-- The days before a year differ from their mean by less than two. -/
theorem daysBeforeYear_mean (k : Nat) :
    146097 * k ≤ 400 * daysBeforeYear (k + 1) + 700 ∧
      400 * daysBeforeYear (k + 1) ≤ 146097 * k + 400 := by
  rw [daysBeforeYear_add_one]
  omega

/-! ## Months -/

theorem sum_monthLengths (leap : Bool) :
    (monthLengths leap).foldr (· + ·) 0 = if leap then 366 else 365 := by
  cases leap <;> rfl

theorem daysInMonth_le (year month : Nat) : daysInMonth year month ≤ 31 := by
  unfold daysInMonth
  split
  · omega
  · rw [List.getD_eq_getElem?_getD]
    cases hget : (monthLengths (isLeap year))[month - 1]? with
    | none => simp
    | some len =>
      have hmem := List.mem_of_getElem? hget
      have hall : ∀ len ∈ monthLengths (isLeap year), len ≤ 31 := by
        cases isLeap year <;> decide
      exact hall len hmem

namespace Date

/-- Walking the months uses up exactly the months passed: the month reached is one of them, and
what is left of the days fits into it. -/
theorem splitMonths_spec (lens : List Nat) (m n : Nat) (h : n < lens.foldr (· + ·) 0) :
    ∃ i, (splitMonths lens m n).1 = m + i ∧ i < lens.length ∧
      1 ≤ (splitMonths lens m n).2 ∧ (splitMonths lens m n).2 ≤ lens.getD i 0 ∧
      (lens.take i).foldr (· + ·) 0 + ((splitMonths lens m n).2 - 1) = n := by
  induction lens generalizing m n with
  | nil => exact absurd h (Nat.not_lt_zero n)
  | cons len rest ih =>
    by_cases hn : n < len
    · -- the day lies in the first month
      refine ⟨0, ?_⟩
      simp only [splitMonths, if_pos hn]
      simp
      omega
    · -- the day lies in a later one, by what is left of the days
      simp only [List.foldr_cons] at h
      obtain ⟨i, hm, hi, hd, hle, hsum⟩ := ih (m + 1) (n - len) (by omega)
      refine ⟨i + 1, ?_⟩
      simp only [splitMonths, if_neg hn, hm, List.length_cons, List.getD_cons_succ,
        List.take_succ_cons, List.foldr_cons]
      omega

/-! ## Dates -/

/-- The year of a day begins no later than the day and ends after it. -/
theorem yearOf_bounds (n : Nat) :
    1 ≤ yearOf n ∧ daysBeforeYear (yearOf n) ≤ n ∧ n < daysBeforeYear (yearOf n + 1) := by
  simp only [yearOf]
  generalize hk : n * 400 / 146097 = k
  -- by the mean length of a year the first guess is at most one year off
  have hlow := (daysBeforeYear_mean (k - 1)).2
  have hhigh := (daysBeforeYear_mean (k + 1 + 1)).1
  split
  · next h =>
    have hpos : 1 ≤ k := by
      rcases Nat.eq_zero_or_pos k with rfl | hpos
      · simp [daysBeforeYear] at h
      · exact hpos
    rw [show k - 1 + 1 = k by omega] at hlow
    rw [Nat.add_sub_cancel]
    exact ⟨hpos, by omega, h⟩
  · next h =>
    split
    · next h' => exact ⟨by omega, h', by omega⟩
    · next h' => exact ⟨by omega, by omega, by omega⟩

theorem dayOfYear_lt (n : Nat) :
    n - daysBeforeYear (yearOf n) < (monthLengths (isLeap (yearOf n))).foldr (· + ·) 0 := by
  obtain ⟨hpos, hlow, hhigh⟩ := yearOf_bounds n
  rw [daysBeforeYear_succ _ hpos] at hhigh
  rw [sum_monthLengths]
  split at hhigh <;> rename_i h <;> simp only [h] <;> simp <;> omega

/-- Splitting a day number and counting it together again gives it back. -/
theorem dayNumber_ofDayNumber (n : Nat) : (ofDayNumber n).dayNumber = n := by
  obtain ⟨hpos, hlow, hhigh⟩ := yearOf_bounds n
  obtain ⟨i, hm, hi, hd, hle, hsum⟩ := splitMonths_spec _ 1 _ (dayOfYear_lt n)
  simp only [dayNumber, ofDayNumber, hm, Nat.add_sub_cancel_left]
  omega

theorem yearOf_le_lastYear {n : Nat} (h : n < dayCount) : yearOf n ≤ lastYear := by
  obtain ⟨hpos, hlow, hhigh⟩ := yearOf_bounds n
  rcases Nat.lt_or_ge lastYear (yearOf n) with hlt | hge
  · have hmono := daysBeforeYear_mono (a := lastYear + 1) (by decide) hlt
    have hlast : daysBeforeYear (lastYear + 1) = dayCount := by decide
    omega
  · exact hge

/-- The date of a day of the calendar is a date the calendar has. -/
theorem isValid_ofDayNumber {n : Nat} (h : n < dayCount) : (ofDayNumber n).isValid = true := by
  obtain ⟨hpos, hlow, hhigh⟩ := yearOf_bounds n
  obtain ⟨i, hm, hi, hd, hle, hsum⟩ := splitMonths_spec _ 1 _ (dayOfYear_lt n)
  have hlast := yearOf_le_lastYear h
  have hlen : (monthLengths (isLeap (yearOf n))).length = 12 := rfl
  simp only [isValid, ofDayNumber, hm, daysInMonth, Bool.and_eq_true, decide_eq_true_eq]
  rw [if_neg (by omega), Nat.add_sub_cancel_left]
  omega

/-- The numbers of a date that the calendar has fit the widths they are written with. -/
theorem fits_of_isValid {d : Date} (h : d.isValid = true) :
    d.year < 10000 ∧ d.month < 100 ∧ d.day < 100 := by
  simp only [isValid, Bool.and_eq_true, decide_eq_true_eq] at h
  obtain ⟨⟨⟨⟨⟨-, hyear⟩, -⟩, hmonth⟩, -⟩, hday⟩ := h
  have hlast := daysInMonth_le d.year d.month
  simp only [lastYear] at hyear
  omega

theorem ofDayNumber_fits {n : Nat} (h : n < dayCount) :
    (ofDayNumber n).year < 10000 ∧ (ofDayNumber n).month < 100 ∧ (ofDayNumber n).day < 100 :=
  fits_of_isValid (isValid_ofDayNumber h)

end Date

end AccessRules.Calendar
