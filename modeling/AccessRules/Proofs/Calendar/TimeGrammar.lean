import Mathlib.Data.List.Induction
import AccessRules.Proofs.Calendar.TextOrder
import AccessRules.Proofs.Text.Numerals

/-!
# What the readers of times accept

**Program** — `takeFixed?`, `takeDate?`, `takeTime?` and `readOffset?` read the pieces of a time
from the start of a text.

**Spec** — what was read stands there: a number of a fixed width as its digits
(`takeFixed?_eq_some`), a date as the text of that date (`takeDate?_eq_some`), a time of day as
hours, minutes and seconds that a clock can show, with colons between them (`takeTime?_eq_some`).
So every text is read in one way, and the first characters of a time tell its date and its minute
(`minuteText_inj`).

**Crux** — digits are the digits of the number they are read as, with as many places
(`eq_fixed_of_value?`).
-/

namespace AccessRules

namespace Text

/-- A digit is the last one of every number that ends with it. -/
theorem digitChar_of_isDigit {c : Char} (hc : isDigit c = true) (k : Nat) :
    digitChar (k * 10 + digitValue c) = c := by
  have hlast : 48 + (k * 10 + digitValue c) % 10 = c.toNat := by
    simp only [isDigit, Bool.and_eq_true, decide_eq_true_eq] at hc
    unfold digitValue
    omega
  rw [digitChar, hlast, Char.ofNat_toNat]

/-- **Digits are those of the number they stand for**, which has no more places. -/
theorem eq_fixed_of_isDigit {ds : List Char} (h : ds.all isDigit = true) :
    digitsFrom 0 ds < 10 ^ ds.length ∧ ds = fixed ds.length (digitsFrom 0 ds) := by
  have hdigits : ds = fixed ds.length (digitsFrom 0 ds) := by
    induction ds using List.reverseRecOn with
    | nil => rfl
    | append_singleton ds c ih =>
      rw [List.all_append, Bool.and_eq_true] at h
      have hc : isDigit c = true := by simpa using h.2
      have hlt := digitValue_lt hc
      have hnumber : digitsFrom 0 (ds ++ [c]) = digitsFrom 0 ds * 10 + digitValue c :=
        digitsFrom_append 0 ds [c]
      have hfront : (digitsFrom 0 ds * 10 + digitValue c) / 10 = digitsFrom 0 ds := by omega
      rw [hnumber, List.length_append, List.length_singleton, fixed, hfront,
        digitChar_of_isDigit hc, ← ih h.1]
  refine ⟨?_, hdigits⟩
  have hvalue := congrArg (digitsFrom 0) hdigits
  rw [digitsFrom_fixed] at hvalue
  rw [hvalue]
  exact Nat.mod_lt _ (Nat.pow_pos (by decide))

/-- A number is told by its digits, if it has as many places. -/
theorem fixed_inj {w m n : Nat} (hm : m < 10 ^ w) (hn : n < 10 ^ w) :
    fixed w m = fixed w n ↔ m = n := by
  refine ⟨fun h => ?_, fun h => by rw [h]⟩
  have hvalue := congrArg (digitsFrom 0) h
  rw [digitsFrom_fixed, digitsFrom_fixed] at hvalue
  rwa [show Nat.pow 10 w = 10 ^ w from rfl, Nat.mod_eq_of_lt hm, Nat.mod_eq_of_lt hn] at hvalue

end Text

namespace Calendar

open Text

/-! ## Pieces -/

/-- **A number of a fixed width is read from its digits.** -/
theorem takeFixed?_eq_some {w n : Nat} {cs rest : List Char}
    (h : takeFixed? w cs = some (n, rest)) : n < 10 ^ w ∧ cs = fixed w n ++ rest := by
  rw [takeFixed?] at h
  split at h
  · next k hk =>
    split at h
    · next hlength =>
      obtain ⟨rfl, rfl⟩ := Prod.mk.inj (Option.some.inj h)
      obtain ⟨-, hall, rfl⟩ := value?_eq_some.mp hk
      obtain ⟨hlt, hdigits⟩ := eq_fixed_of_isDigit hall
      rw [hlength] at hlt hdigits
      exact ⟨hlt, by rw [← hdigits, List.take_append_drop]⟩
    · cases h
  · cases h

theorem takeChar?_eq_some {c : Char} {cs rest : List Char} (h : takeChar? c cs = some rest) :
    cs = c :: rest := by
  cases cs with
  | nil => cases h
  | cons d cs =>
    rw [takeChar?] at h
    split at h
    · next heq => rw [heq, Option.some.inj h]
    · cases h

/-- **A date is read from its text.** -/
theorem takeDate?_eq_some {cs rest : List Char} {year month day : Nat}
    (h : takeDate? cs = some ((year, month, day), rest)) :
    year < 10000 ∧ month < 100 ∧ day < 100 ∧ cs = Moment.dateText ⟨year, month, day⟩ ++ rest := by
  simp only [takeDate?, Option.bind_eq_bind, Option.bind_eq_some_iff, Option.some.injEq,
    Prod.exists, Prod.mk.injEq] at h
  obtain ⟨y, afterYear, hyear, afterDash, hdash, m, afterMonth, hmonth, afterDash', hdash', d,
    afterDay, hday, ⟨rfl, rfl, rfl⟩, rfl⟩ := h
  obtain ⟨hy, rfl⟩ := takeFixed?_eq_some hyear
  obtain ⟨hm, rfl⟩ := takeFixed?_eq_some hmonth
  obtain ⟨hd, rfl⟩ := takeFixed?_eq_some hday
  rw [takeChar?_eq_some hdash, takeChar?_eq_some hdash']
  exact ⟨hy, hm, hd, by simp [Moment.dateText]⟩

/-- Six digits are taken of a fraction, zeros standing for those that are missing. -/
theorem fractionMicros_lt {digits : List Char} (h : digits.all isDigit = true) :
    fractionMicros digits < 1000000 := by
  have hall : ((digits ++ List.replicate 6 '0').take 6).all isDigit = true := by
    refine List.all_eq_true.mpr fun c hc => ?_
    rcases List.mem_append.mp (List.mem_of_mem_take hc) with hc | hc
    · exact List.all_eq_true.mp h c hc
    · rw [(List.mem_replicate.mp hc).2]
      decide
  have hlength : ((digits ++ List.replicate 6 '0').take 6).length = 6 := by simp
  have hlt := (eq_fixed_of_isDigit hall).1
  rwa [hlength] at hlt

theorem takeFraction?_lt {marks cs rest : List Char} {micros : Nat}
    (h : takeFraction? marks cs = some (micros, rest)) : micros < 1000000 := by
  cases cs with
  | nil =>
    cases h
    decide
  | cons c cs =>
    have hall : (Decimal.takeDigits cs).1.all isDigit = true := List.all_takeWhile
    rcases hdigits : Decimal.takeDigits cs with ⟨digits, afterDigits⟩
    rw [hdigits] at hall
    by_cases hmark : marks.contains c = true
    · simp only [takeFraction?, hmark, if_true, hdigits] at h
      by_cases hempty : digits.isEmpty = true
      · rw [if_pos hempty] at h
        cases h
      · rw [if_neg hempty] at h
        cases h
        exact fractionMicros_lt hall
    · simp only [takeFraction?, if_neg hmark] at h
      cases h
      decide

/-- The first characters of a time: the date, hours and minutes. -/
def minuteText (d : Date) (hours minutes : Nat) : List Char :=
  Moment.dateText d ++ 'T' :: (fixed 2 hours ++ ':' :: (fixed 2 minutes ++ [':']))

/-- **A time of day is read from hours, minutes and seconds** that a clock can show. -/
theorem takeTime?_eq_some {marks cs rest : List Char} {micros : Nat}
    (h : takeTime? marks cs = some (micros, rest)) :
    ∃ hours minutes seconds fraction tail, clockShows hours minutes seconds = true ∧
      fraction < 1000000 ∧ micros = clockMicros hours minutes seconds fraction ∧
      cs = fixed 2 hours ++ ':' :: (fixed 2 minutes ++ ':' :: (fixed 2 seconds ++ tail)) := by
  simp only [takeTime?, Option.bind_eq_bind, Option.bind_eq_some_iff, Prod.exists] at h
  obtain ⟨hours, afterHours, hhours, afterColon, hcolon, minutes, afterMinutes, hminutes,
    afterColon', hcolon', seconds, afterSeconds, hseconds, fraction, afterFraction, hfraction,
    h⟩ := h
  split at h
  · next hshows =>
    obtain ⟨rfl, rfl⟩ := Prod.mk.inj (Option.some.inj h)
    refine ⟨hours, minutes, seconds, fraction, afterSeconds, hshows, takeFraction?_lt hfraction,
      rfl, ?_⟩
    rw [(takeFixed?_eq_some hhours).2, takeChar?_eq_some hcolon, (takeFixed?_eq_some hminutes).2,
      takeChar?_eq_some hcolon', (takeFixed?_eq_some hseconds).2]
  · cases h

/-- An offset that is written is read, and is shorter than a day. -/
theorem readOffset?_eq_some {cs : List Char} {offset : Option Int} (hne : cs ≠ [])
    (h : readOffset? cs = some offset) : ∃ o, offset = some o ∧ o.natAbs < 86400 := by
  rw [readOffset?.eq_def] at h
  split at h
  · exact absurd rfl hne
  · exact ⟨0, (Option.some.inj h).symm, by decide⟩
  · next sign cs _ =>
    simp only [Option.bind_eq_bind, Option.bind_eq_some_iff, Prod.exists] at h
    obtain ⟨seconds, rest, -, h⟩ := h
    split at h
    · cases h
    · next hfits =>
      have hlt : seconds < 86400 := by
        simp only [offsetFits, Bool.or_eq_true, Bool.not_eq_true', decide_eq_false_iff_not,
          not_or, Nat.not_lt] at hfits
        omega
      split at h
      · exact ⟨seconds, (Option.some.inj h).symm, by omega⟩
      · split at h
        · exact ⟨-seconds, (Option.some.inj h).symm, by omega⟩
        · cases h

/-! ## The first characters of a time -/

theorem dateText_length (d : Date) : (Moment.dateText d).length = 10 := by
  simp [Moment.dateText]

/-- **The first characters of a time tell its date and its minute.** -/
theorem minuteText_inj {d d' : Date} {hours hours' minutes minutes' : Nat} (hd : d.isValid = true)
    (hd' : d'.isValid = true) (hh : hours < 100) (hh' : hours' < 100) (hm : minutes < 100)
    (hm' : minutes' < 100) (h : minuteText d hours minutes = minuteText d' hours' minutes') :
    d = d' ∧ hours = hours' ∧ minutes = minutes' := by
  have hfits := Date.fits_of_isValid hd
  have hfits' := Date.fits_of_isValid hd'
  simp only [minuteText, Moment.dateText, List.append_assoc, List.cons_append] at h
  obtain ⟨hyear, h⟩ := List.append_inj h (by simp)
  obtain ⟨hmonth, h⟩ := List.append_inj (List.cons.inj h).2 (by simp)
  obtain ⟨hday, h⟩ := List.append_inj (List.cons.inj h).2 (by simp)
  obtain ⟨hhours, h⟩ := List.append_inj (List.cons.inj h).2 (by simp)
  obtain ⟨hminutes, -⟩ := List.append_inj (List.cons.inj h).2 (by simp)
  rw [fixed_inj hfits.1 hfits'.1] at hyear
  rw [fixed_inj hfits.2.1 hfits'.2.1] at hmonth
  rw [fixed_inj hfits.2.2 hfits'.2.2] at hday
  rw [fixed_inj hh hh'] at hhours
  rw [fixed_inj hm hm'] at hminutes
  exact ⟨by cases d; cases d'; simp_all, hhours, hminutes⟩

end Calendar

end AccessRules
