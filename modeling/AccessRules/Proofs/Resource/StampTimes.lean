import AccessRules.Proofs.Calendar.TimeText
import AccessRules.Resource.Stamp

/-!
# Stamps as times

**Program** — `Stamp.ofInstant` writes the stamp of an instant, `Stamp.read?` reads the moment that a
stamp names, and `Stamp.isStale` compares it with the clock and with the time a rule was stored.

**Spec** — what is read back is the instant with the fraction of its second cut off
(`read?_ofInstant`), for the years that are written with four digits.  A fresh stamp is no earlier
than the end of the rule's grace (`isStale_eq_false`); and once a rule is settled, a stamp is stale if
the cooldown has passed since that whole second, and not before (`isStale_of_settled`).

**Crux** — the year of a stamp is written with as many digits as it has and read with exactly four.
So the years from 1000 on are the ones whose stamps are read back at all; from there on the pieces
are those of every other text of a time.
-/

namespace AccessRules

/-! ## Numbers of a known width -/

namespace Text

/-- The digits of a number, for a number of `w + 1` digits. -/
theorem toDigits_eq_fixed {w n : Nat} (hlow : Nat.pow 10 w ≤ n) (hhigh : n < Nat.pow 10 (w + 1)) :
    Nat.toDigits 10 n = fixed (w + 1) n := by
  have hlast : ∀ k, Nat.digitChar (k % 10) = digitChar k := fun k => by
    have hk : k % 10 < 10 := Nat.mod_lt _ (by decide)
    rw [digitChar]
    generalize k % 10 = d at hk
    match d, hk with
    | 0, _ | 1, _ | 2, _ | 3, _ | 4, _ | 5, _ | 6, _ | 7, _ | 8, _ | 9, _ => rfl
  induction w generalizing n with
  | zero =>
    have hdigit : n < 10 := hhigh
    rw [Nat.toDigits_of_lt_base hdigit, fixed, ← hlast, Nat.mod_eq_of_lt hdigit]
    rfl
  | succ w ih =>
    have hpow : Nat.pow 10 (w + 1) = Nat.pow 10 w * 10 := rfl
    have hpow' : Nat.pow 10 (w + 1 + 1) = Nat.pow 10 (w + 1) * 10 := rfl
    have hpos : 0 < Nat.pow 10 w := Nat.pow_pos (by decide)
    rw [Nat.toDigits_of_base_le (by decide) (by omega), ih (by omega) (by omega), hlast]
    rfl

end Text

namespace Calendar

open Text

/-! ## Whole seconds -/

/-- An instant with the fraction of its second cut off. -/
def wholeSecond (t : Instant) : Instant := t / microsPerSecond * microsPerSecond

theorem wholeSecond_le (t : Instant) : wholeSecond t ≤ t := by
  dsimp only [Instant, wholeSecond, microsPerSecond]
  omega

theorem lt_wholeSecond (t : Instant) : t - microsPerSecond < wholeSecond t := by
  dsimp only [Instant, wholeSecond, microsPerSecond]
  omega

theorem wholeSecond_mono {t t' : Instant} (h : t ≤ t') : wholeSecond t ≤ wholeSecond t' := by
  dsimp only [Instant, wholeSecond, microsPerSecond] at *
  omega

/-- The year of an instant in UTC. -/
def yearAt (t : Instant) : Nat := (Moment.utc t).date.year

/-- The years of the calendar after the first belong to instants of the calendar. -/
theorem inCalendar_of_yearAt {t : Instant} (hlow : 2 ≤ yearAt t) (hhigh : yearAt t ≤ lastYear) :
    inCalendar t = true := by
  obtain ⟨-, hstart, hend⟩ := Date.yearOf_bounds (t / microsPerDay).toNat
  have hyear : Date.yearOf (t / microsPerDay).toNat = yearAt t := rfl
  rw [hyear] at hstart hend
  have hfirst : 365 ≤ daysBeforeYear (yearAt t) := daysBeforeYear_mono (by decide) hlow
  have hlast : daysBeforeYear (yearAt t + 1) ≤ dayCount :=
    daysBeforeYear_mono (b := lastYear + 1) (by omega) (by omega)
  rw [inCalendar_iff]
  simp only [endOfTime, dayCount, microsPerDay, microsPerSecond] at *
  omega

/-- A clock that shows whole seconds shows the same date. -/
theorem date_wholeSecond (t : Instant) :
    (Moment.utc (wholeSecond t)).date = (Moment.utc t).date := by
  have hday : wholeSecond t / microsPerDay = t / microsPerDay := by
    dsimp only [Instant, wholeSecond, microsPerDay, microsPerSecond]
    omega
  simp only [Moment.date, Moment.utc, hday]

/-- A clock that shows whole seconds shows the same seconds, and no fraction. -/
theorem timeOfDay_wholeSecond (t : Instant) :
    (Moment.utc (wholeSecond t)).timeOfDay = (Moment.utc t).timeOfDay / 1000000 * 1000000 := by
  simp only [Moment.timeOfDay, Moment.utc, wholeSecond, microsPerDay, microsPerSecond]
  omega

theorem inCalendar_wholeSecond {t : Instant} (h : inCalendar t = true) :
    inCalendar (wholeSecond t) = true := by
  rw [inCalendar_iff] at h ⊢
  refine ⟨?_, Int.lt_of_le_of_lt (wholeSecond_le t) h.2⟩
  dsimp only [Instant, wholeSecond, microsPerSecond]
  omega

end Calendar

/-- Moving a clock moves the instant it shows. -/
theorem Calendar.Moment.instant_of_shift? {m m' : Moment} {d : Duration}
    (h : m.shift? d = some m') : m'.instant = m.instant + d := by
  rw [shift?] at h
  split at h
  · obtain rfl := Option.some.inj h
    simp only [instant]
    lia
  · cases h

/-! ## Stamps -/

namespace Stamp

open Calendar Text

/-- The characters of a stamp whose year has four digits. -/
theorem toList_ofInstant {t : Instant} (hlow : 1000 ≤ yearAt t) (hhigh : yearAt t ≤ lastYear) :
    (ofInstant t).toList = (Moment.utc (wholeSecond t)).clockChars ++ ['Z'] := by
  have hyear : (toString (Moment.utc t).date.year).toList = fixed 4 (Moment.utc t).date.year := by
    rw [Nat.toString_eq_repr, Nat.repr, String.toList_ofList]
    exact toDigits_eq_fixed hlow (Nat.lt_succ_of_le hhigh)
  have hseconds : (Moment.utc t).timeOfDay / 1000000 * 1000000 / 1000000 =
      (Moment.utc t).timeOfDay / 1000000 := by omega
  have hfraction : (Moment.utc t).timeOfDay / 1000000 * 1000000 % 1000000 = 0 := by omega
  simp only [ofInstant, String.toList_ofList, hyear, Moment.clockChars, Moment.dateText,
    date_wholeSecond, timeOfDay_wholeSecond, hseconds, hfraction, Moment.fractionText, if_true,
    List.append_assoc, List.cons_append, List.append_nil]

/-- Behind the time of a stamp that was written stands its `Z`. -/
theorem behindDigits_zulu (length : Nat) : behindDigits length ['Z'] = ['Z'] := by
  rw [behindDigits]
  split <;> rfl

/-- **A stamp is read back as the instant it was made of, to the second.** -/
theorem read?_ofInstant {t : Instant} (hlow : 1000 ≤ yearAt t) (hhigh : yearAt t ≤ lastYear) :
    read? (ofInstant t) = some (.utc (wholeSecond t)) := by
  have hin : inCalendar (Moment.utc (wholeSecond t)).reading = true :=
    inCalendar_wholeSecond (inCalendar_of_yearAt (by omega) hhigh)
  have hz : EndsTime ['.'] ['Z'] := by
    intro c hc
    obtain rfl : c = 'Z' := by simpa using hc.symm
    decide
  have hoffset : readOffset? ['Z'] = some (some 0) := rfl
  simp only [read?, readChars?, toList_ofInstant hlow hhigh, Moment.takeDate?_clockChars hin,
    takeChar?_cons, Moment.takeTime?_timeOfDay _ rfl hz, behindDigits_zulu, hoffset,
    Moment.moment?_fields hin, Option.bind_eq_bind, Option.bind_some, decide_true, Bool.true_or, if_true]
  rfl

/-- A stamp says something. -/
theorem ofInstant_ne_empty (t : Instant) : (ofInstant t).isEmpty = false := by
  rw [← Bool.not_eq_true, String.isEmpty_iff, ← String.toList_eq_nil_iff]
  simp [ofInstant]

/-! ## Fresh and stale stamps -/

variable {w : Windows} {created : Moment}

/-- The grace of a rule is over by the whole second of an instant. -/
def isSettled (w : Windows) (created : Moment) (t : Instant) : Bool :=
  (created.shift? w.grace).any fun settled => decide (settled.instant ≤ wholeSecond t)

/-- A fresh stamp is no earlier than the end of the rule's grace. -/
theorem isStale_eq_false {stamp : Option String} {now : Moment}
    (h : isStale w created stamp now = .ok false) :
    ∃ s last, stamp = some s ∧ read? s = some last ∧ created.instant + w.grace ≤ last.instant := by
  rw [isStale] at h
  split at h
  · cases h
  · next last hlast =>
    obtain ⟨s, hs, hread⟩ := Option.bind_eq_some_iff.mp hlast
    obtain ⟨rfl, -⟩ := Option.filter_eq_some_iff.mp hs
    refine ⟨s, last, rfl, hread, ?_⟩
    split at h
    · cases h
    · next settled hsettled =>
      rw [← Moment.instant_of_shift? hsettled]
      split at h
      · cases h
      · next hle => exact Int.not_lt.mp hle

/-- **For a settled rule the age of a stamp is counted from its whole second.** -/
theorem isStale_of_settled {t t' : Instant} (hlow : 1000 ≤ yearAt t') (hhigh : yearAt t' ≤ lastYear)
    (hsettled : isSettled w created t = true) (hle : t ≤ t') (now : Moment) :
    isStale w created (some (ofInstant t')) now =
      ((Moment.utc (wholeSecond t')).shift? w.cooldown).elim (.error .dateOutOfRange)
        fun renewable => .ok (decide (renewable.instant < now.instant)) := by
  have hread : ((some (ofInstant t')).filter (!·.isEmpty)).bind read? =
      some (.utc (wholeSecond t')) := by
    simp only [Option.filter, ofInstant_ne_empty, Bool.not_false, if_true, Option.bind_some,
      read?_ofInstant hlow hhigh]
  cases hshift : created.shift? w.grace with
  | none =>
    rw [isSettled, hshift] at hsettled
    cases hsettled
  | some settled =>
    -- a stamp written since then does not lie before the end of the grace
    have hover : settled.instant ≤ wholeSecond t := by simpa [isSettled, hshift] using hsettled
    have hstamped := wholeSecond_mono hle
    have hnot : ¬ (Moment.utc (wholeSecond t')).instant < settled.instant := by
      rw [Moment.instant_utc]
      lia
    simp only [isStale, hread, hshift, hnot, if_false]
    cases (Moment.utc (wholeSecond t')).shift? w.cooldown <;> rfl

/-- Within its cooldown a stamp is not stale for a settled rule. -/
theorem isStale_within {t t' now : Instant} (hlow : 1000 ≤ yearAt t') (hhigh : yearAt t' ≤ lastYear)
    (hsettled : isSettled w created t = true) (hle : t ≤ t')
    (hnow : now ≤ wholeSecond t' + w.cooldown) :
    isStale w created (some (ofInstant t')) (.utc now) ≠ .ok true := by
  rw [isStale_of_settled hlow hhigh hsettled hle]
  cases hshift : (Moment.utc (wholeSecond t')).shift? w.cooldown with
  | none => simp
  | some renewable =>
    have hinstant : renewable.instant = wholeSecond t' + w.cooldown := by
      rw [Moment.instant_of_shift? hshift, Moment.instant_utc]
    rw [← hinstant] at hnow
    simpa using hnow

/-- After its cooldown a stamp is stale for a settled rule. -/
theorem isStale_beyond {t now : Instant} (hlow : 1000 ≤ yearAt t) (hhigh : yearAt t ≤ lastYear)
    (hsettled : isSettled w created t = true) (hstart : 0 ≤ wholeSecond t + w.cooldown)
    (hnow : wholeSecond t + w.cooldown < now) (hin : inCalendar now = true) :
    isStale w created (some (ofInstant t)) (.utc now) = .ok true := by
  have hrenewable : inCalendar (wholeSecond t + w.cooldown) = true :=
    inCalendar_iff.mpr ⟨hstart, Int.lt_trans hnow (inCalendar_iff.mp hin).2⟩
  have hshift : (Moment.utc (wholeSecond t)).shift? w.cooldown =
      some (.utc (wholeSecond t + w.cooldown)) := if_pos hrenewable
  rw [isStale_of_settled hlow hhigh hsettled (Int.le_refl t), hshift]
  simp [hnow]

end Stamp

end AccessRules
