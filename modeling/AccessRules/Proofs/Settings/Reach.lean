import Mathlib.Algebra.Order.Ring.Int
import AccessRules.Proofs.Document.Records
import AccessRules.Proofs.Fallible
import AccessRules.Proofs.Lock.Soundness
import AccessRules.Settings.Overrides
import AccessRules.Settings.Times

/-!
# How far back settings reach

**Program** — settings are read from texts and overridden (`Settings.ofYaml`, `Settings.override`);
their numbers of seconds become durations (`Settings.times`), with which locks are taken
(`Lock.Table.start`): an unforced wish goes back in time by the longer of two of them.

**Spec** — a wish for a lock under accepted settings is always granted or refused, at any time from
1970 to 9998, if and only if the durations reach back no further than from 1970 to the beginning of
the calendar (`answersAlways_iff`).  Nothing but their sign is checked when settings are accepted.

**Crux** — the calendar is left only at its beginning, because accepted durations are not negative
(`IsAccepted.nonneg`); and the longer of the two is gone back by as soon as a lock is wished for
twice.
-/

namespace AccessRules

open Calendar

/-! ## Positive numbers of seconds -/

/-- A finite number that is greater than zero is a positive quotient. -/
theorem Binary64.ratio_pos {x : Binary64} (hx : x.isPositive = true) {a : Int} {b : Nat}
    (h : x.ratio? = some (a, b)) : 0 < a := by
  cases x with
  | nan => cases h
  | infinite _ => cases h
  | finite negative m e =>
    -- the denominator of zero is never computed: it is a power of two with 324 digits
    obtain ⟨d, hzero⟩ : ∃ d, (finite false 0 minExponent).ratio? = some (0, d) := ⟨_, rfl⟩
    rw [isPositive, zero, compare?, h, hzero] at hx
    simp only [beq_iff_eq, Option.some.injEq, Int.zero_mul] at hx
    have hlt : 0 < a * (d : Int) := Int.compare_eq_gt.mp hx
    exact pos_of_mul_pos_left hlt (Int.natCast_nonneg d)

/-- A positive number of seconds is no negative duration. -/
theorem Calendar.Duration.micros?_nonneg {x : Binary64} (hx : x.isPositive = true) {d : Int}
    (h : micros? x = some d) : 0 ≤ d := by
  rw [micros?] at h
  split at h
  · cases h
  · next a b hratio =>
    have ha := Binary64.ratio_pos hx hratio
    have hsign : decide (a < 0) = false := by simpa using Int.le_of_lt ha
    simp only [hsign, nearest, Bool.false_eq_true, if_false] at h
    split at h
    · cases h
    · -- the whole seconds and the microseconds of the fraction are both counts
      obtain rfl := Option.some.inj h
      have hwhole : (0 : Int) ≤ ↑(a.natAbs / b) * microsPerSecond :=
        Int.mul_nonneg (Int.natCast_nonneg _) (by decide)
      exact Int.add_nonneg hwhole (Int.natCast_nonneg _)

namespace Settings

open Schema

theorem nonneg_of_durationOf {x : Binary64} (hx : x.isPositive = true) {d : Duration}
    (h : durationOf x = .ok d) : 0 ≤ d := by
  rw [durationOf] at h
  split at h
  · next d' hd =>
    obtain rfl := Except.ok.inj h
    obtain ⟨micros, hmicros, hd⟩ := Option.bind_eq_some_iff.mp hd
    split at hd
    · cases hd
      exact Duration.micros?_nonneg hx hmicros
    · cases hd
  · cases h

/-! ## Accepted settings -/

/-- Settings that are accepted: those without a text, those of a text, and those after overrides. -/
inductive IsAccepted : Settings → Prop
  | standard : IsAccepted .standard
  | ofYaml {text : String} {s : Settings} (h : ofYaml text = .ok s) : IsAccepted s
  | override {s s' : Settings} {overrides : Overrides} (h : IsAccepted s)
      (ho : s.override overrides = .ok s') : IsAccepted s'

/-- The numbers of seconds of passes are positive. -/
structure Passes.IsPositive (p : Passes) : Prop where
  interval : p.interval.isPositive = true
  lockExpire : p.lockExpire.isPositive = true
  keepAliveInterval : p.keepAliveInterval.isPositive = true
  shutdownTimeout : p.shutdownTimeout.isPositive = true

theorem Passes.isPositive_standard : Passes.standard.IsPositive := by
  constructor <;> decide +kernel

/-- A number of seconds that is read or standard is positive. -/
theorem isPositive_of_field {es : Entries} {n : Name} {default x : Binary64}
    (hdefault : default.isPositive = true) (h : field es n positiveFloat default = .pass x) :
    x.isPositive = true := by
  rcases field_eq_pass h with ⟨v, hv⟩ | rfl
  · exact Check.ok_of_ensure hv
  · exact hdefault

theorem Passes.isPositive_of_read {v : Value} {p : Passes} (h : Passes.read v = .pass p) :
    p.IsPositive := by
  obtain ⟨es, h⟩ := record_eq_pass h
  simp only [Check.seq_eq_pass, Check.map_eq_pass] at h
  -- one layer for each field, the last field outermost
  obtain ⟨_, ⟨_, ⟨_, ⟨_, ⟨interval, hinterval, rfl⟩, _, _, rfl⟩, expire, hexpire, rfl⟩,
    alive, halive, rfl⟩, timeout, htimeout, rfl⟩ := h
  have hstandard := Passes.isPositive_standard
  exact
    { interval := isPositive_of_field hstandard.interval hinterval
      lockExpire := isPositive_of_field hstandard.lockExpire hexpire
      keepAliveInterval := isPositive_of_field hstandard.keepAliveInterval halive
      shutdownTimeout := isPositive_of_field hstandard.shutdownTimeout htimeout }

/-- Settings that are read have sections that were read or are standard; those with conditions on
their values are named here. -/
theorem sections_of_read {v : Value} {s : Settings} (h : read v = .pass s) :
    ∃ es, field es "sync" Passes.read .standard = .pass s.passes ∧
      field es "http" Http.read .standard = .pass s.http ∧
      field es "kubernetes" Kubernetes.read .standard = .pass s.kubernetes := by
  obtain ⟨es, h⟩ := record_eq_pass h
  simp only [Check.seq_eq_pass, Check.map_eq_pass] at h
  -- again one layer for each of the ten fields
  obtain ⟨_, ⟨_, ⟨_, ⟨_, ⟨_, ⟨_, ⟨_, ⟨_, ⟨_, ⟨_, _, rfl⟩, _, _, rfl⟩, _, _, rfl⟩,
    passes, hpasses, rfl⟩, _, _, rfl⟩, http, hhttp, rfl⟩, _, _, rfl⟩, kubernetes, hkubernetes, rfl⟩,
    _, _, rfl⟩, _, _, rfl⟩ := h
  exact ⟨es, hpasses, hhttp, hkubernetes⟩

/-- Settings that are read have positive numbers of seconds. -/
theorem isPositive_of_read {v : Value} {s : Settings} (h : read v = .pass s) :
    s.passes.IsPositive := by
  obtain ⟨es, hpasses, -, -⟩ := sections_of_read h
  rcases field_eq_pass hpasses with ⟨v', hv'⟩ | heq
  · exact Passes.isPositive_of_read hv'
  · rw [heq]
    exact Passes.isPositive_standard

theorem isPositive_of_ofDocument {v : Value} {s : Settings} (h : ofDocument v = .ok s) :
    s.passes.IsPositive := by
  rw [ofDocument] at h
  split at h
  · next s' hread =>
    obtain rfl := Except.ok.inj h
    exact isPositive_of_read (Check.reported_eq_ok.mp hread)
  · cases h

/-- **The passes of accepted settings are given positive numbers of seconds.** -/
theorem IsAccepted.isPositive {s : Settings} (h : IsAccepted s) : s.passes.IsPositive := by
  cases h with
  | standard => exact Passes.isPositive_standard
  | ofYaml h =>
    obtain ⟨v, _, hv⟩ := ok_of_bind h
    exact isPositive_of_ofDocument hv
  | override _ ho =>
    -- the document is read anew, so nothing has to be known of the settings before
    obtain ⟨v, _, hv⟩ := ok_of_bind ho
    exact isPositive_of_ofDocument hv

/-- The durations of accepted settings are not negative. -/
theorem IsAccepted.nonneg {s : Settings} (h : IsAccepted s) {times : Times}
    (ht : s.times = .ok times) : 0 ≤ times.interval ∧ 0 ≤ times.lockExpire := by
  obtain ⟨expire, hexpire, ht⟩ := ok_of_bind ht
  obtain ⟨interval, hinterval, ht⟩ := ok_of_bind ht
  obtain rfl := Except.ok.inj ht
  exact ⟨nonneg_of_durationOf h.isPositive.interval hinterval,
    nonneg_of_durationOf h.isPositive.lockExpire hexpire⟩

end Settings

/-! ## Going back in time -/

namespace Calendar

/-- The instant at which a year begins. -/
def beginningOf (year : Nat) : Instant := (Date.mk year 1 1).dayNumber * microsPerDay

theorem beginningOf_1970 : beginningOf 1970 = 62135596800000000 := by decide

theorem beginningOf_9999 : beginningOf 9999 = 315506361600000000 := by decide

theorem endOfTime_eq : endOfTime = 315537897600000000 := by decide

/-- An instant of the years from 1970 to 9998. -/
def IsCurrent (now : Instant) : Prop := beginningOf 1970 ≤ now ∧ now < beginningOf 9999

theorem IsCurrent.inCalendar {now : Int} (h : IsCurrent now) : inCalendar now = true := by
  have hfrom : 62135596800000000 ≤ now := beginningOf_1970 ▸ h.1
  have hto : now < 315506361600000000 := beginningOf_9999 ▸ h.2
  rw [inCalendar_iff, endOfTime_eq]
  omega

theorem isCurrent_1970 : IsCurrent (beginningOf 1970) := ⟨Int.le_refl _, by decide⟩

/-- The calendar is left at its beginning only. -/
theorem inCalendar_back_iff {now d : Int} (hnow : inCalendar now = true) (hd : 0 ≤ d) :
    inCalendar (now + -d) = true ↔ d ≤ now := by
  rw [inCalendar_iff] at hnow ⊢
  omega

/-- What is left of a duration that does not reach back before the calendar is a duration. -/
theorem inRange_left {after now pinged : Int} (hafter : 0 ≤ after)
    (hreach : after ≤ beginningOf 1970) (hnow : inCalendar now = true)
    (hpinged : inCalendar pinged = true) : Duration.inRange (after - (now - pinged)) = true := by
  rw [inCalendar_iff, endOfTime_eq] at hnow hpinged
  rw [beginningOf_1970] at hreach
  have hlow : -86399999913600000000 ≤ after - (now - pinged) := by omega
  have hhigh : after - (now - pinged) ≤ 86399999913600000000 := by omega
  rw [Duration.inRange, Bool.and_eq_true]
  exact ⟨decide_eq_true (Int.le_ediv_of_mul_le (by decide) hlow),
    decide_eq_true (Int.ediv_le_of_le_mul (by decide) hhigh)⟩

end Calendar

namespace Lock

namespace Wish

variable {w : Wish} {expire : Duration} {running : Bool} {now : Instant}

/-- Whether a row is free can be said if its protection does not reach back before the calendar. -/
theorem mayTake_of_le (hafter : 0 ≤ w.after) (hprotection : w.protection expire running ≤ now)
    (hnow : inCalendar now = true) (m : Moment) :
    ∃ free, w.mayTake expire running m now = .ok free := by
  have hnonneg := Int.le_trans hafter (w.after_le_protection expire running)
  have hback := (inCalendar_back_iff hnow hnonneg).mpr hprotection
  rw [mayTake, Moment.shift?, Moment.utc, if_pos hback]
  split
  · exact ⟨_, rfl⟩
  · exact ⟨_, rfl⟩

/-- It cannot be said if it does. -/
theorem mayTake_of_lt (hforce : w.force = false) (hafter : 0 ≤ w.after)
    (hprotection : now < w.protection expire running) (hnow : inCalendar now = true) (m : Moment) :
    w.mayTake expire running m now = .error .dateOutOfRange := by
  have hnonneg := Int.le_trans hafter (w.after_le_protection expire running)
  have hback := mt (inCalendar_back_iff hnow hnonneg).mp (Int.not_le.mpr hprotection)
  rw [mayTake, hforce, Moment.shift?, Moment.utc, if_neg hback]
  rfl

/-- When to come again can be said. -/
theorem retryAfter_of_le {pinged : Instant} (hafter : 0 ≤ w.after)
    (hreach : w.after ≤ beginningOf 1970) (hnow : inCalendar now = true)
    (hpinged : inCalendar pinged = true) :
    ∃ d, w.retryAfter running (.utc pinged) now = .ok d := by
  rw [retryAfter, Moment.instant_utc, if_pos (inRange_left hafter hreach hnow hpinged)]
  split
  · exact ⟨_, rfl⟩
  · exact ⟨_, rfl⟩

end Wish

/-- A start is answered: the lock is taken, or refused because it is locked. -/
def IsAnswered (w : Wish) (result : Except Failure Record) : Prop :=
  (∃ record, result = .ok record) ∨ ∃ d, result = .error (w.refusal d)

namespace Table

variable {t : Table} {expire : Duration} {w : Wish} {now : Instant} {fresh : String}

/-- **A start is answered** if neither of its durations reaches back from 1970 before the
calendar. -/
theorem IsSound.start_isAnswered (h : t.IsSound) (hnow : IsCurrent now) (hafter : 0 ≤ w.after)
    (hreach : w.after ≤ beginningOf 1970) (hexpire : expire ≤ beginningOf 1970) :
    IsAnswered w (t.start expire w now fresh).1 := by
  have hcalendar := hnow.inCalendar
  cases hrow : t.rowOf w.key with
  | none => exact .inl (start_of_none hrow hcalendar)
  | some r =>
    have hsound := h r (mem_of_rowOf hrow)
    obtain ⟨p, hp, hread⟩ := hsound.readTime
    -- even the longer protection, that of a running row, began within the calendar
    have hprotection : w.protection expire r.running ≤ now := by
      refine Int.le_trans ?_ hnow.1
      rw [Wish.protection]
      split
      · exact Int.max_le.mpr ⟨hexpire, hreach⟩
      · exact hreach
    obtain ⟨free, hfree⟩ := Wish.mayTake_of_le hafter hprotection hcalendar (.utc p)
    rw [start_of_rowOf hrow hread, hfree]
    cases free with
    | true => exact .inl (hsound.taken_record hcalendar)
    | false =>
      have hleft : ∃ d, w.retryAfter r.running (.utc p) now = .ok d :=
        Wish.retryAfter_of_le hafter hreach hcalendar hp
      obtain ⟨d, hd⟩ := hleft
      rw [hd]
      exact .inr ⟨d, rfl⟩

/-- A forced start takes the lock. -/
theorem IsSound.start_forced (h : t.IsSound) (hnow : inCalendar now = true)
    (hforce : w.force = true) : ∃ record, (t.start expire w now fresh).1 = .ok record := by
  cases hrow : t.rowOf w.key with
  | none => exact start_of_none hrow hnow
  | some r =>
    have hsound := h r (mem_of_rowOf hrow)
    obtain ⟨p, _, hread⟩ := hsound.readTime
    rw [start_of_rowOf hrow hread, Wish.mayTake, if_pos hforce]
    exact hsound.taken_record hnow

/-- The table after one start, made of a wish for a lock that was never taken. -/
theorem reachable_start (expire : Duration) (w : Wish) (hnow : inCalendar now = true)
    (fresh : String) : Reachable [Row.fresh fresh w.ruleId w.engine now] := by
  refine ⟨expire, [⟨0, now, .start w fresh⟩], fun c hc => ?_, rfl⟩
  obtain rfl := List.mem_singleton.mp hc
  exact ⟨hnow, fun _ _ hfinish => by cases hfinish⟩

/-- **The second start leaves the calendar** if one of its durations reaches back too far. -/
theorem start_twice (hforce : w.force = false) (hafter : 0 ≤ w.after)
    (hnow : inCalendar now = true) (hlong : now < max expire w.after) (id : String) :
    (start [Row.fresh id w.ruleId w.engine now] expire w now fresh).1 =
      .error .dateOutOfRange := by
  have hrow : rowOf [Row.fresh id w.ruleId w.engine now] w.key =
      some (Row.fresh id w.ruleId w.engine now) := rowOf_append_fresh (t := []) rfl id now
  rw [start_of_rowOf hrow (readTime_storedText hnow), Wish.mayTake_of_lt hforce hafter hlong hnow]

end Table

end Lock

namespace Settings

open Lock

/-- **Wishes for locks are always answered** under some settings, whatever the table has come to,
from 1970 to 9998. -/
def AnswersAlways (s : Settings) : Prop :=
  ∃ times, s.times = .ok times ∧
    ∀ t, Reachable t → ∀ now, IsCurrent now → ∀ w : Wish, w.after = times.interval → ∀ fresh,
      IsAnswered w (t.start times.lockExpire w now fresh).1

/-- A lock that is wished for in 1970, and at once again. -/
theorem not_answersAlways_of_lt {s : Settings} {times : Times} (htimes : s.times = .ok times)
    (hinterval : 0 ≤ times.interval)
    (hlong : beginningOf 1970 < max times.lockExpire times.interval) : ¬ AnswersAlways s := by
  rintro ⟨times', htimes', hanswers⟩
  obtain rfl := Except.ok.inj (htimes.symm.trans htimes')
  let w : Wish := ⟨times.interval, "", "", false⟩
  have hnow := isCurrent_1970
  have hanswer := hanswers _ (Table.reachable_start times.lockExpire w hnow.inCalendar "") _ hnow
    w rfl ""
  rw [Table.start_twice rfl hinterval hnow.inCalendar hlong] at hanswer
  rcases hanswer with ⟨_, htaken⟩ | ⟨_, hrefused⟩
  · cases htaken
  · cases hrefused

/-- **Wishes under accepted settings are always answered if and only if** their durations reach back
no further than from 1970 to the beginning of the calendar.  Forced wishes are granted in any case,
once the durations are made. -/
theorem answersAlways_iff {s : Settings} (h : IsAccepted s) :
    (AnswersAlways s ↔ ∃ times, s.times = .ok times ∧
      times.interval ≤ beginningOf 1970 ∧ times.lockExpire ≤ beginningOf 1970) ∧
    (∀ times, s.times = .ok times → ∀ t, Reachable t → ∀ now, IsCurrent now → ∀ w : Wish,
      w.after = times.interval → w.force = true → ∀ fresh,
        ∃ record, (t.start times.lockExpire w now fresh).1 = .ok record) := by
  refine ⟨⟨?_, ?_⟩, ?_⟩
  · intro hanswers
    have ⟨times, htimes, _⟩ := hanswers
    have hmax := Int.not_lt.mp fun hlong =>
      not_answersAlways_of_lt htimes (h.nonneg htimes).1 hlong hanswers
    exact ⟨times, htimes, (Int.max_le.mp hmax).symm⟩
  · rintro ⟨times, htimes, hinterval, hexpire⟩
    refine ⟨times, htimes, fun t ht now hnow w hw fresh => ?_⟩
    exact ht.isSound.start_isAnswered hnow (hw ▸ (h.nonneg htimes).1) (hw ▸ hinterval) hexpire
  · intro times _ t ht now hnow w _ hforce fresh
    exact ht.isSound.start_forced hnow.inCalendar hforce

theorem times_of_ofSeconds? {s : Settings} {expire interval : Duration}
    (hexpire : Duration.ofSeconds? s.passes.lockExpire = some expire)
    (hinterval : Duration.ofSeconds? s.passes.interval = some interval) :
    s.times = .ok ⟨expire, interval⟩ := by
  rw [times, durationOf, durationOf, hexpire, hinterval]
  rfl

/-- The standard settings reach back five minutes. -/
theorem answersAlways_iff_standard : IsAccepted .standard ∧ AnswersAlways .standard := by
  have hexpire : Duration.ofSeconds? standard.passes.lockExpire = some 300000000 := by
    decide +kernel
  have hinterval : Duration.ofSeconds? standard.passes.interval = some 60000000 := by
    decide +kernel
  exact ⟨.standard, (answersAlways_iff .standard).1.mpr
    ⟨_, times_of_ofSeconds? hexpire hinterval, by decide, by decide⟩⟩

/-- The standard settings with another interval. -/
def withInterval (x : Binary64) : Settings :=
  { standard with passes := { Passes.standard with interval := x } }

/-- Accepted settings under which wishes are not always answered: no duration can be made of their
interval, or one that reaches back too far, so that the second wish for a lock fails. -/
theorem not_answersAlways :
    (∃ s, ofYaml "sync:\n  interval: 1.0e+300\n" = .ok s ∧ s.times.isOk = false ∧
      ¬ AnswersAlways s) ∧
    ∃ s times, ofYaml "sync:\n  interval: 100000000000\n" = .ok s ∧ s.times = .ok times ∧
      (Table.start [Row.fresh "1" "r1" "acl-operator" (beginningOf 2024)] times.lockExpire
        ⟨times.interval, "r1", "acl-operator", false⟩ (beginningOf 2024) "2").1 =
          .error .dateOutOfRange ∧
      ¬ AnswersAlways s := by
  have hendless : ofYaml "sync:\n  interval: 1.0e+300\n" =
      .ok (withInterval (.ofDecimal false 1 300)) := ok_of_toOption (by decide +kernel)
  have hlong : ofYaml "sync:\n  interval: 100000000000\n" =
      .ok (withInterval (.ofInt 100000000000)) := ok_of_toOption (by decide +kernel)
  have hexpire : Duration.ofSeconds? standard.passes.lockExpire = some 300000000 := by
    decide +kernel
  have hnone : (withInterval (.ofDecimal false 1 300)).times.isOk = false := by decide +kernel
  have htimes := times_of_ofSeconds? (s := withInterval (.ofInt 100000000000)) hexpire
    (show Duration.ofSeconds? (.ofInt 100000000000) = some 100000000000000000 by decide +kernel)
  refine ⟨⟨_, hendless, hnone, ?_⟩, _, _, hlong, htimes, ?_,
    not_answersAlways_of_lt htimes (by decide) (by decide)⟩
  · rintro ⟨times, htimes, _⟩
    rw [htimes] at hnone
    cases hnone
  · exact Table.start_twice (w := ⟨100000000000000000, "r1", "acl-operator", false⟩) rfl (by decide)
      (by decide) (by decide) "1"

end Settings

end AccessRules
