import AccessRules.Calendar.Stored
import AccessRules.Proofs.Calendar.DayNumber

/-!
# Times read back from their texts

`Moment.iso` writes a moment and two readers take it back: `Moment.ofIso?` for the times of stored
rows, `readLenient?` for the times inside stored outcomes.

1. **Pieces.**  Each piece of the grammar (`takeFixed?`, `takeFraction?`, `takeTime?`, `takeDate?`,
   `readOffset?`) reads what the printer of that piece writes, and leaves what follows it.  Only the
   fraction looks ahead: it must not run into a digit that follows, which is what `EndsTime` says.
2. **Moments.**  A moment `IsShown` when calendar and clock can show it, and then it is read back:
   `Moment.ofIso?_iso`.  Stored times are such moments (`ofIso?_storedText`).
3. **Zulu times.**  With `Z` in the place of the offset the lenient reader takes a time of UTC back:
   `readLenient?_zulu`.
-/

namespace AccessRules.Calendar

open Text

/-! ## Pieces -/

theorem takeFixed?_fixed {w n : Nat} (hw : 0 < w) (hn : n < Nat.pow 10 w) (rest : List Char) :
    takeFixed? w (fixed w n ++ rest) = some (n, rest) := by
  have htake : (fixed w n ++ rest).take w = fixed w n := by
    rw [List.take_append_of_le_length (by simp), List.take_of_length_le (by simp)]
  have hdrop : (fixed w n ++ rest).drop w = rest := by
    rw [List.drop_append_of_le_length (by simp), List.drop_of_length_le (by simp), List.nil_append]
  simp only [takeFixed?, htake, hdrop, value?_fixed hw hn, length_fixed, if_true]

@[simp] theorem takeChar?_cons (c : Char) (rest : List Char) :
    takeChar? c (c :: rest) = some rest := by
  simp [takeChar?]

/-- What may follow the digits of a number without being taken for one of them. -/
def NoDigit (rest : List Char) : Prop := ∀ c ∈ rest.head?, isDigit c = false

theorem takeDigits_append {ds rest : List Char} (hd : ds.all isDigit = true) (hr : NoDigit rest) :
    Decimal.takeDigits (ds ++ rest) = (ds, rest) := by
  have hds : ∀ c ∈ ds, isDigit c = true := by simpa using hd
  have hrest : rest.takeWhile isDigit = [] ∧ rest.dropWhile isDigit = rest := by
    cases rest with
    | nil => exact ⟨rfl, rfl⟩
    | cons c rest =>
      have hc : isDigit c = false := hr c (by simp)
      simp [hc]
  rw [Decimal.takeDigits, List.takeWhile_append_of_pos hds, List.dropWhile_append_of_pos hds,
    hrest.1, hrest.2, List.append_nil]

theorem fixed_ne_nil (w n : Nat) : fixed (w + 1) n ≠ [] := by
  simp [fixed]

theorem fractionMicros_fixed {micros : Nat} (h : micros < 1000000) :
    fractionMicros (fixed 6 micros) = micros := by
  rw [fractionMicros, List.take_append_of_le_length (by simp), List.take_of_length_le (by simp),
    digitsFrom_fixed]
  exact Nat.mod_eq_of_lt h

/-- What may follow a time of day: no digit, and no mark of a fraction. -/
def EndsTime (marks rest : List Char) : Prop :=
  ∀ c ∈ rest.head?, isDigit c = false ∧ marks.contains c = false

theorem EndsTime.noDigit {marks rest : List Char} (h : EndsTime marks rest) : NoDigit rest :=
  fun c hc => (h c hc).1

/-- A fraction is read back; one of no microseconds is not written at all. -/
theorem takeFraction?_fractionText {micros : Nat} (h : micros < 1000000) {marks rest : List Char}
    (hm : marks.contains '.' = true) (hr : EndsTime marks rest) :
    takeFraction? marks (Moment.fractionText micros ++ rest) = some (micros, rest) := by
  unfold Moment.fractionText
  split
  · next h0 =>
    subst h0
    cases rest with
    | nil => rfl
    | cons c rest =>
      have hc : marks.contains c = false := (hr c (by simp)).2
      rw [List.nil_append, takeFraction?, if_neg (by simpa using hc)]
  · have hne : (fixed 6 micros).isEmpty = false := by
      simp [fixed_ne_nil]
    rw [List.cons_append, takeFraction?, if_pos hm]
    simp only [takeDigits_append (all_isDigit_fixed 6 micros) hr.noDigit, hne,
      fractionMicros_fixed h]
    rfl

/-- Hours, minutes and seconds of a number of seconds make it up again. -/
theorem clock_parts (n : Nat) : (n / 3600 * 60 + n / 60 % 60) * 60 + n % 60 = n := by
  have h : n / 3600 = n / 60 / 60 := (Nat.div_div_eq_div_mul n 60 60).symm
  omega

theorem takeTime?_clock {seconds micros : Nat} (hs : seconds < 86400) (hm : micros < 1000000)
    {marks rest : List Char} (hmark : marks.contains '.' = true) (hr : EndsTime marks rest) :
    takeTime? marks (Moment.clock seconds ++ Moment.fractionText micros ++ rest) =
      some (seconds * 1000000 + micros, rest) := by
  have hshows : clockShows (seconds / 3600) (seconds / 60 % 60) (seconds % 60) = true := by
    simp only [clockShows, Bool.and_eq_true, decide_eq_true_eq]
    omega
  have hh := takeFixed?_fixed (w := 2) (n := seconds / 3600) (by decide) (by show _ < 100; omega)
  have hmin := takeFixed?_fixed (w := 2) (n := seconds / 60 % 60) (by decide)
    (by show _ < 100; omega)
  have hsec := takeFixed?_fixed (w := 2) (n := seconds % 60) (by decide) (by show _ < 100; omega)
  simp only [takeTime?, Moment.clock, List.append_assoc, List.cons_append, hh, hmin, hsec,
    takeFraction?_fractionText hm hmark hr, hshows, clockMicros, clock_parts, takeChar?_cons,
    Option.bind_eq_bind, Option.bind_some, if_true]

/-- The characters of an offset after its sign. -/
def offsetClock (size : Nat) : List Char :=
  fixed 2 (size / 3600) ++ ':' :: fixed 2 (size / 60 % 60) ++
    (if size % 60 = 0 then [] else ':' :: fixed 2 (size % 60))

theorem takeOffsetClock?_offsetClock {size : Nat} (hs : size < 86400) :
    takeOffsetClock? (offsetClock size) = some (size, []) := by
  have hh := takeFixed?_fixed (w := 2) (n := size / 3600) (by decide) (by show _ < 100; omega)
  have hmin := takeFixed?_fixed (w := 2) (n := size / 60 % 60) (by decide) (by show _ < 100; omega)
  have hsec := takeFixed?_fixed (w := 2) (n := size % 60) (by decide) (by show _ < 100; omega) []
  have hparts := clock_parts size
  rw [List.append_nil] at hsec
  simp only [takeOffsetClock?, offsetClock, List.append_assoc, List.cons_append, hh, hmin,
    takeChar?_cons, Option.bind_eq_bind, Option.bind_some]
  by_cases h0 : size % 60 = 0
  · have hwhole : (size / 3600 * 60 + size / 60 % 60) * 60 = size := by omega
    simp only [h0, if_true, takeChar?, hwhole]
  · simp only [h0, if_false, takeChar?_cons, hsec, Option.bind_some, hparts]

/-- An offset strictly within a day is read back. -/
theorem readOffset?_offsetText {o : Int} (h : o.natAbs < 86400) :
    readOffset? (Moment.offsetText o) = some (some o) := by
  have hfits : offsetFits o.natAbs = true := by simpa [offsetFits] using h
  have htext : Moment.offsetText o = (if o < 0 then '-' else '+') :: offsetClock o.natAbs := rfl
  have hsign : (if o < 0 then '-' else '+') ≠ 'Z' := by split <;> decide
  rw [htext, readOffset?]
  · simp only [takeOffsetClock?_offsetClock h, Option.bind_eq_bind, Option.bind_some, hfits,
      List.isEmpty_nil, Bool.not_true, Bool.or_self, Bool.false_eq_true, if_false]
    by_cases hneg : o < 0
    · have hval : -(o.natAbs : Int) = o := by omega
      simp only [hneg, if_true, hval]
      exact if_neg (by decide)
    · have hval : (o.natAbs : Int) = o := by omega
      simp only [hneg, if_false, hval, if_true]
  · exact fun hz _ => hsign hz

theorem takeDate?_dateText {d : Date} (hy : d.year < 10000) (hm : d.month < 100) (hd : d.day < 100)
    (rest : List Char) :
    takeDate? (Moment.dateText d ++ rest) = some ((d.year, d.month, d.day), rest) := by
  have h1 := takeFixed?_fixed (w := 4) (n := d.year) (by decide) hy
  have h2 := takeFixed?_fixed (w := 2) (n := d.month) (by decide) hm
  have h3 := takeFixed?_fixed (w := 2) (n := d.day) (by decide) hd
  simp only [takeDate?, Moment.dateText, List.append_assoc, List.cons_append, h1, h2, h3,
    takeChar?_cons, Option.bind_eq_bind, Option.bind_some]

/-! ## Moments -/

theorem inCalendar_iff {t : Int} : inCalendar t = true ↔ 0 ≤ t ∧ t < endOfTime := by
  simp only [inCalendar, Bool.and_eq_true, decide_eq_true_eq]

namespace Moment

/-- A moment that calendar and clock can show: its reading lies within the calendar, and its clock
runs less than a day from UTC. -/
structure IsShown (m : Moment) : Prop where
  reading : inCalendar m.reading = true
  offset : ∀ o ∈ m.offset, o.natAbs < 86400

@[simp] theorem instant_utc (t : Instant) : (utc t).instant = t := by
  simp [instant, utc]

theorem isShown_utc {t : Instant} (h : inCalendar t = true) : (utc t).IsShown :=
  ⟨h, by simp [utc]⟩

/-- The days of a moment within the calendar are fewer than those of the calendar. -/
theorem dayNumber_lt {m : Moment} (h : inCalendar m.reading = true) :
    (m.reading / microsPerDay).toNat < dayCount := by
  have hend : m.reading < 3652059 * 86400000000 := (inCalendar_iff.1 h).2
  simp only [dayCount, microsPerDay, microsPerSecond]
  omega

/-- Date and time of day make up the reading. -/
theorem reading_eq {m : Moment} (h : inCalendar m.reading = true) :
    (m.date.dayNumber : Int) * microsPerDay +
      ((m.timeOfDay / 1000000 * 1000000 + m.timeOfDay % 1000000 : Nat) : Int) = m.reading := by
  have hstart := (inCalendar_iff.1 h).1
  rw [date, Date.dayNumber_ofDayNumber]
  simp only [timeOfDay, microsPerDay, microsPerSecond]
  omega

/-- The characters of a text of a moment before its offset. -/
def clockChars (m : Moment) : List Char :=
  dateText m.date ++ 'T' :: (clock (m.timeOfDay / 1000000) ++ fractionText (m.timeOfDay % 1000000))

/-- The characters of the offset of a moment. -/
def offsetChars (m : Moment) : List Char := (m.offset.map offsetText).getD []

theorem isoChars_eq (m : Moment) : m.isoChars = m.clockChars ++ m.offsetChars := by
  rcases m with ⟨_, _ | o⟩ <;> simp [isoChars, clockChars, offsetChars]

theorem endsTime_offsetChars (m : Moment) : EndsTime ['.'] m.offsetChars := by
  rcases m with ⟨_, _ | o⟩
  · intro c hc
    simp [offsetChars] at hc
  · intro c hc
    have hhead : c = if o < 0 then '-' else '+' := by
      simpa [offsetChars, offsetText] using hc.symm
    subst hhead
    split <;> decide

theorem readOffset?_offsetChars {m : Moment} (h : m.IsShown) :
    readOffset? m.offsetChars = some m.offset := by
  rcases m with ⟨_, _ | o⟩
  · rfl
  · exact readOffset?_offsetText (h.offset o rfl)

theorem takeDate?_clockChars {m : Moment} (h : inCalendar m.reading = true) (rest : List Char) :
    takeDate? (m.clockChars ++ rest) = some ((m.date.year, m.date.month, m.date.day),
      'T' :: (clock (m.timeOfDay / 1000000) ++ fractionText (m.timeOfDay % 1000000) ++ rest)) := by
  obtain ⟨hyear, hmonth, hday⟩ := Date.ofDayNumber_fits (dayNumber_lt h)
  rw [clockChars, List.append_assoc]
  exact takeDate?_dateText hyear hmonth hday _

theorem takeTime?_timeOfDay (m : Moment) {marks rest : List Char}
    (hmark : marks.contains '.' = true) (hr : EndsTime marks rest) :
    takeTime? marks
        (clock (m.timeOfDay / 1000000) ++ fractionText (m.timeOfDay % 1000000) ++ rest) =
      some (m.timeOfDay / 1000000 * 1000000 + m.timeOfDay % 1000000, rest) := by
  have htime : m.timeOfDay < 86400000000 := by
    simp only [timeOfDay, microsPerDay, microsPerSecond]
    omega
  exact takeTime?_clock (by omega) (by omega) hmark hr

/-- The numbers of a moment make it up again, whatever the offset of its clock. -/
theorem moment?_fields {m : Moment} (h : inCalendar m.reading = true) (offset : Option Int) :
    (Fields.mk m.date.year m.date.month m.date.day
      (m.timeOfDay / 1000000 * 1000000 + m.timeOfDay % 1000000) offset).moment? =
      some ⟨m.reading, offset⟩ := by
  have hvalid : Date.ofParts? m.date.year m.date.month m.date.day = some m.date :=
    if_pos (Date.isValid_ofDayNumber (dayNumber_lt h))
  simp only [Fields.moment?, hvalid, Option.map_some, reading_eq h]

/-- A moment is read back from its text. -/
theorem ofIso?_iso {m : Moment} (h : m.IsShown) : ofIso? m.iso = some m := by
  simp only [ofIso?, iso, String.toList_ofList, ofIsoChars?, isoChars_eq,
    takeDate?_clockChars h.reading, takeChar?_cons,
    takeTime?_timeOfDay m rfl (endsTime_offsetChars m), readOffset?_offsetChars h,
    moment?_fields h.reading, Option.bind_eq_bind, Option.bind_some]

end Moment

/-- A stored time is read back. -/
theorem ofIso?_storedText {t : Instant} (h : inCalendar t = true) :
    Moment.ofIso? (storedText t) = some (.utc t) :=
  Moment.ofIso?_iso (Moment.isShown_utc h)

/-! ## Zulu times -/

/-- The date of a moment within the calendar exists. -/
theorem Moment.dateExists_date {m : Moment} (h : inCalendar m.reading = true) (micros : Nat)
    (offset : Option Int) :
    (Fields.mk m.date.year m.date.month m.date.day micros offset).dateExists = true := by
  have hvalid := Date.isValid_ofDayNumber (Moment.dayNumber_lt h)
  simp only [Date.isValid, Bool.and_eq_true, decide_eq_true_eq] at hvalid
  obtain ⟨⟨-, hfirst⟩, hlast⟩ := hvalid
  simp only [Fields.dateExists, Bool.and_eq_true, decide_eq_true_eq]
  exact ⟨hfirst, hlast⟩

/-- A time that ends in `Z` is read back by the lenient reader, as one of UTC. -/
theorem readLenient?_zulu {m : Moment} (h : inCalendar m.reading = true) (ho : m.offset = none) :
    ∃ f, readLenient? (m.iso ++ "Z").toList = some f ∧ f.moment? = some (.utc m.reading) := by
  have hchars : (m.iso ++ "Z").toList = m.clockChars ++ ['Z'] := by
    simp [Moment.iso, Moment.isoChars_eq, Moment.offsetChars, ho]
  have hz : EndsTime ['.', ','] ['Z'] := by
    intro c hc
    obtain rfl : c = 'Z' := by simpa using hc.symm
    decide
  refine ⟨_, ?_, Moment.moment?_fields h (some 0)⟩
  simp only [hchars, readLenient?, Moment.takeDate?_clockChars h, takeShortTime?,
    Moment.takeTime?_timeOfDay m rfl hz, readLenientOffset?, Moment.dateExists_date h,
    Option.bind_eq_bind, Option.bind_some, decide_true, Bool.true_or, if_true]

end AccessRules.Calendar
