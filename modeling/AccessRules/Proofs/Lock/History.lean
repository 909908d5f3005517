import Mathlib.Data.List.Forall2
import AccessRules.Lock.Table
import AccessRules.Proofs.Calendar.TimeText
import AccessRules.Proofs.Document.JsonText

/-!
# Histories read back

**Program** — `Lock.historyText` stores the outcomes of a lock, `Lock.readHistory` reads them, and
`Table.appended` puts one more behind them.

**Spec** — a stored history is read back item by item (`readItems_historyText`), so one more outcome
can always be appended (`appended_historyText`), and the last ten are what is read afterwards.

**Crux** — the stored form of an outcome holds texts and truth values only, so JSON carries it
unchanged, whatever its times are.  Reading it as an *outcome* is another matter: that needs times
the schema accepts, as those of UTC within the calendar are (`Outcome.read_stored`).
-/

namespace AccessRules.Lock

open Calendar Schema

namespace Outcome

/-- The stored form of an outcome is a document that JSON holds as it is. -/
theorem isPlain_stored (o : Outcome) : Json.isPlain o.stored = true := by
  simp [stored, documentWith, Value.record, Json.isPlain, Json.hasPlainKeys, Json.havePlainValues,
    Json.isPlainScalar]

/-- A moment of UTC is read back from its stored form. -/
theorem momentOfText_storedTime {t : Instant} (h : inCalendar t = true) :
    momentOfText (storedTime (.utc t)) = .pass (.utc t) := by
  obtain ⟨f, hread, hmoment⟩ := readLenient?_zulu (m := ⟨t, none⟩) h rfl
  have htext : storedTime (.utc t) = (Moment.mk t none).iso ++ "Z" := rfl
  rw [momentOfText, htext, hread]
  simp only [hmoment]

/-- An outcome that started at one instant and ended at another. -/
structure IsTimed (o : Outcome) : Prop where
  started : ∃ t, inCalendar t = true ∧ o.started = .utc t
  ended : ∃ t, inCalendar t = true ∧ o.ended = .utc t

/-- An outcome with times of UTC is read back from its stored form. -/
theorem read_stored {o : Outcome} (h : o.IsTimed) : read o.stored = .pass o := by
  obtain ⟨s, hs, hstarted⟩ := h.started
  obtain ⟨t, ht, hended⟩ := h.ended
  obtain ⟨_, _, successful, removed, error, result⟩ := o
  obtain rfl := hstarted
  obtain rfl := hended
  simp [stored, documentWith, Value.record, read, record, required, field, Name.find, Value.lookup,
    strangers, stranger, moment, Schema.text, Schema.bool, momentOfText_storedTime, hs, ht,
    Seq.seq, Check.seq, Functor.map, Check.map]

end Outcome

/-! ## Documents of a history -/

/-- The last outcomes of a history, as many as are kept. -/
def lastKept {α : Type} (l : List α) : List α := l.drop (l.length - historyLimit)

theorem arePlain_lastKept {items : List Value} {v : Value} (hi : Json.arePlain items = true)
    (hv : Json.isPlain v = true) : Json.arePlain (lastKept (items ++ [v])) = true := by
  rw [Json.arePlain_iff] at hi ⊢
  intro w hw
  rcases List.mem_append.mp (List.mem_of_mem_drop hw) with hw | hw
  · exact hi w hw
  · obtain rfl := List.mem_singleton.mp hw
    exact hv

/-- The documents of a history are read back. -/
theorem readItems_historyText {items : List Value} (h : Json.arePlain items = true) :
    readItems (historyText items) = .ok items := by
  have hplain : Json.isPlain (.list items) = true := by
    rw [Json.isPlain]
    exact h
  rw [readItems, historyText, Json.parse_render Json.Style.isReadable_spaced hplain]

/-- One more outcome can be appended to any stored history. -/
theorem appended_historyText {items : List Value} (h : Json.arePlain items = true) (o : Outcome) :
    Table.appended (historyText items) o = .ok (historyText (lastKept (items ++ [o.stored]))) := by
  rw [Table.appended, readItems_historyText h]
  rfl

/-! ## Outcomes of a history -/

/-- Documents that are stored outcomes, read as such. -/
def AreStored (items : List Value) (outcomes : List Outcome) : Prop :=
  List.Forall₂ (fun v o => Json.isPlain v = true ∧ Outcome.read v = .pass o) items outcomes

theorem AreStored.plain {items : List Value} {outcomes : List Outcome}
    (h : AreStored items outcomes) : Json.arePlain items = true := by
  induction h with
  | nil => rfl
  | cons hvo _ ih => rw [Json.arePlain, hvo.1, ih, Bool.and_self]

theorem AreStored.items {items : List Value} {outcomes : List Outcome}
    (h : AreStored items outcomes) (n : Nat) :
    Schema.items Outcome.read n items = .pass outcomes := by
  induction h generalizing n with
  | nil => rfl
  | cons hvo _ ih =>
    rw [Schema.items, hvo.2, ih (n + 1)]
    rfl

/-- The outcomes of a history are read back. -/
theorem readHistory_historyText {items : List Value} {outcomes : List Outcome}
    (h : AreStored items outcomes) : readHistory (historyText items) = .ok outcomes := by
  rw [readHistory, readItems_historyText h.plain]
  simp only [bind, Except.bind, Schema.list, h.items 0, Check.reported]

/-- The outcomes that are kept of a history with one more. -/
theorem AreStored.snoc {items : List Value} {outcomes : List Outcome} {v : Value} {o : Outcome}
    (h : AreStored items outcomes) (hv : Json.isPlain v = true) (ho : Outcome.read v = .pass o) :
    AreStored (Lock.lastKept (items ++ [v])) (Lock.lastKept (outcomes ++ [o])) := by
  have hall : AreStored (items ++ [v]) (outcomes ++ [o]) :=
    List.rel_append h (.cons ⟨hv, ho⟩ .nil)
  have hlength : (items ++ [v]).length = (outcomes ++ [o]).length := hall.length_eq
  rw [Lock.lastKept, Lock.lastKept, hlength]
  exact List.forall₂_drop _ hall

end AccessRules.Lock
