import AccessRules.Proofs.Calendar.TimeText
import AccessRules.Proofs.Endpoint.ReadBack
import AccessRules.Rule.Table

/-!
# Rules read back

**Program** — `Row.ofRule` makes a row of texts of a rule, `Row.rule` makes a rule of a row.

**Spec** — a rule is read back from its row as it was: identifier, name, both ends, mark, labels,
moment of storing and creator (`Row.rule_ofRule`).

**Crux** — an empty name is stored as none and none is read as an empty name; the ends and the
labels are plain documents, so JSON carries them; and the text of an instant is the text of that
instant only.  What has to be asked of a rule is what storing it makes sure of (`IsStorable`): no
label twice, and an instant within the calendar.
-/

namespace AccessRules.Rule

open Calendar

/-- A rule with no label twice that was stored at an instant of the calendar. -/
structure IsStorable (r : Rule) : Prop where
  labels : (r.metadata.map Prod.fst).Nodup
  created : ∃ t, inCalendar t = true ∧ r.created = .utc t

/-- Labels, no name of which stands twice, are a document that JSON holds as it is. -/
theorem isPlain_labels {labels : Labels} (h : (labels.map Prod.fst).Nodup) :
    Json.isPlain labels.document = true := by
  apply Json.isPlain_record
  · rw [List.map_map]
    exact h
  · intro m hm
    obtain ⟨l, _, rfl⟩ := List.mem_map.mp hm
    rfl

namespace Row

/-- A stored document is read as what its document is read as. -/
theorem readText_render {α : Type} {read : Schema.Reader α} {st : Json.Style}
    (hst : st.IsReadable) {v : Value} (hplain : Json.isPlain v = true) {a : α}
    (hread : read v = .pass a) (schema : String) :
    readText schema read (Json.render st v) = .ok a := by
  rw [readText, Json.parse_render hst hplain]
  simp only [hread, Schema.Check.reported]

theorem readEndpoint_render (e : Endpoint) :
    readEndpoint (Json.render .compact e.document) = .ok e :=
  readText_render Json.Style.isReadable_compact e.isPlain_document e.read_document _

theorem readLabels_render {labels : Labels} (h : (labels.map Prod.fst).Nodup) :
    readLabels (Json.render .spaced labels.document) = .ok labels :=
  readText_render Json.Style.isReadable_spaced (isPlain_labels h)
    (Schema.textMap_record labels) _

theorem readTime_storedText {t : Instant} (h : inCalendar t = true) :
    readTime (storedText t) = .ok (.utc t) := by
  rw [readTime, ofIso?_storedText h]
  rfl

/-- A name is stored as it is, and no name as none. -/
theorem name_ofRule (r : Rule) : (ofRule r).name.getD "" = r.name := by
  by_cases h : r.name.isEmpty = true
  · have hname : r.name = "" := String.isEmpty_iff.mp h
    simp [ofRule, hname]
  · simp [ofRule, h]

/-- **A rule is read back from its row.** -/
theorem rule_ofRule {r : Rule} (h : r.IsStorable) : (ofRule r).rule = .ok r := by
  obtain ⟨t, ht, hcreated⟩ := h.created
  have hinstant : r.created.instant = t := by
    rw [hcreated, Moment.instant, Moment.utc]
    simp
  have htime : readTime (ofRule r).created = .ok r.created := by
    rw [ofRule, hinstant, hcreated]
    exact readTime_storedText ht
  rw [rule, name_ofRule, htime]
  simp only [ofRule, readEndpoint_render, readLabels_render h.labels]
  rfl

end Row

end AccessRules.Rule
