import Mathlib.Data.List.Nodup
import AccessRules.Proofs.Document.JsonText
import AccessRules.Schema.Record

/-!
# Records and lists read back

**Program** — `Value.record` makes a document of named members; `Schema.record`, `Schema.list` and
`Schema.textMap` read such documents.

**Spec** — a record of plain members under different names is a plain document
(`Json.isPlain_record`).  A member is found under its name, and a member that is not there under
none (`lookup_record`); a record whose members have the main names of fields has no strangers
(`strangers_record`).  Lists and maps of texts are read item by item (`list_map`, `textMap_record`).
Conversely, what passed was read in its parts (`Check.seq_eq_pass`, `field_eq_pass`,
`record_eq_pass`).

**Crux** — nothing here depends on which record it is: what a schema needs to know of a document is
which names are in it.
-/

namespace AccessRules

namespace Json

@[simp] theorem isPlain_text (s : String) : isPlain (.text s) = true := rfl

@[simp] theorem isPlain_bool (b : Bool) : isPlain (.bool b) = true := rfl

@[simp] theorem isPlain_int (n : Int) : isPlain (.int n) = true := rfl

theorem isPlain_list {items : List Value} (h : ∀ v ∈ items, isPlain v = true) :
    isPlain (.list items) = true := by
  rw [isPlain, arePlain_iff]
  exact h

theorem havePlainValues_iff {entries : List (Scalar × Value)} :
    havePlainValues entries = true ↔ ∀ e ∈ entries, isPlain e.2 = true := by
  induction entries with
  | nil => simp [havePlainValues]
  | cons e entries ih => simp [havePlainValues, ih]

theorem hasPlainKeys_record {members : List (String × Value)}
    (h : (members.map Prod.fst).Nodup) :
    hasPlainKeys (members.map fun (k, v) => (.text k, v)) = true := by
  rw [hasPlainKeys, Bool.and_eq_true, decide_eq_true_eq, List.pairwise_map]
  refine ⟨?_, (List.pairwise_map.mp h).imp fun hne => ?_⟩
  · simp
  · simpa using hne

/-- A record of plain members under different names is plain. -/
theorem isPlain_record {members : List (String × Value)} (hnames : (members.map Prod.fst).Nodup)
    (hvalues : ∀ m ∈ members, isPlain m.2 = true) : isPlain (Value.record members) = true := by
  rw [Value.record, isPlain, hasPlainKeys_record hnames, Bool.true_and, havePlainValues_iff]
  intro e he
  obtain ⟨m, hm, rfl⟩ := List.mem_map.mp he
  exact hvalues m hm

end Json

namespace Schema

variable {α β : Type}

/-! ## Checks that passed -/

namespace Check

theorem map_eq_pass {g : α → β} {c : Check α} {b : β} :
    g <$> c = .pass b ↔ ∃ a, c = .pass a ∧ g a = b := by
  cases c <;> simp [Functor.map, Check.map]

/-- What passed can be told from what an injective function makes of it. -/
theorem map_injective_eq_pass {g : α → β} (hg : Function.Injective g) {c : Check α} {a : α} :
    g <$> c = .pass (g a) ↔ c = .pass a := by
  rw [map_eq_pass]
  exact ⟨fun ⟨_, h, heq⟩ => hg heq ▸ h, fun h => ⟨a, h, rfl⟩⟩

/-- Both sides of a check that passed have passed. -/
theorem seq_eq_pass {f : Check (α → β)} {c : Check α} {b : β} :
    f <*> c = .pass b ↔ ∃ g, f = .pass g ∧ ∃ a, c = .pass a ∧ g a = b := by
  cases f <;> cases c <;> simp [Seq.seq, Check.seq]

theorem under_eq_pass {s : Step} {c : Check α} {a : α} : c.under s = .pass a ↔ c = .pass a := by
  cases c <;> simp [under]

theorem withIssues_eq_pass {c : Check α} {more : List Issue} {a : α} :
    c.withIssues more = .pass a ↔ c = .pass a ∧ more = [] := by
  cases c <;> cases more <;> simp [withIssues]

/-- What passed fulfils the condition laid on it. -/
theorem ok_of_ensure {c : Check α} {ok : α → Bool} {p : Problem} {a : α}
    (h : c.ensure ok p = .pass a) : ok a = true := by
  cases c with
  | fail is => cases h
  | pass b =>
    simp only [ensure, andThen] at h
    split at h
    · next hok =>
      cases h
      exact hok
    · cases h

theorem reported_eq_ok {schema : String} {c : Check α} {a : α} :
    c.reported schema = .ok a ↔ c = .pass a := by
  cases c <;> simp [reported]

end Check

/-! ## Records -/

/-- A field was read from a value, or is the default. -/
theorem field_eq_pass {es : Entries} {n : Name} {read : Reader α} {default a : α}
    (h : field es n read default = .pass a) : (∃ v, read v = .pass a) ∨ a = default := by
  rw [field] at h
  split at h
  · next v _ => exact .inl ⟨v, Check.under_eq_pass.mp h⟩
  · cases h
    exact .inr rfl

/-- A record was read from the entries of a map. -/
theorem record_eq_pass {fields : List Name} {read : Entries → Check α} {v : Value} {a : α}
    (h : record fields read v = .pass a) : ∃ es, read es = .pass a := by
  rw [record.eq_def] at h
  split at h
  · next es => exact ⟨es, (Check.withIssues_eq_pass.mp h).1⟩
  · cases h

/-- A name that no member has is not found. -/
theorem lookup_record_none {members : List (String × Value)} {name : String}
    (h : name ∉ members.map Prod.fst) :
    Value.lookup (.text name) (members.map fun (k, v) => (.text k, v)) = none := by
  induction members with
  | nil => rfl
  | cons m members ih =>
    rw [List.map_cons, List.mem_cons, not_or] at h
    rw [List.map_cons, Value.lookup, Scalar.same_text, beq_false_of_ne (Ne.symm h.1)]
    exact ih h.2

/-- A member is found under its name. -/
theorem lookup_record {members : List (String × Value)} (h : (members.map Prod.fst).Nodup)
    {name : String} {v : Value} (hm : (name, v) ∈ members) :
    Value.lookup (.text name) (members.map fun (k, v) => (.text k, v)) = some v := by
  induction members with
  | nil => cases hm
  | cons m members ih =>
    rw [List.map_cons, List.nodup_cons] at h
    rw [List.map_cons, Value.lookup, Scalar.same_text]
    rcases List.mem_cons.mp hm with rfl | hm
    · rw [beq_self_eq_true, if_pos rfl]
    · have hne : m.1 ≠ name := fun heq => h.1 (heq ▸ List.mem_map_of_mem (f := Prod.fst) hm)
      rw [beq_false_of_ne hne]
      exact ih h.2 hm

/-- A record whose members have the main names of fields has no strangers. -/
theorem strangers_record {members : List (String × Value)} (h : (members.map Prod.fst).Nodup)
    {fields : List Name} (hfields : ∀ m ∈ members, ∃ n ∈ fields, n.main = m.1) :
    strangers (members.map fun (k, v) => (.text k, v)) fields = [] := by
  rw [strangers, List.filterMap_eq_nil_iff]
  intro e he
  obtain ⟨⟨name, v⟩, hm, rfl⟩ := List.mem_map.mp he
  obtain ⟨n, hn, hmain⟩ := hfields _ hm
  have hfind : n.find (members.map fun (k, v) => (.text k, v)) = some (name, v) := by
    obtain rfl : n.main = name := hmain
    rw [Name.find, lookup_record h hm]
  have hused : name ∈ fields.filterMap fun n =>
      (n.find (members.map fun (k, v) => (Scalar.text k, v))).map Prod.fst :=
    List.mem_filterMap.mpr ⟨n, hn, by rw [hfind]; rfl⟩
  rw [stranger, if_pos (List.contains_iff_mem.mpr hused)]

/-! ## Lists and maps -/

theorem items_map {read : Reader α} {document : α → Value}
    (h : ∀ a, read (document a) = .pass a) (l : List α) (n : Nat) :
    items read n (l.map document) = .pass l := by
  induction l generalizing n with
  | nil => rfl
  | cons a l ih =>
    rw [List.map_cons, items, h, ih]
    rfl

/-- A list is read back if its items are. -/
theorem list_map {read : Reader α} {document : α → Value} (h : ∀ a, read (document a) = .pass a)
    (l : List α) : list read (.list (l.map document)) = .pass l := by
  rw [list, items_map h]

/-- Null aside, an optional value is read as the value it is. -/
theorem optional_of_ne_null {read : Reader α} {v : Value} (h : v ≠ .null) :
    optional read v = (read v).map some := by
  rw [optional]
  exact h

theorem textEntries_record (labels : List (String × String)) :
    textEntries text ((labels.map fun (k, s) => (k, Value.text s)).map fun (k, v) =>
      (.text k, v)) = .pass labels := by
  induction labels with
  | nil => rfl
  | cons l labels ih =>
    rw [List.map_cons, List.map_cons, textEntries, ih]
    rfl

/-- A map from texts to texts is read back. -/
theorem textMap_record (labels : List (String × String)) :
    textMap text (Value.record (labels.map fun (k, s) => (k, Value.text s))) = .pass labels := by
  rw [Value.record, textMap]
  exact textEntries_record labels

end Schema

end AccessRules
