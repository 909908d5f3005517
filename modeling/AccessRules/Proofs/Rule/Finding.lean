import AccessRules.Proofs.Rule.Selecting
import AccessRules.Proofs.Rule.Uniqueness

/-!
# Finding a rule by its identifier or its name

**Program** — `Database.findRule` looks for a text among the identifiers, and if no rule has it as
its identifier, among the names.

**Spec** — in a store that callers bring about from an empty one a rule is found under its own
identifier, even if another rule has that text as its name; under a text that is no identifier the
one rule of that name is found; and that there is no such rule is said exactly if no stored rule has
the text as its identifier or its name (`findRule_by_id_or_name`).

**Crux** — identifiers and names share one look-up and callers choose both, so one may stand for the
other.  In such a store each of them stands once (`unique_run`), so whatever is found under one is
the only thing that could have been (`Table.find?_eq_some_iff`).
-/

namespace AccessRules

open Calendar Storage

/-- What is the only one of its kind in a list is found. -/
theorem find?_eq_some_of_only {α : Type} {p : α → Bool} {l : List α} {a : α} (ha : a ∈ l)
    (hp : p a = true) (honly : ∀ b ∈ l, p b = true → b = a) : l.find? p = some a := by
  obtain ⟨b, hb⟩ := Option.isSome_iff_exists.mp (List.find?_isSome.mpr ⟨a, ha, hp⟩)
  rw [hb, honly b (List.mem_of_find?_eq_some hb) (List.find?_some hb)]

namespace Rule

namespace Table

variable {t : Table}

/-- A text that is no identifier is looked for among the names. -/
theorem find?_of_no_id {x : String} (h : ∀ r ∈ t, r.id ≠ x) :
    t.find? x = List.find? (·.name == some x) t := by
  have hnone : List.find? (·.id == x) t = none :=
    List.find?_eq_none.mpr fun r hr hid => h r hr (beq_iff_eq.mp hid)
  rw [find?, hnone]

/-- **Which row is found** where identifiers and names stand once: the row with the identifier, and
if there is none, the row with the name. -/
theorem find?_eq_some_iff (hids : t.ids.Nodup) (hnames : t.NamesOnce) {x : String} {r : Row} :
    t.find? x = some r ↔ r ∈ t ∧ (r.id = x ∨ (∀ r' ∈ t, r'.id ≠ x) ∧ r.name = some x) := by
  have hsame : ∀ r ∈ t, ∀ r' ∈ t, r'.id = r.id → r' = r := fun r hr r' hr' hid =>
    List.inj_on_of_nodup_map hids hr' hr hid
  by_cases h : ∃ r ∈ t, r.id = x
  · obtain ⟨own, hown, hid⟩ := h
    have hfirst : List.find? (·.id == x) t = some own :=
      find?_eq_some_of_only hown (beq_iff_eq.mpr hid) fun r hr hr' =>
        hsame own hown r hr ((beq_iff_eq.mp hr').trans hid.symm)
    have hfound : t.find? x = some own := by rw [find?, hfirst]
    rw [hfound, Option.some.injEq]
    constructor
    · rintro rfl
      exact ⟨hown, .inl hid⟩
    · rintro ⟨hr, hrid | ⟨hno, _⟩⟩
      · exact hsame r hr own hown (hid.trans hrid.symm)
      · exact absurd hid (hno own hown)
  · have hno : ∀ r ∈ t, r.id ≠ x := fun r hr hid => h ⟨r, hr, hid⟩
    rw [find?_of_no_id hno]
    constructor
    · intro hfound
      exact ⟨List.mem_of_find?_eq_some hfound, .inr ⟨hno, by simpa using List.find?_some hfound⟩⟩
    · rintro ⟨hr, hid | ⟨_, hname⟩⟩
      · exact absurd hid (hno r hr)
      · exact find?_eq_some_of_only hr (beq_iff_eq.mpr hname) fun r' hr' hname' =>
          hsame r hr r' hr' (hnames r' hr' r hr x (beq_iff_eq.mp hname') hname)

/-- What is found is there. -/
theorem mem_of_find? {x : String} {r : Row} (h : t.find? x = some r) : r ∈ t := by
  rw [find?] at h
  split at h
  · next hid =>
    obtain rfl := Option.some.inj h
    exact List.mem_of_find?_eq_some hid
  · exact List.mem_of_find?_eq_some h

/-- Nothing is found exactly under what is neither an identifier nor a name. -/
theorem find?_eq_none_iff {x : String} :
    t.find? x = none ↔ ∀ r ∈ t, r.id ≠ x ∧ r.name ≠ some x := by
  rw [find?]
  split
  · next r hr =>
    have hid : r.id = x := by simpa using List.find?_some hr
    constructor
    · rintro ⟨⟩
    · intro h
      exact absurd hid (h r (List.mem_of_find?_eq_some hr)).1
  · next hnone =>
    have hno : ∀ r ∈ t, r.id ≠ x := by simpa using hnone
    rw [List.find?_eq_none]
    constructor
    · exact fun h r hr => ⟨hno r hr, fun hname => h r hr (beq_iff_eq.mpr hname)⟩
    · exact fun h r hr hname => (h r hr).2 (beq_iff_eq.mp hname)

end Table

/-- A text is the name of a rule; an empty text is the name of none. -/
def IsNamed (rule : Rule) (x : String) : Prop := x ≠ "" ∧ rule.name = x

theorem name_ofRule_eq_some {rule : Rule} {x : String} :
    (Row.ofRule rule).name = some x ↔ rule.IsNamed x := by
  by_cases hname : rule.name = ""
  · rw [Table.name_ofRule_of_empty hname, IsNamed, hname]
    constructor
    · rintro ⟨⟩
    · rintro ⟨hne, rfl⟩
      exact absurd rfl hne
  · rw [Table.name_ofRule_of_ne hname, Option.some.injEq]
    constructor
    · rintro rfl
      exact ⟨hname, rfl⟩
    · exact And.right

end Rule

namespace Storage.Database

open Rule

variable {d : Database}

/-- Over an open connection the row that is found is read. -/
theorem findRule_eq (hversion : d.version.isSome = true) (x : String) :
    d.findRule true x = match d.rules.find? x with
      | some row => row.rule
      | none => .error (.fault (.of (.ruleNotFound "find_rule" x))) := by
  rw [findRule, canRead_open hversion]
  rfl

/-- What is said of all rows can be said of the rules that are stored. -/
theorem forall_rows_iff (hlegible : d.rules.IsLegible) {P : Row → Prop} :
    (∀ row ∈ d.rules, P row) ↔ ∀ rule, d.Holds rule → P (Row.ofRule rule) := by
  constructor
  · rintro h rule ⟨row, hrow, hread⟩
    rw [← hlegible.eq_ofRule hrow hread]
    exact h row hrow
  · intro h row hrow
    obtain ⟨rule, hrule⟩ := hlegible.rule hrow
    rw [hlegible.eq_ofRule hrow hrule]
    exact h rule ⟨row, hrow, hrule⟩

/-- **Which rule is found.** -/
theorem findRule_eq_ok_iff (hversion : d.version.isSome = true) (hids : d.rules.ids.Nodup)
    (hnames : d.rules.NamesOnce) (hlegible : d.rules.IsLegible) {x : String} {rule : Rule} :
    d.findRule true x = .ok rule ↔ d.Holds rule ∧
      (rule.id = x ∨ (∀ rule', d.Holds rule' → rule'.id ≠ x) ∧ rule.IsNamed x) := by
  have hiff : ∀ row, d.rules.find? x = some row ↔ row ∈ d.rules ∧
      (row.id = x ∨ (∀ rule', d.Holds rule' → rule'.id ≠ x) ∧ row.name = some x) := fun row => by
    rw [Table.find?_eq_some_iff hids hnames, forall_rows_iff hlegible]
    rfl
  rw [findRule_eq hversion]
  constructor
  · intro h
    split at h
    · next row hrow =>
      obtain ⟨hmem, hwhich⟩ := (hiff row).mp hrow
      obtain rfl := hlegible.eq_ofRule hmem h
      exact ⟨⟨_, hmem, h⟩, hwhich.imp_right (And.imp_right name_ofRule_eq_some.mp)⟩
    · cases h
  · rintro ⟨⟨row, hmem, hread⟩, hwhich⟩
    obtain rfl := hlegible.eq_ofRule hmem hread
    have hfound := (hiff _).mpr ⟨hmem, hwhich.imp_right (And.imp_right name_ofRule_eq_some.mpr)⟩
    rw [hfound]
    exact hread

/-- **When it is said that there is no such rule.** -/
theorem findRule_eq_notFound_iff (hversion : d.version.isSome = true)
    (hlegible : d.rules.IsLegible) {x : String} :
    d.findRule true x = .error (.fault (.of (.ruleNotFound "find_rule" x))) ↔
      ∀ rule, d.Holds rule → rule.id ≠ x ∧ ¬ rule.IsNamed x := by
  have hiff : d.rules.find? x = none ↔ ∀ rule, d.Holds rule → rule.id ≠ x ∧ ¬ rule.IsNamed x := by
    rw [Table.find?_eq_none_iff, forall_rows_iff hlegible]
    simp only [ne_eq, name_ofRule_eq_some]
    rfl
  rw [findRule_eq hversion, ← hiff]
  constructor
  · intro h
    split at h
    · next row hrow =>
      -- a row that is found is read, so that is no failure
      obtain ⟨rule, hread⟩ := hlegible.rule (Table.mem_of_find? hrow)
      rw [hread] at h
      cases h
    · assumption
  · intro hnone
    rw [hnone]

end Storage.Database

namespace Rule

/-- **A rule is found under its identifier, and else under its name.**  In a store that callers bring
about from an empty one every row is read as a rule, and no two rules are named alike.  A rule is
found under a text if and only if it is stored and the text is its identifier, or the text is its
name and the identifier of no stored rule; so a rule is always found under its identifier, whatever
other rules are named.  That there is no such rule is said if and only if the text is neither the
identifier nor the name of a stored rule. -/
theorem findRule_by_id_or_name {s : Store} (hs : s.IsEmpty) {calls : List Call}
    (hcalls : ∀ c ∈ calls, c.IsProper) (x : String) :
    let d := (s.run calls).database
    (∀ row ∈ d.rules, ∃ rule, row.rule = .ok rule) ∧
    (∀ rule rule', d.Holds rule → d.Holds rule' → rule.IsNamed x → rule'.IsNamed x →
      rule = rule') ∧
    (∀ rule, d.findRule true x = .ok rule ↔ d.Holds rule ∧
      (rule.id = x ∨ (∀ rule', d.Holds rule' → rule'.id ≠ x) ∧ rule.IsNamed x)) ∧
    (d.findRule true x = .error (.fault (.of (.ruleNotFound "find_rule" x))) ↔
      ∀ rule, d.Holds rule → rule.id ≠ x ∧ ¬ rule.IsNamed x) := by
  obtain ⟨hversion, hids, hlegible⟩ := isLegible_run hs hcalls
  obtain ⟨_, _, hnames⟩ := unique_run hs calls
  generalize (s.run calls).database = d at hversion hids hlegible hnames ⊢
  refine ⟨fun row hrow => hlegible.rule hrow, ?_,
    fun rule => Database.findRule_eq_ok_iff hversion hids hnames hlegible,
    Database.findRule_eq_notFound_iff hversion hlegible⟩
  rintro rule rule' ⟨row, hrow, hread⟩ ⟨row', hrow', hread'⟩ hnamed hnamed'
  obtain rfl := hlegible.eq_ofRule hrow hread
  obtain rfl := hlegible.eq_ofRule hrow' hread'
  have hid := hnames _ hrow _ hrow' x (name_ofRule_eq_some.mpr hnamed)
    (name_ofRule_eq_some.mpr hnamed')
  have hsame := List.inj_on_of_nodup_map hids hrow hrow' hid
  rw [hsame, hread'] at hread
  exact (Except.ok.inj hread).symm

/-- Storing a rule with the identifier of another one as its name. -/
def savedCrossed : List Call :=
  [⟨true, 0, .save [namedRule "a" "b", namedRule "b" "c"] false⟩]

/-- Of two rules, one of which has the identifier of the other as its name, that other one is found
under it; the first is found under its own identifier, and nothing under an empty text. -/
theorem findRule_by_id_or_name_crossed :
    Store.fresh.IsEmpty ∧ (∀ c ∈ savedCrossed, c.IsProper) ∧
      (Store.fresh.run savedCrossed).database.findRule true "b" = .ok (namedRule "b" "c") ∧
      (Store.fresh.run savedCrossed).database.findRule true "c" = .ok (namedRule "b" "c") ∧
      (Store.fresh.run savedCrossed).database.findRule true "" =
        .error (.fault (.of (.ruleNotFound "find_rule" ""))) := by
  have hcalls : ∀ c ∈ savedCrossed, c.IsProper := by decide
  have hrows : (Store.fresh.run savedCrossed).database.rules =
      [Row.ofRule (namedRule "a" "b"), Row.ofRule (namedRule "b" "c")] := rfl
  have hread : ∀ id name, (Row.ofRule (namedRule id name)).rule = .ok (namedRule id name) :=
    fun id name => Row.rule_ofRule ⟨List.nodup_nil, 0, by decide, rfl⟩
  have hholds : ∀ rule, (Store.fresh.run savedCrossed).database.Holds rule ↔
      rule = namedRule "a" "b" ∨ rule = namedRule "b" "c" := by
    intro rule
    rw [Database.Holds, hrows]
    simp [hread, eq_comm]
  have hfind := fun x => findRule_by_id_or_name Store.isEmpty_fresh hcalls x
  refine ⟨Store.isEmpty_fresh, hcalls, ?_, ?_, ?_⟩
  · exact ((hfind "b").2.2.1 _).mpr ⟨(hholds _).mpr (.inr rfl), .inl rfl⟩
  · refine ((hfind "c").2.2.1 _).mpr ⟨(hholds _).mpr (.inr rfl), .inr ⟨fun rule hrule => ?_, ?_⟩⟩
    · rcases (hholds rule).mp hrule with rfl | rfl <;> decide
    · exact ⟨by decide, rfl⟩
  · refine (hfind "").2.2.2.mpr fun rule hrule => ⟨?_, fun hnamed => hnamed.1 rfl⟩
    rcases (hholds rule).mp hrule with rfl | rfl <;> decide

end Rule

end AccessRules
