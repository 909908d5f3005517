import Mathlib.Data.List.Induction
import AccessRules.Proofs.Rule.Identifiers

/-!
# What storing and removing rules does

**Program** — `Rule.Table.insertAll` stores a batch of rules, `Rule.Table.remove` marks rules as
removed; `Database.save` and `Database.removeRules` are what callers use (`Store.step`).

**Spec** — a batch is stored as a whole, each rule *put* in the place of the row with its identifier
or behind all others (`insertAll_of_not_stops`), unless one of them is refused; then nothing is
stored (`Stops.insertAll`).  What a table holds after a batch is what it held under other
identifiers, and of each identifier of the batch the last rule (`mem_putAll`).

**Crux** — whether a rule is refused depends on the table at that moment, that is with the rules
before it in the batch already put.  That table is the result of storing those rules alone
(`insertAll_append`), so an induction from the front of the batch carries both.
-/

namespace AccessRules

open Calendar Storage

namespace Rule

namespace Table

/-! ## One rule -/

/-- The table with a row in the place of the one with its identifier, or behind all others. -/
def put (t : Table) (row : Row) : Table := if t.hasId row.id then t.replace row else t ++ [row]

/-- A rule cannot be added to a table: its identifier is taken and must not be replaced, or it has a
name and that belongs to a row with another identifier. -/
def Refuses (t : Table) (replacing : Bool) (rule : Rule) : Prop :=
  (replacing = false ∧ ∃ r ∈ t, r.id = rule.id) ∨
    (rule.name ≠ "" ∧ ∃ r ∈ t, r.name = some rule.name ∧ r.id ≠ rule.id)

theorem hasId_iff {t : Table} {id : String} : t.hasId id = true ↔ ∃ r ∈ t, r.id = id := by
  simp [hasId]

theorem name_ofRule_of_empty {rule : Rule} (h : rule.name = "") :
    (Row.ofRule rule).name = none := by
  simp [Row.ofRule, h]

theorem name_ofRule_of_ne {rule : Rule} (h : rule.name ≠ "") :
    (Row.ofRule rule).name = some rule.name := by
  simp [Row.ofRule, h]

/-- Whether the name of a rule belongs to another row. -/
theorem nameTaken_iff {t : Table} {rule : Rule} :
    t.nameTaken (Row.ofRule rule) = true ↔
      rule.name ≠ "" ∧ ∃ r ∈ t, r.name = some rule.name ∧ r.id ≠ rule.id := by
  have hid : (Row.ofRule rule).id = rule.id := rfl
  by_cases h : rule.name = ""
  · simp [nameTaken, name_ofRule_of_empty h, h]
  · simp [nameTaken, name_ofRule_of_ne h, h, hid]

/-- Whether the name of a rule is in the table at all. -/
theorem hasName_iff {t : Table} {rule : Rule} :
    ((Row.ofRule rule).name.isSome && t.any (·.name == (Row.ofRule rule).name)) = true ↔
      rule.name ≠ "" ∧ ∃ r ∈ t, r.name = some rule.name := by
  by_cases h : rule.name = ""
  · simp [name_ofRule_of_empty h, h]
  · simp [name_ofRule_of_ne h, h]

/-- **All that adding a rule can do**: it is refused, or it is put in its place. -/
theorem insert_cases (t : Table) (replacing : Bool) (rule : Rule) :
    (t.Refuses replacing rule ∧ ∃ c, t.insert replacing (Row.ofRule rule) = .error c) ∨
      (¬ t.Refuses replacing rule ∧
        t.insert replacing (Row.ofRule rule) = .ok (t.put (Row.ofRule rule))) := by
  have hid : (Row.ofRule rule).id = rule.id := rfl
  unfold insert
  split
  · -- the identifier is there, and its row may be replaced
    next hreplace =>
    obtain ⟨hhas, rfl⟩ := Bool.and_eq_true_iff.mp hreplace
    split
    · next hname => exact .inl ⟨.inr (nameTaken_iff.mp hname), _, rfl⟩
    · next hname =>
      refine .inr ⟨?_, by rw [put, if_pos hhas]⟩
      rintro (⟨hno, _⟩ | htaken)
      · cases hno
      · exact hname (nameTaken_iff.mpr htaken)
  · next hreplace =>
    have hnew : t.hasId rule.id = false ∨ replacing = false := by
      rw [hid] at hreplace
      cases hhas : t.hasId rule.id <;> cases replacing <;> simp_all
    split
    · -- the name is there: under another identifier, or the identifier is there too
      next hname =>
      obtain ⟨hne, r, hr, hrname⟩ := hasName_iff.mp hname
      refine .inl ⟨?_, _, rfl⟩
      by_cases hsame : r.id = rule.id
      · have hhas : t.hasId rule.id = true := hasId_iff.mpr ⟨r, hr, hsame⟩
        rcases hnew with hno | hkeep
        · rw [hhas] at hno
          cases hno
        · exact .inl ⟨hkeep, r, hr, hsame⟩
      · exact .inr ⟨hne, r, hr, hrname, hsame⟩
    · next hname =>
      split
      · next hhas =>
        refine .inl ⟨.inl ⟨?_, hasId_iff.mp hhas⟩, _, rfl⟩
        rcases hnew with hno | hkeep
        · rw [← hid, hhas] at hno
          cases hno
        · exact hkeep
      · next hhas =>
        refine .inr ⟨?_, by rw [put, if_neg hhas]⟩
        rintro (⟨_, hthere⟩ | ⟨hne, r, hr, hrname, _⟩)
        · exact hhas (hasId_iff.mpr hthere)
        · exact hname (hasName_iff.mpr ⟨hne, r, hr, hrname⟩)

/-! ## Batches -/

/-- The table with rows put one after the other. -/
def putAll (t : Table) (rows : List Row) : Table := rows.foldl put t

theorem insertAll_cons (t : Table) (replacing : Bool) (row : Row) (rows : List Row) :
    t.insertAll replacing (row :: rows) =
      t.insert replacing row >>= fun t' => t'.insertAll replacing rows := by
  rw [insertAll, List.foldlM_cons]
  rfl

theorem insertAll_append (t : Table) (replacing : Bool) (rows more : List Row) :
    t.insertAll replacing (rows ++ more) =
      t.insertAll replacing rows >>= fun t' => t'.insertAll replacing more := by
  rw [insertAll, List.foldlM_append]
  rfl

/-- A rule of a batch is refused by the table that the rules before it leave. -/
def Stops (t : Table) (replacing : Bool) (rules : List Rule) : Prop :=
  ∃ before rule after t', rules = before ++ rule :: after ∧
    t.insertAll replacing (before.map Row.ofRule) = .ok t' ∧ t'.Refuses replacing rule

/-- A batch that stops at a rule is not stored. -/
theorem Stops.insertAll {t : Table} {replacing : Bool} {rules : List Rule}
    (h : t.Stops replacing rules) :
    ∃ c, t.insertAll replacing (rules.map Row.ofRule) = .error c := by
  obtain ⟨before, rule, after, t', rfl, hbefore, hrefuses⟩ := h
  rcases t'.insert_cases replacing rule with ⟨_, c, hinsert⟩ | ⟨hno, _⟩
  · refine ⟨c, ?_⟩
    rw [List.map_append, List.map_cons, insertAll_append, hbefore]
    show t'.insertAll replacing (Row.ofRule rule :: after.map Row.ofRule) = _
    rw [insertAll_cons, hinsert]
    rfl
  · exact absurd hrefuses hno

/-- A batch that does not stop gets past its first rule, which is put. -/
theorem insert_of_not_stops {t : Table} {replacing : Bool} {rule : Rule} {rules : List Rule}
    (h : ¬ t.Stops replacing (rule :: rules)) :
    ¬ t.Refuses replacing rule ∧
      t.insert replacing (Row.ofRule rule) = .ok (t.put (Row.ofRule rule)) ∧
      ¬ (t.put (Row.ofRule rule)).Stops replacing rules := by
  rcases t.insert_cases replacing rule with ⟨hrefuses, _⟩ | ⟨hno, hinsert⟩
  · exact absurd ⟨[], rule, rules, t, rfl, rfl, hrefuses⟩ h
  refine ⟨hno, hinsert, ?_⟩
  rintro ⟨before, rule', after, t', rfl, hbefore, hrefuses⟩
  refine h ⟨rule :: before, rule', after, t', rfl, ?_, hrefuses⟩
  rw [List.map_cons, insertAll_cons, hinsert]
  exact hbefore

/-- A batch that does not stop is put, rule by rule. -/
theorem insertAll_of_not_stops {t : Table} {replacing : Bool} {rules : List Rule}
    (h : ¬ t.Stops replacing rules) :
    t.insertAll replacing (rules.map Row.ofRule) = .ok (t.putAll (rules.map Row.ofRule)) := by
  induction rules generalizing t with
  | nil => rfl
  | cons rule rules ih =>
    obtain ⟨_, hinsert, hrest⟩ := insert_of_not_stops h
    rw [List.map_cons, insertAll_cons, hinsert]
    exact ih hrest

/-- What each rule keeps that is put is kept by a batch that does not stop. -/
theorem putAll_keeps {P : Table → Prop} {replacing : Bool}
    (put : ∀ (t : Table) (rule : Rule), P t → ¬ t.Refuses replacing rule →
      P (t.put (Row.ofRule rule))) {t : Table} (ht : P t) {rules : List Rule}
    (h : ¬ t.Stops replacing rules) : P (t.putAll (rules.map Row.ofRule)) := by
  induction rules generalizing t with
  | nil => exact ht
  | cons rule rules ih =>
    obtain ⟨hno, _, hrest⟩ := insert_of_not_stops h
    exact ih (put t rule ht hno) hrest

/-! ## What a table holds after a batch -/

theorem mem_replace {t : Table} {row r : Row} (h : t.hasId row.id = true) :
    r ∈ t.replace row ↔ (r ∈ t ∧ r.id ≠ row.id) ∨ r = row := by
  rw [replace, List.mem_map]
  constructor
  · rintro ⟨r', hr', rfl⟩
    by_cases hid : r'.id = row.id
    · simp [hid]
    · simp [hid, hr']
  · rintro (⟨hr, hid⟩ | rfl)
    · exact ⟨r, hr, by simp [hid]⟩
    · obtain ⟨r', hr', hid⟩ := hasId_iff.mp h
      exact ⟨r', hr', by simp [hid]⟩

/-- A row that is put is the only one with its identifier. -/
theorem mem_put {t : Table} {row r : Row} :
    r ∈ t.put row ↔ (r ∈ t ∧ r.id ≠ row.id) ∨ r = row := by
  rw [put]
  split
  · next h => exact mem_replace h
  · next h =>
    rw [List.mem_append, List.mem_singleton]
    have hall : r ∈ t → r.id ≠ row.id := fun hr hid => h (hasId_iff.mpr ⟨r, hr, hid⟩)
    constructor
    · exact Or.imp_left fun hr => ⟨hr, hall hr⟩
    · exact Or.imp_left And.left

/-- **What a table holds after a batch**: what it held under other identifiers, and of each
identifier of the batch the last row. -/
theorem mem_putAll {t : Table} {rows : List Row} {r : Row} :
    r ∈ t.putAll rows ↔ (r ∈ t ∧ r.id ∉ rows.map (·.id)) ∨
      ∃ before after, rows = before ++ r :: after ∧ r.id ∉ after.map (·.id) := by
  induction rows generalizing t with
  | nil => simp [putAll]
  | cons row rows ih =>
    rw [putAll, List.foldl_cons, ← putAll, ih, mem_put, List.map_cons, List.mem_cons, not_or]
    constructor
    · -- the row that is put first stays only if none of its identifier follows
      rintro (⟨⟨hr, hid⟩ | rfl, hrest⟩ | ⟨before, after, rfl, hafter⟩)
      · exact .inl ⟨hr, hid, hrest⟩
      · exact .inr ⟨[], rows, rfl, hrest⟩
      · exact .inr ⟨row :: before, after, rfl, hafter⟩
    · rintro (⟨hr, hid, hrest⟩ | ⟨before, after, hsplit, hafter⟩)
      · exact .inl ⟨.inl ⟨hr, hid⟩, hrest⟩
      · cases before with
        | nil =>
          obtain ⟨rfl, rfl⟩ := List.cons.inj hsplit
          exact .inl ⟨.inr rfl, hafter⟩
        | cons row' before =>
          obtain ⟨_, rfl⟩ := List.cons.inj hsplit
          exact .inr ⟨before, after, rfl, hafter⟩

/-! ## Removing -/

/-- A row that was marked, or was not to be. -/
theorem mem_of_mark {d : Removal} {r r' : Row} (h : d.mark r = .ok r') :
    r' = r ∨ r' = { r with removed := true } := by
  rw [Removal.mark] at h
  obtain ⟨admitted, _, rfl⟩ := ok_of_map h
  cases admitted
  · exact .inl rfl
  · exact .inr rfl

/-- Removing rules changes marks only. -/
theorem mem_of_remove {t t' : Table} {d : Removal} {n : Nat} (h : t.remove d = .ok (n, t'))
    {r' : Row} (hr' : r' ∈ t') : ∃ r ∈ t, r' = r ∨ r' = { r with removed := true } := by
  rw [remove] at h
  obtain ⟨marks, _, h⟩ := ok_of_bind h
  obtain ⟨rows, hrows, h⟩ := ok_of_bind h
  cases h
  obtain ⟨r, hr, hmark⟩ := exists_of_mem_mapM hrows hr'
  exact ⟨r, hr, mem_of_mark hmark⟩

end Table

end Rule

namespace Storage

/-- No identifier of a supply is empty. -/
theorem identifier_ne_empty (n : Nat) : identifier n ≠ "" := by
  intro h
  have hchars : Text.fixedHex 32 n = [] := by
    rw [identifier] at h
    exact String.ofList_eq_empty_iff.mp h
  rw [Text.fixedHex] at hchars
  exact List.append_ne_nil_of_right_ne_nil _ (List.cons_ne_nil _ _) hchars

end Storage

namespace Rule

/-! ## Rules as they are stored -/

/-- A batch as it is stored at an instant: the same rules in the same order, each of them with that
moment; those that have an identifier keep it, and the others get the next ones of the supply in
turn. -/
structure IsAssigned (now : Instant) (ids : Supply) (rules saved : List Rule) : Prop where
  length : saved.length = rules.length
  given : ∀ (i : Nat) (rule : Rule), rules[i]? = some rule → rule.id ≠ "" →
    saved[i]? = some { rule with created := .utc now }
  supplied : ∀ (i : Nat) (rule : Rule), rules[i]? = some rule → rule.id = "" →
    saved[i]? = some { rule with
      id := identifier (ids + ((rules.take i).countP fun r => r.id.isEmpty) + 1),
      created := .utc now }

section Assigned

variable {now : Instant} {ids : Supply} {rule : Rule} {rules saved : List Rule}

theorem IsAssigned.cons_given (h : IsAssigned now ids rules saved) (hid : rule.id ≠ "") :
    IsAssigned now ids (rule :: rules) ({ rule with created := .utc now } :: saved) where
  length := by rw [List.length_cons, List.length_cons, h.length]
  given i rule' hrule' hne := by
    cases i with
    | zero =>
      cases hrule'
      rfl
    | succ i => exact h.given i rule' hrule' hne
  supplied i rule' hrule' hempty := by
    cases i with
    | zero =>
      cases hrule'
      exact absurd hempty hid
    | succ i =>
      have hcount : (((rule :: rules).take (i + 1)).countP fun r => r.id.isEmpty) =
          (rules.take i).countP fun r => r.id.isEmpty := by simp [hid]
      rw [hcount]
      exact h.supplied i rule' hrule' hempty

theorem IsAssigned.cons_supplied (h : IsAssigned now (ids + 1) rules saved) (hid : rule.id = "") :
    IsAssigned now ids (rule :: rules)
      ({ rule with id := identifier (ids + 1), created := .utc now } :: saved) where
  length := by rw [List.length_cons, List.length_cons, h.length]
  given i rule' hrule' hne := by
    cases i with
    | zero =>
      cases hrule'
      exact absurd hid hne
    | succ i => exact h.given i rule' hrule' hne
  supplied i rule' hrule' hempty := by
    cases i with
    | zero =>
      cases hrule'
      rfl
    | succ i =>
      -- one identifier more was given out before
      have hcount : ids + (((rule :: rules).take (i + 1)).countP fun r => r.id.isEmpty) + 1 =
          ids + 1 + ((rules.take i).countP fun r => r.id.isEmpty) + 1 := by
        simp [hid]
        omega
      rw [hcount]
      exact h.supplied i rule' hrule' hempty

/-- **Rules are stored as they are**, but for identifiers they do not have and their moments. -/
theorem isAssigned_assign (now : Instant) (rules : List Rule) (ids : Supply) :
    IsAssigned now ids rules (assign now rules ids).1 := by
  induction rules generalizing ids with
  | nil => exact ⟨rfl, by simp, by simp⟩
  | cons rule rules ih =>
    rw [assign]
    by_cases hid : rule.id = ""
    · rw [if_pos (String.isEmpty_iff.mpr hid)]
      exact (ih (ids + 1)).cons_supplied hid
    · rw [if_neg fun h => hid (String.isEmpty_iff.mp h)]
      exact (ih ids).cons_given hid

/-- Each rule that is stored is one of the batch, with an identifier and the moment of storing. -/
theorem IsAssigned.exists_of_mem (h : IsAssigned now ids rules saved) {stored : Rule}
    (hstored : stored ∈ saved) :
    ∃ rule ∈ rules, ∃ id ≠ "", stored = { rule with id := id, created := .utc now } := by
  obtain ⟨i, hi, rfl⟩ := List.mem_iff_getElem.mp hstored
  have hi' : i < rules.length := by rwa [← h.length]
  refine ⟨rules[i], List.getElem_mem hi', ?_⟩
  have hrule : rules[i]? = some rules[i] := List.getElem?_eq_getElem hi'
  by_cases hid : rules[i].id = ""
  · exact ⟨_, identifier_ne_empty _, List.getElem_eq_iff hi |>.mpr (h.supplied i _ hrule hid)⟩
  · exact ⟨_, hid, List.getElem_eq_iff hi |>.mpr (h.given i _ hrule hid)⟩

end Assigned

end Rule

namespace Storage.Database

open Rule

variable {d : Database}

/-- Over an open connection tables that are made can be read. -/
theorem canRead_open (hversion : d.version.isSome = true) (operation table : String) :
    d.canRead true operation table = .ok () := by
  simp [canRead, Option.isSome_iff_ne_none.mp hversion]

/-- Over an open connection tables that are made can be written. -/
theorem canWrite_open (hversion : d.version.isSome = true) (operation table : String) :
    d.canWrite true operation table = .ok () :=
  canWrite_eq_ok_iff.mpr ⟨rfl, rfl, hversion⟩

/-! ## Saving -/

/-- Over an open connection rules are stored as their table stores them. -/
theorem putRules_eq (hversion : d.version.isSome = true) (rules : List Rule) (replacing : Bool) :
    d.putRules true rules replacing =
      match d.rules.insertAll replacing (rules.map Row.ofRule) with
      | .ok table => .ok { d with rules := table }
      | .error conflict => .error conflict.failure := by
  cases rules with
  | nil => rfl
  | cons rule rules =>
    simp only [putRules, List.isEmpty_cons, Bool.and_false, Bool.false_eq_true, if_false,
      canWrite_open hversion]
    rfl

/-- The rules that are to be stored are those with identifiers and the moment of storing. -/
theorem save_rules (connected : Bool) (now : Instant) (ids : Supply) (rules : List Rule)
    (replacing : Bool) :
    (d.save connected now ids rules replacing).rules = (assign now rules ids).1 := by
  rw [save]
  dsimp only
  split <;> rfl

/-- **All that saving can do over an open connection**: the batch stops at a rule, and nothing
changes; or all rules are put and handed back. -/
theorem save_cases (hversion : d.version.isSome = true) (now : Instant) (ids : Supply)
    (rules : List Rule) (replacing : Bool) :
    (d.rules.Stops replacing (assign now rules ids).1 ∧
      (∃ c : Conflict, (d.save true now ids rules replacing).answer = .error c.failure) ∧
      (d.save true now ids rules replacing).database = d) ∨
    (¬ d.rules.Stops replacing (assign now rules ids).1 ∧
      (d.save true now ids rules replacing).answer = .ok (assign now rules ids).1 ∧
      (d.save true now ids rules replacing).database =
        { d with rules := d.rules.putAll ((assign now rules ids).1.map Row.ofRule) }) := by
  have hput := putRules_eq hversion (assign now rules ids).1 replacing
  by_cases hstops : d.rules.Stops replacing (assign now rules ids).1
  · obtain ⟨c, hinsert⟩ := hstops.insertAll
    rw [hinsert] at hput
    refine .inl ⟨hstops, ⟨c, ?_⟩, ?_⟩ <;> simp only [save, hput]
  · rw [Table.insertAll_of_not_stops hstops] at hput
    refine .inr ⟨hstops, ?_, ?_⟩ <;> simp only [save, hput]

/-- Whatever the reason, saving that fails changes no rule. -/
theorem save_of_error {connected : Bool} {now : Instant} {ids : Supply} {rules : List Rule}
    {replacing : Bool} {f : Failure}
    (h : (d.save connected now ids rules replacing).answer = .error f) :
    (d.save connected now ids rules replacing).database = d := by
  rw [save] at h ⊢
  dsimp only at h ⊢
  split at h
  · cases h
  · rfl

/-- Over a closed connection nothing is saved. -/
theorem save_of_closed (now : Instant) (ids : Supply) (rules : List Rule) (replacing : Bool) :
    (d.save false now ids rules replacing).database = d := by
  have hclosed : ∀ rules, d.putRules false rules replacing = .error d.closed := fun _ => rfl
  simp only [save, hclosed]

end Storage.Database

namespace Rule

/-! ## The store -/

/-- What callers ask of the store of rules. -/
inductive Request where
  | save (rules : List Rule) (replacing : Bool)
  | remove (d : Removal)
  deriving DecidableEq, Repr

/-- The rules a request hands over. -/
def Request.batch : Request → List Rule
  | .save rules _ => rules
  | .remove _ => []

/-- A request made at an instant, while the connection was open or closed. -/
structure Timed (ρ : Type) where
  connected : Bool
  now : Instant
  request : ρ
  deriving DecidableEq, Repr

/-- A request that can be carried out: its moment is within the calendar, and the rules it hands over
have no label twice. -/
structure Timed.IsProper {ρ : Type} (batch : ρ → List Rule) (c : Timed ρ) : Prop where
  inCalendar : inCalendar c.now = true
  labels : ∀ rule ∈ batch c.request, (rule.metadata.map Prod.fst).Nodup

instance {ρ : Type} (batch : ρ → List Rule) (c : Timed ρ) : Decidable (c.IsProper batch) :=
  decidable_of_iff (inCalendar c.now = true ∧
      ∀ rule ∈ batch c.request, (rule.metadata.map Prod.fst).Nodup)
    ⟨fun h => ⟨h.1, h.2⟩, fun h => ⟨h.inCalendar, h.labels⟩⟩

/-- A call of the store. -/
abbrev Call := Timed Request

/-- A call of the store that can be carried out. -/
abbrev Call.IsProper (c : Call) : Prop := Timed.IsProper Request.batch c

/-- A database and the identifiers that are left. -/
structure Store where
  database : Database
  ids : Supply
  deriving DecidableEq, Repr

namespace Store

/-- A store whose tables are made and hold no rules. -/
structure IsEmpty (s : Store) : Prop where
  prepared : s.database.version.isSome = true
  rules : s.database.rules = []

/-- A store with its tables and nothing in them. -/
def fresh : Store := ⟨{ Database.blank "" with version := some Database.currentVersion }, 0⟩

theorem isEmpty_fresh : fresh.IsEmpty := ⟨rfl, rfl⟩

/-- The store after a call. -/
def step (s : Store) (c : Call) : Store :=
  match c.request with
  | .save rules replacing =>
    let saved := s.database.save c.connected c.now s.ids rules replacing
    ⟨saved.database, saved.ids⟩
  | .remove d =>
    match s.database.removeRules c.connected d with
    | .ok (_, database) => { s with database := database }
    | .error _ => s

/-- The store after some calls. -/
def run (s : Store) (calls : List Call) : Store := calls.foldl step s

theorem run_append (s : Store) (a b : List Call) : s.run (a ++ b) = (s.run a).run b := by
  rw [run, List.foldl_append]
  rfl

/-- What becomes of the table of rules in a call. -/
inductive Change (s : Store) (c : Call) : Table → Prop
  | kept : Change s c s.database.rules
  | saved (rules : List Rule) (replacing : Bool) (hrequest : c.request = .save rules replacing)
      (hstored : ¬ s.database.rules.Stops replacing (assign c.now rules s.ids).1) :
      Change s c (s.database.rules.putAll ((assign c.now rules s.ids).1.map Row.ofRule))
  | removed (d : Removal) (n : Nat) (t : Table) (ht : s.database.rules.remove d = .ok (n, t)) :
      Change s c t

/-- **One call leaves the table, stores a whole batch, or changes marks**; the tables stay made. -/
theorem step_change {s : Store} (hversion : s.database.version.isSome = true) (c : Call) :
    (s.step c).database.version = s.database.version ∧
      Change s c (s.step c).database.rules := by
  obtain ⟨connected, now, request⟩ := c
  cases request with
  | save rules replacing =>
    simp only [step]
    cases connected with
    | false =>
      rw [Database.save_of_closed]
      exact ⟨rfl, .kept⟩
    | true =>
      rcases Database.save_cases hversion now s.ids rules replacing with
        ⟨_, _, hsame⟩ | ⟨hstored, _, hafter⟩
      · rw [hsame]
        exact ⟨rfl, .kept⟩
      · rw [hafter]
        exact ⟨rfl, .saved rules replacing rfl hstored⟩
  | remove d =>
    simp only [step]
    split
    · next n database hremove =>
      rw [Database.removeRules] at hremove
      obtain ⟨_, _, hremove⟩ := ok_of_bind hremove
      obtain ⟨⟨count, table⟩, htable, hremove⟩ := ok_of_bind hremove
      dsimp only at hremove
      split at hremove
      · cases hremove
      · cases hremove
        exact ⟨rfl, .removed d _ _ htable⟩
    · exact ⟨rfl, .kept⟩

end Store

/-- **What whole batches and marks keep is kept by every run** from an empty store; a batch may be
known to be of some kind. -/
theorem Store.run_keeps {P : Table → Prop} {K : List Rule → Prop} (nil : P [])
    (put : ∀ (t : Table) (rules : List Rule) (replacing : Bool), P t → K rules →
      ¬ t.Stops replacing rules → P (t.putAll (rules.map Row.ofRule)))
    (remove : ∀ (t t' : Table) (d : Removal) (n : Nat), P t → t.remove d = .ok (n, t') → P t')
    {s : Store} (hs : s.IsEmpty) {calls : List Call}
    (hcalls : ∀ c ∈ calls, ∀ rules replacing, c.request = .save rules replacing →
      ∀ ids, K (assign c.now rules ids).1) :
    (s.run calls).database.version.isSome = true ∧ P (s.run calls).database.rules := by
  induction calls using List.reverseRecOn with
  | nil =>
    refine ⟨hs.prepared, ?_⟩
    rw [Store.run, List.foldl_nil, hs.rules]
    exact nil
  | append_singleton calls c ih =>
    obtain ⟨hversion, hbefore⟩ := ih fun c hc => hcalls c (List.mem_append_left _ hc)
    obtain ⟨hsame, hchange⟩ := Store.step_change hversion c
    rw [Store.run_append]
    show (Store.step (s.run calls) c).database.version.isSome = true ∧
      P (Store.step (s.run calls) c).database.rules
    refine ⟨by rw [hsame, hversion], ?_⟩
    generalize (Store.step (s.run calls) c).database.rules = t' at hchange ⊢
    cases hchange with
    | kept => exact hbefore
    | saved rules replacing hrequest hstored =>
      exact put _ _ replacing hbefore (hcalls c (by simp) rules replacing hrequest _) hstored
    | removed d n _ ht => exact remove _ _ d n hbefore ht

end Rule

end AccessRules
